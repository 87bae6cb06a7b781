import ImportAtlas.Declaration.Basic
import ImportAtlas.Declaration.BraceList

/-!
# Import statements

`import`, an optional `type`, an optional leading name with a comma, then a brace list, a namespace
or a name, and the specifier after `from`. Where `type` could be the keyword or a binding, the
keyword is tried first, and a leading name is tried before the form without one.
-/

namespace ImportAtlas

/-- What an import statement binds besides its leading name. -/
inductive Bindings where
  /-- A brace list. -/
  | named (body : List Char)
  /-- A namespace or the default name. -/
  | single (name : List Char)
  deriving DecidableEq, Repr

structure ImportStatement where
  leading : Option (List Char)
  bindings : Bindings
  specifier : List Char
  deriving DecidableEq, Repr

namespace ImportStatement

open Recogniser

/-- A brace list, a namespace or a name. -/
def bindings? (cs : List Char) : Option (Bindings × List Char) :=
  match cs with
  | '{' :: _ => (braces? cs).map fun (body, r) => (.named body, r)
  | '*' :: r => do
    let r ← Text.skipBlanks1? r
    let r ← keyword? "as" r
    let (name, r) ← Text.word? r
    return (.single name, r)
  | _ => (Text.word? cs).map fun (name, r) => (.single name, r)

def tail? (leading : Option (List Char)) (cs : List Char) : Option (ImportStatement × List Char) := do
  let (bindings, r) ← bindings? cs
  let r ← Text.skipBlanks1? r
  let (specifier, r) ← source? r
  return (⟨leading, bindings, specifier⟩, r)

/-- A leading name, its comma, and what follows. -/
def led? (cs : List Char) : Option (ImportStatement × List Char) := do
  let (name, r) ← Text.word? cs
  let r ← Text.after? [','] (Text.skipBlanks r)
  tail? (some name) (Text.skipBlanks r)

def clause? (cs : List Char) : Option (ImportStatement × List Char) :=
  (led? cs).or (tail? none cs)

def at? : Recogniser ImportStatement := fun cs => do
  let r ← keyword? "import" cs
  ((keyword? "type" r).bind clause?).or (clause? r)

def names (s : ImportStatement) : List (List Char) :=
  s.leading.toList ++
    match s.bindings with
    | .named body => BraceList.names .beforeAs body
    | .single name => [name]

end ImportStatement

/-- A specifier points into the project if it begins with a dot or with an alias. -/
def isProjectSpecifier (aliases : List String) (specifier : String) : Bool :=
  Text.beginsWith specifier "." || aliases.any (Text.beginsWith specifier)

/-- One record for each binding that a text imports, in source order. -/
def importsOf (aliases : List String) (file content : String) : List (Import String) :=
  let cs := content.toList
  (Found.scan ImportStatement.at? cs).flatMap fun f =>
    let specifier := String.ofList f.value.specifier
    let line := f.line cs
    f.value.names.map fun name =>
      ⟨file, String.ofList name, specifier, isProjectSpecifier aliases specifier, line⟩

end ImportAtlas
