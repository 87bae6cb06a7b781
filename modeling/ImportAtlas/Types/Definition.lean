import ImportAtlas.Declaration.Scan
import ImportAtlas.Location

/-!
# Exported types and their uses

A type is exported by `export type` or `export interface` with a capitalised name. A file uses it
when an import statement names it in a brace list or as its only binding.
-/

namespace ImportAtlas

inductive TypeKind where
  | typeAlias
  | interface
  deriving DecidableEq, Repr

def TypeKind.keyword : TypeKind → String
  | .typeAlias => "type"
  | .interface => "interface"

/-- A file that imports a type, and how many of its statements do. -/
structure TypeUse where
  path : String
  count : Nat
  deriving DecidableEq, Repr

structure TypeDefinition where
  name : String
  kind : TypeKind
  fileName : String
  filePath : String
  line : Int
  uses : List TypeUse
  deriving DecidableEq, Repr

namespace TypeDefinition

open Recogniser

/-- Characters of a type's name after the first. -/
def isNameChar (c : Char) : Bool := c.isAlphanum || c == '_'

/-- A capitalised name. -/
def name? : List Char → Option (List Char × List Char)
  | c :: cs =>
    if c.isUpper then some (c :: cs.takeWhile isNameChar, cs.dropWhile isNameChar) else none
  | [] => none

def at? : Recogniser (TypeKind × List Char) := fun cs => do
  let r ← keyword? "export" cs
  let (kind, r) ← [TypeKind.typeAlias, .interface].findSome? fun k =>
    (keyword? k.keyword r).map (k, ·)
  let (name, r) ← name? r
  return ((kind, name), r)

/-- The types that a text exports, in source order. -/
def ofContent (fileName filePath content : String) : List TypeDefinition :=
  let cs := content.toList
  (Found.scan at? cs).map fun f =>
    ⟨String.ofList f.value.2, f.value.1, fileName, filePath, f.line cs, []⟩

/-- The number of files that use it. -/
def useCount (t : TypeDefinition) : Nat := t.uses.length

def isUsed (t : TypeDefinition) : Bool := !t.uses.isEmpty

def complexMarkers : List String := ["Config", "Options", "Props", "State"]

/-- A name with a marker, or of more than twenty characters. -/
def isComplexName (name : String) : Bool :=
  complexMarkers.any (fun m => Text.occursIn m.toList name.toList) || 20 < name.length

/-- Source files in which types are looked for: no declaration, test or spec files. -/
def isSourceName (name : String) : Bool :=
  Text.finishesWith name ".ts" && !Text.finishesWith name ".d.ts" &&
    !Text.occursIn ".test.".toList name.toList && !Text.occursIn ".spec.".toList name.toList

end TypeDefinition

namespace TypeUse

open Recogniser

/-- `name` as whole words at the front of `cs`, which stands after `before`, in a brace list whose
rest and specifier follow. -/
def namedHere? (name : List Char) (before : Char) (cs : List Char) : Option (List Char) := do
  let r ← Text.after? name cs
  if Text.isBoundary (some before) cs.head? &&
      Text.isBoundary (some (name.getLast?.getD before)) r.head? then
    match r.dropWhile (· != '}') with
    | _ :: r => (source? (Text.skipBlanks r)).map (·.2)
    | [] => none
  else none

/-- `name` somewhere in the brace list whose opening brace was just read; the last place where it
stands is tried first. -/
def namedIn? (name cs : List Char) : Option (List Char) :=
  let run := (cs.takeWhile (· != '}')).length
  (List.range (run + 1)).reverse.findSome? fun k =>
    namedHere? name (if k = 0 then '{' else (cs[k - 1]?).getD '{') (cs.drop k)

def named? (name cs : List Char) : Option (List Char) :=
  let r := Text.skipBlanks cs
  let r := ((Text.after? "type".toList r).map Text.skipBlanks).getD r
  (Text.after? ['{'] r).bind (namedIn? name)

/-- The type as the only binding after `import`. The blanks before it are tried longest first. -/
def single? (name cs : List Char) : Option (List Char) :=
  let run := (cs.takeWhile Text.isBlank).length
  (List.range run).reverse.findSome? fun j => do
    let r ← Text.after? name (cs.drop (j + 1))
    let r ← Text.skipBlanks1? r
    (source? r).map (·.2)

def at? (name : List Char) : Recogniser Unit := fun cs => do
  let r ← Text.after? "import".toList cs
  ((named? name r).or (single? name r)).map ((), ·)

def countIn (name content : String) : Nat := (Found.scan (at? name.toList) content.toList).length

def find (name : String) (sources : List (String × String)) : List TypeUse :=
  sources.filterMap fun (path, content) =>
    let n := countIn name content
    if n = 0 then none else some ⟨path, n⟩

end TypeUse

end ImportAtlas
