import ImportAtlas.Declaration.Basic
import ImportAtlas.Declaration.BraceList

/-!
# Export statements

`export` with a brace list, or with a declaration: any of `default`, `async` and `abstract` in that
order, a declaring keyword and the declared name. The brace form is tried first.
-/

namespace ImportAtlas

inductive ExportStatement where
  /-- A brace list. -/
  | named (body : List Char)
  /-- A declaration of one name. -/
  | declared (name : List Char)
  deriving DecidableEq, Repr

namespace ExportStatement

open Recogniser

def declaring : List String := ["const", "let", "function", "class", "type", "interface", "enum"]

/-- The text after a keyword that may be missing. -/
def skipKeyword (w : String) (cs : List Char) : List Char := (keyword? w cs).getD cs

/-- A brace list after an optional `type`. -/
def named? (cs : List Char) : Option (ExportStatement × List Char) :=
  (braces? (skipKeyword "type" cs)).map fun (body, r) => (.named body, r)

/-- A declaration after its modifiers. -/
def declared? (cs : List Char) : Option (ExportStatement × List Char) :=
  let r := skipKeyword "abstract" (skipKeyword "async" (skipKeyword "default" cs))
  (declaring.findSome? fun w => keyword? w r).bind fun r =>
    (Text.word? r).map fun (name, r) => (.declared name, r)

def at? : Recogniser ExportStatement := fun cs => do
  let r ← keyword? "export" cs
  (named? r).or (declared? r)

def names : ExportStatement → List (List Char)
  | .named body => BraceList.names .afterAs body
  | .declared name => [name]

end ExportStatement

/-- One record for each name that a text exports, in source order. -/
def exportsOf (file content : String) : List (Export String) :=
  let cs := content.toList
  (Found.scan ExportStatement.at? cs).flatMap fun f =>
    let line := f.line cs
    f.value.names.map fun name => ⟨file, String.ofList name, line⟩

end ImportAtlas
