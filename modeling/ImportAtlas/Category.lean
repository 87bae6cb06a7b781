import ImportAtlas.Label
import ImportAtlas.Path

/-!
# Categories of source files

A file's category follows from where it lies under the source root. For an import behind an alias
the first segment after the alias stands for a category.
-/

namespace ImportAtlas.Category

/-- Places under the source root and their categories; the first place that fits decides. -/
def places : List (String × String) :=
  [("types", "type"), ("components", "component"), ("hooks", "hook"), ("store", "store"),
   ("lib", "utility"), ("app/api", "api"), ("app", "page")]

/-- The category of a file in none of the places. -/
def other : String := "other"

def types : String := "type"

/-- The category of a path by its place under the source root. Backslashes count as slashes. -/
def ofPath (sourceRoot path : String) : String :=
  let forward := Text.replaceChar '\\' ['/'] path.toList
  let rooted := '/' :: forward.dropWhile (· == '/')
  let root := Path.trimSlashes sourceRoot
  let front := if root = "" then "/" else "/" ++ root ++ "/"
  match places.find? fun p => Text.occursIn (front ++ p.1 ++ "/").toList rooted with
  | some p => p.2
  | none => other

/-- Leading segments and the categories they stand for. -/
abbrev Segments := List (String × String)

def builtIn : Segments :=
  [("types", "type"), ("components", "component"), ("store", "store"), ("hooks", "hook"),
   ("lib", "utility"), ("app", "page")]

/-- The category that a leading segment stands for; an unknown segment stands for itself. -/
def ofSegment (segments : Segments) (segment : String) : String :=
  (segments.lookup segment).getD segment

def leadingSegment? (sourceRoot path : String) : Option String :=
  let root := Path.trimSlashes sourceRoot
  let rel := Path.trimSlashes path
  let below :=
    if root = "" then some rel.toList else Text.after? (root ++ "/").toList rel.toList
  match below.map (Path.segments ∘ String.ofList) with
  | some (s :: _) => if s = "" then none else some s
  | _ => none

/-- Adds a segment unless it is there already. -/
def addSegment (segments : Segments) (segment category : String) : Segments :=
  if (segments.lookup segment).isSome then segments else segments ++ [(segment, category)]

/-- `base` with the leading segments of the subtrees, given as paths and categories. -/
def segmentsFor (base : Segments) (sourceRoot : String) (subtrees : List (String × String)) :
    Segments :=
  subtrees.foldl (fun segments s =>
    match leadingSegment? sourceRoot s.1 with
    | some leading => addSegment segments leading s.2
    | none => segments) base

end ImportAtlas.Category
