import ImportAtlas.Label
import ImportAtlas.Text.Lines
import ImportAtlas.Text.Utf8

/-!
# File trees

Directories and files as a value. The entries of a directory are kept in the order in which a
listing gives them, which may be any. An entry that is set anew keeps its place in the listing, and
a new one gets the place that the order of names gives it.
-/

namespace ImportAtlas

/-- A file with its bytes, or a directory with its entries. -/
inductive FileTree where
  | file (content : ByteArray)
  | dir (entries : List (String × FileTree))

inductive FileError where
  | notFound
  | notADirectory
  | isADirectory
  | alreadyExists
  | notUtf8 (e : Text.Utf8Error)
  deriving DecidableEq, Repr

namespace FileTree

def entry? (name : String) : FileTree → Option FileTree
  | dir entries => entries.lookup name
  | file _ => none

def isDir : FileTree → Bool
  | dir _ => true
  | file _ => false

def isFile (t : FileTree) : Bool := !t.isDir

def get? (t : FileTree) : List String → Option FileTree
  | [] => some t
  | name :: path => (t.entry? name).bind (get? · path)

/-- Replaces the first entry with a name. -/
def replaceEntry (name : String) (t : FileTree) :
    List (String × FileTree) → List (String × FileTree)
  | [] => []
  | (n, u) :: rest =>
    if n = name then (name, t) :: rest else (n, u) :: replaceEntry name t rest

/-- Adds an entry before the first greater name. -/
def insertEntry (name : String) (t : FileTree) :
    List (String × FileTree) → List (String × FileTree)
  | [] => [(name, t)]
  | (n, u) :: rest =>
    if name < n then (name, t) :: (n, u) :: rest else (n, u) :: insertEntry name t rest

/-- Sets an entry, in its place if it is listed. -/
def setEntry (name : String) (t : FileTree) (entries : List (String × FileTree)) :
    List (String × FileTree) :=
  if (entries.lookup name).isSome then replaceEntry name t entries
  else insertEntry name t entries

/-- Puts a tree at a path whose directories exist; those that do not are made. -/
def put (new : FileTree) : List String → FileTree → FileTree
  | [], _ => new
  | name :: path, dir entries =>
    dir (setEntry name (put new path ((entries.lookup name).getD (dir []))) entries)
  | _ :: _, file content => file content

/-- Takes an entry out, with all below it. -/
def remove : List String → FileTree → FileTree
  | [], t => t
  | [name], dir entries => dir (entries.filter (·.1 ≠ name))
  | name :: path, dir entries =>
    match entries.lookup name with
    | some t => dir (setEntry name (remove path t) entries)
    | none => dir entries
  | _ :: _, file content => file content

/-- Follows a path in which `..` leads back up. `here` is the way from the top, innermost name
first. Every name but the last must lead to a directory. -/
def follow (top : FileTree) : List String → List String → Except FileError (List String)
  | here, [] => .ok here
  | here, name :: path =>
    match top.get? here.reverse with
    | none => .error .notFound
    | some (file _) => .error .notADirectory
    | some (dir entries) =>
      if name = ".." then follow top here.tail path
      else if (entries.lookup name).isSome then follow top (name :: here) path
      else if path.isEmpty then .ok (name :: here)
      else .error .notFound

/-- The path without `..` to what a path leads to, which need not exist. -/
def locate (top : FileTree) (path : List String) : Except FileError (List String) :=
  (follow top [] path).map List.reverse

def find (top : FileTree) (path : List String) : Except FileError FileTree := do
  match top.get? (← locate top path) with
  | some t => return t
  | none => throw .notFound

/-- Writes a file into a directory that exists. -/
def write (top : FileTree) (path : List String) (content : ByteArray) : Except FileError FileTree := do
  let place ← locate top path
  match top.get? place with
  | some (dir _) => throw .isADirectory
  | _ => return put (file content) place top

def makeDirs (top : FileTree) : List String → List String → Except FileError FileTree
  | _, [] => .ok top
  | here, name :: path =>
    if name = ".." then makeDirs top here.dropLast path
    else
      let place := here ++ [name]
      match top.get? place with
      | some (dir _) => makeDirs top place path
      | some (file _) => .error (if path.isEmpty then .alreadyExists else .notADirectory)
      | none => makeDirs (put (dir []) place top) place path

/-- The tree that is left when the directories of a path are made, also if that fails: what was made
before a file stood in the way stays. -/
def dirsMade (top : FileTree) : List String → List String → FileTree
  | _, [] => top
  | here, name :: path =>
    if name = ".." then dirsMade top here.dropLast path
    else
      let place := here ++ [name]
      match top.get? place with
      | some (dir _) => dirsMade top place path
      | some (file _) => top
      | none => dirsMade (put (dir []) place top) place path

theorem makeDirs_into {t : FileTree} {here path : List String} {name : String}
    {entries : List (String × FileTree)} (up : name ≠ "..")
    (h : t.get? (here ++ [name]) = some (dir entries)) :
    t.makeDirs here (name :: path) = t.makeDirs (here ++ [name]) path := by
  rw [makeDirs, if_neg up]
  simp only [h]

theorem dirsMade_into {t : FileTree} {here path : List String} {name : String}
    {entries : List (String × FileTree)} (up : name ≠ "..")
    (h : t.get? (here ++ [name]) = some (dir entries)) :
    t.dirsMade here (name :: path) = t.dirsMade (here ++ [name]) path := by
  rw [dirsMade, if_neg up]
  simp only [h]

theorem dirsMade_of_makeDirs {t t' : FileTree} {here path : List String}
    (h : t.makeDirs here path = .ok t') : t.dirsMade here path = t' := by
  fun_induction makeDirs t here path with
  | case1 => exact Except.ok.inj h
  | case2 t here path ih => rw [dirsMade, if_pos rfl, ih h]
  | case3 t here name path hup place entries hget ih => rw [dirsMade_into hup hget, ih h]
  | case4 => cases h
  | case5 t here name path hup place hget ih =>
    rw [dirsMade, if_neg hup]
    simp only [place] at hget
    simp only [hget]
    exact ih h

/-- The text of a file's bytes, with line ends unified. -/
def decode (content : ByteArray) : Except Text.Utf8Error String :=
  match String.fromUTF8? content with
  | some s => .ok (String.ofList (Text.unifyLineEnds s.toList))
  | none => .error (Text.utf8ErrorOf content)

end FileTree

end ImportAtlas
