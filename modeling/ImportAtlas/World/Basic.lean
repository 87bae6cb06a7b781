import ImportAtlas.Fault
import ImportAtlas.Location
import ImportAtlas.Moment.Basic
import ImportAtlas.World.FileTree

/-!
# The world of a command

Everything outside the program that an answer can depend on: the file tree, the working directory,
the home directory, the clock, and the settings file that the environment names.
-/

namespace ImportAtlas

/-- What a command sees. -/
structure World where
  tree : FileTree
  here : Location
  home : Location
  now : Moment
  /-- The settings file that the environment names. -/
  settingsFile : Option String

namespace World

/-- The segments of a location seen from the working directory. -/
def path (w : World) (l : Location) : List String := (w.here.append l).parts

def find (w : World) (l : Location) : Except FileError FileTree := w.tree.find (w.path l)

def has (w : World) (l : Location) : Bool :=
  match w.find l with
  | .ok _ => true
  | .error _ => false

def hasFile (w : World) (l : Location) : Bool :=
  match w.find l with
  | .ok t => t.isFile
  | .error _ => false

def hasDir (w : World) (l : Location) : Bool :=
  match w.find l with
  | .ok t => t.isDir
  | .error _ => false

def readText (w : World) (l : Location) : Except FileError String := do
  match ← w.find l with
  | .file content =>
    match FileTree.decode content with
    | .ok text => return text
    | .error e => throw (.notUtf8 e)
  | .dir _ => throw .isADirectory

/-- Writes a file whose directory exists. -/
def writeText (w : World) (l : Location) (s : String) : Except FileError World := do
  return { w with tree := ← w.tree.write (w.path l) s.toUTF8 }

/-- Makes a directory and those around it. -/
def makeDirs (w : World) (l : Location) : Except FileError World := do
  return { w with tree := ← w.tree.makeDirs [] (w.path l) }

/-- What is left when a directory and those around it are made, also if that fails. -/
def dirsMade (w : World) (l : Location) : World :=
  { w with tree := w.tree.dirsMade [] (w.path l) }

def save (w : World) (l : Location) (s : String) : Except FileError World := do
  (← w.makeDirs l.parent).writeText l s

/-- The time of the clock as reports carry it. -/
def timestamp (w : World) : Except Fault String :=
  match w.now.toUtc? with
  | some text => .ok text
  | none => .error .outOfRange

/-- The location with a leading `~` taken as the home directory; none for another person's. -/
def expandHome? (w : World) (l : Location) : Option Location :=
  match l.root, l.parts with
  | 0, "~" :: rest => some (w.home.append ⟨0, rest⟩)
  | 0, first :: _ => if Text.beginsWith first "~" then none else some l
  | _, _ => some l

end World

end ImportAtlas
