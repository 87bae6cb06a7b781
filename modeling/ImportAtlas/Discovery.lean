import ImportAtlas.Json.Access
import ImportAtlas.Settings.Basic
import ImportAtlas.World.Basic

/-!
# Finding source files

`selected` lists the files below a directory by extension, leaving out excluded names at every
level. `Discovery.run` does so for each subtree; a file found in several subtrees counts once and
belongs to the first.
-/

namespace ImportAtlas

mutual

/-- The files among the entries of a directory and below, as paths, in the order of the listings:
those whose extension is allowed and no name on whose path is excluded. -/
def selected (extensions exclude : List String) : List (String × FileTree) → List (List String)
  | [] => []
  | (name, t) :: rest =>
    if exclude.contains name then selected extensions exclude rest
    else selectedAt extensions exclude name t ++ selected extensions exclude rest

/-- The files at an entry whose name is not excluded. -/
def selectedAt (extensions exclude : List String) (name : String) : FileTree → List (List String)
  | .file _ => if extensions.contains (Path.splitExtension name).2 then [[name]] else []
  | .dir entries => (selected extensions exclude entries).map (name :: ·)

end

/-- The files below a directory; none if it is not there. -/
def World.findFiles (w : World) (directory : Location) (extensions exclude : List String) :
    List Location :=
  match w.find directory with
  | .ok (.dir entries) =>
    (selected extensions exclude entries).map fun path => ⟨directory.root, directory.parts ++ path⟩
  | _ => []

structure Discovery where
  /-- The files of each subtree by label. -/
  bySubtree : List (Json × List Location)
  /-- Every file once, with the category of the first subtree that holds it. -/
  files : List (Location × String)

namespace Discovery

/-- Sets the files of a label: in its place if it is there, else at the end. -/
def setLabel (label : Json) (found : List Location) :
    List (Json × List Location) → List (Json × List Location)
  | [] => [(label, found)]
  | (l, fs) :: rest =>
    if l.same label then (l, found) :: rest else (l, fs) :: setLabel label found rest

def addFiles (category : String) (files : List (Location × String)) (found : List Location) :
    List (Location × String) :=
  found.foldl (fun files f => if files.any (·.1 = f) then files else files ++ [(f, category)]) files

/-- Adds a subtree. A list or table cannot be a label. -/
def addSubtree (w : World) (root : Location) (exclude : List String) (d : Discovery)
    (s : Subtree) : Except Fault Discovery := do
  let found := w.findFiles (root.append (Location.ofText s.path)) s.extensions exclude
  let label ← s.label.toKey
  return ⟨setLabel label found d.bySubtree, addFiles s.category d.files found⟩

def run (w : World) (root : Location) (subtrees : List Subtree) (exclude : List String) :
    Except Fault Discovery :=
  subtrees.foldlM (addSubtree w root exclude) ⟨[], []⟩

end Discovery

end ImportAtlas
