import ImportAtlas.Json.Reader
import ImportAtlas.Json.Writer
import ImportAtlas.Moment.Reader
import ImportAtlas.World.Basic

/-!
# Snapshots of a world

A snapshot is a document that holds the texts of files by path and the time. A world is set up from
one, and the files that a command wrote are given back as another.
-/

namespace ImportAtlas

namespace FileTree

mutual

/-- All files with the way to them, in the order of names. -/
def files : FileTree → List (List String × ByteArray)
  | file content => [([], content)]
  | dir entries => filesIn entries

def filesIn : List (String × FileTree) → List (List String × ByteArray)
  | [] => []
  | (name, t) :: rest => (files t).map (fun (path, c) => (name :: path, c)) ++ filesIn rest

end

end FileTree

namespace World

/-- A world with its working and home directories and nothing else. -/
def empty (here home : Location) (now : Moment) : World :=
  ⟨.put (.dir []) home.parts (.put (.dir []) here.parts (.dir [])), here, home, now, none⟩

def orElse (w : World) : Except FileError World → World
  | .ok w' => w'
  | .error _ => w

/-- Puts a file in place with the directories around it. A path that ends in a slash is that of a
directory. What cannot be put in place is left out. -/
def put (w : World) (path : String) (content : ByteArray) : World :=
  let l := Location.ofText path
  if Text.finishesWith path "/" then w.orElse (w.makeDirs l)
  else
    let w := w.orElse (w.makeDirs l.parent)
    w.orElse (do return { w with tree := ← w.tree.write (w.path l) content })

def drop (w : World) (l : Location) : World :=
  match w.tree.locate (w.path l) with
  | .ok place => { w with tree := w.tree.remove place }
  | .error _ => w

def ofSnapshot? (here home : Location) (text : String) : Option World :=
  match Json.parse text with
  | .ok v =>
    match v.member? "files", v.member? "now" with
    | some (.obj files), some (.str now) => do
      let w := empty here home (← Moment.ofText? now)
      files.foldlM (fun w (path, content) =>
        match content with
        | .str s => some (w.put path s.toUTF8)
        | _ => none) w
    | _, _ => none
  | .error _ => none

/-- The files that differ from those of an earlier world, as members of a document. -/
def written (earlier w : World) : List (String × Json) :=
  let old := earlier.tree.files
  w.tree.files.filterMap fun (path, content) =>
    if old.any fun (p, c) => p == path && c.data == content.data then none
    else
      match FileTree.decode content with
      | .ok text => some ((⟨1, path⟩ : Location).text, .str text)
      | .error _ => none

end World

end ImportAtlas
