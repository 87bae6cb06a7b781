import ImportAtlas.Path

/-!
# Locations

A location is a path read once: its root and its segments, with empty and `.` segments dropped and
`..` kept. Two locations are the same file name exactly when they are equal.
-/

namespace ImportAtlas

/-- A path as its root and its segments. -/
structure Location where
  /-- The slashes in front: none for a relative path, else one or two. -/
  root : Nat
  parts : List String
  deriving DecidableEq, Repr

namespace Location

def ofText (p : String) : Location :=
  ⟨Path.rootSlashes p, (Path.segments p).filter fun s => s ≠ "" ∧ s ≠ "."⟩

/-- Writes a location; the relative location without segments is `.`. -/
def text (l : Location) : String :=
  if l.root = 0 ∧ l.parts = [] then "." else Path.slashes l.root ++ Path.ofSegments l.parts

/-- `b` seen from `a`; an absolute `b` stands for itself. -/
def append (a b : Location) : Location := if b.root = 0 then ⟨a.root, a.parts ++ b.parts⟩ else b

instance : HAppend Location Location Location := ⟨append⟩

def child (l : Location) (name : String) : Location := ⟨l.root, l.parts ++ [name]⟩

/-- The last segment; empty if there is none. -/
def name (l : Location) : String := l.parts.getLast?.getD ""

/-- The name without its extension; a dot that begins or ends the name starts none. -/
def stem (l : Location) : String :=
  match Path.cutLast? '.' l.name.toList with
  | some (s, ext) => if s.isEmpty || ext.isEmpty then l.name else String.ofList s
  | none => l.name

def parent (l : Location) : Location := ⟨l.root, l.parts.dropLast⟩

/-- The rest of a location that begins with `base`, segment by segment. -/
def below? (base l : Location) : Option Location :=
  if base.root = l.root ∧ base.parts <+: l.parts then
    some ⟨0, l.parts.drop base.parts.length⟩
  else none

/-- The location seen from the project root, as text. Outside the root it is the way there, with
relative locations taken from `here`. -/
def relativeTo (here base l : Location) : String :=
  match below? base l with
  | some r => r.text
  | none => (ofText (Path.wayFrom here.text base.text l.text)).text

/-- The absolute location with `..` worked off, relative ones taken from `here`. -/
def resolve (here l : Location) : Location :=
  ⟨1, Path.collapse true (here.append l).parts⟩

end Location

end ImportAtlas
