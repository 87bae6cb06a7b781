import ImportAtlas.Json.Reader
import ImportAtlas.Memory.Basic
import ImportAtlas.Text.Blank
import ImportAtlas.World.Basic

/-!
# Memory files

A memory file has one JSON object a line. Lines that are blank or no JSON are passed over, and so
are objects of another type. A report is published by reading the file, setting what the report
says, and writing the file anew; nothing is changed if reading fails.
-/

namespace ImportAtlas

inductive PublishError where
  | file (e : FileError)
  | fault (f : Fault)
  deriving DecidableEq, Repr

namespace Memory

def observations (v : Json CodeUnits) : Except Fault (List (Json CodeUnits)) := do
  (← v.fieldD "observations" (.arr [])).elements

def entityOf (v : Json CodeUnits) : Except Fault (Entity CodeUnits) := do
  let name ← v.field ("name" : CodeUnits)
  let kind ← v.fieldD "entityType" (.str "")
  let observed ← observations v
  return ⟨← name.toKey, kind, observed⟩

def relationOf (v : Json CodeUnits) : Except Fault (Relation CodeUnits) := do
  let source ← v.field ("from" : CodeUnits)
  let target ← v.field ("to" : CodeUnits)
  let kind ← v.fieldD "relationType" (.str "")
  let observed ← observations v
  return ⟨← source.toKey, ← target.toKey, ← kind.toKey, observed⟩

def addItem (m : Memory) (v : Json CodeUnits) : Except Fault Memory := do
  let type ← v.fieldD "type" .null
  if type.same (.str "entity") then return m.setEntity (← entityOf v)
  else if type.same (.str "relation") then return m.setRelation (← relationOf v)
  else return m

def addLine (m : Memory) (line : List Char) : Except Fault Memory :=
  if (Text.trim line).isEmpty then .ok m
  else
    match Json.parse (String.ofList line) with
    | .ok v => addItem m v
    | .error .malformed => .ok m
    | .error .tooManyDigits => .error .badValue

def ofText (s : String) : Except Fault Memory :=
  (Text.boundaryLines s.toList).foldlM addLine empty

/-- The memory in a file; empty if there is none. -/
def load (w : World) (l : Location) : Except PublishError Memory :=
  if w.has l then
    match w.readText l with
    | .error e => .error (.file e)
    | .ok s =>
      match ofText s with
      | .ok m => .ok m
      | .error f => .error (.fault f)
  else .ok empty

def publish {τ : Type} [Wording τ] (l : Location) (limit : Int) (r : Report (Json τ)) (w : World) :
    Except PublishError World := do
  let m ← load w l
  match w.save l ((Projection.exact limit r).into m).text with
  | .ok w => return w
  | .error e => throw (.file e)

/-- What a publication that failed leaves: a memory that cannot be read is not touched, and around a
file that cannot be written the directories were made. -/
def afterFailure (l : Location) (w : World) : World :=
  match load w l with
  | .ok _ => w.dirsMade l.parent
  | .error _ => w

end Memory

end ImportAtlas
