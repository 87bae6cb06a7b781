import ImportAtlas.Fault
import ImportAtlas.Json.Basic

/-!
# Taking loosely typed values apart

Each access says which fault arises when the value is of another kind than expected.
-/

namespace ImportAtlas.Json

variable {τ : Type}

/-- The member that must be there. -/
def field [DecidableEq τ] [Wording τ] (key : τ) : Json τ → Except Fault (Json τ)
  | .obj ms =>
    match ms.lookup key with
    | some v => .ok v
    | none => .error (.missingKey (Wording.shown key))
  | _ => .error .wrongKind

def fieldD [DecidableEq τ] (v : Json τ) (key : τ) (fallback : Json τ) : Except Fault (Json τ) :=
  match v with
  | .obj ms => .ok ((ms.lookup key).getD fallback)
  | _ => .error .noOperation

/-- What running through a value gives: items, characters or keys. -/
def elements [Wording τ] : Json τ → Except Fault (List (Json τ))
  | .arr vs => .ok vs
  | .str s => .ok ((Wording.characters s).map .str)
  | .obj ms => .ok (ms.map fun m => .str m.1)
  | _ => .error .wrongKind

/-- A whole number: the fraction of a double is cut off, a text is read. -/
def toInt : Json → Except Fault Int
  | .bool b => .ok (if b then 1 else 0)
  | .num (.int i) => .ok i
  | .num (.float x) =>
    match Binary.ofFloat x with
    | .nan => .error .badValue
    | .infinite _ => .error .outOfRange
    | .finite s m e => .ok (((Binary.finite s m e).truncate?).getD 0)
  | .str s =>
    match Number.ofText? s with
    | some i => .ok i
    | none => .error .badValue
  | _ => .error .wrongKind

/-- Only a text has the operations of texts. -/
def toText : Json → Except Fault String
  | .str s => .ok s
  | _ => .error .noOperation

/-- Only scalars can be keys. -/
def toKey (v : Json τ) : Except Fault (Json τ) := if v.isKey then .ok v else .error .wrongKind

end ImportAtlas.Json
