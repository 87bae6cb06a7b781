/-!
# Texts of documents

A text of a document is a list of code units, for an escape can write a half of a surrogate pair
that stands alone. `CodeUnits` are such texts as they are. A `String` has no place for a half and
shows the replacement character instead. `Wording` is what reading and writing a document asks of
its texts.
-/

namespace ImportAtlas

/-- The code units of a character: one, or two beyond the first plane. -/
def unitsOf (c : Char) : List UInt16 :=
  if c.toNat < 0x10000 then [.ofNat c.toNat]
  else [.ofNat (0xd800 + (c.toNat - 0x10000) / 0x400),
    .ofNat (0xdc00 + (c.toNat - 0x10000) % 0x400)]

/-- What code units stand for: a character, or half of a pair. -/
inductive Point where
  | char (c : Char)
  | half (u : UInt16)
  deriving DecidableEq, Repr

namespace Point

def units : Point → List UInt16
  | char c => unitsOf c
  | half u => [u]

/-- The character that is shown; one in place of a half. -/
def shown : Point → Char
  | char c => c
  | half _ => '�'

/-- What a code unit stands for by itself. -/
def ofUnit (u : UInt16) : Point :=
  if 0xd800 ≤ u.toNat && u.toNat < 0xe000 then half u else char (Char.ofNat u.toNat)

/-- The character of two halves; none if they are no pair. -/
def pair? (u v : UInt16) : Option Char :=
  if 0xd800 ≤ u.toNat && u.toNat < 0xdc00 && 0xdc00 ≤ v.toNat && v.toNat < 0xe000 then
    some (Char.ofNat (0x10000 + (u.toNat - 0xd800) * 0x400 + (v.toNat - 0xdc00)))
  else none

end Point

/-- What code units stand for. Halves side by side that are a pair are one character. -/
def points : List UInt16 → List Point
  | [] => []
  | [u] => [.ofUnit u]
  | u :: v :: us =>
    match Point.pair? u v with
    | some c => .char c :: points us
    | none => .ofUnit u :: points (v :: us)

/-- A text as its code units. -/
structure CodeUnits where
  units : List UInt16
  deriving DecidableEq, Repr

namespace CodeUnits

def ofString (s : String) : CodeUnits := ⟨s.toList.flatMap unitsOf⟩

instance : Coe String CodeUnits := ⟨ofString⟩

instance : Append CodeUnits := ⟨fun s t => ⟨s.units ++ t.units⟩⟩

end CodeUnits

/-- What can be the texts of a document. -/
class Wording (τ : Type) where
  units : τ → List UInt16
  ofUnits : List UInt16 → τ
  ofString : String → τ
  /-- The text as a string, with what it cannot hold replaced. -/
  shown : τ → String
  /-- The text cut into its characters. -/
  characters : τ → List τ

instance : Wording String where
  units s := s.toList.flatMap unitsOf
  ofUnits us := String.ofList ((points us).map Point.shown)
  ofString := id
  shown := id
  characters s := s.toList.map fun c => String.ofList [c]

instance : Wording CodeUnits where
  units := CodeUnits.units
  ofUnits := CodeUnits.mk
  ofString := CodeUnits.ofString
  shown t := String.ofList ((points t.units).map Point.shown)
  characters t := (points t.units).map fun p => ⟨p.units⟩

def CodeUnits.of {τ : Type} [Wording τ] (t : τ) : CodeUnits := ⟨Wording.units t⟩

end ImportAtlas
