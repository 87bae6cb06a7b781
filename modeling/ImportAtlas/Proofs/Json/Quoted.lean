import ImportAtlas.Json.Reader
import ImportAtlas.Json.Writer

/-!
# Texts in quotes

A text is written code unit by code unit, and the reader gives the units back, whatever follows the
closing quote. So a text in quotes is read as itself if it is known by its units: a list of units
is, and so is a string, whose characters are the points of their units.
-/

namespace ImportAtlas

theorem valid_toNat (c : Char) : c.toNat < 0xd800 ∨ 0xdfff < c.toNat ∧ c.toNat < 0x110000 :=
  c.valid

/-! ## Points -/

theorem toNat_ofNat_unit {n : Nat} (h : n < 0x10000) : (UInt16.ofNat n).toNat = n :=
  UInt16.toNat_ofNat_of_lt h

theorem Point.pair?_of_not_half {u v : UInt16} (h : ¬ (0xd800 ≤ u.toNat ∧ u.toNat < 0xe000)) :
    Point.pair? u v = none := by
  have hu : (decide (0xd800 ≤ u.toNat) && decide (u.toNat < 0xdc00)) = false := by
    simp only [Bool.and_eq_false_iff, decide_eq_false_iff_not]
    omega
  simp only [Point.pair?, hu, Bool.false_and]
  rfl

/-- A character of the first plane is the point of its unit. -/
theorem Point.ofUnit_toNat {c : Char} (h : c.toNat < 0x10000) :
    Point.ofUnit (.ofNat c.toNat) = .char c := by
  have hvalid := valid_toNat c
  have hnone : (decide (0xd800 ≤ c.toNat) && decide (c.toNat < 0xe000)) = false := by
    simp only [Bool.and_eq_false_iff, decide_eq_false_iff_not]
    omega
  rw [Point.ofUnit, toNat_ofNat_unit h, hnone, Char.ofNat_toNat]
  rfl

/-- A unit that is no half stands by itself. -/
theorem points_cons {u : UInt16} (h : ¬ (0xd800 ≤ u.toNat ∧ u.toNat < 0xe000)) (us : List UInt16) :
    points (u :: us) = .ofUnit u :: points us := by
  cases us with
  | nil => rfl
  | cons v us => rw [points, Point.pair?_of_not_half h]

/-- The units of a character are read as it, whatever follows. -/
theorem points_unitsOf (c : Char) (us : List UInt16) :
    points (unitsOf c ++ us) = .char c :: points us := by
  have hvalid := valid_toNat c
  unfold unitsOf
  split
  · next h =>
    rw [List.singleton_append, points_cons (by rw [toNat_ofNat_unit h]; omega),
      Point.ofUnit_toNat h]
  · next h =>
    let n := c.toNat - 0x10000
    have hhigh : (UInt16.ofNat (0xd800 + n / 0x400)).toNat = 0xd800 + n / 0x400 :=
      toNat_ofNat_unit (by omega)
    have hlow : (UInt16.ofNat (0xdc00 + n % 0x400)).toNat = 0xdc00 + n % 0x400 :=
      toNat_ofNat_unit (by omega)
    have hpair : (decide (0xd800 ≤ 0xd800 + n / 0x400) && decide (0xd800 + n / 0x400 < 0xdc00) &&
        decide (0xdc00 ≤ 0xdc00 + n % 0x400) && decide (0xdc00 + n % 0x400 < 0xe000)) = true := by
      simp only [Bool.and_eq_true, decide_eq_true_eq]
      omega
    have hsum : 0x10000 + (0xd800 + n / 0x400 - 0xd800) * 0x400 + (0xdc00 + n % 0x400 - 0xdc00) =
        c.toNat := by omega
    have hchar :
        Point.pair? (.ofNat (0xd800 + n / 0x400)) (.ofNat (0xdc00 + n % 0x400)) = some c := by
      rw [Point.pair?, hhigh, hlow, if_pos hpair, hsum, Char.ofNat_toNat]
    rw [List.cons_append, List.singleton_append, points, hchar]

theorem points_flatMap (cs : List Char) : points (cs.flatMap unitsOf) = cs.map .char := by
  induction cs with
  | nil => rfl
  | cons c cs ih => rw [List.flatMap_cons, points_unitsOf, ih, List.map_cons]

/-- Texts that are known by their units. -/
class LawfulWording (τ : Type) [Wording τ] : Prop where
  ofUnits_units : ∀ t : τ, Wording.ofUnits (Wording.units t) = t

instance : LawfulWording CodeUnits := ⟨fun _ => rfl⟩

instance : LawfulWording String where
  ofUnits_units s := by
    show String.ofList ((points (s.toList.flatMap unitsOf)).map Point.shown) = s
    rw [points_flatMap, List.map_map]
    show String.ofList (s.toList.map id) = s
    rw [List.map_id, String.ofList_toList]

@[simp] theorem CodeUnits.ofString_inj {s t : String} : ofString s = ofString t ↔ s = t := by
  refine ⟨fun h => ?_, congrArg ofString⟩
  have hunits : Wording.units s = Wording.units t := congrArg CodeUnits.units h
  rw [← LawfulWording.ofUnits_units s, hunits, LawfulWording.ofUnits_units]

@[simp] theorem CodeUnits.wording_ofString (s : String) :
    (Wording.ofString s : CodeUnits) = ofString s := rfl

namespace Json

/-! ## Units -/

theorem hexValue?_hexDigit {n : Nat} (h : n < 16) : hexValue? (hexDigit n) = some n := by
  have all : ∀ m, m < 16 → hexValue? (hexDigit m) = some m := by decide
  exact all n h

theorem unit?_hexDigits (u : UInt16) :
    unit? (hexDigit (u.toNat / 4096 % 16)) (hexDigit (u.toNat / 256 % 16))
      (hexDigit (u.toNat / 16 % 16)) (hexDigit (u.toNat % 16)) = some u := by
  have hlt : u.toNat < 0x10000 := u.toNat_lt
  have hu : ((u.toNat / 4096 % 16 * 16 + u.toNat / 256 % 16) * 16 + u.toNat / 16 % 16) * 16 +
      u.toNat % 16 = u.toNat := by omega
  simp only [unit?, hexValue?_hexDigit (Nat.mod_lt _ (by decide : 0 < 16)), Option.bind_eq_bind,
    Option.bind_some, Option.pure_def, hu, UInt16.ofNat_toNat]

theorem readUnits_unitEscape (u : UInt16) (cs : List Char) :
    readUnits (unitEscape u ++ cs) = (readUnits cs).map fun p => (u :: p.1, p.2) := by
  simp only [unitEscape, List.cons_append, List.nil_append, readUnits, unit?_hexDigits]
  cases readUnits cs <;> rfl

/-- A character that needs no escape is read as it is. -/
theorem readUnits_plain {c : Char} (h : 32 ≤ c.toNat) (hquote : c ≠ '"') (hslash : c ≠ '\\')
    (cs : List Char) :
    readUnits (c :: cs) = (readUnits cs).map fun p => (unitsOf c ++ p.1, p.2) := by
  have hcond : (decide (c.toNat < 32) || c == '\\') = false := by
    simp [hslash, h]
  rw [readUnits.eq_def]
  split
  · next heq => cases heq
  · next heq => cases heq; exact absurd rfl hquote
  · next heq => cases heq; exact absurd rfl hslash
  · next heq => cases heq; exact absurd rfl hslash
  · next heq =>
    cases heq
    rw [hcond]
    cases readUnits cs <;> rfl

/-- A letter behind a backslash is read as the character that it stands for. -/
theorem readUnits_shortEscape {e d : Char} (h : shortEscape? e = some d) (hu : e ≠ 'u')
    (cs : List Char) :
    readUnits (['\\', e] ++ cs) = (readUnits cs).map fun p => (unitsOf d ++ p.1, p.2) := by
  rw [List.cons_append, List.singleton_append, readUnits.eq_def]
  split
  · next heq => cases heq
  · next heq => cases heq
  · next heq => cases heq; exact absurd rfl hu
  · next heq =>
    cases heq
    rw [h]
    cases readUnits cs <;> rfl
  · next hnot heq => cases heq; exact absurd rfl (hnot e cs rfl)

/-- A unit by itself is the unit of its character. -/
theorem unitsOf_ofNat {u : UInt16} (h : Char.ofNat u.toNat ≠ '\x00') :
    unitsOf (Char.ofNat u.toNat) = [u] := by
  have hlt : u.toNat < 0x10000 := u.toNat_lt
  have hvalid : u.toNat.isValidChar := Decidable.byContradiction fun hnot =>
    h (by rw [Char.ofNat, dif_neg hnot]; rfl)
  have hchar : (Char.ofNat u.toNat).toNat = u.toNat := by
    rw [Char.ofNat, dif_pos hvalid]
    rfl
  rw [unitsOf, hchar, if_pos hlt, UInt16.ofNat_toNat]

/-- What a unit is written as is read as the unit. -/
theorem readUnits_escapeUnit (u : UInt16) (cs : List Char) :
    readUnits (escapeUnit u ++ cs) = (readUnits cs).map fun p => (u :: p.1, p.2) := by
  have hshort {e d : Char} (hd : Char.ofNat u.toNat = d) (h : shortEscape? e = some d)
      (hu : e ≠ 'u') (hnull : d ≠ '\x00') :
      readUnits (['\\', e] ++ cs) = (readUnits cs).map fun p => (u :: p.1, p.2) := by
    rw [readUnits_shortEscape h hu, ← hd, unitsOf_ofNat (by rw [hd]; exact hnull)]
    rfl
  unfold escapeUnit
  split
  · next hd => exact hshort hd rfl (by decide) (by decide)
  · next hd => exact hshort hd rfl (by decide) (by decide)
  · next hd => exact hshort hd rfl (by decide) (by decide)
  · next hd => exact hshort hd rfl (by decide) (by decide)
  · next hd => exact hshort hd rfl (by decide) (by decide)
  · next hd => exact hshort hd rfl (by decide) (by decide)
  · next hd => exact hshort hd rfl (by decide) (by decide)
  · next hquote hslash _ _ _ _ _ =>
    split
    · next h =>
      simp only [Bool.and_eq_true, decide_eq_true_eq] at h
      have hchar : (Char.ofNat u.toNat).toNat = u.toNat := by
        rw [Char.ofNat, dif_pos (.inl (by omega))]
        rfl
      have hnull : Char.ofNat u.toNat ≠ '\x00' := by
        intro hzero
        rw [hzero] at hchar
        have : (0 : Nat) = u.toNat := hchar
        omega
      rw [List.singleton_append, readUnits_plain (by omega) hquote hslash, unitsOf_ofNat hnull]
      rfl
    · exact readUnits_unitEscape u cs

theorem readUnits_flatMap (us : List UInt16) (rest : List Char) :
    readUnits (us.flatMap escapeUnit ++ '"' :: rest) = some (us, rest) := by
  induction us with
  | nil => rfl
  | cons u us ih =>
    rw [List.flatMap_cons, List.append_assoc, readUnits_escapeUnit, ih]
    rfl

/-! ## Whole texts -/

variable {τ : Type} [Wording τ]

theorem toList_quote (t : τ) :
    (quote t).toList = '"' :: ((Wording.units t).flatMap escapeUnit ++ ['"']) := by
  simp [quote]

/-- A text in quotes is read as itself. -/
theorem readString_quote [LawfulWording τ] (t : τ) (rest : List Char) :
    readString ((Wording.units t).flatMap escapeUnit ++ '"' :: rest) = .ok (t, rest) := by
  simp only [readString, readUnits_flatMap, LawfulWording.ofUnits_units]

end Json

end ImportAtlas
