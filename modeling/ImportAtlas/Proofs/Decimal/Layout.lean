import ImportAtlas.Proofs.Decimal.Digits

/-!
# The layout of a decimal

The text of a decimal is made of up to three parts: digits, a fraction after a point, and an exponent
after its mark. `Parts` are the digits and the exponent before they are written. However the parts
are chosen, they have the value of the decimal.
-/

namespace ImportAtlas.Layout

/-- The digits before and after the point, and the exponent if one is written. -/
structure Parts where
  whole : List Nat
  fraction : List Nat
  exponent : Option Int

namespace Parts

/-- The digits as characters. -/
def digitChars (ds : List Nat) : List Char := ds.map fun d => Char.ofNat (d + 48)

/-- The parts one after the other. -/
def text (p : Parts) : List Char :=
  digitChars p.whole ++ ((if p.fraction = [] then [] else '.' :: digitChars p.fraction) ++
    (p.exponent.elim [] fun e => (Layout.exponent e).toList))

/-- The exact value. -/
def value (p : Parts) : ℚ :=
  Number.ofDigits (p.whole ++ p.fraction) * 10 ^ (p.exponent.getD 0 - p.fraction.length)

/-- Parts that are read as a double: a zero stands in front of the point only alone, there is a
fraction or an exponent, and with an exponent one digit that is no zero stands before the point. -/
structure WellFormed (p : Parts) : Prop where
  digit : ∀ d ∈ p.whole ++ p.fraction, d < 10
  first : p.whole = [0] ∨ ∃ d ds, p.whole = d :: ds ∧ 0 < d
  double : p.fraction ≠ [] ∨ p.exponent.isSome
  single : p.exponent.isSome → ∃ d, p.whole = [d] ∧ 0 < d

theorem WellFormed.whole_digit {p : Parts} (h : p.WellFormed) : ∀ d ∈ p.whole, d < 10 :=
  fun d hd => h.digit d (List.mem_append_left _ hd)

theorem WellFormed.fraction_digit {p : Parts} (h : p.WellFormed) : ∀ d ∈ p.fraction, d < 10 :=
  fun d hd => h.digit d (List.mem_append_right _ hd)

end Parts

theorem toList_chars (ds : List Nat) : (chars ds).toList = Parts.digitChars ds := by
  simp [chars, Parts.digitChars]

theorem toList_zeros (n : Nat) : (zeros n).toList = Parts.digitChars (List.replicate n 0) := by
  simp [zeros, Parts.digitChars]

/-- Parts that are written as `t` and have the value of `x`. -/
structure Parts.Show (p : Parts) (x : Decimal) (t : String) : Prop where
  wellFormed : p.WellFormed
  text : t.toList = p.text
  value : p.value = x.value

variable {x : Decimal}

/-- One digit before the point and the others after it, with an exponent. -/
theorem show_exponent (h : x.Normal) :
    Parts.Show ⟨x.digits.take 1, x.digits.drop 1, some (x.point - 1)⟩ x
      (chars (x.digits.take 1) ++ (if x.digits.length ≤ 1 then "" else "." ++ chars (x.digits.drop 1)) ++
        exponent (x.point - 1)) := by
  obtain ⟨⟨d, ds, hds, hd⟩, hdigit⟩ := h
  constructor
  case wellFormed =>
    refine ⟨?_, .inr ⟨d, [], by simp [hds], hd⟩, .inr rfl, fun _ => ⟨d, by simp [hds], hd⟩⟩
    rw [List.take_append_drop]
    exact hdigit
  case text => cases ds <;> simp [hds, Parts.text, toList_chars]
  case value =>
    simp only [Parts.value, Decimal.value, List.take_append_drop, Option.getD_some, hds,
      List.length_drop, List.length_cons]
    congr 2
    omega

/-- All digits after the point. -/
theorem show_fraction (h : x.Normal) (point : x.point ≤ 0) :
    Parts.Show ⟨[0], List.replicate (-x.point).toNat 0 ++ x.digits, none⟩ x
      ("0." ++ zeros (-x.point).toNat ++ chars x.digits) := by
  obtain ⟨⟨d, ds, hds, hd⟩, hdigit⟩ := h
  have hvalue : Number.ofDigits ([0] ++ (List.replicate (-x.point).toNat 0 ++ x.digits)) =
      Number.ofDigits x.digits := by
    rw [← List.append_assoc, List.singleton_append, ← List.replicate_succ, Number.ofDigits_append,
      Number.ofDigits_zeros]
    omega
  constructor
  case wellFormed =>
    refine ⟨?_, .inl rfl, .inl (by simp [hds]), by simp⟩
    intro c hc
    simp only [List.singleton_append, List.mem_cons, List.mem_append, List.mem_replicate] at hc
    rcases hc with rfl | ⟨-, rfl⟩ | hc
    · decide
    · decide
    · exact hdigit c hc
  case text => simp [hds, Parts.text, toList_chars, toList_zeros, Parts.digitChars]
  case value =>
    simp only [Parts.value, Decimal.value, hvalue, Option.getD_none, List.length_append,
      List.length_replicate]
    congr 2
    omega

/-- The point between digits. -/
theorem show_between (h : x.Normal) (low : 0 < x.point) (high : x.point < x.digits.length) :
    Parts.Show ⟨x.digits.take x.point.toNat, x.digits.drop x.point.toNat, none⟩ x
      (chars (x.digits.take x.point.toNat) ++ "." ++ chars (x.digits.drop x.point.toNat)) := by
  obtain ⟨⟨d, ds, hds, hd⟩, hdigit⟩ := h
  have hfraction : x.digits.drop x.point.toNat ≠ [] := by
    rw [ne_eq, List.drop_eq_nil_iff]
    omega
  constructor
  case wellFormed =>
    refine ⟨?_, .inr ⟨d, ds.take (x.point.toNat - 1), ?_, hd⟩, .inl hfraction, by simp⟩
    · rw [List.take_append_drop]
      exact hdigit
    · rw [← List.take_succ_cons, ← hds, Nat.sub_add_cancel (by omega)]
  case text => simp only [Parts.text, toList_chars, if_neg hfraction, String.toList_append]; simp
  case value =>
    simp only [Parts.value, Decimal.value, List.take_append_drop, Option.getD_none,
      List.length_drop]
    congr 2
    omega

/-- Zeros up to the point, and one after it. -/
theorem show_whole (h : x.Normal) (point : x.digits.length ≤ x.point) :
    Parts.Show ⟨x.digits ++ List.replicate (x.point - x.digits.length).toNat 0, [0], none⟩ x
      (chars x.digits ++ zeros (x.point - x.digits.length).toNat ++ ".0") := by
  obtain ⟨⟨d, ds, hds, hd⟩, hdigit⟩ := h
  have hvalue : Number.ofDigits
      (x.digits ++ List.replicate (x.point - x.digits.length).toNat 0 ++ [0]) =
      Number.ofDigits x.digits * 10 ^ ((x.point - x.digits.length).toNat + 1) := by
    rw [List.append_assoc, ← List.replicate_succ', Number.ofDigits_append, Number.ofDigits_zeros,
      List.length_replicate, Nat.add_zero]
  constructor
  case wellFormed =>
    refine ⟨?_, .inr ⟨d, _, by rw [hds, List.cons_append], hd⟩, .inl (by simp), by simp⟩
    intro c hc
    simp only [List.mem_append, List.mem_replicate, List.mem_singleton] at hc
    rcases hc with (hc | ⟨-, rfl⟩) | rfl
    · exact hdigit c hc
    · decide
    · decide
  case text => simp [Parts.text, toList_chars, toList_zeros, Parts.digitChars]
  case value =>
    simp only [Parts.value, Decimal.value, hvalue, Option.getD_none, Nat.cast_mul, Nat.cast_pow,
      mul_assoc, List.length_singleton]
    rw [Nat.cast_ofNat, ← zpow_natCast, ← zpow_add₀ (by norm_num)]
    congr 2
    omega

/-- In a layout that keeps fractions, the text of a decimal is made of parts with its value. -/
theorem exists_show {l : Layout} (keeps : l.keepsFraction = true) (h : x.Normal) :
    ∃ p : Parts, p.Show x (l.text x) := by
  generalize ht : l.text x = t
  unfold text at ht
  dsimp only at ht
  split at ht
  · exact ⟨_, ht ▸ show_exponent h⟩
  · split at ht
    · next hpoint => exact ⟨_, ht ▸ show_fraction h hpoint⟩
    · split at ht
      · next hlow hhigh => exact ⟨_, ht ▸ show_between h (by omega) hhigh⟩
      · exact ⟨_, ht ▸ show_whole h (by omega)⟩

end ImportAtlas.Layout
