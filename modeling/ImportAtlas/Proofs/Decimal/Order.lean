import ImportAtlas.Number
import ImportAtlas.Proofs.Decimal.Nearest

/-!
# The order of numbers

Exact values are ordered as the rationals they stand for, so of two numbers the first is at most the
second exactly when the second is not below it. A whole number below a finite double has a nearest
double.
-/

namespace ImportAtlas

namespace Binary

/-- `compareScaled` orders values as rationals. -/
theorem compareScaled_eq (a p b q : Int) :
    compareScaled a p b q = compare ((a : ℚ) * 2 ^ p) (b * 2 ^ q) := by
  have hlow : (0 : ℚ) < 2 ^ min p q := zpow_pos (by norm_num) _
  have hvalue (c r : Int) (hr : min p q ≤ r) :
      (c : ℚ) * 2 ^ r = (c * 2 ^ (r - min p q).toNat : Int) * 2 ^ min p q := by
    rw [zpow_eq_mul hr]
    push_cast
    ring
  unfold compareScaled
  dsimp only
  rw [hvalue a p (min_le_left p q), hvalue b q (min_le_right p q)]
  generalize a * 2 ^ (p - min p q).toNat = x
  generalize b * 2 ^ (q - min p q).toNat = y
  rcases lt_trichotomy x y with h | rfl | h
  · rw [compare_lt_iff_lt.2 h]
    exact (compare_lt_iff_lt.2 (mul_lt_mul_of_pos_right (by exact_mod_cast h) hlow)).symm
  · rw [compare_eq_iff_eq.2 rfl]
    exact (compare_eq_iff_eq.2 rfl).symm
  · rw [compare_gt_iff_gt.2 h]
    exact (compare_gt_iff_gt.2 (mul_lt_mul_of_pos_right (by exact_mod_cast h) hlow)).symm

/-- The number that a finite value stands for. -/
def value : Binary → ℚ
  | .finite s m e => (signed s m : Int) * 2 ^ e
  | _ => 0

/-- Finite values are ordered as the numbers that they stand for. -/
theorem compare?_finite (s : Bool) (m : Nat) (p : Int) (t : Bool) (n : Nat) (q : Int) :
    (finite s m p).compare? (finite t n q) =
      some (compare (finite s m p).value (finite t n q).value) :=
  congrArg some (compareScaled_eq _ _ _ _)

theorem compareScaled_swap (a p b q : Int) :
    compareScaled b q a p = (compareScaled a p b q).swap := by
  rw [compareScaled_eq, compareScaled_eq]
  exact Std.OrientedOrd.eq_swap

theorem compare?_swap (a b : Binary) : b.compare? a = (a.compare? b).map Ordering.swap := by
  cases a with
  | nan => cases b <;> rfl
  | infinite s =>
    cases b with
    | nan => rfl
    | infinite t => cases s <;> cases t <;> rfl
    | finite t n q => cases s <;> rfl
  | finite s m p =>
    cases b with
    | nan => rfl
    | infinite t => cases t <;> rfl
    | finite t n q => exact congrArg some (compareScaled_swap _ _ _ _)

theorem compare?_isSome {a b : Binary} (ha : a ≠ .nan) (hb : b ≠ .nan) : (a.compare? b).isSome := by
  cases a <;> cases b <;> first | rfl | exact absurd rfl ha | exact absurd rfl hb

theorem signed_natAbs (i : Int) : signed (decide (i < 0)) i.natAbs = i := by
  unfold signed
  split
  · next h => rw [decide_eq_true_eq] at h; omega
  · next h => rw [decide_eq_true_eq] at h; omega

theorem value_ofInt (i : Int) : (ofInt i).value = i := by
  rw [ofInt, value, signed_natAbs, zpow_zero, mul_one]

end Binary

namespace Number

theorem exact_int_ne_nan (i : Int) : (int i).exact ≠ .nan := by
  intro h
  cases h

theorem exact_ne_nan_of_le {a b : Number} (h : a.le b = true) : b.exact ≠ .nan := by
  intro hb
  have hnone : a.compare? b = none := by
    rw [compare?, hb]
    cases a.exact <;> rfl
  rw [le, hnone] at h
  cases h

/-- Of two numbers the first is at most the second, or the second is below it. -/
theorem le_eq_false_iff {a b : Number} (ha : a.exact ≠ .nan) (hb : b.exact ≠ .nan) :
    a.le b = false ↔ b.lt a = true := by
  have hswap : b.compare? a = (a.compare? b).map Ordering.swap := Binary.compare?_swap _ _
  obtain ⟨o, ho⟩ := Option.isSome_iff_exists.1 (Binary.compare?_isSome ha hb)
  have ho : a.compare? b = some o := ho
  rw [le, lt, hswap, ho]
  cases o <;> simp [Ordering.swap]

theorem le_of_lt_eq_false {a b : Number} (ha : a.exact ≠ .nan) (hb : b.exact ≠ .nan)
    (h : b.lt a = false) : a.le b = true := by
  rw [← Bool.not_eq_false, le_eq_false_iff ha hb, h]
  nofun

/-- Whole numbers are ordered as such. -/
theorem compare?_int (i j : Int) : (int i).compare? (int j) = some (compare i j) := by
  show some (Binary.compareScaled _ 0 _ 0) = _
  rw [Binary.signed_natAbs, Binary.signed_natAbs]
  simp [Binary.compareScaled]

theorem int_lt_int_iff {i j : Int} : (int i).lt (int j) = true ↔ i < j := by
  rw [lt, compare?_int, beq_iff_eq, Option.some.injEq, compare_lt_iff_lt]

theorem int_le_int_iff {i j : Int} : (int i).le (int j) = true ↔ i ≤ j := by
  rw [le, compare?_int, Bool.or_eq_true, beq_iff_eq, beq_iff_eq, Option.some.injEq,
    Option.some.injEq, compare_lt_iff_lt, compare_eq_iff_eq]
  omega

theorem same_int_zero (i : Int) : (int i).same (int 0) = decide (i = 0) := by
  have hnan : ((int i).exact == .nan) = false := rfl
  rw [same, compare?_int, hnan, Bool.false_and, Bool.or_false]
  rw [Bool.eq_iff_iff, beq_iff_eq, Option.some.injEq, compare_eq_iff_eq, decide_eq_true_eq]

theorem lt_int_iff {t : Number} {s : Bool} {m : Nat} {e : Int} (h : t.exact = .finite s m e)
    (i : Int) : t.lt (int i) = true ↔ (Binary.finite s m e).value < i := by
  have hcompare : t.compare? (int i) =
      some (compare (Binary.finite s m e).value (Binary.ofInt i).value) := by
    rw [compare?, h]
    exact Binary.compare?_finite _ _ _ _ _ _
  rw [lt, hcompare, Binary.value_ofInt, beq_iff_eq, Option.some.injEq, compare_lt_iff_lt]

/-- What equals zero is below the positive numbers only. -/
theorem lt_int_of_same_zero {t : Number} (h : t.same (int 0) = true) (i : Int) :
    t.lt (int i) = true ↔ 0 < i := by
  have hzero : t.compare? (int 0) = some .eq := by
    simpa [same, exact, Binary.ofInt] using h
  cases hexact : t.exact with
  | nan =>
    rw [compare?, hexact] at hzero
    cases hzero
  | infinite s =>
    rw [compare?, hexact] at hzero
    cases s <;> cases hzero
  | finite s m e =>
    rw [compare?, hexact] at hzero
    have hvalue : (Binary.finite s m e).value = 0 := by
      have heq : Binary.compareScaled (Binary.signed s m) e 0 0 = .eq := Option.some.inj hzero
      rw [Binary.compareScaled_eq, compare_eq_iff_eq] at heq
      simpa [Binary.value] using heq
    rw [lt_int_iff hexact, hvalue]
    exact Int.cast_pos

theorem int_lt_float_iff {i : Int} {x : Float} (hx : Binary.IsFinite x) :
    (int i).lt (float x) = true ↔ (i : ℚ) < (Binary.ofFloat x).value := by
  obtain ⟨s, m, e, hfinite, -, -⟩ := hx.exists_ofFloat
  have hcompare : (int i).compare? (float x) =
      some (compare (Binary.ofInt i).value (Binary.ofFloat x).value) := by
    rw [compare?, exact, exact, hfinite]
    exact Binary.compare?_finite _ _ _ _ _ _
  rw [lt, hcompare, Binary.value_ofInt, beq_iff_eq, Option.some.injEq, compare_lt_iff_lt]

/-- A whole number below a finite double has a nearest double. -/
theorem toFloat?_isSome_of_lt {t : Number} {x : Float} (nonneg : (int 0).le t = true)
    (hx : Binary.IsFinite x) (h : t.lt (float x) = true) : t.toFloat?.isSome := by
  cases t with
  | float y => rfl
  | int i =>
    obtain ⟨s, m, e, hfinite, hm, he⟩ := hx.exists_ofFloat
    have hi : 0 ≤ i := by
      rw [le, compare?_int, Bool.or_eq_true, beq_iff_eq, beq_iff_eq, Option.some.injEq,
        Option.some.injEq, compare_lt_iff_lt, compare_eq_iff_eq] at nonneg
      omega
    have hlt : (i : ℚ) < (Binary.signed s m : Int) * 2 ^ e := by
      rwa [int_lt_float_iff hx, hfinite] at h
    have hsigned : ((Binary.signed s m : Int) : ℚ) ≤ 2 ^ 53 - 1 := by
      have hint : Binary.signed s m ≤ 2 ^ 53 - 1 := by
        unfold Binary.signed
        split <;> omega
      exact_mod_cast hint
    have hpow : (2 : ℚ) ^ e ≤ 2 ^ (971 : Int) := zpow_le_zpow_right₀ (by norm_num) he
    refine Binary.nearest?_isSome _ Nat.one_pos ?_
    calc ((i.natAbs : Nat) : ℚ) = i := by rw [← Int.cast_natCast, Int.natAbs_of_nonneg hi]
      _ < (Binary.signed s m : Int) * 2 ^ e := hlt
      _ ≤ (2 ^ 53 - 1) * 2 ^ (971 : Int) :=
        mul_le_mul hsigned hpow (zpow_nonneg (by norm_num) e) (by norm_num)
      _ = Binary.greatest * (1 : Nat) := by rw [Nat.cast_one, mul_one, Binary.greatest]

end Number

end ImportAtlas
