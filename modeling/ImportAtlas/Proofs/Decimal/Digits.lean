import ImportAtlas.Number
import Mathlib.Algebra.Order.Field.Power
import Mathlib.Algebra.Order.Field.Rat
import Mathlib.Data.List.TakeWhile
import Mathlib.Tactic.Ring

/-!
# Digits and what they write

The digits of a number write that number, with no zero in front. A decimal made from a count of
units has the value of the count, whether or not zeros at its end were dropped.
-/

namespace ImportAtlas

namespace Number

theorem foldl_digits (ds : List Nat) (n : Nat) :
    ds.foldl (fun n d => 10 * n + d) n = n * 10 ^ ds.length + ofDigits ds := by
  unfold ofDigits
  induction ds generalizing n with
  | nil => simp
  | cons d ds ih =>
    rw [List.foldl_cons, List.foldl_cons, ih, ih (10 * 0 + d), List.length_cons]
    ring

theorem ofDigits_append (as bs : List Nat) :
    ofDigits (as ++ bs) = ofDigits as * 10 ^ bs.length + ofDigits bs := by
  rw [ofDigits, List.foldl_append, foldl_digits bs]
  rfl

theorem ofDigits_zeros (n : Nat) : ofDigits (List.replicate n 0) = 0 := by
  induction n with
  | zero => rfl
  | succ n ih => rw [List.replicate_succ, ofDigits, List.foldl_cons]; exact ih

end Number

namespace Decimal

/-! ## The digits of a number -/

/-- A number is written with a digit in front, which is a zero only for zero. -/
theorem exists_toDigits_eq_cons (n : Nat) :
    ∃ c cs, Nat.toDigits 10 n = c :: cs ∧ c.isDigit = true ∧ (0 < n → c ≠ '0') := by
  induction n using Nat.strongRecOn with
  | ind n ih =>
    by_cases hn : n < 10
    · refine ⟨n.digitChar, [], Nat.toDigits_of_lt_base hn, ?_, ?_⟩
      · rw [Nat.isDigit_digitChar, decide_eq_true hn]
      · rw [ne_eq, Nat.digitChar_eq_zero]
        omega
    · obtain ⟨c, cs, hcs, hc, hzero⟩ := ih (n / 10) (by omega)
      refine ⟨c, cs ++ [(n % 10).digitChar], ?_, hc, fun _ => hzero (by omega)⟩
      rw [Nat.toDigits_of_base_le (by decide) (by omega), hcs, List.cons_append]

theorem isDigit_iff {c : Char} : c.isDigit = true ↔ 48 ≤ c.toNat ∧ c.toNat ≤ 57 := by
  simp [Char.isDigit, UInt32.le_iff_toNat_le]

theorem ofDigits_digitsOf (n : Nat) : Number.ofDigits (digitsOf n) = n := by
  rw [digitsOf, Number.ofDigits, List.foldl_map]
  exact Nat.ofDigitChars_eq_foldl.symm.trans Nat.ofDigitChars_ten_toDigits

theorem lt_of_mem_digitsOf {n d : Nat} (h : d ∈ digitsOf n) : d < 10 := by
  obtain ⟨c, hc, rfl⟩ := List.mem_map.1 h
  have hdigit := isDigit_iff.1 (Nat.isDigit_of_mem_toDigits (by decide) (by decide) hc)
  omega

theorem exists_digitsOf_eq_cons {n : Nat} (hn : 0 < n) : ∃ d ds, digitsOf n = d :: ds ∧ 0 < d := by
  obtain ⟨c, cs, hcs, hc, hzero⟩ := exists_toDigits_eq_cons n
  refine ⟨c.toNat - 48, _, by rw [digitsOf, hcs, List.map_cons], ?_⟩
  have hdigit := isDigit_iff.1 hc
  have hne : c.toNat ≠ 48 := fun h => hzero hn (Char.toNat_inj.1 h)
  omega

theorem lt_pow_length_toDigits (n : Nat) : n < 10 ^ (Nat.toDigits 10 n).length :=
  (Nat.length_toDigits_le_iff (by decide) Nat.length_toDigits_pos).1 (le_refl _)

theorem pow_length_toDigits_le {n : Nat} (hn : 0 < n) :
    10 ^ ((Nat.toDigits 10 n).length - 1) ≤ n := by
  by_cases hone : (Nat.toDigits 10 n).length - 1 = 0
  · rw [hone]
    exact hn
  · refine Nat.not_lt.1 fun hlt => ?_
    have := (Nat.length_toDigits_le_iff (by decide) (by omega)).2 hlt
    omega

/-! ## Decimals -/

/-- The exact value. -/
def value (x : Decimal) : ℚ := Number.ofDigits x.digits * 10 ^ (x.point - x.digits.length)

/-- Digits with no zero in front. -/
structure Normal (x : Decimal) : Prop where
  first : ∃ d ds, x.digits = d :: ds ∧ 0 < d
  digit : ∀ d ∈ x.digits, d < 10

theorem exists_dropTrailingZeros (ds : List Nat) :
    ∃ n, ds = dropTrailingZeros ds ++ List.replicate n 0 := by
  refine ⟨(ds.reverse.takeWhile (· == 0)).length, ?_⟩
  have hzeros : ds.reverse.takeWhile (· == 0) =
      List.replicate (ds.reverse.takeWhile (· == 0)).length 0 := by
    refine List.eq_replicate_of_mem fun d hd => ?_
    have hzero := List.mem_takeWhile_imp hd
    exact beq_iff_eq.1 hzero
  rw [dropTrailingZeros, ← List.reverse_inj, List.reverse_append, List.reverse_replicate,
    List.reverse_reverse, ← hzeros, List.takeWhile_append_dropWhile]

theorem value_ofCount (count : Nat) (unit : Int) : (ofCount count unit).value = count * 10 ^ unit := by
  obtain ⟨n, hn⟩ := exists_dropTrailingZeros (digitsOf count)
  have hcount : Number.ofDigits (dropTrailingZeros (digitsOf count)) * 10 ^ n = count := by
    have h := ofDigits_digitsOf count
    rwa [hn, Number.ofDigits_append, Number.ofDigits_zeros, List.length_replicate, Nat.add_zero] at h
  have hlength : ((digitsOf count).length : Int) =
      (dropTrailingZeros (digitsOf count)).length + n := by
    have h := congrArg List.length hn
    rw [List.length_append, List.length_replicate] at h
    omega
  rw [value, ofCount]
  dsimp only
  rw [hlength, show ((dropTrailingZeros (digitsOf count)).length : Int) + n + unit -
    (dropTrailingZeros (digitsOf count)).length = n + unit by ring, zpow_add₀ (by norm_num),
    zpow_natCast, ← mul_assoc]
  congr 1
  exact_mod_cast hcount

theorem normal_ofCount {count : Nat} (hcount : 0 < count) (unit : Int) :
    (ofCount count unit).Normal := by
  obtain ⟨n, hn⟩ := exists_dropTrailingZeros (digitsOf count)
  obtain ⟨d, ds, hds, hd⟩ := exists_digitsOf_eq_cons hcount
  have hdigits : (ofCount count unit).digits = dropTrailingZeros (digitsOf count) := rfl
  constructor
  · rw [hdigits]
    cases hdrop : dropTrailingZeros (digitsOf count) with
    | nil =>
      -- nothing but zeros cannot be the digits of a positive number
      have hzero := ofDigits_digitsOf count
      rw [hn, hdrop, List.nil_append, Number.ofDigits_zeros] at hzero
      omega
    | cons c cs =>
      rw [hdrop, hds] at hn
      cases hn
      exact ⟨d, cs, rfl, hd⟩
  · intro c hc
    have hmem : c ∈ digitsOf count := by
      rw [hn]
      exact List.mem_append_left _ hc
    exact lt_of_mem_digitsOf hmem

end Decimal

end ImportAtlas
