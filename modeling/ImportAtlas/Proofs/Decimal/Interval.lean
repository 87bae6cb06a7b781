import ImportAtlas.Proofs.Decimal.Nearest

/-!
# The rounding interval of a double

Around a positive double `m * 2 ^ e` lies an interval of values that are nearer to it than to any
other double. Its ends are half way to the neighbours, and they belong to it if `m` is even. The
double below a power of two is nearer than the one above, unless the exponent is the lowest. Every
quotient in the interval has the double as its nearest.
-/

namespace ImportAtlas.Binary

/-- The mantissa and the exponent of a positive double. -/
structure IsPositive (m : Nat) (e : Int) : Prop where
  pos : 0 < m
  short : m < 2 ^ 53
  low : lowestExponent ≤ e
  high : e ≤ 971
  normal : 2 ^ 52 ≤ m ∨ e = lowestExponent

/-- Half the way down to the next double, in units of the last place. -/
def halfBelow (m : Nat) (e : Int) : ℚ := if m = 2 ^ 52 ∧ lowestExponent < e then 1 / 4 else 1 / 2

/-- The values that are read as the double `m * 2 ^ e`. -/
structure RoundsTo (m : Nat) (e : Int) (v : ℚ) : Prop where
  above : (m - halfBelow m e) * 2 ^ e ≤ v
  below : v ≤ (m + 1 / 2) * 2 ^ e
  inner : m % 2 = 1 → (m - halfBelow m e) * 2 ^ e < v ∧ v < (m + 1 / 2) * 2 ^ e

theorem halfBelow_le (m : Nat) (e : Int) : halfBelow m e ≤ 1 / 2 := by
  unfold halfBelow
  split <;> norm_num

/-! ## Rounding to the nearest whole number -/

/-- A quotient within half a unit of a whole number is rounded to it, at the ends if it is even. -/
theorem roundDiv_eq {n d k : Nat} (hd : 0 < d) (low : (k : ℚ) - 1 / 2 ≤ n / d)
    (high : (n : ℚ) / d ≤ k + 1 / 2)
    (inner : k % 2 = 1 → (k : ℚ) - 1 / 2 < n / d ∧ (n : ℚ) / d < k + 1 / 2) :
    roundDiv n d = k := by
  have hd' : (0 : ℚ) < d := by exact_mod_cast hd
  have hlow : 2 * (k * d) ≤ 2 * n + d := by
    rw [le_div_iff₀ hd'] at low
    exact_mod_cast (by linarith : 2 * ((k : ℚ) * d) ≤ 2 * n + d)
  have hhigh : 2 * n ≤ 2 * (k * d) + d := by
    rw [div_le_iff₀ hd'] at high
    exact_mod_cast (by linarith : 2 * (n : ℚ) ≤ 2 * (k * d) + d)
  have hinner (hodd : k % 2 = 1) : 2 * (k * d) < 2 * n + d ∧ 2 * n < 2 * (k * d) + d := by
    obtain ⟨h₁, h₂⟩ := inner hodd
    rw [lt_div_iff₀ hd'] at h₁
    rw [div_lt_iff₀ hd'] at h₂
    exact ⟨by exact_mod_cast (by linarith : 2 * ((k : ℚ) * d) < 2 * n + d),
      by exact_mod_cast (by linarith : 2 * (n : ℚ) < 2 * (k * d) + d)⟩
  have hn : n = d * (n / d) + n % d := (Nat.div_add_mod n d).symm
  have hr : n % d < d := Nat.mod_lt n hd
  unfold roundDiv
  dsimp only
  generalize n / d = q at hn ⊢
  generalize n % d = r at hn hr ⊢
  -- `k` is the quotient or the number after it
  have hk : k = q ∨ k = q + 1 := by
    by_contra hne
    rcases Nat.lt_or_ge k q with hlt | hge
    · have hmul : (k + 1) * d ≤ q * d := Nat.mul_le_mul_right d hlt
      rw [Nat.succ_mul, Nat.mul_comm q d] at hmul
      omega
    · have hmul : (q + 2) * d ≤ k * d := Nat.mul_le_mul_right d (by omega)
      rw [Nat.add_mul, Nat.mul_comm q d] at hmul
      omega
  rcases hk with rfl | rfl
  · rw [Nat.mul_comm d k] at hn
    split
    · rfl
    · split
      · omega
      · split <;> omega
  · rw [Nat.add_mul, Nat.mul_comm q d] at hlow hhigh hinner
    split
    · omega
    · split
      · rfl
      · split <;> omega

/-- A quotient is rounded to `k` places of `2 ^ place` if it lies within half a place of them. -/
theorem roundDiv_scaled_eq {n d k : Nat} {place : Int} (hd : 0 < d)
    (low : ((k : ℚ) - 1 / 2) * 2 ^ place ≤ n / d) (high : (n : ℚ) / d ≤ (k + 1 / 2) * 2 ^ place)
    (inner : k % 2 = 1 → ((k : ℚ) - 1 / 2) * 2 ^ place < n / d ∧
      (n : ℚ) / d < (k + 1 / 2) * 2 ^ place) :
    roundDiv (n * (scaled d place).2) (scaled d place).1 = k := by
  obtain ⟨hpos, hquotient⟩ := scaled_quotient n hd place
  have hunit : (0 : ℚ) < 2 ^ place := zpow_pos (by norm_num) _
  refine roundDiv_eq hpos ?_ ?_ fun hodd => ?_
  · rw [hquotient, le_div_iff₀ hunit]
    exact low
  · rw [hquotient, div_le_iff₀ hunit]
    exact high
  · rw [hquotient, lt_div_iff₀ hunit, div_lt_iff₀ hunit]
    exact inner hodd

/-! ## The nearest double -/

theorem magnitude_eq {n d : Nat} (hn : 0 < n) (hd : 0 < d) {k : Int} (low : (2 : ℚ) ^ k ≤ n / d)
    (high : (n : ℚ) / d < 2 ^ (k + 1)) : magnitude n d = k := by
  have hd' : (0 : ℚ) < d := by exact_mod_cast hd
  have hone : (1 : ℚ) < 2 := by norm_num
  rw [le_div_iff₀ hd'] at low
  rw [div_lt_iff₀ hd'] at high
  have hle : magnitude n d ≤ k := magnitude_le_of_lt hn hd high
  have hlt : (2 : ℚ) ^ k * d < 2 ^ (magnitude n d + 1) * d := by
    rw [mul_comm _ (d : ℚ), mul_comm _ (d : ℚ)]
    rw [mul_comm] at low
    exact low.trans_lt (magnitude_spec hn hd).2
  have hexp := (zpow_lt_zpow_iff_right₀ hone).1 (lt_of_mul_lt_mul_right hlt hd'.le)
  omega

/-- Below a power of two the places are half as wide, and rounding carries into the next. -/
theorem rounded_of_lt {n d : Nat} (hn : 0 < n) (hd : 0 < d) {e : Int} (he : lowestExponent < e)
    (above : ((2 : ℚ) ^ 52 - 1 / 4) * 2 ^ e ≤ n / d) (below : (n : ℚ) / d < 2 ^ (52 + e)) :
    rounded n d = (2 ^ 52, e) := by
  have two_ne : (2 : ℚ) ≠ 0 := by norm_num
  have hunit : (0 : ℚ) < 2 ^ (e - 1) := zpow_pos (by norm_num) _
  have hdouble : (2 : ℚ) ^ e = 2 * 2 ^ (e - 1) := by
    rw [← zpow_one_add₀ two_ne]; congr 1; ring
  have hpower : (2 : ℚ) ^ (52 + e) = 2 ^ 53 * 2 ^ (e - 1) := by
    rw [zpow_add₀ two_ne, hdouble]; norm_cast; ring
  have hmagnitude : magnitude n d = e + 51 := by
    refine magnitude_eq hn hd ?_ ?_
    · refine le_trans ?_ above
      rw [show e + 51 = 52 + (e - 1) by ring, zpow_add₀ two_ne, hdouble]
      norm_cast
      linarith
    · rw [show e + 51 + 1 = 52 + e by ring]
      exact below
  have hplace : max (magnitude n d - 52) lowestExponent = e - 1 := by omega
  have hround : roundDiv (n * (scaled d (e - 1)).2) (scaled d (e - 1)).1 = 2 ^ 53 := by
    refine roundDiv_scaled_eq hd ?_ ?_ fun hodd => absurd hodd (by decide)
    · refine le_trans (le_of_eq ?_) above
      rw [hdouble]; push_cast; ring
    · refine (below.trans_le ?_).le
      rw [hpower]
      push_cast
      linarith
  rcases rounded_cases n d with ⟨-, h⟩ | ⟨hne, -⟩
  · rw [h, hplace, sub_add_cancel]
  · rw [hplace] at hne
    exact absurd hround hne

/-- A value in the interval of a double is rounded to its mantissa and exponent. -/
theorem rounded_of_roundsTo {n d m : Nat} {e : Int} (hn : 0 < n) (hd : 0 < d) (h : IsPositive m e)
    (hv : RoundsTo m e (n / d)) : rounded n d = (m, e) := by
  have two_ne : (2 : ℚ) ≠ 0 := by norm_num
  have hunit : (0 : ℚ) < 2 ^ e := zpow_pos (by norm_num) _
  have hpower (k : Nat) : (2 : ℚ) ^ (k + e) = 2 ^ k * 2 ^ e := by
    rw [zpow_add₀ two_ne, zpow_natCast]
  have hshort : (m : ℚ) + 1 ≤ 2 ^ 53 := by exact_mod_cast h.short
  have hhalf := halfBelow_le m e
  by_cases hcarry : lowestExponent < e ∧ (n : ℚ) / d < 2 ^ (52 + e)
  · obtain ⟨he, hlt⟩ := hcarry
    have hm : m = 2 ^ 52 := by
      have hle : 2 ^ 52 ≤ m := h.normal.resolve_right (by omega)
      by_contra hne
      have hmore : (2 : ℚ) ^ 52 + 1 ≤ m := by exact_mod_cast Nat.lt_of_le_of_ne hle (Ne.symm hne)
      have hbig : (2 : ℚ) ^ 52 * 2 ^ e < n / d :=
        (mul_lt_mul_of_pos_right (by linarith) hunit).trans_le hv.above
      have := hpower 52
      push_cast at this
      linarith
    subst hm
    refine rounded_of_lt hn hd he ?_ hlt
    have habove := hv.above
    rw [halfBelow, if_pos ⟨rfl, he⟩] at habove
    push_cast at habove
    exact habove
  · have hlt : (n : ℚ) / d < 2 ^ ((52 : Int) + e + 1) := by
      refine hv.below.trans_lt ?_
      rw [show (52 : Int) + e + 1 = (53 : Nat) + e by push_cast; ring, hpower]
      exact mul_lt_mul_of_pos_right (by linarith) hunit
    have hplace : max (magnitude n d - 52) lowestExponent = e := by
      have hlow := h.low
      rcases not_and_or.1 hcarry with he | hge
      · have hle : magnitude n d ≤ 52 + e := by
          refine magnitude_le_of_lt hn hd ?_
          rwa [div_lt_iff₀ (by exact_mod_cast hd)] at hlt
        omega
      · rw [magnitude_eq hn hd (not_lt.1 hge) hlt]
        omega
    have hround : roundDiv (n * (scaled d e).2) (scaled d e).1 = m := by
      have hlow : ((m : ℚ) - 1 / 2) * 2 ^ e ≤ (m - halfBelow m e) * 2 ^ e :=
        mul_le_mul_of_nonneg_right (by linarith) hunit.le
      refine roundDiv_scaled_eq hd (hlow.trans hv.above) hv.below fun hodd => ?_
      exact ⟨hlow.trans_lt (hv.inner hodd).1, (hv.inner hodd).2⟩
    rcases rounded_cases n d with ⟨hmax, -⟩ | ⟨-, h'⟩
    · rw [hplace, hround] at hmax
      exact absurd hmax (Nat.ne_of_lt h.short)
    · rw [h', hplace, hround]

theorem RoundsTo.pos {m : Nat} {e : Int} {v : ℚ} (h : IsPositive m e) (hv : RoundsTo m e v) :
    0 < v := by
  have hone : (1 : ℚ) ≤ m := by exact_mod_cast h.pos
  have hhalf := halfBelow_le m e
  exact lt_of_lt_of_le (mul_pos (by linarith) (zpow_pos (by norm_num) _)) hv.above

theorem RoundsTo.count_pos {m : Nat} {e : Int} {n : Nat} {unit : ℚ} (h : IsPositive m e)
    (hv : RoundsTo m e (n * unit)) : 0 < n := by
  rcases Nat.eq_zero_or_pos n with rfl | hn
  · exact absurd (hv.pos h) (by simp)
  · exact hn

/-- The parts of a double that is not zero. -/
theorem isPositive_of_ofFloat {x : Float} {s : Bool} {m : Nat} {e : Int}
    (h : ofFloat x = .finite s m e) (hm : m ≠ 0) : IsPositive m e := by
  rcases finite_cases h with ⟨hlt, rfl, -⟩ | ⟨hlow, hlt, he, he', -⟩
  · exact ⟨Nat.pos_of_ne_zero hm, by omega, le_refl _, by decide, .inr rfl⟩
  · exact ⟨Nat.pos_of_ne_zero hm, hlt, he, he', .inl hlow⟩

/-- Every quotient in the interval of a double has it as its nearest. -/
theorem nearest_of_roundsTo {x : Float} {s : Bool} {m : Nat} {e : Int} {n d : Nat}
    (hx : ofFloat x = .finite s m e) (hm : m ≠ 0) (hd : 0 < d) (hv : RoundsTo m e (n / d)) :
    nearest s n d = x := by
  have h := isPositive_of_ofFloat hx hm
  have hn : 0 < n := RoundsTo.count_pos h (div_eq_mul_inv (n : ℚ) d ▸ hv)
  rw [nearest, nearest?_eq_rounded s d (Nat.ne_of_gt hn), rounded_of_roundsTo hn hd h hv,
    if_neg (by have := h.high; omega)]
  rcases finite_cases hx with ⟨hlt, -, hpack⟩ | ⟨hlow, -, -, -, hpack⟩
  · rw [if_pos hlt]
    exact hpack.symm
  · rw [if_neg (Nat.not_lt.2 hlow)]
    exact hpack.symm

end ImportAtlas.Binary
