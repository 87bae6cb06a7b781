import ImportAtlas.Proofs.Decimal.Digits
import ImportAtlas.Proofs.Decimal.Interval

/-!
# The shortest digits lie in the rounding interval

`Decimal.shortest` looks for a decimal of few digits in the rounding interval of a double. Every
decimal that it takes lies in the interval. With seventeen digits there is always one: the grid of
decimals is then finer than the interval is wide, so the grid point next to the double is in it.
-/

namespace ImportAtlas.Decimal

open Binary

/-! ## The grid -/

theorem inUnits_quotient (n : Nat) {d : Nat} (hd : 0 < d) (unit : Int) :
    0 < (inUnits n d unit).2 ∧
      ((inUnits n d unit).1 : ℚ) / (inUnits n d unit).2 = n / d / 10 ^ unit := by
  simp only [inUnits, Nat.pow_eq]
  split
  · next h =>
    have hpow : (10 : ℚ) ^ unit = 10 ^ unit.toNat := by
      rw [← zpow_natCast, Int.toNat_of_nonneg h]
    refine ⟨Nat.mul_pos hd (Nat.pow_pos (by decide)), ?_⟩
    rw [hpow, div_div]
    push_cast
    rfl
  · next h =>
    have hpow : ((10 : ℚ) ^ unit)⁻¹ = 10 ^ (-unit).toNat := by
      rw [← zpow_neg, ← zpow_natCast, Int.toNat_of_nonneg (by omega)]
    refine ⟨hd, ?_⟩
    rw [div_eq_mul_inv _ ((10 : ℚ) ^ unit), hpow, Nat.cast_mul, Nat.cast_pow]
    push_cast
    ring

theorem shift_spec {d fuel m : Nat} (k : Nat) (h : d ≤ m * 10 ^ fuel) :
    ∃ j, pointOf.shift d fuel m k = k + j ∧ d ≤ m * 10 ^ j := by
  induction fuel generalizing m k with
  | zero => exact ⟨0, rfl, h⟩
  | succ fuel ih =>
    rw [pointOf.shift]
    split
    · next hle => exact ⟨0, rfl, by simpa using hle⟩
    · have hnext : d ≤ m * 10 * 10 ^ fuel := by
        rw [Nat.mul_assoc, ← Nat.pow_succ']
        exact h
      obtain ⟨j, hj, hle⟩ := ih (k + 1) hnext
      refine ⟨j + 1, by omega, ?_⟩
      rw [Nat.pow_succ', ← Nat.mul_assoc]
      exact hle

/-- The place before the point is not above the value. -/
theorem pow_pointOf_le {n d : Nat} (hn : 0 < n) (hd : 0 < d) :
    (10 : ℚ) ^ (pointOf n d - 1) ≤ n / d := by
  have hd' : (0 : ℚ) < d := by exact_mod_cast hd
  rw [le_div_iff₀ hd']
  unfold pointOf
  split
  · next hle =>
    have hdiv : 0 < n / d := Nat.div_pos hle hd
    have hlength : 0 < (Nat.toDigits 10 (n / d)).length := Nat.length_toDigits_pos
    have hpow := pow_length_toDigits_le hdiv
    rw [show ((Nat.toDigits 10 (n / d)).length : Int) - 1 =
      ((Nat.toDigits 10 (n / d)).length - 1 : Nat) by omega, zpow_natCast]
    have hmul : 10 ^ ((Nat.toDigits 10 (n / d)).length - 1) * d ≤ n :=
      le_trans (Nat.mul_le_mul_right d hpow) (Nat.div_mul_le_self n d)
    exact_mod_cast hmul
  · -- the number of binary digits of `d` bounds the shift
    have henough : d ≤ n * 10 ^ (Nat.log2 d + 1) :=
      calc d ≤ 2 ^ (Nat.log2 d + 1) := Nat.le_of_lt Nat.lt_log2_self
        _ ≤ 10 ^ (Nat.log2 d + 1) := Nat.pow_le_pow_left (by decide) _
        _ ≤ n * 10 ^ (Nat.log2 d + 1) := Nat.le_mul_of_pos_left _ hn
    obtain ⟨j, hj, hle⟩ := shift_spec 0 henough
    rw [hj, Nat.zero_add, show (1 : Int) - j - 1 = -j by ring, zpow_neg, zpow_natCast,
      inv_mul_le_iff₀ (by positivity), mul_comm]
    exact_mod_cast hle

/-! ## Hits -/

/-- A value between `lo / d` and `hi / d`, where the ends count only if `closed`. -/
def Between (lo hi d : Nat) (closed : Bool) (v : ℚ) : Prop :=
  if closed then (lo : ℚ) / d ≤ v ∧ v ≤ hi / d else (lo : ℚ) / d < v ∧ v < hi / d

/-- A count of units lies between the ends. -/
def within (lo hi d : Nat) (closed : Bool) (unit : Int) (c : Nat) : Bool :=
  if closed then
    (inUnits lo d unit).1 ≤ c * (inUnits lo d unit).2 &&
      c * (inUnits hi d unit).2 ≤ (inUnits hi d unit).1
  else
    (inUnits lo d unit).1 < c * (inUnits lo d unit).2 &&
      c * (inUnits hi d unit).2 < (inUnits hi d unit).1

theorem within_iff {lo hi d : Nat} (hd : 0 < d) {closed : Bool} {unit : Int} {c : Nat} :
    within lo hi d closed unit c = true ↔ Between lo hi d closed (c * 10 ^ unit) := by
  have hunit : (0 : ℚ) < 10 ^ unit := zpow_pos (by norm_num) _
  obtain ⟨hb, hlo⟩ := inUnits_quotient lo hd unit
  obtain ⟨hf, hhi⟩ := inUnits_quotient hi hd unit
  have hb' : (0 : ℚ) < (inUnits lo d unit).2 := by exact_mod_cast hb
  have hf' : (0 : ℚ) < (inUnits hi d unit).2 := by exact_mod_cast hf
  unfold within Between
  cases closed with
  | true =>
    simp only [if_true, Bool.and_eq_true, decide_eq_true_eq]
    rw [← div_le_iff₀ hunit, ← le_div_iff₀ hunit, ← hlo, ← hhi, div_le_iff₀ hb', le_div_iff₀ hf']
    norm_cast
  | false =>
    simp only [Bool.false_eq_true, if_false, Bool.and_eq_true, decide_eq_true_eq]
    rw [← div_lt_iff₀ hunit, ← lt_div_iff₀ hunit, ← hlo, ← hhi, div_lt_iff₀ hb', lt_div_iff₀ hf']
    norm_cast

/-- A hit is a grid point between the ends. -/
theorem hit?_eq_some {n lo hi d : Nat} {closed : Bool} {point : Int} {count : Nat} {x : Decimal}
    (h : hit? n lo hi d closed point count = some x) :
    ∃ c, within lo hi d closed (point - count) c = true ∧ x = ofCount c (point - count) := by
  unfold hit? at h
  dsimp only at h
  split at h
  · next hbelow habove =>
    cases h
    refine ⟨_, ?_, rfl⟩
    split
    · exact hbelow
    · split
      · exact habove
      · split
        · exact hbelow
        · exact habove
  · next hbelow _ => cases h; exact ⟨_, hbelow, rfl⟩
  · next _ habove => cases h; exact ⟨_, habove, rfl⟩
  · cases h

/-- There is a hit if a neighbour on the grid lies between the ends. -/
theorem hit?_isSome {n lo hi d : Nat} {closed : Bool} {point : Int} {count c : Nat}
    (neighbour : c = (inUnits n d (point - count)).1 / (inUnits n d (point - count)).2 ∨
      c = (inUnits n d (point - count)).1 / (inUnits n d (point - count)).2 + 1)
    (h : within lo hi d closed (point - count) c = true) :
    (hit? n lo hi d closed point count).isSome := by
  unfold hit?
  dsimp only
  split
  · rfl
  · rfl
  · rfl
  · next hbelow habove =>
    rcases neighbour with rfl | rfl
    · exact absurd (h.symm.trans hbelow) (by decide)
    · exact absurd (h.symm.trans habove) (by decide)

/-! ## The interval of a double -/

/-- The numbers with which the interval of `m * 2 ^ e` is searched have the right quotients. -/
theorem interval_quotients {m : Nat} (hm : 0 < m) (e : Int) :
    let up : Nat := 4 * 2 ^ e.toNat
    let d : Nat := 4 * 2 ^ (-e).toNat
    let lo : Nat := if m = 2 ^ 52 && lowestExponent < e then m * up - up / 4 else m * up - up / 2
    ((m * up : Nat) : ℚ) / d = m * 2 ^ e ∧
      ((m * up + up / 2 : Nat) : ℚ) / d = (m + 1 / 2) * 2 ^ e ∧
      (lo : ℚ) / d = (m - halfBelow m e) * 2 ^ e := by
  intro up d lo
  have hpow : (2 : ℚ) ^ e = 2 ^ e.toNat / 2 ^ (-e).toNat := by
    rw [← zpow_natCast, ← zpow_natCast, ← zpow_sub₀ (by norm_num)]
    congr 1
    omega
  have hd : (0 : ℚ) < 2 ^ (-e).toNat := by positivity
  have hup : up ≤ m * up := Nat.le_mul_of_pos_left up hm
  have hhalf : up / 2 = 2 * 2 ^ e.toNat := by omega
  have hquarter : up / 4 = 2 ^ e.toNat := by omega
  have hcast : (up : ℚ) = 4 * 2 ^ e.toNat := by simp [up]
  have hlo : (lo : ℚ) = m * up - 4 * halfBelow m e * 2 ^ e.toNat := by
    simp only [lo, halfBelow, Bool.and_eq_true, decide_eq_true_eq]
    split
    · rw [Nat.cast_sub (by omega), hquarter]
      push_cast
      ring
    · rw [Nat.cast_sub (by omega), hhalf]
      push_cast
      ring
  have hdiv (a : ℚ) : 4 * (a * 2 ^ e.toNat) / (d : ℚ) = a * 2 ^ e := by
    rw [hpow, ← mul_div_assoc]
    simp only [d]
    push_cast
    rw [mul_div_mul_left _ _ (by norm_num)]
  refine ⟨?_, ?_, ?_⟩
  · rw [← hdiv, Nat.cast_mul, hcast]
    ring_nf
  · rw [← hdiv, Nat.cast_add, Nat.cast_mul, hcast, hhalf]
    push_cast
    ring_nf
  · rw [← hdiv, hlo, hcast]
    ring_nf

/-- Half a unit of the seventeenth digit is less than the way to either end. -/
theorem half_unit_lt {m : Nat} {e : Int} (h : IsPositive m e) {u : ℚ}
    (hu : 10 ^ 16 * u ≤ m * 2 ^ e) : u / 2 < halfBelow m e * 2 ^ e := by
  have hunit : (0 : ℚ) < 2 ^ e := zpow_pos (by norm_num) _
  have hm : (m : ℚ) < 2 ^ 53 := by exact_mod_cast h.short
  unfold halfBelow
  split
  · next hpower =>
    rw [hpower.1] at hu
    push_cast at hu
    linarith
  · have : (m : ℚ) * 2 ^ e < 2 ^ 53 * 2 ^ e := mul_lt_mul_of_pos_right hm hunit
    linarith

/-- One of the two neighbours of a quotient is within half a unit of it. -/
theorem exists_neighbour (p : Nat) {q : Nat} (hq : 0 < q) :
    ∃ c, (c = p / q ∨ c = p / q + 1) ∧ |(c : ℚ) - p / q| ≤ 1 / 2 := by
  have hq' : (0 : ℚ) < q := by exact_mod_cast hq
  have hle : ((p / q : Nat) : ℚ) ≤ p / q := by
    rw [le_div_iff₀ hq']
    exact_mod_cast Nat.div_mul_le_self p q
  have hlt : (p : ℚ) / q < (p / q : Nat) + 1 := by
    rw [div_lt_iff₀ hq']
    exact_mod_cast (Nat.div_lt_iff_lt_mul hq).1 (Nat.lt_succ_self (p / q))
  rcases le_total ((p : ℚ) / q - (p / q : Nat)) (1 / 2) with h | h
  · exact ⟨p / q, .inl rfl, abs_le.2 ⟨by linarith, by linarith⟩⟩
  · refine ⟨p / q + 1, .inr rfl, abs_le.2 ⟨?_, ?_⟩⟩
    · push_cast
      linarith
    · push_cast
      linarith

/-- With seventeen digits the neighbour of a double on the grid is a hit. -/
theorem hit?_seventeen_isSome {m : Nat} {e : Int} (h : IsPositive m e) {n lo hi d : Nat} (hd : 0 < d)
    (hn : (n : ℚ) / d = m * 2 ^ e) (hlo : (lo : ℚ) / d = (m - halfBelow m e) * 2 ^ e)
    (hhi : (hi : ℚ) / d = (m + 1 / 2) * 2 ^ e) (closed : Bool) :
    (hit? n lo hi d closed (pointOf n d) 17).isSome := by
  let unit := pointOf n d - 17
  have hunit : (0 : ℚ) < 2 ^ e := zpow_pos (by norm_num) _
  have hten : (0 : ℚ) < 10 ^ unit := zpow_pos (by norm_num) _
  have hpos : 0 < n := by
    rcases Nat.eq_zero_or_pos n with rfl | hpos
    · have hm : (0 : ℚ) < m := by exact_mod_cast h.pos
      rw [Nat.cast_zero, zero_div] at hn
      exact absurd hn (mul_pos hm hunit).ne
    · exact hpos
  obtain ⟨hq, hquotient⟩ := inUnits_quotient n hd unit
  obtain ⟨c, hneighbour, hc⟩ := exists_neighbour (inUnits n d unit).1 hq
  refine hit?_isSome hneighbour ((within_iff hd).2 ?_)
  have hpoint : (10 : ℚ) ^ 16 * 10 ^ unit ≤ m * 2 ^ e := by
    rw [← zpow_natCast, ← zpow_add₀ (by norm_num), ← hn]
    have hle := pow_pointOf_le hpos hd
    rwa [show ((16 : Nat) : Int) + unit = pointOf n d - 1 by simp only [unit]; omega]
  have hnear : |(c : ℚ) * 10 ^ unit - m * 2 ^ e| ≤ 10 ^ unit / 2 := by
    have hmul := mul_le_mul_of_nonneg_right hc hten.le
    rw [hquotient, hn, ← abs_of_pos hten, ← abs_mul, abs_of_pos hten, sub_mul,
      div_mul_cancel₀ _ hten.ne'] at hmul
    linarith
  obtain ⟨hnear₁, hnear₂⟩ := abs_le.1 hnear
  have hsmall := half_unit_lt h hpoint
  have hhalf := mul_le_mul_of_nonneg_right (halfBelow_le m e) hunit.le
  have hleft : (lo : ℚ) / d < c * 10 ^ unit := by rw [hlo]; linarith
  have hright : (c : ℚ) * 10 ^ unit < hi / d := by rw [hhi]; linarith
  unfold Between
  split
  · exact ⟨hleft.le, hright.le⟩
  · exact ⟨hleft, hright⟩

theorem roundsTo_of_between {m : Nat} {e : Int} {lo hi d : Nat} {v : ℚ}
    (hlo : (lo : ℚ) / d = (m - halfBelow m e) * 2 ^ e)
    (hhi : (hi : ℚ) / d = (m + 1 / 2) * 2 ^ e) (h : Between lo hi d (m % 2 == 0) v) :
    RoundsTo m e v := by
  unfold Between at h
  rw [hlo, hhi] at h
  split at h
  · next heven =>
    refine ⟨h.1, h.2, fun hodd => ?_⟩
    rw [beq_iff_eq] at heven
    omega
  · exact ⟨h.1.le, h.2.le, fun _ => h⟩

/-- The shortest digits of a double lie in its rounding interval. -/
theorem shortest_spec {m : Nat} {e : Int} (h : IsPositive m e) :
    ∃ c unit, shortest m e = ofCount c unit ∧ RoundsTo m e (c * 10 ^ unit) := by
  let up : Nat := 4 * 2 ^ e.toNat
  let d : Nat := 4 * 2 ^ (-e).toNat
  let lo : Nat := if m = 2 ^ 52 && lowestExponent < e then m * up - up / 4 else m * up - up / 2
  let hi := m * up + up / 2
  let point := pointOf (m * up) d
  obtain ⟨hn, hhi, hlo⟩ : ((m * up : Nat) : ℚ) / d = m * 2 ^ e ∧
      (hi : ℚ) / d = (m + 1 / 2) * 2 ^ e ∧ (lo : ℚ) / d = (m - halfBelow m e) * 2 ^ e :=
    interval_quotients h.pos e
  have hd : 0 < d := Nat.mul_pos (by decide) (Nat.two_pow_pos _)
  have hlast := hit?_seventeen_isSome h hd hn hlo hhi (m % 2 == 0)
  have hfound : ((List.range 17).findSome? fun i =>
      hit? (m * up) lo hi d (m % 2 == 0) point (i + 1)).isSome :=
    List.findSome?_isSome_iff.2 ⟨16, List.mem_range.2 (by decide), hlast⟩
  obtain ⟨x, hx⟩ := Option.isSome_iff_exists.1 hfound
  obtain ⟨i, -, hi'⟩ := List.exists_of_findSome?_eq_some hx
  obtain ⟨c, hwithin, rfl⟩ := hit?_eq_some hi'
  refine ⟨c, point - (i + 1 : Nat), ?_, ?_⟩
  · show ((List.range 17).findSome? fun i =>
      hit? (m * up) lo hi d (m % 2 == 0) point (i + 1)).getD ⟨[], 0⟩ = _
    rw [hx]
    rfl
  · exact roundsTo_of_between hlo hhi ((within_iff hd).1 hwithin)

end ImportAtlas.Decimal

namespace ImportAtlas.Binary

/-! ## Reading a decimal -/

/-- A value that rounds to a double is far from the bounds at which its size decides. -/
theorem size_bounds {m : Nat} {e : Int} (h : IsPositive m e) {digits : Nat} (hdigits : 0 < digits)
    {exponent : Int} (hv : RoundsTo m e (digits * 10 ^ exponent)) :
    -400 ≤ ((Nat.toDigits 10 digits).length : Int) + exponent ∧
      ((Nat.toDigits 10 digits).length : Int) + exponent ≤ 400 := by
  have ten : (1 : ℚ) < 10 := by norm_num
  have two_ne : (2 : ℚ) ≠ 0 := by norm_num
  have hpos : (0 : ℚ) < 10 ^ exponent := zpow_pos (by norm_num) _
  have hunit : (0 : ℚ) < 2 ^ e := zpow_pos (by norm_num) _
  have hlength : 0 < (Nat.toDigits 10 digits).length := Nat.length_toDigits_pos
  have hm : (1 : ℚ) ≤ m := by exact_mod_cast h.pos
  have hm' : (m : ℚ) + 1 ≤ 2 ^ 53 := by exact_mod_cast h.short
  have hhalf := halfBelow_le m e
  constructor
  · have hlow : (10 : ℚ) ^ (-359 : Int) < 10 ^ (((Nat.toDigits 10 digits).length : Int) + exponent) :=
      calc (10 : ℚ) ^ (-359 : Int) ≤ 8 ^ (-359 : Int) := by
            rw [zpow_neg, zpow_neg]
            exact inv_anti₀ (by positivity) (zpow_le_zpow_left₀ (by decide) (by norm_num) (by norm_num))
        _ = 2 ^ (-1077 : Int) := by
            rw [show (8 : ℚ) = 2 ^ (3 : Int) by norm_num, ← zpow_mul]
            norm_num
        _ ≤ 2 ^ (-1 + e) := zpow_le_zpow_right₀ (by norm_num) (by
            have := h.low
            simp only [lowestExponent] at this
            omega)
        _ = 1 / 2 * 2 ^ e := by rw [zpow_add₀ two_ne]; norm_num
        _ ≤ (m - halfBelow m e) * 2 ^ e := mul_le_mul_of_nonneg_right (by linarith) hunit.le
        _ ≤ digits * 10 ^ exponent := hv.above
        _ < 10 ^ (Nat.toDigits 10 digits).length * 10 ^ exponent := by
            refine mul_lt_mul_of_pos_right ?_ hpos
            exact_mod_cast Decimal.lt_pow_length_toDigits digits
        _ = _ := by rw [zpow_add₀ (by norm_num), zpow_natCast]
    have := (zpow_lt_zpow_iff_right₀ ten).1 hlow
    omega
  · have hhigh : (10 : ℚ) ^ (((Nat.toDigits 10 digits).length : Int) - 1 + exponent) <
        10 ^ (342 : Int) :=
      calc (10 : ℚ) ^ (((Nat.toDigits 10 digits).length : Int) - 1 + exponent)
          = 10 ^ ((Nat.toDigits 10 digits).length - 1) * 10 ^ exponent := by
            rw [zpow_add₀ (by norm_num), ← zpow_natCast, Nat.cast_sub hlength, Nat.cast_one]
        _ ≤ digits * 10 ^ exponent := by
            refine mul_le_mul_of_nonneg_right ?_ hpos.le
            exact_mod_cast Decimal.pow_length_toDigits_le hdigits
        _ ≤ (m + 1 / 2) * 2 ^ e := hv.below
        _ ≤ 2 ^ 53 * 2 ^ e := mul_le_mul_of_nonneg_right (by linarith) hunit.le
        _ = 2 ^ (53 + e) := by rw [zpow_add₀ two_ne]; norm_cast
        _ ≤ 2 ^ (1026 : Int) := zpow_le_zpow_right₀ (by norm_num) (by have := h.high; omega)
        _ = 8 ^ (342 : Int) := by
            rw [show (8 : ℚ) = 2 ^ (3 : Int) by norm_num, ← zpow_mul]
            norm_num
        _ < 10 ^ (342 : Int) := zpow_lt_zpow_left₀ (by decide) (by norm_num) (by norm_num)
    have := (zpow_lt_zpow_iff_right₀ ten).1 hhigh
    omega

/-- A decimal in the rounding interval of a double is read as it. -/
theorem ofScientific_of_roundsTo {x : Float} {s : Bool} {m : Nat} {e : Int} {digits : Nat}
    {exponent : Int} (hx : ofFloat x = .finite s m e) (hm : m ≠ 0)
    (hv : RoundsTo m e (digits * 10 ^ exponent)) : ofScientific s digits exponent = x := by
  have h := isPositive_of_ofFloat hx hm
  have hdigits : 0 < digits := hv.count_pos h
  obtain ⟨hlow, hhigh⟩ := size_bounds h hdigits hv
  unfold ofScientific
  dsimp only [Nat.pow_eq]
  rw [if_neg (by simp; omega), if_neg (by omega)]
  split
  · next hexp =>
    refine nearest_of_roundsTo hx hm Nat.one_pos ?_
    rw [Nat.cast_mul, Nat.cast_pow, Nat.cast_one, div_one, ← zpow_natCast, Int.toNat_of_nonneg hexp]
    exact hv
  · next hexp =>
    refine nearest_of_roundsTo hx hm (Nat.pow_pos (by decide)) ?_
    rw [Nat.cast_pow, ← zpow_natCast, Int.toNat_of_nonneg (by omega), zpow_neg, div_inv_eq_mul]
    exact hv

end ImportAtlas.Binary
