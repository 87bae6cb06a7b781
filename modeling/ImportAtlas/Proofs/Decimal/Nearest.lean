import ImportAtlas.Decimal.Text
import ImportAtlas.Proofs.Decimal.Double
import Mathlib.Algebra.Order.Field.Power
import Mathlib.Algebra.Order.Field.Rat
import Mathlib.Tactic.Linarith
import Mathlib.Tactic.Ring

/-!
# The double nearest to a quotient

`magnitude` places a quotient between two powers of two, which bounds the mantissa that rounding
gives. A quotient below the greatest double has a nearest double, and that double is finite.
-/

namespace ImportAtlas.Binary

/-! ## Quotients and powers of two -/

theorem scaled_snd_pos (n : Nat) (e : Int) : 0 < (scaled n e).2 := by
  unfold scaled
  split
  · exact Nat.one_pos
  · exact Nat.two_pow_pos _

theorem scaled_eq (d : Nat) (e : Int) :
    ((scaled d e).1 : ℚ) = d * 2 ^ e * (scaled d e).2 := by
  unfold scaled
  split
  · next h =>
    have hpow : (2 : ℚ) ^ e = 2 ^ e.toNat := by
      rw [← zpow_natCast, Int.toNat_of_nonneg h]
    simp [hpow]
  · next h =>
    have hpow : (2 : ℚ) ^ e * 2 ^ (-e).toNat = 1 := by
      rw [← zpow_natCast, Int.toNat_of_nonneg (by omega), ← zpow_add₀ (by norm_num), add_neg_cancel,
        zpow_zero]
    simp [mul_assoc, hpow]

theorem zpow_eq_mul {p low : Int} (h : low ≤ p) : (2 : ℚ) ^ p = 2 ^ (p - low).toNat * 2 ^ low := by
  rw [← zpow_natCast, Int.toNat_of_nonneg (by omega), ← zpow_add₀ (by norm_num), sub_add_cancel]

theorem log2_bounds {n : Nat} (hn : 0 < n) :
    (2 : ℚ) ^ (Nat.log2 n : Int) ≤ n ∧ (n : ℚ) < 2 ^ ((Nat.log2 n : Int) + 1) := by
  have hle : 2 ^ Nat.log2 n ≤ n := Nat.log2_self_le (Nat.ne_of_gt hn)
  have hlt : n < 2 ^ (Nat.log2 n + 1) := Nat.lt_log2_self
  constructor
  · rw [zpow_natCast]
    exact_mod_cast hle
  · rw [← Nat.cast_succ, zpow_natCast]
    exact_mod_cast hlt

/-- The logarithms give the magnitude, or one more than it. -/
theorem magnitude_cases (n d : Nat) :
    let guess : Int := (Nat.log2 n : Int) - Nat.log2 d
    (n * (scaled d guess).2 < (scaled d guess).1 ∧ magnitude n d = guess - 1) ∨
      ((scaled d guess).1 ≤ n * (scaled d guess).2 ∧ magnitude n d = guess) := by
  intro guess
  by_cases h : n * (scaled d guess).2 < (scaled d guess).1
  · exact .inl ⟨h, if_pos h⟩
  · exact .inr ⟨Nat.not_lt.1 h, if_neg h⟩

/-- `magnitude` is the exponent of the power of two at or below a quotient. -/
theorem magnitude_spec {n d : Nat} (hn : 0 < n) (hd : 0 < d) :
    (d : ℚ) * 2 ^ magnitude n d ≤ n ∧ (n : ℚ) < d * 2 ^ (magnitude n d + 1) := by
  let guess : Int := (Nat.log2 n : Int) - Nat.log2 d
  have two_ne : (2 : ℚ) ≠ 0 := by norm_num
  obtain ⟨hn₁, hn₂⟩ := log2_bounds hn
  obtain ⟨hd₁, hd₂⟩ := log2_bounds hd
  have habove : (n : ℚ) < d * 2 ^ (guess + 1) :=
    calc (n : ℚ) < 2 ^ ((Nat.log2 n : Int) + 1) := hn₂
      _ = 2 ^ (Nat.log2 d : Int) * 2 ^ (guess + 1) := by
        rw [← zpow_add₀ two_ne]; congr 1; simp only [guess]; ring
      _ ≤ d * 2 ^ (guess + 1) := by gcongr
  have hbelow : (d : ℚ) * 2 ^ (guess - 1) ≤ n :=
    calc (d : ℚ) * 2 ^ (guess - 1) ≤ 2 ^ ((Nat.log2 d : Int) + 1) * 2 ^ (guess - 1) := by gcongr
      _ = 2 ^ (Nat.log2 n : Int) := by
        rw [← zpow_add₀ two_ne]; congr 1; simp only [guess]; ring
      _ ≤ n := hn₁
  have hscaled := scaled_eq d guess
  have hq : (0 : ℚ) < (scaled d guess).2 := by exact_mod_cast scaled_snd_pos d guess
  rcases magnitude_cases n d with ⟨h, heq⟩ | ⟨h, heq⟩
  · have h : (n : ℚ) * (scaled d guess).2 < (scaled d guess).1 := by
      rw [← Nat.cast_mul]
      exact Nat.cast_lt.2 h
    rw [hscaled] at h
    rw [heq, sub_add_cancel]
    exact ⟨hbelow, lt_of_mul_lt_mul_right h hq.le⟩
  · have h : ((scaled d guess).1 : ℚ) ≤ n * (scaled d guess).2 := by
      rw [← Nat.cast_mul]
      exact Nat.cast_le.2 h
    rw [hscaled] at h
    rw [heq]
    exact ⟨le_of_mul_le_mul_right h hq, habove⟩

theorem magnitude_quotient {n d : Nat} (hn : 0 < n) (hd : 0 < d) :
    (2 : ℚ) ^ magnitude n d ≤ n / d ∧ (n : ℚ) / d < 2 ^ (magnitude n d + 1) := by
  have hd' : (0 : ℚ) < d := by exact_mod_cast hd
  rw [le_div_iff₀ hd', div_lt_iff₀ hd', mul_comm, mul_comm (2 ^ (magnitude n d + 1))]
  exact magnitude_spec hn hd

/-! ## Rounding -/

theorem roundDiv_le {n d c : Nat} (h : n ≤ c * d) : roundDiv n d ≤ c := by
  have hq : n / d ≤ c := Nat.div_le_of_le_mul (by rwa [Nat.mul_comm] at h)
  rcases Nat.lt_or_eq_of_le hq with hlt | rfl
  · unfold roundDiv
    dsimp only
    split_ifs <;> omega
  · -- nothing is left over, so nothing is rounded up
    have hr : n % d = 0 := by
      have := Nat.div_add_mod n d
      rw [Nat.mul_comm] at h
      omega
    rcases Nat.eq_zero_or_pos d with rfl | hd
    · simpa [roundDiv] using hr
    · simp [roundDiv, hr, hd]

theorem le_roundDiv {n d c : Nat} (hd : 0 < d) (h : c * d ≤ n) : c ≤ roundDiv n d := by
  have hq : c ≤ n / d := (Nat.le_div_iff_mul_le hd).2 h
  unfold roundDiv
  dsimp only
  split_ifs <;> omega

/-- A quotient is rounded up past halfway, and at halfway to an even number. -/
theorem succ_le_roundDiv_iff {n d c : Nat} (hd : 0 < d) :
    c + 1 ≤ roundDiv n d ↔ (2 * c + 1) * d < 2 * n ∨ (2 * c + 1) * d = 2 * n ∧ c % 2 = 1 := by
  have hn : d * (n / d) + n % d = n := Nat.div_add_mod n d
  have hr : n % d < d := Nat.mod_lt n hd
  have hround : roundDiv n d = n / d ∨ roundDiv n d = n / d + 1 := by
    unfold roundDiv
    dsimp only
    split_ifs <;> simp
  have hhalf : (2 * c + 1) * d = 2 * (d * c) + d := by ring
  rcases Nat.lt_trichotomy (n / d) c with hlt | heq | hgt
  · have hmul : d * (n / d + 1) ≤ d * c := Nat.mul_le_mul_left d hlt
    have : d * (n / d + 1) = d * (n / d) + d := Nat.mul_succ d _
    constructor <;> intro h <;> omega
  · rw [heq] at hn
    unfold roundDiv
    dsimp only
    rw [heq]
    split_ifs <;> omega
  · have hmul : d * (c + 1) ≤ d * (n / d) := Nat.mul_le_mul_left d hgt
    have : d * (c + 1) = d * c + d := Nat.mul_succ d c
    constructor <;> intro h <;> omega

/-- Rounding is off by at most a half. -/
theorem abs_roundDiv_sub_le (n : Nat) {d : Nat} (hd : 0 < d) :
    |(roundDiv n d : ℚ) - n / d| ≤ 1 / 2 := by
  have hd' : (0 : ℚ) < d := by exact_mod_cast hd
  have hquotient : (n : ℚ) / d = (n / d : Nat) + (n % d : Nat) / d := by
    rw [div_eq_iff hd'.ne', add_mul, div_mul_cancel₀ _ hd'.ne', mul_comm]
    exact_mod_cast (Nat.div_add_mod n d).symm
  have hrest : ((n % d : Nat) : ℚ) / d < 1 := by
    rw [div_lt_iff₀ hd', one_mul]
    exact_mod_cast Nat.mod_lt n hd
  have hnonneg : (0 : ℚ) ≤ (n % d : Nat) / d := div_nonneg (Nat.cast_nonneg _) hd'.le
  have hlow (h : 2 * (n % d) ≤ d) : ((n % d : Nat) : ℚ) / d ≤ 1 / 2 := by
    rw [div_le_div_iff₀ hd' two_pos]
    exact_mod_cast (by omega : n % d * 2 ≤ 1 * d)
  have hhigh (h : d ≤ 2 * (n % d)) : (1 : ℚ) / 2 ≤ (n % d : Nat) / d := by
    rw [div_le_div_iff₀ two_pos hd']
    exact_mod_cast (by omega : 1 * d ≤ n % d * 2)
  rw [hquotient, abs_le]
  unfold roundDiv
  dsimp only
  split_ifs with h₁ h₂ h₃
  · have := hlow (by omega)
    constructor <;> linarith
  · have := hhigh (by omega)
    push_cast
    constructor <;> linarith
  · have := hlow (by omega)
    constructor <;> linarith
  · have := hhigh (by omega)
    push_cast
    constructor <;> linarith

/-- The greatest double. -/
def greatest : ℚ := (2 ^ 53 - 1) * 2 ^ (971 : Int)

/-- The mantissa and the last place of the double nearest to a quotient. -/
def rounded (n d : Nat) : Nat × Int :=
  let place := max (magnitude n d - 52) lowestExponent
  let m := roundDiv (n * (scaled d place).2) (scaled d place).1
  if m = 2 ^ 53 then (2 ^ 52, place + 1) else (m, place)

theorem nearest?_eq_rounded (s : Bool) {n : Nat} (d : Nat) (hn : n ≠ 0) :
    nearest? s n d =
      if (rounded n d).2 > 971 then none
      else if (rounded n d).1 < 2 ^ 52 then some (pack s 0 (rounded n d).1)
      else
        some (pack s ((rounded n d).2 - lowestExponent + 1).toNat ((rounded n d).1 - 2 ^ 52)) := by
  rw [nearest?, if_neg hn]
  rfl

/-- Rounding up may carry into the next binary place. -/
theorem rounded_cases (n d : Nat) :
    let place := max (magnitude n d - 52) lowestExponent
    let m := roundDiv (n * (scaled d place).2) (scaled d place).1
    (m = 2 ^ 53 ∧ rounded n d = (2 ^ 52, place + 1)) ∨ (m ≠ 2 ^ 53 ∧ rounded n d = (m, place)) := by
  intro place m
  by_cases h : m = 2 ^ 53
  · exact .inl ⟨h, if_pos h⟩
  · exact .inr ⟨h, if_neg h⟩

theorem scaled_quotient (n : Nat) {d : Nat} (hd : 0 < d) (place : Int) :
    0 < (scaled d place).1 ∧
      ((n * (scaled d place).2 : Nat) : ℚ) / (scaled d place).1 = n / d / 2 ^ place := by
  have hq : (0 : ℚ) < (scaled d place).2 := by exact_mod_cast scaled_snd_pos d place
  have hd' : (0 : ℚ) < d := by exact_mod_cast hd
  have hunit : (0 : ℚ) < 2 ^ place := zpow_pos (by norm_num) _
  have hp : ((scaled d place).1 : ℚ) = d * 2 ^ place * (scaled d place).2 := scaled_eq d place
  constructor
  · have hpos : (0 : ℚ) < (scaled d place).1 := by rw [hp]; positivity
    exact_mod_cast hpos
  · rw [hp, Nat.cast_mul, mul_div_mul_right _ _ hq.ne', div_div]

theorem roundDiv_scaled_le {n d k : Nat} {place : Int} (hd : 0 < d)
    (h : (n : ℚ) / d ≤ k * 2 ^ place) :
    roundDiv (n * (scaled d place).2) (scaled d place).1 ≤ k := by
  obtain ⟨hpos, hquotient⟩ := scaled_quotient n hd place
  rw [← div_le_iff₀ (zpow_pos (by norm_num) _), ← hquotient,
    div_le_iff₀ (by exact_mod_cast hpos)] at h
  exact roundDiv_le (by exact_mod_cast h)

theorem le_roundDiv_scaled {n d k : Nat} {place : Int} (hd : 0 < d)
    (h : (k : ℚ) * 2 ^ place ≤ n / d) :
    k ≤ roundDiv (n * (scaled d place).2) (scaled d place).1 := by
  obtain ⟨hpos, hquotient⟩ := scaled_quotient n hd place
  rw [← le_div_iff₀ (zpow_pos (by norm_num) _), ← hquotient,
    le_div_iff₀ (by exact_mod_cast hpos)] at h
  exact le_roundDiv hpos (by exact_mod_cast h)

/-- A quotient measured in a place that its magnitude allows has at most 53 digits. -/
theorem roundDiv_scaled_le_carry {n d : Nat} (hn : 0 < n) (hd : 0 < d) (place : Int)
    (h : magnitude n d - 52 ≤ place) :
    roundDiv (n * (scaled d place).2) (scaled d place).1 ≤ 2 ^ 53 := by
  refine roundDiv_scaled_le hd ?_
  calc (n : ℚ) / d ≤ 2 ^ (magnitude n d + 1) := (magnitude_quotient hn hd).2.le
    _ ≤ 2 ^ (53 + place) := zpow_le_zpow_right₀ (by norm_num) (by omega)
    _ = (2 ^ 53 : Nat) * 2 ^ place := by
      rw [zpow_add₀ (by norm_num)]
      norm_cast

theorem rounded_bounds {n d : Nat} (hn : 0 < n) (hd : 0 < d) :
    (rounded n d).1 < 2 ^ 53 ∧ -1074 ≤ (rounded n d).2 ∧
      (rounded n d).2 ≤ max (magnitude n d - 51) (-1073) := by
  have hm := roundDiv_scaled_le_carry hn hd (max (magnitude n d - 52) lowestExponent) (by omega)
  rcases rounded_cases n d with ⟨-, h⟩ | ⟨hne, h⟩
  · rw [h]
    exact ⟨Nat.pow_lt_pow_right (by decide) (by decide), by simp only [lowestExponent]; omega,
      by simp only [lowestExponent]; omega⟩
  · rw [h]
    exact ⟨by omega, by simp only [lowestExponent]; omega, by simp only [lowestExponent]; omega⟩

/-- Only in the lowest place does a rounded quotient have fewer than 53 digits. -/
theorem rounded_normal {n d : Nat} (hn : 0 < n) (hd : 0 < d) :
    2 ^ 52 ≤ (rounded n d).1 ∨ (rounded n d).2 = lowestExponent := by
  rcases rounded_cases n d with ⟨-, h⟩ | ⟨-, h⟩
  · rw [h]
    exact .inl le_rfl
  · rw [h]
    by_cases hlow : magnitude n d - 52 ≤ lowestExponent
    · exact .inr (max_eq_right hlow)
    · rw [max_eq_left (by omega)]
      refine .inl (le_roundDiv_scaled hd ?_)
      refine le_trans (le_of_eq ?_) (magnitude_quotient hn hd).1
      rw [Nat.cast_pow, Nat.cast_ofNat, ← zpow_natCast, ← zpow_add₀ (by norm_num)]
      congr 1
      omega

/-- The double nearest to a quotient has the mantissa and the exponent that the quotient is rounded
to. -/
theorem ofFloat_nearest? {s : Bool} {n d : Nat} {x : Float} (hn : 0 < n) (hd : 0 < d)
    (h : nearest? s n d = some x) : ofFloat x = .finite s (rounded n d).1 (rounded n d).2 := by
  obtain ⟨hm, hlow, -⟩ := rounded_bounds hn hd
  have hnormal := rounded_normal hn hd
  rw [nearest?_eq_rounded s d hn.ne'] at h
  split at h
  · cases h
  · split at h
    · cases h
      rw [ofFloat_pack s (by decide) (by omega), if_pos rfl, hnormal.resolve_left (by omega)]
    · cases h
      simp only [lowestExponent]
      rw [ofFloat_pack s (by omega) (by omega), if_neg (by omega)]
      congr 1
      · omega
      · simp only [lowestExponent]
        omega

/-- The double nearest to a quotient is finite, and its exponent is what the magnitude of the
quotient asks for. -/
theorem ofFloat_of_nearest? {s : Bool} {n d : Nat} {x : Float} (hd : 0 < d)
    (h : nearest? s n d = some x) :
    ∃ m e, ofFloat x = .finite s m e ∧ m < 2 ^ 53 ∧ e ≤ max (magnitude n d - 51) (-1073) := by
  by_cases hn : n = 0
  · rw [nearest?, if_pos hn] at h
    cases h
    rw [ofFloat_pack s (by decide) (by decide)]
    exact ⟨0, lowestExponent, rfl, by decide, by simp only [lowestExponent]; omega⟩
  · obtain ⟨hm, -, hplace⟩ := rounded_bounds (Nat.pos_of_ne_zero hn) hd
    exact ⟨_, _, ofFloat_nearest? (Nat.pos_of_ne_zero hn) hd h, hm, hplace⟩

theorem magnitude_le_of_lt {n d : Nat} (hn : 0 < n) (hd : 0 < d) {k : Int}
    (h : (n : ℚ) < 2 ^ (k + 1) * d) : magnitude n d ≤ k := by
  have hq : (0 : ℚ) < d := by exact_mod_cast hd
  have hlt : (d : ℚ) * 2 ^ magnitude n d < d * 2 ^ (k + 1) :=
    calc (d : ℚ) * 2 ^ magnitude n d ≤ n := (magnitude_spec hn hd).1
      _ < 2 ^ (k + 1) * d := h
      _ = d * 2 ^ (k + 1) := mul_comm _ _
  have hexp := (zpow_lt_zpow_iff_right₀ (by norm_num : (1 : ℚ) < 2)).1
    (lt_of_mul_lt_mul_left hlt hq.le)
  omega

theorem lt_greatest_mul {n d : Nat} (hd : 0 < d) (h : n < 2 ^ 64) : (n : ℚ) < greatest * d := by
  have hpow : (2 : ℚ) ^ (64 : Int) ≤ 2 ^ (971 : Int) :=
    zpow_le_zpow_right₀ (by norm_num) (by decide)
  have hone : (1 : ℚ) ≤ d := by exact_mod_cast hd
  have hgreatest : (2 : ℚ) ^ (64 : Int) ≤ greatest :=
    hpow.trans (le_mul_of_one_le_left (zpow_nonneg (by norm_num) _) (by norm_num))
  calc (n : ℚ) < 2 ^ (64 : Int) := by exact_mod_cast h
    _ ≤ greatest := hgreatest
    _ ≤ greatest * d := le_mul_of_one_le_right (le_trans (by norm_num) hgreatest) hone

/-! ## The limit of the doubles -/

/-- The least whole number that no double is nearest to, half a place past the greatest. -/
def limit : Nat := (2 ^ 54 - 1) * 2 ^ 970

theorem limit_pos : 0 < limit := Nat.mul_pos (by decide) (Nat.two_pow_pos _)

theorem limit_eq : (limit : ℚ) = (2 ^ 54 - 1) * 2 ^ (970 : Int) := by
  obtain ⟨k, hk⟩ : ∃ k : Nat, k = 970 := ⟨970, rfl⟩
  have hlimit : limit = (2 ^ 54 - 1) * 2 ^ k := by rw [hk, limit]
  rw [hlimit, show (970 : Int) = k by omega, zpow_natCast]
  push_cast
  norm_num

theorem limit_bounds : (2 : ℚ) ^ (1023 : Int) ≤ limit ∧ (limit : ℚ) ≤ 2 ^ (1024 : Int) := by
  have hpow (k : Nat) : (2 : ℚ) ^ (k + 970 : Int) = 2 ^ k * 2 ^ (970 : Int) := by
    rw [zpow_add₀ (by norm_num), zpow_natCast]
  have hpos : (0 : ℚ) ≤ 2 ^ (970 : Int) := zpow_nonneg (by norm_num) _
  rw [limit_eq, show (1023 : Int) = (53 : Nat) + 970 by rfl,
    show (1024 : Int) = (54 : Nat) + 970 by rfl, hpow, hpow]
  exact ⟨mul_le_mul_of_nonneg_right (by norm_num) hpos,
    mul_le_mul_of_nonneg_right (by norm_num) hpos⟩

/-- At the last place a quotient carries from the limit on. -/
theorem roundDiv_scaled_eq_carry_iff {n d : Nat} (hn : 0 < n) (hd : 0 < d)
    (h : magnitude n d = 1023) :
    roundDiv (n * (scaled d 971).2) (scaled d 971).1 = 2 ^ 53 ↔ (limit : ℚ) * d ≤ n := by
  have hle := roundDiv_scaled_le_carry hn hd 971 (by omega)
  have hq : (0 : ℚ) < (scaled d 971).2 := by exact_mod_cast scaled_snd_pos d 971
  have hscaled := scaled_eq d 971
  have hfst : 0 < (scaled d 971).1 := by
    have hpos : (0 : ℚ) < (scaled d 971).1 := by
      rw [hscaled]
      positivity
    exact_mod_cast hpos
  calc roundDiv (n * (scaled d 971).2) (scaled d 971).1 = 2 ^ 53
      ↔ 2 ^ 53 - 1 + 1 ≤ roundDiv (n * (scaled d 971).2) (scaled d 971).1 := by omega
    _ ↔ (2 * (2 ^ 53 - 1) + 1) * (scaled d 971).1 ≤ 2 * (n * (scaled d 971).2) := by
      rw [succ_le_roundDiv_iff hfst, and_iff_left (by decide), ← Nat.le_iff_lt_or_eq]
    _ ↔ (2 ^ 54 - 1) * ((scaled d 971).1 : ℚ) ≤ 2 * (n * (scaled d 971).2) := by
      generalize (scaled d 971).1 = p, (scaled d 971).2 = q
      rw [← Nat.cast_le (α := ℚ)]
      push_cast
      norm_num
    _ ↔ 2 * ((limit : ℚ) * d) * (scaled d 971).2 ≤ 2 * n * (scaled d 971).2 := by
      rw [hscaled, limit_eq, show (971 : Int) = 970 + 1 by rfl, zpow_add_one₀ (by norm_num)]
      ring_nf
    _ ↔ (limit : ℚ) * d ≤ n := by
      rw [mul_le_mul_iff_left₀ hq, mul_le_mul_iff_right₀ (by norm_num)]

/-- Only a quotient at or past the limit is too large for a double. -/
theorem nearest?_eq_none_iff (s : Bool) {n d : Nat} (hd : 0 < d) :
    nearest? s n d = none ↔ limit * d ≤ n := by
  rw [← Nat.cast_le (α := ℚ), Nat.cast_mul]
  have hq : (0 : ℚ) < d := by exact_mod_cast hd
  have hlimit : (0 : ℚ) < limit * d := mul_pos (lt_of_lt_of_le (by positivity) limit_bounds.1) hq
  by_cases hn : n = 0
  · refine iff_of_false ?_ ?_
    · rw [nearest?, if_pos hn]
      exact Option.some_ne_none _
    · rw [hn, Nat.cast_zero]
      exact not_le.2 hlimit
  have hpos := Nat.pos_of_ne_zero hn
  have hplace : nearest? s n d = none ↔ 971 < (rounded n d).2 := by
    rw [nearest?_eq_rounded s d hn]
    split_ifs with hpast
    · exact iff_of_true rfl hpast
    all_goals exact iff_of_false id hpast
  obtain ⟨hlow, hhigh⟩ := magnitude_spec hpos hd
  rw [hplace]
  rcases Int.lt_trichotomy (magnitude n d) 1023 with hlt | heq | hgt
  · have hbounds := (rounded_bounds hpos hd).2.2
    have hless : (n : ℚ) < limit * d :=
      calc (n : ℚ) < d * 2 ^ (magnitude n d + 1) := hhigh
        _ ≤ d * 2 ^ (1023 : Int) :=
          mul_le_mul_of_nonneg_left (zpow_le_zpow_right₀ (by norm_num) (by omega)) hq.le
        _ ≤ d * limit := mul_le_mul_of_nonneg_left limit_bounds.1 hq.le
        _ = limit * d := mul_comm _ _
    exact iff_of_false (by omega) (not_le.2 hless)
  · rw [← roundDiv_scaled_eq_carry_iff hpos hd heq]
    have hlast : max (magnitude n d - 52) lowestExponent = 971 := by
      simp only [lowestExponent]
      omega
    have hcases := rounded_cases n d
    rw [hlast] at hcases
    rcases hcases with ⟨hm, hr⟩ | ⟨hm, hr⟩
    · rw [hr]
      exact iff_of_true (by decide) hm
    · rw [hr]
      exact iff_of_false (lt_irrefl _) hm
  · have hbounds : 971 < (rounded n d).2 := by
      rcases rounded_cases n d with ⟨-, hr⟩ | ⟨-, hr⟩ <;> rw [hr] <;> dsimp only <;> omega
    have hle : (limit : ℚ) * d ≤ n :=
      calc (limit : ℚ) * d = d * limit := mul_comm _ _
        _ ≤ d * 2 ^ (1024 : Int) := mul_le_mul_of_nonneg_left limit_bounds.2 hq.le
        _ ≤ d * 2 ^ magnitude n d :=
          mul_le_mul_of_nonneg_left (zpow_le_zpow_right₀ (by norm_num) (by omega)) hq.le
        _ ≤ n := hlow
    exact iff_of_true hbounds hle

theorem greatest_le_limit : greatest ≤ limit := by
  have hpos : (0 : ℚ) ≤ 2 ^ (970 : Int) := zpow_nonneg (by norm_num) _
  rw [greatest, limit_eq, show (971 : Int) = 970 + 1 by rfl, zpow_add_one₀ (by norm_num)]
  generalize (2 : ℚ) ^ (970 : Int) = p at hpos
  linarith

/-- A quotient below the greatest double has a nearest double. -/
theorem nearest?_isSome (s : Bool) {n d : Nat} (hd : 0 < d) (h : (n : ℚ) < greatest * d) :
    (nearest? s n d).isSome := by
  rw [Option.isSome_iff_ne_none, ne_eq, nearest?_eq_none_iff s hd, Nat.not_le,
    ← Nat.cast_lt (α := ℚ), Nat.cast_mul]
  exact h.trans_le (mul_le_mul_of_nonneg_right greatest_le_limit (Nat.cast_nonneg d))

/-! ## Finite results -/

theorem isFinite_of_ofFloat {x : Float} {s : Bool} {m : Nat} {e : Int}
    (h : ofFloat x = .finite s m e) : IsFinite x := by
  intro hfield
  rw [ofFloat_eq, if_pos hfield] at h
  split at h <;> cases h

theorem isFinite_nearest (s : Bool) {n d : Nat} (hd : 0 < d) (h : (n : ℚ) < greatest * d) :
    IsFinite (nearest s n d) := by
  obtain ⟨x, hx⟩ := Option.isSome_iff_exists.1 (nearest?_isSome s hd h)
  obtain ⟨m, e, hfinite, -, -⟩ := ofFloat_of_nearest? hd hx
  rw [nearest, hx]
  exact isFinite_of_ofFloat hfinite

theorem scaled_fst_lt {m k : Nat} {e : Int} (hm : m < 2 ^ 53) (he : e ≤ k) :
    (scaled m e).1 + 1 ≤ 2 ^ 53 * 2 ^ k := by
  unfold scaled
  split
  · calc m * 2 ^ e.toNat + 1 ≤ m * 2 ^ e.toNat + 2 ^ e.toNat :=
          Nat.add_le_add_left (Nat.two_pow_pos _) _
      _ = (m + 1) * 2 ^ e.toNat := (Nat.succ_mul _ _).symm
      _ ≤ 2 ^ 53 * 2 ^ k := Nat.mul_le_mul hm (Nat.pow_le_pow_right (by decide) (by omega))
  · exact Nat.le_trans hm (Nat.le_mul_of_pos_right _ (Nat.two_pow_pos _))

/-- Below the last binary place a value is less than the greatest double by more than one. -/
theorem scaled_fst_add_one_lt {m : Nat} {e : Int} (hm : m < 2 ^ 53) (he : e ≤ 970) :
    ((scaled m e).1 : ℚ) + 1 < greatest := by
  obtain ⟨k, hk⟩ : ∃ k : Nat, (k : Int) = 970 := ⟨970, rfl⟩
  have hcast : ((scaled m e).1 : ℚ) + 1 ≤ 2 ^ 53 * 2 ^ k := by
    exact_mod_cast scaled_fst_lt hm (hk ▸ he)
  have hgreatest : greatest = (2 ^ 53 - 1) * (2 ^ k * 2) := by
    rw [greatest, show (971 : Int) = k + 1 by omega, zpow_add_one₀ (by norm_num), zpow_natCast]
  have hpos : (0 : ℚ) < 2 ^ k := pow_pos (by norm_num) _
  rw [hgreatest]
  linarith

/-- Rounding a finite double to decimal places keeps it finite, below the last binary place. -/
theorem isFinite_roundPlaces (places : Nat) {x : Float} {s : Bool} {m : Nat} {e : Int}
    (h : ofFloat x = .finite s m e) (hm : m < 2 ^ 53) (he : e ≤ 970) :
    IsFinite (roundPlaces places x) := by
  have hten : 0 < 10 ^ places := Nat.pow_pos (by decide)
  have hfixed : Decimal.fixed (scaled m e).1 (scaled m e).2 places ≤
      ((scaled m e).1 + 1) * 10 ^ places := by
    refine roundDiv_le ?_
    calc (scaled m e).1 * 10 ^ places ≤ ((scaled m e).1 + 1) * 10 ^ places :=
          Nat.mul_le_mul_right _ (Nat.le_succ _)
      _ ≤ ((scaled m e).1 + 1) * 10 ^ places * (scaled m e).2 :=
        Nat.le_mul_of_pos_right _ (scaled_snd_pos m e)
  rw [roundPlaces, h]
  refine isFinite_nearest s hten ?_
  calc (Decimal.fixed (scaled m e).1 (scaled m e).2 places : ℚ)
      ≤ (((scaled m e).1 : ℚ) + 1) * (10 ^ places : Nat) := by exact_mod_cast hfixed
    _ < greatest * (10 ^ places : Nat) :=
      mul_lt_mul_of_pos_right (scaled_fst_add_one_lt hm he) (by exact_mod_cast hten)

end ImportAtlas.Binary
