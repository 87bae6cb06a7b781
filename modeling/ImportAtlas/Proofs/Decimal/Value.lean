import ImportAtlas.Proofs.Decimal.Interval
import ImportAtlas.Proofs.Decimal.Order

/-!
# Values of doubles

Rounding a quotient to the nearest double does not pass any double: a double at or above the quotient
is at or above the result, and one at or below it is at or below. Rounding a double to hundredths
brings it above a whole number exactly if it lies more than half a hundredth above.
-/

namespace ImportAtlas.Binary

theorem value_finite_false (m : Nat) (e : Int) : (finite false m e).value = m * 2 ^ e := by
  simp [value, signed]

/-! ## Bounds of a rounded quotient -/

theorem rounded_value (n d : Nat) :
    let place := max (magnitude n d - 52) lowestExponent
    ((rounded n d).1 : ℚ) * 2 ^ (rounded n d).2 =
      roundDiv (n * (scaled d place).2) (scaled d place).1 * 2 ^ place := by
  intro place
  rcases rounded_cases n d with ⟨hm, h⟩ | ⟨-, h⟩
  · rw [h, hm, zpow_add_one₀ (by norm_num)]
    push_cast
    ring
  · rw [h]

/-- Below the place of the rounded quotient doubles have no more than 53 digits, so they are at most
the power of two that the quotient has reached. -/
theorem le_pow_of_lt_place {n d k : Nat} {p : Int} (hn : 0 < n) (hd : 0 < d) (hk : k ≤ 2 ^ 53)
    (hp : lowestExponent ≤ p) (hlt : p < max (magnitude n d - 52) lowestExponent) :
    let place := max (magnitude n d - 52) lowestExponent
    (k : ℚ) * 2 ^ p ≤ (2 ^ 52 : Nat) * 2 ^ place ∧ ((2 ^ 52 : Nat) : ℚ) * 2 ^ place ≤ n / d := by
  intro place
  have hplace : place = magnitude n d - 52 := max_eq_left (by omega)
  have hpow (j : Nat) (q : Int) : ((2 ^ j : Nat) : ℚ) * 2 ^ q = 2 ^ (j + q) := by
    rw [zpow_add₀ (by norm_num), zpow_natCast, Nat.cast_pow, Nat.cast_ofNat]
  constructor
  · calc (k : ℚ) * 2 ^ p ≤ (2 ^ 53 : Nat) * 2 ^ p :=
          mul_le_mul_of_nonneg_right (by exact_mod_cast hk) (zpow_nonneg (by norm_num) _)
      _ = 2 ^ ((53 : Nat) + p) := hpow 53 p
      _ ≤ 2 ^ ((52 : Nat) + place) := zpow_le_zpow_right₀ (by norm_num) (by omega)
      _ = (2 ^ 52 : Nat) * 2 ^ place := (hpow 52 place).symm
  · rw [hpow, hplace]
    convert (magnitude_quotient hn hd).1 using 2
    omega

theorem mul_zpow_eq {k : Nat} {p place : Int} (h : place ≤ p) :
    (k : ℚ) * 2 ^ p = (k * 2 ^ (p - place).toNat : Nat) * 2 ^ place := by
  rw [zpow_eq_mul h]
  push_cast
  ring

/-- A quotient at or below a double is rounded to at most the double. -/
theorem rounded_le {n d k : Nat} {p : Int} (hn : 0 < n) (hd : 0 < d) (hk : k ≤ 2 ^ 53)
    (hp : lowestExponent ≤ p) (h : (n : ℚ) / d ≤ k * 2 ^ p) :
    ((rounded n d).1 : ℚ) * 2 ^ (rounded n d).2 ≤ k * 2 ^ p := by
  rw [rounded_value]
  generalize hplace : max (magnitude n d - 52) lowestExponent = place
  have hunit : (0 : ℚ) ≤ 2 ^ place := zpow_nonneg (by norm_num) _
  rcases le_or_gt place p with hle | hlt
  · rw [mul_zpow_eq hle] at h ⊢
    exact mul_le_mul_of_nonneg_right (by exact_mod_cast roundDiv_scaled_le hd h) hunit
  · subst hplace
    obtain ⟨hbelow, hreached⟩ := le_pow_of_lt_place hn hd hk hp hlt
    refine le_trans ?_ (hreached.trans h)
    exact mul_le_mul_of_nonneg_right
      (by exact_mod_cast roundDiv_scaled_le hd (h.trans hbelow)) hunit

/-- A quotient at or above a double is rounded to at least the double. -/
theorem le_rounded {n d k : Nat} {p : Int} (hn : 0 < n) (hd : 0 < d) (hk : k ≤ 2 ^ 53)
    (hp : lowestExponent ≤ p) (h : (k : ℚ) * 2 ^ p ≤ n / d) :
    (k : ℚ) * 2 ^ p ≤ (rounded n d).1 * 2 ^ (rounded n d).2 := by
  rw [rounded_value]
  generalize hplace : max (magnitude n d - 52) lowestExponent = place
  have hunit : (0 : ℚ) ≤ 2 ^ place := zpow_nonneg (by norm_num) _
  rcases le_or_gt place p with hle | hlt
  · rw [mul_zpow_eq hle] at h ⊢
    exact mul_le_mul_of_nonneg_right (by exact_mod_cast le_roundDiv_scaled hd h) hunit
  · subst hplace
    obtain ⟨hbelow, hreached⟩ := le_pow_of_lt_place hn hd hk hp hlt
    refine hbelow.trans ?_
    exact mul_le_mul_of_nonneg_right (by exact_mod_cast le_roundDiv_scaled hd hreached) hunit

theorem value_nearest? {n d : Nat} {x : Float} (hn : 0 < n) (hd : 0 < d)
    (hx : nearest? false n d = some x) :
    (ofFloat x).value = (rounded n d).1 * 2 ^ (rounded n d).2 := by
  rw [ofFloat_nearest? hn hd hx, value_finite_false]

theorem value_of_nearest?_zero {d : Nat} {x : Float} (hx : nearest? false 0 d = some x) :
    (ofFloat x).value = 0 := by
  rw [nearest?, if_pos rfl] at hx
  cases hx
  rw [ofFloat_pack false (by decide) (by decide), if_pos rfl, value_finite_false]
  simp

/-- Of a quotient and a double at or above it the nearest double keeps the order. -/
theorem value_nearest?_le {n d k : Nat} {p : Int} {x : Float} (hd : 0 < d) (hk : k ≤ 2 ^ 53)
    (hp : lowestExponent ≤ p) (hx : nearest? false n d = some x) (h : (n : ℚ) / d ≤ k * 2 ^ p) :
    (ofFloat x).value ≤ k * 2 ^ p := by
  rcases Nat.eq_zero_or_pos n with rfl | hn
  · rw [value_of_nearest?_zero hx]
    exact mul_nonneg (Nat.cast_nonneg k) (zpow_nonneg (by norm_num) _)
  · rw [value_nearest? hn hd hx]
    exact rounded_le hn hd hk hp h

/-- Of a quotient and a double at or below it the nearest double keeps the order. -/
theorem le_value_nearest? {n d k : Nat} {p : Int} {x : Float} (hd : 0 < d) (hk : k ≤ 2 ^ 53)
    (hp : lowestExponent ≤ p) (hx : nearest? false n d = some x) (h : (k : ℚ) * 2 ^ p ≤ n / d) :
    k * 2 ^ p ≤ (ofFloat x).value := by
  rcases Nat.eq_zero_or_pos n with rfl | hn
  · rw [value_of_nearest?_zero hx]
    simpa using h
  · rw [value_nearest? hn hd hx]
    exact le_rounded hn hd hk hp h

/-! ## Rounding to hundredths -/

/-- The hundredths of a double, rounded to a whole number. -/
def hundredths (m : Nat) (e : Int) : Nat := Decimal.fixed (scaled m e).1 (scaled m e).2 2

theorem hundredths_eq (m : Nat) (e : Int) :
    hundredths m e = roundDiv ((scaled m e).1 * 10 ^ 2) (scaled m e).2 := rfl

theorem scaled_value (m : Nat) (e : Int) :
    ((scaled m e).1 : ℚ) / (scaled m e).2 = m * 2 ^ e := by
  have hpos : (0 : ℚ) < (scaled m e).2 := by exact_mod_cast scaled_snd_pos m e
  rw [scaled_eq, mul_div_cancel_right₀ _ hpos.ne']

theorem abs_hundredths_sub_le (m : Nat) (e : Int) :
    |(hundredths m e : ℚ) / 100 - m * 2 ^ e| ≤ 1 / 200 := by
  have hvalue : (((scaled m e).1 * 10 ^ 2 : Nat) : ℚ) / (scaled m e).2 = m * 2 ^ e * 100 := by
    rw [← scaled_value]
    push_cast
    ring
  have h : |(hundredths m e : ℚ) - m * 2 ^ e * 100| ≤ 1 / 2 := by
    rw [hundredths_eq, ← hvalue]
    exact abs_roundDiv_sub_le ((scaled m e).1 * 10 ^ 2) (scaled_snd_pos m e)
  rw [abs_le] at h ⊢
  constructor <;> linarith

/-- Rounding goes up past half a hundredth above a whole number. No double lies there, and a whole
number of hundredths is even if it is one of wholes. -/
theorem lt_hundredths_iff (m : Nat) (e : Int) (k : Nat) :
    100 * k < hundredths m e ↔ (200 * k + 1 : ℚ) < 200 * (m * 2 ^ e) := by
  have hpos := scaled_snd_pos m e
  have hq : (0 : ℚ) < (scaled m e).2 := by exact_mod_cast hpos
  calc 100 * k < hundredths m e
      ↔ (2 * (100 * k) + 1) * (scaled m e).2 < 2 * ((scaled m e).1 * 10 ^ 2) := by
        rw [← Nat.succ_le_iff, hundredths_eq, Nat.succ_eq_add_one, succ_le_roundDiv_iff hpos,
          or_iff_left (by omega)]
    _ ↔ (200 * k + 1) * ((scaled m e).2 : ℚ) < 200 * (scaled m e).1 := by
      rw [← Nat.cast_lt (α := ℚ)]
      push_cast
      constructor <;> intro h <;> linarith
    _ ↔ (200 * k + 1 : ℚ) < 200 * (m * 2 ^ e) := by
      rw [← lt_div_iff₀ hq, mul_div_assoc, scaled_value]

theorem lt_add_exponent {m j k : Nat} {e : Int} (hm : m ≤ 2 ^ j) (h : (2 : ℚ) ^ k < m * 2 ^ e) :
    (k : Int) < j + e := by
  have hlt : (2 : ℚ) ^ (k : Int) < 2 ^ (j + e) := by
    rw [zpow_natCast, zpow_add₀ (by norm_num), zpow_natCast]
    refine h.trans_le (mul_le_mul_of_nonneg_right ?_ (zpow_nonneg (by norm_num) _))
    exact_mod_cast hm
  exact (zpow_lt_zpow_iff_right₀ (by norm_num)).1 hlt

/-- Hundredths are coarser than the places of a small double and finer than those of a large one.
Where they are finer, rounding gives the double back. -/
theorem nearest_hundredths {x : Float} {m : Nat} {e : Int} (hx : ofFloat x = .finite false m e)
    (h : (2 : ℚ) ^ 46 < m * 2 ^ e) : nearest false (hundredths m e) 100 = x := by
  have hm : m ≠ 0 := by
    rintro rfl
    norm_num at h
  have hunit {k : Int} (hk : k ≤ e) : (2 : ℚ) ^ k ≤ 2 ^ e :=
    zpow_le_zpow_right₀ (by norm_num) hk
  have he := lt_add_exponent (isPositive_of_ofFloat hx hm).short.le h
  have hplace := hunit (by omega : -6 ≤ e)
  have hbelow : 1 / 200 < halfBelow m e * 2 ^ e := by
    unfold halfBelow
    split_ifs with hpower
    · -- a power of two above `2 ^ 46` has places of a thirty-second at least
      have he := lt_add_exponent hpower.1.le h
      have hplace := hunit (by omega : -5 ≤ e)
      norm_num at hplace ⊢
      linarith
    · norm_num at hplace ⊢
      linarith
  have habove : 1 / 200 < 1 / 2 * (2 : ℚ) ^ e := by
    norm_num at hplace ⊢
    linarith
  obtain ⟨hlow, hhigh⟩ := abs_le.1 (abs_hundredths_sub_le m e)
  have hlow : (m - halfBelow m e) * 2 ^ e < (hundredths m e : ℚ) / (100 : Nat) := by
    rw [sub_mul]
    push_cast
    linarith
  have hhigh : (hundredths m e : ℚ) / (100 : Nat) < (m + 1 / 2) * 2 ^ e := by
    rw [add_mul]
    push_cast
    linarith
  exact nearest_of_roundsTo hx hm (by decide) ⟨hlow.le, hhigh.le, fun _ => ⟨hlow, hhigh⟩⟩

theorem hundredths_le {m : Nat} {e : Int} (h : (m : ℚ) * 2 ^ e ≤ 2 ^ 46) :
    hundredths m e ≤ 100 * 2 ^ 46 := by
  have hq : (0 : ℚ) < (scaled m e).2 := by exact_mod_cast scaled_snd_pos m e
  rw [← scaled_value, div_le_iff₀ hq] at h
  have hnat : (scaled m e).1 ≤ 2 ^ 46 * (scaled m e).2 := by exact_mod_cast h
  refine roundDiv_le ?_
  calc (scaled m e).1 * 10 ^ 2 ≤ 2 ^ 46 * (scaled m e).2 * 10 ^ 2 := Nat.mul_le_mul_right _ hnat
    _ = 100 * 2 ^ 46 * (scaled m e).2 := by ring

/-- A number of hundredths that is not too large is brought above a whole number only if it is. -/
theorem lt_value_nearest?_hundredths {h k : Nat} {y : Float} (hh : h ≤ 100 * 2 ^ 46)
    (hy : nearest? false h 100 = some y) : (k : ℚ) < (ofFloat y).value ↔ 100 * k < h := by
  constructor
  · intro hlt
    by_contra hge
    have hle : (h : ℚ) / (100 : Nat) ≤ (min k (2 ^ 46) : Nat) * 2 ^ (0 : Int) := by
      rw [zpow_zero, mul_one, div_le_iff₀ (by norm_num)]
      exact_mod_cast (by omega : h ≤ min k (2 ^ 46) * 100)
    have hvalue := value_nearest?_le (by decide) (by omega) (by decide) hy hle
    rw [zpow_zero, mul_one] at hvalue
    have hmin : ((min k (2 ^ 46) : Nat) : ℚ) ≤ k := by exact_mod_cast Nat.min_le_left _ _
    linarith
  · intro hlt
    have hcount : (100 * k + 1 : ℚ) ≤ h := by exact_mod_cast hlt
    have hle : ((128 * k + 1 : Nat) : ℚ) * 2 ^ (-7 : Int) ≤ h / (100 : Nat) := by
      rw [le_div_iff₀ (by norm_num)]
      norm_num
      linarith
    have hvalue := le_value_nearest? (by decide) (by omega) (by decide) hy hle
    norm_num at hvalue
    linarith

/-- A double rounded to hundredths exceeds a whole number exactly if the double exceeds it by more
than half a hundredth. -/
theorem lt_value_roundPlaces_iff {x : Float} {m : Nat} {e : Int}
    (hx : ofFloat x = .finite false m e) :
    IsFinite (roundPlaces 2 x) ∧ ∀ k : Nat, (k : ℚ) < (ofFloat (roundPlaces 2 x)).value ↔
      (200 * k + 1 : ℚ) < 200 * (ofFloat x).value := by
  have hround : roundPlaces 2 x = nearest false (hundredths m e) 100 := by
    rw [roundPlaces, hx]
    rfl
  rw [hround, hx, value_finite_false]
  rcases le_or_gt ((m : ℚ) * 2 ^ e) (2 ^ 46) with hsmall | hlarge
  · have hle := hundredths_le hsmall
    obtain ⟨y, hy⟩ := Option.isSome_iff_exists.1 (nearest?_isSome false (d := 100) (by decide)
      (lt_greatest_mul (by decide) (by omega : hundredths m e < 2 ^ 64)))
    obtain ⟨m', e', hfinite, -, -⟩ := ofFloat_of_nearest? (by decide) hy
    rw [nearest, hy, Option.getD_some]
    refine ⟨isFinite_of_ofFloat hfinite, fun k => ?_⟩
    rw [lt_value_nearest?_hundredths hle hy, lt_hundredths_iff]
  · rw [nearest_hundredths hx hlarge, hx, value_finite_false]
    refine ⟨isFinite_of_ofFloat hx, fun k => ⟨fun hlt => ?_, fun hlt => by linarith⟩⟩
    -- the double is a whole number of sixty-fourths
    have hm : m ≤ 2 ^ 53 := by
      rcases finite_cases hx with ⟨hm, -⟩ | ⟨-, hm, -⟩ <;> omega
    have he := lt_add_exponent hm hlarge
    rw [mul_zpow_eq (by omega : -6 ≤ e)] at hlt ⊢
    generalize m * 2 ^ (e - -6).toNat = n at hlt ⊢
    norm_num at hlt ⊢
    have hcount : (64 * k + 1 : ℚ) ≤ n := by
      exact_mod_cast (by exact_mod_cast (by linarith : (64 * k : ℚ) < n) : 64 * k < n)
    linarith

end ImportAtlas.Binary
