import ImportAtlas.Decimal.Binary
import Mathlib

/-!
# The parts of a double

A double is a pattern of 64 bits: a sign, an exponent field of eleven bits and a fraction of 52. The
pattern of a double survives the way through the unpacked form that arithmetic works on, so
`ofFloat` gives back what `pack` was given, and every double is packed from its parts. A finite double
divided by a double of some size stays finite.
-/

namespace ImportAtlas.Binary

open Float.Model Float.Model.UnpackedFloat

/-! ## Patterns -/

theorem toNat_unpackExponent (b : BitVec Format.binary64.numBits) :
    (unpackExponent b).toNat = b.toNat / 2 ^ 52 % 2 ^ 11 := by
  simp [unpackExponent, Nat.shiftRight_eq_div_pow]

theorem toNat_unpackMantissa (b : BitVec Format.binary64.numBits) :
    (unpackMantissa b).toNat = b.toNat % 2 ^ 52 := by
  simp [unpackMantissa]

theorem toNat_unpackSign (b : BitVec Format.binary64.numBits) :
    (unpackSign b).toNat = b.toNat / 2 ^ 63 := by
  have hlt : b.toNat < 2 ^ 64 := b.isLt
  simp only [unpackSign, BitVec.toNat_cast, BitVec.extractLsb_toNat, Nat.shiftRight_eq_div_pow]
  omega

theorem toNat_packComponents (s : Sign) (e : BitVec 11) (m : BitVec 52) :
    (packComponents Format.binary64 s e m).toNat =
      s.toBitVec.toNat * 2 ^ 63 + e.toNat * 2 ^ 52 + m.toNat := by
  unfold packComponents
  rw [BitVec.toNat_append, BitVec.toNat_append, ← Nat.shiftLeft_add_eq_or_of_lt m.isLt,
    ← Nat.shiftLeft_add_eq_or_of_lt e.isLt, Nat.shiftLeft_eq, Nat.shiftLeft_eq]
  omega

/-- A pattern is put together from its parts. -/
theorem packComponents_parts {b : BitVec Format.binary64.numBits} {e : BitVec 11} {m : BitVec 52}
    (exponent : b.toNat / 2 ^ 52 % 2 ^ 11 = e.toNat) (mantissa : b.toNat % 2 ^ 52 = m.toNat) :
    packComponents Format.binary64 (Sign.ofBitVec (unpackSign b)) e m = b := by
  have hsign : (Sign.ofBitVec (unpackSign b)).toBitVec.toNat = (unpackSign b).toNat := by
    have hbit := (unpackSign b).isLt
    unfold Sign.ofBitVec
    split
    · next h => rw [h]; rfl
    · next h =>
      have hne : (unpackSign b).toNat ≠ 0 := fun h0 => h (BitVec.eq_of_toNat_eq h0)
      show 1 = _
      omega
  have hlt : b.toNat < 2 ^ 64 := b.isLt
  apply BitVec.eq_of_toNat_eq
  rw [toNat_packComponents, hsign, toNat_unpackSign, ← exponent, ← mantissa]
  omega

/-! ## Unpacking and packing -/

/-- The unpacked form of a finite pattern: a zero, a fraction at the lowest exponent, or a fraction
with a leading one. -/
theorem unpack_finite {b : BitVec Format.binary64.numBits} (h : b.toNat / 2 ^ 52 % 2 ^ 11 ≠ 2047) :
    (UnpackedFloat.unpack Format.binary64 b = .zero (Sign.ofBitVec (unpackSign b)) ∧
      b.toNat / 2 ^ 52 % 2 ^ 11 = 0 ∧ b.toNat % 2 ^ 52 = 0) ∨
    ∃ m e pos, UnpackedFloat.unpack Format.binary64 b =
        .finite (Sign.ofBitVec (unpackSign b)) m e pos ∧
      ((b.toNat / 2 ^ 52 % 2 ^ 11 = 0 ∧ m = b.toNat % 2 ^ 52 ∧ e = -1074) ∨
        (0 < b.toNat / 2 ^ 52 % 2 ^ 11 ∧ m = 2 ^ 52 + b.toNat % 2 ^ 52 ∧
          e = (b.toNat / 2 ^ 52 % 2 ^ 11 : Nat) - 1075)) := by
  have hexp := toNat_unpackExponent b
  have hmant := toNat_unpackMantissa b
  have hbias : (Format.binary64.exponentBias : Int) = 1023 := rfl
  have hbits : (Format.binary64.mantissaBitsWithoutImplicit : Int) = 52 := rfl
  unfold UnpackedFloat.unpack
  dsimp only
  -- the exponent field is full, which `h` excludes, or zero, or between
  split
  · next heq => rw [heq] at hexp; exact absurd hexp.symm h
  · split
    · next heq =>
      have hzero : (unpackExponent b).toNat = 0 := by rw [heq]; rfl
      split
      · next hm =>
        have hfraction : (unpackMantissa b).toNat = 0 := by rw [hm]; rfl
        exact .inl ⟨rfl, by omega, by omega⟩
      · next hm =>
        have hpos : 0 < (unpackMantissa b).toNat :=
          Nat.pos_of_ne_zero fun h0 => hm (BitVec.eq_of_toNat_eq h0)
        refine .inr ⟨_, _, hpos, rfl, .inl ⟨by omega, hmant, ?_⟩⟩
        rw [hzero, hbias, hbits]
        rfl
    · next heq =>
      have hpos : (unpackExponent b).toNat ≠ 0 := fun h0 => heq (BitVec.eq_of_toNat_eq h0)
      have hlead : (1#1 ++ unpackMantissa b).toNat = 2 ^ 52 + (unpackMantissa b).toNat := by
        rw [BitVec.toNat_append, ← Nat.shiftLeft_add_eq_or_of_lt (unpackMantissa b).isLt]
        rfl
      have hmpos : 0 < (1#1 ++ unpackMantissa b).toNat := by omega
      refine .inr ⟨_, _, hmpos, rfl, .inr ⟨by omega, by rw [hlead, hmant], ?_⟩⟩
      rw [hexp, hbias, hbits]
      omega

theorem field_packComponents (s : Sign) (e : BitVec 11) (m : BitVec 52) :
    (packComponents Format.binary64 s e m).toNat / 2 ^ 52 % 2 ^ 11 = e.toNat := by
  rw [← toNat_unpackExponent, unpackExponent_packComponents]

/-- A form whose exponent is one of a finite double is packed as such. -/
theorem field_pack {s : Sign} {m : Nat} {e : Int} {pos : 0 < m} (h : e ≤ 971) :
    (UnpackedFloat.pack Format.binary64 (.finite s m e pos)).toNat / 2 ^ 52 % 2 ^ 11 ≠ 2047 := by
  have hbias : (Format.binary64.exponentBias : Int) = 1023 := rfl
  have hbits : (Format.binary64.mantissaBitsWithoutImplicit : Int) = 52 := rfl
  simp only [UnpackedFloat.pack, hbias, hbits]
  rw [if_neg (by show ¬ 2 ^ 11 ≤ _; omega)]
  split
  · rw [field_packComponents, BitVec.toNat_ofNat]
    show _ % 2 ^ 11 ≠ _
    omega
  · rw [field_packComponents]
    decide

/-- The pattern of a finite double survives unpacking and packing. -/
theorem pack_unpack {b : BitVec Format.binary64.numBits} (h : b.toNat / 2 ^ 52 % 2 ^ 11 ≠ 2047) :
    UnpackedFloat.pack Format.binary64 (UnpackedFloat.unpack Format.binary64 b) = b := by
  have hbias : (Format.binary64.exponentBias : Int) = 1023 := rfl
  have hbits : (Format.binary64.mantissaBitsWithoutImplicit : Int) = 52 := rfl
  have hdigits : Format.binary64.mantissaBits = 53 := rfl
  rcases unpack_finite h with ⟨hu, hfield, hfraction⟩ | ⟨m, e, pos, hu, hparts⟩
  · rw [hu]
    exact packComponents_parts hfield hfraction
  · rw [hu]
    simp only [UnpackedFloat.pack, hbias, hbits, hdigits]
    rw [if_neg (by show ¬ 2 ^ 11 ≤ _; omega)]
    rcases hparts with ⟨hfield, hm, he⟩ | ⟨hfield, hm, he⟩
    · have hlog : m.log2 < 52 := (Nat.log2_lt (by omega)).2 (by omega)
      rw [if_neg (by omega)]
      refine packComponents_parts hfield ?_
      rw [BitVec.toNat_ofNat]
      show _ = _ % 2 ^ 52
      omega
    · have hlow : 52 ≤ m.log2 := (Nat.le_log2 (by omega)).2 (by omega)
      have hhigh : m.log2 < 53 := (Nat.log2_lt (by omega)).2 (by omega)
      rw [if_pos (by omega)]
      refine packComponents_parts ?_ ?_
      · rw [BitVec.toNat_ofNat]
        show _ = _ % 2 ^ 11
        omega
      · rw [BitVec.toNat_ofNat]
        show _ = _ % 2 ^ 52
        omega

/-! ## Doubles -/

/-- The pattern of a finite double is the one it was made from. -/
theorem toBits_ofBits {b : UInt64} (h : b.toNat / 2 ^ 52 % 2 ^ 11 ≠ 2047) :
    (Float.ofBits b).toBits = b := by
  show UInt64.ofBitVec (UnpackedFloat.pack Format.binary64
    (UnpackedFloat.unpack Format.binary64 b.toBitVec)) = b
  rw [pack_unpack h]

theorem pack_eq (negative : Bool) (field fraction : Nat) :
    pack negative field fraction =
      Float.ofBits (UInt64.ofNat ((if negative then 2 ^ 63 else 0) + field * 2 ^ 52 + fraction)) :=
  rfl

theorem ofFloat_eq (x : Float) :
    ofFloat x =
      if x.toBits.toNat / 2 ^ 52 % 2 ^ 11 = 2047 then
        if x.toBits.toNat % 2 ^ 52 = 0 then .infinite (x.toBits.toNat / 2 ^ 63 == 1) else .nan
      else if x.toBits.toNat / 2 ^ 52 % 2 ^ 11 = 0 then
        .finite (x.toBits.toNat / 2 ^ 63 == 1) (x.toBits.toNat % 2 ^ 52) lowestExponent
      else
        .finite (x.toBits.toNat / 2 ^ 63 == 1) (x.toBits.toNat % 2 ^ 52 + 2 ^ 52)
          (((x.toBits.toNat / 2 ^ 52 % 2 ^ 11 : Nat) : Int) - 1 + lowestExponent) :=
  rfl

/-- Taking a finite double apart gives the parts it was packed from. -/
theorem ofFloat_pack (negative : Bool) {field fraction : Nat} (hfield : field < 2047)
    (hfraction : fraction < 2 ^ 52) :
    ofFloat (pack negative field fraction) =
      if field = 0 then .finite negative fraction lowestExponent
      else .finite negative (fraction + 2 ^ 52) ((field : Int) - 1 + lowestExponent) := by
  let n := (if negative then 2 ^ 63 else 0) + field * 2 ^ 52 + fraction
  have hn : n = (if negative then 2 ^ 63 else 0) + field * 2 ^ 52 + fraction := rfl
  have hbits : (pack negative field fraction).toBits.toNat = n := by
    have htoNat : (UInt64.ofNat n).toNat = n := by
      rw [UInt64.toNat_ofNat_of_lt']
      show n < 2 ^ 64
      split at hn <;> omega
    rw [pack_eq, toBits_ofBits (by rw [← hn, htoNat]; split at hn <;> omega), ← hn, htoNat]
  have hsign : n / 2 ^ 63 = if negative then 1 else 0 := by
    cases negative <;> simp only [Bool.false_eq_true, if_true, if_false] at hn ⊢ <;> omega
  have hmid : n / 2 ^ 52 % 2 ^ 11 = field := by split at hn <;> omega
  have hlow : n % 2 ^ 52 = fraction := by split at hn <;> omega
  rw [ofFloat_eq, hbits, hsign, hmid, hlow, if_neg (Nat.ne_of_lt hfield)]
  cases negative <;> rfl

/-- The pattern of every double survives: there is one pattern for what is no number. -/
theorem pack_unpack_of_valid {b : BitVec Format.binary64.numBits} (valid : Format.binary64.Valid b) :
    UnpackedFloat.pack Format.binary64 (UnpackedFloat.unpack Format.binary64 b) = b := by
  by_cases h : b.toNat / 2 ^ 52 % 2 ^ 11 = 2047
  · have hexp : unpackExponent b = -1#_ :=
      BitVec.eq_of_toNat_eq ((toNat_unpackExponent b).trans h)
    by_cases hfraction : unpackMantissa b = 0#_
    · have hzero : b.toNat % 2 ^ 52 = 0 := by rw [← toNat_unpackMantissa, hfraction]; rfl
      simp only [UnpackedFloat.unpack, if_pos hexp, if_pos hfraction]
      exact packComponents_parts h hzero
    · simp only [UnpackedFloat.unpack, if_pos hexp, if_neg hfraction]
      exact (valid.eq_packedNaN hexp hfraction).symm
  · exact pack_unpack h

theorem ofBits_toBits (x : Float) : Float.ofBits x.toBits = x := by
  obtain ⟨b, valid⟩ := x
  show Float.ofModel ⟨UInt64.ofBitVec (UnpackedFloat.pack Format.binary64
    (UnpackedFloat.unpack Format.binary64 b.toBitVec)), _⟩ = Float.ofModel ⟨b, valid⟩
  simp only [pack_unpack_of_valid valid]

theorem toBits_eq_of_nan {x : Float} (hfield : x.toBits.toNat / 2 ^ 52 % 2 ^ 11 = 2047)
    (hfraction : x.toBits.toNat % 2 ^ 52 ≠ 0) :
    x.toBits = UInt64.ofBitVec (packedNaN Format.binary64) := by
  let b : BitVec Format.binary64.numBits := x.toModel.toBits.toBitVec
  have hexp : unpackExponent b = -1#_ :=
    BitVec.eq_of_toNat_eq ((toNat_unpackExponent b).trans hfield)
  have hmant : unpackMantissa b ≠ 0#_ := by
    intro h0
    have hzero := toNat_unpackMantissa b
    rw [h0] at hzero
    exact hfraction hzero.symm
  exact congrArg UInt64.ofBitVec (x.toModel.valid.eq_packedNaN hexp hmant)

/-- What a double can be, and the parts that it is packed from. -/
theorem ofFloat_cases (x : Float) :
    (ofFloat x = .nan ∧ x = notANumber) ∨
    (∃ s, ofFloat x = .infinite s ∧ x = infinity s) ∨
    (∃ s m, ofFloat x = .finite s m lowestExponent ∧ m < 2 ^ 52 ∧ x = pack s 0 m) ∨
    ∃ s m e, ofFloat x = .finite s m e ∧ 2 ^ 52 ≤ m ∧ m < 2 ^ 53 ∧ lowestExponent ≤ e ∧ e ≤ 971 ∧
      x = pack s (e - lowestExponent + 1).toNat (m - 2 ^ 52) := by
  let bits := x.toBits.toNat
  let field := bits / 2 ^ 52 % 2 ^ 11
  let fraction := bits % 2 ^ 52
  have hlt : bits < 2 ^ 64 := x.toBits.toNat_lt
  have hfield : field = bits / 2 ^ 52 % 2 ^ 11 := rfl
  have hfraction : fraction = bits % 2 ^ 52 := rfl
  have hparts : x = pack (bits / 2 ^ 63 == 1) field fraction := by
    have hsum : (if bits / 2 ^ 63 == 1 then 2 ^ 63 else 0) + field * 2 ^ 52 + fraction = bits := by
      split
      · next h => rw [beq_iff_eq] at h; omega
      · next h => rw [beq_iff_eq] at h; omega
    rw [pack_eq, hsum, UInt64.ofNat_toNat, ofBits_toBits]
  have hof : ofFloat x = if field = 2047 then
      if fraction = 0 then .infinite (bits / 2 ^ 63 == 1) else .nan
    else if field = 0 then .finite (bits / 2 ^ 63 == 1) fraction lowestExponent
    else .finite (bits / 2 ^ 63 == 1) (fraction + 2 ^ 52) ((field : Int) - 1 + lowestExponent) :=
    ofFloat_eq x
  by_cases hfull : field = 2047
  · rw [if_pos hfull] at hof
    by_cases hzero : fraction = 0
    · rw [if_pos hzero] at hof
      rw [hfull, hzero] at hparts
      exact .inr (.inl ⟨_, hof, hparts⟩)
    · rw [if_neg hzero] at hof
      refine .inl ⟨hof, ?_⟩
      rw [← ofBits_toBits x, toBits_eq_of_nan hfull hzero]
      rfl
  · rw [if_neg hfull] at hof
    by_cases hzero : field = 0
    · rw [if_pos hzero] at hof
      rw [hzero] at hparts
      exact .inr (.inr (.inl ⟨_, _, hof, by omega, hparts⟩))
    · rw [if_neg hzero] at hof
      refine .inr (.inr (.inr ⟨_, _, _, hof, by omega, by omega, ?_, ?_, ?_⟩))
      · omega
      · simp only [lowestExponent]; omega
      · rw [show ((field : Int) - 1 + lowestExponent - lowestExponent + 1).toNat = field by omega,
          Nat.add_sub_cancel]
        exact hparts

theorem finite_cases {x : Float} {s : Bool} {m : Nat} {e : Int} (h : ofFloat x = .finite s m e) :
    (m < 2 ^ 52 ∧ e = lowestExponent ∧ x = pack s 0 m) ∨
      (2 ^ 52 ≤ m ∧ m < 2 ^ 53 ∧ lowestExponent ≤ e ∧ e ≤ 971 ∧
        x = pack s (e - lowestExponent + 1).toNat (m - 2 ^ 52)) := by
  rcases ofFloat_cases x with ⟨hx, -⟩ | ⟨t, hx, -⟩ | ⟨t, k, hx, hk, hpack⟩ |
    ⟨t, k, j, hx, hnormal⟩
  · rw [hx] at h; cases h
  · rw [hx] at h; cases h
  · rw [hx] at h
    cases h
    exact .inl ⟨hk, rfl, hpack⟩
  · rw [hx] at h
    cases h
    exact .inr hnormal

/-- Neither an infinity nor the value that is no number. -/
def IsFinite (x : Float) : Prop := x.toBits.toNat / 2 ^ 52 % 2 ^ 11 ≠ 2047

/-- A finite double has a mantissa of at most 53 digits and an exponent within its bounds. -/
theorem IsFinite.exists_ofFloat {x : Float} (h : IsFinite x) :
    ∃ s m e, ofFloat x = .finite s m e ∧ m < 2 ^ 53 ∧ e ≤ 971 := by
  unfold IsFinite at h
  rw [ofFloat_eq, if_neg h, lowestExponent]
  split
  · exact ⟨_, _, _, rfl, by omega, by omega⟩
  · exact ⟨_, _, _, rfl, by omega, by omega⟩

/-! ## Quotients -/

theorem targetExponent_binary64 (t : Int) :
    Format.binary64.targetExponent t = max (t - 53) (-1074) := rfl

theorem mantissa_shiftRight_le (em : ExtendedMantissa) (k : Nat) :
    (em >>> k).mantissa ≤ em.mantissa := by
  induction k with
  | zero => exact Nat.le_refl _
  | succ k ih =>
    show (em >>> k).mantissa / 2 ≤ _
    omega

theorem roundToNearestEven_le (a : Accuracy) (m : Nat) : a.roundToNearestEven m ≤ m + 1 := by
  rcases a with _ | (_ | _ | _) <;> simp only [Accuracy.roundToNearestEven] <;> omega

theorem log2_le_of_lt {m k : Nat} (h : m < 2 ^ (k + 1)) : m.log2 ≤ k := by
  rcases Nat.eq_zero_or_pos m with rfl | hm
  · simp
  · have := (Nat.log2_lt (Nat.ne_of_gt hm)).2 h
    omega

/-- Rounding gives a zero, or raises the exponent by few places. -/
theorem roundWithAccuracy_le (s : Sign) {m : Nat} (e : Int) (acc : Accuracy) (hm : m < 2 ^ 54) :
    roundWithAccuracy Format.binary64 s m e acc = .zero s ∨
      ∃ m' e' pos, roundWithAccuracy Format.binary64 s m e acc = .finite s m' e' pos ∧
        e' ≤ max (e + 3) (-1072) := by
  have hform (m' : Nat) (e' : Int) (he : e' ≤ max (e + 3) (-1072)) (u : UnpackedFloat)
      (hu : u = if h : m' = 0 then .zero s else .finite s m' e' (Nat.pos_of_ne_zero h)) :
      u = .zero s ∨ ∃ m' e' pos, u = .finite s m' e' pos ∧ e' ≤ max (e + 3) (-1072) := by
    split at hu
    · exact .inl hu
    · exact .inr ⟨_, _, _, hu, he⟩
  refine hform _ _ ?_ _ rfl
  simp only [targetExponent_binary64, totalExponent]
  generalize hk : (max ((m.log2 : Int) + 1 + e - 53) (-1074) - e).toNat = k
  generalize hr : ExtendedMantissa.roundedMantissa _ = r
  have hlog : m.log2 ≤ 53 := log2_le_of_lt hm
  have hrounded : r ≤ m + 1 := by
    have hstart : (ExtendedMantissa.ofMantissaAndAccuracy m acc).mantissa = m := by
      rcases acc with _ | (_ | _ | _) <;> rfl
    have hshift := mantissa_shiftRight_le (ExtendedMantissa.ofMantissaAndAccuracy m acc) k
    rw [← hr]
    exact Nat.le_trans (roundToNearestEven_le _ _) (by omega)
  have hrlog : r.log2 ≤ 54 := log2_le_of_lt (by omega)
  omega

/-- The quotient before rounding has at most 54 digits, at an exponent that its size asks for. -/
theorem divCore_le {m₁ m₂ : Nat} (e₁ e₂ : Int) (h₁ : m₁ < 2 ^ 53) (h₂ : 0 < m₂) :
    (divCore Format.binary64 m₁ e₁ m₂ e₂).1 < 2 ^ 54 ∧
      (divCore Format.binary64 m₁ e₁ m₂ e₂).2.1 ≤
        max (totalExponent m₁ e₁ - totalExponent m₂ e₂ - 53) (-1074) := by
  unfold divCore
  simp only [targetExponent_binary64]
  refine ⟨?_, by omega⟩
  generalize hk : (e₁ - e₂ - min (e₁ - e₂)
    (max (totalExponent m₁ e₁ - totalExponent m₂ e₂ - 53) (-1074))).toNat = k
  have hlog₁ : m₁.log2 ≤ 52 := log2_le_of_lt h₁
  have hdigits : m₁.log2 + 1 + k ≤ 54 + m₂.log2 := by
    simp only [totalExponent] at hk
    omega
  rw [Nat.div_lt_iff_lt_mul h₂, Nat.shiftLeft_eq]
  calc m₁ * 2 ^ k < 2 ^ (m₁.log2 + 1) * 2 ^ k :=
        Nat.mul_lt_mul_of_pos_right Nat.lt_log2_self (Nat.two_pow_pos k)
    _ = 2 ^ (m₁.log2 + 1 + k) := (Nat.pow_add 2 _ _).symm
    _ ≤ 2 ^ (54 + m₂.log2) := Nat.pow_le_pow_right (by decide) hdigits
    _ = 2 ^ 54 * 2 ^ m₂.log2 := Nat.pow_add 2 _ _
    _ ≤ 2 ^ 54 * m₂ := Nat.mul_le_mul_left _ (Nat.log2_self_le (Nat.ne_of_gt h₂))

theorem IsFinite.unpack {x : Float} (h : IsFinite x) :
    (∃ s, x.toModel.unpack = .zero s) ∨
      ∃ s m e pos, x.toModel.unpack = .finite s m e pos ∧ m < 2 ^ 53 ∧ e ≤ 971 := by
  have hfield : x.toModel.toBits.toBitVec.toNat / 2 ^ 52 % 2 ^ 11 ≠ 2047 := h
  rcases unpack_finite hfield with ⟨hu, -, -⟩ | ⟨m, e, pos, hu, hparts⟩
  · exact .inl ⟨_, hu⟩
  · exact .inr ⟨_, m, e, pos, hu, by omega, by omega⟩

/-- A finite double divided by one of at least four in size is finite. -/
theorem IsFinite.div {x y : Float} (hx : IsFinite x) {s : Sign} {m : Nat} {e : Int} {pos : 0 < m}
    (hy : y.toModel.unpack = .finite s m e pos) (large : 3 ≤ totalExponent m e) :
    IsFinite (x / y) := by
  have hzero (s : Sign) :
      (UnpackedFloat.pack Format.binary64 (.zero s)).toNat / 2 ^ 52 % 2 ^ 11 ≠ 2047 :=
    fun h => absurd ((field_packComponents s 0 0).symm.trans h) (by decide)
  show (UnpackedFloat.pack Format.binary64 (UnpackedFloat.div Format.binary64 x.toModel.unpack
    y.toModel.unpack)).toNat / 2 ^ 52 % 2 ^ 11 ≠ 2047
  rw [hy]
  rcases hx.unpack with ⟨s₁, hu⟩ | ⟨s₁, m₁, e₁, pos₁, hu, hm₁, he₁⟩
  · rw [hu]
    exact hzero _
  · have hlog : m₁.log2 ≤ 52 := log2_le_of_lt hm₁
    obtain ⟨hquotient, hexponent⟩ := divCore_le e₁ e hm₁ pos
    rw [hu]
    simp only [UnpackedFloat.div]
    generalize divCore Format.binary64 m₁ e₁ m e = q at hquotient hexponent
    rcases roundWithAccuracy_le (s₁ / s) q.2.1 q.2.2 hquotient with
      hround | ⟨m', e', pos', hround, he'⟩
    · rw [hround]
      exact hzero _
    · rw [hround]
      refine field_pack ?_
      simp only [totalExponent] at hexponent large
      omega

end ImportAtlas.Binary
