import ImportAtlas.Json.Basic
import ImportAtlas.Proofs.Decimal.Order

/-!
# The values of scalars

Two scalars are the same under `Json.same` exactly if they have one value: a whole number and a
double are compared as rationals, the truth values are one and zero, and what is no number is the
same as itself. So being the same is an equivalence of scalars.
-/

namespace ImportAtlas

/-- The value of a number. -/
inductive Quantity where
  | nan
  | infinite (negative : Bool)
  | number (q : ℚ)
  deriving DecidableEq

/-- The value of a scalar. -/
inductive Scalar (τ : Type) where
  | null
  | text (s : τ)
  | quantity (q : Quantity)
  deriving DecidableEq

def Binary.quantity : Binary → Quantity
  | .nan => .nan
  | .infinite s => .infinite s
  | .finite s m e => .number (signed s m * 2 ^ e)

variable {τ : Type}

/-- The value of a scalar; none for lists and objects. -/
def Json.scalar? : Json τ → Option (Scalar τ)
  | .null => some .null
  | .bool b => some (.quantity (Number.int (if b then 1 else 0)).exact.quantity)
  | .num n => some (.quantity n.exact.quantity)
  | .str s => some (.text s)
  | .arr _ | .obj _ => none

theorem Binary.compare?_eq_iff {a b : Binary} (ha : a ≠ .nan) :
    a.compare? b = some .eq ↔ a.quantity = b.quantity := by
  cases a with
  | nan => exact absurd rfl ha
  | infinite s =>
    cases b with
    | nan => simp [compare?, quantity]
    | infinite t => cases s <;> cases t <;> simp [compare?, quantity]
    | finite t n q => cases s <;> simp [compare?, quantity]
  | finite s m p =>
    cases b with
    | nan => simp [compare?, quantity]
    | infinite t => cases t <;> simp [compare?, quantity]
    | finite t n q => simp [compare?, quantity, compareScaled_eq]

/-- Numbers are the same exactly if they have one value. -/
theorem Number.same_eq (a b : Number) :
    a.same b = decide (a.exact.quantity = b.exact.quantity) := by
  unfold same compare?
  rw [Bool.eq_iff_iff, Bool.or_eq_true, beq_iff_eq, Bool.and_eq_true, beq_iff_eq, beq_iff_eq,
    decide_eq_true_eq]
  by_cases ha : a.exact = .nan
  · rw [ha]
    cases b.exact <;> simp [Binary.compare?, Binary.quantity]
  · simp [ha, Binary.compare?_eq_iff]

/-- Scalars are the same exactly if they have one value. -/
theorem Json.same_eq [DecidableEq τ] {a b : Json τ} (ha : a.isKey = true) (hb : b.isKey = true) :
    a.same b = decide (a.scalar? = b.scalar?) := by
  cases a with
  | arr | obj => cases ha
  | null =>
    cases b with
    | arr | obj => cases hb
    | null | str => rfl
    | bool | num =>
      show false = _
      simp [scalar?]
  | str s =>
    cases b with
    | arr | obj => cases hb
    | null => rfl
    | str t =>
      show (s == t) = _
      rw [Bool.eq_iff_iff]
      simp [scalar?]
    | bool | num =>
      show false = _
      simp [scalar?]
  | bool | num =>
    cases b with
    | arr | obj => cases hb
    | null | str =>
      show false = _
      simp [scalar?]
    | bool | num =>
      refine (Number.same_eq _ _).trans ?_
      simp [scalar?]

end ImportAtlas
