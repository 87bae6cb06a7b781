import ImportAtlas.Json.Access
import ImportAtlas.Label

/-!
# When an access succeeds

One lemma for each access to a loosely typed value: which values it takes and what it gives.
-/

namespace ImportAtlas.Json

variable {τ : Type} {v u fallback : Json τ} {key : τ}

theorem field_eq_ok_iff [DecidableEq τ] [Wording τ] :
    v.field key = .ok u ↔ ∃ ms, v = .obj ms ∧ ms.lookup key = some u := by
  cases v with
  | obj ms => cases h : ms.lookup key <;> simp [field, h]
  | _ => simp [field]

theorem fieldD_eq_ok_iff [DecidableEq τ] :
    v.fieldD key fallback = .ok u ↔ ∃ ms, v = .obj ms ∧ (ms.lookup key).getD fallback = u := by
  cases v <;> simp [fieldD]

theorem toKey_eq_ok_iff : v.toKey = .ok u ↔ v.isKey = true ∧ u = v := by
  unfold toKey
  split
  · next h => simp [h, eq_comm]
  · next h => simp [h]

theorem elements_cases [Wording τ] (v : Json τ) :
    (∃ vs, v.elements = .ok vs) ∨ v.elements = .error .wrongKind := by
  cases v with
  | null | bool | num => exact .inr rfl
  | str | arr | obj => exact .inl ⟨_, rfl⟩

theorem toKey_cases (v : Json τ) :
    v.isKey = true ∧ v.toKey = .ok v ∨ v.isKey = false ∧ v.toKey = .error .wrongKind := by
  cases hkey : v.isKey with
  | true => exact .inl ⟨rfl, toKey_eq_ok_iff.2 ⟨hkey, rfl⟩⟩
  | false => exact .inr ⟨rfl, by rw [toKey, hkey]; rfl⟩

/-- Only a text is the same as a text, and only as itself. -/
theorem same_str_iff [DecidableEq τ] {t : τ} : v.same (.str t) = true ↔ v = .str t := by
  cases v with
  | str s =>
    show (s == t) = true ↔ _
    rw [beq_iff_eq, str.injEq]
  | null | bool | num | arr | obj => exact iff_of_false Bool.false_ne_true (by simp)

end ImportAtlas.Json
