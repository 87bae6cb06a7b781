import Mathlib.Data.List.Forall2

/-!
# Computations that may fail

When a computation of several steps, or one for each item of a list, gives a result and when it
fails.
A result that was computed away from its error (`Except.toOption`) is one of the computation itself.
-/

namespace ImportAtlas

variable {ε α β : Type} {x : Except ε α}

/-- A computation in two steps gives a result if both do. -/
theorem bind_eq_ok_iff {f : α → Except ε β} {b : β} :
    x >>= f = .ok b ↔ ∃ a, x = .ok a ∧ f a = .ok b := by
  cases x <;> simp [bind, Except.bind]

theorem bind_eq_error_iff {f : α → Except ε β} {e : ε} :
    x >>= f = .error e ↔ x = .error e ∨ ∃ a, x = .ok a ∧ f a = .error e := by
  cases x <;> simp [bind, Except.bind]

theorem map_eq_ok_iff {f : α → β} {b : β} : x.map f = .ok b ↔ ∃ a, x = .ok a ∧ f a = b := by
  cases x <;> simp [Except.map]

/-! ## Results without errors -/

theorem toOption_eq_some_iff {a : α} : x.toOption = some a ↔ x = .ok a := by
  cases x <;> simp [Except.toOption]

theorem toOption_eq_none_iff : x.toOption = none ↔ ∃ e, x = .error e := by
  cases x <;> simp [Except.toOption]

theorem toOption_map_eq_some_iff {f : α → β} {b : β} :
    x.toOption.map f = some b ↔ ∃ a, x = .ok a ∧ f a = b := by
  simp only [Option.map_eq_some_iff, toOption_eq_some_iff]

/-! ## Lists -/

section Lists

variable {f : α → Except ε β} {as : List α} {bs : List β}

theorem mapM_eq_ok_iff : as.mapM f = .ok bs ↔ List.Forall₂ (fun a b => f a = .ok b) as bs := by
  induction as generalizing bs with
  | nil =>
    rw [List.mapM_nil, List.forall₂_nil_left_iff]
    exact ⟨fun h => by cases h; rfl, fun h => by rw [h]; rfl⟩
  | cons a as ih =>
    simp only [List.mapM_cons, bind_eq_ok_iff, List.forall₂_cons_left_iff, ih]
    constructor
    · rintro ⟨b, hb, bs', hbs, h⟩
      cases h
      exact ⟨b, bs', hb, hbs, rfl⟩
    · rintro ⟨b, bs', hb, hbs, rfl⟩
      exact ⟨b, hb, bs', hbs, rfl⟩

theorem exists_mapM (h : ∀ a ∈ as, ∃ b, f a = .ok b) : ∃ bs, as.mapM f = .ok bs := by
  simp only [mapM_eq_ok_iff]
  induction as with
  | nil => exact ⟨[], .nil⟩
  | cons a as ih =>
    obtain ⟨⟨b, hb⟩, has⟩ := List.forall_mem_cons.1 h
    obtain ⟨bs, hbs⟩ := ih has
    exact ⟨b :: bs, .cons hb hbs⟩

theorem exists_mem_of_mapM_ok (h : as.mapM f = .ok bs) : ∀ b ∈ bs, ∃ a ∈ as, f a = .ok b := by
  induction mapM_eq_ok_iff.1 h with
  | nil => simp
  | @cons a b as bs hb hbs ih =>
    refine List.forall_mem_cons.2 ⟨⟨a, List.mem_cons_self, hb⟩, fun c hc => ?_⟩
    obtain ⟨a', ha', hc'⟩ := ih (mapM_eq_ok_iff.2 hbs) c hc
    exact ⟨a', List.mem_cons_of_mem a ha', hc'⟩

theorem exists_mem_of_mapM_error {e : ε} (h : as.mapM f = .error e) : ∃ a ∈ as, f a = .error e := by
  induction as with
  | nil => cases h
  | cons a as ih =>
    rw [List.mapM_cons, bind_eq_error_iff] at h
    rcases h with h | ⟨b, -, h⟩
    · exact ⟨a, List.mem_cons_self, h⟩
    · rcases bind_eq_error_iff.1 h with h | ⟨bs, -, h⟩
      · obtain ⟨a', ha', h⟩ := ih h
        exact ⟨a', List.mem_cons_of_mem a ha', h⟩
      · cases h

/-- Items that are each read as they were written are read one after another. -/
theorem mapM_map_eq_ok {write : β → α} (h : ∀ b ∈ bs, f (write b) = .ok b) :
    (bs.map write).mapM f = .ok bs :=
  mapM_eq_ok_iff.2 (List.forall₂_map_left_iff.2 (List.forall₂_same.2 h))

variable {step : β → α → Except ε β} {b b' : β}

theorem foldlM_cons_of_ok {a : α} (h : step b a = .ok b') (as : List α) :
    (a :: as).foldlM step b = as.foldlM step b' := by
  rw [List.foldlM_cons, h]
  rfl

theorem foldlM_append_of_ok (h : as.foldlM step b = .ok b') (as' : List α) :
    (as ++ as').foldlM step b = as'.foldlM step b' := by
  rw [List.foldlM_append, h]
  rfl

end Lists

end ImportAtlas
