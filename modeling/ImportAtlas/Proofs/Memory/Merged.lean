import ImportAtlas.Memory.Basic
import Mathlib.Data.List.Induction
import Mathlib.Data.List.Nodup

/-!
# Setting items by their keys

`setBy` replaces the item under a key in its place or adds it at the end. Setting items one after
another therefore keeps one item under each key, in the order in which the keys first appear, and
the last item that was set under it (`Merges`). `Recalls` says the same of items that come list upon
list: the last list that has the key decides.
-/

namespace ImportAtlas

theorem eraseDups_concat {κ : Type} [BEq κ] [LawfulBEq κ] (ks : List κ) (k : κ) :
    (ks ++ [k]).eraseDups = if k ∈ ks then ks.eraseDups else ks.eraseDups ++ [k] := by
  rw [List.eraseDups_append]
  split
  · next h => simp [List.removeAll, h]
  · next h => simp [List.removeAll, h, List.eraseDups_cons]

theorem nodup_eraseDups {κ : Type} [BEq κ] [LawfulBEq κ] (ks : List κ) : ks.eraseDups.Nodup := by
  induction ks using List.reverseRecOn with
  | nil => simp
  | append_singleton ks k ih =>
    rw [eraseDups_concat]
    split
    · exact ih
    · next h =>
      rw [← List.concat_eq_append]
      exact ih.concat fun hk => h (List.mem_eraseDups.1 hk)

section Keys

variable {α κ : Type} [DecidableEq κ]

/-- The last item under a key. -/
def lastUnder (key : α → κ) (k : κ) (xs : List α) : Option α := xs.reverse.find? (key · = k)

theorem lastUnder_append (key : α → κ) (k : κ) (xs ys : List α) :
    lastUnder key k (xs ++ ys) = (lastUnder key k ys).or (lastUnder key k xs) := by
  rw [lastUnder, List.reverse_append, List.find?_append]
  rfl

/-- What is kept of the items written: one under each key, in the order in which the keys first
appear, and the last one written. -/
structure Merges (key : α → κ) (written kept : List α) : Prop where
  keys : kept.map key = (written.map key).eraseDups
  last : ∀ x ∈ kept, lastUnder key (key x) written = some x

theorem Merges.nodup {key : α → κ} {written kept : List α} (h : Merges key written kept) :
    (kept.map key).Nodup := by
  rw [h.keys]
  exact nodup_eraseDups _

/-- What is kept is read off the keys and the last item under each of them. -/
theorem Merges.eq_filterMap {key : α → κ} {written kept : List α} (h : Merges key written kept) :
    kept = (written.map key).eraseDups.filterMap fun k => lastUnder key k written := by
  calc kept = kept.filterMap some := List.filterMap_some.symm
    _ = kept.filterMap fun x => lastUnder key (key x) written :=
      (List.filterMap_congr fun x hx => h.last x hx).symm
    _ = _ := by rw [← h.keys, List.filterMap_map]; rfl

/-- Items that are written twice are kept as if written once. -/
theorem Merges.eq_of_append_self {key : α → κ} {xs ys kept kept' : List α}
    (h : Merges key (xs ++ ys) kept) (h' : Merges key (xs ++ ys ++ ys) kept') : kept' = kept := by
  have hkeys : ((xs ++ ys ++ ys).map key).eraseDups = ((xs ++ ys).map key).eraseDups := by
    have hnone : (ys.map key).removeAll ((xs ++ ys).map key) = [] := by
      refine List.filter_eq_nil_iff.2 fun k hk => ?_
      have hmem : k ∈ (xs ++ ys).map key := by
        rw [List.map_append]
        exact List.mem_append_right _ hk
      rw [List.elem_iff.2 hmem]
      decide
    rw [List.map_append, List.eraseDups_append, hnone]
    simp
  have hlast (k : κ) : lastUnder key k (xs ++ ys ++ ys) = lastUnder key k (xs ++ ys) := by
    rw [lastUnder_append, lastUnder_append]
    cases lastUnder key k ys <;> rfl
  rw [h.eq_filterMap, h'.eq_filterMap, hkeys]
  simp only [hlast]

theorem merges_nil {key : α → κ} : Merges key ([] : List α) [] := ⟨by simp, by simp⟩

variable {key : α → κ} {sameKey : α → α → Bool} {x : α} {ys : List α}

/-! ## One item -/

theorem keys_setBy (same : ∀ y ∈ ys, sameKey y x = decide (key y = key x)) :
    (setBy sameKey x ys).map key =
      if key x ∈ ys.map key then ys.map key else ys.map key ++ [key x] := by
  induction ys with
  | nil => simp [setBy]
  | cons y ys ih =>
    obtain ⟨hy, hys⟩ := List.forall_mem_cons.1 same
    unfold setBy
    rw [hy]
    by_cases hkey : key y = key x
    · simp [hkey]
    · simp only [hkey, decide_false, Bool.false_eq_true, if_false, List.map_cons, ih hys,
        List.mem_cons, Ne.symm hkey, false_or]
      split <;> rfl

theorem mem_setBy (same : ∀ y ∈ ys, sameKey y x = decide (key y = key x))
    (nodup : (ys.map key).Nodup) {z : α} (h : z ∈ setBy sameKey x ys) :
    z = x ∨ z ∈ ys ∧ key z ≠ key x := by
  induction ys with
  | nil => exact .inl (List.mem_singleton.1 h)
  | cons y ys ih =>
    obtain ⟨hy, hys⟩ := List.forall_mem_cons.1 same
    obtain ⟨hfresh, hnodup⟩ := List.nodup_cons.1 nodup
    unfold setBy at h
    rw [hy] at h
    by_cases hkey : key y = key x
    · rw [if_pos (decide_eq_true hkey)] at h
      refine (List.mem_cons.1 h).imp_right fun hz => ⟨List.mem_cons_of_mem y hz, ?_⟩
      intro hz'
      exact hfresh (List.mem_map.2 ⟨z, hz, hz'.trans hkey.symm⟩)
    · rw [if_neg (by simpa using hkey)] at h
      rcases List.mem_cons.1 h with rfl | hz
      · exact .inr ⟨List.mem_cons_self, hkey⟩
      · exact (ih hys hnodup hz).imp_right fun ⟨hmem, hne⟩ => ⟨List.mem_cons_of_mem y hmem, hne⟩

theorem setBy_of_notMem (same : ∀ y ∈ ys, sameKey y x = decide (key y = key x))
    (fresh : key x ∉ ys.map key) : setBy sameKey x ys = ys ++ [x] := by
  induction ys with
  | nil => rfl
  | cons y ys ih =>
    obtain ⟨hy, hys⟩ := List.forall_mem_cons.1 same
    rw [List.map_cons, List.mem_cons, not_or] at fresh
    unfold setBy
    rw [hy, if_neg (by simpa using Ne.symm fresh.1), ih hys fresh.2]
    rfl

/-- Setting an item keeps it as the last one written. -/
theorem merges_setBy {written kept : List α} (h : Merges key written kept)
    (same : ∀ y ∈ kept, sameKey y x = decide (key y = key x)) :
    Merges key (written ++ [x]) (setBy sameKey x kept) where
  keys := by
    have hmem : key x ∈ kept.map key ↔ key x ∈ written.map key := by
      rw [h.keys, List.mem_eraseDups]
    rw [keys_setBy same, List.map_append, List.map_singleton, eraseDups_concat, h.keys]
    simp only [← h.keys, hmem]
  last := by
    intro z hz
    rw [lastUnder_append]
    rcases mem_setBy same h.nodup hz with rfl | ⟨hmem, hne⟩
    · simp [lastUnder]
    · rw [h.last z hmem]
      simp [lastUnder, Ne.symm hne]

/-! ## Many items -/

/-- Setting items one after another keeps the last one written under each key. -/
theorem merges_foldl {P : α → Prop} (hsame : ∀ a b, P a → P b → sameKey a b = decide (key a = key b))
    {written kept xs : List α} (h : Merges key written kept) (hkept : ∀ y ∈ kept, P y)
    (hxs : ∀ x ∈ xs, P x) :
    Merges key (written ++ xs) (xs.foldl (fun kept x => setBy sameKey x kept) kept) ∧
      ∀ y ∈ xs.foldl (fun kept x => setBy sameKey x kept) kept, P y := by
  induction xs generalizing written kept with
  | nil => exact ⟨by rwa [List.append_nil], hkept⟩
  | cons x xs ih =>
    obtain ⟨hx, hxs⟩ := List.forall_mem_cons.1 hxs
    have same : ∀ y ∈ kept, sameKey y x = decide (key y = key x) :=
      fun y hy => hsame y x (hkept y hy) hx
    have hkept' : ∀ y ∈ setBy sameKey x kept, P y := by
      intro y hy
      rcases mem_setBy same h.nodup hy with rfl | ⟨hmem, -⟩
      · exact hx
      · exact hkept y hmem
    rw [List.foldl_cons, List.append_cons]
    exact ih (merges_setBy h same) hkept' hxs

/-- Items under different keys are all kept as they are. -/
theorem foldl_setBy_of_nodup {P : α → Prop}
    (hsame : ∀ a b, P a → P b → sameKey a b = decide (key a = key b)) (kept xs : List α)
    (hP : ∀ y ∈ kept ++ xs, P y) (nodup : ((kept ++ xs).map key).Nodup) :
    xs.foldl (fun kept x => setBy sameKey x kept) kept = kept ++ xs := by
  induction xs generalizing kept with
  | nil => rw [List.append_nil, List.foldl_nil]
  | cons x xs ih =>
    have hx : P x := hP x (List.mem_append_right kept List.mem_cons_self)
    have fresh : key x ∉ kept.map key := by
      rw [List.map_append, List.map_cons] at nodup
      exact fun hmem => (List.nodup_append.1 nodup).2.2 _ hmem _ List.mem_cons_self rfl
    have hset : setBy sameKey x kept = kept ++ [x] :=
      setBy_of_notMem (fun y hy => hsame y x (hP y (List.mem_append_left _ hy)) hx) fresh
    rw [List.append_cons] at hP nodup
    rw [List.foldl_cons, hset, ih _ hP nodup, List.append_assoc, List.singleton_append]

/-! ## List upon list -/

/-- What is kept of some items and of lists that were set after them: one item under each key, in
the order in which the keys first appear. It is the last one in the last of the lists that has the
key, and if none of them has it the last of the initial items. -/
structure Recalls (key : α → κ) (initial : List α) (later : List (List α)) (kept : List α) :
    Prop where
  keys : kept.map key = ((initial ++ later.flatten).map key).eraseDups
  last : ∀ x ∈ kept,
    (later.reverse.findSome? (lastUnder key (key x))).or (lastUnder key (key x) initial) = some x

theorem lastUnder_flatten (k : κ) (xss : List (List α)) :
    lastUnder key k xss.flatten = xss.reverse.findSome? (lastUnder key k) := by
  induction xss with
  | nil => rfl
  | cons xs xss ih =>
    rw [List.flatten_cons, lastUnder_append, ih, List.reverse_cons, List.findSome?_append]
    simp

theorem Merges.recalls {initial kept : List α} {later : List (List α)}
    (h : Merges key (initial ++ later.flatten) kept) : Recalls key initial later kept where
  keys := h.keys
  last := by
    intro x hx
    rw [← lastUnder_flatten, ← lastUnder_append]
    exact h.last x hx

theorem Merges.ne_nil {written kept : List α} (h : Merges key written kept) (hne : written ≠ []) :
    kept ≠ [] := by
  obtain ⟨x, hx⟩ := List.exists_mem_of_ne_nil written hne
  have hkey : key x ∈ kept.map key := by
    rw [h.keys, List.mem_eraseDups]
    exact List.mem_map_of_mem hx
  rintro rfl
  cases hkey

/-- An item that was set last under its key stays if no later list has the key. -/
theorem Recalls.mem_of_silent {initial kept : List α} {later : List (List α)} {x : α}
    (h : Recalls key initial later kept) (hlast : lastUnder key (key x) initial = some x)
    (hsilent : ∀ xs ∈ later, key x ∉ xs.map key) : x ∈ kept := by
  have hinitial : x ∈ initial := List.mem_reverse.1 (List.mem_of_find?_eq_some hlast)
  have hkey : key x ∈ kept.map key := by
    rw [h.keys, List.mem_eraseDups, List.map_append]
    exact List.mem_append_left _ (List.mem_map_of_mem hinitial)
  obtain ⟨y, hy, hyx⟩ := List.mem_map.1 hkey
  have hnone : later.reverse.findSome? (lastUnder key (key x)) = none := by
    refine List.findSome?_eq_none_iff.2 fun xs hxs => ?_
    refine List.find?_eq_none.2 fun z hz hzx => ?_
    exact hsilent xs (List.mem_reverse.1 hxs)
      (List.mem_map.2 ⟨z, List.mem_reverse.1 hz, of_decide_eq_true hzx⟩)
  have hfound := h.last y hy
  rw [hyx, hnone, Option.none_or, hlast] at hfound
  rw [Option.some.inj hfound]
  exact hy

end Keys

end ImportAtlas
