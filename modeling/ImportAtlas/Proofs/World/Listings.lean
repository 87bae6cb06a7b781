import ImportAtlas.World.Basic
import Mathlib.Data.List.Nodup
import Mathlib.Data.List.Perm.Basic

/-!
# What directories list

A listing may come in any order. What a file system promises of it is said by `EveryDir`: of the
names that every directory of a tree lists. No name is listed twice (`Distinct`), and each is of
some kind (`Named`). Setting an entry keeps the other names in their order, and nothing but a new
name is added.
-/

namespace ImportAtlas.FileTree

variable {entries : List (String × FileTree)} {name : String} {t u : FileTree}

/-! ## Places -/

theorem get?_append (t : FileTree) (p q : List String) :
    t.get? (p ++ q) = (t.get? p).bind (get? · q) := by
  induction p generalizing t with
  | nil => rfl
  | cons name p ih =>
    simp only [List.cons_append, get?]
    cases t.entry? name with
    | none => rfl
    | some u => exact ih u

theorem get?_concat {p : List String} (h : t.get? p = some (dir entries)) (name : String) :
    t.get? (p ++ [name]) = entries.lookup name := by
  rw [get?_append, h]
  exact Option.bind_fun_some (entries.lookup name)

theorem mem_of_lookup (h : entries.lookup name = some t) : (name, t) ∈ entries := by
  obtain ⟨before, after, hentries, -⟩ := List.lookup_eq_some_iff.1 h
  simp [hentries]

theorem lookup_eq_some_iff_of_nodup (h : (entries.map (·.1)).Nodup) :
    entries.lookup name = some t ↔ (name, t) ∈ entries := by
  induction entries with
  | nil => simp
  | cons e rest ih =>
    obtain ⟨n, u⟩ := e
    obtain ⟨hfirst, hrest⟩ := List.pairwise_cons.1 h
    rw [List.lookup_cons, List.mem_cons, Prod.mk.injEq]
    by_cases hn : name = n
    · subst hn
      have hnot : (name, t) ∉ rest := fun hmem =>
        hfirst name (List.mem_map_of_mem hmem) rfl
      simp [hnot, eq_comm]
    · rw [beq_eq_false_iff_ne.2 hn]
      simp [hn, ih hrest]

theorem isSome_lookup_iff : (entries.lookup name).isSome ↔ name ∈ entries.map (·.1) := by
  rw [List.lookup_isSome_iff]
  simp

/-! ## Every directory -/

/-- Every directory of a tree has entries of some kind. -/
inductive EveryDir (P : List (String × FileTree) → Prop) : FileTree → Prop
  | file (content : ByteArray) : EveryDir P (file content)
  | dir {entries : List (String × FileTree)} (here : P entries)
      (below : ∀ e ∈ entries, EveryDir P e.2) : EveryDir P (dir entries)

/-- No directory lists a name twice, whatever the order of its listing. -/
def Distinct (t : FileTree) : Prop := t.EveryDir fun entries => (entries.map (·.1)).Nodup

/-- Every name that a directory lists is of some kind. -/
def Named (Q : String → Prop) (t : FileTree) : Prop :=
  t.EveryDir fun entries => ∀ e ∈ entries, Q e.1

/-- No directory lists a name twice or the way back up. -/
structure WellFormed (t : FileTree) : Prop where
  distinct : t.Distinct
  upless : t.Named (· ≠ "..")

section EveryDir

variable {P : List (String × FileTree) → Prop} {Q : String → Prop}

@[simp] theorem everyDir_file (content : ByteArray) : (file content).EveryDir P := .file content

@[simp] theorem everyDir_dir :
    (dir entries).EveryDir P ↔ P entries ∧ ∀ e ∈ entries, e.2.EveryDir P := by
  refine ⟨fun h => ?_, fun h => .dir h.1 h.2⟩
  cases h with
  | dir here below => exact ⟨here, below⟩

theorem EveryDir.get? (h : t.EveryDir P) {place : List String} (hu : t.get? place = some u) :
    u.EveryDir P := by
  induction place generalizing t with
  | nil => cases hu; exact h
  | cons name place ih =>
    obtain ⟨v, hv, hplace⟩ := Option.bind_eq_some_iff.1 hu
    cases h with
    | file content => cases hv
    | dir here below => exact ih (below _ (mem_of_lookup hv)) hplace

@[simp] theorem distinct_file (content : ByteArray) : (file content).Distinct := .file content

@[simp] theorem distinct_dir :
    (dir entries).Distinct ↔ (entries.map (·.1)).Nodup ∧ ∀ e ∈ entries, e.2.Distinct :=
  everyDir_dir

@[simp] theorem named_file (content : ByteArray) : (file content).Named Q := .file content

@[simp] theorem named_dir :
    (dir entries).Named Q ↔ (∀ e ∈ entries, Q e.1) ∧ ∀ e ∈ entries, e.2.Named Q :=
  everyDir_dir

theorem Distinct.get? (h : t.Distinct) {place : List String} (hu : t.get? place = some u) :
    u.Distinct :=
  EveryDir.get? h hu

theorem Distinct.names (h : (dir entries).Distinct) : (entries.map (·.1)).Nodup :=
  (distinct_dir.1 h).1

theorem Distinct.of_mem (h : (dir entries).Distinct) {e : String × FileTree} (he : e ∈ entries) :
    e.2.Distinct :=
  (distinct_dir.1 h).2 e he

/-- Every name on a way down the tree is listed. -/
theorem Named.of_get? (h : t.Named Q) {path : List String} (hu : t.get? path = some u) :
    ∀ name ∈ path, Q name := by
  induction path generalizing t with
  | nil => simp
  | cons name path ih =>
    obtain ⟨v, hv, hpath⟩ := Option.bind_eq_some_iff.1 hu
    cases h with
    | file content => cases hv
    | dir here below =>
      have hmem := mem_of_lookup hv
      exact List.forall_mem_cons.2 ⟨here _ hmem, ih (below _ hmem) hpath⟩

end EveryDir

theorem WellFormed.get? (h : t.WellFormed) {place : List String} (hu : t.get? place = some u) :
    u.WellFormed :=
  ⟨EveryDir.get? h.distinct hu, EveryDir.get? h.upless hu⟩

/-- No way down a well-formed tree goes through `..`. -/
theorem WellFormed.ne_up (h : t.WellFormed) {path : List String} (hu : t.get? path = some u) :
    ".." ∉ path :=
  fun hup => h.upless.of_get? hu ".." hup rfl

theorem wellFormed_file (content : ByteArray) : (file content).WellFormed := ⟨.file _, .file _⟩

theorem wellFormed_dir : (dir entries).WellFormed ↔
    (entries.map (·.1)).Nodup ∧ (∀ e ∈ entries, e.1 ≠ "..") ∧ ∀ e ∈ entries, e.2.WellFormed := by
  constructor
  · rintro ⟨hdistinct, hupless⟩
    obtain ⟨hnames, hbelow⟩ := distinct_dir.1 hdistinct
    obtain ⟨hup, hupBelow⟩ := named_dir.1 hupless
    exact ⟨hnames, hup, fun e he => ⟨hbelow e he, hupBelow e he⟩⟩
  · rintro ⟨hnames, hup, hbelow⟩
    exact ⟨distinct_dir.2 ⟨hnames, fun e he => (hbelow e he).distinct⟩,
      named_dir.2 ⟨hup, fun e he => (hbelow e he).upless⟩⟩

theorem wellFormed_dir_nil : (dir []).WellFormed := by
  simp [wellFormed_dir]

/-! ## Setting an entry -/

theorem map_replaceEntry (name : String) (t : FileTree) (entries : List (String × FileTree)) :
    (replaceEntry name t entries).map (·.1) = entries.map (·.1) := by
  fun_induction replaceEntry name t entries with
  | case1 => rfl
  | case2 u rest => rfl
  | case3 n u rest hne ih => rw [List.map_cons, List.map_cons, ih]

theorem perm_insertEntry (name : String) (t : FileTree) (entries : List (String × FileTree)) :
    (insertEntry name t entries).Perm ((name, t) :: entries) := by
  fun_induction insertEntry name t entries with
  | case1 => exact .refl _
  | case2 n u rest hlt => exact .refl _
  | case3 n u rest hlt ih => exact (ih.cons _).trans (.swap _ _ _)

theorem sublist_insertEntry (name : String) (t : FileTree) (entries : List (String × FileTree)) :
    entries.Sublist (insertEntry name t entries) := by
  fun_induction insertEntry name t entries with
  | case1 => exact List.nil_sublist _
  | case2 n u rest hlt => exact List.sublist_cons_self _ _
  | case3 n u rest hlt ih => exact ih.cons_cons _

/-- The names that were listed stay, in their order. -/
theorem sublist_setEntry (name : String) (t : FileTree) (entries : List (String × FileTree)) :
    (entries.map (·.1)).Sublist ((setEntry name t entries).map (·.1)) := by
  unfold setEntry
  split
  · rw [map_replaceEntry]
  · exact (sublist_insertEntry name t entries).map _

theorem nodup_setEntry (h : (entries.map (·.1)).Nodup) :
    ((setEntry name t entries).map (·.1)).Nodup := by
  unfold setEntry
  split
  · rwa [map_replaceEntry]
  · next hnew =>
    rw [isSome_lookup_iff] at hnew
    rw [((perm_insertEntry name t entries).map _).nodup_iff]
    exact List.nodup_cons.2 ⟨hnew, h⟩

theorem mem_replaceEntry {e : String × FileTree} (h : e ∈ replaceEntry name t entries) :
    e = (name, t) ∨ e ∈ entries := by
  fun_induction replaceEntry name t entries with
  | case1 => cases h
  | case2 u rest => exact (List.mem_cons.1 h).imp_right (List.mem_cons_of_mem _)
  | case3 n u rest hne ih =>
    rcases List.mem_cons.1 h with rfl | hrest
    · exact .inr List.mem_cons_self
    · exact (ih hrest).imp_right (List.mem_cons_of_mem _)

theorem mem_setEntry {e : String × FileTree} (h : e ∈ setEntry name t entries) :
    e = (name, t) ∨ e ∈ entries := by
  unfold setEntry at h
  split at h
  · exact mem_replaceEntry h
  · exact List.mem_cons.1 ((perm_insertEntry name t entries).mem_iff.1 h)

theorem lookup_cons_of_ne {m n : String} (h : n ≠ m) (u : FileTree)
    (rest : List (String × FileTree)) : List.lookup n ((m, u) :: rest) = rest.lookup n := by
  rw [List.lookup_cons, beq_eq_false_iff_ne.2 h]

theorem lookup_replaceEntry (name n : String) (t : FileTree) (entries : List (String × FileTree))
    (old : (entries.lookup name).isSome) :
    (replaceEntry name t entries).lookup n = if n = name then some t else entries.lookup n := by
  fun_induction replaceEntry name t entries with
  | case1 => cases old
  | case2 u rest =>
    split
    · next hn => rw [hn, List.lookup_cons_self]
    · next hn => rw [lookup_cons_of_ne hn, lookup_cons_of_ne hn]
  | case3 m u rest hne ih =>
    rw [lookup_cons_of_ne (Ne.symm hne)] at old
    rw [List.lookup_cons, List.lookup_cons, ih old]
    split
    · next hn => rw [if_neg (by simpa [← beq_iff_eq.1 hn] using hne)]
    · rfl

theorem lookup_insertEntry (name n : String) (t : FileTree) (entries : List (String × FileTree))
    (new : entries.lookup name = none) :
    (insertEntry name t entries).lookup n = if n = name then some t else entries.lookup n := by
  fun_induction insertEntry name t entries with
  | case1 =>
    split
    · next hn => rw [hn, List.lookup_cons_self]
    · next hn => rw [lookup_cons_of_ne hn]
  | case2 m u rest hlt =>
    split
    · next hn => rw [hn, List.lookup_cons_self]
    · next hn => rw [lookup_cons_of_ne hn]
  | case3 m u rest hlt ih =>
    have hne : name ≠ m := by
      rintro rfl
      rw [List.lookup_cons_self] at new
      cases new
    rw [lookup_cons_of_ne hne] at new
    rw [List.lookup_cons, List.lookup_cons, ih new]
    split
    · next hn => rw [if_neg (by simpa [← beq_iff_eq.1 hn] using Ne.symm hne)]
    · rfl

theorem lookup_setEntry (name n : String) (t : FileTree) (entries : List (String × FileTree)) :
    (setEntry name t entries).lookup n = if n = name then some t else entries.lookup n := by
  unfold setEntry
  split
  · next hold => exact lookup_replaceEntry name n t entries hold
  · next hnew => exact lookup_insertEntry name n t entries (Option.not_isSome_iff_eq_none.1 hnew)

/-- Setting an entry to what it is changes nothing. -/
theorem setEntry_self (h : entries.lookup name = some t) : setEntry name t entries = entries := by
  rw [setEntry, if_pos (Option.isSome_of_mem h)]
  fun_induction replaceEntry name t entries with
  | case1 => rfl
  | case2 u rest =>
    rw [List.lookup_cons_self] at h
    cases h
    rfl
  | case3 n u rest hne ih =>
    rw [List.lookup_cons, beq_eq_false_iff_ne.2 (Ne.symm hne)] at h
    rw [ih h]

theorem replaceEntry_replaceEntry (name : String) (t u : FileTree)
    (entries : List (String × FileTree)) :
    replaceEntry name u (replaceEntry name t entries) = replaceEntry name u entries := by
  fun_induction replaceEntry name t entries with
  | case1 => rfl
  | case2 v rest => simp [replaceEntry]
  | case3 n v rest hne ih => simp [replaceEntry, hne, ih]

theorem replaceEntry_insertEntry (name : String) (t u : FileTree)
    (entries : List (String × FileTree)) (new : entries.lookup name = none) :
    replaceEntry name u (insertEntry name t entries) = insertEntry name u entries := by
  fun_induction insertEntry name t entries with
  | case1 => simp [replaceEntry, insertEntry]
  | case2 n v rest hlt => simp [replaceEntry, insertEntry, hlt]
  | case3 n v rest hlt ih =>
    have hne : n ≠ name := by
      rintro rfl
      rw [List.lookup_cons_self] at new
      cases new
    rw [lookup_cons_of_ne (Ne.symm hne)] at new
    simp [replaceEntry, insertEntry, hlt, hne, ih new]

/-- Of two trees that are set for a name the second is left. -/
theorem setEntry_setEntry (name : String) (t u : FileTree) (entries : List (String × FileTree)) :
    setEntry name u (setEntry name t entries) = setEntry name u entries := by
  have hset : ((setEntry name t entries).lookup name).isSome := by simp [lookup_setEntry]
  rw [setEntry, if_pos hset]
  unfold setEntry
  split
  · exact replaceEntry_replaceEntry name t u entries
  · next hnew =>
    exact replaceEntry_insertEntry name t u entries (Option.not_isSome_iff_eq_none.1 hnew)

theorem WellFormed.setEntry (h : (dir entries).WellFormed) (up : name ≠ "..") (ht : t.WellFormed) :
    (dir (FileTree.setEntry name t entries)).WellFormed := by
  obtain ⟨hnames, hup, hbelow⟩ := wellFormed_dir.1 h
  refine wellFormed_dir.2 ⟨nodup_setEntry hnames, fun e he => ?_, fun e he => ?_⟩
  · rcases mem_setEntry he with rfl | he
    · exact up
    · exact hup e he
  · rcases mem_setEntry he with rfl | he
    · exact ht
    · exact hbelow e he

/-! ## Two trees -/

/-- The names of a listing that another has too. -/
def shared (es fs : List (String × FileTree)) : List String :=
  (es.map (·.1)).filter (fs.map (·.1)).contains

/-- Where both trees have a directory, the names that both list stand in one order. -/
def SameOrder (t u : FileTree) : Prop :=
  ∀ place es fs, t.get? place = some (dir es) → u.get? place = some (dir fs) →
    shared es fs = shared fs es

/-- Where both trees have a directory, names of the first tree that the second one lists stand there
as they did. -/
def OrderKept (t u : FileTree) : Prop :=
  ∀ place es fs, t.get? place = some (dir es) → u.get? place = some (dir fs) →
    ∀ a b, [a, b].Sublist (es.map (·.1)) → a ∈ fs.map (·.1) → b ∈ fs.map (·.1) →
      [a, b].Sublist (fs.map (·.1))

theorem sameOrder_file_left (content : ByteArray) (u : FileTree) : SameOrder (file content) u := by
  intro place es fs hes _
  cases place <;> cases hes

theorem SameOrder.dir {es fs : List (String × FileTree)} (here : shared es fs = shared fs es)
    (below : ∀ e ∈ es, ∀ u, fs.lookup e.1 = some u → SameOrder e.2 u) :
    SameOrder (dir es) (dir fs) := by
  intro place es' fs' hes hfs
  cases place with
  | nil =>
    cases hes
    cases hfs
    exact here
  | cons name place =>
    obtain ⟨t, ht, hes⟩ := Option.bind_eq_some_iff.1 hes
    obtain ⟨u, hu, hfs⟩ := Option.bind_eq_some_iff.1 hfs
    exact below (name, t) (mem_of_lookup ht) u hu place es' fs' hes hfs

theorem SameOrder.symm (h : SameOrder t u) : SameOrder u t :=
  fun place es fs hes hfs => (h place fs es hfs hes).symm

theorem SameOrder.orderKept (h : SameOrder t u) : OrderKept t u := by
  intro place es fs hes hfs a b hab ha hb
  have hshared : [a, b].Sublist (shared es fs) := by
    have hkept : [a, b].filter (fs.map (·.1)).contains = [a, b] := by
      rw [List.filter_cons_of_pos (List.contains_iff_mem.2 ha),
        List.filter_cons_of_pos (List.contains_iff_mem.2 hb), List.filter_nil]
    rw [← hkept]
    exact hab.filter _
  rw [h place es fs hes hfs] at hshared
  exact hshared.trans List.filter_sublist

theorem OrderKept.get? {t' u' : FileTree} (h : OrderKept t u) {place : List String}
    (ht : t.get? place = some t') (hu : u.get? place = some u') : OrderKept t' u' := by
  intro below es fs hes hfs
  exact h (place ++ below) es fs (by rw [get?_append, ht]; exact hes)
    (by rw [get?_append, hu]; exact hfs)

end ImportAtlas.FileTree
