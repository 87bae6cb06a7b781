import ImportAtlas.Discovery
import ImportAtlas.Proofs.Except
import ImportAtlas.Proofs.Json.Access
import Mathlib.Data.List.Induction
import Mathlib.Data.List.Nodup

/-!
# What overlapping subtrees hold together

Subtrees are searched one after the other. A file that several of them find is kept where it was
found first, with the category of that subtree. The listing by label keeps less: a subtree takes the
place of an earlier one with the same label, so files that only the earlier one found are in no
entry of the listing.
-/

namespace ImportAtlas

/-- What the search of a subtree finds. -/
def Subtree.found (s : Subtree) (w : World) (root : Location) (exclude : List String) :
    List Location :=
  w.findFiles (root.append (Location.ofText s.path)) s.extensions exclude

namespace Discovery

variable {w : World} {root l : Location} {exclude : List String} {subtrees : List Subtree}
  {d d' : Discovery} {category : String} {files : List (Location × String)}
  {found seen : List Location}

/-! ## One subtree after the other -/

theorem addSubtree_eq_ok_iff {s : Subtree} :
    addSubtree w root exclude d s = .ok d' ↔ s.label.isKey = true ∧
      d' = ⟨setLabel s.label (s.found w root exclude) d.bySubtree,
        addFiles s.category d.files (s.found w root exclude)⟩ := by
  unfold addSubtree
  cases hlabel : s.label.toKey with
  | error f =>
    have hkey : s.label.isKey ≠ true := fun h => by
      rw [Json.toKey_eq_ok_iff.2 ⟨h, rfl⟩] at hlabel
      cases hlabel
    simp [bind, Except.bind, hkey]
  | ok label =>
    obtain ⟨hkey, rfl⟩ := Json.toKey_eq_ok_iff.1 hlabel
    simp [bind, Except.bind, pure, Except.pure, hkey, Subtree.found, eq_comm]

theorem foldlM_addSubtree_eq_ok_iff :
    subtrees.foldlM (addSubtree w root exclude) d = .ok d' ↔
      (∀ s ∈ subtrees, s.label.isKey = true) ∧
      d' = ⟨subtrees.foldl (fun m s => setLabel s.label (s.found w root exclude) m) d.bySubtree,
        subtrees.foldl (fun fs s => addFiles s.category fs (s.found w root exclude)) d.files⟩ := by
  induction subtrees generalizing d with
  | nil => exact ⟨fun h => ⟨by simp, (Except.ok.inj h).symm⟩, fun h => congrArg Except.ok h.2.symm⟩
  | cons s subtrees ih =>
    rw [List.foldlM_cons]
    cases hstep : addSubtree w root exclude d s with
    | error f =>
      have hkey : s.label.isKey ≠ true := fun h => by
        rw [addSubtree_eq_ok_iff.2 ⟨h, rfl⟩] at hstep
        cases hstep
      simp [bind, Except.bind, hkey]
    | ok d₁ =>
      obtain ⟨hkey, rfl⟩ := addSubtree_eq_ok_iff.1 hstep
      simp only [bind, Except.bind, ih, List.forall_mem_cons, hkey, true_and, List.foldl_cons]

/-- The listing by label that subtrees leave. -/
def listing (w : World) (root : Location) (exclude : List String) (subtrees : List Subtree) :
    List (Json × List Location) :=
  subtrees.foldl (fun m s => setLabel s.label (s.found w root exclude) m) []

/-- A project is searched exactly if every label can be a key. The listing by label and the list of
files then grow side by side. -/
theorem run_eq_ok_iff :
    run w root subtrees exclude = .ok d ↔ (∀ s ∈ subtrees, s.label.isKey = true) ∧
      d = ⟨listing w root exclude subtrees,
        subtrees.foldl (fun fs s => addFiles s.category fs (s.found w root exclude)) []⟩ :=
  foldlM_addSubtree_eq_ok_iff

theorem exists_run (keys : ∀ s ∈ subtrees, s.label.isKey = true) :
    ∃ d, run w root subtrees exclude = .ok d :=
  ⟨_, run_eq_ok_iff.2 ⟨keys, rfl⟩⟩

/-! ## Every file once -/

theorem addFiles_cons_of_mem (h : l ∈ files.map (·.1)) :
    addFiles category files (l :: found) = addFiles category files found := by
  have hany : files.any (·.1 = l) = true := by simpa using h
  rw [addFiles, List.foldl_cons, if_pos hany]
  rfl

theorem addFiles_cons_of_notMem (h : l ∉ files.map (·.1)) :
    addFiles category files (l :: found) = addFiles category (files ++ [(l, category)]) found := by
  have hany : ¬files.any (·.1 = l) = true := by simpa using h
  rw [addFiles, List.foldl_cons, if_neg hany]
  rfl

theorem nodup_addFiles (h : (files.map (·.1)).Nodup) :
    ((addFiles category files found).map (·.1)).Nodup := by
  induction found generalizing files with
  | nil => exact h
  | cons l found ih =>
    by_cases hl : l ∈ files.map (·.1)
    · rw [addFiles_cons_of_mem hl]
      exact ih h
    · rw [addFiles_cons_of_notMem hl]
      apply ih
      rw [List.map_append, List.map_singleton, ← List.concat_eq_append]
      exact h.concat hl

/-- Files are kept where they are seen first. -/
theorem map_addFiles (h : files.map (·.1) = seen.eraseDups) :
    (addFiles category files found).map (·.1) = (seen ++ found).eraseDups := by
  -- `seen` is all that was offered so far, so each step moves a file from `found` to its end
  induction found generalizing files seen with
  | nil => rw [List.append_nil]; exact h
  | cons l found ih =>
    have hseen : l ∈ files.map (·.1) ↔ l ∈ seen := by rw [h, List.mem_eraseDups]
    have hnext : seen ++ l :: found = seen ++ [l] ++ found := by simp
    rw [hnext]
    by_cases hl : l ∈ files.map (·.1)
    · rw [addFiles_cons_of_mem hl]
      apply ih
      rw [h, List.eraseDups_append]
      simp [List.removeAll, hseen.1 hl]
    · rw [addFiles_cons_of_notMem hl]
      apply ih
      rw [List.map_append, h, List.eraseDups_append]
      simp [List.removeAll, mt hseen.2 hl, List.eraseDups_cons]

theorem lookup_isSome_iff_mem : (files.lookup l).isSome ↔ l ∈ files.map (·.1) := by
  rw [List.lookup_isSome_iff, List.mem_map]
  simp only [beq_iff_eq, eq_comm (a := l)]

/-- The first category of a file stays. -/
theorem lookup_addFiles :
    (addFiles category files found).lookup l =
      (files.lookup l).or (if l ∈ found then some category else none) := by
  induction found generalizing files with
  | nil => simp [addFiles]
  | cons a found ih =>
    by_cases ha : a ∈ files.map (·.1)
    · rw [addFiles_cons_of_mem ha, ih]
      by_cases hl : l = a
      · obtain ⟨c, hc⟩ := Option.isSome_iff_exists.1 (lookup_isSome_iff_mem.2 (hl ▸ ha))
        simp [hc]
      · simp [hl]
    · rw [addFiles_cons_of_notMem ha, ih, List.lookup_append]
      by_cases hl : l = a
      · simp [hl]
      · simp [hl, List.lookup_cons, beq_eq_false_iff_ne.2 hl]

/-! ## The files of a run -/

theorem nodup_foldl_addFiles (h : (files.map (·.1)).Nodup) :
    ((subtrees.foldl (fun fs s => addFiles s.category fs (s.found w root exclude)) files).map
      (·.1)).Nodup := by
  induction subtrees generalizing files with
  | nil => exact h
  | cons s subtrees ih => exact ih (nodup_addFiles h)

theorem map_foldl_addFiles (h : files.map (·.1) = seen.eraseDups) :
    (subtrees.foldl (fun fs s => addFiles s.category fs (s.found w root exclude)) files).map
      (·.1) = (seen ++ subtrees.flatMap (·.found w root exclude)).eraseDups := by
  induction subtrees generalizing files seen with
  | nil => simpa using h
  | cons s subtrees ih =>
    rw [List.foldl_cons, ih (map_addFiles h), List.flatMap_cons, List.append_assoc]

theorem lookup_foldl_addFiles :
    (subtrees.foldl (fun fs s => addFiles s.category fs (s.found w root exclude)) files).lookup l =
      (files.lookup l).or
        ((subtrees.find? fun s => l ∈ s.found w root exclude).map (·.category)) := by
  induction subtrees generalizing files with
  | nil => simp
  | cons s subtrees ih =>
    rw [List.foldl_cons, ih, lookup_addFiles, List.find?_cons, Option.or_assoc]
    by_cases hl : l ∈ s.found w root exclude
    · simp [hl]
    · simp [hl]

theorem nodup_files (h : run w root subtrees exclude = .ok d) : (d.files.map (·.1)).Nodup := by
  obtain ⟨-, rfl⟩ := run_eq_ok_iff.1 h
  exact nodup_foldl_addFiles List.nodup_nil

theorem map_files (h : run w root subtrees exclude = .ok d) :
    d.files.map (·.1) = (subtrees.flatMap (·.found w root exclude)).eraseDups := by
  obtain ⟨-, rfl⟩ := run_eq_ok_iff.1 h
  have hstart : ([] : List (Location × String)).map (·.1) = ([] : List Location).eraseDups := by
    simp
  exact map_foldl_addFiles hstart

theorem lookup_files (h : run w root subtrees exclude = .ok d) (l : Location) :
    d.files.lookup l =
      (subtrees.find? fun s => l ∈ s.found w root exclude).map (·.category) := by
  obtain ⟨-, rfl⟩ := run_eq_ok_iff.1 h
  exact lookup_foldl_addFiles

/-- Whatever subtrees a project has, a search of them all lists the files of the single searches in
turn, each where it is found first, and files it under the first subtree that finds it. -/
theorem run_overlapping (w : World) (root : Location) (subtrees : List Subtree)
    (exclude : List String) (keys : ∀ s ∈ subtrees, s.label.isKey = true) :
    ∃ d, run w root subtrees exclude = .ok d ∧ (d.files.map (·.1)).Nodup ∧
      d.files.map (·.1) = (subtrees.flatMap (·.found w root exclude)).eraseDups ∧
      ∀ l, d.files.lookup l =
        (subtrees.find? fun s => l ∈ s.found w root exclude).map (·.category) := by
  obtain ⟨d, hrun⟩ := exists_run keys
  exact ⟨d, hrun, nodup_files hrun, map_files hrun, lookup_files hrun⟩

/-- A file in two subtrees that both accept it, one in the inner subtree only, and one outside. -/
def nestedProject : World where
  tree := .dir [("p", .dir [("src", .dir [
    ("lib", .dir [("a.ts", .file .empty), ("b.tsx", .file .empty)]), ("z.ts", .file .empty)])])]
  here := ⟨1, []⟩
  home := ⟨1, ["home"]⟩
  now := ⟨0, 0⟩
  settingsFile := none

/-- A subtree, one inside it that accepts more, the inner one once more under another spelling, and
one that is missing. -/
def nestedSubtrees : List Subtree :=
  [⟨.str "all", "src", "other", [".ts"]⟩, ⟨.str "lib", "src/lib", "utility", [".ts", ".tsx"]⟩,
    ⟨.str "again", "./src//lib/", "component", [".tsx"]⟩, ⟨.str "gone", "gone", "other", [".ts"]⟩]

theorem nestedProject_overlapping :
    (∀ s ∈ nestedSubtrees, s.label.isKey = true) ∧
    ∃ d, run nestedProject ⟨1, ["p"]⟩ nestedSubtrees [] = .ok d ∧
      d.files.map (·.1) =
        (nestedSubtrees.flatMap (·.found nestedProject ⟨1, ["p"]⟩ [])).eraseDups ∧
      d.files = [(⟨1, ["p", "src", "lib", "a.ts"]⟩, "other"), (⟨1, ["p", "src", "z.ts"]⟩, "other"),
        (⟨1, ["p", "src", "lib", "b.tsx"]⟩, "utility")] := by
  have hkeys : ∀ s ∈ nestedSubtrees, s.label.isKey = true := by simp [nestedSubtrees, Json.isKey]
  have hfiles : (run nestedProject ⟨1, ["p"]⟩ nestedSubtrees []).toOption.map (·.files) =
      some [(⟨1, ["p", "src", "lib", "a.ts"]⟩, "other"), (⟨1, ["p", "src", "z.ts"]⟩, "other"),
        (⟨1, ["p", "src", "lib", "b.tsx"]⟩, "utility")] := by
    decide +kernel
  obtain ⟨d, hrun, -, hmap, -⟩ := run_overlapping nestedProject ⟨1, ["p"]⟩ nestedSubtrees [] hkeys
  rw [hrun] at hfiles
  exact ⟨hkeys, d, hrun, hmap, Option.some.inj hfiles⟩

/-! ## The listing by label -/

/-- A listing whose labels are texts, each of them once. -/
structure TextLabels (m : List (Json × List Location)) : Prop where
  texts : ∀ e ∈ m, ∃ t, e.1 = .str t
  once : (m.map (·.1)).Nodup

theorem setLabel_cons_self (t : String) (found fs : List Location)
    (m : List (Json × List Location)) :
    setLabel (.str t) found ((.str t, fs) :: m) = (.str t, found) :: m := by
  simp [setLabel, Json.same_str_iff]

theorem setLabel_cons_of_ne {t u : String} (h : u ≠ t) (found fs : List Location)
    (m : List (Json × List Location)) :
    setLabel (.str t) found ((.str u, fs) :: m) = (.str u, fs) :: setLabel (.str t) found m := by
  simp [setLabel, Json.same_str_iff, h]

/-- Setting a label puts the new files in the place of the old ones and keeps all else. -/
theorem mem_setLabel {m : List (Json × List Location)} (h : TextLabels m) {t : String}
    {e : Json × List Location} :
    e ∈ setLabel (.str t) found m ↔ e = (.str t, found) ∨ e ∈ m ∧ e.1 ≠ .str t := by
  induction m with
  | nil => simp [setLabel]
  | cons first m ih =>
    obtain ⟨label, fs⟩ := first
    obtain ⟨⟨u, hu⟩, hrest⟩ := List.forall_mem_cons.1 h.texts
    obtain ⟨hfirst, honce⟩ := List.nodup_cons.1 h.once
    cases hu
    by_cases hut : u = t
    · subst hut
      have hother : ∀ e ∈ m, e.1 ≠ .str u := fun e he heq =>
        hfirst (List.mem_map.2 ⟨e, he, heq⟩)
      rw [setLabel_cons_self, List.mem_cons, List.mem_cons]
      refine or_congr_right ⟨fun he => ⟨.inr he, hother e he⟩, ?_⟩
      rintro ⟨rfl | he, hne⟩
      · exact absurd rfl hne
      · exact he
    · rw [setLabel_cons_of_ne hut, List.mem_cons, List.mem_cons, ih ⟨hrest, honce⟩]
      constructor
      · rintro (rfl | rfl | ⟨he, hne⟩)
        · exact .inr ⟨.inl rfl, by simpa using hut⟩
        · exact .inl rfl
        · exact .inr ⟨.inr he, hne⟩
      · rintro (rfl | ⟨rfl | he, hne⟩)
        · exact .inr (.inl rfl)
        · exact .inl rfl
        · exact .inr (.inr ⟨he, hne⟩)

theorem TextLabels.setLabel {m : List (Json × List Location)} (h : TextLabels m) (t : String)
    (found : List Location) : TextLabels (setLabel (.str t) found m) where
  texts := by
    intro e he
    rcases (mem_setLabel h).1 he with rfl | ⟨he, -⟩
    · exact ⟨t, rfl⟩
    · exact h.texts e he
  once := by
    induction m with
    | nil => simp [Discovery.setLabel]
    | cons first m ih =>
      obtain ⟨label, fs⟩ := first
      obtain ⟨⟨u, hu⟩, hrest⟩ := List.forall_mem_cons.1 h.texts
      obtain ⟨hfirst, honce⟩ := List.nodup_cons.1 h.once
      have hm : TextLabels m := ⟨hrest, honce⟩
      cases hu
      by_cases hut : u = t
      · subst hut
        rw [setLabel_cons_self]
        exact h.once
      · rw [setLabel_cons_of_ne hut, List.map_cons, List.nodup_cons]
        refine ⟨?_, ih hm⟩
        intro hmem
        obtain ⟨e, he, heq⟩ := List.mem_map.1 hmem
        rcases (mem_setLabel hm).1 he with rfl | ⟨he, -⟩
        · cases heq
          exact hut rfl
        · exact hfirst (List.mem_map.2 ⟨e, he, heq⟩)

/-- A subtree after which none has its label. -/
def LastOfLabel (subtrees : List Subtree) (s : Subtree) : Prop :=
  ∃ before after, subtrees = before ++ s :: after ∧ ∀ t ∈ after, t.label ≠ s.label

theorem LastOfLabel.mem {s : Subtree} (h : LastOfLabel subtrees s) : s ∈ subtrees := by
  obtain ⟨before, after, rfl, -⟩ := h
  simp

theorem lastOfLabel_concat {s t : Subtree} :
    LastOfLabel (subtrees ++ [s]) t ↔ t = s ∨ LastOfLabel subtrees t ∧ t.label ≠ s.label := by
  constructor
  · rintro ⟨before, after, heq, hafter⟩
    rcases List.eq_nil_or_concat after with rfl | ⟨rest, u, rfl⟩
    · exact .inl (List.append_singleton_inj.1 heq).2.symm
    · rw [List.concat_eq_append, ← List.cons_append, ← List.append_assoc] at heq
      obtain ⟨hfront, rfl⟩ := List.append_singleton_inj.1 heq
      rw [List.concat_eq_append] at hafter
      refine .inr ⟨⟨before, rest, hfront, fun v hv => hafter v (by simp [hv])⟩, ?_⟩
      exact Ne.symm (hafter s (by simp))
  · rintro (rfl | ⟨⟨before, after, rfl, hafter⟩, hne⟩)
    · exact ⟨subtrees, [], rfl, by simp⟩
    · refine ⟨before, after ++ [s], by simp, ?_⟩
      intro u hu
      rcases List.mem_append.1 hu with hu | hu
      · exact hafter u hu
      · rw [List.mem_singleton.1 hu]
        exact Ne.symm hne

/-- Where labels differ, each subtree is the last of its label. -/
theorem lastOfLabel_of_nodup (h : (subtrees.map (·.label)).Nodup) {s : Subtree}
    (hs : s ∈ subtrees) : LastOfLabel subtrees s := by
  obtain ⟨before, after, rfl⟩ := List.append_of_mem hs
  refine ⟨before, after, rfl, fun t ht heq => ?_⟩
  rw [List.map_append, List.map_cons] at h
  have hrest := (List.nodup_append.1 h).2.1
  exact (List.nodup_cons.1 hrest).1 (List.mem_map.2 ⟨t, ht, heq⟩)

theorem listing_concat (s : Subtree) :
    listing w root exclude (subtrees ++ [s]) =
      setLabel s.label (s.found w root exclude) (listing w root exclude subtrees) := by
  rw [listing, List.foldl_append]
  rfl

theorem textLabels_listing (labels : ∀ s ∈ subtrees, ∃ t, s.label = .str t) :
    TextLabels (listing w root exclude subtrees) := by
  induction subtrees using List.reverseRecOn with
  | nil => exact ⟨by simp [listing], by simp [listing]⟩
  | append_singleton subtrees s ih =>
    obtain ⟨hbefore, hs⟩ := List.forall_mem_append.1 labels
    obtain ⟨t, ht⟩ := hs s (List.mem_singleton_self s)
    rw [listing_concat, ht]
    exact (ih hbefore).setLabel t _

/-- Under a label, the listing has what the last subtree with that label finds. -/
theorem mem_listing_iff (labels : ∀ s ∈ subtrees, ∃ t, s.label = .str t)
    {e : Json × List Location} :
    e ∈ listing w root exclude subtrees ↔
      ∃ s, LastOfLabel subtrees s ∧ e = (s.label, s.found w root exclude) := by
  -- a subtree takes the place of an earlier namesake, so they are taken off from the end
  induction subtrees using List.reverseRecOn with
  | nil => simp [listing, LastOfLabel]
  | append_singleton subtrees s ih =>
    obtain ⟨hbefore, hs⟩ := List.forall_mem_append.1 labels
    obtain ⟨t, ht⟩ := hs s (List.mem_singleton_self s)
    rw [listing_concat, ht, mem_setLabel (textLabels_listing hbefore), ih hbefore]
    simp only [lastOfLabel_concat, ht]
    constructor
    · rintro (rfl | ⟨⟨u, hu, rfl⟩, hne⟩)
      · exact ⟨s, .inl rfl, by rw [ht]⟩
      · exact ⟨u, .inr ⟨hu, hne⟩, rfl⟩
    · rintro ⟨u, rfl | ⟨hu, hne⟩, rfl⟩
      · exact .inl (by rw [ht])
      · exact .inr ⟨⟨u, hu, rfl⟩, hne⟩

/-! ## The two views of a run -/

theorem mem_files_iff (h : run w root subtrees exclude = .ok d) :
    l ∈ d.files.map (·.1) ↔ ∃ s ∈ subtrees, l ∈ s.found w root exclude := by
  rw [map_files h, List.mem_eraseDups, List.mem_flatMap]

theorem bySubtree_eq (h : run w root subtrees exclude = .ok d) :
    d.bySubtree = listing w root exclude subtrees := by
  obtain ⟨-, rfl⟩ := run_eq_ok_iff.1 h
  rfl

theorem listed_iff (labels : ∀ s ∈ subtrees, ∃ t, s.label = .str t)
    (h : run w root subtrees exclude = .ok d) :
    (∃ e ∈ d.bySubtree, l ∈ e.2) ↔ ∃ s, LastOfLabel subtrees s ∧ l ∈ s.found w root exclude := by
  rw [bySubtree_eq h]
  constructor
  · rintro ⟨e, he, hl⟩
    obtain ⟨s, hs, rfl⟩ := (mem_listing_iff labels).1 he
    exact ⟨s, hs, hl⟩
  · rintro ⟨s, hs, hl⟩
    exact ⟨_, (mem_listing_iff labels).2 ⟨s, hs, rfl⟩, hl⟩

/-- With texts for labels, the listing has one entry for each label, with what the last subtree of
that label finds. All that is listed was found; but a file is listed only if a subtree finds it that
has no later namesake. So nothing is missing where the labels differ. -/
theorem listed_iff_last_of_label (w : World) (root : Location) (subtrees : List Subtree)
    (exclude : List String) (labels : ∀ s ∈ subtrees, ∃ t, s.label = .str t) :
    ∃ d, run w root subtrees exclude = .ok d ∧ (d.bySubtree.map (·.1)).Nodup ∧
      (∀ e, e ∈ d.bySubtree ↔
        ∃ s, LastOfLabel subtrees s ∧ e = (s.label, s.found w root exclude)) ∧
      (∀ e ∈ d.bySubtree, ∀ l ∈ e.2, l ∈ d.files.map (·.1)) ∧
      ((∀ l ∈ d.files.map (·.1), ∃ e ∈ d.bySubtree, l ∈ e.2) ↔
        ∀ s ∈ subtrees, ∀ l ∈ s.found w root exclude,
          ∃ t, LastOfLabel subtrees t ∧ l ∈ t.found w root exclude) ∧
      ((subtrees.map (·.label)).Nodup →
        ∀ l ∈ d.files.map (·.1), ∃ e ∈ d.bySubtree, l ∈ e.2) := by
  have hkeys : ∀ s ∈ subtrees, s.label.isKey = true := by
    intro s hs
    obtain ⟨t, ht⟩ := labels s hs
    rw [ht]
    rfl
  obtain ⟨d, hrun⟩ := exists_run hkeys
  refine ⟨d, hrun, ?_, ?_, ?_, ?_, ?_⟩
  · rw [bySubtree_eq hrun]
    exact (textLabels_listing labels).once
  · intro e
    rw [bySubtree_eq hrun]
    exact mem_listing_iff labels
  · intro e he l hl
    obtain ⟨s, hs, hfound⟩ := (listed_iff labels hrun).1 ⟨e, he, hl⟩
    exact (mem_files_iff hrun).2 ⟨s, hs.mem, hfound⟩
  · simp only [listed_iff labels hrun, mem_files_iff hrun]
    refine ⟨fun h s hs l hl => h l ⟨s, hs, hl⟩, ?_⟩
    rintro h l ⟨s, hs, hl⟩
    exact h s hs l hl
  · intro hnodup l hl
    obtain ⟨s, hs, hfound⟩ := (mem_files_iff hrun).1 hl
    exact (listed_iff labels hrun).2 ⟨s, lastOfLabel_of_nodup hnodup hs, hfound⟩

/-- A subtree, and a wider one under the same label. -/
def widenedSubtrees : List Subtree :=
  [⟨.str "lib", "src/lib", "utility", [".ts"]⟩, ⟨.str "lib", "src", "other", [".ts"]⟩]

theorem widenedSubtrees_listed :
    (∀ s ∈ widenedSubtrees, ∃ t, s.label = .str t) ∧
    ∃ d, run nestedProject ⟨1, ["p"]⟩ widenedSubtrees [] = .ok d ∧
      (∀ l ∈ d.files.map (·.1), ∃ e ∈ d.bySubtree, l ∈ e.2) ∧
      d.bySubtree.map (·.2) =
        [[⟨1, ["p", "src", "lib", "a.ts"]⟩, ⟨1, ["p", "src", "z.ts"]⟩]] := by
  have hlabels : ∀ s ∈ widenedSubtrees, ∃ t, s.label = .str t := by simp [widenedSubtrees]
  have hlisted : (run nestedProject ⟨1, ["p"]⟩ widenedSubtrees []).toOption.map
      (·.bySubtree.map (·.2)) =
        some [[⟨1, ["p", "src", "lib", "a.ts"]⟩, ⟨1, ["p", "src", "z.ts"]⟩]] := by
    decide +kernel
  have hwide : ∀ s ∈ widenedSubtrees, ∀ l ∈ s.found nestedProject ⟨1, ["p"]⟩ [],
      l ∈ Subtree.found ⟨.str "lib", "src", "other", [".ts"]⟩ nestedProject ⟨1, ["p"]⟩ [] := by
    decide +kernel
  obtain ⟨d, hrun, -, -, -, hall, -⟩ :=
    listed_iff_last_of_label nestedProject ⟨1, ["p"]⟩ widenedSubtrees [] hlabels
  rw [hrun] at hlisted
  refine ⟨hlabels, d, hrun, hall.2 fun s hs l hl => ⟨_, ?_, hwide s hs l hl⟩, ?_⟩
  · exact ⟨[⟨.str "lib", "src/lib", "utility", [".ts"]⟩], [], rfl, by simp⟩
  · exact Option.some.inj hlisted

/-- Settings with two subtrees that go by the names of their directories. -/
def namesakes : Settings.Table :=
  [("analysis", .obj [("subtrees",
    .arr [.obj [("path", .str "src/a/types")], .obj [("path", .str "src/b/types")]])])]

def namesakeProject : World where
  tree := .dir [("p", .dir [("src", .dir [
    ("a", .dir [("types", .dir [("t.ts", .file .empty)])]),
    ("b", .dir [("types", .dir [("u.ts", .file .empty)])])])])]
  here := ⟨1, []⟩
  home := ⟨1, ["home"]⟩
  now := ⟨0, 0⟩
  settingsFile := none

/-- Both directories have one name, so the files of the first are found and not listed. -/
theorem namesakes_unlisted :
    ∃ s d, Settings.ofTable namesakes = .ok s ∧
      (∀ b ∈ s.analysis.subtrees, ∃ t, b.label = .str t) ∧
      run namesakeProject ⟨1, ["p"]⟩ s.analysis.subtrees s.analysis.exclude = .ok d ∧
      ∃ l ∈ d.files.map (·.1), ∀ e ∈ d.bySubtree, l ∉ e.2 := by
  have hcomputed : (Settings.ofTable namesakes).toOption.map (fun s =>
      (s.analysis.subtrees.map fun b => Label.text? b.label,
        (run namesakeProject ⟨1, ["p"]⟩ s.analysis.subtrees s.analysis.exclude).toOption.map
          fun d => (d.files.map (·.1), d.bySubtree.map (·.2)))) =
      some ([some "types", some "types"],
        some ([⟨1, ["p", "src", "a", "types", "t.ts"]⟩, ⟨1, ["p", "src", "b", "types", "u.ts"]⟩],
          [[⟨1, ["p", "src", "b", "types", "u.ts"]⟩]])) := by
    decide +kernel
  obtain ⟨s, hs, hsettings⟩ := toOption_map_eq_some_iff.1 hcomputed
  obtain ⟨hlabels, hfound⟩ := Prod.mk.inj hsettings
  obtain ⟨d, hd, hviews⟩ := toOption_map_eq_some_iff.1 hfound
  obtain ⟨hfiles, hlisted⟩ := Prod.mk.inj hviews
  have htexts : ∀ b ∈ s.analysis.subtrees, ∃ t, b.label = .str t := by
    intro b hb
    have htext : Label.text? b.label ∈ [some "types", some "types"] :=
      hlabels ▸ List.mem_map_of_mem hb
    cases hlabel : b.label with
    | str t => exact ⟨t, rfl⟩
    | _ => simp [hlabel, Label.text?] at htext
  refine ⟨s, d, hs, htexts, hd, ⟨1, ["p", "src", "a", "types", "t.ts"]⟩, ?_, ?_⟩
  · simp [hfiles]
  · intro e he
    have hentry : e.2 ∈ [[(⟨1, ["p", "src", "b", "types", "u.ts"]⟩ : Location)]] :=
      hlisted ▸ List.mem_map_of_mem he
    rw [List.mem_singleton.1 hentry]
    decide

end Discovery

end ImportAtlas
