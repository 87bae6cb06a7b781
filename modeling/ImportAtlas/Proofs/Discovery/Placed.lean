import ImportAtlas.Proofs.Discovery.Selected
import ImportAtlas.Proofs.Path.Segments

/-!
# Where discovered files lie

A discovered file lies below the path of one of the subtrees, and it has that subtree's category.
Seen from the root of the project, its path is the path of the subtree followed by the names on the
way down, as long as no entry of a directory has a slash in its name.
-/

namespace ImportAtlas

namespace FileTree

/-- No entry of a directory has a slash in its name. -/
abbrev SlashFree (t : FileTree) : Prop := t.Named fun name => '/' ∉ name.toList

theorem SlashFree.of_mem_selected {extensions exclude : List String}
    {entries : List (String × FileTree)} (h : (FileTree.dir entries).SlashFree) {path : List String}
    (hpath : path ∈ selected extensions exclude entries) :
    path ≠ [] ∧ ∀ name ∈ path, '/' ∉ name.toList := by
  induction path generalizing entries with
  | nil =>
    obtain ⟨e, -, -, hat⟩ := mem_selected_iff_entry.1 hpath
    obtain ⟨rest, hrest⟩ := head?_of_mem_selectedAt hat
    cases hrest
  | cons name path ih =>
    obtain ⟨⟨n, t⟩, hmem, -, hat⟩ := mem_selected_iff_entry.1 hpath
    obtain ⟨names, below⟩ := named_dir.1 h
    refine ⟨List.cons_ne_nil name path, List.forall_mem_cons.2 ?_⟩
    cases t with
    | file content =>
      cases (mem_selectedAt_file.1 hat).1
      exact ⟨names _ hmem, by simp⟩
    | dir es =>
      obtain ⟨rest, hrest, heq⟩ := mem_selectedAt_dir.1 hat
      cases heq
      exact ⟨names _ hmem, (ih (below _ hmem) hrest).2⟩

end FileTree

namespace World

theorem exists_of_mem_findFiles {w : World} (hw : w.tree.SlashFree) {directory l : Location}
    {extensions exclude : List String} (h : l ∈ w.findFiles directory extensions exclude) :
    ∃ path, path ≠ [] ∧ (∀ name ∈ path, '/' ∉ name.toList) ∧
      l = ⟨directory.root, directory.parts ++ path⟩ := by
  obtain ⟨place, entries, hplace, hdir⟩ := dir_of_mem_findFiles h
  rw [findFiles_eq hplace hdir] at h
  obtain ⟨path, hpath, rfl⟩ := List.mem_map.1 h
  obtain ⟨hne, hnames⟩ := FileTree.SlashFree.of_mem_selected (FileTree.EveryDir.get? hw hdir) hpath
  exact ⟨path, hne, hnames, rfl⟩

end World

namespace Discovery

variable {w : World} {root : Location} {exclude : List String} {d d' : Discovery}

theorem mem_addFiles {category : String} {files : List (Location × String)}
    {found : List Location} {f : Location × String} (h : f ∈ addFiles category files found) :
    f ∈ files ∨ f.1 ∈ found ∧ f.2 = category := by
  unfold addFiles at h
  induction found generalizing files with
  | nil => exact .inl h
  | cons l found ih =>
    rcases ih h with hf | ⟨hf, hcategory⟩
    · dsimp only at hf
      split at hf
      · exact .inl hf
      · rcases List.mem_append.1 hf with hf | hf
        · exact .inl hf
        · cases List.mem_singleton.1 hf
          exact .inr ⟨List.mem_cons_self, rfl⟩
    · exact .inr ⟨List.mem_cons_of_mem l hf, hcategory⟩

/-- A file has the category of a subtree whose search finds it. -/
def FromSubtree (w : World) (root : Location) (exclude : List String) (subtrees : List Subtree)
    (f : Location × String) : Prop :=
  ∃ s ∈ subtrees,
    f.1 ∈ w.findFiles (root.append (Location.ofText s.path)) s.extensions exclude ∧
      f.2 = s.category

theorem fromSubtree_addSubtree {s : Subtree} (h : addSubtree w root exclude d s = .ok d')
    {f : Location × String} (hf : f ∈ d'.files) :
    f ∈ d.files ∨ FromSubtree w root exclude [s] f := by
  unfold addSubtree at h
  cases hlabel : s.label.toKey with
  | error e => rw [hlabel] at h; cases h
  | ok label =>
    rw [hlabel] at h
    cases h
    exact (mem_addFiles hf).imp id fun hfound => ⟨s, List.mem_singleton_self s, hfound⟩

theorem fromSubtree_foldlM {subtrees : List Subtree}
    (h : subtrees.foldlM (addSubtree w root exclude) d = .ok d') :
    ∀ f ∈ d'.files, f ∈ d.files ∨ FromSubtree w root exclude subtrees f := by
  induction subtrees generalizing d with
  | nil => cases h; exact fun f hf => .inl hf
  | cons s subtrees ih =>
    rw [List.foldlM_cons] at h
    cases hstep : addSubtree w root exclude d s with
    | error e => rw [hstep] at h; cases h
    | ok d₁ =>
      rw [hstep] at h
      intro f hf
      rcases ih h f hf with hf | ⟨t, ht, hfound⟩
      · refine (fromSubtree_addSubtree hstep hf).imp id ?_
        rintro ⟨t, ht, hfound⟩
        exact ⟨t, List.mem_singleton.1 ht ▸ List.mem_cons_self, hfound⟩
      · exact .inr ⟨t, List.mem_cons_of_mem s ht, hfound⟩

theorem fromSubtree_run {subtrees : List Subtree} (h : run w root subtrees exclude = .ok d) :
    ∀ f ∈ d.files, FromSubtree w root exclude subtrees f := by
  intro f hf
  exact (fromSubtree_foldlM h f hf).resolve_left (by simp)

end Discovery

namespace Location

/-- What lies below the root goes by the rest of its location. -/
theorem relativeTo_below (here root : Location) {parts : List String} (h : parts ≠ []) :
    relativeTo here root ⟨root.root, root.parts ++ parts⟩ = Path.ofSegments parts := by
  have hbelow : below? root ⟨root.root, root.parts ++ parts⟩ = some ⟨0, parts⟩ := by
    simp [below?]
  rw [relativeTo, hbelow]
  simp [text, h, Path.slashes]

end Location

end ImportAtlas
