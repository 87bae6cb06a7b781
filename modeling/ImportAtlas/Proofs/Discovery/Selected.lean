import ImportAtlas.Discovery
import ImportAtlas.Proofs.World.Walk

/-!
# Which files a search selects

A search lists the files below a directory that have an allowed extension and no excluded name on
their way. It lists them as the directories list their entries, the files of a directory in the
place of the directory, so each of them once if no directory lists a name twice. Two trees that list
what they share in one order therefore show the files that they share in one order, whatever else is
listed between them.
-/

namespace ImportAtlas

/-- A path below a searched directory on which no name is excluded and whose last name has an
allowed extension. -/
def Allowed (extensions exclude : List String) (path : List String) : Prop :=
  (∀ name ∈ path, name ∉ exclude) ∧
    ∃ name, path.getLast? = some name ∧ (Path.splitExtension name).2 ∈ extensions

variable {extensions exclude : List String}

theorem Allowed.ne_nil {path : List String} (h : Allowed extensions exclude path) : path ≠ [] := by
  rintro rfl
  obtain ⟨-, name, hlast, -⟩ := h
  cases hlast

theorem allowed_singleton {name : String} :
    Allowed extensions exclude [name] ↔
      name ∉ exclude ∧ (Path.splitExtension name).2 ∈ extensions := by
  simp [Allowed]

theorem allowed_cons {name : String} {path : List String} (h : path ≠ []) :
    Allowed extensions exclude (name :: path) ↔
      name ∉ exclude ∧ Allowed extensions exclude path := by
  cases path with
  | nil => exact absurd rfl h
  | cons n path => simp [Allowed, and_assoc]

/-! ## Membership -/

theorem mem_selected_iff_entry {entries : List (String × FileTree)} {path : List String} :
    path ∈ selected extensions exclude entries ↔
      ∃ e ∈ entries, e.1 ∉ exclude ∧ path ∈ selectedAt extensions exclude e.1 e.2 := by
  induction entries with
  | nil => simp [selected]
  | cons e rest ih =>
    obtain ⟨name, t⟩ := e
    by_cases hname : name ∈ exclude
    · simp [selected, hname, ih]
    · simp [selected, hname, ih]

theorem mem_selectedAt_file {name : String} {content : ByteArray} {path : List String} :
    path ∈ selectedAt extensions exclude name (.file content) ↔
      path = [name] ∧ (Path.splitExtension name).2 ∈ extensions := by
  by_cases h : (Path.splitExtension name).2 ∈ extensions
  · simp [selectedAt, h]
  · simp [selectedAt, h]

theorem mem_selectedAt_dir {name : String} {entries : List (String × FileTree)}
    {path : List String} :
    path ∈ selectedAt extensions exclude name (.dir entries) ↔
      ∃ rest ∈ selected extensions exclude entries, path = name :: rest := by
  simp [selectedAt, eq_comm]

/-- Selected are the allowed paths that lead to a file. -/
theorem mem_selected {entries : List (String × FileTree)} (h : (FileTree.dir entries).Distinct)
    {path : List String} :
    path ∈ selected extensions exclude entries ↔ Allowed extensions exclude path ∧
      ∃ content, (FileTree.dir entries).get? path = some (.file content) := by
  induction path generalizing entries with
  | nil =>
    constructor
    · intro hmem
      obtain ⟨⟨name, t⟩, -, -, hat⟩ := mem_selected_iff_entry.1 hmem
      cases t with
      | file content => cases (mem_selectedAt_file.1 hat).1
      | dir es => obtain ⟨rest, -, hrest⟩ := mem_selectedAt_dir.1 hat; cases hrest
    · exact fun hpath => absurd rfl hpath.1.ne_nil
  | cons name path ih =>
    rw [mem_selected_iff_entry]
    have hget (t : FileTree) (hmem : (name, t) ∈ entries) :
        (FileTree.dir entries).get? (name :: path) = t.get? path := by
      have hlookup := (FileTree.lookup_eq_some_iff_of_nodup h.names).2 hmem
      simp [FileTree.get?, FileTree.entry?, hlookup]
    constructor
    · rintro ⟨⟨n, t⟩, hmem, hn, hat⟩
      cases t with
      | file content =>
        obtain ⟨hpath, hext⟩ := mem_selectedAt_file.1 hat
        cases hpath
        exact ⟨allowed_singleton.2 ⟨hn, hext⟩, content, hget _ hmem⟩
      | dir es =>
        obtain ⟨rest, hrest, hpath⟩ := mem_selectedAt_dir.1 hat
        cases hpath
        obtain ⟨hallowed, content, hcontent⟩ := (ih (h.of_mem hmem)).1 hrest
        exact ⟨(allowed_cons hallowed.ne_nil).2 ⟨hn, hallowed⟩, content,
          (hget _ hmem).trans hcontent⟩
    · rintro ⟨hallowed, content, hcontent⟩
      obtain ⟨t, ht, hpath⟩ := Option.bind_eq_some_iff.1 hcontent
      have hmem : (name, t) ∈ entries := (FileTree.lookup_eq_some_iff_of_nodup h.names).1 ht
      refine ⟨(name, t), hmem, hallowed.1 name List.mem_cons_self, ?_⟩
      cases path with
      | nil =>
        cases hpath
        exact mem_selectedAt_file.2 ⟨rfl, (allowed_singleton.1 hallowed).2⟩
      | cons n path =>
        cases t with
        | file content => cases hpath
        | dir es =>
          refine mem_selectedAt_dir.2 ⟨n :: path, (ih (h.of_mem hmem)).2 ⟨?_, content, hpath⟩, rfl⟩
          exact ((allowed_cons (List.cons_ne_nil n path)).1 hallowed).2

/-! ## Order -/

/-- The first name of a path that is selected at an entry is the name of the entry. -/
theorem head?_of_mem_selectedAt {name : String} {t : FileTree} {path : List String}
    (h : path ∈ selectedAt extensions exclude name t) : ∃ rest, path = name :: rest := by
  cases t with
  | file content => exact ⟨[], (mem_selectedAt_file.1 h).1⟩
  | dir es => obtain ⟨rest, -, hrest⟩ := mem_selectedAt_dir.1 h; exact ⟨rest, hrest⟩

/-- Of two paths below a directory with some entries, the first comes first: where they part, its
name stands first in the listing. -/
inductive ListedBefore : List (String × FileTree) → List String → List String → Prop
  | here {entries : List (String × FileTree)} {a b : String} {p q : List String}
      (h : [a, b].Sublist (entries.map (·.1))) : ListedBefore entries (a :: p) (b :: q)
  | inside {entries es : List (String × FileTree)} {name : String} {p q : List String}
      (h : (name, .dir es) ∈ entries) (hpq : ListedBefore es p q) :
      ListedBefore entries (name :: p) (name :: q)

theorem ListedBefore.mono {entries entries' : List (String × FileTree)} {p q : List String}
    (h : ListedBefore entries p q) (hsub : entries.Sublist entries') :
    ListedBefore entries' p q := by
  cases h with
  | here hab => exact .here (hab.trans (hsub.map _))
  | inside hmem hpq => exact .inside (hsub.subset hmem) hpq

theorem ListedBefore.irrefl {entries : List (String × FileTree)}
    (h : (FileTree.dir entries).Distinct) (p : List String) : ¬ListedBefore entries p p := by
  induction p generalizing entries with
  | nil => rintro ⟨⟩
  | cons name p ih =>
    intro hpp
    cases hpp with
    | here hab =>
      have htwice : [name, name].Nodup := h.names.sublist hab
      simp at htwice
    | inside hmem hpq => exact ih (h.of_mem hmem) hpq

theorem not_sublist_swap {names : List String} (h : names.Nodup) {a b : String}
    (hab : [a, b].Sublist names) : ¬[b, a].Sublist names := by
  induction names with
  | nil => cases hab
  | cons n names ih =>
    obtain ⟨hn, hnames⟩ := List.nodup_cons.1 h
    intro hba
    cases hab with
    | cons _ hab =>
      cases hba with
      | cons _ hba => exact ih hnames hab hba
      | cons_cons _ _ => exact hn (hab.subset (by simp))
    | cons_cons _ hb =>
      cases hba with
      | cons _ hba => exact hn (hba.subset (by simp))
      | cons_cons _ ha => exact hn (ha.subset (by simp))

theorem ListedBefore.asymm {entries : List (String × FileTree)} {p q : List String}
    (hpq : ListedBefore entries p q) (h : (FileTree.dir entries).Distinct) :
    ¬ListedBefore entries q p := by
  induction hpq with
  | here hab =>
    intro hqp
    cases hqp with
    | here hba => exact not_sublist_swap h.names hab hba
    | inside hmem hqp => exact not_sublist_swap h.names hab hab
  | @inside entries es name p q hmem hpq ih =>
    intro hqp
    cases hqp with
    | here hba => exact not_sublist_swap h.names hba hba
    | inside hmem' hqp =>
      have hlookup := (FileTree.lookup_eq_some_iff_of_nodup h.names).2 hmem
      have hlookup' := (FileTree.lookup_eq_some_iff_of_nodup h.names).2 hmem'
      cases hlookup.symm.trans hlookup'
      exact ih (h.of_mem hmem) hqp

/-- Paths that lead somewhere in both trees stand in the second as they stand in the first. -/
theorem ListedBefore.transfer {es fs : List (String × FileTree)} {p q : List String}
    (hpq : ListedBefore es p q) (h : (FileTree.dir es).Distinct)
    (order : FileTree.OrderKept (.dir es) (.dir fs)) (hp : ((FileTree.dir fs).get? p).isSome)
    (hq : ((FileTree.dir fs).get? q).isSome) : ListedBefore fs p q := by
  have hlisted {name : String} {path : List String} {fs : List (String × FileTree)}
      (h : ((FileTree.dir fs).get? (name :: path)).isSome) :
      ∃ t, fs.lookup name = some t ∧ (t.get? path).isSome := by
    obtain ⟨u, hu⟩ := Option.isSome_iff_exists.1 h
    obtain ⟨t, ht, hpath⟩ := Option.bind_eq_some_iff.1 hu
    exact ⟨t, ht, Option.isSome_of_mem hpath⟩
  induction hpq generalizing fs with
  | here hab =>
    obtain ⟨t, ht, -⟩ := hlisted hp
    obtain ⟨u, hu, -⟩ := hlisted hq
    exact .here (order [] _ _ rfl rfl _ _ hab (List.mem_map_of_mem (FileTree.mem_of_lookup ht))
      (List.mem_map_of_mem (FileTree.mem_of_lookup hu)))
  | @inside es es' name p q hmem hpq ih =>
    obtain ⟨t, ht, hp'⟩ := hlisted hp
    obtain ⟨t', ht', hq'⟩ := hlisted hq
    cases ht.symm.trans ht'
    have hlookup := (FileTree.lookup_eq_some_iff_of_nodup h.names).2 hmem
    cases t with
    | file content => cases hpq <;> cases hp'
    | dir fs' =>
      have hes' : (FileTree.dir es).get? [name] = some (.dir es') := by
        simp [FileTree.get?, FileTree.entry?, hlookup]
      have horder : FileTree.OrderKept (.dir es') (.dir fs') :=
        order.get? hes' (by simp [FileTree.get?, FileTree.entry?, ht])
      exact .inside (FileTree.mem_of_lookup ht) (ih (h.of_mem hmem) horder hp' hq')

mutual

/-- The paths of a search stand in the order of the listings. -/
theorem pairwise_selected (extensions exclude : List String) (entries : List (String × FileTree)) :
    (selected extensions exclude entries).Pairwise (ListedBefore entries) := by
  match entries with
  | [] => simp [selected]
  | (name, t) :: rest =>
    have hrest : (selected extensions exclude rest).Pairwise (ListedBefore ((name, t) :: rest)) :=
      (pairwise_selected extensions exclude rest).imp fun h => h.mono (List.sublist_cons_self _ _)
    rw [selected]
    split
    · exact hrest
    · refine List.pairwise_append.2 ⟨?_, hrest, ?_⟩
      · exact pairwise_selectedAt extensions exclude name t List.mem_cons_self
      · -- what is selected at the first entry comes before all that is selected at the others
        intro p hp q hq
        obtain ⟨⟨n, u⟩, hmem, -, hat⟩ := mem_selected_iff_entry.1 hq
        obtain ⟨p', rfl⟩ := head?_of_mem_selectedAt hp
        obtain ⟨q', rfl⟩ := head?_of_mem_selectedAt hat
        exact .here ((List.singleton_sublist.2 (List.mem_map_of_mem hmem)).cons_cons name)

theorem pairwise_selectedAt (extensions exclude : List String) (name : String) (t : FileTree)
    {entries : List (String × FileTree)} (h : (name, t) ∈ entries) :
    (selectedAt extensions exclude name t).Pairwise (ListedBefore entries) := by
  match t with
  | .file content =>
    rw [selectedAt]
    split <;> simp
  | .dir es =>
    rw [selectedAt, List.pairwise_map]
    exact (pairwise_selected extensions exclude es).imp fun hpq => .inside h hpq

end

/-- No path is listed twice. -/
theorem nodup_selected {entries : List (String × FileTree)} (h : (FileTree.dir entries).Distinct) :
    (selected extensions exclude entries).Nodup := by
  have hirrefl : Std.Irrefl (ListedBefore entries) := ⟨ListedBefore.irrefl h⟩
  exact (pairwise_selected extensions exclude entries).nodup

/-- The paths of a search from which something is taken, with what is taken. -/
def takenFrom {β : Type} (f : List String → Option β) (paths : List (List String)) :
    List (List String × β) :=
  paths.filterMap fun p => (f p).map (p, ·)

theorem mem_takenFrom {β : Type} {f : List String → Option β} {paths : List (List String)}
    {p : List String} {b : β} : (p, b) ∈ takenFrom f paths ↔ p ∈ paths ∧ f p = some b := by
  simp [takenFrom]

theorem pairwise_takenFrom {β : Type} {f : List String → Option β} {paths : List (List String)}
    {R : List String → List String → Prop} (h : paths.Pairwise R) :
    (takenFrom f paths).Pairwise fun x y => R x.1 y.1 := by
  refine List.pairwise_filterMap.2 (h.imp fun hab x hx y hy => ?_)
  obtain ⟨b, -, rfl⟩ := Option.map_eq_some_iff.1 hx
  obtain ⟨c, -, rfl⟩ := Option.map_eq_some_iff.1 hy
  exact hab

/-- What is taken from the files of a search is the same in two trees if the same is taken from the
same paths: a path from which nothing is taken shifts none of the others. -/
theorem filterMap_selected_eq {β : Type} {es fs : List (String × FileTree)}
    (hes : (FileTree.dir es).Distinct) (hfs : (FileTree.dir fs).Distinct)
    (order : FileTree.OrderKept (.dir es) (.dir fs)) {f g : List String → Option β}
    (same : ∀ p b, p ∈ selected extensions exclude es ∧ f p = some b ↔
      p ∈ selected extensions exclude fs ∧ g p = some b) :
    (selected extensions exclude es).filterMap f = (selected extensions exclude fs).filterMap g := by
  let ps := takenFrom f (selected extensions exclude es)
  let qs := takenFrom g (selected extensions exclude fs)
  have hmem (x : List String × β) : x ∈ ps ↔ x ∈ qs :=
    mem_takenFrom.trans ((same x.1 x.2).trans mem_takenFrom.symm)
  have hthere (x : List String × β) (hx : x ∈ qs) : ((FileTree.dir fs).get? x.1).isSome := by
    obtain ⟨-, content, hcontent⟩ := (mem_selected hfs).1 (mem_takenFrom.1 hx).1
    exact Option.isSome_of_mem hcontent
  -- the order of the first tree is that of the second on the paths from which something is taken
  have hps : ps.Pairwise fun x y => ListedBefore fs x.1 y.1 := by
    refine (pairwise_takenFrom (pairwise_selected extensions exclude es)).imp_of_mem ?_
    intro x y hx hy hxy
    exact hxy.transfer hes order (hthere x ((hmem x).1 hx)) (hthere y ((hmem y).1 hy))
  have hqs : qs.Pairwise fun x y => ListedBefore fs x.1 y.1 :=
    pairwise_takenFrom (pairwise_selected extensions exclude fs)
  have hirrefl : Std.Irrefl fun x y : List String × β => ListedBefore fs x.1 y.1 :=
    ⟨fun x => ListedBefore.irrefl hfs x.1⟩
  have hantisymm : Std.Antisymm fun x y : List String × β => ListedBefore fs x.1 y.1 :=
    ⟨fun x y hxy hyx => absurd hyx (hxy.asymm hfs)⟩
  have heq : ps = qs := hps.eq_of_mem_iff hqs hmem
  have hvalues (k : List String → Option β) (paths : List (List String)) :
      paths.filterMap k = (takenFrom k paths).map (·.2) := by
    rw [takenFrom, List.map_filterMap]
    simp
  rw [hvalues f, hvalues g]
  exact congrArg (List.map (·.2)) heq

/-! ## The files of a search -/

namespace World

variable {w : World} {directory l : Location}

theorem path_below (w : World) (directory : Location) (below : List String) :
    w.path ⟨directory.root, directory.parts ++ below⟩ = w.path directory ++ below := by
  unfold path Location.append
  split <;> simp

theorem below_injective (directory : Location) :
    Function.Injective fun path => (⟨directory.root, directory.parts ++ path⟩ : Location) :=
  fun _ _ h => List.append_cancel_left (Location.mk.inj h).2

theorem findFiles_eq {place : List String} {entries : List (String × FileTree)}
    (hplace : w.tree.locate (w.path directory) = .ok place)
    (hdir : w.tree.get? place = some (.dir entries)) :
    w.findFiles directory extensions exclude =
      (selected extensions exclude entries).map
        fun path => ⟨directory.root, directory.parts ++ path⟩ := by
  have hfind : w.find directory = .ok (.dir entries) :=
    FileTree.find_eq_ok_iff.2 ⟨place, hplace, hdir⟩
  rw [findFiles, hfind]

theorem dir_of_mem_findFiles (h : l ∈ w.findFiles directory extensions exclude) :
    ∃ place entries, w.tree.locate (w.path directory) = .ok place ∧
      w.tree.get? place = some (.dir entries) := by
  unfold findFiles at h
  split at h
  · next entries hfind =>
    obtain ⟨place, hplace, hdir⟩ := FileTree.find_eq_ok_iff.1 hfind
    exact ⟨place, entries, hplace, hdir⟩
  · cases h

/-- What has a file below it is a directory. -/
theorem exists_dir_above {t : FileTree} {place path : List String} {content : ByteArray}
    (hne : path ≠ []) (h : t.get? (place ++ path) = some (.file content)) :
    ∃ entries, t.get? place = some (.dir entries) ∧
      (FileTree.dir entries).get? path = some (.file content) := by
  obtain ⟨u, hu, hbelow⟩ := Option.bind_eq_some_iff.1 (FileTree.get?_append .. ▸ h)
  cases u with
  | file c =>
    obtain ⟨name, rest, rfl⟩ := List.exists_cons_of_ne_nil hne
    cases hbelow
  | dir entries => exact ⟨entries, hu, hbelow⟩

/-- A search finds the files under the place of the directory to which an allowed path leads, and
each stands where its location leads. -/
theorem mem_findFiles (hw : w.tree.Distinct) :
    l ∈ w.findFiles directory extensions exclude ↔
      ∃ place path content, w.tree.locate (w.path directory) = .ok place ∧
        w.tree.get? (place ++ path) = some (.file content) ∧ Allowed extensions exclude path ∧
        l = ⟨directory.root, directory.parts ++ path⟩ := by
  constructor
  · intro h
    obtain ⟨place, entries, hplace, hdir⟩ := dir_of_mem_findFiles h
    rw [findFiles_eq hplace hdir] at h
    obtain ⟨path, hpath, rfl⟩ := List.mem_map.1 h
    obtain ⟨hallowed, content, hcontent⟩ := (mem_selected (hw.get? hdir)).1 hpath
    refine ⟨place, path, content, hplace, ?_, hallowed, rfl⟩
    rw [FileTree.get?_append, hdir]
    exact hcontent
  · rintro ⟨place, path, content, hplace, hcontent, hallowed, rfl⟩
    obtain ⟨entries, hdir, hbelow⟩ := exists_dir_above hallowed.ne_nil hcontent
    rw [findFiles_eq hplace hdir]
    exact List.mem_map_of_mem ((mem_selected (hw.get? hdir)).2 ⟨hallowed, content, hbelow⟩)

theorem findFiles_of_hasDir_eq_false (h : w.hasDir directory = false) :
    w.findFiles directory extensions exclude = [] := by
  unfold findFiles
  split
  · next entries hfind => simp [hasDir, hfind, FileTree.isDir] at h
  · rfl

theorem exists_of_hasDir (h : w.hasDir directory = true) :
    ∃ place entries, w.tree.locate (w.path directory) = .ok place ∧
      w.tree.get? place = some (.dir entries) := by
  unfold hasDir at h
  split at h
  · next t hfind =>
    obtain ⟨place, hplace, hget⟩ := FileTree.find_eq_ok_iff.1 hfind
    cases t with
    | file content => cases h
    | dir entries => exact ⟨place, entries, hplace, hget⟩
  · cases h

/-- What is taken from the locations of a search is the same in two worlds if the same is taken from
the same locations. -/
theorem filterMap_findFiles_eq {β : Type} {w₁ w₂ : World} (here : w₁.here = w₂.here)
    (h₁ : w₁.tree.Distinct) (h₂ : w₂.tree.Distinct)
    (order : FileTree.OrderKept w₁.tree w₂.tree) {f g : Location → Option β}
    (same : ∀ l b, l ∈ w₁.findFiles directory extensions exclude ∧ f l = some b ↔
      l ∈ w₂.findFiles directory extensions exclude ∧ g l = some b) :
    (w₁.findFiles directory extensions exclude).filterMap f =
      (w₂.findFiles directory extensions exclude).filterMap g := by
  have hnone {ls : List Location} {k : Location → Option β}
      (hno : ∀ l b, ¬(l ∈ ls ∧ k l = some b)) : ls.filterMap k = [] :=
    List.filterMap_eq_nil_iff.2 fun l hl =>
      Option.eq_none_iff_forall_ne_some.2 fun b hb => hno l b ⟨hl, hb⟩
  cases hdir₁ : w₁.hasDir directory with
  | false =>
    rw [findFiles_of_hasDir_eq_false hdir₁] at same ⊢
    exact (hnone fun l b h => List.not_mem_nil ((same l b).2 h).1).symm
  | true =>
    cases hdir₂ : w₂.hasDir directory with
    | false =>
      rw [findFiles_of_hasDir_eq_false hdir₂] at same ⊢
      exact hnone fun l b h => List.not_mem_nil ((same l b).1 h).1
    | true =>
      obtain ⟨place, es, hplace₁, hes⟩ := exists_of_hasDir hdir₁
      obtain ⟨place₂, fs, hplace₂, hfs⟩ := exists_of_hasDir hdir₂
      obtain rfl : place₂ = place := by
        rw [← List.reverse_inj, FileTree.follow_eq_lead (FileTree.locate_eq_ok_iff.1 hplace₁),
          FileTree.follow_eq_lead (FileTree.locate_eq_ok_iff.1 hplace₂), path_eq_of_here here]
      rw [findFiles_eq hplace₁ hes, findFiles_eq hplace₂ hfs] at same ⊢
      rw [List.filterMap_map, List.filterMap_map]
      refine filterMap_selected_eq (h₁.get? hes) (h₂.get? hfs) (order.get? hes hfs) fun p b => ?_
      have hsame := same ⟨directory.root, directory.parts ++ p⟩ b
      rwa [List.mem_map_of_injective (below_injective directory),
        List.mem_map_of_injective (below_injective directory)] at hsame

/-- What a search below a directory with some entries has to find: the allowed files, each of them
once and nothing else, in the order of the listings. -/
structure Lists (directory : Location) (entries : List (String × FileTree))
    (extensions exclude : List String) (found : List Location) : Prop where
  files : ∀ l, l ∈ found ↔ ∃ path content,
    (FileTree.dir entries).get? path = some (.file content) ∧
      Allowed extensions exclude path ∧ l = ⟨directory.root, directory.parts ++ path⟩
  once : found.Nodup
  order : ∃ paths : List (List String),
    found = paths.map (fun path => ⟨directory.root, directory.parts ++ path⟩) ∧
      paths.Pairwise (ListedBefore entries)

/-- Whatever the order of the listings, a search finds each allowed file below a directory once and
nothing else, the files of a directory in its place. Where there is no directory it finds
nothing. -/
theorem findFiles_exact (w : World) (directory : Location) (extensions exclude : List String)
    (hw : w.tree.Distinct) :
    (∀ entries, w.find directory = .ok (.dir entries) →
      Lists directory entries extensions exclude (w.findFiles directory extensions exclude)) ∧
    (w.hasDir directory = false → w.findFiles directory extensions exclude = []) := by
  constructor
  · intro entries hfind
    obtain ⟨place, hplace, hdir⟩ := FileTree.find_eq_ok_iff.1 hfind
    have hentries : (FileTree.dir entries).Distinct := hw.get? hdir
    rw [findFiles_eq hplace hdir]
    constructor
    case files =>
      intro l
      simp only [List.mem_map, mem_selected hentries]
      constructor
      · rintro ⟨path, ⟨hallowed, content, hcontent⟩, rfl⟩
        exact ⟨path, content, hcontent, hallowed, rfl⟩
      · rintro ⟨path, content, hcontent, hallowed, rfl⟩
        exact ⟨path, ⟨hallowed, content, hcontent⟩, rfl⟩
    case once =>
      exact (nodup_selected hentries).map (below_injective directory)
    case order => exact ⟨_, rfl, pairwise_selected extensions exclude entries⟩
  · exact findFiles_of_hasDir_eq_false

/-- A directory listed out of order, with names of several dots, a directory that is named like a
source file, and excluded names of a file and of a directory. -/
def dottedEntries : List (String × FileTree) :=
  [("z.d.ts", .file .empty), (".ts", .file .empty), ("..b.ts", .file .empty),
    ("old.ts", .file .empty),
    ("gen.ts", .dir [("y.ts", .file .empty), ("dist", .dir [("x.ts", .file .empty)]),
      ("a.ts", .file .empty)]),
    ("c.ts", .file .empty)]

def dottedProject : World where
  tree := .dir [("p", .dir dottedEntries)]
  here := ⟨1, []⟩
  home := ⟨1, ["home"]⟩
  now := ⟨0, 0⟩
  settingsFile := none

theorem dottedProject_found :
    let found := dottedProject.findFiles ⟨1, ["p"]⟩ [".ts"] ["dist", "old.ts"]
    dottedProject.tree.Distinct ∧
      dottedProject.find ⟨1, ["p"]⟩ = .ok (.dir dottedEntries) ∧
      Lists ⟨1, ["p"]⟩ dottedEntries [".ts"] ["dist", "old.ts"] found ∧
      found = [⟨1, ["p", "z.d.ts"]⟩, ⟨1, ["p", "..b.ts"]⟩, ⟨1, ["p", "gen.ts", "y.ts"]⟩,
        ⟨1, ["p", "gen.ts", "a.ts"]⟩, ⟨1, ["p", "c.ts"]⟩] ∧
      dottedProject.findFiles ⟨1, ["p", "c.ts"]⟩ [".ts"] [] = [] := by
  intro found
  have hdistinct : dottedProject.tree.Distinct := by simp [dottedProject, dottedEntries]
  have hfind : dottedProject.find ⟨1, ["p"]⟩ = .ok (.dir dottedEntries) :=
    FileTree.find_eq_ok_iff.2 ⟨["p"], by decide +kernel, rfl⟩
  refine ⟨hdistinct, hfind, ?_, by decide +kernel, ?_⟩
  · exact (findFiles_exact _ _ _ _ hdistinct).1 dottedEntries hfind
  · exact (findFiles_exact _ _ _ _ hdistinct).2 (by decide +kernel)

end World

end ImportAtlas
