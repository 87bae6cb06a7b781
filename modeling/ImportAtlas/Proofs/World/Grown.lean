import ImportAtlas.Proofs.World.WellFormed
import ImportAtlas.Proofs.World.Rewritten

/-!
# What writing leaves alone

Making directories and writing a file lose no directory and change no file but the one that is
written, so a path that led somewhere leads there afterwards, and a file that is written as it is
leaves the tree as it is. The directories that are left of a path when they cannot all be made are
the same when it is tried again.
-/

namespace ImportAtlas

namespace FileTree

/-- A tree has the directories of another and, outside some places, the same files. -/
structure Grown (places : List (List String)) (t u : FileTree) : Prop where
  dirs : t.DirsKept u
  files : ∀ place, place ∉ places → u.file? place = t.file? place

theorem Grown.refl (places : List (List String)) (t : FileTree) : Grown places t t :=
  ⟨.refl t, fun _ _ => rfl⟩

theorem Grown.trans {ps qs : List (List String)} {t u v : FileTree} (h : Grown ps t u)
    (h' : Grown qs u v) : Grown (ps ++ qs) t v where
  dirs := h.dirs.trans h'.dirs
  files := by
    intro place hplace
    rw [List.mem_append, not_or] at hplace
    rw [h'.files place hplace.2, h.files place hplace.1]

/-! ## Putting -/

/-- What is put where no directory is changes no file in another place, if it holds no files
itself. -/
theorem file?_put {new t : FileTree} {p q : List String} (bare : ∀ q, q ≠ [] → new.file? q = none)
    (free : ∀ es, t.get? p ≠ some (dir es)) (hne : q ≠ p) : (put new p t).file? q = t.file? q := by
  induction p generalizing t q with
  | nil =>
    cases t with
    | dir es => exact absurd rfl (free es)
    | file content =>
      obtain ⟨name, rest, rfl⟩ := List.exists_cons_of_ne_nil hne
      rw [put, bare _ hne]
      rfl
  | cons a p ih =>
    cases t with
    | file content => rfl
    | dir es =>
      cases q with
      | nil => rfl
      | cons b q =>
        by_cases hb : b = a
        · subst hb
          have hq : q ≠ p := fun h => hne (by rw [h])
          cases hu : es.lookup b with
          | some u =>
            have hfree : ∀ es, u.get? p ≠ some (dir es) := by
              intro es' hp
              exact free es' (Option.bind_eq_some_iff.2 ⟨u, hu, hp⟩)
            have hbelow := ih hfree hq
            simpa [put, file?, get?, entry?, lookup_setEntry, hu] using hbelow
          | none =>
            -- nothing was there, and nothing is there but what was put
            have hnone : (put new p (dir [])).file? q = none := by
              cases p with
              | nil => exact bare q hq
              | cons c p =>
                refine (ih (t := dir []) (by simp [get?, entry?]) hq).trans ?_
                cases q <;> rfl
            simpa [put, file?, get?, entry?, lookup_setEntry, hu] using hnone
        · simp [put, file?, get?, entry?, lookup_setEntry, hb]

theorem grown_put_dir {t : FileTree} {here : List String} {name : String}
    (hhere : ∃ es, t.get? here = some (dir es)) (h : t.get? (here ++ [name]) = none) :
    Grown [] t (put (dir []) (here ++ [name]) t) := by
  have hfree : ∀ es, t.get? (here ++ [name]) ≠ some (dir es) := by simp [h]
  have hbare : ∀ q, q ≠ [] → (dir []).file? q = none := by
    rintro (- | ⟨n, q⟩) hne
    · exact absurd rfl hne
    · rfl
  refine ⟨dirsKept_put hfree _, fun q _ => ?_⟩
  by_cases hq : q = here ++ [name]
  · obtain ⟨es, hes⟩ := hhere
    rw [hq, file?, file?, get?_put_concat _ hes, h]
  · exact file?_put hbare hfree hq

theorem grown_put_file {t : FileTree} {place : List String}
    (free : ∀ es, t.get? place ≠ some (dir es)) (content : ByteArray) :
    Grown [place] t (put (file content) place t) := by
  have hbare : ∀ q, q ≠ [] → (file content).file? q = none := by
    rintro (- | ⟨n, q⟩) hne
    · exact absurd rfl hne
    · rfl
  exact ⟨dirsKept_put free _, fun q hq => file?_put hbare free (by simpa using hq)⟩

/-- Putting what is there changes nothing. -/
theorem put_self {t u : FileTree} {place : List String} (hu : t.get? place = some u) :
    put u place t = t := by
  induction place generalizing t with
  | nil => exact (Option.some.inj hu).symm
  | cons name place ih =>
    obtain ⟨v, hv, hplace⟩ := Option.bind_eq_some_iff.1 hu
    cases t with
    | file content => cases hv
    | dir entries =>
      have hlookup : entries.lookup name = some v := hv
      rw [put, hlookup, Option.getD_some, ih hplace, setEntry_self hlookup]

/-! ## Making directories -/

theorem grown_dirsMade {t : FileTree} {here : List String} (path : List String)
    (hhere : ∃ es, t.get? here = some (dir es)) : Grown [] t (t.dirsMade here path) := by
  fun_induction dirsMade t here path with
  | case1 => exact .refl _ _
  | case2 t here path ih => exact ih (dir_dropLast hhere)
  | case3 t here name path hup place entries hget ih => exact ih ⟨entries, hget⟩
  | case4 => exact .refl _ _
  | case5 t here name path hup place hget ih =>
    obtain ⟨es, hes⟩ := hhere
    exact (grown_put_dir ⟨es, hes⟩ hget).trans (ih ⟨[], get?_put_concat (dir []) hes⟩)

/-- Directories that are made again are made as far as before, and nothing changes. -/
theorem dirsMade_again {t : FileTree} {here : List String} (path : List String)
    (hhere : ∃ es, t.get? here = some (dir es)) :
    (t.dirsMade here path).makeDirs here path = t.makeDirs here path ∧
      (t.dirsMade here path).dirsMade here path = t.dirsMade here path := by
  fun_induction dirsMade t here path with
  | case1 => exact ⟨rfl, rfl⟩
  | case2 t here path ih =>
    obtain ⟨hmake, hmade⟩ := ih (dir_dropLast hhere)
    exact ⟨by simpa [makeDirs] using hmake, by simpa [dirsMade] using hmade⟩
  | case3 t here name path hup place entries hget ih =>
    obtain ⟨hmake, hmade⟩ := ih ⟨entries, hget⟩
    obtain ⟨es, hes⟩ := (dirsKept_dirsMade t place path).dir ⟨entries, hget⟩
    exact ⟨by rw [makeDirs_into hup hes, hmake, makeDirs_into hup hget],
      by rw [dirsMade_into hup hes, hmade]⟩
  | case4 t here name path hup place content hget =>
    refine ⟨rfl, ?_⟩
    rw [dirsMade, if_neg hup]
    simp only [place] at hget
    simp only [hget]
  | case5 t here name path hup place hget ih =>
    obtain ⟨es, hes⟩ := hhere
    have hentered : (put (dir []) place t).get? place = some (dir []) := get?_put_concat (dir []) hes
    obtain ⟨hmake, hmade⟩ := ih ⟨[], hentered⟩
    obtain ⟨es', hes'⟩ := (dirsKept_dirsMade _ place path).dir ⟨[], hentered⟩
    refine ⟨?_, by rw [dirsMade_into hup hes', hmade]⟩
    rw [makeDirs_into hup hes', hmake, makeDirs.eq_def t here]
    simp only [place] at hget
    simp only [hup, if_false, hget]
    rfl

/-! ## Following -/

theorem isDir_of_dirsKept {t u : FileTree} (h : t.DirsKept u) (top : t.isDir = true) :
    u.isDir = true := by
  obtain ⟨es, hes⟩ := h.dir (get?_nil_of_isDir top)
  cases hes
  rfl

theorem locate_of_dirsKept {t u : FileTree} (h : t.DirsKept u) {path place : List String}
    (hplace : t.locate path = .ok place) : u.locate path = .ok place :=
  locate_eq_ok_iff.2 (follow_of_dirsKept h (locate_eq_ok_iff.1 hplace))

theorem HasDir.of_dirsKept {t u : FileTree} (h : t.DirsKept u) {path : List String}
    (hpath : t.HasDir path) : u.HasDir path := by
  obtain ⟨es, hes⟩ := hpath
  obtain ⟨place, hplace, hdir⟩ := find_eq_ok_iff.1 hes
  obtain ⟨es', hes'⟩ := h.dir ⟨es, hdir⟩
  exact ⟨es', find_eq_ok_iff.2 ⟨place, locate_of_dirsKept h hplace, hes'⟩⟩

end FileTree

namespace World

variable {w w' u : World} {l : Location} {s : String}

/-- A text was saved at a location. -/
structure Saved (w : World) (l : Location) (s : String) (w' : World) (place : List String) :
    Prop where
  /-- Only where the location leads a file was changed. -/
  grown : FileTree.Grown [place] w.tree w'.tree
  rest : w' = { w with tree := w'.tree }
  lead : place = (FileTree.lead [] (w.path l)).reverse
  name : place.getLast? = some l.name
  file : w'.tree.get? place = some (.file s.toUTF8)
  /-- As long as no directory is lost the location leads there and no directory has to be made. -/
  ready : ∀ t, w'.tree.DirsKept t →
    t.makeDirs [] (w.path l.parent) = .ok t ∧ t.locate (w.path l) = .ok place

/-- A file is written into the directory that was made for it, under the last name of its
location. -/
theorem locate_parent {t : FileTree} {place : List String} (top : w.tree.isDir = true)
    (hmake : w.tree.makeDirs [] (w.path l.parent) = .ok t)
    (hplace : t.locate (w.path l) = .ok place) (free : ∀ es, t.get? place ≠ some (.dir es)) :
    ∃ here, t.locate (w.path l.parent) = .ok here ∧ (∃ es, t.get? here = some (.dir es)) ∧
      l.parts.getLast? = some l.name ∧ place = here ++ [l.name] := by
  obtain ⟨here, hfollow, hdir⟩ :=
    FileTree.follow_makeDirs (FileTree.get?_nil_of_isDir top) hmake
  have hhere : t.locate (w.path l.parent) = .ok here.reverse :=
    FileTree.locate_eq_ok_iff.2 (by rw [List.reverse_reverse]; exact hfollow)
  have hplace' := FileTree.locate_eq_ok_iff.1 hplace
  refine ⟨here.reverse, hhere, hdir, ?_⟩
  cases hlast : l.parts.getLast? with
  | none =>
    -- without a name the location is that of a directory that was made
    have hparent : l.parent = l := by
      obtain ⟨root, parts⟩ := l
      cases List.getLast?_eq_none_iff.1 hlast
      rfl
    rw [hparent, hplace] at hhere
    cases hhere
    obtain ⟨es, hes⟩ := hdir
    exact absurd hes (free es)
  | some name =>
    have hname : l.name = name := by rw [Location.name, hlast]; rfl
    have hlead : place.reverse = FileTree.lead here [name] := by
      rw [FileTree.follow_eq_lead hplace', path_eq_parent w hlast, FileTree.lead_append,
        FileTree.follow_eq_lead hfollow]
      rfl
    unfold FileTree.lead at hlead
    split at hlead
    · -- the way back up from a directory leads to a directory
      have hup : place = here.reverse.dropLast := by
        rw [List.dropLast_reverse, ← List.reverse_eq_iff]
        exact hlead
      obtain ⟨es, hes⟩ := FileTree.dir_dropLast hdir
      exact absurd (hup ▸ hes) (free es)
    · refine ⟨by rw [hname], ?_⟩
      rw [hname, ← List.reverse_cons, ← List.reverse_eq_iff]
      exact hlead

/-- What saving a text does to a world. -/
theorem exists_saved (top : w.tree.isDir = true) (h : w.save l s = .ok w') :
    ∃ place, Saved w l s w' place := by
  obtain ⟨t, place, hmake, hplace, hfree, rfl⟩ := save_eq_ok_iff.1 h
  have htop := FileTree.get?_nil_of_isDir top
  have hfollow := FileTree.locate_eq_ok_iff.1 hplace
  have hgrown : FileTree.Grown [] w.tree t :=
    FileTree.dirsMade_of_makeDirs hmake ▸ FileTree.grown_dirsMade _ htop
  have hput := FileTree.grown_put_file hfree s.toUTF8
  obtain ⟨here, -, -, -, hname⟩ := locate_parent top hmake hplace hfree
  refine ⟨place, hgrown.trans hput, rfl, ?_, by rw [hname, List.getLast?_concat], ?_, ?_⟩
  · rw [← FileTree.follow_eq_lead hfollow, List.reverse_reverse]
  · have := FileTree.get?_put_self (.file s.toUTF8) (FileTree.hasParent_follow (.inl rfl) hfollow)
    rwa [List.reverse_reverse] at this
  · intro u hu
    have hkept := hput.dirs.trans hu
    exact ⟨FileTree.makeDirs_of_dirsKept htop hmake hkept, FileTree.locate_of_dirsKept hkept hplace⟩

theorem wellFormed_save (hw : w.tree.WellFormed) (h : w.save l s = .ok w') :
    w'.tree.WellFormed := by
  obtain ⟨t, place, hmake, hplace, -, rfl⟩ := save_eq_ok_iff.1 h
  have hup : ".." ∉ place := by
    have := FileTree.notMem_up_of_follow List.not_mem_nil (FileTree.locate_eq_ok_iff.1 hplace)
    simpa using this
  exact .put (FileTree.wellFormed_file _) hup (hw.makeDirs List.not_mem_nil hmake)

/-- Where a text was saved, a text can be saved again: no directory has to be made. -/
theorem Saved.save_again {place : List String} (h : Saved w l s w' place) (here : u.here = w.here)
    (kept : w'.tree.DirsKept u.tree) (free : ∀ es, u.tree.get? place ≠ some (.dir es)) (s' : String) :
    u.save l s' = .ok { u with tree := .put (.file s'.toUTF8) place u.tree } := by
  obtain ⟨hmake, hplace⟩ := h.ready u.tree kept
  have hpath := path_eq_of_here here
  exact save_eq_ok_iff.2 ⟨u.tree, place, by rwa [hpath], by rwa [hpath], free, rfl⟩

/-- A text that is still there can be saved again, and nothing changes. -/
theorem Saved.save_self {place : List String} {places : List (List String)}
    (h : Saved w l s w' place) (here : u.here = w.here)
    (grown : FileTree.Grown places w'.tree u.tree) (kept : place ∉ places) :
    u.save l s = .ok u := by
  have hfile : u.tree.get? place = some (.file s.toUTF8) := by
    rw [← FileTree.file?_eq_some, grown.files place kept, FileTree.file?_eq_some]
    exact h.file
  rw [h.save_again here grown.dirs (by simp [hfile]) s, FileTree.put_self hfile]

/-- A text that was saved before another took its place can be saved again, and the other is gone. -/
theorem Saved.save_back {place : List String} {content : ByteArray} (h : Saved w l s w' place)
    (replaced : u = { w' with tree := .put (.file content) place w'.tree })
    (free : ∀ es, u.tree.get? place ≠ some (.dir es)) : u.save l s = .ok w' := by
  have hhere : u.here = w.here := by rw [replaced, h.rest]
  have hkept : w'.tree.DirsKept u.tree := by
    rw [replaced]
    exact FileTree.dirsKept_put (by simp [h.file]) _
  rw [h.save_again hhere hkept free s, replaced, FileTree.put_put, FileTree.put_self h.file]

/-- Whether a text can be saved does not depend on the text. -/
theorem exists_save_of_save (h : w.save l s = .ok w') (s' : String) : ∃ u, w.save l s' = .ok u := by
  obtain ⟨t, place, hmake, hplace, hfree, -⟩ := save_eq_ok_iff.1 h
  exact ⟨_, save_eq_ok_iff.2 ⟨t, place, hmake, hplace, hfree, rfl⟩⟩

/-- Directories that were made are there when a text is saved, or a file stands in the way as it did
before. -/
theorem save_dirsMade (top : w.tree.isDir = true) (l : Location) (s : String) :
    (w.dirsMade l.parent).save l s = w.save l s := by
  have htop := FileTree.get?_nil_of_isDir top
  have hmake : (w.dirsMade l.parent).makeDirs l.parent = w.makeDirs l.parent := by
    have hagain := (FileTree.dirsMade_again (w.path l.parent) htop).1
    unfold path at hagain
    simp only [makeDirs, dirsMade, path, hagain]
  rw [save, hmake]
  rfl

end World

end ImportAtlas
