import ImportAtlas.Proofs.World.Walk

/-!
# Making directories and writing a file

Once the directories of a path are made, the path leads to a directory, and no other directory is
lost. A file can then be written under every name that is not that of a directory.
-/

namespace ImportAtlas

namespace FileTree

theorem dirsKept_dirsMade (t : FileTree) (here path : List String) :
    t.DirsKept (t.dirsMade here path) := by
  fun_induction dirsMade t here path with
  | case1 => exact .refl _
  | case2 t here path ih => exact ih
  | case3 t here name path hup place entries hget ih => exact ih
  | case4 => exact .refl _
  | case5 t here name path hup place hget ih => exact (dirsKept_put (by simp [hget]) _).trans ih

theorem dir_makeDirs {t t' : FileTree} {here path q : List String}
    (hmake : t.makeDirs here path = .ok t') (h : ∃ es, t.get? q = some (dir es)) :
    ∃ es, t'.get? q = some (dir es) :=
  dirsMade_of_makeDirs hmake ▸ (dirsKept_dirsMade t here path).dir h

theorem dir_dropLast {t : FileTree} {place : List String}
    (h : ∃ es, t.get? place = some (dir es)) : ∃ es, t.get? place.dropLast = some (dir es) := by
  rcases List.eq_nil_or_concat place with rfl | ⟨p, name, rfl⟩
  · exact h
  · obtain ⟨es, hes⟩ := h
    rw [List.concat_eq_append] at hes ⊢
    rw [List.dropLast_concat]
    exact dir_of_get?_concat (Option.isSome_of_mem hes)

/-- The directories of a path are there once they are made. -/
theorem follow_makeDirs {t t' : FileTree} {here path : List String}
    (hhere : ∃ es, t.get? here = some (dir es)) (hmake : t.makeDirs here path = .ok t') :
    ∃ place, follow t' here.reverse path = .ok place ∧
      ∃ es, t'.get? place.reverse = some (dir es) := by
  -- a name that leads to a directory is followed into it
  have hinto {t' : FileTree} {here path : List String} {name : String} (hup : name ≠ "..")
      (hdir : ∃ es, t'.get? (here ++ [name]) = some (dir es))
      (h : ∃ place, follow t' (here ++ [name]).reverse path = .ok place ∧
        ∃ es, t'.get? place.reverse = some (dir es)) :
      ∃ place, follow t' here.reverse (name :: path) = .ok place ∧
        ∃ es, t'.get? place.reverse = some (dir es) := by
    obtain ⟨place, hfollow, hplace⟩ := h
    obtain ⟨es, hes⟩ := hdir
    rw [List.reverse_append, List.reverse_singleton, List.singleton_append] at hfollow
    have hes' : t'.get? (name :: here.reverse).reverse = some (dir es) := by
      rw [List.reverse_cons, List.reverse_reverse]
      exact hes
    exact ⟨place, follow_into hup hes' hfollow, hplace⟩
  fun_induction makeDirs t here path with
  | case1 t here =>
    cases hmake
    exact ⟨here.reverse, rfl, by rwa [List.reverse_reverse]⟩
  | case2 t here path ih =>
    obtain ⟨place, hfollow, hplace⟩ := ih (dir_dropLast hhere) hmake
    obtain ⟨es, hes⟩ := dir_makeDirs hmake hhere
    refine ⟨place, follow_cons_eq_ok_iff.2 ⟨es, ?_, .inl ⟨rfl, ?_⟩⟩, hplace⟩
    · rwa [List.reverse_reverse]
    · rwa [List.tail_reverse]
  | case3 t here name path hup place entries hget ih =>
    exact hinto hup (dir_makeDirs hmake ⟨entries, hget⟩) (ih ⟨entries, hget⟩ hmake)
  | case4 => cases hmake
  | case5 t here name path hup place hget ih =>
    obtain ⟨es, hes⟩ := hhere
    have hmade : (put (dir []) place t).get? place = some (dir []) := get?_put_concat (dir []) hes
    exact hinto hup (dir_makeDirs hmake ⟨[], hmade⟩) (ih ⟨[], hmade⟩ hmake)

theorem get?_nil_of_isDir {t : FileTree} (h : t.isDir = true) :
    ∃ es, t.get? [] = some (dir es) := by
  cases t with
  | file content => cases h
  | dir es => exact ⟨es, rfl⟩

/-- On the way to a name that is followed no directory has to be made. -/
theorem makeDirs_of_follow {top : FileTree} {here path place : List String} {name : String}
    (h : follow top here (path ++ [name]) = .ok place) :
    top.makeDirs here.reverse path = .ok top := by
  induction path generalizing here with
  | nil => rfl
  | cons n path ih =>
    obtain ⟨entries, -, ⟨rfl, hout⟩ | ⟨hup, -, hin⟩ | ⟨-, -, hnil, -⟩⟩ := follow_cons_eq_ok_iff.1 h
    · have hdrop : here.reverse.dropLast = here.tail.reverse := List.dropLast_reverse
      rw [makeDirs, if_pos rfl, hdrop]
      exact ih hout
    · -- the walk goes on from the entry, so the entry is a directory
      obtain ⟨es, hes⟩ := dir_of_follow (List.concat_ne_nil name path) hin
      have hmade := ih hin
      rw [List.reverse_cons] at hes hmade
      rw [makeDirs_into hup hes, hmade]
    · exact absurd hnil (List.concat_ne_nil name path)

/-- A name leads on from every directory, whether or not it is there. -/
theorem exists_follow_name {top : FileTree} {place : List String}
    (h : ∃ es, top.get? place.reverse = some (dir es)) (name : String) :
    ∃ last, follow top place [name] = .ok last := by
  obtain ⟨es, hes⟩ := h
  by_cases hup : name = ".."
  · exact ⟨place.tail, follow_cons_eq_ok_iff.2 ⟨es, hes, .inl ⟨hup, rfl⟩⟩⟩
  · refine ⟨name :: place, follow_cons_eq_ok_iff.2 ⟨es, hes, .inr ?_⟩⟩
    cases hlookup : es.lookup name with
    | none => exact .inr ⟨hup, rfl, rfl, rfl⟩
    | some t => exact .inl ⟨hup, rfl, rfl⟩

/-- A path that leads somewhere can be written to, unless it leads to a directory. -/
theorem exists_write {top : FileTree} {path place : List String} (hplace : top.locate path = .ok place)
    (free : ∀ es, top.get? place ≠ some (dir es)) (content : ByteArray) :
    ∃ top', top.write path content = .ok top' := by
  unfold write
  rw [hplace]
  simp only [bind, Except.bind]
  exact ⟨_, rfl⟩

end FileTree

namespace World

variable {w w₁ : World} {l : Location}

theorem path_eq_parent (w : World) {name : String} (h : l.parts.getLast? = some name) :
    w.path l = w.path l.parent ++ [name] := by
  obtain ⟨ps, hps⟩ := List.getLast?_eq_some_iff.1 h
  unfold path Location.append Location.parent
  dsimp only
  rw [hps, List.dropLast_concat]
  split
  · rw [List.append_assoc]
  · exact hps

theorem makeDirs_eq_ok (h : w.makeDirs l = .ok w₁) :
    ∃ t, w.tree.makeDirs [] (w.path l) = .ok t ∧ w₁ = { w with tree := t } := by
  unfold makeDirs at h
  cases ht : w.tree.makeDirs [] (w.path l) with
  | error e => rw [ht] at h; cases h
  | ok t =>
    rw [ht] at h
    cases h
    exact ⟨t, rfl, rfl⟩

/-- With the directories around it made, a file can be written in every place where no directory
is. -/
theorem exists_writeText (top : w.tree.isDir = true) (hmake : w.makeDirs l.parent = .ok w₁)
    (free : w₁.hasDir l = false) (s : String) : ∃ w₂, w₁.writeText l s = .ok w₂ := by
  obtain ⟨t, ht, rfl⟩ := makeDirs_eq_ok hmake
  obtain ⟨here, hfollow, hdir⟩ := FileTree.follow_makeDirs (FileTree.get?_nil_of_isDir top) ht
  -- the location leads somewhere: it is the directory itself or a name in it
  obtain ⟨place, hplace⟩ : ∃ place, t.locate (w.path l) = .ok place := by
    cases hlast : l.parts.getLast? with
    | none =>
      have hparent : l.parent = l := by
        obtain ⟨root, parts⟩ := l
        cases List.getLast?_eq_none_iff.1 hlast
        rfl
      refine ⟨here.reverse, FileTree.locate_eq_ok_iff.2 ?_⟩
      rw [← hparent, List.reverse_reverse]
      exact hfollow
    | some name =>
      obtain ⟨es, hes⟩ := hdir
      obtain ⟨last, hstep⟩ := FileTree.exists_follow_name ⟨es, hes⟩ name
      refine ⟨last.reverse, FileTree.locate_eq_ok_iff.2 ?_⟩
      rw [path_eq_parent w hlast, List.reverse_reverse]
      exact FileTree.follow_append hfollow hes hstep
  have hfree : ∀ es, t.get? place ≠ some (.dir es) := by
    intro es hes
    have hfind : ({ w with tree := t } : World).find l = .ok (.dir es) :=
      FileTree.find_eq_ok_iff.2 ⟨place, hplace, hes⟩
    rw [hasDir, hfind] at free
    cases free
  obtain ⟨t', ht'⟩ := FileTree.exists_write hplace hfree s.toUTF8
  refine ⟨{ w with tree := t' }, ?_⟩
  show (do return { w with tree := ← t.write (w.path l) s.toUTF8 } : Except FileError World) = _
  rw [ht']
  rfl

/-- A file that is there can be saved anew. -/
theorem exists_save_of_find {content : ByteArray} (named : l.parts ≠ [])
    (h : w.find l = .ok (.file content)) (s : String) : ∃ w', w.save l s = .ok w' := by
  obtain ⟨name, hlast⟩ : ∃ name, l.parts.getLast? = some name := by
    cases hlast : l.parts.getLast? with
    | none => exact absurd (List.getLast?_eq_none_iff.1 hlast) named
    | some name => exact ⟨name, rfl⟩
  obtain ⟨place, hlocate, -⟩ := FileTree.find_eq_ok_iff.1 h
  have hfollow := FileTree.locate_eq_ok_iff.1 hlocate
  rw [path_eq_parent w hlast] at hfollow
  have hmake : w.makeDirs l.parent = .ok w := by
    have hdirs := FileTree.makeDirs_of_follow hfollow
    rw [makeDirs, show w.tree.makeDirs [] (w.path l.parent) = .ok w.tree from hdirs]
    rfl
  have htop : w.tree.isDir = true := by
    obtain ⟨es, hes⟩ := FileTree.dir_of_follow (List.concat_ne_nil name _) hfollow
    rw [show w.tree = .dir es from Option.some.inj hes]
    rfl
  have hfree : w.hasDir l = false := by
    rw [hasDir, h]
    rfl
  obtain ⟨w', hwrite⟩ := exists_writeText htop hmake hfree s
  refine ⟨w', ?_⟩
  rw [save, hmake]
  exact hwrite

end World

end ImportAtlas
