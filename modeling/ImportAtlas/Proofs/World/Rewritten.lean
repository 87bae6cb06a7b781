import ImportAtlas.Proofs.World.Made

/-!
# Writing a file again

Of two trees put in one place only the second is left, and the directories of a path need to be made
once. So saving a text where another was saved gives the world that saving it at once would have
given.
-/

namespace ImportAtlas

namespace FileTree

/-! ## Putting twice -/

/-- Of two trees put in one place the second is left. -/
theorem put_put (new old : FileTree) (place : List String) (t : FileTree) :
    put new place (put old place t) = put new place t := by
  induction place generalizing t with
  | nil => rfl
  | cons name place ih =>
    cases t with
    | file content => rfl
    | dir entries => simp [put, lookup_setEntry, setEntry_setEntry, ih]

/-! ## Directories made before -/

/-- Once its directories were made, a path has them all as long as none is lost. -/
theorem makeDirs_of_dirsKept {t t₁ t₂ : FileTree} {here path : List String}
    (hhere : ∃ es, t.get? here = some (dir es)) (hmake : t.makeDirs here path = .ok t₁)
    (hkept : t₁.DirsKept t₂) : t₂.makeDirs here path = .ok t₂ := by
  -- a directory on the way is there in the second tree too, so it is entered and not made
  have henter {t : FileTree} {here path : List String} {name : String} (hup : name ≠ "..")
      (hmake : t.makeDirs (here ++ [name]) path = .ok t₁)
      (hdir : ∃ es, t.get? (here ++ [name]) = some (dir es))
      (h : t₂.makeDirs (here ++ [name]) path = .ok t₂) :
      t₂.makeDirs here (name :: path) = .ok t₂ := by
    obtain ⟨es, hes⟩ := hkept.dir (dir_makeDirs hmake hdir)
    rw [makeDirs_into hup hes, h]
  fun_induction makeDirs t here path with
  | case1 => rfl
  | case2 t here path ih =>
    rw [makeDirs, if_pos rfl]
    exact ih (dir_dropLast hhere) hmake
  | case3 t here name path hup place entries hget ih =>
    exact henter hup hmake ⟨entries, hget⟩ (ih ⟨entries, hget⟩ hmake)
  | case4 => cases hmake
  | case5 t here name path hup place hget ih =>
    obtain ⟨es, hes⟩ := hhere
    have hmade : (put (dir []) place t).get? place = some (dir []) := get?_put_concat (dir []) hes
    exact henter hup hmake ⟨[], hmade⟩ (ih ⟨[], hmade⟩ hmake)

/-- A file has no directories below it, and none are made. -/
theorem makeDirs_file {content : ByteArray} {t : FileTree} {here path : List String}
    (h : (file content).makeDirs here path = .ok t) : t = file content := by
  induction path generalizing here with
  | nil => exact (Except.ok.inj h).symm
  | cons name path ih =>
    unfold makeDirs at h
    split at h
    · exact ih h
    · have hnone : (file content).get? (here ++ [name]) = none := by
        cases here <;> rfl
      have hput : put (dir []) (here ++ [name]) (file content) = file content := by
        cases here <;> rfl
      simp only [hnone, hput] at h
      exact ih h

theorem write_eq_ok_iff {top top' : FileTree} {path : List String} {content : ByteArray} :
    top.write path content = .ok top' ↔ ∃ place, top.locate path = .ok place ∧
      (∀ es, top.get? place ≠ some (dir es)) ∧ top' = put (file content) place top := by
  unfold write
  cases hplace : top.locate path with
  | error e => simp [bind, Except.bind]
  | ok place =>
    simp only [bind, Except.bind, Except.ok.injEq, exists_eq_left']
    split
    · next es hes => simp [hes, throw, throwThe, MonadExceptOf.throw]
    · next hfree =>
      simp only [pure, Except.pure, Except.ok.injEq, eq_comm (a := top')]
      exact ⟨fun h => ⟨hfree, h⟩, fun h => h.2⟩

end FileTree

namespace World

variable {w w' : World} {l : Location} {s : String}

theorem writeText_eq_ok_iff : w.writeText l s = .ok w' ↔
    ∃ t, w.tree.write (w.path l) s.toUTF8 = .ok t ∧ w' = { w with tree := t } := by
  unfold writeText
  cases w.tree.write (w.path l) s.toUTF8 with
  | error e => simp [bind, Except.bind]
  | ok t => simp [bind, Except.bind, pure, Except.pure, eq_comm]

/-- What saving a text does: it makes the directories around the location and puts the file where
the location then leads, unless a directory is there. -/
theorem save_eq_ok_iff : w.save l s = .ok w' ↔ ∃ t place,
    w.tree.makeDirs [] (w.path l.parent) = .ok t ∧ t.locate (w.path l) = .ok place ∧
      (∀ es, t.get? place ≠ some (.dir es)) ∧
      w' = { w with tree := .put (.file s.toUTF8) place t } := by
  unfold save makeDirs
  cases ht : w.tree.makeDirs [] (w.path l.parent) with
  | error e => simp [bind, Except.bind]
  | ok t =>
    show ({ w with tree := t } : World).writeText l s = .ok w' ↔ _
    rw [writeText_eq_ok_iff]
    show (∃ u, t.write (w.path l) s.toUTF8 = .ok u ∧ w' = { w with tree := u }) ↔ _
    simp only [FileTree.write_eq_ok_iff, Except.ok.injEq]
    constructor
    · rintro ⟨_, ⟨place, hplace, hfree, rfl⟩, rfl⟩
      exact ⟨t, place, rfl, hplace, hfree, rfl⟩
    · rintro ⟨_, place, rfl, hplace, hfree, rfl⟩
      exact ⟨_, ⟨place, hplace, hfree, rfl⟩, rfl⟩

theorem path_parent_of_nil (h : w.path l = []) : w.path l.parent = [] := by
  unfold path Location.append at h ⊢
  unfold Location.parent
  dsimp only at h ⊢
  split at h
  · next hroot =>
    obtain ⟨hhere, hparts⟩ := List.append_eq_nil_iff.1 h
    rw [if_pos hroot, hhere, hparts]
    rfl
  · next hroot =>
    rw [if_neg hroot, h]
    rfl

/-- A text that is saved where another was saved takes its place. -/
theorem save_save (h : w.save l s = .ok w') (s' : String) : w'.save l s' = w.save l s' := by
  obtain ⟨t, place, hmake, hplace, hfree, rfl⟩ := save_eq_ok_iff.1 h
  have hsaved : w.save l s' = .ok { w with tree := .put (.file s'.toUTF8) place t } :=
    save_eq_ok_iff.2 ⟨t, place, hmake, hplace, hfree, rfl⟩
  have hfollow : FileTree.follow t [] (w.path l) = .ok place.reverse :=
    FileTree.locate_eq_ok_iff.1 hplace
  have hfree' : ∀ es, t.get? place.reverse.reverse ≠ some (.dir es) := by
    rwa [List.reverse_reverse]
  have hagain : (FileTree.put (.file s.toUTF8) place t).locate (w.path l) = .ok place := by
    have := FileTree.follow_put (.file s.toUTF8) hfree' hfollow
    rw [List.reverse_reverse] at this
    exact FileTree.locate_eq_ok_iff.2 this
  have hself : (FileTree.put (.file s.toUTF8) place t).get? place = some (.file s.toUTF8) := by
    have := FileTree.get?_put_self (.file s.toUTF8) (FileTree.hasParent_follow (.inl rfl) hfollow)
    rwa [List.reverse_reverse] at this
  rw [hsaved, save_eq_ok_iff]
  refine ⟨_, place, ?_, hagain, ?_, ?_⟩
  · show (FileTree.put (.file s.toUTF8) place t).makeDirs [] (w.path l.parent) = .ok _
    cases htree : w.tree with
    | dir es =>
      rw [htree] at hmake
      exact FileTree.makeDirs_of_dirsKept ⟨es, rfl⟩ hmake (FileTree.dirsKept_put hfree _)
    | file content =>
      -- nothing but the top itself can be written
      rw [htree] at hmake
      cases FileTree.makeDirs_file hmake
      have hnil : w.path l = [] := by
        by_contra hne
        obtain ⟨es, hes⟩ := FileTree.dir_of_follow hne hfollow
        cases hes
      rw [path_parent_of_nil hnil]
      rfl
  · intro es hes
    rw [hself] at hes
    cases hes
  · rw [FileTree.put_put]

end World

end ImportAtlas
