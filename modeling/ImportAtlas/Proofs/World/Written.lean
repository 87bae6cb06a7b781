import ImportAtlas.Proofs.Text
import ImportAtlas.Proofs.World.Listings

/-!
# What is written is found

Writing a file leaves every directory a directory, so the path that led to the place of the file
leads there afterwards, also when it goes back up. A text without carriage returns is read as it was
written.
-/

namespace ImportAtlas

namespace FileTree

/-- Whatever is found below a place makes that place a directory. -/
theorem dir_of_get?_concat {t : FileTree} {p : List String} {name : String}
    (h : (t.get? (p ++ [name])).isSome) : ∃ entries, t.get? p = some (dir entries) := by
  rw [get?_append] at h
  cases hp : t.get? p with
  | none => rw [hp] at h; cases h
  | some u =>
    cases u with
    | file content => rw [hp] at h; cases h
    | dir entries => exact ⟨entries, rfl⟩

/-! ## Putting a tree in a place -/

/-- A place into which a tree can be put: the top, or an entry of a directory. The names of the
place stand innermost first. -/
def HasParent (top : FileTree) (place : List String) : Prop :=
  place = [] ∨ ∃ entries, top.get? place.tail.reverse = some (dir entries)

theorem get?_put_concat (new : FileTree) {t : FileTree} {p : List String} {name : String}
    {entries : List (String × FileTree)} (h : t.get? p = some (dir entries)) :
    (put new (p ++ [name]) t).get? (p ++ [name]) = some new := by
  induction p generalizing t with
  | nil =>
    cases h
    simp [put, get?, entry?, lookup_setEntry]
  | cons a p ih =>
    cases t with
    | file content => cases h
    | dir es =>
      obtain ⟨u, hu, hp⟩ := Option.bind_eq_some_iff.1 h
      have hu : es.lookup a = some u := hu
      simp [put, get?, entry?, lookup_setEntry, hu, ih hp]

theorem get?_put_self (new : FileTree) {top : FileTree} {place : List String}
    (h : top.HasParent place) :
    (put new place.reverse top).get? place.reverse = some new := by
  cases place with
  | nil => rfl
  | cons name place =>
    rcases h with h | ⟨entries, h⟩
    · cases h
    · rw [List.reverse_cons]
      exact get?_put_concat new h

/-- Every directory of a tree is one of another, and what it lists is listed there in the same
order. -/
def DirsKept (t u : FileTree) : Prop :=
  ∀ place es, t.get? place = some (dir es) →
    ∃ fs, u.get? place = some (dir fs) ∧ (es.map (·.1)).Sublist (fs.map (·.1))

theorem DirsKept.refl (t : FileTree) : t.DirsKept t := fun _ es h => ⟨es, h, .refl _⟩

theorem DirsKept.trans {t u v : FileTree} (h : t.DirsKept u) (h' : u.DirsKept v) :
    t.DirsKept v := by
  intro place es hes
  obtain ⟨fs, hfs, hsub⟩ := h place es hes
  obtain ⟨gs, hgs, hsub'⟩ := h' place fs hfs
  exact ⟨gs, hgs, hsub.trans hsub'⟩

theorem DirsKept.dir {t u : FileTree} (h : t.DirsKept u) {place : List String}
    (hplace : ∃ es, t.get? place = some (dir es)) : ∃ es, u.get? place = some (dir es) := by
  obtain ⟨es, hes⟩ := hplace
  obtain ⟨fs, hfs, -⟩ := h place es hes
  exact ⟨fs, hfs⟩

theorem DirsKept.orderKept {t u : FileTree} (h : t.DirsKept u) : OrderKept t u := by
  intro place es fs hes hfs a b hab _ _
  obtain ⟨gs, hgs, hsub⟩ := h place es hes
  cases hfs.symm.trans hgs
  exact hab.trans hsub

/-- Putting a tree where no directory is loses no directory. -/
theorem dirsKept_put {top : FileTree} {p : List String} (free : ∀ es, top.get? p ≠ some (dir es))
    (new : FileTree) : top.DirsKept (put new p top) := by
  intro q entries h
  induction p generalizing top q with
  | nil =>
    cases top with
    | dir es => exact absurd rfl (free es)
    | file content => cases q <;> cases h
  | cons a p ih =>
    cases top with
    | file content => exact ⟨entries, h, .refl _⟩
    | dir es =>
      cases q with
      | nil =>
        cases h
        exact ⟨_, rfl, sublist_setEntry a _ entries⟩
      | cons b q =>
        obtain ⟨u, hu, hq⟩ := Option.bind_eq_some_iff.1 h
        have hu : es.lookup b = some u := hu
        by_cases hb : b = a
        · -- the two paths go the same way, so the place is free below this entry too
          subst hb
          have hfree : ∀ es, u.get? p ≠ some (dir es) := by
            intro es' hp
            exact free es' (Option.bind_eq_some_iff.2 ⟨u, hu, hp⟩)
          obtain ⟨entries', hget, hsub⟩ := ih hfree q hq
          refine ⟨entries', ?_, hsub⟩
          simp [put, get?, entry?, lookup_setEntry, hu, hget]
        · refine ⟨entries, ?_, .refl _⟩
          simp [put, get?, entry?, lookup_setEntry, hb, hu, hq]

/-! ## Following a path -/

/-- A step along a path: out of the directory, into an entry, or to the place of an entry that is
not there, which ends the path. -/
theorem follow_cons_eq_ok_iff {top : FileTree} {here path place : List String} {name : String} :
    follow top here (name :: path) = .ok place ↔
      ∃ entries, top.get? here.reverse = some (dir entries) ∧
        ((name = ".." ∧ follow top here.tail path = .ok place) ∨
          (name ≠ ".." ∧ (entries.lookup name).isSome ∧ follow top (name :: here) path = .ok place) ∨
          (name ≠ ".." ∧ entries.lookup name = none ∧ path = [] ∧ place = name :: here)) := by
  conv => lhs; unfold follow
  cases hget : top.get? here.reverse with
  | none => simp
  | some t =>
    cases t with
    | file content => simp
    | dir entries =>
      simp only [Option.some.injEq, dir.injEq, exists_eq_left']
      by_cases hup : name = ".."
      · simp [hup]
      · cases hname : entries.lookup name with
        | some t => simp [hup]
        | none =>
          cases path with
          | nil => simp [hup, eq_comm]
          | cons n path => simp [hup]

theorem hasParent_follow {top : FileTree} {here path place : List String}
    (h : top.HasParent here) (hfollow : follow top here path = .ok place) :
    top.HasParent place := by
  induction path generalizing here with
  | nil => cases hfollow; exact h
  | cons name path ih =>
    obtain ⟨entries, hdir, ⟨-, hout⟩ | ⟨-, -, hin⟩ | ⟨-, -, -, rfl⟩⟩ :=
      follow_cons_eq_ok_iff.1 hfollow
    · refine ih ?_ hout
      cases here with
      | nil => exact .inl rfl
      | cons a here =>
        cases here with
        | nil => exact .inl rfl
        | cons b here =>
          rw [List.reverse_cons] at hdir
          obtain ⟨es, hb⟩ := dir_of_get?_concat (Option.isSome_of_mem hdir)
          rw [List.reverse_cons] at hb
          exact .inr (dir_of_get?_concat (Option.isSome_of_mem hb))
    · have hnext : top.HasParent (name :: here) := .inr ⟨entries, hdir⟩
      exact ih hnext hin
    · exact .inr ⟨entries, hdir⟩

theorem dir_of_follow {top : FileTree} {here path place : List String} (hne : path ≠ [])
    (h : follow top here path = .ok place) : ∃ es, top.get? here.reverse = some (dir es) := by
  cases path with
  | nil => exact absurd rfl hne
  | cons name path =>
    obtain ⟨es, hes, -⟩ := follow_cons_eq_ok_iff.1 h
    exact ⟨es, hes⟩

/-- A path leads where it led as long as no directory is lost. -/
theorem follow_of_dirsKept {t u : FileTree} (h : t.DirsKept u) {here path place : List String}
    (hfollow : follow t here path = .ok place) : follow u here path = .ok place := by
  induction path generalizing here with
  | nil => exact hfollow
  | cons name path ih =>
    obtain ⟨es, hes, hstep⟩ := follow_cons_eq_ok_iff.1 hfollow
    obtain ⟨es', hes'⟩ := h.dir ⟨es, hes⟩
    refine follow_cons_eq_ok_iff.2 ⟨es', hes', ?_⟩
    rcases hstep with ⟨hup, hout⟩ | ⟨hup, -, hin⟩ | ⟨hup, -, rfl, rfl⟩
    · exact .inl ⟨hup, ih hout⟩
    · cases hname : es'.lookup name with
      | some v => exact .inr (.inl ⟨hup, rfl, ih hin⟩)
      | none =>
        -- the name ends the path, for otherwise it is that of a directory
        cases path with
        | nil => exact .inr (.inr ⟨hup, rfl, rfl, (Except.ok.inj hin).symm⟩)
        | cons n path =>
          obtain ⟨es'', hes''⟩ := h.dir (dir_of_follow (List.cons_ne_nil n path) hin)
          rw [List.reverse_cons, get?_concat hes', hname] at hes''
          cases hes''
    · cases hname : es'.lookup name with
      | some v => exact .inr (.inl ⟨hup, rfl, rfl⟩)
      | none => exact .inr (.inr ⟨hup, rfl, rfl, rfl⟩)

/-- The way to a place where something was put leads there afterwards. -/
theorem follow_put (new : FileTree) {top : FileTree} {here path place : List String}
    (free : ∀ es, top.get? place.reverse ≠ some (dir es))
    (hfollow : follow top here path = .ok place) :
    follow (put new place.reverse top) here path = .ok place :=
  follow_of_dirsKept (dirsKept_put free new) hfollow

/-- A file that was written is found under its path. -/
theorem find_write {top top' : FileTree} {path : List String} {content : ByteArray}
    (h : top.write path content = .ok top') : top'.find path = .ok (file content) := by
  unfold write locate at h
  cases hfollow : follow top [] path with
  | error e => rw [hfollow] at h; cases h
  | ok place =>
    rw [hfollow] at h
    simp only [Except.map, bind, Except.bind] at h
    split at h
    · cases h
    · next hfree =>
      cases h
      have hparent : top.HasParent place := hasParent_follow (.inl rfl) hfollow
      unfold find locate
      rw [follow_put _ (fun es hes => hfree es hes) hfollow]
      simp only [Except.map, bind, Except.bind, get?_put_self _ hparent]
      rfl

/-! ## Texts -/

theorem decode_toUTF8 {s : String} (h : '\r' ∉ s.toList) :
    decode s.toUTF8 = .ok s := by
  have hutf8 : String.fromUTF8? s.toUTF8 = some s := by
    exact dif_pos s.isValidUTF8
  rw [decode, hutf8]
  simp only [Text.unifyLineEnds_of_notMem h, String.ofList_toList]

end FileTree

namespace World

/-- What was written at a location is found there, at any later time. -/
theorem find_writeText {w w' : World} {l : Location} {s : String} (h : w.writeText l s = .ok w')
    (now : Moment) : { w' with now := now }.find l = .ok (.file s.toUTF8) := by
  unfold writeText at h
  cases hwrite : w.tree.write (w.path l) s.toUTF8 with
  | error e => rw [hwrite] at h; cases h
  | ok tree =>
    rw [hwrite] at h
    cases h
    exact FileTree.find_write hwrite

theorem readText_eq_ok_iff {w : World} {l : Location} {text : String} :
    w.readText l = .ok text ↔
      ∃ content, w.find l = .ok (.file content) ∧ FileTree.decode content = .ok text := by
  unfold readText
  cases w.find l with
  | error e => simp [bind, Except.bind]
  | ok tree =>
    cases tree with
    | dir entries => simp [bind, Except.bind, throw, throwThe, MonadExceptOf.throw]
    | file content =>
      simp only [bind, Except.bind, Except.ok.injEq, FileTree.file.injEq, exists_eq_left']
      cases FileTree.decode content <;>
        simp [pure, Except.pure, throw, throwThe, MonadExceptOf.throw]

/-- A text without carriage returns that was saved is read. -/
theorem readText_save {w w' : World} {l : Location} {s : String} (h : w.save l s = .ok w')
    (plain : '\r' ∉ s.toList) : w'.readText l = .ok s := by
  unfold save at h
  cases hmake : w.makeDirs l.parent with
  | error e =>
    rw [hmake] at h
    cases h
  | ok w₁ =>
    rw [hmake] at h
    exact readText_eq_ok_iff.2
      ⟨_, find_writeText (w := w₁) h w'.now, FileTree.decode_toUTF8 plain⟩

end World

end ImportAtlas
