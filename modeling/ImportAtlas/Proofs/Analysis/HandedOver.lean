import ImportAtlas.Proofs.Analysis.Rerun

/-!
# Handing a report over

A report is saved and then published. Here both are programs that change the world act by act, and
that leave it as the last act left it when they fail. Publishing reads the memory, makes the
directories around it one by one, opens the file, which empties it, and writes the text. Each act
can fail, but a file that was opened can be written, so a failure comes before any file is touched.
`saving_eq` and `publishing_eq` say that the programs do what `ReportStore.save` and
`Memory.publish` say, and what they leave when they fail.
-/

namespace ImportAtlas

namespace FileTree

/-- A directory is found only below a top that is one. -/
theorem HasDir.top {t : FileTree} {path : List String} (h : t.HasDir path) : t.isDir = true := by
  obtain ⟨entries, hfind⟩ := h
  obtain ⟨place, -, hget⟩ := find_eq_ok_iff.1 hfind
  cases t with
  | dir es => rfl
  | file content => cases place <;> cases hget

/-- Below a file no directory is made. -/
theorem dirsMade_file (content : ByteArray) (here path : List String) :
    (file content).dirsMade here path = file content := by
  induction path generalizing here with
  | nil => rfl
  | cons name path ih =>
    have hnone : (file content).get? (here ++ [name]) = none := by
      cases here <;> rfl
    have hput : put (dir []) (here ++ [name]) (file content) = file content := by
      cases here <;> rfl
    unfold dirsMade
    split
    · exact ih here.dropLast
    · simp only [hnone, hput]
      exact ih (here ++ [name])

/-- Making directories changes no file, whatever is at the top. -/
theorem grown_dirsMade_top (t : FileTree) (path : List String) :
    Grown [] t (t.dirsMade [] path) := by
  cases t with
  | file content =>
    rw [dirsMade_file]
    exact .refl [] _
  | dir entries => exact grown_dirsMade path ⟨entries, rfl⟩

/-- Where a file was written another one can be, and it takes the place of the first. -/
theorem exists_write_of_write {t u : FileTree} {path : List String} {old : ByteArray}
    (h : t.write path old = .ok u) (new : ByteArray) :
    ∃ v, u.write path new = .ok v ∧ t.write path new = .ok v := by
  have hfind := find_write h
  obtain ⟨place, hplace, hfree, rfl⟩ := write_eq_ok_iff.1 h
  have hplace' : (put (file old) place t).locate path = .ok place :=
    locate_of_dirsKept (dirsKept_put hfree _) hplace
  have hfile : (put (file old) place t).get? place = some (file old) := by
    obtain ⟨place', hlocate, hget⟩ := find_eq_ok_iff.1 hfind
    cases hplace'.symm.trans hlocate
    exact hget
  refine ⟨_, write_eq_ok_iff.2 ⟨place, hplace', by simp [hfile], rfl⟩, ?_⟩
  rw [put_put]
  exact write_eq_ok_iff.2 ⟨place, hplace, hfree, rfl⟩

/-- Whether a file can be written does not depend on its content. -/
theorem write_eq_error {t : FileTree} {path : List String} {old : ByteArray} {e : FileError}
    (h : t.write path old = .error e) (new : ByteArray) : t.write path new = .error e := by
  unfold write at h ⊢
  cases hplace : t.locate path with
  | error e' => rw [hplace] at h; exact h
  | ok place =>
    rw [hplace] at h
    simp only [bind, Except.bind] at h ⊢
    split at h
    · exact h
    · cases h

end FileTree

namespace World

variable {w w' : World} {l : Location} {s : String} {ε α : Type}

/-! ## The bytes at a location -/

/-- The bytes of the file at a location; none if no file is there. -/
def bytes? (w : World) (l : Location) : Option ByteArray :=
  match w.find l with
  | .ok (.file content) => some content
  | _ => none

theorem bytes?_eq_some_iff {content : ByteArray} :
    w.bytes? l = some content ↔ w.find l = .ok (.file content) := by
  unfold bytes?
  cases w.find l with
  | error e => simp
  | ok t => cases t <;> simp

theorem bytes?_save (h : w.save l s = .ok w') : w'.bytes? l = some s.toUTF8 := by
  unfold save at h
  obtain ⟨w₁, -, hwrite⟩ := bind_eq_ok_iff.1 h
  exact bytes?_eq_some_iff.2 (find_writeText hwrite w'.now)

theorem bytes?_of_hasDir (h : w.tree.HasDir (w.path l)) : w.bytes? l = none := by
  obtain ⟨entries, hdir⟩ := h
  rw [bytes?, show w.find l = .ok (.dir entries) from hdir]

/-- A file that is there stays there while directories are made. -/
theorem bytes?_of_grown {content : ByteArray} (here : w'.here = w.here)
    (grown : FileTree.Grown [] w.tree w'.tree) (h : w.bytes? l = some content) :
    w'.bytes? l = some content := by
  obtain ⟨place, hplace, hfile⟩ := FileTree.find_eq_ok_iff.1 (bytes?_eq_some_iff.1 h)
  refine bytes?_eq_some_iff.2 (FileTree.find_eq_ok_iff.2 ⟨place, ?_, ?_⟩)
  · rw [path_eq_of_here here]
    exact FileTree.locate_of_dirsKept grown.dirs hplace
  · rw [← FileTree.file?_eq_some] at hfile ⊢
    rw [grown.files place List.not_mem_nil, hfile]

theorem grown_dirsMade (w : World) (l : Location) :
    FileTree.Grown [] w.tree (w.dirsMade l).tree :=
  FileTree.grown_dirsMade_top w.tree (w.path l)

theorem dirsMade_of_isDir_eq_false (h : w.tree.isDir = false) : w.dirsMade l = w := by
  obtain ⟨tree, here, home, now, settingsFile⟩ := w
  cases tree with
  | dir entries => cases h
  | file content => rw [dirsMade, FileTree.dirsMade_file]

/-- Where a text cannot be saved, the directories that are made for it bring no file to light. -/
theorem bytes?_dirsMade (h : ∀ w', w.save l s ≠ .ok w')
    (nameless : l.parts = [] → w.tree.HasDir (w.path l)) :
    (w.dirsMade l.parent).bytes? l = w.bytes? l := by
  cases hbefore : w.bytes? l with
  | some content => exact bytes?_of_grown (w := w) rfl (grown_dirsMade w l.parent) hbefore
  | none =>
    by_cases hparts : l.parts = []
    · exact bytes?_of_hasDir ((nameless hparts).of_dirsKept (grown_dirsMade w l.parent).dirs)
    · cases hafter : (w.dirsMade l.parent).bytes? l with
      | none => rfl
      | some content =>
        -- a file that is there can be saved anew, so the text could have been saved at once
        cases htop : w.tree.isDir with
        | true =>
          obtain ⟨w', hw'⟩ := exists_save_of_find hparts (bytes?_eq_some_iff.1 hafter) s
          rw [save_dirsMade htop] at hw'
          exact absurd hw' (h w')
        | false =>
          rw [dirsMade_of_isDir_eq_false htop, hbefore] at hafter
          cases hafter

/-- `w'` has the files of `w`, and no location has lost one. At `l` there is none that was not there
before. -/
structure Untouched (w : World) (l : Location) (w' : World) : Prop where
  files : ∀ place, w'.tree.file? place = w.tree.file? place
  kept : ∀ l content, w.bytes? l = some content → w'.bytes? l = some content
  same : w'.bytes? l = w.bytes? l

/-! ## Acts -/

/-- How a program ends: in the world that it gives, or with an error in the world that is left. -/
def outcome (result : Except ε World) (left : World) : EStateM.Result ε World Unit :=
  match result with
  | .ok w => .ok () w
  | .error e => .error e left

/-- The world in which a program ends. -/
def afterwards (result : EStateM.Result ε World α) : World :=
  match result with
  | .ok _ w => w
  | .error _ w => w

/-- Reads from the world. -/
def look (f : World → Except ε α) : EStateM ε World α := fun w =>
  match f w with
  | .ok a => .ok a w
  | .error e => .error e w

/-- One act: it is done, or it fails and the world is as before. -/
def act (f : World → Except ε World) : EStateM ε World Unit := fun w => outcome (f w) w

/-- Makes the directories of a path that are missing, each in an act of its own. -/
def makingDirs : List String → List String → EStateM FileError World Unit
  | _, [] => pure ()
  | here, name :: path => do
    if name = ".." then makingDirs here.dropLast path
    else
      let place := here ++ [name]
      match (← get).tree.get? place with
      | some (.dir _) => makingDirs place path
      | some (.file _) => throw (if path.isEmpty then .alreadyExists else .notADirectory)
      | none =>
        modify fun w => { w with tree := .put (.dir []) place w.tree }
        makingDirs place path

/-- Writes a file: it is opened, which empties it, and then the text is written. -/
def writing (l : Location) (s : String) : EStateM FileError World Unit := do
  act (·.writeText l "")
  act (·.writeText l s)

/-- Makes the directories around a location and writes a file there. -/
def saving (l : Location) (s : String) : EStateM FileError World Unit := do
  makingDirs [] ((← get).path l.parent)
  writing l s

theorem get_bind (f : World → EStateM ε World α) (w : World) : (get >>= f) w = f w w := rfl

theorem makingDirs_eq (here path : List String) (w : World) :
    makingDirs here path w =
      outcome ((w.tree.makeDirs here path).map fun t => { w with tree := t })
        { w with tree := w.tree.dirsMade here path } := by
  induction path generalizing here w with
  | nil => rfl
  | cons name path ih =>
    unfold makingDirs FileTree.makeDirs FileTree.dirsMade
    by_cases hup : name = ".."
    · simp only [hup, if_true]
      exact ih here.dropLast w
    · simp only [hup, if_false, get_bind]
      cases hget : w.tree.get? (here ++ [name]) with
      | none => exact ih (here ++ [name]) { w with tree := .put (.dir []) (here ++ [name]) w.tree }
      | some t =>
        cases t with
        | file content => rfl
        | dir entries => exact ih (here ++ [name]) w

/-- Writing fails only when the file is opened, and then nothing is changed. -/
theorem writing_eq (l : Location) (s : String) (w : World) :
    writing l s w = outcome (w.writeText l s) w := by
  unfold writing writeText
  simp only [bind, EStateM.bind, act]
  cases hopen : w.tree.write (w.path l) "".toUTF8 with
  | error e =>
    rw [FileTree.write_eq_error hopen s.toUTF8]
    rfl
  | ok t =>
    obtain ⟨u, hthen, honce⟩ := FileTree.exists_write_of_write hopen s.toUTF8
    rw [honce]
    show outcome (({ w with tree := t } : World).writeText l s) _ = .ok () { w with tree := u }
    rw [writeText_eq_ok_iff.2 ⟨u, hthen, rfl⟩]
    rfl

theorem saving_eq (l : Location) (s : String) (w : World) :
    saving l s w = outcome (w.save l s) (w.dirsMade l.parent) := by
  have hdirs := makingDirs_eq [] (w.path l.parent) w
  unfold saving save makeDirs dirsMade
  rw [get_bind]
  simp only [bind, EStateM.bind, hdirs]
  cases hmake : w.tree.makeDirs [] (w.path l.parent) with
  | error e => rfl
  | ok t =>
    rw [FileTree.dirsMade_of_makeDirs hmake]
    exact writing_eq l s { w with tree := t }

end World

open World

namespace ReportStore

/-- Saves a document as `save` does. -/
def saving (store : ReportStore) (document : Json) : EStateM SaveError World Unit := do
  (makingDirs [] ((← get).path store.location.parent)).adaptExcept .file
  if document.isWritable then
    (writing store.location document.pretty).adaptExcept .file
  else throw (.fault .badValue)

theorem saving_eq (store : ReportStore) (document : Json) (w : World) :
    store.saving document w =
      outcome (store.save document w) (w.dirsMade store.location.parent) := by
  have hdirs := makingDirs_eq [] (w.path store.location.parent) w
  unfold saving save World.makeDirs World.dirsMade
  rw [get_bind]
  simp only [bind, EStateM.bind, EStateM.adaptExcept, hdirs]
  cases hmake : w.tree.makeDirs [] (w.path store.location.parent) with
  | error e => rfl
  | ok t =>
    rw [FileTree.dirsMade_of_makeDirs hmake]
    by_cases hwritable : document.isWritable = true
    · simp only [hwritable, if_true]
      show EStateM.adaptExcept _ (writing _ _) ({ w with tree := t } : World) = _
      simp only [EStateM.adaptExcept, writing_eq, Except.bind, pure, Except.pure]
      cases ({ w with tree := t } : World).writeText store.location document.pretty <;> rfl
    · simp only [hwritable]
      rfl

end ReportStore

namespace Memory

/-- Publishes a report as `publish` does. -/
def publishing (sink : MemorySink) (r : Report Json) : EStateM PublishError World Unit := do
  let m ← look (load · sink.location)
  (World.saving sink.location ((Projection.exact sink.limit r).into m).text).adaptExcept .file

theorem publishing_eq (sink : MemorySink) (r : Report Json) (w : World) :
    publishing sink r w =
      outcome (publish sink.location sink.limit r w) (afterFailure sink.location w) := by
  unfold publishing publish afterFailure
  cases hload : load w sink.location with
  | error e => simp only [bind, EStateM.bind, look, hload]; rfl
  | ok m =>
    have hsave := World.saving_eq sink.location ((Projection.exact sink.limit r).into m).text w
    simp only [bind, EStateM.bind, look, hload, EStateM.adaptExcept, hsave, Except.bind]
    cases w.save sink.location ((Projection.exact sink.limit r).into m).text <;> rfl

theorem here_afterFailure (l : Location) (w : World) : (afterFailure l w).here = w.here := by
  unfold afterFailure
  cases load w l <;> rfl

theorem grown_afterFailure (l : Location) (w : World) :
    FileTree.Grown [] w.tree (afterFailure l w).tree := by
  unfold afterFailure
  cases load w l with
  | error e => exact .refl [] _
  | ok m => exact grown_dirsMade w l.parent

/-- A memory that could not be published is as it was: absent, or of the same bytes. -/
theorem bytes?_afterFailure {l : Location} {limit : Int} {r : Report Json} {w : World}
    {e : PublishError} (failed : publish l limit r w = .error e)
    (nameless : l.parts = [] → w.tree.HasDir (w.path l)) :
    (afterFailure l w).bytes? l = w.bytes? l := by
  unfold afterFailure
  cases hload : load w l with
  | error e => rfl
  | ok m =>
    refine bytes?_dirsMade (s := ((Projection.exact limit r).into m).text) ?_ nameless
    intro w' hsave
    rw [publish_eq_ok_iff.2 ⟨m, hload, hsave⟩] at failed
    cases failed

theorem untouched_afterFailure {l : Location} {limit : Int} {r : Report Json} {w : World}
    {e : PublishError} (failed : publish l limit r w = .error e)
    (nameless : l.parts = [] → w.tree.HasDir (w.path l)) : Untouched w l (afterFailure l w) where
  files place := (grown_afterFailure l w).files place List.not_mem_nil
  kept _ _ h := bytes?_of_grown (here_afterFailure l w) (grown_afterFailure l w) h
  same := bytes?_afterFailure failed nameless

end Memory

namespace Analysis

open Memory

variable {w w₁ : World} {store : ReportStore} {sink : MemorySink} {r : Report Json}

/-- Runs a program for what it does, whether it fails or not. -/
def attempt {ε δ : Type} (x : EStateM ε World Unit) : EStateM δ World Unit := fun w =>
  .ok () (afterwards (x w))

/-- Saves a report, if there is a store, and publishes it, if there is a memory. A report that
cannot be published is saved all the same. -/
def handOver (store : Option ReportStore) (sink : Option MemorySink) (r : Report Json) :
    EStateM SaveError World (Option Location) := do
  let saved ← store.mapM fun s => do
    s.saving r.toJson
    return s.location
  sink.forM fun s => attempt (publishing s r)
  return saved

theorem handOver_of_save (sink : Option MemorySink) (h : store.save r.toJson w = .ok w₁) :
    handOver (some store) sink r w =
      .ok (some store.location) (sink.elim w₁ fun s => afterwards (publishing s r w₁)) := by
  have hsaving : store.saving r.toJson w = .ok () w₁ := by rw [store.saving_eq, h]; rfl
  have hsaved : (some <$> do store.saving r.toJson; return store.location :
      EStateM SaveError World (Option Location)) w = .ok (some store.location) w₁ := by
    simp only [Functor.map, EStateM.map, bind, EStateM.bind, hsaving]
    rfl
  unfold handOver
  rw [Option.mapM_some]
  simp only [bind, EStateM.bind] at hsaved ⊢
  rw [hsaved]
  cases sink <;> rfl

theorem publish_eq_afterwards (sink : MemorySink) (r : Report String) (w : World) :
    publish (some sink) r w = afterwards (publishing sink (Report.ofTexts r) w) := by
  rw [publishing_eq, publish]
  cases Memory.publish sink.location sink.limit (Report.ofTexts r) w <;> rfl

/-- Saving loses no directory. -/
theorem hasDir_of_save {l : Location} (h : store.save r.toJson w = .ok w₁)
    (hdir : w.tree.HasDir (w.path l)) : w₁.tree.HasDir (w₁.path l) := by
  obtain ⟨-, hsave⟩ := ReportStore.save_eq_ok_iff.1 h
  obtain ⟨place, hsaved⟩ := World.exists_saved hdir.top hsave
  have hhere : w₁.here = w.here := by rw [hsaved.rest]
  rw [World.path_eq_of_here hhere]
  exact hdir.of_dirsKept hsaved.grown.dirs

/-- A report that cannot be published leaves every file as it was, and the memory absent or with the
bytes that it had. The report is saved all the same, with the text that it has without a memory, and
its location is returned, also by a whole analysis. A memory without a name would be the working
directory or the top, which has to be there. -/
theorem failed_publish_keeps_files (sink : MemorySink) (w : World)
    (nameless : sink.location.parts = [] → w.tree.HasDir (w.path sink.location)) :
    (∀ r e, Memory.publish sink.location sink.limit r w = .error e →
      ∃ w', publishing sink r w = .error e w' ∧ Untouched w sink.location w') ∧
    (∀ store r w₁ e, ReportStore.save store r.toJson w = .ok w₁ →
      Memory.publish sink.location sink.limit r w₁ = .error e →
      handOver (some store) none r w = .ok (some store.location) w₁ ∧
      w₁.bytes? store.location = some r.toJson.pretty.toUTF8 ∧
      ∃ w₂, handOver (some store) (some sink) r w = .ok (some store.location) w₂ ∧
        w₂.bytes? store.location = some r.toJson.pretty.toUTF8 ∧
        Untouched w₁ sink.location w₂) ∧
    ∀ root settings found w₁ e, run w root settings none true = .ok (found, w₁) →
      Memory.publish sink.location sink.limit (Report.ofTexts found.report) w₁ = .error e →
      ∃ w₂, run w root settings (some sink) true = .ok (found, w₂) ∧
        w₂.bytes? (reportLocation root settings) =
          some (Report.ofTexts found.report).toJson.pretty.toUTF8 ∧
        Untouched w₁ sink.location w₂ := by
  have hsaved {store : ReportStore} {r : Report Json} {w₁ : World} {e : PublishError}
      (hsave : store.save r.toJson w = .ok w₁)
      (hfailed : Memory.publish sink.location sink.limit r w₁ = .error e) :
      w₁.bytes? store.location = some r.toJson.pretty.toUTF8 ∧
        Untouched w₁ sink.location (afterFailure sink.location w₁) :=
    ⟨bytes?_save (ReportStore.save_eq_ok_iff.1 hsave).2,
      untouched_afterFailure hfailed fun h => hasDir_of_save hsave (nameless h)⟩
  refine ⟨?_, ?_, ?_⟩
  · intro r e hfailed
    refine ⟨_, ?_, untouched_afterFailure hfailed nameless⟩
    rw [publishing_eq, hfailed]
    rfl
  · intro store r w₁ e hsave hfailed
    obtain ⟨htext, huntouched⟩ := hsaved hsave hfailed
    refine ⟨handOver_of_save none hsave, htext, _, ?_, huntouched.kept _ _ htext, huntouched⟩
    rw [handOver_of_save (some sink) hsave, Option.elim_some, publishing_eq, hfailed]
    rfl
  · intro root settings found w₁ e hrun hfailed
    obtain ⟨found₀, w₁, hexamine, hsave, rfl, rfl⟩ := run_eq_ok_iff.1 hrun
    obtain ⟨htext, huntouched⟩ := hsaved hsave hfailed
    refine ⟨_, run_eq_ok_iff.2 ⟨found₀, w₁, hexamine, hsave, rfl, ?_⟩, huntouched.kept _ _ htext,
      huntouched⟩
    rw [publish_eq_afterwards, publishing_eq, hfailed]
    rfl

/-- A memory in the place of a directory, by a way through a directory that has to be made. -/
def blockedMemory : MemorySink := ⟨⟨1, ["p", "new", "..", "src"]⟩, 10⟩

theorem plainProject_unpublished :
    let settings := wanderingSettings "src/lib"
    let store : ReportStore := ⟨reportLocation ⟨1, ["p"]⟩ settings⟩
    ∃ found w₁, run plainProject ⟨1, ["p"]⟩ settings none true = .ok (found, w₁) ∧
      (∃ e w', publishing blockedMemory (Report.ofTexts found.report) plainProject = .error e w' ∧
        Untouched plainProject blockedMemory.location w') ∧
      (∃ w₂, handOver (some store) (some blockedMemory) (Report.ofTexts found.report) plainProject =
          .ok (some store.location) w₂ ∧
        w₂.bytes? store.location = some (Report.ofTexts found.report).toJson.pretty.toUTF8 ∧
        Untouched w₁ blockedMemory.location w₂) ∧
      ∃ w₂, run plainProject ⟨1, ["p"]⟩ settings (some blockedMemory) true = .ok (found, w₂) ∧
        w₂.bytes? store.location = some (Report.ofTexts found.report).toJson.pretty.toUTF8 ∧
        Untouched w₁ blockedMemory.location w₂ := by
  intro settings store
  have hfails : ((run plainProject ⟨1, ["p"]⟩ settings none true).toOption.map fun p =>
      [plainProject, p.2].all fun w => (Memory.publish blockedMemory.location blockedMemory.limit
        (Report.ofTexts p.1.report) w).toOption.isNone) = some true := by
    decide +kernel
  obtain ⟨⟨found, w₁⟩, hfound, hall⟩ := Option.map_eq_some_iff.1 hfails
  simp only [List.all_cons, List.all_nil, Bool.and_true, Bool.and_eq_true] at hall
  obtain ⟨e, hfailed⟩ := toOption_eq_none_iff.1 (Option.isNone_iff_eq_none.1 hall.1)
  obtain ⟨e₁, hfailed₁⟩ := toOption_eq_none_iff.1 (Option.isNone_iff_eq_none.1 hall.2)
  have hrun := toOption_eq_some_iff.1 hfound
  obtain ⟨found₀, w₀, -, hsave, rfl, rfl⟩ := run_eq_ok_iff.1 hrun
  obtain ⟨hpublish, hhandOver, hanalysis⟩ :=
    failed_publish_keeps_files blockedMemory plainProject fun h => absurd h (by decide)
  obtain ⟨w', hleft, huntouched⟩ := hpublish _ e hfailed
  obtain ⟨-, -, hhanded⟩ := hhandOver store _ _ e₁ hsave hfailed₁
  exact ⟨_, _, hrun, ⟨e, w', hleft, huntouched⟩, hhanded, hanalysis _ _ _ _ e₁ hrun hfailed₁⟩

end Analysis

end ImportAtlas
