import ImportAtlas.Proofs.Analysis.Unread
import ImportAtlas.Proofs.Discovery.Placed
import ImportAtlas.Proofs.Memory.Repeated
import ImportAtlas.Proofs.Report.Stored
import ImportAtlas.Proofs.World.Grown
import Mathlib.Data.List.Infix

/-!
# Running an analysis again

An analysis leaves a report, perhaps a memory, and the directories around them. If no subtree takes
files with the extensions of those two, a second analysis finds what the first one found, saves what
is there and publishes what was published, so it changes nothing; also if the memory could not be
published. Only a directory that the first analysis made can get in the way: a path that leaves it by
`..` led nowhere before.
-/

namespace ImportAtlas

namespace World

variable {w w' : World} {directory l : Location} {extensions exclude : List String}
  {places : List (List String)}

/-! ## Searching a tree that has grown -/

theorem find_below (hw : w.tree.WellFormed) {place path : List String} {content : ByteArray}
    (hplace : w.tree.locate (w.path directory) = .ok place)
    (hcontent : w.tree.get? (place ++ path) = some (.file content)) :
    w.find ⟨directory.root, directory.parts ++ path⟩ = .ok (.file content) := by
  refine FileTree.find_eq_ok_iff.2 ⟨place ++ path, ?_, hcontent⟩
  rw [path_below]
  exact FileTree.locate_below hw hplace hcontent

section Grown

variable (hw : w.tree.WellFormed) (hw' : w'.tree.WellFormed) (here : w'.here = w.here)
  (grown : FileTree.Grown places w.tree w'.tree)
  (names : ∀ place ∈ places, ∀ name, place.getLast? = some name →
    (Path.splitExtension name).2 ∉ extensions)

include grown names in
/-- A file that a search looks for is the same in both trees. -/
theorem file?_of_allowed {place path : List String} (h : Allowed extensions exclude path) :
    w'.tree.file? (place ++ path) = w.tree.file? (place ++ path) := by
  refine grown.files _ fun hmem => ?_
  obtain ⟨-, name, hlast, hext⟩ := h
  exact names _ hmem name (by rw [List.getLast?_append, hlast]; rfl) hext

include hw hw' here grown names

/-- What a search found it finds again. -/
theorem mem_findFiles_of_grown (h : l ∈ w.findFiles directory extensions exclude) :
    l ∈ w'.findFiles directory extensions exclude ∧ w'.find l = w.find l := by
  obtain ⟨place, path, content, hplace, hcontent, hallowed, rfl⟩ := (mem_findFiles hw.distinct).1 h
  have hcontent' : w'.tree.get? (place ++ path) = some (.file content) := by
    rw [← FileTree.file?_eq_some, file?_of_allowed grown names hallowed, FileTree.file?_eq_some]
    exact hcontent
  have hplace' : w'.tree.locate (w'.path directory) = .ok place := by
    rw [path_eq_of_here here]
    exact FileTree.locate_of_dirsKept grown.dirs hplace
  refine ⟨(mem_findFiles hw'.distinct).2 ⟨place, path, content, hplace', hcontent', hallowed, rfl⟩,
    ?_⟩
  rw [find_below hw hplace hcontent, find_below hw' hplace' hcontent']

/-- What a search finds it found before, if the path to it leaves no new directory by `..`. -/
theorem mem_findFiles_before
    (ways : ∀ q, q ++ [".."] <+: w.path directory → w'.tree.HasDir q → w.tree.HasDir q)
    (h : l ∈ w'.findFiles directory extensions exclude) :
    l ∈ w.findFiles directory extensions exclude := by
  obtain ⟨place, path, content, hplace', hcontent', hallowed, rfl⟩ :=
    (mem_findFiles hw'.distinct).1 h
  have hcontent : w.tree.get? (place ++ path) = some (.file content) := by
    rw [← FileTree.file?_eq_some, ← file?_of_allowed grown names hallowed, FileTree.file?_eq_some]
    exact hcontent'
  obtain ⟨entries, hdir, -⟩ := exists_dir_above hallowed.ne_nil hcontent
  rw [path_eq_of_here here] at hplace'
  have hplace : w.tree.locate (w.path directory) = .ok place :=
    FileTree.locate_transfer ways hplace' hdir
  exact (mem_findFiles hw.distinct).2 ⟨place, path, content, hplace, hcontent, hallowed, rfl⟩

theorem findFiles_of_grown
    (ways : ∀ q, q ++ [".."] <+: w.path directory → w'.tree.HasDir q → w.tree.HasDir q) :
    w'.findFiles directory extensions exclude = w.findFiles directory extensions exclude := by
  have hsame : (w.findFiles directory extensions exclude).filterMap some =
      (w'.findFiles directory extensions exclude).filterMap some := by
    refine filterMap_findFiles_eq here.symm hw.distinct hw'.distinct grown.dirs.orderKept ?_
    exact fun l _ => and_congr_left fun _ =>
      ⟨fun h => (mem_findFiles_of_grown hw hw' here grown names h).1,
        mem_findFiles_before hw hw' here grown names ways⟩
  rw [List.filterMap_some, List.filterMap_some] at hsame
  exact hsame.symm

end Grown

end World

/-! ## Examining it -/

theorem Discovery.run_congr {w w' : World} {root : Location} {exclude : List String}
    {subtrees : List Subtree}
    (h : ∀ s ∈ subtrees, w'.findFiles (root.append (Location.ofText s.path)) s.extensions exclude =
      w.findFiles (root.append (Location.ofText s.path)) s.extensions exclude) :
    run w' root subtrees exclude = run w root subtrees exclude := by
  unfold run
  generalize (⟨[], []⟩ : Discovery) = d
  induction subtrees generalizing d with
  | nil => rw [List.foldlM_nil, List.foldlM_nil]
  | cons s subtrees ih =>
    obtain ⟨hs, hrest⟩ := List.forall_mem_cons.1 h
    have hstep : addSubtree w' root exclude d s = addSubtree w root exclude d s := by
      rw [addSubtree, addSubtree, hs]
    rw [List.foldlM_cons, List.foldlM_cons, hstep]
    exact bind_congr fun d => ih hrest d

namespace Analysis

variable {w w' : World} {root : Location} {settings : AnalysisSettings} {found : AnalysisRun}
  {places : List (List String)}

/-- The analysis of a world that has grown by files that no subtree takes. -/
theorem examine_of_grown (hw : w.tree.WellFormed) (hw' : w'.tree.WellFormed)
    (here : w'.here = w.here) (now : w'.now = w.now)
    (grown : FileTree.Grown places w.tree w'.tree)
    (names : ∀ s ∈ settings.subtrees, ∀ place ∈ places, ∀ name, place.getLast? = some name →
      (Path.splitExtension name).2 ∉ s.extensions)
    (ways : ∀ s ∈ settings.subtrees, ∀ q,
      q ++ [".."] <+: w.path (root.append (Location.ofText s.path)) →
        w'.tree.HasDir q → w.tree.HasDir q) :
    examine w' root settings = examine w root settings := by
  have hrun : Discovery.run w' root settings.subtrees settings.exclude =
      Discovery.run w root settings.subtrees settings.exclude :=
    Discovery.run_congr fun s hs =>
      World.findFiles_of_grown hw hw' here grown (names s hs) (ways s hs)
  have htime : w'.timestamp = w.timestamp := by rw [World.timestamp, World.timestamp, now]
  simp only [examine, hrun, htime]
  cases hd : Discovery.run w root settings.subtrees settings.exclude with
  | error f => simp only [bind, Except.bind]
  | ok d =>
    have hfiles : files w' root settings d = files w root settings d := by
      refine List.filterMap_congr fun f hf => ?_
      obtain ⟨s, hs, hfound, -⟩ := Discovery.fromSubtree_run hd f hf
      have hfind := (World.mem_findFiles_of_grown hw hw' here grown (names s hs) hfound).2
      show file? w' root settings f.2 f.1 = file? w root settings f.2 f.1
      rw [file?_eq, file?_eq, World.text?, World.text?, hfind]
      simp only [ofFile, here]
    simp only [bind, Except.bind, hfiles]

/-! ## Handing it over -/

/-- What becomes of a memory: it is published, it cannot be read, or it cannot be written, whatever
the text. -/
theorem publish_cases (s : MemorySink) (r : Report String) (w : World) :
    (∃ m, Memory.load w s.location = .ok m ∧
        w.save s.location ((Projection.exact s.limit (Report.ofTexts r)).into m).text =
          .ok (publish (some s) r w)) ∨
      publish (some s) r w = w ∨
      (publish (some s) r w = w.dirsMade s.location.parent ∧
        ∀ text w', w.save s.location text ≠ .ok w') := by
  unfold publish
  dsimp only
  cases hpublish : Memory.publish s.location s.limit (Report.ofTexts r) w with
  | ok w' => exact .inl (Memory.publish_eq_ok_iff.1 hpublish)
  | error e =>
    unfold Memory.afterFailure
    dsimp only
    cases hload : Memory.load w s.location with
    | error e => exact .inr (.inl rfl)
    | ok m =>
      refine .inr (.inr ⟨rfl, fun text w' hsave => ?_⟩)
      obtain ⟨u, hu⟩ := World.exists_save_of_save hsave
        ((Projection.exact s.limit (Report.ofTexts r)).into m).text
      rw [Memory.publish_eq_ok_iff.2 ⟨m, hload, hu⟩] at hpublish
      cases hpublish

/-- A memory that cannot be written cannot be written with its directories made. -/
theorem publish_dirsMade {s : MemorySink} {r : Report String} (top : w.tree.isDir = true)
    (h : ∀ text w', w.save s.location text ≠ .ok w') :
    publish (some s) r (w.dirsMade s.location.parent) = w.dirsMade s.location.parent := by
  rcases publish_cases s r (w.dirsMade s.location.parent) with ⟨m, -, hsave⟩ | hsame | ⟨hmade, -⟩
  · rw [World.save_dirsMade top] at hsave
    exact absurd hsave (h _ _)
  · exact hsame
  · refine hmade.trans ?_
    have hagain := (FileTree.dirsMade_again (w.path s.location.parent)
      (FileTree.get?_nil_of_isDir top)).2
    unfold World.path at hagain
    simp only [World.dirsMade, World.path, hagain]

/-- Where the report is, its directory is. So if a memory is written in the report's place and its
path leaves no new directory by `..`, no directory is made for it. -/
theorem makeDirs_of_same_place {w₁ : World} {l : Location} {place : List String} {text : String}
    (top : w₁.tree.isDir = true) {content : ByteArray}
    (report : w₁.tree.get? place = some (.file content))
    (same : (FileTree.lead [] (w₁.path l)).reverse = place) (h : w₁.save l text = .ok w')
    (ways : ∀ q, q ++ [".."] <+: w₁.path l → w'.tree.HasDir q → w₁.tree.HasDir q) :
    w' = { w₁ with tree := .put (.file text.toUTF8) place w₁.tree } := by
  obtain ⟨t, place', hmake, hplace, hfree, rfl⟩ := World.save_eq_ok_iff.1 h
  obtain ⟨here, hhere, -, hlast, hname⟩ := World.locate_parent top hmake hplace hfree
  have hpath : w₁.path l = w₁.path l.parent ++ [l.name] := World.path_eq_parent w₁ hlast
  obtain rfl : place' = place := by
    rw [← same, ← FileTree.follow_eq_lead (FileTree.locate_eq_ok_iff.1 hplace),
      List.reverse_reverse]
  obtain ⟨es, hes⟩ := FileTree.dir_of_get?_concat (Option.isSome_of_mem (hname ▸ report))
  -- what the path of the directory leaves was there before it was made
  have hbefore : w₁.tree.locate (w₁.path l.parent) = .ok here := by
    refine FileTree.locate_transfer (fun q hq hdir => ways q ?_ ?_) hhere hes
    · rw [hpath]
      exact hq.trans (List.prefix_append _ _)
    · exact hdir.of_dirsKept (FileTree.dirsKept_put hfree _)
  have hdir : w₁.tree.get? here.reverse.reverse = some (.dir es) := by
    rw [List.reverse_reverse]
    exact hes
  obtain ⟨last, hstep⟩ := FileTree.exists_follow_name ⟨es, hdir⟩ l.name
  have hmade : w₁.tree.makeDirs [] (w₁.path l.parent) = .ok w₁.tree :=
    FileTree.makeDirs_of_follow
      (FileTree.follow_append (FileTree.locate_eq_ok_iff.1 hbefore) hdir hstep)
  cases hmade.symm.trans hmake
  rfl

/-- An analysis that saved its report and, with or without success, published it can be run again at
the same time: it finds the same, and nothing in the world changes. No subtree takes files with the
extension of the report or of the memory, and no directory that was made is one that the path of a
subtree leaves by `..`, nor the path of the memory if that leads to the report. -/
theorem run_again_unchanged (w w' : World) (root : Location) (settings : AnalysisSettings)
    (sink : MemorySink) (found : AnalysisRun) (hw : w.tree.WellFormed) (top : w.tree.isDir = true)
    (outputs : ∀ s ∈ settings.subtrees,
      (Path.splitExtension (reportLocation root settings).name).2 ∉ s.extensions ∧
        (Path.splitExtension sink.location.name).2 ∉ s.extensions)
    (h : run w root settings (some sink) true = .ok (found, w'))
    (ways : ∀ s ∈ settings.subtrees, ∀ q,
      q ++ [".."] <+: w.path (root.append (Location.ofText s.path)) →
        w'.tree.HasDir q → w.tree.HasDir q)
    (apart : FileTree.lead [] (w.path (reportLocation root settings)) =
        FileTree.lead [] (w.path sink.location) →
      ∀ q, q ++ [".."] <+: w.path sink.location → w'.tree.HasDir q → w.tree.HasDir q) :
    run w' root settings (some sink) true = .ok (found, w') := by
  obtain ⟨found₀, w₁, hexamine, hsave, rfl, hpublished⟩ := run_eq_ok_iff.1 h
  obtain ⟨hwritable, hsave⟩ := ReportStore.save_eq_ok_iff.1 hsave
  obtain ⟨place, hsaved⟩ := World.exists_saved top hsave
  have hw₁ : w₁.tree.WellFormed := World.wellFormed_save hw hsave
  have top₁ : w₁.tree.isDir = true := FileTree.isDir_of_dirsKept hsaved.grown.dirs top
  have hhere₁ : w₁.here = w.here := by rw [hsaved.rest]
  have hnow₁ : w₁.now = w.now := by rw [hsaved.rest]
  -- the second run: it examines the project as it is now, saves the report and publishes it
  have hagain {places : List (List String)} {w₂ : World} (hw' : w'.tree.WellFormed)
      (hhere : w'.here = w₁.here) (hnow : w'.now = w₁.now)
      (hgrown : FileTree.Grown places w₁.tree w'.tree)
      (hnames : ∀ p ∈ places, p.getLast? = some sink.location.name)
      (hsave' : w'.save (reportLocation root settings)
        (Report.ofTexts found₀.report).toJson.pretty = .ok w₂)
      (hpublish : publish (some sink) found₀.report w₂ = w') :
      run w' root settings (some sink) true =
        .ok ({ found₀ with reportPath := some (reportLocation root settings) }, w') := by
    have hexamine' : examine w' root settings = .ok found₀ := by
      rw [← hexamine]
      refine examine_of_grown hw hw' (hhere.trans hhere₁) (hnow.trans hnow₁)
        (hsaved.grown.trans hgrown) (fun s hs p hp name hlast => ?_) ways
      rcases List.mem_append.1 hp with hp | hp
      · rw [List.mem_singleton.1 hp, hsaved.name] at hlast
        cases hlast
        exact (outputs s hs).1
      · rw [hnames p hp] at hlast
        cases hlast
        exact (outputs s hs).2
    exact run_eq_ok_iff.2 ⟨found₀, w₂, hexamine', ReportStore.save_eq_ok_iff.2 ⟨hwritable, hsave'⟩,
      rfl, hpublish.symm⟩
  rcases publish_cases sink found₀.report w₁ with ⟨m, hload, hpublish⟩ | hkept | ⟨hmade, hnever⟩
  · rw [← hpublished] at hpublish
    obtain ⟨place', hsaved'⟩ := World.exists_saved top₁ hpublish
    have hw' := World.wellFormed_save hw₁ hpublish
    have hhere : w'.here = w₁.here := by rw [hsaved'.rest]
    have hnow : w'.now = w₁.now := by rw [hsaved'.rest]
    have hnames : ∀ p ∈ [place'], p.getLast? = some sink.location.name :=
      List.forall_mem_singleton.2 hsaved'.name
    by_cases hsame : place' = place
    · -- the memory took the place of the report, and the report takes it back
      subst hsame
      have hpath : w₁.path sink.location = w.path sink.location := World.path_eq_of_here hhere₁ _
      have hlead : FileTree.lead [] (w.path (reportLocation root settings)) =
          FileTree.lead [] (w.path sink.location) := by
        rw [← List.reverse_inj, ← hsaved.lead, ← hpath, ← hsaved'.lead]
      have hplaced := makeDirs_of_same_place top₁ hsaved.file hsaved'.lead.symm hpublish
        fun q hq hdir => (apart hlead q (hpath ▸ hq) hdir).of_dirsKept hsaved.grown.dirs
      exact hagain hw' hhere hnow hsaved'.grown hnames
        (hsaved.save_back hplaced (by simp [hsaved'.file])) hpublished.symm
    · have hkept : place ∉ [place'] := by simpa using Ne.symm hsame
      refine hagain hw' hhere hnow hsaved'.grown hnames
        (hsaved.save_self (hhere.trans hhere₁) hsaved'.grown hkept) ?_
      rw [publish, Memory.publish_again hload hpublish]
  · obtain rfl : w' = w₁ := hpublished.trans hkept
    exact hagain hw₁ rfl rfl (.refl [] _) (by simp)
      (hsaved.save_self hhere₁ (.refl [] _) List.not_mem_nil) hkept
  · obtain rfl : w' = w₁.dirsMade sink.location.parent := hpublished.trans hmade
    have hgrown : FileTree.Grown [] w₁.tree (w₁.dirsMade sink.location.parent).tree :=
      FileTree.grown_dirsMade _ (FileTree.get?_nil_of_isDir top₁)
    have hw' : (w₁.dirsMade sink.location.parent).tree.WellFormed :=
      hw₁.dirsMade _ List.not_mem_nil
    exact hagain hw' rfl rfl hgrown (by simp)
      (hsaved.save_self hhere₁ hgrown List.not_mem_nil) (publish_dirsMade top₁ hnever)

/-- Settings that keep the report in a directory of its own and take one subtree by the given path. -/
def wanderingSettings (path : String) : AnalysisSettings where
  sourceRoot := "src"
  aliases := ["@/"]
  extensions := [".ts"]
  exclude := []
  reportPath := "out/report.json"
  subtrees := [⟨.str "lib", path, "utility", [".ts"]⟩]

/-- A memory beside the sources. -/
def besideSources : MemorySink := ⟨⟨1, ["p", "memory.jsonl"]⟩, 10⟩

theorem jumbledSources_run_again :
    ∃ found w', run jumbledSources ⟨1, ["p"]⟩ (wanderingSettings "src/types/../lib")
        (some besideSources) true = .ok (found, w') ∧
      found.report.summary.totalFiles = 2 ∧
      run w' ⟨1, ["p"]⟩ (wanderingSettings "src/types/../lib") (some besideSources) true =
        .ok (found, w') := by
  have htotal : (run jumbledSources ⟨1, ["p"]⟩ (wanderingSettings "src/types/../lib")
      (some besideSources) true).toOption.map (·.1.report.summary.totalFiles) = some 2 := by
    decide +kernel
  obtain ⟨⟨found, w'⟩, hfound, htwo⟩ := Option.map_eq_some_iff.1 htotal
  have hrun := toOption_eq_some_iff.1 hfound
  have hleft : ∀ s ∈ (wanderingSettings "src/types/../lib").subtrees,
      ∀ q ∈ (jumbledSources.path (Location.append ⟨1, ["p"]⟩ (Location.ofText s.path))).inits,
        q.getLast? = some ".." → jumbledSources.tree.HasDir q.dropLast := by
    decide +kernel
  have hways : ∀ s ∈ (wanderingSettings "src/types/../lib").subtrees, ∀ q,
      q ++ [".."] <+: jumbledSources.path (Location.append ⟨1, ["p"]⟩ (Location.ofText s.path)) →
        jumbledSources.tree.HasDir q := by
    intro s hs q hq
    have hdir := hleft s hs _ ((List.mem_inits _ _).2 hq) List.getLast?_concat
    rwa [List.dropLast_concat] at hdir
  refine ⟨found, w', hrun, htwo, ?_⟩
  exact run_again_unchanged _ _ _ _ _ _ jumbledSources_wellFormed (by decide +kernel)
    (by decide +kernel) hrun (fun s hs q hq _ => hways s hs q hq)
    (fun hlead => absurd hlead (by decide +kernel))

/-- The path of the subtree leaves the directory of the report. The first analysis makes it and finds
nothing; the second one finds a file. -/
theorem plainProject_found_late :
    let settings := wanderingSettings "out/../src/lib"
    plainProject.tree.WellFormed ∧ plainProject.tree.isDir = true ∧
    reportLocation ⟨1, ["p"]⟩ settings ≠ besideSources.location ∧
    (∀ s ∈ settings.subtrees,
      (Path.splitExtension (reportLocation ⟨1, ["p"]⟩ settings).name).2 ∉ s.extensions ∧
        (Path.splitExtension besideSources.location.name).2 ∉ s.extensions) ∧
    ∃ found w' found' w'',
      run plainProject ⟨1, ["p"]⟩ settings (some besideSources) true = .ok (found, w') ∧
      run w' ⟨1, ["p"]⟩ settings (some besideSources) true = .ok (found', w'') ∧
      w'.now = plainProject.now ∧
      found.report.summary.totalFiles = 0 ∧ found'.report.summary.totalFiles = 1 := by
  intro settings
  have htotals : ((run plainProject ⟨1, ["p"]⟩ settings (some besideSources) true).toOption.bind
      fun r => (run r.2 ⟨1, ["p"]⟩ settings (some besideSources) true).toOption.map fun r' =>
        (r.2.now, r.1.report.summary.totalFiles, r'.1.report.summary.totalFiles)) =
          some (plainProject.now, 0, 1) := by
    decide +kernel
  obtain ⟨⟨found, w'⟩, hfirst, hthen⟩ := Option.bind_eq_some_iff.1 htotals
  obtain ⟨⟨found', w''⟩, hsecond, hfound⟩ := Option.map_eq_some_iff.1 hthen
  simp only [Prod.mk.injEq] at hfound
  obtain ⟨hnow, hnone, hone⟩ := hfound
  refine ⟨plainProject_wellFormed, by decide +kernel, by decide +kernel, by decide +kernel, ?_⟩
  exact ⟨found, w', found', w'', toOption_eq_some_iff.1 hfirst, toOption_eq_some_iff.1 hsecond,
    hnow, hnone, hone⟩

end Analysis

end ImportAtlas
