import ImportAtlas.Analysis

/-!
# What an analysis does

An analysis discovers files, reads those that hold a text, and reports on them. Whether the report
is saved or published afterwards changes nothing in what was found.
-/

namespace ImportAtlas

namespace World

/-- The text of a file that is valid UTF-8, with line ends unified; none if there is no such file. -/
def text? (w : World) (l : Location) : Option String :=
  match w.find l with
  | .ok (.file content) =>
    (String.fromUTF8? content).map fun s => String.ofList (Text.unifyLineEnds s.toList)
  | _ => none

theorem toOption_readText (w : World) (l : Location) : (w.readText l).toOption = w.text? l := by
  unfold readText text?
  cases w.find l with
  | error e => rfl
  | ok t =>
    cases t with
    | dir entries => rfl
    | file content =>
      simp only [FileTree.decode, bind, Except.bind]
      cases String.fromUTF8? content <;> rfl

/-- The files among some that hold a text, each with its category and the text. -/
def texts (w : World) (files : List (Location × String)) : List (Location × String × String) :=
  files.filterMap fun f => (w.text? f.1).map fun text => (f.1, f.2, text)

end World

namespace Analysis

variable {w w' : World} {root : Location} {settings : AnalysisSettings} {found : AnalysisRun}

/-- The analysis of a file with the given category and text. -/
def ofFile (w : World) (root : Location) (settings : AnalysisSettings)
    (f : Location × String × String) : FileAnalysis String :=
  ofContent settings f.1.name (Location.relativeTo w.here root f.1) f.2.1 f.2.2

theorem file?_eq (w : World) (root : Location) (settings : AnalysisSettings) (category : String)
    (l : Location) :
    file? w root settings category l =
      (w.text? l).map fun text => ofFile w root settings (l, category, text) := by
  rw [← World.toOption_readText, file?]
  cases w.readText l <;> rfl

/-- The analyses are those of the files that hold a text, in the order of discovery. -/
theorem files_eq (w : World) (root : Location) (settings : AnalysisSettings) (d : Discovery) :
    files w root settings d = (w.texts d.files).map (ofFile w root settings) := by
  simp only [files, World.texts, List.map_filterMap, file?_eq, Option.map_map]
  rfl

/-- What an analysis without handing over gives. -/
theorem examine_eq_ok (h : examine w root settings = .ok found) :
    ∃ d timestamp, Discovery.run w root settings.subtrees settings.exclude = .ok d ∧
      w.timestamp = .ok timestamp ∧
      found = ⟨d, files w root settings d,
        reportOn root settings timestamp d.files.length (files w root settings d), none⟩ := by
  unfold examine at h
  cases hd : Discovery.run w root settings.subtrees settings.exclude with
  | error f => rw [hd] at h; cases h
  | ok d =>
    cases htime : w.timestamp with
    | error f => rw [hd, htime] at h; cases h
    | ok timestamp =>
      rw [hd, htime] at h
      cases h
      exact ⟨d, timestamp, rfl, rfl, rfl⟩

theorem report_of_examine (h : examine w root settings = .ok found) :
    ∃ timestamp, found.report =
      reportOn root settings timestamp found.discovery.files.length found.analyses := by
  obtain ⟨d, timestamp, -, -, rfl⟩ := examine_eq_ok h
  exact ⟨timestamp, rfl⟩

/-- Handing a report over changes nothing but where the report is. -/
theorem examine_of_run {sink : Option MemorySink} {persist : Bool}
    (h : run w root settings sink persist = .ok (found, w')) :
    examine w root settings = .ok { found with reportPath := none } := by
  unfold run at h
  split at h
  · cases h
  · next found₀ hfound =>
    have hnone : found₀ = { found₀ with reportPath := none } := by
      obtain ⟨d, timestamp, -, -, rfl⟩ := examine_eq_ok hfound
      rfl
    rw [hfound, hnone]
    dsimp only at h
    split at h
    · split at h
      · cases h
      · cases h
      · cases h
        rfl
    · cases h
      rfl

/-- An analysis examines the project, saves the report and publishes it. -/
theorem run_eq_ok_iff {sink : Option MemorySink} :
    run w root settings sink true = .ok (found, w') ↔ ∃ found₀ w₁,
      examine w root settings = .ok found₀ ∧
      ReportStore.save ⟨reportLocation root settings⟩ (Report.ofTexts found₀.report).toJson w =
        .ok w₁ ∧
      found = { found₀ with reportPath := some (reportLocation root settings) } ∧
      w' = publish sink found₀.report w₁ := by
  unfold run
  cases examine w root settings with
  | error f => simp
  | ok found₀ =>
    simp only [if_true, Except.ok.injEq, exists_and_left, exists_eq_left']
    cases ReportStore.save ⟨reportLocation root settings⟩ (Report.ofTexts found₀.report).toJson w with
    | error e => cases e <;> simp
    | ok w₁ => simp [Prod.ext_iff, eq_comm]

end Analysis

end ImportAtlas
