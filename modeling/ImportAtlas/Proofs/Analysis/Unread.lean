import ImportAtlas.Proofs.Analysis.Run
import ImportAtlas.Proofs.Discovery.Selected
import ImportAtlas.Proofs.World.WellFormed

/-!
# Files that an analysis does not read

A file that no search of a subtree selects, or that is no valid UTF-8, leaves no trace in a report
except in the number of files. Two worlds that differ in such files only have the same files that
hold a text, in the same order and with the same categories, and a report is made from those alone.
-/

namespace ImportAtlas

namespace World

/-- The file in a place is selected by the search of one of the subtrees. -/
def Selects (w : World) (root : Location) (settings : AnalysisSettings) (place : List String) :
    Prop :=
  ∃ s ∈ settings.subtrees,
    ∃ l ∈ w.findFiles (root.append (Location.ofText s.path)) s.extensions settings.exclude,
      w.tree.locate (w.path l) = .ok place

instance (w : World) (root : Location) (settings : AnalysisSettings) (place : List String) :
    Decidable (w.Selects root settings place) :=
  inferInstanceAs (Decidable (∃ s ∈ settings.subtrees, ∃ l ∈ w.findFiles _ _ _, _))

/-- If there is a file in a place, it is not selected, or it is no text. -/
def Unread (w : World) (root : Location) (settings : AnalysisSettings) (place : List String) :
    Prop :=
  ∀ content ∈ w.tree.file? place, ¬w.Selects root settings place ∨ ¬content.IsValidUTF8

instance (w : World) (root : Location) (settings : AnalysisSettings) (place : List String) :
    Decidable (w.Unread root settings place) :=
  inferInstanceAs (Decidable (∀ content ∈ w.tree.file? place, _))

/-- Two worlds at the same time and with the same working directory that differ in unread files
only. A directory may be missing in one of them, but not one that the path of a subtree leaves by
`..`: without it the path leads nowhere. Directories may list their entries in any order, but what
both worlds list they list in one order. -/
structure DifferUnread (w₁ w₂ : World) (root : Location) (settings : AnalysisSettings) : Prop where
  here : w₁.here = w₂.here
  now : w₁.now = w₂.now
  files : ∀ place, w₁.tree.file? place ≠ w₂.tree.file? place →
    w₁.Unread root settings place ∧ w₂.Unread root settings place
  ways : ∀ s ∈ settings.subtrees, ∀ q,
    q ++ [".."] <+: w₁.path (root.append (Location.ofText s.path)) →
      (w₁.tree.HasDir q ↔ w₂.tree.HasDir q)
  order : w₁.tree.SameOrder w₂.tree

variable {w w₁ w₂ : World} {root directory l : Location} {settings : AnalysisSettings}
variable {extensions exclude : List String}

theorem DifferUnread.symm (h : DifferUnread w₁ w₂ root settings) :
    DifferUnread w₂ w₁ root settings where
  here := h.here.symm
  now := h.now.symm
  files := fun place hne => (h.files place hne.symm).symm
  ways := fun s hs q hq => (h.ways s hs q (path_eq_of_here h.here _ ▸ hq)).symm
  order := h.order.symm

/-! ## The texts of a search -/

/-- The files of a search that hold a text, with the text. -/
def textsBelow (w : World) (directory : Location) (extensions exclude : List String) :
    List (Location × String) :=
  (w.findFiles directory extensions exclude).filterMap fun l => (w.text? l).map fun text => (l, text)

theorem text?_eq_some {text : String} :
    w.text? l = some text ↔ ∃ content s, w.find l = .ok (.file content) ∧
      String.fromUTF8? content = some s ∧ String.ofList (Text.unifyLineEnds s.toList) = text := by
  unfold text?
  split
  · next content hfind =>
    simp only [Option.map_eq_some_iff]
    constructor
    · rintro ⟨s, hs, htext⟩
      exact ⟨content, s, hfind, hs, htext⟩
    · rintro ⟨c, s, hc, hs, htext⟩
      cases hfind.symm.trans hc
      exact ⟨s, hs, htext⟩
  · next h =>
    refine iff_of_false nofun ?_
    rintro ⟨content, s, hfind, -⟩
    exact h content hfind

theorem mem_textsBelow {text : String} :
    (l, text) ∈ w.textsBelow directory extensions exclude ↔
      l ∈ w.findFiles directory extensions exclude ∧ w.text? l = some text := by
  rw [textsBelow, List.mem_filterMap]
  constructor
  · rintro ⟨l', hl', h⟩
    obtain ⟨t, ht, heq⟩ := Option.map_eq_some_iff.1 h
    cases heq
    exact ⟨hl', ht⟩
  · rintro ⟨hl, ht⟩
    exact ⟨l, hl, by rw [ht]; rfl⟩

/-- A file that is selected and valid UTF-8 is the same in both worlds. -/
theorem DifferUnread.file?_eq (h : DifferUnread w₁ w₂ root settings) {place : List String}
    {content : ByteArray} (hfile : w₁.tree.file? place = some content)
    (hselected : w₁.Selects root settings place) (hvalid : content.IsValidUTF8) :
    w₂.tree.file? place = some content := by
  by_contra hne
  have hunread := (h.files place (by rw [hfile]; exact Ne.symm hne)).1
  rcases hunread content hfile with hnot | hnot
  · exact hnot hselected
  · exact hnot hvalid

/-- What holds a text in the search of a subtree does so in a world that differs in unread files. -/
theorem DifferUnread.mem_textsBelow (h : DifferUnread w₁ w₂ root settings)
    (h₁ : w₁.tree.WellFormed) (h₂ : w₂.tree.WellFormed) {s : Subtree}
    (hs : s ∈ settings.subtrees) {f : Location × String}
    (hf : f ∈ w₁.textsBelow (root.append (Location.ofText s.path)) s.extensions settings.exclude) :
    f ∈ w₂.textsBelow (root.append (Location.ofText s.path)) s.extensions settings.exclude := by
  obtain ⟨l, text⟩ := f
  obtain ⟨hfound, htext⟩ := World.mem_textsBelow.1 hf
  obtain ⟨place, path, content, hplace, hcontent, hallowed, hl⟩ :=
    (mem_findFiles h₁.distinct).1 hfound
  have hlocate₁ : w₁.tree.locate (w₁.path l) = .ok (place ++ path) := by
    rw [hl, path_below]
    exact FileTree.locate_below h₁ hplace hcontent
  obtain ⟨c, t, hc, ht, htext'⟩ := text?_eq_some.1 htext
  obtain rfl : c = content := by
    have hfile : w₁.find l = .ok (.file content) :=
      FileTree.find_eq_ok_iff.2 ⟨_, hlocate₁, hcontent⟩
    cases hfile.symm.trans hc
    rfl
  have hvalid : c.IsValidUTF8 := by
    by_contra hnot
    rw [String.fromUTF8?, dif_neg hnot] at ht
    cases ht
  have hcontent₂ : w₂.tree.get? (place ++ path) = some (.file c) :=
    FileTree.file?_eq_some.1 (h.file?_eq (FileTree.file?_eq_some.2 hcontent)
      ⟨s, hs, l, hfound, hlocate₁⟩ hvalid)
  -- the path of the subtree leads to the same place, for there is a file below it
  obtain ⟨entries, hdir, -⟩ := exists_dir_above hallowed.ne_nil hcontent₂
  have hplace₂ : w₂.tree.locate (w₂.path (root.append (Location.ofText s.path))) = .ok place := by
    rw [← path_eq_of_here h.here]
    exact FileTree.locate_transfer (fun q hq => (h.ways s hs q hq).1) hplace hdir
  have hlocate₂ : w₂.tree.locate (w₂.path l) = .ok (place ++ path) := by
    rw [hl, path_below]
    exact FileTree.locate_below h₂ hplace₂ hcontent₂
  refine World.mem_textsBelow.2 ⟨?_, text?_eq_some.2 ⟨c, t, ?_, ht, htext'⟩⟩
  · exact (mem_findFiles h₂.distinct).2 ⟨place, path, c, hplace₂, hcontent₂, hallowed, hl⟩
  · exact FileTree.find_eq_ok_iff.2 ⟨_, hlocate₂, hcontent₂⟩

/-- What holds a text is the same in both searches and stands in one order. -/
theorem DifferUnread.textsBelow_eq (h : DifferUnread w₁ w₂ root settings)
    (h₁ : w₁.tree.WellFormed) (h₂ : w₂.tree.WellFormed) {s : Subtree}
    (hs : s ∈ settings.subtrees) :
    w₁.textsBelow (root.append (Location.ofText s.path)) s.extensions settings.exclude =
      w₂.textsBelow (root.append (Location.ofText s.path)) s.extensions settings.exclude := by
  have hmem (w : World) (l : Location) (f : Location × String) :
      (l ∈ w.findFiles (root.append (Location.ofText s.path)) s.extensions settings.exclude ∧
        (w.text? l).map (fun text => (l, text)) = some f) ↔ f.1 = l ∧
          f ∈ w.textsBelow (root.append (Location.ofText s.path)) s.extensions settings.exclude := by
    obtain ⟨l', text⟩ := f
    rw [World.mem_textsBelow]
    constructor
    · rintro ⟨hl, htext⟩
      obtain ⟨t, ht, heq⟩ := Option.map_eq_some_iff.1 htext
      cases heq
      exact ⟨rfl, hl, ht⟩
    · rintro ⟨rfl, hl, ht⟩
      exact ⟨hl, by rw [ht]; rfl⟩
  refine filterMap_findFiles_eq h.here h₁.distinct h₂.distinct h.order.orderKept fun l f => ?_
  rw [hmem, hmem]
  exact and_congr_right fun _ => ⟨h.mem_textsBelow h₁ h₂ hs, h.symm.mem_textsBelow h₂ h₁ hs⟩

end World

/-! ## The texts of a discovery -/

namespace Discovery

/-- Adds the texts whose locations are not there yet. -/
def addTexts (category : String) (texts : List (Location × String × String))
    (found : List (Location × String)) : List (Location × String × String) :=
  found.foldl
    (fun texts f => if texts.any (·.1 = f.1) then texts else texts ++ [(f.1, category, f.2)]) texts

theorem any_texts {w : World} {files : List (Location × String)} {l : Location} {text : String}
    (h : w.text? l = some text) : (w.texts files).any (·.1 = l) = files.any (·.1 = l) := by
  rw [Bool.eq_iff_iff]
  simp only [World.texts, List.any_eq_true, List.mem_filterMap, Option.map_eq_some_iff,
    decide_eq_true_eq]
  constructor
  · rintro ⟨_, ⟨f, hf, t, -, rfl⟩, rfl⟩
    exact ⟨f, hf, rfl⟩
  · rintro ⟨f, hf, rfl⟩
    exact ⟨_, ⟨f, hf, text, h, rfl⟩, rfl⟩

/-- A file without a text can be added or not: the texts are those of the files that have one. -/
theorem texts_addFiles (w : World) (category : String) (files : List (Location × String))
    (found : List Location) :
    w.texts (addFiles category files found) =
      addTexts category (w.texts files)
        (found.filterMap fun l => (w.text? l).map fun text => (l, text)) := by
  induction found generalizing files with
  | nil => rfl
  | cons l found ih =>
    have hstep : addFiles category files (l :: found) =
        addFiles category (if files.any (·.1 = l) then files else files ++ [(l, category)]) found :=
      rfl
    rw [hstep, ih, List.filterMap_cons]
    cases htext : w.text? l with
    | none =>
      have hsame : w.texts (if files.any (·.1 = l) then files else files ++ [(l, category)]) =
          w.texts files := by
        split
        · rfl
        · simp [World.texts, htext]
      rw [hsame]
      rfl
    | some text =>
      rw [Option.map_some, addTexts, addTexts, List.foldl_cons, any_texts htext]
      split
      · rfl
      · simp [World.texts, htext]

/-- The texts of a discovery come from the texts of its searches alone. -/
theorem texts_run {w : World} {root : Location} {exclude : List String} {subtrees : List Subtree}
    {found : Subtree → List (Location × String)}
    (h : ∀ s ∈ subtrees,
      w.textsBelow (root.append (Location.ofText s.path)) s.extensions exclude = found s)
    (d : Discovery) :
    (subtrees.foldlM (addSubtree w root exclude) d).map (fun d => w.texts d.files) =
      subtrees.foldlM (fun texts s => do
        let _ ← s.label.toKey
        return addTexts s.category texts (found s)) (w.texts d.files) := by
  induction subtrees generalizing d with
  | nil => rfl
  | cons s subtrees ih =>
    obtain ⟨hs, hrest⟩ := List.forall_mem_cons.1 h
    rw [List.foldlM_cons, List.foldlM_cons, addSubtree]
    cases s.label.toKey with
    | error f => rfl
    | ok label =>
      rw [← hs, World.textsBelow, ← texts_addFiles]
      exact ih hrest _

end Discovery

/-! ## Reports -/

/-- The report without the number of files. -/
def Report.withoutTotal (r : Report String) : Report String :=
  { r with summary := { r.summary with totalFiles := 0 } }

namespace Analysis

variable {w₁ w₂ : World} {root : Location} {settings : AnalysisSettings}

theorem texts_eq_of_differUnread (h : World.DifferUnread w₁ w₂ root settings)
    (h₁ : w₁.tree.WellFormed) (h₂ : w₂.tree.WellFormed) :
    (Discovery.run w₁ root settings.subtrees settings.exclude).map (fun d => w₁.texts d.files) =
      (Discovery.run w₂ root settings.subtrees settings.exclude).map
        (fun d => w₂.texts d.files) := by
  rw [Discovery.run, Discovery.run, Discovery.texts_run fun s hs => h.textsBelow_eq h₁ h₂ hs,
    Discovery.texts_run fun s _ => rfl]
  rfl

/-- The report of a run is made from the texts and the time. -/
theorem run_withoutTotal (w : World) (root : Location) (settings : AnalysisSettings)
    (sink : Option MemorySink) :
    (run w root settings sink false).map (fun found => found.1.report.withoutTotal) =
      match (Discovery.run w root settings.subtrees settings.exclude).map
          (fun d => w.texts d.files), w.timestamp with
      | .ok texts, .ok timestamp =>
        .ok (reportOn root settings timestamp 0 (texts.map (ofFile w root settings)))
      | .error f, _ => .error (.fault f)
      | _, .error f => .error (.fault f) := by
  unfold run examine
  cases Discovery.run w root settings.subtrees settings.exclude with
  | error f => rfl
  | ok d =>
    cases w.timestamp with
    | error f => rfl
    | ok timestamp =>
      dsimp only [bind, Except.bind, pure, Except.pure, Except.map]
      rw [files_eq]
      rfl

/-- Files that are not selected or are no texts leave no trace in a report but in the number of
files. -/
theorem run_differUnread (w₁ w₂ : World) (root : Location) (settings : AnalysisSettings)
    (sink : Option MemorySink) (h₁ : w₁.tree.WellFormed) (h₂ : w₂.tree.WellFormed)
    (h : World.DifferUnread w₁ w₂ root settings) :
    (run w₁ root settings sink false).map (fun found => found.1.report.withoutTotal) =
      (run w₂ root settings sink false).map (fun found => found.1.report.withoutTotal) := by
  have htime : w₁.timestamp = w₂.timestamp := by rw [World.timestamp, World.timestamp, h.now]
  have hfile : ofFile w₁ root settings = ofFile w₂ root settings := by
    funext f
    rw [ofFile, ofFile, h.here]
  rw [run_withoutTotal, run_withoutTotal, texts_eq_of_differUnread h h₁ h₂, htime, hfile]

/-- A project with a type and a file that imports it. -/
def plainProject : World :=
  (World.empty ⟨1, ["p"]⟩ ⟨1, ["home"]⟩ ⟨0, 0⟩)
    |>.put "/p/src/lib/a.ts" "import \x7b T \x7d from '../types/t'\nexport const a = 1\n".toUTF8
    |>.put "/p/src/types/t.ts" "export type T = string\n".toUTF8

theorem plainProject_wellFormed : plainProject.tree.WellFormed :=
  World.wellFormed_put (World.wellFormed_put (World.wellFormed_empty _ (by decide) (by decide)) _ _)
    _ _

def sourceZ : FileTree :=
  .file "import \x7b a \x7d from './a'\nimport \x7b T \x7d from '../types/t'\n".toUTF8

def sourceA : FileTree := .file "import './z'\nexport const a = 1\n".toUTF8

/-- A project whose directories list their entries out of order, two source files among them. -/
def jumbledProject (lib top : List (String × FileTree)) : World where
  tree := .dir [("p", .dir (top ++ [("src", .dir [
    ("types", .dir [("t.ts", .file "export type T = string\n".toUTF8)]), ("lib", .dir lib)])])),
    ("home", .dir [])]
  here := ⟨1, ["p"]⟩
  home := ⟨1, ["home"]⟩
  now := ⟨0, 0⟩
  settingsFile := none

def jumbledSources : World := jumbledProject [("z.ts", sourceZ), ("a.ts", sourceA)] []

/-- The same project with a file that is no text, one with another extension, one under an excluded
name and one outside the subtrees, listed before and between the sources. -/
def litteredSources : World := jumbledProject
  [("b.ts", .file ⟨#[0xff, 0xfe]⟩), ("z.ts", sourceZ), ("notes.md", .file "import './a'\n".toUTF8),
    ("node_modules", .dir [("c.ts", .file "export const c = 1\n".toUTF8)]), ("a.ts", sourceA)]
  [("build", .dir [("d.ts", .file "import '../src/lib/a'\n".toUTF8)])]

theorem jumbledSources_wellFormed : jumbledSources.tree.WellFormed := by
  simp [jumbledSources, jumbledProject, sourceZ, sourceA, FileTree.wellFormed_dir,
    FileTree.wellFormed_file]

theorem litteredSources_wellFormed : litteredSources.tree.WellFormed := by
  simp [litteredSources, jumbledProject, sourceZ, sourceA, FileTree.wellFormed_dir,
    FileTree.wellFormed_file]

theorem jumbledSources_sameOrder : jumbledSources.tree.SameOrder litteredSources.tree := by
  -- a directory of files, whatever it is compared with
  have hfiles {es fs : List (String × FileTree)} (h : FileTree.shared es fs = FileTree.shared fs es)
      (files : ∀ e ∈ es, ∃ content, e.2 = .file content) :
      FileTree.SameOrder (.dir es) (.dir fs) := by
    refine .dir h fun e he u _ => ?_
    obtain ⟨content, hcontent⟩ := files e he
    rw [hcontent]
    exact FileTree.sameOrder_file_left content u
  refine .dir (by decide +kernel) (List.forall_mem_cons.2 ⟨?_, List.forall_mem_singleton.2 ?_⟩)
  · rintro u ⟨⟩
    refine .dir (by decide +kernel) (List.forall_mem_singleton.2 ?_)
    rintro u ⟨⟩
    refine .dir (by decide +kernel) (List.forall_mem_cons.2 ⟨?_, List.forall_mem_singleton.2 ?_⟩)
    · rintro u ⟨⟩
      exact hfiles rfl (List.forall_mem_singleton.2 ⟨_, rfl⟩)
    · rintro u ⟨⟩
      exact hfiles (by decide +kernel)
        (List.forall_mem_cons.2 ⟨⟨_, rfl⟩, List.forall_mem_singleton.2 ⟨_, rfl⟩⟩)
  · rintro u ⟨⟩
    exact hfiles rfl (by simp)

theorem jumbledSources_littered :
    World.DifferUnread jumbledSources litteredSources ⟨1, ["p"]⟩ Settings.default.analysis ∧
    (run jumbledSources ⟨1, ["p"]⟩ Settings.default.analysis none false).map
        (fun found => found.1.report.withoutTotal) =
      (run litteredSources ⟨1, ["p"]⟩ Settings.default.analysis none false).map
        (fun found => found.1.report.withoutTotal) ∧
    ((run jumbledSources ⟨1, ["p"]⟩ Settings.default.analysis none false).toOption.map
        fun found => (found.1.report.nodes.map (·.name), found.1.report.summary.totalFiles)) =
      some (["t.ts", "z.ts", "a.ts"], 3) ∧
    ((run litteredSources ⟨1, ["p"]⟩ Settings.default.analysis none false).toOption.map
        fun found => found.1.report.summary.totalFiles) = some 4 := by
  have hdiffer :
      World.DifferUnread jumbledSources litteredSources ⟨1, ["p"]⟩ Settings.default.analysis := by
    refine ⟨by decide +kernel, by decide +kernel, ?_, ?_, jumbledSources_sameOrder⟩
    · have hlisted : ∀ place ∈ (jumbledSources.tree.files ++ litteredSources.tree.files).map (·.1),
          jumbledSources.tree.file? place ≠ litteredSources.tree.file? place →
            jumbledSources.Unread ⟨1, ["p"]⟩ Settings.default.analysis place ∧
              litteredSources.Unread ⟨1, ["p"]⟩ Settings.default.analysis place := by
        decide +kernel
      refine fun place hne => hlisted place ?_ hne
      rw [List.map_append, List.mem_append]
      by_contra hnone
      obtain ⟨h₁, h₂⟩ := not_or.1 hnone
      have habsent {t : FileTree} (h : place ∉ t.files.map (·.1)) : t.file? place = none :=
        Option.eq_none_iff_forall_ne_some.2 fun content hfile =>
          h (List.mem_map_of_mem (FileTree.mem_files hfile))
      exact hne ((habsent h₁).trans (habsent h₂).symm)
    · intro s hs q hq
      have hnone : ∀ s ∈ Settings.default.analysis.subtrees,
          ".." ∉ jumbledSources.path (Location.append ⟨1, ["p"]⟩ (Location.ofText s.path)) := by
        decide +kernel
      exact absurd (hq.subset (by simp)) (hnone s hs)
  refine ⟨hdiffer, ?_, by decide +kernel, by decide +kernel⟩
  exact run_differUnread _ _ _ _ _ jumbledSources_wellFormed litteredSources_wellFormed hdiffer

end Analysis

end ImportAtlas
