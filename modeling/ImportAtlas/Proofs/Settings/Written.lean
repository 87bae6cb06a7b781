import ImportAtlas.Proofs.Decimal.Value
import ImportAtlas.Proofs.Settings.Entries
import ImportAtlas.Proofs.Settings.Given
import ImportAtlas.Proofs.World.Written
import ImportAtlas.Settings.File

/-!
# Settings that are read as they were written

The text of settings (`document`) is read as these settings again if all that stands in it can be
written as it is (`Writable`), which the default settings can. So settings that were written into a
file are the settings that the file gives.
-/

namespace ImportAtlas

open Toml (Entry Verbatim Listed)

/-- A text that is not empty and can stand between quotes as it is. -/
def Settings.Plain (s : String) : Prop := s ≠ "" ∧ ∀ c ∈ s.toList, Verbatim c

structure Subtree.Writable (b : Subtree) : Prop where
  label : ∃ l, b.label = .str l ∧ Settings.Plain l
  path : Settings.Plain b.path
  category : Settings.Plain b.category
  extensions : ∀ e ∈ b.extensions, Listed e.toList

namespace Settings

/-- A number that is read in the form in which it is kept. -/
inductive Form.Writable : Form → Number → Prop
  | whole {n : Nat} (short : (Nat.toDigits 10 n).length ≤ Number.digitLimit) :
    Form.Writable .whole (.int n)
  | double {x : Float} (unsigned : Toml.Unsigned x) : Form.Writable .double (.float x)

/-- Settings whose text gives them back. There has to be a subtree: without one the text names none,
and then the default subtrees apply. -/
structure Writable (s : Settings) : Prop where
  sourceRoot : Plain s.analysis.sourceRoot
  aliases : ∀ a ∈ s.analysis.aliases, Listed a.toList
  extensions : ∀ e ∈ s.analysis.extensions, Listed e.toList
  exclude : ∀ e ∈ s.analysis.exclude, Listed e.toList
  reportPath : Plain s.analysis.reportPath
  nonempty : s.analysis.subtrees ≠ []
  subtrees : ∀ b ∈ s.analysis.subtrees, b.Writable
  thresholds : ∀ l ∈ Limit.all, l.form.Writable (l.get s.thresholds)

/-! ## Entries -/

def textEntry (key value : String) : Entry := ⟨key, '"' :: (value.toList ++ ['"']), .str value⟩

def listEntry (key : String) (values : List String) : Entry :=
  ⟨key, Toml.listChars (values.map String.toList), texts values⟩

def numberEntry (key : String) (n : Number) : Entry := ⟨key, n.text.toList, .num n⟩

def analysisEntries (a : AnalysisSettings) : List Entry :=
  [textEntry "source_root" a.sourceRoot, listEntry "alias_prefixes" a.aliases,
    listEntry "extensions" a.extensions, listEntry "exclude" a.exclude,
    textEntry "report_path" a.reportPath]

def subtreeEntries (b : Subtree) : List Entry :=
  [textEntry "label" (labelText b.label), textEntry "path" b.path,
    textEntry "category" b.category, listEntry "extensions" b.extensions]

def limitEntries (t : Gate.Thresholds) : List Entry :=
  Limit.all.map fun l => numberEntry l.key (l.get t)

theorem sound_textEntry {key value : String} (hkey : Toml.BareName key.toList)
    (h : ∀ c ∈ value.toList, Verbatim c) : (textEntry key value).Sound where
  bare := hkey
  reads := by
    have hreads := Toml.reads_quoted h
    rwa [String.ofList_toList] at hreads

theorem sound_listEntry {key : String} {values : List String} (hkey : Toml.BareName key.toList)
    (h : ∀ v ∈ values, Listed v.toList) : (listEntry key values).Sound where
  bare := hkey
  reads := by
    have hreads := Toml.reads_listChars (List.forall_mem_map.2 h)
    simp only [List.map_map, Function.comp_def, String.ofList_toList] at hreads
    exact hreads

theorem sound_numberEntry {key : String} {form : Form} {n : Number}
    (hkey : Toml.BareName key.toList) (h : form.Writable n) : (numberEntry key n).Sound where
  bare := hkey
  reads := by
    cases h with
    | whole short =>
      have htext (n : Nat) : (Number.int n).text.toList = Nat.toDigits 10 n := by
        simp [Number.text, Int.toString_eq_repr, Int.repr_eq_if]
      rw [numberEntry, htext]
      exact Toml.reads_toDigits short
    | double unsigned => exact Toml.reads_exactText unsigned

theorem bareName_of_all {key : List Char} (h : (!key.isEmpty && key.all Toml.isBareName) = true) :
    Toml.BareName key := by
  rw [Bool.and_eq_true, List.all_eq_true] at h
  exact ⟨by simpa using h.1, h.2⟩

theorem soundAll_analysisEntries {s : Settings} (h : s.Writable) :
    Toml.SoundAll (analysisEntries s.analysis) where
  sound := by
    simp only [analysisEntries, List.forall_mem_cons]
    exact ⟨sound_textEntry (bareName_of_all rfl) h.sourceRoot.2,
      sound_listEntry (bareName_of_all rfl) h.aliases,
      sound_listEntry (bareName_of_all rfl) h.extensions,
      sound_listEntry (bareName_of_all rfl) h.exclude,
      sound_textEntry (bareName_of_all rfl) h.reportPath.2, List.forall_mem_nil _⟩
  keys := show ["source_root", "alias_prefixes", "extensions", "exclude", "report_path"].Nodup by
    decide

theorem soundAll_subtreeEntries {b : Subtree} (h : b.Writable) :
    Toml.SoundAll (subtreeEntries b) where
  sound := by
    obtain ⟨l, hlabel, hl⟩ := h.label
    simp only [subtreeEntries, List.forall_mem_cons, hlabel]
    exact ⟨sound_textEntry (bareName_of_all rfl) hl.2,
      sound_textEntry (bareName_of_all rfl) h.path.2,
      sound_textEntry (bareName_of_all rfl) h.category.2,
      sound_listEntry (bareName_of_all rfl) h.extensions, List.forall_mem_nil _⟩
  keys := show ["label", "path", "category", "extensions"].Nodup by decide

theorem soundAll_parts {s : Settings} (h : s.Writable) :
    ∀ es ∈ s.analysis.subtrees.map subtreeEntries, Toml.SoundAll es :=
  List.forall_mem_map.2 fun b hb => soundAll_subtreeEntries (h.subtrees b hb)

theorem soundAll_limitEntries {s : Settings} (h : s.Writable) :
    Toml.SoundAll (limitEntries s.thresholds) where
  sound := by
    intro e he
    obtain ⟨l, hl, rfl⟩ := List.mem_map.1 he
    have hkeys : ∀ l ∈ Limit.all, Toml.BareName l.key.toList := by
      simp only [Limit.all, List.forall_mem_cons]
      exact ⟨bareName_of_all rfl, bareName_of_all rfl, bareName_of_all rfl, bareName_of_all rfl,
        List.forall_mem_nil _⟩
    exact sound_numberEntry (hkeys l hl) (h.thresholds l hl)
  keys := show ["cycles_threshold", "unused_threshold", "max_avg_imports_per_file",
    "stale_hours"].Nodup by decide

/-! ## Documents -/

theorem toList_textLine (key value : String) :
    (key ++ " = " ++ quoted value).toList = (textEntry key value).line := by
  simp [textEntry, Entry.line, quoted]

theorem toList_listText (ss : List String) :
    (listText ss).toList = Toml.listChars (ss.map String.toList) := by
  have hitems (s : String) (ss : List String) :
      ' ' :: (String.intercalate " " ((s :: ss).map fun s => quoted s ++ ",")).toList =
        (s :: ss).flatMap fun s => Toml.listItem s.toList ++ [','] := by
    induction ss generalizing s with
    | nil => simp [quoted]
    | cons t ss ih =>
      rw [List.map_cons, List.map_cons, String.intercalate_cons_cons, List.flatMap_cons, ← ih t]
      simp [quoted]
  cases ss with
  | nil => rfl
  | cons s ss =>
    have hlist : (listText (s :: ss)).toList = '[' :: (' ' ::
        (String.intercalate " " ((s :: ss).map fun s => quoted s ++ ",")).toList ++ [']']) := by
      simp [listText]
    rw [hlist, hitems, List.map_cons, Toml.listChars, ← List.map_cons, List.flatMap_map]

theorem toList_listLine (key : String) (values : List String) :
    (key ++ " = " ++ listText values).toList = (listEntry key values).line := by
  simp [listEntry, Entry.line, toList_listText]

theorem toList_numberLine (key : String) (n : Number) :
    (key ++ " = " ++ n.text).toList = (numberEntry key n).line := by
  simp [numberEntry, Entry.line]

theorem toList_subtreeLines (b : Subtree) :
    (subtreeLines b).map String.toList = Toml.partLines (subtreeEntries b) := by
  simp only [subtreeEntries, Toml.partLines, List.map_cons, List.map_nil, ← toList_textLine,
    ← toList_listLine]
  rfl

theorem toList_document (s : Settings) :
    s.document.toList =
      (Toml.documentLines (analysisEntries s.analysis) (s.analysis.subtrees.map subtreeEntries)
        (limitEntries s.thresholds)).flatMap (· ++ ['\n']) := by
  let a := s.analysis
  let t := s.thresholds
  let first := ["[analysis]", "source_root = " ++ quoted a.sourceRoot,
    "alias_prefixes = " ++ listText a.aliases, "extensions = " ++ listText a.extensions,
    "exclude = " ++ listText a.exclude, "report_path = " ++ quoted a.reportPath]
  let last := ["[validation]", "cycles_threshold = " ++ t.cycles.text,
    "unused_threshold = " ++ t.unused.text, "max_avg_imports_per_file = " ++ t.averageImports.text,
    "stale_hours = " ++ t.staleHours.text]
  have hfirst : first.map String.toList =
      "[analysis]".toList :: (analysisEntries a).map Entry.line := by
    simp only [analysisEntries, List.map_cons, List.map_nil, ← toList_textLine, ← toList_listLine]
    rfl
  have hlast : last.map String.toList =
      "[validation]".toList :: (limitEntries t).map Entry.line := by
    simp only [limitEntries, Limit.all, List.map_cons, List.map_nil, ← toList_numberLine]
    rfl
  have hdocument : s.document =
      String.intercalate "\n" (first ++ a.subtrees.flatMap subtreeLines ++ last) ++ "\n" := by
    rw [← Text.intercalate_concat_empty (by simp [first]), List.append_assoc _ last]
    rfl
  rw [hdocument, Text.toList_intercalate (by simp [first]), List.map_append, List.map_append,
    hfirst, hlast, List.map_flatMap, Toml.documentLines, List.flatMap_map]
  simp only [toList_subtreeLines]
  rfl

/-- What stands under `analysis`. -/
def analysisTable (a : AnalysisSettings) : Table :=
  (analysisEntries a).map Entry.member ++
    [("subtrees", .arr (a.subtrees.map fun b => .obj ((subtreeEntries b).map Entry.member)))]

def limitTable (t : Gate.Thresholds) : Table := (limitEntries t).map Entry.member

section Reading

variable {s : Settings}

/-- The text of settings is read as its two tables. -/
theorem parse_document (h : s.Writable) :
    Toml.parse s.document =
      .ok [("analysis", .obj (analysisTable s.analysis)),
        ("validation", .obj (limitTable s.thresholds))] := by
  have fresh : "subtrees" ∉ (analysisEntries s.analysis).map Entry.key :=
    show "subtrees" ∉ ["source_root", "alias_prefixes", "extensions", "exclude", "report_path"] by
      decide
  rw [Toml.parse_documentLines (soundAll_analysisEntries h) (soundAll_parts h)
    (soundAll_limitEntries h) fresh (toList_document s), Toml.subtreeMember,
    if_neg (by simpa using h.nonempty), List.map_map]
  rfl

theorem return_notMem_document (h : s.Writable) : '\r' ∉ s.document.toList := by
  rw [toList_document]
  exact Toml.return_notMem_documentLines (soundAll_analysisEntries h) (soundAll_parts h)
    (soundAll_limitEntries h)

theorem givesSubtree_entries {b : Subtree} (h : b.Writable) :
    GivesSubtree ((subtreeEntries b).map Entry.member) b where
  path := ⟨.inl rfl, h.path.1⟩
  category := ⟨.inl rfl, h.category.1⟩
  extensions := .inl rfl
  label := by
    obtain ⟨l, hlabel, hl⟩ := h.label
    have hlookup : ((subtreeEntries b).map Entry.member).lookup "label" =
      some (.str (labelText b.label)) := rfl
    refine .inl ⟨?_, ?_⟩
    · rw [hlookup, hlabel]
      rfl
    · rw [hlabel]
      simpa [Json.counts] using hl.1

theorem givesAnalysis_analysisTable (h : s.Writable) :
    GivesAnalysis (analysisTable s.analysis) s.analysis where
  sourceRoot := ⟨.inl rfl, h.sourceRoot.1⟩
  aliases := .inl rfl
  extensions := .inl rfl
  exclude := .inl rfl
  reportPath := ⟨.inl rfl, h.reportPath.1⟩
  subtrees := .inl ⟨_, rfl, List.forall₂_map_left_iff.2 (List.forall₂_same.2 fun b hb =>
    ⟨_, rfl, givesSubtree_entries (h.subtrees b hb)⟩)⟩

theorem Form.Writable.convert_eq {form : Form} {n : Number} (h : form.Writable n) :
    form.convert n = .ok n := by
  cases h <;> rfl

theorem Form.Writable.lt_zero {form : Form} {n : Number} (h : form.Writable n) :
    n.lt (.int 0) = false := by
  cases h with
  | @whole n short =>
    rw [← Bool.not_eq_true, Number.int_lt_int_iff]
    omega
  | @double x unsigned =>
    have hexact : (Number.float x).exact = Binary.ofFloat x := rfl
    cases hx : Binary.ofFloat x with
    | nan =>
      rw [Number.lt, Number.compare?, hexact, hx]
      rfl
    | infinite negative =>
      cases negative with
      | true => exact absurd hx unsigned.2
      | false =>
        rw [Number.lt, Number.compare?, hexact, hx]
        rfl
    | finite negative m e =>
      cases negative with
      | true => exact absurd hx (unsigned.1 m e)
      | false =>
        rw [← Bool.not_eq_true, Number.lt_int_iff (hexact.trans hx), Binary.value_finite_false,
          not_lt]
        positivity

theorem kept_limitTable (h : s.Writable) :
    ∀ l ∈ Limit.all, l.Kept (limitTable s.thresholds) (l.get s.thresholds) := by
  intro l hl
  have hlimit := h.thresholds l hl
  refine ⟨_, ⟨.inl ?_, hlimit.lt_zero⟩, hlimit.convert_eq⟩
  simp only [Limit.all, List.mem_cons, List.not_mem_nil, or_false] at hl
  rcases hl with rfl | rfl | rfl | rfl <;> rfl

/-- The text of settings gives these settings. -/
theorem ofText_document (h : s.Writable) (path : String) : ofText path s.document = .ok s := by
  have hgives : ofTable [("analysis", .obj (analysisTable s.analysis)),
      ("validation", .obj (limitTable s.thresholds))] = .ok s :=
    ofTable_eq_ok_iff.2 ⟨_, _, ⟨.inl rfl, .inl rfl⟩, givesAnalysis_analysisTable h,
      kept_limitTable h⟩
  rw [ofText, parse_document h]
  simp only [hgives]

/-- Settings that were written into the file that is read are the settings. -/
theorem load_of_writeText (h : s.Writable) {w w' : World} {l : Location}
    (hw : w.writeText l s.document = .ok w') {root : Location} {file : Option Location}
    (hfile : file = some l ∨ file = none ∧ fileFor w' root = .ok l) :
    load w' root file = .ok s := by
  have hfind : w'.find l = .ok (.file s.document.toUTF8) := World.find_writeText hw w'.now
  have hread : w'.readText l = .ok s.document :=
    World.readText_eq_ok_iff.2 ⟨_, hfind, FileTree.decode_toUTF8 (return_notMem_document h)⟩
  have hhas : w'.has l = true := by rw [World.has, hfind]
  have hload : load w' root file = ofText l.text s.document := by
    unfold load
    rcases hfile with rfl | ⟨rfl, hfor⟩
    · simp [hhas, hread, bind, Except.bind, pure, Except.pure]
    · simp [hfor, hhas, hread, bind, Except.bind]
  rw [hload, ofText_document h]

end Reading

/-! ## Default settings -/

instance (s : String) : Decidable (Plain s) :=
  decidable_of_iff (s ≠ "" ∧ s.toList.all (decide <| Verbatim ·)) (by simp [Plain])

instance (t : List Char) : Decidable (Listed t) :=
  decidable_of_iff (t.all (decide <| Verbatim ·) ∧ ',' ∉ t) (by simp [Listed])

theorem unsigned_of_finite {x : Float} {m : Nat} {e : Int}
    (h : Binary.ofFloat x = .finite false m e) : Toml.Unsigned x := by
  constructor <;> simp [h]

theorem writable_default : default.Writable where
  sourceRoot := by decide
  aliases := by decide
  extensions := by decide
  exclude := by decide
  reportPath := by decide
  nonempty := by decide
  subtrees := by
    intro b hb
    simp only [default, defaultSubtrees, List.mem_cons, List.not_mem_nil, or_false] at hb
    rcases hb with rfl | rfl | rfl | rfl | rfl | rfl <;>
      exact ⟨⟨_, rfl, by decide⟩, by decide, by decide, by decide⟩
  thresholds := by
    have haverage : Binary.ofFloat 20 = .finite false 5629499534213120 (-48) := by decide +kernel
    have hstale : Binary.ofFloat 24 = .finite false 6755399441055744 (-48) := by decide +kernel
    simp only [Limit.all, List.forall_mem_cons]
    exact ⟨.whole (n := 0) (by decide), .whole (n := 10) (by decide),
      .double (unsigned_of_finite haverage), .double (unsigned_of_finite hstale),
      List.forall_mem_nil _⟩

/-- A project whose own file has been written with the default settings has these settings, unless
the environment names another file. -/
theorem load_default {w w' : World} {root : Location} (unnamed : w.settingsFile = none)
    (hw : w.writeText (root.child fileName) default.document = .ok w') :
    load w' root none = .ok default := by
  have hsame : w'.settingsFile = w.settingsFile := by
    unfold World.writeText at hw
    obtain ⟨tree, -, h⟩ := bind_eq_ok_iff.1 hw
    cases h
    rfl
  have hfor : fileFor w' root = .ok (root.child fileName) := by
    rw [fileFor, hsame, unnamed]
  exact load_of_writeText writable_default hw (.inr ⟨rfl, hfor⟩)

end Settings

end ImportAtlas
