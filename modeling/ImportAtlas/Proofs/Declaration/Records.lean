import ImportAtlas.Proofs.Declaration.Exported
import ImportAtlas.Proofs.Declaration.Imported

/-!
# Records of any text

A recogniser accepts nothing but what is spelled as a statement, however the text around it looks,
and the names of a brace list are trimmed pieces of it. So every record of every text is well formed.
-/

namespace ImportAtlas

open Text Recogniser

/-! ## Names -/

/-- A name without blanks around it and without commas, braces and renamings. -/
structure RecordedName (name : List Char) : Prop extends BraceList.Trimmed name where
  brace : '}' ∉ name

theorem Text.Identifier.recordedName (i : Identifier) : RecordedName i.chars where
  ne_nil := i.ne_nil
  first := by simpa using i.stops_blank []
  last := by
    have hreverse := (Identifier.mk i.chars.reverse (by simpa using i.word)
      (by simpa using i.ne_nil)).stops_blank []
    rwa [List.append_nil] at hreverse
  comma := i.notMem (by decide)
  renames := by
    rintro ⟨a, _, ha, -, hab⟩
    exact i.notMem (isWord_of_isBlank ha) (hab.subset List.mem_cons_self)
  brace := i.notMem (by decide)

/-- The names of a brace list whose body ends at the first closing brace. -/
theorem recordedName_of_mem_names {side : BraceList.Side} {body name : List Char}
    (hbody : '}' ∉ body) (h : name ∈ BraceList.names side body) : RecordedName name := by
  obtain ⟨htrimmed, hwithin⟩ := BraceList.trimmed_of_mem_names h
  exact ⟨htrimmed, fun hbrace => hbody (hwithin.subset hbrace)⟩

theorem ImportStatement.Spelled.recordedName {s : ImportStatement} {text name : List Char}
    (h : Spelled s text) (hname : name ∈ s.names) : RecordedName name := by
  obtain ⟨_, _, ⟨leading, hbindings, _⟩⟩ := h
  rcases List.mem_append.1 hname with hleading | hname
  · obtain ⟨l, -, rfl⟩ := Option.map_eq_some_iff.1 (Option.mem_toList.1 hleading)
    exact l.name.recordedName
  · cases hbindings with
    | named _ hbody => exact recordedName_of_mem_names hbody hname
    | space _ _ i => exact List.mem_singleton.1 hname ▸ i.recordedName
    | name i => exact List.mem_singleton.1 hname ▸ i.recordedName

theorem ImportStatement.Spelled.specifier {s : ImportStatement} {text : List Char}
    (h : Spelled s text) : s.specifier ≠ [] ∧ ∀ c ∈ s.specifier, isQuote c = false := by
  obtain ⟨_, _, ⟨_, _, o⟩⟩ := h
  exact ⟨o.ne_nil, by simpa using o.unquoted⟩

theorem ExportStatement.Spelled.recordedName {s : ExportStatement} {text name : List Char}
    (h : Spelled s text) (hname : name ∈ s.names) : RecordedName name := by
  cases h with
  | named _ _ _ hbody => exact recordedName_of_mem_names hbody hname
  | declared _ _ _ _ i => exact List.mem_singleton.1 hname ▸ i.recordedName

theorem ExportStatement.Spelled.declared_word {name text : List Char}
    (h : Spelled (.declared name) text) : name ≠ [] ∧ name.all isWord = true := by
  cases h with
  | declared _ _ _ _ i => exact ⟨i.ne_nil, i.word⟩

/-! ## Records -/

/-- The line is one of the lines of the text. -/
def HasLine (content : String) (line : Int) : Prop :=
  1 ≤ line ∧ line ≤ content.toList.count '\n' + 1

theorem Found.hasLine {α : Type} (content : String) (f : Found α) :
    HasLine content (f.line content.toList) := by
  have hle := Text.lineOf_le content.toList f.text
  have hpos : 1 ≤ Text.lineOf content.toList f.text := Nat.le_add_left ..
  unfold HasLine Found.line
  omega

/-- What holds of an import that was read from a text. -/
structure Import.Recorded (aliases : List String) (file content : String) (i : Import String) :
    Prop where
  name : RecordedName i.name.toList
  specifier_ne : i.specifier ≠ ""
  unquoted : '"' ∉ i.specifier.toList ∧ '\x27' ∉ i.specifier.toList
  isRelative : i.isRelative = true ↔
    ['.'] <+: i.specifier.toList ∨ ∃ a ∈ aliases, a.toList <+: i.specifier.toList
  file : i.file = file
  line : HasLine content i.line

/-- What holds of an export that was read from a text. -/
structure Export.Recorded (file content : String) (e : Export String) : Prop where
  name : RecordedName e.name.toList
  file : e.file = file
  line : HasLine content e.line

theorem isProjectSpecifier_iff {aliases : List String} {specifier : String} :
    isProjectSpecifier aliases specifier = true ↔
      ['.'] <+: specifier.toList ∨ ∃ a ∈ aliases, a.toList <+: specifier.toList := by
  simp [isProjectSpecifier, Text.beginsWith]

theorem importsOf_recorded {aliases : List String} {file content : String} {i : Import String}
    (h : i ∈ importsOf aliases file content) : i.Recorded aliases file content := by
  obtain ⟨f, hf, hi⟩ := List.mem_flatMap.1 h
  obtain ⟨name, hname, rfl⟩ := List.mem_map.1 hi
  have hspelled := ImportStatement.spelled_of_mem_scan hf
  obtain ⟨hne, hquote⟩ := hspelled.specifier
  refine ⟨?_, ?_, ⟨?_, ?_⟩, isProjectSpecifier_iff, rfl, f.hasLine content⟩
  · rw [String.toList_ofList]
    exact hspelled.recordedName hname
  · simpa [← String.toList_inj] using hne
  · rw [String.toList_ofList]
    exact fun hmem => absurd (hquote _ hmem) (by decide)
  · rw [String.toList_ofList]
    exact fun hmem => absurd (hquote _ hmem) (by decide)

theorem exportsOf_recorded {file content : String} {e : Export String}
    (h : e ∈ exportsOf file content) : e.Recorded file content := by
  obtain ⟨f, hf, he⟩ := List.mem_flatMap.1 h
  obtain ⟨name, hname, rfl⟩ := List.mem_map.1 he
  refine ⟨?_, rfl, f.hasLine content⟩
  rw [String.toList_ofList]
  exact (ExportStatement.spelled_of_mem_scan hf).recordedName hname

/-- Whatever the text is, its records are well formed, and what a declaration exports is a word. -/
theorem records_of_any_text (aliases : List String) (file content : String) :
    (∀ i ∈ importsOf aliases file content, i.Recorded aliases file content) ∧
      (∀ e ∈ exportsOf file content, e.Recorded file content) ∧
      ∀ f ∈ Found.scan ExportStatement.at? content.toList, ∀ name, f.value = .declared name →
        ⟨file, String.ofList name, f.line content.toList⟩ ∈ exportsOf file content ∧
          name ≠ [] ∧ name.all isWord = true := by
  refine ⟨fun i hi => importsOf_recorded hi, fun e he => exportsOf_recorded he, ?_⟩
  intro f hf name hvalue
  have hspelled := ExportStatement.spelled_of_mem_scan hf
  rw [hvalue] at hspelled
  refine ⟨List.mem_flatMap.2 ⟨f, hf, List.mem_map.2 ⟨name, ?_, rfl⟩⟩, hspelled.declared_word⟩
  rw [hvalue]
  exact List.mem_singleton_self name

/-- A list with a comment in it, a list with a name that is renamed twice, and a declaration. -/
def commentInList : String :=
  "import a, \x7b b // first\n, \x7d from \"@/x'\nexport \x7b b as c as\nd \x7dexport type type"

theorem commentInList_records :
    let i : Import String := ⟨"x.ts", "b // first", "@/x", true, 1⟩
    let e : Export String := ⟨"x.ts", "d", 3⟩
    i ∈ importsOf ["@/"] "x.ts" commentInList ∧ i.Recorded ["@/"] "x.ts" commentInList ∧
      e ∈ exportsOf "x.ts" commentInList ∧ e.Recorded "x.ts" commentInList ∧
      ∃ f ∈ Found.scan ExportStatement.at? commentInList.toList,
        f.value = .declared "type".toList ∧
          ⟨"x.ts", "type", f.line commentInList.toList⟩ ∈ exportsOf "x.ts" commentInList := by
  intro i e
  have hi : i ∈ importsOf ["@/"] "x.ts" commentInList := by decide +kernel
  have he : e ∈ exportsOf "x.ts" commentInList := by decide +kernel
  have hvalue : ExportStatement.declared "type".toList ∈
      (Found.scan ExportStatement.at? commentInList.toList).map (·.value) := by decide +kernel
  obtain ⟨f, hf, hvalue⟩ := List.mem_map.1 hvalue
  obtain ⟨himports, hexports, hdeclared⟩ := records_of_any_text ["@/"] "x.ts" commentInList
  exact ⟨hi, himports i hi, he, hexports e he, f, hf, hvalue, (hdeclared f hf _ hvalue).1⟩

end ImportAtlas
