import ImportAtlas.Proofs.Declaration.ExportLines
import ImportAtlas.Proofs.Declaration.Imported
import ImportAtlas.Proofs.Types.Defined

/-!
# The line of a statement is that of its first occurrence

Imports, exports and definitions of types get their lines in one way: the text of a statement is
looked up in the whole content. It is found, at the latest where the statement stands, so the line
is never beyond the statement's own, and it is that line exactly if no line feed stands between the
two places.
-/

namespace ImportAtlas

/-! ## Statements found -/

namespace Found

open Text

variable {α : Type} {at? : Recogniser α} {w cs : List Char} {f : Found α}

/-- What holds of the line of a statement that was found, if its text first begins at `k`. -/
structure LineOfFirst (at? : Recogniser α) (content : List Char) (f : Found α) (k : Nat) :
    Prop where
  /-- The statement stands at its start. -/
  accepted : at? (content.drop f.start) =
    some (f.value, content.drop (f.start + f.text.length))
  begins : f.text <+: content.drop f.start
  first : FirstAt content f.text k
  le_start : k ≤ f.start
  /-- Looking the text up does not fail. -/
  lookup : indexOf? f.text content = some k
  line_eq : f.line content = breaksBefore k content + 1
  one_le : 1 ≤ f.line content
  line_le : f.line content ≤ f.ownLine content
  ownLine_le : f.ownLine content ≤ content.count '\n' + 1
  line_eq_ownLine_iff : f.line content = f.ownLine content ↔ '\n' ∉ (content.take f.start).drop k

/-- A statement that was found is accepted where it starts. -/
theorem accepted_of_mem_scan (hopen : at?.Opens w) (hf : f ∈ scan at? cs) :
    f.text <+: cs.drop f.start ∧
      at? (cs.drop f.start) = some (f.value, cs.drop (f.start + f.text.length)) := by
  obtain ⟨before, after, rfl, hstart, -, hat⟩ := (scanned_scan hopen cs).exists_of_mem hf
  rw [Nat.zero_add] at hstart
  rw [hstart, ← List.drop_drop, List.drop_left, List.drop_left]
  exact ⟨List.prefix_append _ _, hat⟩

theorem exists_lineOfFirst (hopen : at?.Opens w) (hf : f ∈ scan at? cs) :
    ∃ k, f.LineOfFirst at? cs k := by
  obtain ⟨hbegins, haccepted⟩ := accepted_of_mem_scan hopen hf
  obtain ⟨k, hfirst⟩ := exists_firstAt (hbegins.isInfix.trans (List.drop_suffix _ _).isInfix)
  have hle : k ≤ f.start := hfirst.least f.start hbegins
  have hline : f.line cs = breaksBefore k cs + 1 := by
    rw [line, hfirst.lineOf_eq]
    rfl
  have hbreaks := breaksBefore_le hle cs
  have hwhole : breaksBefore f.start cs ≤ cs.count '\n' := (List.take_sublist _ _).count_le _
  refine ⟨k, haccepted, hbegins, hfirst, hle, hfirst.indexOf?_eq, hline, ?_, ?_, ?_, ?_⟩
  · omega
  · rw [hline, ownLine]
    omega
  · rw [ownLine]
    omega
  · rw [hline, ownLine, ← breaksBefore_eq_iff hle]
    omega

end Found

/-! ## Records -/

/-- The line of every import, export and definition of a type is that on which the text of its
statement first occurs: it is never beyond the statement's own line, and it is that line exactly if
no line feed stands between the first occurrence and the statement. -/
theorem lines_of_first_occurrence (aliases : List String) (file fileName content : String) :
    let cs := content.toList
    (∀ f ∈ Found.scan ImportStatement.at? cs, ∃ k, f.LineOfFirst ImportStatement.at? cs k) ∧
      (∀ f ∈ Found.scan ExportStatement.at? cs, ∃ k, f.LineOfFirst ExportStatement.at? cs k) ∧
      (∀ f ∈ Found.scan TypeDefinition.at? cs, ∃ k, f.LineOfFirst TypeDefinition.at? cs k) ∧
      (∀ i ∈ importsOf aliases file content,
        ∃ f ∈ Found.scan ImportStatement.at? cs, i.line = f.line cs) ∧
      (∀ e ∈ exportsOf file content,
        ∃ f ∈ Found.scan ExportStatement.at? cs, e.line = f.line cs) ∧
      ∀ t ∈ TypeDefinition.ofContent fileName file content,
        ∃ f ∈ Found.scan TypeDefinition.at? cs, t.line = f.line cs := by
  intro cs
  refine ⟨fun f hf => Found.exists_lineOfFirst ImportStatement.opens_at? hf,
    fun f hf => Found.exists_lineOfFirst ExportStatement.opens_at? hf,
    fun f hf => Found.exists_lineOfFirst TypeDefinition.opens_at? hf, ?_, ?_, ?_⟩
  · intro i hi
    obtain ⟨f, hf, hrecord⟩ := List.mem_flatMap.1 hi
    obtain ⟨name, -, rfl⟩ := List.mem_map.1 hrecord
    exact ⟨f, hf, rfl⟩
  · intro e he
    obtain ⟨f, hf, hrecord⟩ := List.mem_flatMap.1 he
    obtain ⟨name, -, rfl⟩ := List.mem_map.1 hrecord
    exact ⟨f, hf, rfl⟩
  · intro t ht
    obtain ⟨f, hf, rfl⟩ := List.mem_map.1 ht
    exact ⟨f, hf, rfl⟩

/-- An import that is written twice, and a type whose name begins that of an earlier one. -/
def repeatedTexts : String :=
  "import a from './x'\nexport type Ab = 1\nimport a from './x'\nexport type A = 1\n"

theorem repeatedTexts_first_lines :
    let cs := repeatedTexts.toList
    (∃ f ∈ Found.scan ImportStatement.at? cs, (f.start, f.line cs, f.ownLine cs) = (39, 1, 3) ∧
        ∃ k, f.LineOfFirst ImportStatement.at? cs k) ∧
      (∃ f ∈ Found.scan ExportStatement.at? cs, (f.start, f.line cs, f.ownLine cs) = (59, 2, 4) ∧
        ∃ k, f.LineOfFirst ExportStatement.at? cs k) ∧
      (∃ f ∈ Found.scan TypeDefinition.at? cs, (f.start, f.line cs, f.ownLine cs) = (59, 2, 4) ∧
        ∃ k, f.LineOfFirst TypeDefinition.at? cs k) ∧
      (∃ i ∈ importsOf [] "x.ts" repeatedTexts,
        ∃ f ∈ Found.scan ImportStatement.at? cs, i.line = f.line cs) ∧
      (∃ e ∈ exportsOf "x.ts" repeatedTexts,
        ∃ f ∈ Found.scan ExportStatement.at? cs, e.line = f.line cs) ∧
      ∃ t ∈ TypeDefinition.ofContent "x.ts" "x.ts" repeatedTexts,
        ∃ f ∈ Found.scan TypeDefinition.at? cs, t.line = f.line cs := by
  intro cs
  obtain ⟨himport, hexport, htype, himports, hexports, htypes⟩ :=
    lines_of_first_occurrence [] "x.ts" "x.ts" repeatedTexts
  have hi : (⟨"x.ts", "a", "./x", true, 1⟩ : Import String) ∈
      importsOf [] "x.ts" repeatedTexts := by decide +kernel
  have he : (⟨"x.ts", "A", 2⟩ : Export String) ∈ exportsOf "x.ts" repeatedTexts := by
    decide +kernel
  have ht : (⟨"A", .typeAlias, "x.ts", "x.ts", 2, []⟩ : TypeDefinition) ∈
      TypeDefinition.ofContent "x.ts" "x.ts" repeatedTexts := by decide +kernel
  refine ⟨?_, ?_, ?_, ⟨_, hi, himports _ hi⟩, ⟨_, he, hexports _ he⟩, _, ht, htypes _ ht⟩
  · have hmem : (39, (1 : Int), (3 : Int)) ∈ (Found.scan ImportStatement.at? cs).map
        fun f => (f.start, f.line cs, f.ownLine cs) := by decide +kernel
    obtain ⟨f, hf, hplace⟩ := List.mem_map.1 hmem
    exact ⟨f, hf, hplace, himport f hf⟩
  · have hmem : (59, (2 : Int), (4 : Int)) ∈ (Found.scan ExportStatement.at? cs).map
        fun f => (f.start, f.line cs, f.ownLine cs) := by decide +kernel
    obtain ⟨f, hf, hplace⟩ := List.mem_map.1 hmem
    exact ⟨f, hf, hplace, hexport f hf⟩
  · have hmem : (59, (2 : Int), (4 : Int)) ∈ (Found.scan TypeDefinition.at? cs).map
        fun f => (f.start, f.line cs, f.ownLine cs) := by decide +kernel
    obtain ⟨f, hf, hplace⟩ := List.mem_map.1 hmem
    exact ⟨f, hf, hplace, htype f hf⟩

end ImportAtlas
