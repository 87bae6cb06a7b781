import ImportAtlas.Proofs.Declaration.Exported

/-!
# The lines of exports

A record has the line on which the text of its statement first occurs. That text is recognised
wherever it occurs, so an occurrence before the statement begins in a statement that was found
earlier: at its start, if the earlier one is the same or declares a longer name, or further in. A
record therefore has the line of its own statement exactly if no such occurrence stands on another
line.
-/

namespace ImportAtlas

open Text

/-! ## Where a text is recognised -/

/-- A spelled statement is recognised before every text: a declared name may only get longer. -/
theorem ExportStatement.Spelled.isSome_at? {s : ExportStatement} {text : List Char}
    (h : Spelled s text) (rest : List Char) : (at? (text ++ rest)).isSome := by
  rw [Option.isSome_iff_exists]
  cases h with
  | named afterExport modifier hne hbody =>
    exact ⟨(_, rest), at?_eq_some_iff.2 ⟨_, .named afterExport modifier hne hbody, trivial, rfl⟩⟩
  | declared afterExport m hw t name =>
    have hword : (name.chars ++ rest.takeWhile isWord).all isWord = true := by
      rw [List.all_append, name.word, List.all_takeWhile, Bool.and_self]
    let whole : Identifier := ⟨name.chars ++ rest.takeWhile isWord, hword, by simp [name.ne_nil]⟩
    refine ⟨(.declared whole.chars, rest.dropWhile isWord), at?_eq_some_iff.2
      ⟨_, .declared afterExport m hw t whole, stops_dropWhile _ _, ?_⟩⟩
    simp [whole, List.takeWhile_append_dropWhile]

namespace Found

variable {α : Type}

/-- The 1-based line on which the statement begins. -/
def ownLine (content : List Char) (f : Found α) : Int := breaksBefore f.start content + 1

/-- The text of `f` already begins at the place `p` before it, within the statement `g`. -/
structure BeginsIn (content : List Char) (f g : Found α) (p : Nat) : Prop where
  before : p < f.start
  start_le : g.start ≤ p
  lt_end : p < g.start + g.text.length
  begins : f.text <+: content.drop p

/-- Wherever the text of a statement found occurs, a statement found begins or is still going on. -/
theorem exists_covering {cs : List Char} {f : Found ExportStatement}
    (hf : f ∈ scan ExportStatement.at? cs) {p : Nat} (hp : f.text <+: cs.drop p) :
    ∃ g ∈ scan ExportStatement.at? cs, g.start ≤ p ∧ p < g.start + g.text.length := by
  have hscanned := scanned_scan ExportStatement.opens_at? cs
  obtain ⟨_, _, -, -, hne, -⟩ := hscanned.exists_of_mem hf
  have hspelled := ExportStatement.spelled_of_mem_scan hf
  obtain ⟨rest, hrest⟩ := hp
  have hlen : p < cs.length := by
    have hpos := List.length_pos_iff.2 hne
    have hdrop := congrArg List.length hrest
    rw [List.length_append, List.length_drop] at hdrop
    omega
  have hcovers := hscanned.covers (List.take_append_drop p cs).symm
    (by rw [← hrest]; simp [hne]) (hrest ▸ hspelled.isSome_at? rest)
  simpa [List.length_take, Nat.min_eq_left hlen.le] using hcovers

/-- A statement's text first occurs on its own line exactly if it does not begin on another line
within an earlier statement. -/
theorem line_eq_ownLine_iff {cs : List Char} {f : Found ExportStatement}
    (hf : f ∈ scan ExportStatement.at? cs) : f.line cs = f.ownLine cs ↔
      ∀ g ∈ scan ExportStatement.at? cs, ∀ p, f.BeginsIn cs g p →
        breaksBefore p cs = breaksBefore f.start cs := by
  obtain ⟨before, after, hcs, hstart, -, -⟩ :=
    (scanned_scan ExportStatement.opens_at? cs).exists_of_mem hf
  rw [Nat.zero_add] at hstart
  have hown : f.text <+: cs.drop f.start := ⟨after, by rw [hcs, hstart, List.drop_left]⟩
  obtain ⟨first, hfirst⟩ := exists_firstAt (hown.isInfix.trans (List.drop_suffix _ _).isInfix)
  have hline : f.line cs = breaksBefore first cs + 1 := by
    rw [line, hfirst.lineOf_eq]
    rfl
  have hle : first ≤ f.start := hfirst.least _ hown
  rw [hline, ownLine]
  constructor
  · -- the place lies between the first occurrence and the statement, and so do its line feeds
    intro heq g _ p hp
    have hlow := breaksBefore_le (hfirst.least p hp.begins) cs
    have hhigh := breaksBefore_le hp.before.le cs
    omega
  · intro h
    rcases Nat.lt_or_eq_of_le hle with hlt | heq
    · obtain ⟨g, hg, hstart, hend⟩ := exists_covering hf hfirst.begins
      rw [h g hg _ ⟨hlt, hstart, hend, hfirst.begins⟩]
    · rw [heq]

end Found

/-- Two ways to give statements lines make the same records exactly if they agree on every statement
that has a record. -/
theorem records_eq_iff {file : String} {found : List (Found ExportStatement)}
    {l m : Found ExportStatement → Int} :
    found.flatMap (fun f =>
        f.value.names.map fun name => (⟨file, String.ofList name, l f⟩ : Export String)) =
      found.flatMap (fun f => f.value.names.map fun name => ⟨file, String.ofList name, m f⟩) ↔
      ∀ f ∈ found, f.value.names ≠ [] → l f = m f := by
  induction found with
  | nil => simp
  | cons f found ih =>
    rw [List.flatMap_cons, List.flatMap_cons, List.forall_mem_cons, ← ih]
    constructor
    · intro h
      obtain ⟨hf, hrest⟩ := List.append_inj h (by rw [List.length_map, List.length_map])
      refine ⟨fun hne => ?_, hrest⟩
      obtain ⟨name, hname⟩ := List.exists_mem_of_ne_nil _ hne
      exact congrArg Export.line (List.map_inj_left.1 hf name hname)
    · rintro ⟨hf, hrest⟩
      rw [hrest]
      refine congrArg (· ++ _) (List.map_congr_left fun name hname => ?_)
      rw [hf (List.ne_nil_of_mem hname)]

/-- The records of a text are those with the lines of their own statements exactly if, wherever the
text of a statement that has a record already begins within an earlier statement, no line feed
stands between that place and the statement. -/
theorem exports_on_own_lines_iff (file content : String) :
    let cs := content.toList
    let found := Found.scan ExportStatement.at? cs
    exportsOf file content = found.flatMap (fun f =>
        f.value.names.map fun name => ⟨file, String.ofList name, f.ownLine cs⟩) ↔
      ∀ f ∈ found, f.value.names ≠ [] → ∀ g ∈ found, ∀ p, f.BeginsIn cs g p →
        breaksBefore p cs = breaksBefore f.start cs := by
  intro cs found
  rw [exportsOf, records_eq_iff]
  refine forall₂_congr fun f hf => ?_
  rw [← Found.line_eq_ownLine_iff hf]

/-- Two declarations, the name of the second of which begins the name of the first. -/
def nameBeginsName : String := "export const ab = 1\nexport const a = 2\n"

/-- That the statements differ is not enough. -/
theorem nameBeginsName_first_line :
    let cs := nameBeginsName.toList
    let found := Found.scan ExportStatement.at? cs
    (found.map (·.text)).Nodup ∧
      exportsOf "x.ts" nameBeginsName = [⟨"x.ts", "ab", 1⟩, ⟨"x.ts", "a", 1⟩] ∧
      found.map (·.ownLine cs) = [1, 2] := by
  decide +kernel

end ImportAtlas
