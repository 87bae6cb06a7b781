import ImportAtlas.Proofs.Analysis.Integrity
import ImportAtlas.Proofs.Declaration.Records
import ImportAtlas.Proofs.Drawing.Agreement

/-!
# The lines of a Mermaid text

A Mermaid text has a first line, a line for each node, one for each pair and one that colours the
red links. It is cut into these lines again exactly if no name in it has a line feed. The name of a
binding that is imported by itself is a word; a name from a brace list is whatever stands between
the commas, and may run over several lines.
-/

namespace ImportAtlas

namespace Drawing

/-- Lines are found again at the line feeds exactly if they have none of their own. -/
theorem splitAt_linesText_iff {lines : List String} (hne : lines ≠ []) :
    Text.splitAt '\n' (linesText lines).toList = lines.map String.toList ++ [[]] ↔
      ∀ line ∈ lines, '\n' ∉ line.toList := by
  have htext : (linesText lines).toList = (lines.map String.toList).flatMap (· ++ ['\n']) :=
    Text.toList_intercalate hne
  constructor
  · intro h line hline
    have hpiece : line.toList ∈ Text.splitAt '\n' (linesText lines).toList := by
      rw [h]
      exact List.mem_append_left _ (List.mem_map_of_mem hline)
    exact Text.notMem_of_mem_splitAt hpiece
  · intro h
    rw [htext]
    exact Text.splitAt_flatMap (List.forall_mem_map.2 h)

theorem lineFeed_notMem_nodeId (id : Int) : '\n' ∉ (nodeId id).toList :=
  notMem_nodeId (by decide) (by decide) (by decide) id

theorem lineFeed_mem_mermaidText {s : String} :
    '\n' ∈ (mermaidText s).toList ↔ '\n' ∈ s.toList := by
  rw [mermaidText, String.toList_ofList, Text.mem_replaceChar (by decide) (by decide),
    Text.mem_replaceChar (by decide) (by decide)]

theorem lineFeed_mem_mermaidNode {n : SourceFile String} :
    '\n' ∈ (mermaidNode n).toList ↔ '\n' ∈ n.name.toList := by
  simp [mermaidNode, lineFeed_mem_mermaidText, lineFeed_notMem_nodeId]

theorem lineFeed_mem_mermaidLink {l : Link} :
    '\n' ∈ (mermaidLink l).toList ↔ ∃ name ∈ l.names, '\n' ∈ name.toList := by
  have hnames : '\n' ∈ (linkText l).toList ↔ ∃ name ∈ l.names, '\n' ∈ name.toList := by
    rw [linkText, String.toList_intercalate, Text.mem_intercalate (by decide)]
    simp
  simp [mermaidLink, lineFeed_mem_mermaidText, lineFeed_notMem_nodeId, hnames]

theorem lineFeed_notMem_styleLine (places : List Nat) : '\n' ∉ (styleLine places).toList := by
  rw [toList_styleLine, List.mem_append, List.mem_append, String.toList_intercalate,
    Text.mem_intercalate (by decide)]
  rintro (h | ⟨digits, hdigits, h⟩ | h)
  · simp at h
  · obtain ⟨numeral, hnumeral, rfl⟩ := List.mem_map.1 hdigits
    obtain ⟨n, -, rfl⟩ := List.mem_map.1 hnumeral
    exact notMem_numeral (by decide) n h
  · simp at h

/-! ## The lines of a drawing -/

/-- A drawing has a line feed in a line exactly if it has one in a name. -/
theorem forall_mermaidLines_iff (d : Drawing) :
    (∀ line ∈ d.mermaidLines, '\n' ∉ line.toList) ↔
      (∀ n ∈ d.nodes, '\n' ∉ n.name.toList) ∧
        ∀ l ∈ d.links, ∀ name ∈ l.names, '\n' ∉ name.toList := by
  have hstyle : ∀ line ∈ d.mermaidStyle, '\n' ∉ line.toList := by
    rw [mermaidStyle]
    split <;> simp [lineFeed_notMem_styleLine]
  simp only [mermaidLines, List.forall_mem_append, List.forall_mem_map, lineFeed_mem_mermaidNode,
    lineFeed_mem_mermaidLink, iff_true_intro hstyle]
  simp

theorem forall_names_linksOf {P : String → Prop} {edges : List (Edge String)} :
    (∀ l ∈ linksOf edges, ∀ name ∈ l.names, P name) ↔ ∀ e ∈ edges, P e.name := by
  rw [linksOf_eq, List.forall_mem_map]
  simp only [pairsOf, namesAlong, List.mem_eraseDups, List.forall_mem_map, List.mem_filter,
    decide_eq_true_eq]
  constructor
  · intro h e he
    exact h e he e ⟨he, rfl⟩
  · intro h _ _ e he
    exact h e he.1

theorem redPlaces_ofReport_eq_nil_iff {r : Report String} :
    (ofReport true r).redPlaces = [] ↔ ¬ ∃ p ∈ pairsOf r.edges, p ∈ cycleEdges r.cycles := by
  rw [List.eq_nil_iff_forall_not_mem, ← ends_linksOf]
  simp only [mem_redPlaces, isRed_ofReport, decide_eq_true_eq]
  constructor
  · rintro h ⟨p, hp, hred⟩
    obtain ⟨l, hl, rfl⟩ := List.mem_map.1 hp
    obtain ⟨i, hi⟩ := List.mem_iff_getElem?.1 hl
    exact h i ⟨l, hi, hred⟩
  · rintro h i ⟨l, hl, hred⟩
    exact h ⟨l.ends, List.mem_map_of_mem (List.mem_of_getElem? hl), hred⟩

/-- The lines of a report: one for each node and each pair, and one more if a pair is on a cycle. -/
theorem mermaidLines_ofReport (r : Report String) :
    (ofReport true r).mermaidLines = ["graph LR"] ++ r.nodes.map mermaidNode ++
      (pairsOf r.edges).map (fun p => mermaidLink ⟨p.1, p.2, namesAlong r.edges p⟩) ++
      if ∃ p ∈ pairsOf r.edges, p ∈ cycleEdges r.cycles then
        [styleLine (ofReport true r).redPlaces]
      else [] := by
  have hlinks : (ofReport true r).links.map mermaidLink =
      (pairsOf r.edges).map fun p => mermaidLink ⟨p.1, p.2, namesAlong r.edges p⟩ := by
    show (linksOf r.edges).map mermaidLink = _
    rw [linksOf_eq, List.map_map]
    rfl
  rw [mermaidLines, hlinks, mermaidStyle]
  simp only [redPlaces_ofReport_eq_nil_iff, ite_not]
  rfl

end Drawing

/-! ## Where a line feed comes from -/

/-- Only an item of a brace list can have a character that is not of a word. -/
theorem ImportStatement.Spelled.exists_body {s : ImportStatement} {text name : List Char} {c : Char}
    (h : Spelled s text) (hname : name ∈ s.names) (hc : Text.isWord c = false) (hmem : c ∈ name) :
    ∃ body, s.bindings = .named body ∧ name ∈ BraceList.names .beforeAs body := by
  obtain ⟨_, _, ⟨leading, hbindings, _⟩⟩ := h
  rcases List.mem_append.1 hname with hleading | hname
  · obtain ⟨l, -, rfl⟩ := Option.map_eq_some_iff.1 (Option.mem_toList.1 hleading)
    exact absurd hmem (l.name.notMem hc)
  · cases hbindings with
    | named => exact ⟨_, rfl, hname⟩
    | space _ _ i => exact absurd (List.mem_singleton.1 hname ▸ hmem) (i.notMem hc)
    | name i => exact absurd (List.mem_singleton.1 hname ▸ hmem) (i.notMem hc)

namespace Analysis

variable {w w' : World} {root : Location} {settings : AnalysisSettings} {found : AnalysisRun}

/-- Each node has the name of a discovered file. -/
theorem exists_file_of_node (h : examine w root settings = .ok found) {n : SourceFile String}
    (hn : n ∈ found.report.nodes) : ∃ f ∈ found.discovery.files, n.name = f.1.name := by
  obtain ⟨timestamp, hreport⟩ := report_of_examine h
  have hnames : found.report.nodes.map (·.name) = found.analyses.map (·.name) := by
    rw [hreport]
    exact Graph.map_nodes_build (fun _ _ => rfl) (resolver settings found.analyses) _
  obtain ⟨a, ha, hname⟩ := List.mem_map.1 (hnames ▸ List.mem_map_of_mem hn)
  rw [(consistent_of_examine h).analyses] at ha
  obtain ⟨t, ht, rfl⟩ := List.mem_map.1 ha
  obtain ⟨f, hf, hread⟩ := List.mem_filterMap.1 ht
  obtain ⟨text, -, rfl⟩ := Option.map_eq_some_iff.1 hread
  exact ⟨f, hf, hname.symm⟩

/-- Each edge has a name that a statement in a discovered file binds. -/
theorem exists_statement_of_edge (h : examine w root settings = .ok found) {e : Edge String}
    (he : e ∈ found.report.edges) :
    ∃ f ∈ w.texts found.discovery.files, ∃ s ∈ Found.scan ImportStatement.at? f.2.2.toList,
      e.name.toList ∈ s.value.names := by
  obtain ⟨timestamp, hreport⟩ := report_of_examine h
  rw [hreport] at he
  obtain ⟨a, ha, i, hi, hedge⟩ := Graph.mem_edges_build.1 he
  obtain ⟨-, _, _, _, -, -, -, rfl⟩ := Graph.edgeOf?_eq_some_iff.1 hedge
  rw [(consistent_of_examine h).analyses] at ha
  obtain ⟨f, hf, rfl⟩ := List.mem_map.1 ha
  obtain ⟨s, hs, himport⟩ := List.mem_flatMap.1 hi
  obtain ⟨name, hname, rfl⟩ := List.mem_map.1 himport
  exact ⟨f, hf, s, hs, by rwa [String.toList_ofList]⟩

/-- The Mermaid text of a report on files without line feeds in their names has a first line, a line
for each node, a line for each pair that edges join, and one more if such a pair is on a cycle. Each
ends at the next line feed exactly if no imported name has one, and a name that has one is an
item of a brace list. -/
theorem mermaid_cut_into_lines_iff (w w' : World) (root : Location) (settings : AnalysisSettings)
    (sink : Option MemorySink) (persist : Bool) (found : AnalysisRun)
    (h : run w root settings sink persist = .ok (found, w'))
    (hfiles : ∀ f ∈ found.discovery.files, '\n' ∉ f.1.name.toList) :
    let r := found.report
    let pairs := Drawing.pairsOf r.edges
    let lines := ["graph LR"] ++ r.nodes.map Drawing.mermaidNode ++
      pairs.map (fun p => Drawing.mermaidLink ⟨p.1, p.2, Drawing.namesAlong r.edges p⟩) ++
      if ∃ p ∈ pairs, p ∈ Drawing.cycleEdges r.cycles then
        [Drawing.styleLine (Drawing.ofReport true r).redPlaces]
      else []
    ∃ text, (Report.ofTexts r).toMermaid true = .ok text ∧
      (Text.splitAt '\n' text.toList = lines.map String.toList ++ [[]] ↔
        ∀ e ∈ r.edges, '\n' ∉ e.name.toList) ∧
      ∀ e ∈ r.edges, '\n' ∈ e.name.toList →
        ∃ f ∈ w.texts found.discovery.files, ∃ s ∈ Found.scan ImportStatement.at? f.2.2.toList,
          ∃ body, s.value.bindings = .named body ∧
            e.name.toList ∈ BraceList.names .beforeAs body := by
  intro r pairs lines
  have hexamined := examine_of_run h
  have hlines : (Drawing.ofReport true r).mermaidLines = lines := Drawing.mermaidLines_ofReport r
  have hnodes : ∀ n ∈ r.nodes, '\n' ∉ n.name.toList := by
    intro n hn
    obtain ⟨f, hf, hname⟩ := exists_file_of_node hexamined hn
    rw [hname]
    exact hfiles f hf
  refine ⟨_, Report.toMermaid_ofTexts true r, ?_, ?_⟩
  · calc
      Text.splitAt '\n' (Drawing.ofReport true r).mermaid.toList = lines.map String.toList ++ [[]]
      _ ↔ ∀ line ∈ lines, '\n' ∉ line.toList := by
        rw [Drawing.mermaid, hlines]
        exact Drawing.splitAt_linesText_iff (by simp [lines])
      _ ↔ ∀ l ∈ Drawing.linksOf r.edges, ∀ name ∈ l.names, '\n' ∉ name.toList := by
        rw [← hlines, Drawing.forall_mermaidLines_iff]
        exact and_iff_right hnodes
      _ ↔ ∀ e ∈ r.edges, '\n' ∉ e.name.toList := Drawing.forall_names_linksOf
  · intro e he hmem
    obtain ⟨f, hf, s, hs, hname⟩ := exists_statement_of_edge hexamined he
    obtain ⟨body, hbody⟩ :=
      (ImportStatement.spelled_of_mem_scan hs).exists_body hname (by decide) hmem
    exact ⟨f, hf, s, hs, body, hbody⟩

/-- A project of two files. -/
def twoFiles (a b : String) : World where
  tree := .dir [("p", .dir [("src", .dir [("lib", .dir [
    ("a.ts", .file a.toUTF8), ("b.ts", .file b.toUTF8)])])])]
  here := ⟨1, []⟩
  home := ⟨1, ["home"]⟩
  now := ⟨0, 0⟩
  settingsFile := none

/-- Files that import each other, with a brace list over several lines. -/
def mutualFiles : World :=
  twoFiles "import b, \x7b\n  c as d,\n  e\n\x7d from './b'\n" "import \x7b a \x7d from './a'\n"

theorem mutualFiles_cut_into_lines :
    ∃ found w',
      run mutualFiles ⟨1, ["p"]⟩ Settings.default.analysis none false = .ok (found, w') ∧
      (∀ f ∈ found.discovery.files, '\n' ∉ f.1.name.toList) ∧
      ∃ text, (Report.ofTexts found.report).toMermaid true = .ok text ∧
        Text.splitAt '\n' text.toList = (["graph LR", "  n0[\"a.ts\"]", "  n1[\"b.ts\"]",
          "  n0 -->|b, c, e| n1", "  n1 -->|a| n0",
          "  linkStyle 0,1 stroke:red,stroke-width:2px"].map String.toList) ++ [[]] := by
  have hcomputed :
      ((run mutualFiles ⟨1, ["p"]⟩ Settings.default.analysis none false).toOption.map fun p =>
        (decide (∀ f ∈ p.1.discovery.files, '\n' ∉ f.1.name.toList),
          decide (∀ e ∈ p.1.report.edges, '\n' ∉ e.name.toList),
          (Drawing.ofReport true p.1.report).mermaidLines)) =
      some (true, true, ["graph LR", "  n0[\"a.ts\"]", "  n1[\"b.ts\"]", "  n0 -->|b, c, e| n1",
        "  n1 -->|a| n0", "  linkStyle 0,1 stroke:red,stroke-width:2px"]) := by
    decide +kernel
  cases hrun : run mutualFiles ⟨1, ["p"]⟩ Settings.default.analysis none false with
  | error e => rw [hrun] at hcomputed; cases hcomputed
  | ok p =>
    obtain ⟨found, w'⟩ := p
    rw [hrun] at hcomputed
    simp only [Except.toOption, Option.map_some, Option.some.injEq, Prod.mk.injEq,
      decide_eq_true_eq] at hcomputed
    obtain ⟨hfiles, hclean, hlines⟩ := hcomputed
    obtain ⟨text, htext, hcut, -⟩ := mermaid_cut_into_lines_iff _ _ _ _ _ _ _ hrun hfiles
    refine ⟨found, w', rfl, hfiles, text, htext, (hcut.2 hclean).trans ?_⟩
    rw [← Drawing.mermaidLines_ofReport, hlines]

/-- Files of which one imports the other through a brace list that has a comment. -/
def commentedItem : World :=
  twoFiles "import \x7b\n  // the other one\n  b,\n\x7d from './b'\n" "export const b = 1\n"

/-- The comment and the name after it are one imported name, and break the line of the link: two
nodes and a pair give five lines. -/
theorem commentedItem_breaks_line :
    ((run commentedItem ⟨1, ["p"]⟩ Settings.default.analysis none false).toOption.map fun p =>
      (p.1.discovery.files.map (·.1.name), Drawing.pairsOf p.1.report.edges, p.1.report.cycles,
        ((Report.ofTexts p.1.report).toMermaid true).toOption.map
          fun text => (Text.splitAt '\n' text.toList).map String.ofList)) =
    some (["a.ts", "b.ts"], [(0, 1)], [], some ["graph LR", "  n0[\"a.ts\"]", "  n1[\"b.ts\"]",
      "  n0 -->|// the other one", "  b| n1", ""]) := by
  decide +kernel

end Analysis

end ImportAtlas
