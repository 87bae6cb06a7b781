import ImportAtlas.Proofs.Graph.Built
import ImportAtlas.Proofs.Unused.Indexed

/-!
# Edges are evidence of use

An edge takes the first candidate of a specifier that is a known path, while the search for uses
looks for the exporting file among all candidates. So whatever becomes an edge without an alias is
found as a use too, and the export it names is not reported as unused.
-/

namespace ImportAtlas

variable {r : Resolver} {segments : Category.Segments} {analyses : List (FileAnalysis String)}

theorem Resolver.mem_candidates_of_target? {specifier importer path : String}
    (h : r.target? specifier importer = some path) :
    path ∈ r.candidates specifier (Path.dirname importer) := by
  have hresolve : (r.resolveFrom specifier importer).map id = some path := h
  rw [Option.map_id_apply] at hresolve
  exact List.mem_of_find?_eq_some hresolve

namespace Graph

theorem node?_of_mem {n : SourceFile String} (h : n ∈ (build r analyses).nodes) :
    (build r analyses).node? n.id = some n := by
  obtain ⟨k, hk, rfl⟩ := List.mem_mapIdx.1 h
  show (build r analyses).node? (k : Int) = _
  rw [node?_build, List.getElem?_eq_getElem hk]
  rfl

/-- An edge comes from an import that points into the project, and its target is the node of an
analysis whose path the import resolves to. -/
theorem exists_import_of_edge {e : Edge String} (h : e ∈ (build r analyses).edges) :
    ∃ a ∈ analyses, ∃ i ∈ a.imports, ∃ b ∈ analyses, ∃ t : Nat,
      i.isRelative = true ∧ e.name = i.name ∧ e.specifier = i.specifier ∧
      r.target? i.specifier a.path = some b.path ∧
      (build r analyses).node? e.target = some (nodeOf t b) := by
  obtain ⟨a, ha, i, hi, hedge⟩ := mem_edges_build.1 h
  obtain ⟨hrel, s, t, path, -, htarget, ht, rfl⟩ := edgeOf?_eq_some_iff.1 hedge
  obtain ⟨b, hb, rfl⟩ := idOf?_eq_some ht
  refine ⟨a, ha, i, hi, b, List.mem_of_getElem? hb, t, hrel, rfl, rfl, htarget, ?_⟩
  rw [node?_build, hb]
  rfl

end Graph

namespace Unused

/-- What an import reaches under a path is not reported there under its name. -/
theorem name_ne_of_reaches {i : Import String} {path : String}
    (hi : i ∈ analyses.flatMap (·.imports)) (hrel : i.isRelative = true)
    (hreach : ∀ b ∈ analyses, b.path = path → reaches r segments i b = true)
    {u : UnusedExport String} (hu : u ∈ find r segments analyses) (hfile : u.file = path) :
    u.name ≠ i.name := by
  obtain ⟨b, hb, x, -, hunused, rfl⟩ := mem_find.1 hu
  intro hname
  have hused : isUsed r segments (ImportIndex.build analyses) x.name b = true :=
    (isUsed_build analyses x.name b).2 ⟨i, hi, hname.symm, hrel, hreach b hb hfile⟩
  rw [hunused] at hused
  cases hused

theorem reaches_of_no_alias {i : Import String} {b : FileAnalysis String}
    (halias : r.aliasOf? i.specifier = none)
    (htarget : r.target? i.specifier i.file = some b.path) : reaches r segments i b = true := by
  unfold reaches
  simp only [Label.text?_string, halias, List.contains_iff_mem]
  exact Resolver.mem_candidates_of_target? htarget

/-- An edge whose specifier begins with no alias leads to a node under whose path the imported name
is not reported as unused. Several files may have that path. -/
theorem relative_edge_not_reported (r : Resolver) (segments : Category.Segments)
    (analyses : List (FileAnalysis String))
    (owned : ∀ a ∈ analyses, ∀ i ∈ a.imports, i.file = a.path) :
    let g := Graph.build r analyses
    ∀ e ∈ g.edges, r.aliasOf? e.specifier = none →
      ∃ n, g.node? e.target = some n ∧
        ∀ u ∈ find r segments analyses, u.file = n.path → u.name ≠ e.name := by
  intro g e he halias
  obtain ⟨a, ha, i, hi, b, hb, t, hrel, hname, hspecifier, htarget, hnode⟩ :=
    Graph.exists_import_of_edge he
  refine ⟨Graph.nodeOf t b, hnode, fun u hu hfile => ?_⟩
  rw [hname]
  apply name_ne_of_reaches (List.mem_flatMap.2 ⟨a, ha, hi⟩) hrel _ hu hfile
  intro b' _ hpath
  apply reaches_of_no_alias (hspecifier ▸ halias)
  rw [owned a ha i hi, hpath]
  exact htarget

/-- An index file that was analysed twice, a file that imports from its directory, and a file that
exports the same name and that nothing imports. -/
def indexTwice : List (FileAnalysis String) :=
  [⟨"a.ts", "src/a.ts", "other", [⟨"src/a.ts", "X", "./b/../b", true, 1⟩], []⟩,
    ⟨"index.ts", "src/b/index.ts", "other", [], [⟨"src/b/index.ts", "X", 2⟩]⟩,
    ⟨"index.ts", "src/b/index.ts", "type", [], [⟨"src/b/index.ts", "X", 3⟩]⟩,
    ⟨"c.ts", "src/c.ts", "other", [], [⟨"src/c.ts", "X", 4⟩]⟩]

theorem indexTwice_not_reported :
    let r := Resolver.make (indexTwice.map (·.path)) [".ts", ".tsx"] ["@/"] "src"
    let g := Graph.build r indexTwice
    g.edges = [⟨0, 1, "X", "./b/../b", 1⟩] ∧
      find r Category.builtIn indexTwice = [⟨"src/c.ts", "X", 4⟩] ∧
      ∃ n, g.node? 1 = some n ∧
        ∀ u ∈ find r Category.builtIn indexTwice, u.file = n.path → u.name ≠ "X" := by
  intro r g
  have hedges : g.edges = [⟨0, 1, "X", "./b/../b", 1⟩] := by decide +kernel
  have howned : ∀ a ∈ indexTwice, ∀ i ∈ a.imports, i.file = a.path := by decide
  refine ⟨hedges, by decide +kernel, ?_⟩
  exact relative_edge_not_reported r Category.builtIn indexTwice howned ⟨0, 1, "X", "./b/../b", 1⟩
    (hedges ▸ List.mem_singleton_self _) (by decide +kernel)

end Unused

end ImportAtlas
