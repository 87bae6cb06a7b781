import ImportAtlas.Proofs.Graph.Built
import ImportAtlas.Proofs.Unused.Indexed

/-!
# The order of the files does not matter

A directory may be listed in any order. Reordering the analyses renumbers the nodes and may change
which cycles are reported, but the edges read by path and the unused exports stay the same up to
order, and either both orders report a cycle or neither does.
-/

namespace ImportAtlas

variable {as bs : List (FileAnalysis String)}

/-- Only which paths are known decides what a specifier resolves to, not their order. -/
theorem Resolver.target?_of_perm {known known' : List String} (h : known.Perm known')
    (extensions aliases : List String) (sourceRoot specifier importer : String) :
    (make known extensions aliases sourceRoot).target? specifier importer =
      (make known' extensions aliases sourceRoot).target? specifier importer := by
  have hcontains : known.contains = known'.contains := by
    funext path
    rw [Bool.eq_iff_iff, List.contains_iff_mem, List.contains_iff_mem, h.mem_iff]
  show ((List.find? known.contains _).map _) = ((List.find? known'.contains _).map _)
  rw [hcontains]
  rfl

theorem Graph.pathEdge?_of_perm (h : as.Perm bs) (extensions aliases : List String)
    (sourceRoot : String) :
    pathEdge? (.make (as.map (·.path)) extensions aliases sourceRoot) (as.map (·.path)) =
      pathEdge? (.make (bs.map (·.path)) extensions aliases sourceRoot) (bs.map (·.path)) := by
  have hpaths : (as.map (·.path)).Perm (bs.map (·.path)) := h.map _
  funext a i
  simp only [pathEdge?, Resolver.target?_of_perm hpaths, hpaths.mem_iff]

theorem Graph.edges_byPath_of_perm (h : as.Perm bs) (extensions aliases : List String)
    (sourceRoot : String) :
    let g := build (.make (as.map (·.path)) extensions aliases sourceRoot) as
    let g' := build (.make (bs.map (·.path)) extensions aliases sourceRoot) bs
    (g.edges.map g.byPath?).Perm (g'.edges.map g'.byPath?) := by
  intro g g'
  rw [edges_byPath, edges_byPath, pathEdge?_of_perm h]
  exact (h.flatMap_right _).map _

theorem Unused.isUsed_of_perm (h : as.Perm bs) (r : Resolver) (segments : Category.Segments) :
    isUsed r segments (ImportIndex.build as) = isUsed r segments (ImportIndex.build bs) := by
  funext name a
  rw [Bool.eq_iff_iff, isUsed_build, isUsed_build]
  simp only [(h.flatMap_right _).mem_iff]

/-- Whatever order the files come in, the edges read by path are the same up to order, the unused
exports are the same up to order, and a cycle is reported in one order exactly if one is reported in
the other. Files need not have distinct paths. -/
theorem Graph.same_results_of_perm (as bs : List (FileAnalysis String)) (h : as.Perm bs)
    (extensions aliases : List String) (sourceRoot : String) (segments : Category.Segments) :
    let r := Resolver.make (as.map (·.path)) extensions aliases sourceRoot
    let r' := Resolver.make (bs.map (·.path)) extensions aliases sourceRoot
    let g := build r as
    let g' := build r' bs
    (∀ e ∈ g.edges, (g.byPath? e).isSome) ∧
      (g.edges.map g.byPath?).Perm (g'.edges.map g'.byPath?) ∧
      (Unused.find r segments as).Perm (Unused.find r' segments bs) ∧
      (g.cycles = [] ↔ g'.cycles = []) := by
  intro r r' g g'
  have hedges : (g.edges.map g.byPath?).Perm (g'.edges.map g'.byPath?) :=
    edges_byPath_of_perm h extensions aliases sourceRoot
  refine ⟨fun e he => ?_, hedges, ?_, ?_⟩
  · obtain ⟨k, -, -, hk, -⟩ := exists_byPath he
    rw [hk]
    rfl
  · have hfind : Unused.find r' segments bs = bs.flatMap fun a =>
        (a.exports.filter fun e =>
          !Unused.isUsed r segments (ImportIndex.build as) e.name a).map fun e =>
            ⟨a.path, e.name, e.line⟩ := by
      rw [Unused.isUsed_of_perm h]
      rfl
    rw [hfind]
    exact h.flatMap_right _
  · -- the search runs differently in the two orders, but both find what loops there are
    have hjoins : g.Joins = g'.Joins := by
      funext p q
      simp only [Joins, hedges.mem_iff]
    rw [← not_iff_not, ← Ne, ← Ne, cycles_build_ne_nil_iff, cycles_build_ne_nil_iff,
      exists_loop_iff, exists_loop_iff]
    show (∃ p, Relation.TransGen g.Joins p p) ↔ ∃ p, Relation.TransGen g'.Joins p p
    rw [hjoins]

/-- Three files on two loops, and an export that nothing imports. -/
def twoLoops : List (FileAnalysis String) :=
  [⟨"a.ts", "src/a.ts", "other",
      [⟨"src/a.ts", "b", "./b", true, 1⟩, ⟨"src/a.ts", "c", "./c", true, 2⟩],
      [⟨"src/a.ts", "a", 3⟩]⟩,
    ⟨"b.ts", "src/b.ts", "other", [⟨"src/b.ts", "a", "./a", true, 1⟩], [⟨"src/b.ts", "b", 2⟩]⟩,
    ⟨"c.ts", "src/c.ts", "other", [⟨"src/c.ts", "b", "./b", true, 1⟩],
      [⟨"src/c.ts", "c", 2⟩, ⟨"src/c.ts", "d", 3⟩]⟩]

/-- From its first file the search reports one loop, from its last both. -/
theorem Graph.twoLoops_reversed :
    let r := Resolver.make (twoLoops.map (·.path)) [".ts"] ["@/"] "src"
    let r' := Resolver.make (twoLoops.reverse.map (·.path)) [".ts"] ["@/"] "src"
    let g := build r twoLoops
    let g' := build r' twoLoops.reverse
    g.cycles = [[0, 1]] ∧ g'.cycles = [[1, 2], [0, 1, 2]] ∧ g.edges.length = 4 ∧
      (g.edges.map g.byPath?).Perm (g'.edges.map g'.byPath?) ∧
      (Unused.find r' Category.builtIn twoLoops.reverse).Perm [⟨"src/c.ts", "d", 3⟩] := by
  intro r r' g g'
  have hunused : Unused.find r Category.builtIn twoLoops = [⟨"src/c.ts", "d", 3⟩] := by
    decide +kernel
  obtain ⟨-, hedges, hfind, -⟩ := same_results_of_perm twoLoops twoLoops.reverse
    (List.reverse_perm twoLoops).symm [".ts"] ["@/"] "src" Category.builtIn
  exact ⟨by decide +kernel, by decide +kernel, by decide +kernel, hedges, hunused ▸ hfind.symm⟩

end ImportAtlas
