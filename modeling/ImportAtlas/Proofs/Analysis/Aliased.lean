import ImportAtlas.Proofs.Analysis.Run
import ImportAtlas.Proofs.Discovery.Placed
import ImportAtlas.Proofs.Unused.Evidence

/-!
# Uses behind an alias

Behind an alias an edge is found by resolving a path, and a use by comparing two segments: the first
must stand for the category of the exporting file and the last must be its name. With the settings
of a project that sets nothing, the two agree wherever the first segment of the specifier stands for
that category and the last is a name of the file. They differ where the specifier goes by the
directory of an index file, ends in dots, or begins in a directory of another category, as for every
file below `app`, whose first segment stands for pages.
-/

namespace ImportAtlas

open Path

/-! ## Where the files of a project lie -/

namespace Analysis

variable {w w' : World} {root : Location} {found : AnalysisRun}

/-- A file below the path of a default subtree, with that subtree's category. -/
structure Placed (a : FileAnalysis String) : Prop where
  subtree : ∃ s ∈ Settings.defaultSubtrees, a.category = s.category ∧
    ∃ below, Path.segments a.path = Path.segments s.path ++ below
  name : (Path.segments a.path).getLast? = some a.name

theorem segments_default : segments Settings.default.analysis = Category.builtIn := by
  decide +kernel

theorem location_of_subtree : ∀ s ∈ Settings.defaultSubtrees,
    (Location.ofText s.path).root = 0 ∧ (Location.ofText s.path).parts ≠ [] ∧
      ofSegments (Location.ofText s.path).parts = s.path ∧ s.category ≠ "" := by
  decide +kernel

theorem category_of_nested : ∀ s ∈ Settings.defaultSubtrees, ∀ t ∈ Settings.defaultSubtrees,
    Path.segments s.path <+: Path.segments t.path → s.category = t.category := by
  decide +kernel

/-- The path of a file tells its category. -/
theorem Placed.category_eq {a b : FileAnalysis String} (ha : Placed a) (hb : Placed b)
    (hpath : a.path = b.path) : a.category = b.category := by
  obtain ⟨s, hs, hcategory, below, hbelow⟩ := ha.subtree
  obtain ⟨t, ht, hcategory', below', hbelow'⟩ := hb.subtree
  have hsa : Path.segments s.path <+: Path.segments b.path := ⟨below, by rw [← hbelow, hpath]⟩
  have htb : Path.segments t.path <+: Path.segments b.path := ⟨below', hbelow'.symm⟩
  rw [hcategory, hcategory']
  rcases List.prefix_or_prefix_of_prefix hsa htb with h | h
  · exact category_of_nested s hs t ht h
  · exact (category_of_nested t ht s hs h).symm

theorem placed_of_mem (hw : w.tree.SlashFree)
    (h : examine w root Settings.default.analysis = .ok found) {a : FileAnalysis String}
    (ha : a ∈ found.analyses) : Placed a := by
  obtain ⟨d, timestamp, hd, -, rfl⟩ := examine_eq_ok h
  dsimp only at ha
  rw [files_eq] at ha
  obtain ⟨f, hf, rfl⟩ := List.mem_map.1 ha
  obtain ⟨g, hg, htext⟩ := List.mem_filterMap.1 hf
  obtain ⟨text, -, rfl⟩ := Option.map_eq_some_iff.1 htext
  obtain ⟨s, hs, hfile, hcategory⟩ := Discovery.fromSubtree_run hd g hg
  obtain ⟨hroot, hparts, hpath, hnonempty⟩ := location_of_subtree s hs
  obtain ⟨path, hne, hnames, hlocation⟩ := World.exists_of_mem_findFiles hw hfile
  rw [Location.append, if_pos hroot] at hlocation
  dsimp only at hlocation
  rw [List.append_assoc] at hlocation
  obtain ⟨front, name, rfl⟩ := List.eq_nil_or_concat path |>.resolve_left hne
  rw [List.concat_eq_append] at hlocation hnames
  have hfull : (ofFile w root Settings.default.analysis (g.1, g.2, text)).path =
      s.path ++ "/" ++ ofSegments (front ++ [name]) := by
    show Location.relativeTo w.here root g.1 = _
    rw [hlocation, Location.relativeTo_below _ _ (by simp), ofSegments_append hparts (by simp),
      hpath]
  constructor
  case subtree =>
    refine ⟨s, hs, ?_, Path.segments (ofSegments (front ++ [name])), ?_⟩
    · show (if g.2 = "" then _ else g.2) = _
      rw [hcategory, if_neg hnonempty]
    · rw [hfull, segments_append]
  case name =>
    have hname : (ofFile w root Settings.default.analysis (g.1, g.2, text)).name = name := by
      show g.1.name = name
      rw [hlocation, Location.name]
      simp
    have hslash : '/' ∉ name.toList := hnames name (by simp)
    rw [hname, hfull]
    by_cases hfront : front = []
    · subst hfront
      exact getLast?_segments_append hslash s.path
    · rw [ofSegments_append hfront (by simp), ← String.append_assoc, ← String.append_assoc]
      exact getLast?_segments_append hslash _

end Analysis

/-! ## What an aliased specifier resolves to -/

namespace Resolver

/-- The resolver of a project that sets nothing. -/
def standard (known : List String) : Resolver :=
  make known defaultExtensions defaultAliases defaultSourceRoot

variable {known : List String} {rest last importer path : String}

theorem sourceRoot_standard (known : List String) : (standard known).sourceRoot = "src" := by
  show trimSlashes "src" = "src"
  decide +kernel

theorem aliasOf?_standard (known : List String) (rest : String) :
    (standard known).aliasOf? ("@/" ++ rest) = some "@/" := by
  have hbegins : Text.beginsWith ("@/" ++ rest) "@/" = true := by simp [Text.beginsWith]
  simp [standard, aliasOf?, make, defaultAliases, hbegins]

theorem candidates_standard (known : List String) (rest directory : String) :
    (standard known).candidates ("@/" ++ rest) directory =
      (standard known).filesAt (normalize (join "src" rest)) := by
  simp only [candidates, base?, aliasOf?_standard, withoutAlias_append, sourceRoot_standard]

theorem extension_standard : ∀ ext ∈ (standard known).extensions,
    '/' ∉ ext.toList ∧ '/' ∉ ("index" ++ ext).toList ∧ ∃ e ∈ ["ts", "tsx"], ext = "." ++ e := by
  show ∀ ext ∈ defaultExtensions, _
  decide

/-- Behind the alias, the file that is resolved to goes by the last segment of the specifier or is
an index file. -/
theorem last_of_target? (hlast : (segments rest).getLast? = some last) (hdots : MoreThanDots last)
    (h : (standard known).target? ("@/" ++ rest) importer = some path) :
    ∃ ext ∈ ["ts", "tsx"],
      (segments path).getLast? = some (last ++ "." ++ ext) ∨
        (segments path).getLast? = some ("index." ++ ext) := by
  have hmem := mem_candidates_of_target? h
  rw [candidates_standard, filesAt, List.mem_append, List.mem_map, List.mem_map] at hmem
  rcases hmem with ⟨ext, hext, rfl⟩ | ⟨ext, hext, rfl⟩
  · obtain ⟨hslash, -, e, he, rfl⟩ := extension_standard ext hext
    have hbase : (segments (join "src" rest)).getLast? = some last := by
      rw [getLast?_segments_join_below (by decide +kernel), hlast]
    refine ⟨e, he, .inl ?_⟩
    rw [getLast?_segments_normalize hbase hdots hslash, String.append_assoc]
  · obtain ⟨-, hslash, e, he, rfl⟩ := extension_standard ext hext
    exact ⟨e, he, .inr (getLast?_segments_join _ hslash)⟩

end Resolver

/-! ## Edges and uses -/

namespace Analysis

variable {w w' : World} {root : Location} {found : AnalysisRun}

/-- What follows the alias of a specifier names a node: its first segment stands for the category of
the node, and it ends in a segment that is more than dots. An index file is named by a last segment
of its own. -/
structure Names (rest : String) (n : SourceFile String) : Prop where
  category : (Path.segments rest).head?.map (Category.ofSegment Category.builtIn) = some n.category
  file : ∃ last, (Path.segments rest).getLast? = some last ∧ MoreThanDots last ∧
    (n.name = "index.ts" ∨ n.name = "index.tsx" → last = "index" ∨ last = n.name)

theorem plain_extension : ∀ ext ∈ ["ts", "tsx"], '/' ∉ ext.toList ∧ '.' ∉ ext.toList ∧
    ("index." ++ ext = "index.ts" ∨ "index." ++ ext = "index.tsx") ∧
      (splitExtension ("index." ++ ext)).1 = "index" := by
  decide +kernel

/-- A file that a specifier resolves to and names goes by its last segment, with or without an
extension. -/
theorem Names.last_eq {rest importer : String} {known : List String} {n : SourceFile String}
    (h : Names rest n) (hname : (Path.segments n.path).getLast? = some n.name)
    (htarget : (Resolver.standard known).target? ("@/" ++ rest) importer = some n.path) :
    ∃ last, (Path.segments rest).getLast? = some last ∧
      (last = n.name ∨ last = (splitExtension n.name).1) := by
  obtain ⟨last, hlast, hdots, hindex⟩ := h.file
  refine ⟨last, hlast, ?_⟩
  obtain ⟨ext, hext, hpath⟩ := Resolver.last_of_target? hlast hdots htarget
  obtain ⟨hslash, hdot, hindexed, hstem⟩ := plain_extension ext hext
  rw [hname, Option.some.injEq, Option.some.injEq] at hpath
  rcases hpath with hpath | hpath
  · right
    have hfree : '/' ∉ last.toList := notMem_of_mem_segments (List.mem_of_getLast? hlast)
    rw [hpath, splitExtension_append hdots hfree hslash hdot]
  · rcases hindex (hpath ▸ hindexed) with rfl | hsame
    · right
      rw [hpath, hstem]
    · exact .inl hsame

theorem Names.reaches {rest importer : String} {known : List String} {n : SourceFile String}
    {i : Import String} (h : Names rest n) (hspecifier : i.specifier = "@/" ++ rest)
    (hname : (Path.segments n.path).getLast? = some n.name)
    (htarget : (Resolver.standard known).target? i.specifier importer = some n.path)
    {b : FileAnalysis String} (hb : Placed b) (hpath : b.path = n.path)
    (hcategory : n.category = b.category) :
    Unused.reaches (.standard known) Category.builtIn i b = true := by
  rw [hspecifier] at htarget
  obtain ⟨first, hfirst, hstands⟩ := Option.map_eq_some_iff.1 h.category
  obtain ⟨last, hlast, hsame⟩ := h.last_eq hname htarget
  have hbname : b.name = n.name := by
    have heq := hb.name
    rw [hpath, hname] at heq
    exact (Option.some.inj heq).symm
  unfold Unused.reaches Unused.aliasReaches
  simp only [Label.text?_string, hspecifier, Resolver.aliasOf?_standard,
    Resolver.withoutAlias_append, hfirst, hlast, Option.getD_some, hstands, hcategory, hbname]
  simpa using hsame

/-- In a project that sets nothing, an import behind the alias that became an edge and names the
node it leads to is a use: the imported name is not reported as unused under the path of the node. -/
theorem aliased_edge_not_reported (w w' : World) (root : Location) (sink : Option MemorySink)
    (persist : Bool) (found : AnalysisRun) (hw : w.tree.SlashFree)
    (h : run w root Settings.default.analysis sink persist = .ok (found, w')) :
    ∀ e ∈ found.report.edges, ∀ n ∈ found.report.nodes, n.id = e.target →
      ∀ rest, e.specifier = "@/" ++ rest → Names rest n →
        ∀ u ∈ found.report.unusedExports, u.file = n.path → u.name ≠ e.name := by
  have hexamine := examine_of_run h
  have hplaced : ∀ a ∈ found.analyses, Placed a := fun a ha => placed_of_mem hw hexamine ha
  obtain ⟨timestamp, hreport⟩ := report_of_examine hexamine
  dsimp only at hreport
  rw [hreport]
  intro e he n hn hid rest hspecifier hnames u hu hfile
  obtain ⟨a, ha, i, hi, b, hb, t, hrel, hname, hsame, htarget, hnode⟩ :=
    Graph.exists_import_of_edge he
  rw [← hid, Graph.node?_of_mem hn] at hnode
  cases hnode
  rw [hname]
  refine Unused.name_ne_of_reaches (List.mem_flatMap.2 ⟨a, ha, hi⟩) hrel ?_ hu hfile
  intro c hc hpath
  rw [segments_default]
  exact hnames.reaches (hsame ▸ hspecifier) (hplaced b hb).name htarget (hplaced c hc) hpath
    ((hplaced b hb).category_eq (hplaced c hc) hpath.symm)

/-- What a run reports, if it gives a report. -/
def reported (w : World) (root : Location) :
    Option (List (Edge String) × List (SourceFile String) × List (UnusedExport String)) :=
  (run w root Settings.default.analysis none false).toOption.map fun found =>
    (found.1.report.edges, found.1.report.nodes, found.1.report.unusedExports)

theorem exists_run_of_reported {w : World} {root : Location} {edges : List (Edge String)}
    {nodes : List (SourceFile String)} {unused : List (UnusedExport String)}
    (h : reported w root = some (edges, nodes, unused)) :
    ∃ found w', run w root Settings.default.analysis none false = .ok (found, w') ∧
      found.report.edges = edges ∧ found.report.nodes = nodes ∧
      found.report.unusedExports = unused := by
  unfold reported at h
  cases hrun : run w root Settings.default.analysis none false with
  | error e => rw [hrun] at h; cases h
  | ok p =>
    rw [hrun] at h
    cases h
    exact ⟨p.1, p.2, rfl, rfl, rfl, rfl⟩

/-- A helper two directories down, and a hook that imports it on a detour through a directory that
is not there and has the name of the helper's category. -/
def detourProject : World where
  tree := .dir [("p", .dir [("src", .dir [
    ("hooks", .dir [("use.ts",
      .file "import \x7b help \x7d from '@/utility/../lib/deep/a.b'\n".toUTF8)]),
    ("lib", .dir [("deep", .dir [("a.b.ts",
      .file "export const help = 1\nexport const spare = 2\n".toUTF8)])])])])]
  here := ⟨1, []⟩
  home := ⟨1, ["home"]⟩
  now := ⟨0, 0⟩
  settingsFile := none

theorem detourProject_not_reported :
    let hook : SourceFile String := ⟨0, "use.ts", "src/hooks/use.ts", "hook", 1, 0⟩
    let helper : SourceFile String := ⟨1, "a.b.ts", "src/lib/deep/a.b.ts", "utility", 0, 2⟩
    let edge : Edge String := ⟨0, 1, "help", "@/utility/../lib/deep/a.b", 1⟩
    ∃ found w', run detourProject ⟨1, ["p"]⟩ Settings.default.analysis none false = .ok (found, w') ∧
      found.report.edges = [edge] ∧ found.report.nodes = [hook, helper] ∧
      Names "utility/../lib/deep/a.b" helper ∧
      (∀ u ∈ found.report.unusedExports, u.file = helper.path → u.name ≠ "help") ∧
      found.report.unusedExports = [⟨"src/lib/deep/a.b.ts", "spare", 2⟩] := by
  intro hook helper edge
  have hreported : reported detourProject ⟨1, ["p"]⟩ =
      some ([edge], [hook, helper], [⟨"src/lib/deep/a.b.ts", "spare", 2⟩]) := by
    decide +kernel
  obtain ⟨found, w', hrun, hedges, hnodes, hunused⟩ := exists_run_of_reported hreported
  have hfree : detourProject.tree.SlashFree := by simp [detourProject]
  have hnames : Names "utility/../lib/deep/a.b" helper := by
    constructor
    case category => decide +kernel
    case file => exact ⟨"a.b", by decide +kernel⟩
  refine ⟨found, w', hrun, hedges, hnodes, hnames, ?_, hunused⟩
  exact aliased_edge_not_reported _ _ _ _ _ _ hfree hrun edge (by simp [hedges]) helper
    (by simp [hnodes]) rfl _ (by decide +kernel) hnames

/-- A component in a directory of its own, and one that imports it by the name of the directory. -/
def buttonProject : World where
  tree := .dir [("p", .dir [("src", .dir [("components", .dir [
    ("Button", .dir [("index.tsx", .file "export const Button = 1\n".toUTF8)]),
    ("Card.tsx", .file "import \x7b Button \x7d from '@/components/Button'\n".toUTF8)])])])]
  here := ⟨1, []⟩
  home := ⟨1, ["home"]⟩
  now := ⟨0, 0⟩
  settingsFile := none

/-- An import that resolves to an index file through its directory becomes an edge, and yet the
imported export is reported as unused. -/
theorem buttonProject_reported :
    ∃ found w', run buttonProject ⟨1, ["p"]⟩ Settings.default.analysis none false = .ok (found, w') ∧
      ∃ e ∈ found.report.edges, ∃ n ∈ found.report.nodes, n.id = e.target ∧
        e.specifier = "@/" ++ "components/Button" ∧
        ∃ u ∈ found.report.unusedExports, u.file = n.path ∧ u.name = e.name := by
  have hreported : reported buttonProject ⟨1, ["p"]⟩ =
      some ([⟨1, 0, "Button", "@/components/Button", 1⟩],
        [⟨0, "index.tsx", "src/components/Button/index.tsx", "component", 0, 1⟩,
          ⟨1, "Card.tsx", "src/components/Card.tsx", "component", 1, 0⟩],
        [⟨"src/components/Button/index.tsx", "Button", 1⟩]) := by
    decide +kernel
  obtain ⟨found, w', hrun, hedges, hnodes, hunused⟩ := exists_run_of_reported hreported
  refine ⟨found, w', hrun, ?_⟩
  rw [hedges, hnodes, hunused]
  decide +kernel

/-- A hook that imports a route by its place, and two helpers on detours: the first through the
directory of the hooks, the second through a directory below it that is not there. -/
def strayProject : World where
  tree := .dir [("p", .dir [("src", .dir [
    ("app", .dir [("api", .dir [("users.ts", .file "export const get = 1\n".toUTF8)])]),
    ("hooks", .dir [("use.ts", .file ("import \x7b get \x7d from '@/app/api/users'\n" ++
      "import \x7b x \x7d from '@/hooks/../lib/x'\nimport \x7b a \x7d from '@/lib/a/b/..'\n").toUTF8)]),
    ("lib", .dir [("a.ts", .file "export const a = 1\n".toUTF8),
      ("x.ts", .file "export const x = 1\n".toUTF8)])])])]
  here := ⟨1, []⟩
  home := ⟨1, ["home"]⟩
  now := ⟨0, 0⟩
  settingsFile := none

/-- The first segment must stand for the category and the last must be more than dots: where one of
the two fails, an import becomes an edge and the imported export is reported as unused. -/
theorem strayProject_reported :
    ∃ found w', run strayProject ⟨1, ["p"]⟩ Settings.default.analysis none false = .ok (found, w') ∧
      ∀ rest ∈ ["app/api/users", "hooks/../lib/x", "lib/a/b/.."],
        ∃ e ∈ found.report.edges, ∃ n ∈ found.report.nodes, n.id = e.target ∧
          e.specifier = "@/" ++ rest ∧
          ∃ u ∈ found.report.unusedExports, u.file = n.path ∧ u.name = e.name := by
  have hreported : reported strayProject ⟨1, ["p"]⟩ =
      some ([⟨0, 3, "get", "@/app/api/users", 1⟩, ⟨0, 2, "x", "@/hooks/../lib/x", 2⟩,
          ⟨0, 1, "a", "@/lib/a/b/..", 3⟩],
        [⟨0, "use.ts", "src/hooks/use.ts", "hook", 3, 0⟩,
          ⟨1, "a.ts", "src/lib/a.ts", "utility", 0, 1⟩,
          ⟨2, "x.ts", "src/lib/x.ts", "utility", 0, 1⟩,
          ⟨3, "users.ts", "src/app/api/users.ts", "api", 0, 1⟩],
        [⟨"src/lib/a.ts", "a", 1⟩, ⟨"src/lib/x.ts", "x", 1⟩,
          ⟨"src/app/api/users.ts", "get", 1⟩]) := by
    decide +kernel
  obtain ⟨found, w', hrun, hedges, hnodes, hunused⟩ := exists_run_of_reported hreported
  refine ⟨found, w', hrun, ?_⟩
  rw [hedges, hnodes, hunused]
  decide +kernel

end Analysis

end ImportAtlas
