import ImportAtlas.Proofs.Analysis.Integrity
import ImportAtlas.Proofs.Discovery.Combined
import ImportAtlas.Proofs.Discovery.Placed
import ImportAtlas.Proofs.Path.Relative
import Mathlib.Data.List.Forall2

/-!
# Paths of nodes

A file is known by its location while it is discovered, by a path from the root of the project in
the graph, and by a normalized path when a specifier is resolved. Below subtrees that lie in the
project all three agree: however a subtree is spelled, its files go by relative paths in normal
form, and such a path is that of a node exactly if it leads to the file of the node.
-/

namespace ImportAtlas

open Path

namespace Location

variable {here root l : Location} {parts : List String}

/-- The location lies below the root, by plain names only. -/
def Inside (root l : Location) : Prop :=
  ∃ parts, parts ≠ [] ∧ (∀ s ∈ parts, Plain s) ∧ l = ⟨root.root, root.parts ++ parts⟩

/-- What lies below the root goes by a relative path in normal form. -/
theorem Inside.normal (h : Inside root l) (here : Location) :
    normalize (relativeTo here root l) = relativeTo here root l ∧
      Text.beginsWith (relativeTo here root l) "/" = false ∧
      ".." ∉ segments (relativeTo here root l) := by
  obtain ⟨parts, hne, hplain, rfl⟩ := h
  rw [relativeTo_below here root hne]
  refine ⟨?_, beginsWith_ofSegments fun s hs => (hplain s hs).toPart, ?_⟩
  · have hread := ofText_ofSegments hplain
    rw [normalize_eq_text_ofText (by rw [hread]; exact hplain), hread]
    exact text_of_ne_nil hne
  · rw [segments_ofSegments hne fun s hs => (hplain s hs).slashFree]
    exact fun hup => (hplain ".." hup).ne_up rfl

/-- A relative path in normal form is that of a location below the root exactly if it leads there
from the root. -/
theorem Inside.relativeTo_eq_iff (h : Inside root l) (here : Location) {p : String}
    (hrelative : Text.beginsWith p "/" = false) (hnormal : normalize p = p) :
    relativeTo here root l = p ↔ root.append (ofText p) = l := by
  obtain ⟨parts, hne, hplain, rfl⟩ := h
  rw [relativeTo_below here root hne]
  constructor
  · rintro rfl
    rw [ofText_ofSegments hplain]
    rfl
  · intro hleads
    have hread := ofText_of_relative hrelative
    rw [append, if_pos (congrArg Location.root hread)] at hleads
    have hparts : (ofText p).parts = parts := List.append_cancel_left (mk.inj hleads).2
    rw [← hnormal, normalize_eq_text_ofText (by rw [hparts]; exact hplain), hread, hparts,
      text_of_ne_nil hne]

theorem Inside.relativeTo_inj {l' : Location} (h : Inside root l) (h' : Inside root l')
    (heq : relativeTo here root l = relativeTo here root l') : l = l' := by
  obtain ⟨hnormal, hrelative, -⟩ := h'.normal here
  rw [← (h.relativeTo_eq_iff here hrelative hnormal).1 heq]
  exact (h'.relativeTo_eq_iff here hrelative hnormal).1 rfl

end Location

/-! ## Where discovered files lie -/

/-- The path of a subtree is relative and never leads back up. -/
structure Subtree.Inner (s : Subtree) : Prop where
  relative : Text.beginsWith s.path "/" = false
  inside : ".." ∉ segments s.path

instance (s : Subtree) : Decidable s.Inner :=
  decidable_of_iff (Text.beginsWith s.path "/" = false ∧ ".." ∉ segments s.path)
    ⟨fun h => ⟨h.1, h.2⟩, fun h => ⟨h.relative, h.inside⟩⟩

theorem World.inside_of_mem_found {w : World} {root l : Location} {exclude : List String}
    (distinct : w.tree.Distinct) (plain : w.tree.Named Plain) {s : Subtree} (hs : s.Inner)
    (h : l ∈ s.found w root exclude) : root.Inside l := by
  obtain ⟨place, path, content, -, hcontent, hallowed, rfl⟩ := (mem_findFiles distinct).1 h
  obtain ⟨-, hpath⟩ := List.forall_mem_append.1 (plain.of_get? hcontent)
  have hroot : (Location.ofText s.path).root = 0 := rootSlashes_eq_zero hs.relative
  refine ⟨(Location.ofText s.path).parts ++ path, ?_, ?_, ?_⟩
  · simp [hallowed.ne_nil]
  · exact List.forall_mem_append.2 ⟨plain_of_mem_ofText hs.inside, hpath⟩
  · simp [Location.append, hroot]

namespace Analysis

variable {w w' : World} {root : Location} {settings : AnalysisSettings} {found : AnalysisRun}

theorem inside_of_mem_texts {d : Discovery} (distinct : w.tree.Distinct)
    (plain : w.tree.Named Plain) (inner : ∀ s ∈ settings.subtrees, s.Inner)
    (h : Discovery.run w root settings.subtrees settings.exclude = .ok d)
    {f : Location × String × String} (hf : f ∈ w.texts d.files) : root.Inside f.1 := by
  obtain ⟨g, hg, htext⟩ := List.mem_filterMap.1 hf
  obtain ⟨text, -, rfl⟩ := Option.map_eq_some_iff.1 htext
  obtain ⟨s, hs, hfound⟩ := (Discovery.mem_files_iff h).1 (List.mem_map_of_mem hg)
  exact World.inside_of_mem_found distinct plain (inner s hs) hfound

/-- Files that hold a text are in different places. -/
theorem pairwise_texts {d : Discovery} {subtrees : List Subtree} {exclude : List String}
    (h : Discovery.run w root subtrees exclude = .ok d) :
    (w.texts d.files).Pairwise fun f g => f.1 ≠ g.1 := by
  refine List.pairwise_filterMap.2 ((List.pairwise_map.1 (Discovery.nodup_files h)).imp ?_)
  intro a b hne f hf g hg
  obtain ⟨t, -, rfl⟩ := Option.map_eq_some_iff.1 hf
  obtain ⟨u, -, rfl⟩ := Option.map_eq_some_iff.1 hg
  exact hne

/-- The node of a file. -/
def StandsFor (w : World) (root : Location) (settings : AnalysisSettings) (n : SourceFile String)
    (f : Location × String × String) : Prop :=
  ∃ k, n = Graph.nodeOf k (ofFile w root settings f)

theorem StandsFor.path_eq {n : SourceFile String} {f : Location × String × String}
    (h : StandsFor w root settings n f) : n.path = Location.relativeTo w.here root f.1 := by
  obtain ⟨k, rfl⟩ := h
  rfl

/-- The nodes of a report stand for the files that hold a text, in their order. -/
theorem forall₂_standsFor (h : examine w root settings = .ok found) :
    List.Forall₂ (StandsFor w root settings) found.report.nodes
      (w.texts found.discovery.files) := by
  obtain ⟨d, timestamp, -, -, rfl⟩ := examine_eq_ok h
  show List.Forall₂ _ ((files w root settings d).mapIdx Graph.nodeOf) (w.texts d.files)
  rw [files_eq]
  refine List.forall₂_iff_get.2 ⟨by simp, fun k _ hk => ⟨k, ?_⟩⟩
  simp

theorem exists_file (h : examine w root settings = .ok found) {n : SourceFile String}
    (hn : n ∈ found.report.nodes) :
    ∃ f ∈ w.texts found.discovery.files, StandsFor w root settings n f := by
  have hnodes := forall₂_standsFor h
  obtain ⟨k, hk, rfl⟩ := List.getElem_of_mem hn
  exact ⟨_, List.get_mem _ _, hnodes.get hk (hnodes.length_eq ▸ hk)⟩

theorem exists_node (h : examine w root settings = .ok found) {f : Location × String × String}
    (hf : f ∈ w.texts found.discovery.files) :
    ∃ n ∈ found.report.nodes, StandsFor w root settings n f := by
  have hnodes := forall₂_standsFor h
  obtain ⟨k, hk, rfl⟩ := List.getElem_of_mem hf
  exact ⟨_, List.get_mem _ _, hnodes.get (hnodes.length_eq ▸ hk) hk⟩

/-- What a specifier resolves to is the path of a file that holds a text. -/
theorem exists_file_of_resolve (h : examine w root settings = .ok found)
    {specifier directory p : String}
    (hp : (resolver settings found.analyses).resolve specifier directory = some p) :
    ∃ f ∈ w.texts found.discovery.files, Location.relativeTo w.here root f.1 = p := by
  have hknown : p ∈ found.analyses.map (·.path) := List.contains_iff_mem.1 (List.find?_some hp)
  rw [(consistent_of_examine h).analyses, List.map_map] at hknown
  exact List.mem_map.1 hknown

end Analysis

/-- The nodes of a report go by different relative paths, each in normal form and without a way back
up. A relative path in normal form is that of a node exactly if it leads from the root to the file
of the node, and what a specifier resolves to is the path of one node and leads to its file. -/
structure AnalysisRun.PathsNormal (w : World) (root : Location) (settings : AnalysisSettings)
    (found : AnalysisRun) : Prop where
  distinct : (found.report.nodes.map (·.path)).Nodup
  normal : ∀ n ∈ found.report.nodes, normalize n.path = n.path
  relative : ∀ n ∈ found.report.nodes, Text.beginsWith n.path "/" = false
  inside : ∀ n ∈ found.report.nodes, ".." ∉ segments n.path
  files : List.Forall₂ (fun n f => Analysis.StandsFor w root settings n f ∧
      ∀ p, Text.beginsWith p "/" = false → normalize p = p →
        (n.path = p ↔ root.append (Location.ofText p) = f.1))
    found.report.nodes (w.texts found.discovery.files)
  resolved : ∀ specifier directory p,
    (Analysis.resolver settings found.analyses).resolve specifier directory = some p →
      ∃ n ∈ found.report.nodes, n.path = p ∧ (∀ m ∈ found.report.nodes, m.path = p → m = n) ∧
        ∃ f ∈ w.texts found.discovery.files, Analysis.StandsFor w root settings n f ∧
          f.1 = root.append (Location.ofText p)

namespace Analysis

/-- Below subtrees that lie in the project, however they are spelled and wherever they overlap, the
paths of the nodes are normal forms that tell the files apart. -/
theorem run_pathsNormal (w w' : World) (root : Location) (settings : AnalysisSettings)
    (sink : Option MemorySink) (persist : Bool) (found : AnalysisRun)
    (distinct : w.tree.Distinct) (plain : w.tree.Named Plain)
    (inner : ∀ s ∈ settings.subtrees, s.Inner)
    (h : run w root settings sink persist = .ok (found, w')) :
    found.PathsNormal w root settings := by
  have hexamine := examine_of_run h
  have hfound := consistent_of_examine hexamine
  have hrun : Discovery.run w root settings.subtrees settings.exclude = .ok found.discovery :=
    hfound.discovered
  have hinside : ∀ f ∈ w.texts found.discovery.files, root.Inside f.1 := by
    intro f hf
    exact inside_of_mem_texts distinct plain inner hrun hf
  have hnormal : ∀ n ∈ found.report.nodes, normalize n.path = n.path ∧
      Text.beginsWith n.path "/" = false ∧ ".." ∉ Path.segments n.path := by
    intro n hn
    obtain ⟨f, hf, hfor⟩ := exists_file hexamine hn
    rw [hfor.path_eq]
    exact (hinside f hf).normal w.here
  have hleads : ∀ n f, f ∈ w.texts found.discovery.files → StandsFor w root settings n f →
      ∀ p, Text.beginsWith p "/" = false → normalize p = p →
        (n.path = p ↔ root.append (Location.ofText p) = f.1) := by
    intro n f hf hfor p hrelative hp
    rw [hfor.path_eq]
    exact (hinside f hf).relativeTo_eq_iff w.here hrelative hp
  have hnodup : (found.report.nodes.map (·.path)).Nodup := by
    rw [hfound.paths]
    refine List.pairwise_map.2 ((pairwise_texts hrun).imp_of_mem ?_)
    intro f g hf hg hne heq
    exact hne ((hinside f hf).relativeTo_inj (hinside g hg) heq)
  refine ⟨hnodup, fun n hn => (hnormal n hn).1, fun n hn => (hnormal n hn).2.1,
    fun n hn => (hnormal n hn).2.2, ?_, ?_⟩
  · have hnodes := List.forall₂_iff_zip.1 (forall₂_standsFor hexamine)
    refine List.forall₂_iff_zip.2 ⟨hnodes.1, fun hzip => ?_⟩
    have hfor := hnodes.2 hzip
    exact ⟨hfor, hleads _ _ (List.of_mem_zip hzip).2 hfor⟩
  · intro specifier directory p hp
    obtain ⟨f, hf, hpath⟩ := exists_file_of_resolve hexamine hp
    obtain ⟨n, hn, hfor⟩ := exists_node hexamine hf
    have hnp : n.path = p := hfor.path_eq.trans hpath
    -- candidates need not be in normal form; one that is known is, as the path of a node
    obtain ⟨hp, hrelative, -⟩ := hnp ▸ hnormal n hn
    refine ⟨n, hn, hnp, ?_, f, hf, hfor, ((hleads n f hf hfor p hrelative hp).1 hnp).symm⟩
    intro m hm hmp
    exact List.inj_on_of_nodup_map hnodup hm hn (hmp.trans hnp.symm)

/-- The sources, the types among them and the whole project, each under an odd spelling. -/
def respelledSubtrees : List Subtree :=
  [⟨.str "sources", ".//src/", "other", [".ts"]⟩, ⟨.str "types", "src/types/.", "type", [".ts"]⟩,
    ⟨.str "all", ".", "other", [".ts"]⟩]

theorem respelledSubtrees_pathsNormal :
    mixedProject.tree.Distinct ∧ mixedProject.tree.Named Plain ∧
    (∀ s ∈ respelledSubtrees, s.Inner) ∧
    ∃ found w', run mixedProject ⟨1, ["p"]⟩
        { Settings.default.analysis with subtrees := respelledSubtrees } none false =
          .ok (found, w') ∧
      found.PathsNormal mixedProject ⟨1, ["p"]⟩
        { Settings.default.analysis with subtrees := respelledSubtrees } ∧
      found.report.nodes.map (·.path) = ["src/lib/a.ts", "src/types/t.ts"] := by
  have hdistinct : mixedProject.tree.Distinct := by simp [mixedProject]
  have hnames : ∀ s ∈ ["p", "src", "lib", "a.ts", "b.ts", "types", "t.ts"], Plain s := by
    decide +kernel
  have hplain : mixedProject.tree.Named Plain := by
    simp [mixedProject, hnames]
  have hinner : ∀ s ∈ respelledSubtrees, s.Inner := by decide +kernel
  have hcomputed : (run mixedProject ⟨1, ["p"]⟩
      { Settings.default.analysis with subtrees := respelledSubtrees } none false).toOption.map
        (·.1.report.nodes.map (·.path)) = some ["src/lib/a.ts", "src/types/t.ts"] := by
    decide +kernel
  obtain ⟨⟨found, w'⟩, hrun, hpaths⟩ := toOption_map_eq_some_iff.1 hcomputed
  exact ⟨hdistinct, hplain, hinner, found, w', hrun,
    run_pathsNormal _ _ _ _ _ _ _ hdistinct hplain hinner hrun, hpaths⟩

end Analysis

end ImportAtlas
