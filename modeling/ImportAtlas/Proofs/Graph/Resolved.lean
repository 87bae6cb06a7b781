import ImportAtlas.Proofs.Graph.Built

/-!
# The edges are the imports that resolve

Edge after edge the graph records the imports that point into the project and resolve to the path of
an analysis, in the order in which they stand. Where two analyses have one path, the first of them
has its number. Imports that were read from a text with the aliases of the resolver point into the
project whenever they resolve at all, so of those every one that resolves to an analysis is recorded.
-/

namespace ImportAtlas

/-! ## What resolves points into the project -/

/-- A resolver has nothing to say on a specifier that does not point into the project. -/
theorem Resolver.isProjectSpecifier_of_resolveFrom {r : Resolver} {specifier importer path : String}
    (h : r.resolveFrom specifier importer = some path) :
    isProjectSpecifier r.aliases specifier = true := by
  have hmem : path ∈ r.candidates specifier (Path.dirname importer) := List.mem_of_find?_eq_some h
  unfold candidates base? at hmem
  unfold isProjectSpecifier
  cases halias : r.aliasOf? specifier with
  | some a =>
    -- the alias need not come before the dot: both tests are made of the whole specifier
    have hbegins : r.aliases.any (Text.beginsWith specifier) = true :=
      List.any_eq_true.2 ⟨a, List.mem_of_find?_eq_some halias, List.find?_some halias⟩
    rw [hbegins, Bool.or_true]
  | none =>
    by_cases hdot : Text.beginsWith specifier "." = true
    · rw [hdot, Bool.true_or]
    · simp [halias, hdot] at hmem

/-- The mark of an import that was read from a text says whether it points into the project. -/
theorem isRelative_of_mem_importsOf {aliases : List String} {file content : String}
    {i : Import String} (h : i ∈ importsOf aliases file content) :
    i.isRelative = isProjectSpecifier aliases i.specifier := by
  obtain ⟨f, -, hf⟩ := List.mem_flatMap.1 h
  obtain ⟨name, -, rfl⟩ := List.mem_map.1 hf
  rfl

namespace Graph

variable {r : Resolver} {analyses : List (FileAnalysis String)}

/-! ## One import -/

/-- The imports of all files, each with the analysis it stands in. -/
def ownedImports (analyses : List (FileAnalysis String)) :
    List (FileAnalysis String × Import String) :=
  analyses.flatMap fun a => a.imports.map (a, ·)

/-- The imports whose specifiers resolve to the path of an analysis. -/
def resolving (r : Resolver) (analyses : List (FileAnalysis String)) :
    List (FileAnalysis String × Import String) :=
  (ownedImports analyses).filter fun (a, i) =>
    (r.resolveFrom i.specifier a.path).any (analyses.map (·.path)).contains

theorem mem_ownedImports {p : FileAnalysis String × Import String} :
    p ∈ ownedImports analyses ↔ p.1 ∈ analyses ∧ p.2 ∈ p.1.imports := by
  obtain ⟨a, i⟩ := p
  simp [ownedImports]

theorem mem_resolving {p : FileAnalysis String × Import String} :
    p ∈ resolving r analyses ↔ p ∈ ownedImports analyses ∧
      ∃ path ∈ analyses.map (·.path), r.resolveFrom p.2.specifier p.1.path = some path := by
  simp only [resolving, List.mem_filter, Option.any_eq_true, List.contains_iff_mem, and_comm]

/-- The first node with the given path. -/
def firstAt? (g : Graph String) (path : String) : Option (SourceFile String) :=
  g.nodes.find? (·.path == path)

/-- The edge joins the first nodes of the file that holds the import and of the file that the import
resolves to, and says what the import says. -/
structure Records (r : Resolver) (g : Graph String) (p : FileAnalysis String × Import String)
    (e : Edge String) : Prop where
  source : ∃ n, g.firstAt? p.1.path = some n ∧ e.source = n.id
  target : ∃ path n, r.resolveFrom p.2.specifier p.1.path = some path ∧
    g.firstAt? path = some n ∧ e.target = n.id
  name : e.name = p.2.name
  specifier : e.specifier = p.2.specifier
  line : e.line = p.2.line

/-- The number of a path is that of the first node that has it. -/
theorem firstAt?_build {path : String} {n : Nat} (h : idOf? analyses path = some n) :
    ∃ node, (build r analyses).firstAt? path = some node ∧ node.id = n := by
  obtain ⟨hn, hpath, hbefore⟩ := List.findIdx?_eq_some_iff_getElem.1 h
  refine ⟨nodeOf n analyses[n], ?_, rfl⟩
  refine List.find?_eq_some_iff_getElem.2 ⟨hpath, n, by simpa [build] using hn, by simp [build], ?_⟩
  intro k hk
  simpa [build, nodeOf] using hbefore k hk

theorem records_edgeOf? {a : FileAnalysis String} {i : Import String} {e : Edge String}
    (h : edgeOf? r analyses a i = some e) : Records r (build r analyses) (a, i) e := by
  obtain ⟨-, s, t, path, hs, hpath, ht, rfl⟩ := edgeOf?_eq_some_iff.1 h
  obtain ⟨source, hsource, hsid⟩ := firstAt?_build (r := r) hs
  obtain ⟨target, htarget, htid⟩ := firstAt?_build (r := r) ht
  have hresolve : (r.resolveFrom i.specifier a.path).map id = some path := hpath
  rw [Option.map_id_apply] at hresolve
  exact ⟨⟨source, hsource, hsid.symm⟩, ⟨path, target, hresolve, htarget, htid.symm⟩, rfl, rfl, rfl⟩

/-- An import has an edge exactly if it points into the project and is among those that resolve. -/
theorem edgeOf?_isSome_iff {a : FileAnalysis String} {i : Import String} (ha : a ∈ analyses) :
    (edgeOf? r analyses a i).isSome ↔ i.isRelative = true ∧
      (r.resolveFrom i.specifier a.path).any (analyses.map (·.path)).contains = true := by
  have htarget : r.target? i.specifier a.path = r.resolveFrom i.specifier a.path :=
    Option.map_id_apply
  rw [Option.any_eq_true, Option.isSome_iff_exists]
  simp only [edgeOf?_eq_some_iff, htarget, List.contains_iff_mem, ← idOf?_isSome_iff]
  constructor
  · rintro ⟨-, hrel, -, t, path, -, hpath, ht, -⟩
    exact ⟨hrel, path, hpath, by rw [ht]; rfl⟩
  · rintro ⟨hrel, path, hpath, ht⟩
    obtain ⟨s, hs⟩ := exists_idOf? ha
    obtain ⟨t, ht⟩ := Option.isSome_iff_exists.1 ht
    exact ⟨_, hrel, s, t, path, hs, hpath, ht, rfl⟩

/-! ## All imports -/

/-- Import after import, the edges record those that have one. -/
theorem records_filterMap (l : List (FileAnalysis String × Import String)) :
    List.Forall₂ (Records r (build r analyses))
      (l.filter fun (a, i) => (edgeOf? r analyses a i).isSome)
      (l.filterMap fun (a, i) => edgeOf? r analyses a i) := by
  induction l with
  | nil => exact .nil
  | cons p l ih =>
    cases hedge : edgeOf? r analyses p.1 p.2 with
    | none => simpa [List.filter_cons, hedge] using ih
    | some e => simpa [List.filter_cons, hedge] using ⟨records_edgeOf? hedge, ih⟩

theorem edges_build (r : Resolver) (analyses : List (FileAnalysis String)) :
    (build r analyses).edges =
      (ownedImports analyses).filterMap fun (a, i) => edgeOf? r analyses a i := by
  simp only [build, ownedImports, List.filterMap_flatMap, List.filterMap_map, Function.comp_def]

theorem filter_resolving (r : Resolver) (analyses : List (FileAnalysis String)) :
    (resolving r analyses).filter (·.2.isRelative) =
      (ownedImports analyses).filter fun (a, i) => (edgeOf? r analyses a i).isSome := by
  rw [resolving, List.filter_filter]
  refine List.filter_congr fun p hp => ?_
  rw [Bool.eq_iff_iff, Bool.and_eq_true]
  exact (edgeOf?_isSome_iff (mem_ownedImports.1 hp).1).symm

/-- The edges record, one by one and in their order, the imports that point into the project and
resolve to the path of an analysis; and if the imports were read from texts with the aliases of the
resolver, those are all that resolve to the path of an analysis. -/
theorem edges_record_resolving_imports (r : Resolver) (analyses : List (FileAnalysis String)) :
    List.Forall₂ (Records r (build r analyses))
        ((resolving r analyses).filter (·.2.isRelative)) (build r analyses).edges ∧
      ((∀ a ∈ analyses, ∀ i ∈ a.imports, ∃ file content, i ∈ importsOf r.aliases file content) →
        List.Forall₂ (Records r (build r analyses)) (resolving r analyses)
          (build r analyses).edges) := by
  have hrecords : List.Forall₂ (Records r (build r analyses))
      ((resolving r analyses).filter (·.2.isRelative)) (build r analyses).edges := by
    rw [edges_build, filter_resolving]
    exact records_filterMap (ownedImports analyses)
  refine ⟨hrecords, fun hread => ?_⟩
  have hall : (resolving r analyses).filter (·.2.isRelative) = resolving r analyses := by
    refine List.filter_eq_self.2 fun p hp => ?_
    obtain ⟨howned, path, -, hpath⟩ := mem_resolving.1 hp
    obtain ⟨ha, hi⟩ := mem_ownedImports.1 howned
    obtain ⟨file, content, hmem⟩ := hread p.1 ha p.2 hi
    rw [isRelative_of_mem_importsOf hmem]
    exact Resolver.isProjectSpecifier_of_resolveFrom hpath
  rwa [hall] at hrecords

/-- Three texts under two paths, read with aliases of which one begins another. -/
def readTogether : List (FileAnalysis String) :=
  [("src/a.ts", "import b, { c as d } from './b';\nimport { z } from '@/z';"),
    ("src/b.ts", "import * as a from '@a';\nimport { useState } from 'react';"),
    ("src/a.ts", "import { b } from '@/b';")].map fun (path, content) =>
      ⟨path, path, "other", importsOf ["@/", "@"] path content, []⟩

/-- The package and the file that was not analysed have no edge, and both files under `src/a.ts` have
the number of the first. -/
theorem readTogether_edges :
    let r := Resolver.make ["src/a.ts", "src/b.ts", "src/z.ts"] [".ts"] ["@/", "@"] "src"
    let g := build r readTogether
    (ownedImports readTogether).length = 6 ∧
      g.edges = [⟨0, 1, "b", "./b", 1⟩, ⟨0, 1, "c", "./b", 1⟩, ⟨1, 0, "a", "@a", 1⟩,
        ⟨0, 1, "b", "@/b", 1⟩] ∧
      List.Forall₂ (Records r g) (resolving r readTogether) g.edges := by
  intro r g
  refine ⟨by decide +kernel, by decide +kernel, (edges_record_resolving_imports r _).2 ?_⟩
  intro a ha i hi
  obtain ⟨⟨path, content⟩, -, rfl⟩ := List.mem_map.1 ha
  exact ⟨path, content, hi⟩

end Graph

end ImportAtlas
