import ImportAtlas.Proofs.Path.Segments
import ImportAtlas.Proofs.Unused.Indexed

/-!
# The exhaustive search

`Points r segments i a` says what in an import `i` is evidence for a file `a`, and `Used` asks for
such an import anywhere among the analysed files. The search by the index reports exactly the
exports that are not `Used`. Evidence is about one import and one file, so no use is lost when files
or imports are added, and the known paths of the resolver play no part in it.
-/

namespace ImportAtlas.Unused

/-- What in an import is evidence for a file. -/
inductive Points (r : Resolver) (segments : Category.Segments) (i : Import String)
    (a : FileAnalysis String) : Prop
  /-- Behind an alias the first segment stands for the category of the file, and the last one is its
  name, with or without the extension. -/
  | aliased {lead rest first last : String} (lead_eq : r.aliasOf? i.specifier = some lead)
      (specifier_eq : i.specifier = lead ++ rest)
      (first_eq : (Path.segments rest).head? = some first)
      (last_eq : (Path.segments rest).getLast? = some last)
      (category_eq : Category.ofSegment segments first = a.category)
      (name_eq : last = a.name ∨ last = (Path.splitExtension a.name).1)
  /-- Otherwise the specifier begins with a dot, and the file is one of those it may mean. -/
  | relative (lead_none : r.aliasOf? i.specifier = none)
      (dotted : Text.beginsWith i.specifier "." = true)
      (candidate : a.path ∈ r.candidates i.specifier (Path.dirname i.file))

/-- Some import anywhere among the files has the name, points into the project and is evidence for
the file `a`. -/
def Used (r : Resolver) (segments : Category.Segments) (analyses : List (FileAnalysis String))
    (name : String) (a : FileAnalysis String) : Prop :=
  ∃ b ∈ analyses, ∃ i ∈ b.imports, i.name = name ∧ i.isRelative = true ∧ Points r segments i a

variable {r : Resolver} {segments : Category.Segments} {analyses larger : List (FileAnalysis String)}
  {i : Import String} {a : FileAnalysis String} {name : String}

/-! ## The search reports what is not used -/

/-- A package has no candidates. -/
theorem beginsWith_of_mem_candidates {specifier directory path : String}
    (hnone : r.aliasOf? specifier = none) (h : path ∈ r.candidates specifier directory) :
    Text.beginsWith specifier "." = true := by
  by_contra hdot
  rw [Resolver.candidates, Resolver.base?, hnone] at h
  simp only [hdot] at h
  cases h

theorem aliasReaches_iff {rest category : String} :
    aliasReaches segments rest (some category) (some name) = true ↔
      ∃ first last, (Path.segments rest).head? = some first ∧
        (Path.segments rest).getLast? = some last ∧
        Category.ofSegment segments first = category ∧
        (last = name ∨ last = (Path.splitExtension name).1) := by
  obtain ⟨first, more, hparts⟩ := List.exists_cons_of_ne_nil (Path.segments_ne_nil rest)
  unfold aliasReaches
  simp [hparts, List.getLast?_cons, eq_comm (a := category)]

theorem reaches_iff_points : reaches r segments i a = true ↔ Points r segments i a := by
  unfold reaches
  cases hlead : r.aliasOf? i.specifier with
  | some lead =>
    obtain ⟨rest, hspecifier⟩ := Text.beginsWith_iff.1 (List.find?_some hlead)
    simp only [Label.text?_string, hlead]
    rw [hspecifier, Resolver.withoutAlias_append, aliasReaches_iff]
    constructor
    · rintro ⟨first, last, hfirst, hlast, hcategory, hname⟩
      exact .aliased hlead hspecifier hfirst hlast hcategory hname
    · intro h
      cases h with
      | @aliased lead' rest' first last hlead' hspecifier' hfirst hlast hcategory hname =>
        obtain rfl : lead = lead' := Option.some.inj (hlead.symm.trans hlead')
        have hrest : rest = rest' := by
          rw [← Resolver.withoutAlias_append lead rest, ← hspecifier, hspecifier',
            Resolver.withoutAlias_append]
        subst hrest
        exact ⟨first, last, hfirst, hlast, hcategory, hname⟩
      | relative hnone => rw [hlead] at hnone; cases hnone
  | none =>
    simp only [Label.text?_string, hlead, List.contains_iff_mem]
    constructor
    · intro h
      exact .relative hlead (beginsWith_of_mem_candidates hlead h) h
    · intro h
      cases h with
      | aliased hsome => rw [hlead] at hsome; cases hsome
      | relative _ _ hcandidate => exact hcandidate

instance : Decidable (Points r segments i a) := decidable_of_iff _ reaches_iff_points

instance : Decidable (Used r segments analyses name a) :=
  inferInstanceAs (Decidable (∃ b ∈ analyses, ∃ i ∈ b.imports, _))

theorem isUsed_iff_used :
    isUsed r segments (ImportIndex.build analyses) name a = true ↔
      Used r segments analyses name a := by
  simp only [isUsed_build, Used, reaches_iff_points, List.mem_flatMap]
  constructor
  · rintro ⟨i, ⟨b, hb, hi⟩, h⟩
    exact ⟨b, hb, i, hi, h⟩
  · rintro ⟨b, hb, i, hi, h⟩
    exact ⟨i, ⟨b, hb, hi⟩, h⟩

/-- The records of one file: its exports that are not used, in their order. -/
def recordsOf (r : Resolver) (segments : Category.Segments) (analyses : List (FileAnalysis String))
    (a : FileAnalysis String) : List (UnusedExport String) :=
  (a.exports.filter fun e => ¬Used r segments analyses e.name a).map fun e =>
    ⟨a.path, e.name, e.line⟩

/-- The search by the index gives the records of each file. -/
theorem find_eq_flatMap_recordsOf (r : Resolver) (segments : Category.Segments)
    (analyses : List (FileAnalysis String)) :
    find r segments analyses = analyses.flatMap (recordsOf r segments analyses) := by
  have hunused (a : FileAnalysis String) (e : Export String) :
      (!isUsed r segments (ImportIndex.build analyses) e.name a) =
        decide (¬Used r segments analyses e.name a) := by
    simp [← isUsed_iff_used]
  unfold find
  simp only [hunused]
  rfl

/-! ## Adding files and imports -/

/-- Files were added to a list of analysed files, or imports to some of them. -/
inductive Extended : List (FileAnalysis String) → List (FileAnalysis String) → Prop
  | nil : Extended [] []
  | file {old new : List (FileAnalysis String)} (a : FileAnalysis String) (rest : Extended old new) :
      Extended old (a :: new)
  | imports {old new : List (FileAnalysis String)} {a : FileAnalysis String}
      {more : List (Import String)} (added : a.imports.Sublist more) (rest : Extended old new) :
      Extended (a :: old) ({ a with imports := more } :: new)

theorem Extended.exists_import (h : Extended analyses larger) :
    ∀ b ∈ analyses, ∀ i ∈ b.imports, ∃ c ∈ larger, i ∈ c.imports := by
  induction h with
  | nil => simp
  | file a _ ih =>
    intro b hb i hi
    obtain ⟨c, hc, hmem⟩ := ih b hb i hi
    exact ⟨c, List.mem_cons_of_mem a hc, hmem⟩
  | @imports _ _ a more added _ ih =>
    intro b hb i hi
    rcases List.mem_cons.1 hb with rfl | hb
    · exact ⟨_, List.mem_cons_self, added.subset hi⟩
    · obtain ⟨c, hc, hmem⟩ := ih b hb i hi
      exact ⟨c, List.mem_cons_of_mem _ hc, hmem⟩

/-- Neither the known paths nor the imports of the file itself are looked at. -/
theorem points_known (known : List String) (imports : List (Import String)) :
    Points { r with known } segments i { a with imports } ↔ Points r segments i a := by
  rw [← reaches_iff_points, ← reaches_iff_points]
  rfl

theorem used_known (known : List String) (imports : List (Import String)) :
    Used { r with known } segments analyses name { a with imports } ↔
      Used r segments analyses name a := by
  simp only [Used, points_known]

theorem Used.extend (h : Extended analyses larger) (hused : Used r segments analyses name a) :
    Used r segments larger name a := by
  obtain ⟨b, hb, i, hi, hname, hrelative, hpoints⟩ := hused
  obtain ⟨c, hc, hmem⟩ := h.exists_import b hb i hi
  exact ⟨c, hc, i, hmem, hname, hrelative, hpoints⟩

theorem recordsOf_sublist (h : Extended analyses larger) (a : FileAnalysis String) :
    (recordsOf r segments larger a).Sublist (recordsOf r segments analyses a) := by
  refine (List.monotone_filter_right a.exports fun e he => ?_).map _
  rw [decide_eq_true_eq] at he ⊢
  exact fun hused => he (hused.extend h)

/-- The search by the index reports the exports that no import anywhere is evidence for, file by file
and export by export. However many files and imports are added, and whatever the resolver knows, a
file's export that was used is used, so what is reported of it is some of what was reported. -/
theorem find_exhaustive_monotone (r : Resolver) (segments : Category.Segments)
    (analyses : List (FileAnalysis String)) :
    find r segments analyses = analyses.flatMap (recordsOf r segments analyses) ∧
      ∀ larger known, Extended analyses larger →
        ∀ a ∈ analyses, ∀ imports,
          (∀ e ∈ a.exports, Used r segments analyses e.name a →
            Used { r with known } segments larger e.name { a with imports }) ∧
          (recordsOf { r with known } segments larger { a with imports }).Sublist
            (recordsOf r segments analyses a) := by
  refine ⟨find_eq_flatMap_recordsOf r segments analyses, ?_⟩
  intro larger known h a _ imports
  refine ⟨fun e _ hused => (used_known known imports).2 (hused.extend h), ?_⟩
  have hsame : recordsOf { r with known } segments larger { a with imports } =
      recordsOf r segments larger a := by
    simp only [recordsOf, used_known]
  rw [hsame]
  exact recordsOf_sublist h a

/-- A type file with a name that is exported twice, and a page that imports the other one. -/
def typesAndPage : List (FileAnalysis String) :=
  [⟨"user.ts", "src/types/user.ts", "type", [],
      [⟨"src/types/user.ts", "Team", 1⟩, ⟨"src/types/user.ts", "User", 2⟩,
        ⟨"src/types/user.ts", "Team", 3⟩]⟩,
    ⟨"page.ts", "src/app/page.ts", "page", [⟨"src/app/page.ts", "User", "@/types/user", true, 1⟩], []⟩]

/-- The same files after one was put in front that imports the other name and exports the first, and
after the type file began to import a package. -/
def typesAndPageLater : List (FileAnalysis String) :=
  [⟨"new.ts", "src/lib/new.ts", "utility", [⟨"src/lib/new.ts", "Team", "../types/user", true, 1⟩],
      [⟨"src/lib/new.ts", "User", 2⟩]⟩,
    ⟨"user.ts", "src/types/user.ts", "type", [⟨"src/types/user.ts", "User", "users", false, 1⟩],
      [⟨"src/types/user.ts", "Team", 1⟩, ⟨"src/types/user.ts", "User", 2⟩,
        ⟨"src/types/user.ts", "Team", 3⟩]⟩,
    ⟨"page.ts", "src/app/page.ts", "page", [⟨"src/app/page.ts", "User", "@/types/user", true, 1⟩], []⟩]

theorem typesAndPage_monotone :
    let r := Resolver.make (typesAndPage.map (·.path)) [".ts", ".tsx"] ["@/"] "src"
    Extended typesAndPage typesAndPageLater ∧
      find r Category.builtIn typesAndPage =
        [⟨"src/types/user.ts", "Team", 1⟩, ⟨"src/types/user.ts", "Team", 3⟩] ∧
      find { r with known := [] } Category.builtIn typesAndPageLater =
        [⟨"src/lib/new.ts", "User", 2⟩] ∧
      ∀ a ∈ typesAndPage, ∀ imports,
        (recordsOf { r with known := [] } Category.builtIn typesAndPageLater
          { a with imports }).Sublist (recordsOf r Category.builtIn typesAndPage a) := by
  intro r
  have hextended : Extended typesAndPage typesAndPageLater :=
    .file _ (.imports (List.nil_sublist _) (.imports (List.Sublist.refl _) .nil))
  refine ⟨hextended, by decide +kernel, by decide +kernel, ?_⟩
  intro a ha imports
  exact ((find_exhaustive_monotone r Category.builtIn typesAndPage).2 typesAndPageLater []
    hextended a ha imports).2

end ImportAtlas.Unused
