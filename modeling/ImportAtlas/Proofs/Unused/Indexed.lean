import ImportAtlas.Unused
import Mathlib.Data.List.Basic

/-!
# The index of imports

Under a name the index keeps the imports of that name in their order, so looking through the index
is looking through all imports, and an export is used exactly if some import of its name that points
into the project reaches its file.
-/

namespace ImportAtlas

namespace ImportIndex

theorem named_add (i : Import String) (index : ImportIndex String) (name : String) :
    (add i index).named name =
      if i.name = name then index.named name ++ [i] else index.named name := by
  induction index with
  | nil =>
    by_cases h : i.name = name
    · simp [add, named, h]
    · simp [add, named, h]
  | cons entry rest ih =>
    obtain ⟨n, is⟩ := entry
    unfold named at ih ⊢
    by_cases hn : n = i.name
    · subst hn
      by_cases h : i.name = name
      · simp [add, h]
      · simp [add, h]
    · simp only [add, beq_iff_eq, if_neg hn, List.find?_cons]
      by_cases h : n = name
      · have hne : i.name ≠ name := fun heq => hn (h.trans heq.symm)
        simp [h, hne]
      · rw [beq_eq_false_iff_ne.2 h]
        exact ih

/-- The index holds under a name the imports of that name, in their order. -/
theorem named_build (analyses : List (FileAnalysis String)) (name : String) :
    (build analyses).named name = (analyses.flatMap (·.imports)).filter (·.name = name) := by
  have hfold (is : List (Import String)) (index : ImportIndex String) :
      (is.foldl (fun index i => add i index) index).named name =
        index.named name ++ is.filter (·.name = name) := by
    induction is generalizing index with
    | nil => simp
    | cons i is ih =>
      rw [List.foldl_cons, ih, named_add]
      by_cases h : i.name = name
      · simp [h]
      · simp [h]
  exact hfold _ []

end ImportIndex

namespace Unused

variable {r : Resolver} {segments : Category.Segments}

/-- An export is used exactly if some import of its name that points into the project reaches its
file. -/
theorem isUsed_build (analyses : List (FileAnalysis String)) (name : String)
    (a : FileAnalysis String) :
    isUsed r segments (ImportIndex.build analyses) name a = true ↔
      ∃ i ∈ analyses.flatMap (·.imports),
        i.name = name ∧ i.isRelative = true ∧ reaches r segments i a = true := by
  rw [isUsed, ImportIndex.named_build]
  simp only [List.any_eq_true, List.mem_filter, decide_eq_true_eq, Bool.and_eq_true, and_assoc]

theorem mem_find {analyses : List (FileAnalysis String)} {u : UnusedExport String} :
    u ∈ find r segments analyses ↔ ∃ a ∈ analyses, ∃ e ∈ a.exports,
      isUsed r segments (ImportIndex.build analyses) e.name a = false ∧
        u = ⟨a.path, e.name, e.line⟩ := by
  simp only [find, List.mem_flatMap, List.mem_map, List.mem_filter, Bool.not_eq_true', and_assoc,
    @eq_comm _ u]

end Unused

end ImportAtlas
