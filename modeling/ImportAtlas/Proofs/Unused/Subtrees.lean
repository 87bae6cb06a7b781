import ImportAtlas.Proofs.Path.Walked
import ImportAtlas.Proofs.Unused.Exhaustive

/-!
# Aliases into configured subtrees

A subtree gives its category to the first directory on its way down from the source root, unless
that directory has one already: from the built-in segments, or from an earlier subtree. An import
behind an alias that goes down by such a directory to a file of its category, by the file's own name
without the extension, is a use of what it imports.
-/

namespace ImportAtlas

/-! ## Leading segments -/

/-- The first segment reaches to the first slash, or to the end. -/
theorem Path.head?_segments_eq_some_iff {p s : String} :
    (segments p).head? = some s ↔
      '/' ∉ s.toList ∧ (p = s ∨ Text.beginsWith p (s ++ "/") = true) := by
  constructor
  · intro h
    refine ⟨notMem_of_mem_segments (List.mem_of_head? h), ?_⟩
    obtain ⟨piece, pieces, hpieces⟩ := List.exists_cons_of_ne_nil (Text.splitAt_ne_nil '/' p.toList)
    rw [segments, hpieces] at h
    obtain rfl : String.ofList piece = s := Option.some.inj h
    rcases Text.eq_or_append_of_splitAt hpieces with hp | ⟨rest, hp⟩
    · exact .inl (by rw [← hp, String.ofList_toList])
    · refine .inr (Text.beginsWith_iff.2 ⟨String.ofList rest, String.toList_inj.1 ?_⟩)
      simp [hp]
  · rintro ⟨hslash, rfl | h⟩
    · rw [segments_of_notMem hslash]
      rfl
    · obtain ⟨rest, rfl⟩ := Text.beginsWith_iff.1 h
      rw [segments_append, segments_of_notMem hslash]
      rfl

namespace Category

/-- The directory `k` of the source root. -/
def directoryAt (sourceRoot k : String) : String :=
  if Path.trimSlashes sourceRoot = "" then k else Path.trimSlashes sourceRoot ++ "/" ++ k

/-- A path is that of the directory `k` of the source root, or goes on below it. Slashes at its ends
do not count. -/
def LiesIn (sourceRoot k path : String) : Prop :=
  Path.trimSlashes path = directoryAt sourceRoot k ∨
    Text.beginsWith (Path.trimSlashes path) (directoryAt sourceRoot k ++ "/") = true

instance (sourceRoot k path : String) : Decidable (LiesIn sourceRoot k path) :=
  inferInstanceAs (Decidable (_ ∨ _))

/-- What stands before the directories of the source root. -/
def rootFront (sourceRoot : String) : String :=
  if Path.trimSlashes sourceRoot = "" then "" else Path.trimSlashes sourceRoot ++ "/"

theorem directoryAt_eq (sourceRoot k : String) :
    directoryAt sourceRoot k = rootFront sourceRoot ++ k := by
  unfold directoryAt rootFront
  split
  · rw [String.empty_append]
  · rfl

theorem liesIn_iff {sourceRoot k path : String} (hk : '/' ∉ k.toList) :
    LiesIn sourceRoot k path ↔ ∃ below,
      Path.trimSlashes path = rootFront sourceRoot ++ below ∧
        (Path.segments below).head? = some k := by
  simp only [LiesIn, directoryAt_eq, Path.head?_segments_eq_some_iff, Text.beginsWith_iff]
  constructor
  · rintro (hpath | ⟨rest, hpath⟩)
    · exact ⟨k, hpath, hk, .inl rfl⟩
    · exact ⟨k ++ "/" ++ rest, by rw [hpath]; simp only [String.append_assoc], hk, .inr ⟨rest, rfl⟩⟩
  · rintro ⟨below, hpath, -, rfl | ⟨rest, rfl⟩⟩
    · exact .inl hpath
    · exact .inr ⟨rest, by rw [hpath]; simp only [String.append_assoc]⟩

theorem leadingSegment?_eq_some_iff {sourceRoot path k : String} :
    leadingSegment? sourceRoot path = some k ↔ Path.Part k ∧ LiesIn sourceRoot k path := by
  have hbelow : (if Path.trimSlashes sourceRoot = "" then some (Path.trimSlashes path).toList
      else Text.after? (Path.trimSlashes sourceRoot ++ "/").toList (Path.trimSlashes path).toList) =
      Text.after? (rootFront sourceRoot).toList (Path.trimSlashes path).toList := by
    unfold rootFront
    split <;> rfl
  have hafter (below : String) :
      Text.after? (rootFront sourceRoot).toList (Path.trimSlashes path).toList = some below.toList ↔
        Path.trimSlashes path = rootFront sourceRoot ++ below := by
    rw [Text.after?_eq_some_iff, ← String.toList_append, String.toList_inj]
  unfold leadingSegment?
  simp only [hbelow]
  cases hcs : Text.after? (rootFront sourceRoot).toList (Path.trimSlashes path).toList with
  | none =>
    simp only [Option.map_none, reduceCtorEq, false_iff, not_and]
    intro hk hlies
    obtain ⟨below, hpath, -⟩ := (liesIn_iff hk.slashFree).1 hlies
    rw [(hafter below).2 hpath] at hcs
    cases hcs
  | some cs =>
    obtain ⟨first, more, hsegments⟩ :=
      List.exists_cons_of_ne_nil (Path.segments_ne_nil (String.ofList cs))
    have hpath : Path.trimSlashes path = rootFront sourceRoot ++ String.ofList cs :=
      (hafter _).1 (by rw [hcs, String.toList_ofList])
    simp only [Option.map_some, Function.comp_apply, hsegments]
    constructor
    · intro h
      split at h
      · cases h
      · next hne =>
        obtain rfl : first = k := Option.some.inj h
        have hslash := Path.notMem_of_mem_segments (hsegments ▸ List.mem_cons_self)
        exact ⟨⟨hne, hslash⟩, (liesIn_iff hslash).2 ⟨_, hpath, by rw [hsegments]; rfl⟩⟩
    · rintro ⟨hk, hlies⟩
      obtain ⟨below, hpath', hfirst⟩ := (liesIn_iff hk.slashFree).1 hlies
      have hcs' := hcs.symm.trans ((hafter below).2 hpath')
      rw [Option.some.inj hcs', String.ofList_toList] at hsegments
      rw [hsegments] at hfirst
      obtain rfl : first = k := Option.some.inj hfirst
      rw [if_neg hk.ne_empty]

theorem lookup_addSegment (segments : Segments) (segment category k : String) :
    (addSegment segments segment category).lookup k =
      (segments.lookup k).or (if segment = k then some category else none) := by
  unfold addSegment
  split
  · next hsome =>
    by_cases hk : segment = k
    · subst hk
      obtain ⟨c, hc⟩ := Option.isSome_iff_exists.1 hsome
      rw [hc]
      rfl
    · rw [if_neg hk, Option.or_none]
  · rw [List.lookup_append, List.lookup_cons, List.lookup_nil]
    by_cases hk : segment = k
    · rw [if_pos hk, hk, beq_self_eq_true]
    · rw [if_neg hk, beq_eq_false_iff_ne.2 (Ne.symm hk)]

/-- Of the subtrees below the same directory the first one gives its category, unless the directory
has one already. -/
theorem lookup_segmentsFor (base : Segments) (sourceRoot : String)
    (subtrees : List (String × String)) (k : String) :
    (segmentsFor base sourceRoot subtrees).lookup k = (base.lookup k).or
      ((subtrees.find? fun s => Path.Part k ∧ LiesIn sourceRoot k s.1).map (·.2)) := by
  induction subtrees generalizing base with
  | nil => simp [segmentsFor]
  | cons s rest ih =>
    rw [segmentsFor, List.foldl_cons, ← segmentsFor, ih, List.find?_cons]
    simp only [← leadingSegment?_eq_some_iff]
    cases hleading : leadingSegment? sourceRoot s.1 with
    | none => simp
    | some leading =>
      by_cases hk : leading = k
      · simp [lookup_addSegment, hk]
      · simp [lookup_addSegment, hk]

end Category

/-! ## Uses behind an alias -/

namespace Unused

open Path

variable {r : Resolver} {segments : Category.Segments} {analyses : List (FileAnalysis String)}
  {i : Import String} {a b : FileAnalysis String}

/-- A specifier that goes down from an alias by the directory `k` to the name of a file without its
extension points to that file, if `k` stands for its category. -/
theorem points_of_way {lead k stem ext : String} {between : List String}
    (slashFree : ∀ s ∈ k :: between ++ [stem], '/' ∉ s.toList) (hstem : MoreThanDots stem)
    (hslash : '/' ∉ ext.toList) (hdot : '.' ∉ ext.toList) (hname : a.name = stem ++ "." ++ ext)
    (hcategory : segments.lookup k = some a.category) (hlead : r.aliasOf? i.specifier = some lead)
    (hspecifier : i.specifier = lead ++ ofSegments (k :: between ++ [stem])) :
    Points r segments i a := by
  have hsegments : Path.segments (ofSegments (k :: between ++ [stem])) = k :: between ++ [stem] :=
    segments_ofSegments (by simp) slashFree
  have hfile : '/' ∉ stem.toList := slashFree stem (by simp)
  have hfirst : (Path.segments (ofSegments (k :: between ++ [stem]))).head? = some k := by
    rw [hsegments]
    rfl
  have hlast : (Path.segments (ofSegments (k :: between ++ [stem]))).getLast? = some stem := by
    rw [hsegments, List.getLast?_concat]
  refine .aliased hlead hspecifier hfirst hlast ?_ (.inr ?_)
  · rw [Category.ofSegment, hcategory]
    rfl
  · rw [hname, splitExtension_append hstem hfile hslash hdot]

theorem name_ne_of_points (hb : b ∈ analyses) (hi : i ∈ b.imports) (hrelative : i.isRelative = true)
    (hpoints : Points r segments i a) :
    ∀ u ∈ recordsOf r segments analyses a, u.name ≠ i.name := by
  intro u hu hname
  obtain ⟨e, he, rfl⟩ := List.mem_map.1 hu
  have hunused := (List.mem_filter.1 he).2
  rw [decide_eq_true_eq] at hunused
  exact hunused ⟨b, hb, i, hi, hname.symm, hrelative, hpoints⟩

/-- Only its name, path and category are looked at to tell whether an import points to a file. -/
theorem Points.of_eq {c : FileAnalysis String} (h : Points r segments i a) (hname : c.name = a.name)
    (hpath : c.path = a.path) (hcategory : c.category = a.category) : Points r segments i c := by
  rw [← reaches_iff_points] at h ⊢
  unfold reaches at h ⊢
  rwa [hname, hpath, hcategory]

/-- A directory of the source root stands for its built-in category, else for that of the first
subtree at or below it, and for nothing otherwise. Whatever an import behind an alias names by the way
down from such a directory to a file of its category is not reported for that file, wherever the
alias leads; under the same path it can only be reported for a file that goes by another name or
category. -/
theorem way_through_subtree_is_use (sourceRoot : String) (subtrees : List (String × String)) :
    let segments := Category.segmentsFor Category.builtIn sourceRoot subtrees
    (∀ k, segments.lookup k = (Category.builtIn.lookup k).or
      ((subtrees.find? fun s => Part k ∧ Category.LiesIn sourceRoot k s.1).map (·.2))) ∧
    ∀ (r : Resolver) (analyses : List (FileAnalysis String)), ∀ a ∈ analyses,
      ∀ k between stem ext, (∀ s ∈ k :: between ++ [stem], '/' ∉ s.toList) → MoreThanDots stem →
      '/' ∉ ext.toList → '.' ∉ ext.toList → a.name = stem ++ "." ++ ext →
      segments.lookup k = some a.category →
      ∀ b ∈ analyses, ∀ i ∈ b.imports, i.isRelative = true → ∀ lead,
      r.aliasOf? i.specifier = some lead →
      i.specifier = lead ++ ofSegments (k :: between ++ [stem]) →
        (∀ u ∈ recordsOf r segments analyses a, u.name ≠ i.name) ∧
        ∀ u ∈ find r segments analyses, u.file = a.path → u.name = i.name →
          ∃ c ∈ analyses, u ∈ recordsOf r segments analyses c ∧ c.path = a.path ∧
            (c.name ≠ a.name ∨ c.category ≠ a.category) := by
  intro segments
  refine ⟨Category.lookup_segmentsFor Category.builtIn sourceRoot subtrees, ?_⟩
  intro r analyses a _ k between stem ext slashFree hstem hslash hdot hname hcategory b hb i hi
    hrelative lead hlead hspecifier
  have hpoints : Points r segments i a :=
    points_of_way slashFree hstem hslash hdot hname hcategory hlead hspecifier
  refine ⟨name_ne_of_points hb hi hrelative hpoints, fun u hu hfile huname => ?_⟩
  rw [find_eq_flatMap_recordsOf] at hu
  obtain ⟨c, hc, hrecord⟩ := List.mem_flatMap.1 hu
  have hpath : c.path = a.path := by
    obtain ⟨e, -, rfl⟩ := List.mem_map.1 hrecord
    exact hfile
  refine ⟨c, hc, hrecord, hpath, ?_⟩
  by_contra hsame
  rw [not_or, not_not, not_not] at hsame
  exact name_ne_of_points hb hi hrelative (hpoints.of_eq hsame.1 hpath hsame.2) u hrecord huname

/-- Subtrees below one directory, below none, and below one that has a category already. -/
def serviceSubtrees : List (String × String) :=
  [("docs", "text"), ("/src/services/billing/", "service"), ("src/services", "late"),
    ("src/app/api", "api")]

/-- A service two directories down. -/
def invoiceFile : FileAnalysis String :=
  ⟨"invoice.d.ts", "src/services/billing/invoice.d.ts", "service", [],
    [⟨"src/services/billing/invoice.d.ts", "Invoice", 1⟩,
      ⟨"src/services/billing/invoice.d.ts", "Total", 2⟩]⟩

/-- The service and a file that imports one of its two exports. -/
def serviceFiles : List (FileAnalysis String) :=
  [invoiceFile, ⟨"page.ts", "src/app/page.ts", "page",
    [⟨"src/app/page.ts", "Invoice", "~/services/billing/invoice.d", true, 1⟩], []⟩]

theorem serviceFiles_used :
    let r := Resolver.make [] [".ts"] ["@/", "~/", "~"] "src/"
    let segments := Category.segmentsFor Category.builtIn "src/" serviceSubtrees
    segments.drop 6 = [("services", "service")] ∧
      find r segments serviceFiles = [⟨"src/services/billing/invoice.d.ts", "Total", 2⟩] ∧
      ∀ u ∈ recordsOf r segments serviceFiles invoiceFile, u.name ≠ "Invoice" := by
  intro r segments
  refine ⟨by decide +kernel, by decide +kernel, ?_⟩
  exact ((way_through_subtree_is_use "src/" serviceSubtrees).2 r serviceFiles invoiceFile
    List.mem_cons_self "services" ["billing"] "invoice.d" "ts" (by decide) (by decide) (by decide)
    (by decide) (by decide) (by decide +kernel) _ (List.mem_cons_of_mem _ List.mem_cons_self) _
    List.mem_cons_self rfl "~/" (by decide +kernel) (by decide +kernel)).1

end Unused

end ImportAtlas
