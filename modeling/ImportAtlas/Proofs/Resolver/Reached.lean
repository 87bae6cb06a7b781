import ImportAtlas.Proofs.Discovery.Placed
import ImportAtlas.Proofs.Resolver.Rebased

/-!
# Files that specifiers reach

From one directory to another leads a way up to what they share and down again. The specifier
written so resolves to a file by its name, and to the index file of a directory by that of the
directory, except at the root of the project: there the base path is `.`, the candidates are spelled
`./index.ts` and the like, and no project-relative path is.
-/

namespace ImportAtlas

namespace Path

variable {common up down ss : List String}

/-! ## The way between two directories -/

/-- The segments that lead up `n` directories; `.` where there is nothing to climb. -/
def climb : Nat → List String
  | 0 => ["."]
  | n + 1 => List.replicate (n + 1) ".."

/-- Climbing takes back exactly the segments climbed out of. -/
theorem foldl_push_climb (h : ∀ s ∈ up, Plain s) (rooted : Bool) (kept : List String) :
    (climb up.length).foldl (push rooted) (up.reverse ++ kept) = kept := by
  cases up with
  | nil => exact push_dot rooted kept
  | cons s up =>
    have hback := foldl_push_replicate (fun t ht => h t (List.mem_reverse.1 ht)) rooted kept
    rwa [List.length_reverse] at hback

theorem forall_part_climb (n : Nat) : ∀ s ∈ climb n, Part s := by
  cases n with
  | zero => exact List.forall_mem_singleton.2 part_dot
  | succ n => exact forall_part_ups (n + 1)

theorem forall_part_way (n : Nat) (h : ∀ s ∈ down, Plain s) : ∀ s ∈ climb n ++ down, Part s :=
  List.forall_mem_append.2 ⟨forall_part_climb n, fun s hs => (h s hs).toPart⟩

/-- The way up to what two directories share and down again leads from one to the other. -/
theorem normalize_join_climb (hcommon : ∀ s ∈ common, Plain s) (hup : ∀ s ∈ up, Plain s)
    (hdown : ∀ s ∈ down, Plain s) :
    normalize (join (ofSegments (common ++ up)) (ofSegments (climb up.length ++ down))) =
      (⟨0, common ++ down⟩ : Location).text := by
  have hstart : ∀ s ∈ common ++ up, Plain s := List.forall_mem_append.2 ⟨hcommon, hup⟩
  have hroot : rootSlashes (ofSegments (common ++ up)) = 0 :=
    rootSlashes_eq_zero (beginsWith_ofSegments fun s hs => (hstart s hs).toPart)
  have hsettle : settle (ofSegments (common ++ up)) = up.reverse ++ common.reverse := by
    rw [settle, walk_ofSegments fun s hs => (hstart s hs).slashFree, foldl_push_plain hstart,
      List.append_nil, List.reverse_append]
  have hway := forall_part_way up.length hdown
  have hbegins := beginsWith_ofSegments hway
  have hend : walk (0 < rootSlashes (ofSegments (common ++ up))) (up.reverse ++ common.reverse)
      (ofSegments (climb up.length ++ down)) = down.reverse ++ common.reverse := by
    rw [walk_ofSegments fun s hs => (hway s hs).slashFree, List.foldl_append, foldl_push_climb hup,
      foldl_push_plain hdown]
  rw [normalize_eq_text, rootSlashes_join hbegins, settle_join hbegins, hsettle, hend, hroot,
    List.reverse_append, List.reverse_reverse, List.reverse_reverse]

theorem beginsWith_climb (n : Nat) (h : ∀ s ∈ down, Plain s) :
    Text.beginsWith (ofSegments (climb n ++ down)) "." = true := by
  have hslash : ∀ s ∈ climb n ++ down, '/' ∉ s.toList := fun s hs =>
    (forall_part_way n h s hs).slashFree
  cases n with
  | zero =>
    rw [beginsWith_dot, segments_ofSegments (by simp [climb]) hslash]
    rfl
  | succ n =>
    rw [beginsWith_dot, segments_ofSegments (by simp [climb]) hslash]
    rfl

theorem ofSegments_replicate_up (n : Nat) (hne : down ≠ []) :
    ofSegments (List.replicate n ".." ++ down) =
      String.join (List.replicate n "../") ++ ofSegments down := by
  induction n with
  | zero =>
    rw [List.replicate_zero, List.replicate_zero, String.join_nil, String.empty_append,
      List.nil_append]
  | succ n ih =>
    rw [List.replicate_succ, List.cons_append, ofSegments_cons _ (by simp [hne]), ih,
      List.replicate_succ, String.join_cons, String.append_assoc]
    rfl

/-- How the way is written in front of the segments that lead down. -/
theorem ofSegments_climb (up : List String) (hne : down ≠ []) :
    ofSegments (climb up.length ++ down) =
      (if up = [] then "./" else String.join (List.replicate up.length "../")) ++
        ofSegments down := by
  cases up with
  | nil => exact ofSegments_cons "." hne
  | cons s up => exact ofSegments_replicate_up (up.length + 1) hne

theorem not_finishesWith_ofSegments (hne : ss ≠ []) (h : ∀ s ∈ ss, Plain s) :
    ¬(ofSegments ss = "" ∨ Text.finishesWith (ofSegments ss) "/" = true) := by
  rintro (hempty | hslash)
  · exact ofSegments_ne_empty hne (fun s hs => (h s hs).toPart) hempty
  · obtain ⟨f, hf⟩ := exists_of_finishesWith hslash
    have hlast : "" ∈ segments (ofSegments ss) := by
      rw [hf, segments_slash]
      exact List.mem_append_right _ (List.mem_singleton_self "")
    rw [segments_ofSegments hne fun s hs => (h s hs).slashFree] at hlast
    exact (h "" hlast).ne_empty rfl

end Path

namespace Resolver

open ImportAtlas.Path

variable {r : Resolver} {common up down parts : List String} {specifier directory file ext : String}

/-! ## The first known candidate -/

theorem find?_eq_some_iff_takeWhile {p : String → Bool} {cs : List String} :
    cs.find? p = some file ↔
      file ∈ cs ∧ p file = true ∧ ∀ c ∈ cs.takeWhile (· ≠ file), p c = false := by
  induction cs with
  | nil => simp
  | cons c cs ih =>
    by_cases hc : c = file
    · subst hc
      cases hp : p c with
      | false =>
        have hother : cs.find? p ≠ some c := fun h => by simp [List.find?_some h] at hp
        simp [hp, hother]
      | true => simp [hp]
    · have hne : file ∈ c :: cs ↔ file ∈ cs := by simp [Ne.symm hc]
      cases hp : p c <;> simp [hp, hc, ih, hne]

/-- A specifier resolves to the candidate that is known and has no known candidate before it. -/
theorem resolve_eq_some_iff : r.resolve specifier directory = some file ↔
    file ∈ r.candidates specifier directory ∧ file ∈ r.known ∧
      ∀ c ∈ (r.candidates specifier directory).takeWhile (· ≠ file), c ∉ r.known := by
  rw [resolve, find?_eq_some_iff_takeWhile]
  simp only [List.contains_iff_mem, ← Bool.not_eq_true]

/-! ## The two kinds of candidates -/

theorem candidates_climb (hcommon : ∀ s ∈ common, Plain s) (hup : ∀ s ∈ up, Plain s)
    (hdown : ∀ s ∈ down, Plain s)
    (halias : r.aliasOf? (ofSegments (climb up.length ++ down)) = none) :
    r.candidates (ofSegments (climb up.length ++ down)) (ofSegments (common ++ up)) =
      r.filesAt (⟨0, common ++ down⟩ : Location).text := by
  rw [candidates, base?_relative (beginsWith_climb up.length hdown) halias,
    normalize_join_climb hcommon hup hdown]

theorem join_index (ha : ¬(directory = "" ∨ Text.finishesWith directory "/" = true)) :
    join directory ("index" ++ ext) = directory ++ "/" ++ ("index" ++ ext) := by
  have hindex : Text.beginsWith ("index" ++ ext) "/" = false :=
    Part.beginsWith_append ⟨by decide, by decide⟩ ext
  rw [join, if_neg (by simp [hindex]), if_neg ha]

/-- The candidates at the root of the project begin with a dot. -/
theorem beginsWith_of_mem_filesAt (h : file ∈ r.filesAt ".") : Text.beginsWith file "." = true := by
  rcases List.mem_append.1 h with h | h
  · obtain ⟨ext, -, rfl⟩ := List.mem_map.1 h
    exact beginsWith_append (by decide) ext
  · obtain ⟨ext, -, rfl⟩ := List.mem_map.1 h
    rw [join_index (by decide), String.append_assoc]
    exact beginsWith_append (by decide) _

/-- The index file of a directory is a candidate everywhere but at the root of the project. -/
theorem index_mem_filesAt_iff (hparts : ∀ s ∈ parts, Plain s) (hext : ext ∈ r.extensions) :
    ofSegments (parts ++ ["index" ++ ext]) ∈ r.filesAt (⟨0, parts⟩ : Location).text ↔
      parts ≠ [] := by
  constructor
  · rintro hmem rfl
    have hdot : Text.beginsWith (ofSegments ["index" ++ ext]) "." = true :=
      beginsWith_of_mem_filesAt hmem
    simp [Text.beginsWith, List.isPrefixOf] at hdot
  · intro hne
    have hjoin : ofSegments (parts ++ ["index" ++ ext]) =
        join (ofSegments parts) ("index" ++ ext) := by
      rw [join_index (not_finishesWith_ofSegments hne hparts), ofSegments_append hne (by simp),
        ofSegments_singleton]
    rw [text_of_ne_nil hne, hjoin]
    exact List.mem_append_right _ (List.mem_map_of_mem hext)

/-! ## What specifiers resolve to -/

/-- The specifier that leads from one directory to a file in another, written without the extension,
has the file among its candidates, and resolves to it exactly if the file is known and no candidate
before it is. -/
theorem relative_specifier_reaches_file (r : Resolver) (common up down : List String)
    (stem ext : String) (hcommon : ∀ s ∈ common, Plain s) (hup : ∀ s ∈ up, Plain s)
    (hdown : ∀ s ∈ down, Plain s) (hstem : Plain stem) (hext : ext ∈ r.extensions) :
    let directory := ofSegments (common ++ up)
    let file := ofSegments (common ++ down ++ [stem]) ++ ext
    let specifier := (if up = [] then "./" else String.join (List.replicate up.length "../")) ++
      ofSegments (down ++ [stem])
    r.aliasOf? specifier = none →
      file ∈ r.candidates specifier directory ∧
      (r.resolve specifier directory = some file ↔ file ∈ r.known ∧
        ∀ c ∈ (r.candidates specifier directory).takeWhile (· ≠ file), c ∉ r.known) := by
  intro directory file specifier halias
  have hway : specifier = ofSegments (climb up.length ++ (down ++ [stem])) :=
    (ofSegments_climb up (by simp)).symm
  have hmem : file ∈ r.candidates specifier directory := by
    have hdown' : ∀ s ∈ down ++ [stem], Plain s :=
      List.forall_mem_append.2 ⟨hdown, List.forall_mem_singleton.2 hstem⟩
    rw [hway] at halias ⊢
    rw [candidates_climb hcommon hup hdown' halias, text_of_ne_nil (by simp),
      ← List.append_assoc]
    exact List.mem_append_left _ (List.mem_map_of_mem hext)
  refine ⟨hmem, ?_⟩
  rw [resolve_eq_some_iff]
  exact and_iff_right hmem

theorem userFromApi_reached :
    let r := make ["src/types/user/index.ts", "src/types/user.tsx"] [".ts", ".tsx"] ["@/"] "src"
    (Plain "src" ∧ Plain "app" ∧ Plain "api" ∧ Plain "types" ∧ Plain "user") ∧
      r.aliasOf? "../../types/user" = none ∧
      "src/types/user.tsx" ∈ r.candidates "../../types/user" "src/app/api" ∧
      r.resolve "../../types/user" "src/app/api" = some "src/types/user.tsx" := by
  intro r
  have hspecifier :
      (if ["app", "api"] = [] then "./" else
        String.join (List.replicate ["app", "api"].length "../")) ++
          ofSegments (["types"] ++ ["user"]) = "../../types/user" := by decide +kernel
  have hdirectory : ofSegments (["src"] ++ ["app", "api"]) = "src/app/api" := by decide +kernel
  have hfile : ofSegments (["src"] ++ ["types"] ++ ["user"]) ++ ".tsx" = "src/types/user.tsx" := by
    decide +kernel
  have halias : r.aliasOf? "../../types/user" = none := by decide +kernel
  have hreached := relative_specifier_reaches_file r ["src"] ["app", "api"] ["types"] "user" ".tsx"
    (by decide) (by decide) (by decide) (by decide) (by decide)
  simp only [hspecifier, hdirectory, hfile] at hreached
  obtain ⟨hmem, hresolve⟩ := hreached halias
  exact ⟨by decide, halias, hmem, hresolve.2 (by decide +kernel)⟩

/-- The specifier that leads from one directory to another resolves to the index file there exactly
if the other directory is not the root of the project, its index file is known, and no candidate
before it is. -/
theorem directory_reaches_index_iff (r : Resolver) (here root : Location)
    (common up down : List String) (ext : String) (hcommon : ∀ s ∈ common, Plain s)
    (hup : ∀ s ∈ up, Plain s) (hdown : ∀ s ∈ down, Plain s) (hext : ext ∈ r.extensions) :
    let directory := ofSegments (common ++ up)
    let file := Location.relativeTo here root
      ⟨root.root, root.parts ++ (common ++ down ++ ["index" ++ ext])⟩
    let specifier := ofSegments (climb up.length ++ down)
    r.aliasOf? specifier = none →
      (r.resolve specifier directory = some file ↔ common ++ down ≠ [] ∧ file ∈ r.known ∧
        ∀ c ∈ (r.candidates specifier directory).takeWhile (· ≠ file), c ∉ r.known) := by
  intro directory file specifier halias
  have hfile : file = ofSegments (common ++ down ++ ["index" ++ ext]) :=
    Location.relativeTo_below here root (by simp)
  have hmem : file ∈ r.candidates specifier directory ↔ common ++ down ≠ [] := by
    rw [candidates_climb hcommon hup hdown halias, hfile]
    exact index_mem_filesAt_iff (List.forall_mem_append.2 ⟨hcommon, hdown⟩) hext
  rw [resolve_eq_some_iff, hmem]

theorem cardFromApi_reached :
    let r := make ["src/ui/card/index.tsx"] [".ts", ".tsx"] ["@/"] "src"
    (Plain "src" ∧ Plain "app" ∧ Plain "api" ∧ Plain "ui" ∧ Plain "card") ∧
      r.aliasOf? "../../ui/card" = none ∧
      r.resolve "../../ui/card" "src/app/api" = some "src/ui/card/index.tsx" := by
  intro r
  have hspecifier :
      ofSegments (climb ["app", "api"].length ++ ["ui", "card"]) = "../../ui/card" := by
    decide +kernel
  have hdirectory : ofSegments (["src"] ++ ["app", "api"]) = "src/app/api" := by decide +kernel
  have hfile : Location.relativeTo ⟨1, ["project"]⟩ ⟨1, ["project"]⟩
      ⟨1, ["project"] ++ (["src"] ++ ["ui", "card"] ++ ["index" ++ ".tsx"])⟩ =
        "src/ui/card/index.tsx" := by decide +kernel
  have halias : r.aliasOf? "../../ui/card" = none := by decide +kernel
  have hreached := directory_reaches_index_iff r ⟨1, ["project"]⟩ ⟨1, ["project"]⟩ ["src"]
    ["app", "api"] ["ui", "card"] ".tsx" (by decide) (by decide) (by decide) (by decide)
  simp only [hspecifier, hdirectory, hfile] at hreached
  exact ⟨by decide, halias, (hreached halias).2 (by decide +kernel)⟩

/-- At the root of the project the index file is known, no candidate is, and nothing is found. -/
theorem rootIndex_missed :
    let r := make ["index.ts", "src/a.ts"] [".ts", ".tsx"] ["@/"] "src"
    let project : Location := ⟨1, ["project"]⟩
    ofSegments (climb 1 ++ []) = ".." ∧ r.aliasOf? ".." = none ∧
      Location.relativeTo project project ⟨1, ["project", "index.ts"]⟩ = "index.ts" ∧
      "index.ts" ∈ r.known ∧ (∀ c ∈ r.candidates ".." "src", c ∉ r.known) ∧
      r.resolve ".." "src" = none := by
  decide +kernel

end Resolver

end ImportAtlas
