import ImportAtlas.Proofs.Path.Walked
import ImportAtlas.Resolver
import Mathlib.Logic.Relation

/-!
# Specifiers taken from elsewhere

Where a specifier leads depends on its segments and on what the directory that it is taken from
leaves of its own. So a relative specifier can be followed in two stages, segments that lead back to
where they start can be put into it, and an alias is a relative specifier taken from the source
root.
-/

namespace ImportAtlas

namespace Path

variable {s t : String} {ss : List String}

/-! ## Segments that lead nowhere -/

/-- Segments that lead back to where they start. -/
inductive Idle : List String → Prop
  | empty : Idle [""]
  | dot : Idle ["."]
  | outAndBack {s : String} (h : Plain s) : Idle [s, ".."]

theorem Idle.foldl_push (h : Idle ss) (rooted : Bool) (kept : List String) :
    ss.foldl (push rooted) kept = kept := by
  cases h with
  | empty => exact push_empty rooted kept
  | dot => exact push_dot rooted kept
  | outAndBack hs =>
    rw [List.foldl_cons, hs.push]
    exact hs.push_up rooted kept

/-- `t` is `s` with idle segments put in at one place behind its first segment. -/
def Inserts (s t : String) : Prop :=
  ∃ first front idle back, Idle idle ∧
    segments s = first :: (front ++ back) ∧ segments t = first :: (front ++ idle ++ back)

theorem Inserts.walk_eq (h : Inserts s t) (rooted : Bool) (kept : List String) :
    walk rooted kept t = walk rooted kept s := by
  obtain ⟨first, front, idle, back, hidle, hs, ht⟩ := h
  rw [walk, walk, hs, ht, List.foldl_cons, List.foldl_cons, List.foldl_append, List.foldl_append,
    hidle.foldl_push, List.foldl_append]

theorem Inserts.head?_eq (h : Inserts s t) : (segments t).head? = (segments s).head? := by
  obtain ⟨first, front, idle, back, -, hs, ht⟩ := h
  rw [hs, ht]
  rfl

theorem walk_eq_of_inserts (h : Relation.ReflTransGen Inserts s t) (rooted : Bool)
    (kept : List String) : walk rooted kept t = walk rooted kept s := by
  induction h with
  | refl => rfl
  | tail _ hstep ih => rw [hstep.walk_eq, ih]

theorem head?_eq_of_inserts (h : Relation.ReflTransGen Inserts s t) :
    (segments t).head? = (segments s).head? := by
  induction h with
  | refl => rfl
  | tail _ hstep ih => rw [hstep.head?_eq, ih]

/-! ## Going on from a directory -/

variable {d : String}

/-- Where a relative path leads depends on the walk along it alone. -/
theorem normalize_join_congr (hs : Text.beginsWith s "/" = false)
    (ht : Text.beginsWith t "/" = false)
    (h : ∀ rooted kept, walk rooted kept s = walk rooted kept t) :
    normalize (join d s) = normalize (join d t) := by
  apply normalize_congr
  · rw [rootSlashes_join hs, rootSlashes_join ht]
  · rw [settle_join hs, settle_join ht, h]

theorem walk_dot (rooted : Bool) (kept : List String) (t : String) :
    walk rooted kept ("./" ++ t) = walk rooted kept t := by
  have hdot : "./" ++ t = "." ++ "/" ++ t := rfl
  rw [hdot, walk_append]
  exact congrArg (walk rooted · t) (push_dot rooted kept)

theorem beginsWith_slash_dot (t : String) : Text.beginsWith ("./" ++ t) "/" = false :=
  beginsWith_slash_of_dot (beginsWith_append (by decide) t)

theorem normalize_join_dot (ht : Text.beginsWith t "/" = false) (d : String) :
    normalize (join d ("./" ++ t)) = normalize (join d t) :=
  normalize_join_congr (beginsWith_slash_dot t) ht fun rooted kept => walk_dot rooted kept t

/-- A path that goes on behind a slash is taken in two stages. -/
theorem normalize_join_append (hs : Text.beginsWith s "." = true) (d t : String) :
    normalize (join d (s ++ "/" ++ t)) = normalize (join (join d s) ("./" ++ t)) := by
  have hslash := beginsWith_slash_of_dot hs
  have hst : Text.beginsWith (s ++ "/" ++ t) "/" = false := by
    rw [String.append_assoc]
    exact beginsWith_slash_of_dot (beginsWith_append hs ("/" ++ t))
  have hdot := beginsWith_slash_dot t
  apply normalize_congr
  · rw [rootSlashes_join hst, rootSlashes_join hdot, rootSlashes_join hslash]
  · rw [settle_join hst, settle_join hdot, settle_join hslash, rootSlashes_join hslash, walk_append,
      walk_dot]

end Path

namespace Resolver

open ImportAtlas.Path

variable {r : Resolver} {s d : String}

theorem base?_relative (hrel : Text.beginsWith s "." = true) (hs : r.aliasOf? s = none)
    (d : String) : r.base? s d = some (normalize (join d s)) := by
  simp [base?, hs, hrel]

theorem base?_dot {t : String} (ht : r.aliasOf? ("./" ++ t) = none) (d : String) :
    r.base? ("./" ++ t) d = some (normalize (join d ("./" ++ t))) :=
  base?_relative (by simp [Text.beginsWith]) ht d

theorem candidates_congr {s' d' : String} (h : r.base? s d = r.base? s' d') :
    r.candidates s d = r.candidates s' d' := by
  rw [candidates, candidates, h]

theorem resolve_congr {s' d' : String} (h : r.base? s d = r.base? s' d') :
    r.resolve s d = r.resolve s' d' := by
  rw [resolve, resolve, candidates_congr h]

/-- A relative specifier that goes on behind a slash is the rest of it taken from where the first
part leads, and segments that lead nowhere can be put in behind its first segment. -/
theorem relative_specifiers_compose (r : Resolver) (d s : String)
    (hrel : Text.beginsWith s "." = true) (hs : r.aliasOf? s = none) :
    (∀ t, r.aliasOf? (s ++ "/" ++ t) = none → r.aliasOf? ("./" ++ t) = none →
      ∃ base whole, r.base? s d = some base ∧ r.base? (s ++ "/" ++ t) d = some whole ∧
        r.base? ("./" ++ t) base = some whole) ∧
    ∀ s', Relation.ReflTransGen Inserts s s' → r.aliasOf? s' = none →
      r.candidates s' d = r.candidates s d ∧ r.resolve s' d = r.resolve s d := by
  constructor
  · intro t hst ht
    have hrel' : Text.beginsWith (s ++ "/" ++ t) "." = true := by
      rw [String.append_assoc]
      exact beginsWith_append hrel ("/" ++ t)
    refine ⟨_, _, base?_relative hrel hs d, base?_relative hrel' hst d, ?_⟩
    rw [base?_dot ht, normalize_join_normalize, normalize_join_append hrel]
  · intro s' hins hs'
    -- Nothing is put in before the first segment, so the specifier stays relative.
    have hrel' : Text.beginsWith s' "." = true := by
      rw [beginsWith_dot, head?_eq_of_inserts hins, ← beginsWith_dot, hrel]
    have hbase : r.base? s' d = r.base? s d := by
      rw [base?_relative hrel' hs', base?_relative hrel hs]
      exact congrArg some (normalize_join_congr (beginsWith_slash_of_dot hrel')
        (beginsWith_slash_of_dot hrel) (walk_eq_of_inserts hins))
    exact ⟨candidates_congr hbase, resolve_congr hbase⟩

theorem typesFromHooks_compose :
    let r := make ["src/types/index.ts"] [".ts", ".tsx"] ["@/"] "src"
    (r.aliasOf? "../types" = none ∧ r.aliasOf? ("../types" ++ "/" ++ "../../lib//user") = none ∧
      r.aliasOf? ("./" ++ "../../lib//user") = none ∧ r.aliasOf? "..//types/x/.." = none) ∧
    (∃ base whole, r.base? "../types" "src//hooks/" = some base ∧
      r.base? ("../types" ++ "/" ++ "../../lib//user") "src//hooks/" = some whole ∧
      r.base? ("./" ++ "../../lib//user") base = some whole) ∧
    r.candidates "..//types/x/.." "src//hooks/" = r.candidates "../types" "src//hooks/" ∧
    r.resolve "..//types/x/.." "src//hooks/" = some "src/types/index.ts" := by
  intro r
  have hgap : Inserts "../types" "..//types" :=
    ⟨"..", [], [""], ["types"], .empty, by decide +kernel, by decide +kernel⟩
  have hdetour : Inserts "..//types" "..//types/x/.." :=
    ⟨"..", ["", "types"], ["x", ".."], [], .outAndBack (by decide), by decide +kernel,
      by decide +kernel⟩
  have halias : r.aliasOf? "../types" = none ∧
      r.aliasOf? ("../types" ++ "/" ++ "../../lib//user") = none ∧
      r.aliasOf? ("./" ++ "../../lib//user") = none ∧ r.aliasOf? "..//types/x/.." = none := by
    decide +kernel
  obtain ⟨hstages, hinsert⟩ :=
    relative_specifiers_compose r "src//hooks/" "../types" (by decide) halias.1
  obtain ⟨hcandidates, hresolve⟩ :=
    hinsert "..//types/x/.." (.tail (.single hgap) hdetour) halias.2.2.2
  refine ⟨halias, hstages _ halias.2.1 halias.2.2.1, hcandidates, hresolve.trans ?_⟩
  decide +kernel

/-- An alias stands for the source root: what follows it is taken as a relative specifier from
there, wherever the importing file is. -/
theorem alias_is_source_root (known extensions aliases : List String) (root lead rest d : String)
    (hrest : Text.beginsWith rest "/" = false)
    (hlead : (make known extensions aliases root).aliasOf? (lead ++ rest) = some lead)
    (hdot : (make known extensions aliases root).aliasOf? ("./" ++ rest) = none) :
    let r := make known extensions aliases root
    (∃ base, r.base? (lead ++ rest) d = some base ∧
      r.base? ("./" ++ rest) (trimSlashes root) = some base) ∧
    r.candidates (lead ++ rest) d = r.candidates ("./" ++ rest) (trimSlashes root) ∧
    r.resolve (lead ++ rest) d = r.resolve ("./" ++ rest) (trimSlashes root) := by
  intro r
  have hbase : r.base? (lead ++ rest) d = r.base? ("./" ++ rest) (trimSlashes root) := by
    rw [base?_dot hdot, base?, hlead]
    show some (normalize (join (trimSlashes root) (withoutAlias lead (lead ++ rest)))) = _
    rw [withoutAlias_append]
    exact congrArg some (normalize_join_dot hrest (trimSlashes root)).symm
  exact ⟨⟨_, hbase.trans (base?_dot hdot _), base?_dot hdot _⟩, candidates_congr hbase,
    resolve_congr hbase⟩

theorem behindTilde_is_source_root :
    let r := make ["shared/a.ts"] [".ts", ".tsx"] ["@/", "~"] "/src//"
    (Text.beginsWith "../shared//a" "/" = false ∧ r.aliasOf? ("~" ++ "../shared//a") = some "~" ∧
      r.aliasOf? ("./" ++ "../shared//a") = none) ∧
    r.candidates ("~" ++ "../shared//a") "lib/deep" =
      r.candidates ("./" ++ "../shared//a") (trimSlashes "/src//") ∧
    r.resolve ("~" ++ "../shared//a") "lib/deep" = some "shared/a.ts" := by
  intro r
  have halias : r.aliasOf? ("~" ++ "../shared//a") = some "~" ∧
      r.aliasOf? ("./" ++ "../shared//a") = none := by
    decide +kernel
  obtain ⟨-, hcandidates, hresolve⟩ := alias_is_source_root ["shared/a.ts"] [".ts", ".tsx"]
    ["@/", "~"] "/src//" "~" "../shared//a" "lib/deep" (by decide) halias.1 halias.2
  refine ⟨⟨by decide, halias⟩, hcandidates, hresolve.trans ?_⟩
  decide +kernel

end Resolver

end ImportAtlas
