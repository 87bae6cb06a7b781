import ImportAtlas.Proofs.Path.Walked

/-!
# Paths seen from a root

Reading a path as a location and writing it out again does not change where it leads. So the text by
which a file goes in the project can be followed from the root. Below the root it is the rest of the
file's location, with its `..`; elsewhere it is the way up to what root and file share and down
again. Either leads back to the file.
-/

namespace ImportAtlas

namespace Path

variable {ss : List String} {a b p r : String}

/-! ## Paths read as locations -/

/-- A walk passes over the segments that are dropped when a path is read. -/
theorem foldl_push_filter (rooted : Bool) (kept ss : List String) :
    (ss.filter fun s => s ≠ "" ∧ s ≠ ".").foldl (push rooted) kept =
      ss.foldl (push rooted) kept := by
  induction ss generalizing kept with
  | nil => rfl
  | cons s ss ih =>
    by_cases hs : s ≠ "" ∧ s ≠ "."
    · rw [List.filter_cons_of_pos (by simpa using hs), List.foldl_cons, List.foldl_cons, ih]
    · have hskip : push rooted kept s = kept := by
        rcases not_and_or.1 hs with hs | hs
        · rw [not_not.1 hs, push_empty]
        · rw [not_not.1 hs, push_dot]
      rw [List.filter_cons_of_neg (by simpa using hs), List.foldl_cons, hskip, ih]

theorem foldl_push_ofText (rooted : Bool) (kept : List String) (p : String) :
    (Location.ofText p).parts.foldl (push rooted) kept = walk rooted kept p :=
  foldl_push_filter rooted kept (segments p)

theorem ofText_of_relative (h : Text.beginsWith p "/" = false) :
    Location.ofText p = ⟨0, (Location.ofText p).parts⟩ := by
  rw [Location.ofText, rootSlashes_eq_zero h]

theorem part_of_mem_ofText (p : String) : ∀ s ∈ (Location.ofText p).parts, Part s := by
  intro s hs
  obtain ⟨hmem, hkept⟩ := List.mem_filter.1 hs
  rw [decide_eq_true_eq] at hkept
  exact ⟨hkept.1, notMem_of_mem_segments hmem⟩

theorem plain_of_mem_ofText (up : ".." ∉ segments p) :
    ∀ s ∈ (Location.ofText p).parts, Plain s := by
  intro s hs
  obtain ⟨hmem, hkept⟩ := List.mem_filter.1 hs
  rw [decide_eq_true_eq] at hkept
  refine ⟨part_of_mem_ofText p s hs, hkept.2, ?_⟩
  rintro rfl
  exact up hmem

/-- Where no segment leads back up, a path is normalized by reading and writing it. -/
theorem normalize_eq_text_ofText (h : ∀ s ∈ (Location.ofText p).parts, Plain s) :
    normalize p = (Location.ofText p).text := by
  have hsettle : settle p = (Location.ofText p).parts.reverse := by
    rw [settle, ← foldl_push_ofText]
    exact (foldl_push_plain h _ []).trans (List.append_nil _)
  rw [normalize_eq_text, hsettle, List.reverse_reverse]
  rfl

theorem ofText_ofSegments (h : ∀ s ∈ ss, Plain s) : Location.ofText (ofSegments ss) = ⟨0, ss⟩ := by
  have hroot : rootSlashes (ofSegments ss) = 0 :=
    rootSlashes_eq_zero (beginsWith_ofSegments fun s hs => (h s hs).toPart)
  have hparts : (segments (ofSegments ss)).filter (fun s => s ≠ "" ∧ s ≠ ".") = ss := by
    by_cases hne : ss = []
    · subst hne
      rfl
    · rw [segments_ofSegments hne fun s hs => (h s hs).slashFree, List.filter_eq_self]
      intro s hs
      simpa using ⟨(h s hs).ne_empty, (h s hs).ne_dot⟩
  rw [Location.ofText, hroot, hparts]

theorem rootSlashes_text_ofText (p : String) :
    rootSlashes (Location.ofText p).text = rootSlashes p :=
  rootSlashes_text (rootSlashes_le p) (part_of_mem_ofText p)

theorem walk_text_ofText (rooted : Bool) (kept : List String) (p : String) :
    walk rooted kept (Location.ofText p).text = walk rooted kept p := by
  rw [walk_text (part_of_mem_ofText p), foldl_push_ofText]

theorem settle_text_ofText (p : String) : settle (Location.ofText p).text = settle p := by
  rw [settle, rootSlashes_text_ofText, walk_text_ofText]
  rfl

/-! ## Paths that lead from one to another -/

/-- Taken from the directory `a`, the relative path `r` leads where `b` leads. -/
structure Leads (a r b : String) : Prop where
  relative : Text.beginsWith r "/" = false
  arrives : walk (0 < rootSlashes a) (settle a) r = settle b

theorem Leads.normalize_join (h : Leads a r b) (hroot : rootSlashes a = rootSlashes b) :
    normalize (join a r) = normalize b := by
  apply normalize_congr
  · rw [rootSlashes_join h.relative, hroot]
  · rw [settle_join h.relative, h.arrives]

/-- The path that leads there may be read and written out again. -/
theorem Leads.text_ofText (h : Leads a r b) : Leads a (Location.ofText r).text b := by
  constructor
  · rw [ofText_of_relative h.relative]
    exact beginsWith_text (part_of_mem_ofText r)
  · rw [walk_text_ofText, h.arrives]

/-! ## The way between two absolute paths -/

theorem Settled.forall_plain {kept : List String} (h : Settled true kept) :
    ∀ s ∈ kept, Plain s := by
  induction h with
  | ups n hn =>
    rw [hn rfl]
    simp
  | name hs _ ih => exact List.forall_mem_cons.2 ⟨hs, ih⟩

theorem plain_of_mem_settle (h : 0 < rootSlashes p) : ∀ s ∈ settle p, Plain s := by
  have hsettled := settled_settle p
  rw [decide_eq_true h] at hsettled
  exact hsettled.forall_plain

theorem absolute_eq_normalize (h : 0 < rootSlashes p) (here : String) :
    absolute here p = normalize p := by
  have hslash : Text.beginsWith p "/" = true := by
    by_contra hrelative
    rw [rootSlashes_eq_zero (by simpa using hrelative)] at h
    exact absurd h (by decide)
  rw [absolute, if_pos hslash]

theorem filter_segments_slashes (n : Nat) (p : String) :
    (segments (slashes n ++ p)).filter (· ≠ "") = (segments p).filter (· ≠ "") := by
  induction n with
  | zero => rw [slashes_zero_append]
  | succ n ih =>
    rw [slashes_succ_append, segments_append, List.filter_append, ih]
    rfl

/-- The segments of an absolute path in normal form are those that its walk keeps. -/
theorem filter_segments_normalize (h : 0 < rootSlashes p) :
    (segments (normalize p)).filter (· ≠ "") = (settle p).reverse := by
  have hparts := forall_part_settle p
  rw [normalize_eq_text, Location.text, if_neg fun hempty => Nat.ne_of_gt h hempty.1,
    filter_segments_slashes]
  by_cases hne : (settle p).reverse = []
  · rw [hne]
    rfl
  · rw [segments_ofSegments hne fun s hs => (hparts s hs).slashFree, List.filter_eq_self]
    intro s hs
    simpa using (hparts s hs).ne_empty

theorem exists_common (ss ts : List String) :
    ∃ common, ss = common ++ (dropCommon ss ts).1 ∧ ts = common ++ (dropCommon ss ts).2 := by
  fun_induction dropCommon ss ts with
  | case1 ss s ts ih =>
    obtain ⟨common, hss, hts⟩ := ih
    exact ⟨s :: common, congrArg (s :: ·) hss, congrArg (s :: ·) hts⟩
  | case2 => exact ⟨[], rfl, rfl⟩
  | case3 => exact ⟨[], rfl, rfl⟩

/-- The way goes up out of what only the first path has and down into what only the second has. -/
theorem exists_wayFrom_eq (ha : 0 < rootSlashes a) (hb : 0 < rootSlashes b) (here : String) :
    ∃ common up down, (settle a).reverse = common ++ up ∧ (settle b).reverse = common ++ down ∧
      wayFrom here a b = (⟨0, List.replicate up.length ".." ++ down⟩ : Location).text := by
  obtain ⟨common, hup, hdown⟩ := exists_common (settle a).reverse (settle b).reverse
  refine ⟨common, _, _, hup, hdown, ?_⟩
  unfold wayFrom
  rw [absolute_eq_normalize ha, absolute_eq_normalize hb, filter_segments_normalize ha,
    filter_segments_normalize hb]
  dsimp only
  split
  · next hnil => rw [hnil]; rfl
  · next hne => rw [text_of_ne_nil hne]

theorem leads_wayFrom (ha : 0 < rootSlashes a) (hb : 0 < rootSlashes b) (here : String) :
    Leads a (wayFrom here a b) b := by
  obtain ⟨common, up, down, hup, hdown, hway⟩ := exists_wayFrom_eq ha hb here
  -- both paths are absolute, so all they keep are names and each `..` of the way takes one back
  have hclimbed : ∀ s ∈ up.reverse, Plain s := by
    intro s hs
    apply plain_of_mem_settle ha
    rw [← List.mem_reverse, hup]
    exact List.mem_append_right common (List.mem_reverse.1 hs)
  have hentered : ∀ s ∈ down, Plain s := by
    intro s hs
    apply plain_of_mem_settle hb
    rw [← List.mem_reverse, hdown]
    exact List.mem_append_right common hs
  have hparts : ∀ s ∈ List.replicate up.length ".." ++ down, Part s :=
    List.forall_mem_append.2 ⟨forall_part_ups up.length, fun s hs => (hentered s hs).toPart⟩
  rw [hway]
  constructor
  · exact beginsWith_text hparts
  · have hstart : settle a = up.reverse ++ common.reverse := by
      rw [← List.reverse_append, ← hup, List.reverse_reverse]
    have hend : settle b = down.reverse ++ common.reverse := by
      rw [← List.reverse_append, ← hdown, List.reverse_reverse]
    rw [walk_text hparts, List.foldl_append, hstart, ← List.length_reverse,
      foldl_push_replicate hclimbed, foldl_push_plain hentered, hend]

end Path

namespace Location

open Path

variable {base l r : Location}

theorem below?_eq_some (h : below? base l = some r) :
    r.root = 0 ∧ base.root = l.root ∧ l.parts = base.parts ++ r.parts := by
  unfold below? at h
  split at h
  · next hbelow =>
    cases h
    exact ⟨rfl, hbelow.1, (List.prefix_iff_eq_append.1 hbelow.2).symm⟩
  · cases h

/-- What follows the root in a path leads on from the root, wherever its `..` go. -/
theorem leads_below {root p : String} (h : below? (ofText root) (ofText p) = some r) :
    Leads root r.text p := by
  obtain ⟨hrelative, hroot, hparts⟩ := below?_eq_some h
  have hrest : ∀ s ∈ r.parts, Part s := by
    intro s hs
    apply part_of_mem_ofText p
    rw [hparts]
    exact List.mem_append_right _ hs
  constructor
  · have hr : r = ⟨0, r.parts⟩ := by rw [← hrelative]
    rw [hr]
    exact beginsWith_text hrest
  · have hsame : rootSlashes root = rootSlashes p := hroot
    rw [walk_text hrest, settle, settle, ← foldl_push_ofText, ← foldl_push_ofText, hparts,
      List.foldl_append, hsame]

theorem leads_relativeTo {root p : String} (hroot : 0 < rootSlashes root) (hp : 0 < rootSlashes p)
    (here : Location) : Leads root (relativeTo here (ofText root) (ofText p)) p := by
  unfold relativeTo
  split
  · next hbelow => exact leads_below hbelow
  · -- the way is taken between the two locations written out, which lead where the paths do
    have hway : Leads (ofText root).text
        (wayFrom here.text (ofText root).text (ofText p).text) (ofText p).text := by
      apply leads_wayFrom
      · rwa [rootSlashes_text_ofText]
      · rwa [rootSlashes_text_ofText]
    have hleads : Leads root (wayFrom here.text (ofText root).text (ofText p).text) p := by
      refine ⟨hway.relative, ?_⟩
      rw [← settle_text_ofText root, ← settle_text_ofText p, ← hway.arrives,
        rootSlashes_text_ofText]
    exact hleads.text_ofText

/-- The text by which a file goes in the project is a relative path that leads from the root to the
file, whether the file lies below the root or elsewhere, and wherever `..` stands in either path. -/
theorem relativeTo_denotes_file (here : Location) (root p : String)
    (absolute : 0 < rootSlashes p) (sameRoot : rootSlashes root = rootSlashes p) :
    Text.beginsWith (relativeTo here (ofText root) (ofText p)) "/" = false ∧
      normalize (join root (relativeTo here (ofText root) (ofText p))) = normalize p := by
  have hleads := leads_relativeTo (sameRoot ▸ absolute) absolute here
  exact ⟨hleads.relative, hleads.normalize_join sameRoot⟩

/-- One file whose path passes through the root and leaves it again, and one beside the root. -/
theorem libraryAndTool_denoted :
    let root := "/work//app/"
    let library := "/work/app/../lib/./a.ts"
    let tool := "/work/x/../../opt/b.ts"
    (0 < rootSlashes library ∧ rootSlashes root = rootSlashes library) ∧
    (0 < rootSlashes tool ∧ rootSlashes root = rootSlashes tool) ∧
    relativeTo ⟨1, ["project"]⟩ (ofText root) (ofText library) = "../lib/a.ts" ∧
    relativeTo ⟨1, ["project"]⟩ (ofText root) (ofText tool) = "../../opt/b.ts" ∧
    normalize (join root "../lib/a.ts") = normalize library ∧ normalize library = "/work/lib/a.ts" ∧
    normalize (join root "../../opt/b.ts") = normalize tool ∧ normalize tool = "/opt/b.ts" := by
  intro root library tool
  have hlibrary : 0 < rootSlashes library ∧ rootSlashes root = rootSlashes library := by decide
  have htool : 0 < rootSlashes tool ∧ rootSlashes root = rootSlashes tool := by decide
  have hlibraryText :
      relativeTo ⟨1, ["project"]⟩ (ofText root) (ofText library) = "../lib/a.ts" := by
    decide +kernel
  have htoolText : relativeTo ⟨1, ["project"]⟩ (ofText root) (ofText tool) = "../../opt/b.ts" := by
    decide +kernel
  refine ⟨hlibrary, htool, hlibraryText, htoolText, ?_, by decide +kernel, ?_, by decide +kernel⟩
  · rw [← hlibraryText]
    exact (relativeTo_denotes_file _ root library hlibrary.1 hlibrary.2).2
  · rw [← htoolText]
    exact (relativeTo_denotes_file _ root tool htool.1 htool.2).2

end Location

end ImportAtlas
