import ImportAtlas.Location
import ImportAtlas.Proofs.Path.Segments

/-!
# Walks along paths

A path is normalized by a walk along its segments that keeps those no `..` takes back. What the walk
keeps is settled: plain names, below them `..` as often as the path leaves where it starts. Joining
two paths walks on from what the first one left, and a settled list walked along again gives itself,
so a path may be normalized before or after it is joined to another.
-/

namespace ImportAtlas

namespace Path

variable {rooted : Bool} {kept ss : List String} {a b p q s : String}

/-! ## Plain segments -/

/-- A segment that is found again when the path it was written into is cut. -/
structure Part (s : String) : Prop where
  ne_empty : s ≠ ""
  slashFree : '/' ∉ s.toList

/-- A segment that names an entry of a directory. -/
structure Plain (s : String) : Prop extends Part s where
  ne_dot : s ≠ "."
  ne_up : s ≠ ".."

instance (s : String) : Decidable (Part s) :=
  decidable_of_iff (s ≠ "" ∧ '/' ∉ s.toList)
    ⟨fun h => ⟨h.1, h.2⟩, fun h => ⟨h.ne_empty, h.slashFree⟩⟩

instance (s : String) : Decidable (Plain s) :=
  decidable_of_iff ((s ≠ "" ∧ '/' ∉ s.toList) ∧ s ≠ "." ∧ s ≠ "..")
    ⟨fun h => ⟨⟨h.1.1, h.1.2⟩, h.2.1, h.2.2⟩,
      fun h => ⟨⟨h.ne_empty, h.slashFree⟩, h.ne_dot, h.ne_up⟩⟩

theorem part_dot : Part "." := ⟨by decide, by decide⟩

theorem part_up : Part ".." := ⟨by decide, by decide⟩

theorem forall_part_ups (n : Nat) : ∀ s ∈ List.replicate n "..", Part s := by
  intro s hs
  rw [List.eq_of_mem_replicate hs]
  exact part_up

@[simp]
theorem push_empty (rooted : Bool) (kept : List String) : push rooted kept "" = kept := by
  simp [push]

@[simp]
theorem push_dot (rooted : Bool) (kept : List String) : push rooted kept "." = kept := by
  simp [push]

theorem Plain.push (h : Plain s) (rooted : Bool) (kept : List String) :
    push rooted kept s = s :: kept := by
  simp [Path.push, h.ne_empty, h.ne_dot, h.ne_up]

theorem Plain.push_up (h : Plain s) (rooted : Bool) (kept : List String) :
    Path.push rooted (s :: kept) ".." = kept := by
  simp [Path.push, h.ne_up]

theorem push_up_replicate (n : Nat) :
    push false (List.replicate n "..") ".." = List.replicate (n + 1) ".." := by
  cases n <;> simp [push, List.replicate_succ]

theorem foldl_push_plain (h : ∀ s ∈ ss, Plain s) (rooted : Bool) (kept : List String) :
    ss.foldl (push rooted) kept = ss.reverse ++ kept := by
  induction ss generalizing kept with
  | nil => rfl
  | cons s ss ih =>
    obtain ⟨hs, hss⟩ := List.forall_mem_cons.1 h
    rw [List.foldl_cons, hs.push, ih hss, List.reverse_cons, List.append_assoc]
    rfl

/-- Each `..` takes back one of the names before it. -/
theorem foldl_push_replicate (h : ∀ s ∈ ss, Plain s) (rooted : Bool) (kept : List String) :
    (List.replicate ss.length "..").foldl (push rooted) (ss ++ kept) = kept := by
  induction ss with
  | nil => rfl
  | cons s ss ih =>
    obtain ⟨hs, hss⟩ := List.forall_mem_cons.1 h
    rw [List.length_cons, List.replicate_succ, List.foldl_cons, List.cons_append, hs.push_up,
      ih hss]

/-! ## Settled lists -/

/-- What a walk can keep, innermost first: plain names, and below them `..` unless the path is
rooted. -/
inductive Settled (rooted : Bool) : List String → Prop
  | ups (n : Nat) (h : rooted = true → n = 0) : Settled rooted (List.replicate n "..")
  | name {s : String} {kept : List String} (h : Plain s) (below : Settled rooted kept) :
      Settled rooted (s :: kept)

theorem Settled.nil (rooted : Bool) : Settled rooted [] := .ups 0 fun _ => rfl

theorem Settled.push (h : Settled rooted kept) (hs : '/' ∉ s.toList) :
    Settled rooted (push rooted kept s) := by
  by_cases hempty : s = ""
  · rwa [hempty, push_empty]
  by_cases hdot : s = "."
  · rwa [hdot, push_dot]
  by_cases hup : s = ".."
  · subst hup
    -- Above a name `..` takes the name back; with only `..` below, it is one more of them, or
    -- nothing at the root.
    cases h with
    | name hname below => rwa [hname.push_up]
    | ups n hn =>
      cases rooted with
      | false =>
        rw [push_up_replicate]
        exact .ups (n + 1) (by simp)
      | true =>
        rw [hn rfl]
        exact .nil true
  · have hplain : Plain s := ⟨⟨hempty, hs⟩, hdot, hup⟩
    rw [hplain.push]
    exact .name hplain h

theorem Settled.foldl (h : Settled rooted kept) (hss : ∀ s ∈ ss, '/' ∉ s.toList) :
    Settled rooted (ss.foldl (Path.push rooted) kept) := by
  induction ss generalizing kept with
  | nil => exact h
  | cons s ss ih =>
    obtain ⟨hs, hss⟩ := List.forall_mem_cons.1 hss
    exact ih (h.push hs) hss

theorem foldl_push_up (n : Nat) :
    (List.replicate n "..").foldl (push false) [] = List.replicate n ".." := by
  induction n with
  | zero => rfl
  | succ n ih =>
    rw [List.replicate_succ', List.foldl_append, ih, List.foldl_cons, List.foldl_nil,
      push_up_replicate, List.replicate_succ']

/-- Walking along what was kept keeps all of it. -/
theorem Settled.foldl_reverse (h : Settled rooted kept) :
    kept.reverse.foldl (Path.push rooted) [] = kept := by
  induction h with
  | ups n hn =>
    rw [List.reverse_replicate]
    cases rooted with
    | false => exact foldl_push_up n
    | true =>
      rw [hn rfl]
      rfl
  | name hs _ ih =>
    rw [List.reverse_cons, List.foldl_append, ih]
    exact hs.push rooted _

theorem Settled.forall_part (h : Settled rooted kept) : ∀ s ∈ kept, Part s := by
  induction h with
  | ups n => exact forall_part_ups n
  | name hname _ ih => exact List.forall_mem_cons.2 ⟨hname.toPart, ih⟩

/-! ## How paths begin -/

theorem beginsWith_append {w : String} (h : Text.beginsWith s w = true) (t : String) :
    Text.beginsWith (s ++ t) w = true := by
  rw [Text.beginsWith, String.toList_append]
  exact List.isPrefixOf_iff_prefix.2
    ((List.isPrefixOf_iff_prefix.1 h).trans (List.prefix_append s.toList t.toList))

theorem Part.beginsWith_append (h : Part s) (t : String) :
    Text.beginsWith (s ++ t) "/" = false := by
  have hslash := h.slashFree
  obtain ⟨c, cs, hlist⟩ := List.exists_cons_of_ne_nil (l := s.toList) (by simpa using h.ne_empty)
  rw [hlist] at hslash
  have hc : '/' ≠ c := (List.ne_and_not_mem_of_not_mem_cons hslash).1
  simp [Text.beginsWith, List.isPrefixOf, hlist, hc]

theorem beginsWith_slash_of_dot (h : Text.beginsWith s "." = true) :
    Text.beginsWith s "/" = false := by
  obtain ⟨rest, hrest⟩ := List.isPrefixOf_iff_prefix.1 h
  simp [Text.beginsWith, List.isPrefixOf, ← hrest]

/-- Whether a path begins with a dot is seen at its first segment. -/
theorem beginsWith_dot (p : String) :
    Text.beginsWith p "." = (segments p).head?.any (Text.beginsWith · ".") := by
  unfold segments Text.beginsWith
  cases p.toList with
  | nil => rfl
  | cons c cs =>
    by_cases hc : c = '/'
    · subst hc
      simp [Text.splitAt, List.isPrefixOf]
    · obtain ⟨piece, rest, hcs⟩ := List.exists_cons_of_ne_nil (Text.splitAt_ne_nil '/' cs)
      simp [Text.splitAt_cons_of_ne hc hcs, List.isPrefixOf]

theorem beginsWith_ofSegments (h : ∀ s ∈ ss, Part s) :
    Text.beginsWith (ofSegments ss) "/" = false := by
  cases ss with
  | nil => rfl
  | cons s rest =>
    have hs : Part s := h s List.mem_cons_self
    by_cases hrest : rest = []
    · subst hrest
      rw [ofSegments_singleton, ← String.append_empty (s := s)]
      exact hs.beginsWith_append ""
    · rw [ofSegments_cons s hrest, String.append_assoc]
      exact hs.beginsWith_append _

/-! ## Walks -/

/-- The segments kept, innermost first, after a walk along `p` from where `kept` leads. -/
def walk (rooted : Bool) (kept : List String) (p : String) : List String :=
  (segments p).foldl (push rooted) kept

@[simp]
theorem walk_empty (rooted : Bool) (kept : List String) : walk rooted kept "" = kept :=
  push_empty rooted kept

theorem walk_append (rooted : Bool) (kept : List String) (a b : String) :
    walk rooted kept (a ++ "/" ++ b) = walk rooted (walk rooted kept a) b := by
  rw [walk, segments_append, List.foldl_append]
  rfl

theorem walk_slash (rooted : Bool) (kept : List String) (a : String) :
    walk rooted kept (a ++ "/") = walk rooted kept a := by
  rw [walk, segments_slash, List.foldl_append]
  exact push_empty rooted _

theorem slashes_zero_append (p : String) : slashes 0 ++ p = p := by
  rw [slashes, List.replicate_zero, String.ofList_nil, String.empty_append]

theorem slashes_succ_append (n : Nat) (p : String) :
    slashes (n + 1) ++ p = "" ++ "/" ++ (slashes n ++ p) :=
  String.toList_inj.1 (by simp [slashes, List.replicate_succ])

theorem walk_slashes (rooted : Bool) (kept : List String) (n : Nat) (p : String) :
    walk rooted kept (slashes n ++ p) = walk rooted kept p := by
  induction n with
  | zero => rw [slashes_zero_append]
  | succ n ih => rw [slashes_succ_append, walk_append, walk_empty, ih]

theorem segments_ofSegments (hne : ss ≠ []) (h : ∀ s ∈ ss, '/' ∉ s.toList) :
    segments (ofSegments ss) = ss := by
  induction ss with
  | nil => exact absurd rfl hne
  | cons s ss ih =>
    obtain ⟨hs, hss⟩ := List.forall_mem_cons.1 h
    by_cases hnil : ss = []
    · subst hnil
      rw [ofSegments_singleton, segments_of_notMem hs]
    · rw [ofSegments_cons s hnil, segments_append, segments_of_notMem hs, ih hnil hss]
      rfl

theorem walk_ofSegments (h : ∀ s ∈ ss, '/' ∉ s.toList) (rooted : Bool) (kept : List String) :
    walk rooted kept (ofSegments ss) = ss.foldl (push rooted) kept := by
  by_cases hne : ss = []
  · subst hne
    exact walk_empty rooted kept
  · rw [walk, segments_ofSegments hne h]

theorem Settled.walk (h : Settled rooted kept) (p : String) : Settled rooted (walk rooted kept p) :=
  h.foldl fun _ => notMem_of_mem_segments

/-- From a directory, a relative path walks on from what the directory left. -/
theorem walk_join (hb : Text.beginsWith b "/" = false) (rooted : Bool) (kept : List String)
    (a : String) : walk rooted kept (join a b) = walk rooted (walk rooted kept a) b := by
  unfold join
  rw [if_neg (by simp [hb])]
  split
  · next hfront =>
    rcases hfront with rfl | hslash
    · rw [String.empty_append, walk_empty]
    · obtain ⟨f, rfl⟩ := exists_of_finishesWith hslash
      rw [walk_append, walk_slash]
  · exact walk_append rooted kept a b

/-! ## Roots -/

theorem rootSlashes_le (p : String) : rootSlashes p ≤ 2 := by
  unfold rootSlashes
  split <;> decide

theorem rootSlashes_slashes {n : Nat} (h : n ≤ 2) : rootSlashes (slashes n) = n := by
  obtain rfl | rfl | rfl : n = 0 ∨ n = 1 ∨ n = 2 := by omega
  all_goals decide

theorem takeWhile_slash_eq_nil (hb : Text.beginsWith b "/" = false) :
    b.toList.takeWhile (· == '/') = [] := by
  unfold Text.beginsWith at hb
  cases hlist : b.toList with
  | nil => rfl
  | cons c cs =>
    have hc : ¬c = '/' := by
      rintro rfl
      simp [hlist] at hb
    simp [hc]

theorem rootSlashes_append (hb : Text.beginsWith b "/" = false) (a : String) :
    rootSlashes (a ++ b) = rootSlashes a := by
  have hfront : (a ++ b).toList.takeWhile (· == '/') = a.toList.takeWhile (· == '/') := by
    rw [String.toList_append, List.takeWhile_append, takeWhile_slash_eq_nil hb, List.append_nil]
    -- Either `a` is all slashes and `b` adds none, or the root ends within `a`.
    split
    · next hall => exact ((List.takeWhile_prefix _).eq_of_length hall).symm
    · rfl
  rw [rootSlashes, hfront]
  rfl

theorem rootSlashes_eq_zero (hb : Text.beginsWith b "/" = false) : rootSlashes b = 0 := by
  rw [rootSlashes, takeWhile_slash_eq_nil hb]
  rfl

/-- A path that does not end at a slash has all of its root in front of it. -/
theorem rootSlashes_append_slash (ha : ¬(a = "" ∨ Text.finishesWith a "/" = true)) (b : String) :
    rootSlashes (a ++ "/" ++ b) = rootSlashes a := by
  obtain ⟨hne, hlast⟩ := not_or.1 ha
  have hlong : ¬(a.toList.takeWhile (· == '/')).length = a.toList.length := by
    intro hall
    have hslashes := (List.takeWhile_prefix _).eq_of_length hall
    obtain ⟨front, c, hfront⟩ := List.eq_nil_or_concat a.toList |>.resolve_left (by simpa using hne)
    rw [List.concat_eq_append] at hfront
    have hc : c = '/' := by
      have hmem : c ∈ a.toList := by simp [hfront]
      exact eq_of_beq (List.all_eq_true.1 (hslashes ▸ List.all_takeWhile) c hmem)
    exact hlast (List.isSuffixOf_iff_suffix.2 ⟨front, by simp [hfront, hc]⟩)
  have hfront : (a ++ "/" ++ b).toList.takeWhile (· == '/') = a.toList.takeWhile (· == '/') := by
    rw [String.append_assoc, String.toList_append, List.takeWhile_append, if_neg hlong]
  rw [rootSlashes, hfront]
  rfl

theorem rootSlashes_join (hb : Text.beginsWith b "/" = false) (a : String) :
    rootSlashes (join a b) = rootSlashes a := by
  unfold join
  rw [if_neg (by simp [hb])]
  split
  · exact rootSlashes_append hb a
  · next ha => exact rootSlashes_append_slash ha b

/-! ## Locations as text -/

theorem walk_text {l : Location} (h : ∀ s ∈ l.parts, Part s) (rooted : Bool) (kept : List String) :
    walk rooted kept l.text = l.parts.foldl (push rooted) kept := by
  unfold Location.text
  split
  · next hempty =>
    rw [hempty.2]
    exact push_dot rooted kept
  · rw [walk_slashes, walk_ofSegments fun s hs => (h s hs).slashFree]

theorem rootSlashes_text {l : Location} (hroot : l.root ≤ 2) (h : ∀ s ∈ l.parts, Part s) :
    rootSlashes l.text = l.root := by
  unfold Location.text
  split
  · next hempty =>
    rw [hempty.1]
    decide
  · rw [rootSlashes_append (beginsWith_ofSegments h), rootSlashes_slashes hroot]

theorem text_of_ne_nil (hne : ss ≠ []) : (⟨0, ss⟩ : Location).text = ofSegments ss := by
  rw [Location.text, if_neg fun hempty => hne hempty.2, slashes_zero_append]

theorem beginsWith_text (h : ∀ s ∈ ss, Part s) :
    Text.beginsWith (⟨0, ss⟩ : Location).text "/" = false := by
  unfold Location.text
  split
  · decide
  · rw [slashes_zero_append]
    exact beginsWith_ofSegments h

/-! ## Normal forms -/

/-- What the walk along a whole path keeps, innermost first. -/
def settle (p : String) : List String := walk (0 < rootSlashes p) [] p

theorem settled_settle (p : String) : Settled (0 < rootSlashes p) (settle p) :=
  (Settled.nil _).walk p

theorem settle_join (hb : Text.beginsWith b "/" = false) (a : String) :
    settle (join a b) = walk (0 < rootSlashes a) (settle a) b := by
  rw [settle, rootSlashes_join hb, walk_join hb]
  rfl

theorem normalize_congr (hroot : rootSlashes p = rootSlashes q) (h : settle p = settle q) :
    normalize p = normalize q := by
  show (let n := rootSlashes p
    let t := slashes n ++ ofSegments (settle p).reverse
    if t = "" then "." else t) = _
  rw [hroot, h]
  rfl

theorem ofSegments_ne_empty (hne : ss ≠ []) (h : ∀ s ∈ ss, Part s) : ofSegments ss ≠ "" := by
  obtain ⟨s, rest, rfl⟩ := List.exists_cons_of_ne_nil hne
  by_cases hrest : rest = []
  · subst hrest
    simpa using (h s List.mem_cons_self).ne_empty
  · rw [ofSegments_cons s hrest]
    simp

theorem forall_part_settle (p : String) : ∀ s ∈ (settle p).reverse, Part s := by
  intro s hs
  exact (settled_settle p).forall_part s (List.mem_reverse.1 hs)

/-- The normal form writes down where the walk has led. -/
theorem normalize_eq_text (p : String) :
    normalize p = (⟨rootSlashes p, (settle p).reverse⟩ : Location).text := by
  show (let q := slashes (rootSlashes p) ++ ofSegments (settle p).reverse
    if q = "" then "." else q) = _
  have hempty : slashes (rootSlashes p) ++ ofSegments (settle p).reverse = "" ↔
      rootSlashes p = 0 ∧ (settle p).reverse = [] := by
    rw [String.append_eq_empty_iff]
    refine and_congr ?_ ⟨fun h => ?_, fun h => by rw [h]; rfl⟩
    · rw [← String.toList_inj]
      simp [slashes]
    · by_contra hne
      exact ofSegments_ne_empty hne (forall_part_settle p) h
  simp only [hempty, Location.text]

theorem rootSlashes_normalize (p : String) : rootSlashes (normalize p) = rootSlashes p := by
  rw [normalize_eq_text]
  exact rootSlashes_text (rootSlashes_le p) (forall_part_settle p)

theorem settle_normalize (p : String) : settle (normalize p) = settle p := by
  rw [settle, rootSlashes_normalize, normalize_eq_text, walk_text (forall_part_settle p)]
  exact (settled_settle p).foldl_reverse

/-- A directory may be normalized before a path is taken from it. -/
theorem normalize_join_normalize (a b : String) :
    normalize (join (normalize a) b) = normalize (join a b) := by
  by_cases hb : Text.beginsWith b "/" = true
  · simp only [join, hb, if_true]
  · rw [Bool.not_eq_true] at hb
    apply normalize_congr
    · rw [rootSlashes_join hb, rootSlashes_join hb, rootSlashes_normalize]
    · rw [settle_join hb, settle_join hb, rootSlashes_normalize, settle_normalize]

end Path

end ImportAtlas
