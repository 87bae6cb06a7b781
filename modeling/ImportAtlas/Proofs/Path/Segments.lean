import ImportAtlas.Path
import ImportAtlas.Proofs.Text

/-!
# Paths seen as segments

Cutting a path at its slashes turns joining into appending, so the last segment of a joined or
normalized path can be read off its parts. A segment that is more than dots survives
`normalize` at the end of a path, and it is what `splitExtension` leaves of it under an extension.
-/

namespace ImportAtlas

namespace Path

/-! ## Cutting and joining -/

theorem segments_append (a b : String) : segments (a ++ "/" ++ b) = segments a ++ segments b := by
  have hlist : (a ++ "/" ++ b).toList = a.toList ++ '/' :: b.toList := by simp
  rw [segments, hlist, Text.splitAt_append, List.map_append]
  rfl

theorem segments_slash (a : String) : segments (a ++ "/") = segments a ++ [""] := by
  have hend : a ++ "/" = a ++ "/" ++ "" := String.append_empty.symm
  rw [hend, segments_append]
  rfl

theorem segments_of_notMem {s : String} (h : '/' ∉ s.toList) : segments s = [s] := by
  rw [segments, Text.splitAt_of_notMem h, List.map_singleton, String.ofList_toList]

theorem segments_ne_nil (p : String) : segments p ≠ [] := by
  simpa [segments] using Text.splitAt_ne_nil '/' p.toList

theorem notMem_of_mem_segments {p s : String} (h : s ∈ segments p) : '/' ∉ s.toList := by
  obtain ⟨piece, hpiece, rfl⟩ := List.mem_map.1 h
  rw [String.toList_ofList]
  exact Text.notMem_of_mem_splitAt hpiece

theorem getLast?_segments_append {s : String} (h : '/' ∉ s.toList) (front : String) :
    (segments (front ++ "/" ++ s)).getLast? = some s := by
  rw [segments_append, segments_of_notMem h, List.getLast?_concat]

@[simp]
theorem ofSegments_singleton (s : String) : ofSegments [s] = s := by simp [ofSegments]

theorem ofSegments_cons (s : String) {ss : List String} (h : ss ≠ []) :
    ofSegments (s :: ss) = s ++ "/" ++ ofSegments ss := by
  obtain ⟨t, ts, rfl⟩ := List.exists_cons_of_ne_nil h
  exact String.intercalate_cons_cons

theorem ofSegments_append {ss ts : List String} (hs : ss ≠ []) (ht : ts ≠ []) :
    ofSegments (ss ++ ts) = ofSegments ss ++ "/" ++ ofSegments ts := by
  induction ss with
  | nil => exact absurd rfl hs
  | cons s ss ih =>
    by_cases hss : ss = []
    · subst hss
      rw [List.singleton_append, ofSegments_cons s ht]
      simp [ofSegments]
    · rw [List.cons_append, ofSegments_cons s (by simp [hss]), ih hss, ofSegments_cons s hss]
      simp only [String.append_assoc]

theorem exists_of_finishesWith {a : String} (h : Text.finishesWith a "/" = true) :
    ∃ f, a = f ++ "/" := by
  obtain ⟨f, hf⟩ := List.isSuffixOf_iff_suffix.1 h
  refine ⟨String.ofList f, String.toList_inj.1 ?_⟩
  rw [String.toList_append, String.toList_ofList, hf]

/-- What ends a path behind its last slash, or is the whole of it. -/
theorem getLast?_segments_of_front {front s : String} (h : '/' ∉ s.toList)
    (hfront : front = "" ∨ ∃ f, front = f ++ "/") :
    (segments (front ++ s)).getLast? = some s := by
  rcases hfront with rfl | ⟨f, rfl⟩
  · rw [String.empty_append, segments_of_notMem h]
    rfl
  · exact getLast?_segments_append h f

theorem getLast?_segments_join (a : String) {b : String} (h : '/' ∉ b.toList) :
    (segments (join a b)).getLast? = some b := by
  unfold join
  split
  · next hroot =>
    obtain ⟨rest, hrest⟩ := List.isPrefixOf_iff_prefix.1 hroot
    exact absurd (hrest ▸ List.mem_append_left rest (by decide)) h
  · split
    · next hfront =>
      exact getLast?_segments_of_front h (hfront.imp id exists_of_finishesWith)
    · exact getLast?_segments_append h a

/-- Below a directory, the last segment is that of the path that leads down from it. -/
theorem getLast?_segments_join_below {a : String} (ha : ¬(a = "" ∨ Text.finishesWith a "/" = true))
    (b : String) : (segments (join a b)).getLast? = (segments b).getLast? := by
  unfold join
  split
  · rfl
  · rw [segments_append, List.getLast?_append_of_ne_nil _ (segments_ne_nil b)]

/-! ## Last segments -/

/-- A segment with some character other than a dot. -/
def MoreThanDots (s : String) : Prop := ∃ c ∈ s.toList, c ≠ '.'

instance (s : String) : Decidable (MoreThanDots s) :=
  List.decidableBEx _ s.toList

theorem MoreThanDots.ne {s t : String} (h : MoreThanDots s) (ht : ∀ c ∈ t.toList, c = '.') :
    s ≠ t := by
  rintro rfl
  obtain ⟨c, hc, hdot⟩ := h
  exact hdot (ht c hc)

theorem MoreThanDots.push {s : String} (h : MoreThanDots s) (rooted : Bool) (kept : List String) :
    push rooted kept s = s :: kept := by
  have hempty : s ≠ "" := h.ne (by simp)
  have hdot : s ≠ "." := h.ne (by simp)
  have hup : s ≠ ".." := h.ne (by simp)
  simp [Path.push, hempty, hdot, hup]

theorem MoreThanDots.collapse_concat {s : String} (h : MoreThanDots s) (rooted : Bool)
    (ss : List String) : ∃ kept, collapse rooted (ss ++ [s]) = kept ++ [s] := by
  refine ⟨(ss.foldl (Path.push rooted) []).reverse, ?_⟩
  rw [collapse, List.foldl_append, List.foldl_cons, List.foldl_nil, h.push, List.reverse_cons]

theorem exists_slashes_succ (n : Nat) : ∃ f, slashes (n + 1) = f ++ "/" := by
  refine ⟨slashes n, String.toList_inj.1 ?_⟩
  simp [slashes, List.replicate_succ']

/-- A last segment that is more than dots is the last segment of the normal form. -/
theorem exists_normalize_eq {p s : String} (hs : (segments p).getLast? = some s)
    (h : MoreThanDots s) :
    ∃ front, normalize p = front ++ s ∧ (front = "" ∨ ∃ f, front = f ++ "/") := by
  obtain ⟨ss, hss⟩ := List.getLast?_eq_some_iff.1 hs
  obtain ⟨kept, hkept⟩ := h.collapse_concat (decide (0 < rootSlashes p)) ss
  have hnormal : normalize p = slashes (rootSlashes p) ++ ofSegments (kept ++ [s]) := by
    unfold normalize
    dsimp only
    rw [hss, hkept, if_neg]
    intro hempty
    have hlast : s ≠ "" := h.ne (by simp)
    rw [String.append_eq_empty_iff] at hempty
    by_cases hk : kept = []
    · subst hk
      exact hlast (by simpa [ofSegments] using hempty.2)
    · rw [ofSegments_append hk (by simp)] at hempty
      simp at hempty
  rw [hnormal]
  by_cases hk : kept = []
  · subst hk
    refine ⟨slashes (rootSlashes p), by simp [ofSegments], ?_⟩
    cases rootSlashes p with
    | zero => exact .inl rfl
    | succ n => exact .inr (exists_slashes_succ n)
  · refine ⟨slashes (rootSlashes p) ++ ofSegments kept ++ "/", ?_, .inr ⟨_, rfl⟩⟩
    rw [ofSegments_append hk (by simp)]
    simp [ofSegments, String.append_assoc]

theorem getLast?_segments_normalize {p s ext : String} (hs : (segments p).getLast? = some s)
    (h : MoreThanDots s) (hext : '/' ∉ ext.toList) :
    (segments (normalize p ++ ext)).getLast? = some (s ++ ext) := by
  obtain ⟨front, hfront, hslash⟩ := exists_normalize_eq hs h
  rw [hfront, String.append_assoc]
  apply getLast?_segments_of_front _ hslash
  rw [String.toList_append, List.mem_append, not_or]
  exact ⟨notMem_of_mem_segments (List.mem_of_getLast? hs), hext⟩

/-! ## Extensions -/

theorem bne_of_mem_reverse {sep : Char} {cs : List Char} (h : sep ∉ cs) :
    ∀ c ∈ cs.reverse, (c != sep) = true := by
  intro c hc
  rw [bne_iff_ne]
  rintro rfl
  exact h (List.mem_reverse.1 hc)

theorem cutLast?_append {sep : Char} {tail : List Char} (h : sep ∉ tail) (front : List Char) :
    cutLast? sep (front ++ sep :: tail) = some (front, tail) := by
  have hback : (front ++ sep :: tail).reverse = tail.reverse ++ sep :: front.reverse := by simp
  have hne := bne_of_mem_reverse h
  unfold cutLast?
  dsimp only
  rw [hback, List.dropWhile_append_of_pos hne, List.takeWhile_append_of_pos hne]
  simp

theorem cutLast?_of_notMem {sep : Char} {cs : List Char} (h : sep ∉ cs) :
    cutLast? sep cs = none := by
  have hnil : (cs.reverse ++ []).dropWhile (· != sep) = [] :=
    List.dropWhile_append_of_pos (bne_of_mem_reverse h)
  rw [List.append_nil] at hnil
  unfold cutLast?
  dsimp only
  rw [hnil]

/-- The extension that stands behind more than dots is split off. -/
theorem splitExtension_append {s ext : String} (h : MoreThanDots s) (hs : '/' ∉ s.toList)
    (hslash : '/' ∉ ext.toList) (hdot : '.' ∉ ext.toList) :
    splitExtension (s ++ "." ++ ext) = (s, "." ++ ext) := by
  have hlist : (s ++ "." ++ ext).toList = s.toList ++ '.' :: ext.toList := by simp
  have hbase : basename (s ++ "." ++ ext) = s ++ "." ++ ext := by
    rw [basename, cutLast?_of_notMem]
    rw [hlist, List.mem_append, List.mem_cons, not_or, not_or]
    exact ⟨hs, by decide, hslash⟩
  have hany : (s.toList.any fun c => c != '.') = true := by
    obtain ⟨c, hc, hne⟩ := h
    exact List.any_eq_true.2 ⟨c, hc, bne_iff_ne.2 hne⟩
  have htake : s.toList.length + (ext.toList.length + 1) - (ext.toList.length + 1) =
      s.toList.length := by omega
  unfold splitExtension
  dsimp only
  rw [hbase, hlist, cutLast?_append hdot]
  simp only [hany, if_true, List.length_append, List.length_cons, htake, List.take_left,
    String.ofList_toList, Prod.mk.injEq, true_and]
  exact String.toList_inj.1 (by simp)

end Path

end ImportAtlas
