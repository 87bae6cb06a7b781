import ImportAtlas.Proofs.Decimal.Digits
import ImportAtlas.Text.Blank
import ImportAtlas.Text.Lines
import ImportAtlas.Text.Search
import Mathlib.Data.List.Basic
import Mathlib.Order.Nat

/-!
# Texts

Facts about the functions on characters and texts that the rest of the theory shares: trimming,
replacing, cutting and joining, lines, and the first place of a text in another (`FirstAt`), which
is where looking it up finds it.
-/

namespace ImportAtlas.Text

/-! ## Blanks -/

theorem isBlank_of_isDigit {c : Char} (h : c.isDigit = true) : isBlank c = false := by
  have hdigit := Decimal.isDigit_iff.1 h
  simp only [isBlank, Bool.or_eq_false_iff, Bool.and_eq_false_iff, decide_eq_false_iff_not,
    beq_eq_false_iff_ne]
  omega

/-- Trimming removes what stands around a text and nothing of the text. -/
theorem trimBoth_between {p : Char → Bool} {as cs bs : List Char}
    (hfirst : ∀ c ∈ cs.head?, p c = false) (hlast : ∀ c ∈ cs.getLast?, p c = false)
    (has : ∀ c ∈ as, p c = true) (hbs : ∀ c ∈ bs, p c = true) :
    trimBoth p (as ++ (cs ++ bs)) = cs := by
  have hdrop {ds : List Char} (hd : ∀ c ∈ ds.head?, p c = false) : ds.dropWhile p = ds := by
    cases ds with
    | nil => rfl
    | cons d ds => simp [hd d rfl]
  rw [trimBoth, List.dropWhile_append_of_pos has]
  cases cs with
  | nil =>
    have hnil : bs.dropWhile p = [] := List.dropWhile_eq_nil_iff.2 hbs
    rw [List.nil_append, hnil]
    rfl
  | cons c cs =>
    have hfront : (c :: cs ++ bs).dropWhile p = c :: cs ++ bs := hdrop (by simpa using hfirst)
    have hback : (c :: cs).reverse.dropWhile p = (c :: cs).reverse :=
      hdrop (by rwa [List.head?_reverse])
    rw [hfront, List.reverse_append, List.dropWhile_append_of_pos (by simpa using hbs), hback,
      List.reverse_reverse]

theorem trimBoth_of_ends {p : Char → Bool} {cs : List Char} (hfirst : ∀ c ∈ cs.head?, p c = false)
    (hlast : ∀ c ∈ cs.getLast?, p c = false) : trimBoth p cs = cs := by
  have hall := trimBoth_between hfirst hlast (List.forall_mem_nil _) (List.forall_mem_nil _)
  rwa [List.nil_append, List.append_nil] at hall

theorem trimBoth_of_forall {p : Char → Bool} {cs : List Char} (h : ∀ c ∈ cs, p c = false) :
    trimBoth p cs = cs :=
  trimBoth_of_ends (fun c hc => h c (List.mem_of_mem_head? hc))
    fun c hc => h c (List.mem_of_getLast? hc)

/-- Nothing is trimmed from a text without blanks. -/
theorem trim_of_forall {cs : List Char} (h : ∀ c ∈ cs, isBlank c = false) : trim cs = cs :=
  trimBoth_of_forall h

/-- A text that neither begins nor ends with a blank. -/
def Tight (cs : List Char) : Prop :=
  (∀ c ∈ cs.head?, isBlank c = false) ∧ ∀ c ∈ cs.getLast?, isBlank c = false

theorem tight_of_forall {cs : List Char} (h : ∀ c ∈ cs, isBlank c = false) : Tight cs :=
  ⟨fun c hc => h c (List.mem_of_mem_head? hc), fun c hc => h c (List.mem_of_getLast? hc)⟩

theorem tight_enclosed {a b : Char} (ha : isBlank a = false) (hb : isBlank b = false)
    (cs : List Char) : Tight (a :: (cs ++ [b])) := by
  constructor
  · simpa using ha
  · simpa [List.getLast?_cons] using hb

theorem trim_of_tight {cs : List Char} (h : Tight cs) : trim cs = cs := trimBoth_of_ends h.1 h.2

theorem trim_cons_space {cs : List Char} (h : Tight cs) : trim (' ' :: cs) = cs := by
  have hall : trim ([' '] ++ (cs ++ [])) = cs :=
    trimBoth_between h.1 h.2 (List.forall_mem_singleton.2 rfl) (List.forall_mem_nil _)
  rwa [List.append_nil] at hall

theorem trim_concat_space {cs : List Char} (h : Tight cs) : trim (cs ++ [' ']) = cs :=
  trimBoth_between h.1 h.2 (List.forall_mem_nil _) (List.forall_mem_singleton.2 rfl)

theorem mem_trim {c : Char} {cs : List Char} (h : c ∈ cs) (hc : isBlank c = false) :
    c ∈ trim cs := by
  have hdrop {ds : List Char} (hd : c ∈ ds) : c ∈ ds.dropWhile isBlank := by
    rw [← List.takeWhile_append_dropWhile (p := isBlank) (l := ds)] at hd
    refine (List.mem_append.1 hd).resolve_left fun htake => ?_
    rw [List.mem_takeWhile_imp htake] at hc
    cases hc
  exact List.mem_reverse.2 (hdrop (List.mem_reverse.2 (hdrop h)))

/-! ## Digits -/

theorem digitValue?_of_isDigit {c : Char} (h : c.isDigit = true) :
    digitValue? c = some (c.toNat - 48) := by
  obtain ⟨hlow, hhigh⟩ := Decimal.isDigit_iff.1 h
  let holds : Nat → Bool := fun z => z ≤ c.toNat && c.toNat < z + 10
  have hfirst : holds 0x30 = true := by
    simp only [holds, Bool.and_eq_true, decide_eq_true_eq]
    omega
  have hfind : zeros.find? holds = some 0x30 := List.find?_cons_of_pos hfirst
  rw [digitValue?, hfind]
  rfl

theorem toLower_of_isDigit {d : Char} (h : d.isDigit = true) : d.toLower = d := by
  have hdigit := Decimal.isDigit_iff.1 h
  refine dif_neg ?_
  rintro ⟨hlow, -⟩
  have hlow' : 65 ≤ d.toNat := UInt32.le_iff_toNat_le.1 hlow
  omega

/-! ## Fronts -/

@[simp] theorem after?_append (w rest : List Char) : after? w (w ++ rest) = some rest :=
  after?_eq_some_iff.2 rfl

theorem beginsWith_iff {s w : String} : beginsWith s w = true ↔ ∃ rest, s = w ++ rest := by
  rw [beginsWith, List.isPrefixOf_iff_prefix]
  constructor
  · rintro ⟨rest, hrest⟩
    refine ⟨String.ofList rest, String.toList_inj.1 ?_⟩
    rw [String.toList_append, String.toList_ofList, hrest]
  · rintro ⟨rest, rfl⟩
    rw [String.toList_append]
    exact List.prefix_append w.toList rest.toList

/-! ## Replacing -/

theorem replaceChar_of_notMem {c : Char} {cs : List Char} (h : c ∉ cs) (w : List Char) :
    replaceChar c w cs = cs := by
  induction cs with
  | nil => rfl
  | cons d cs ih =>
    obtain ⟨hd, hcs⟩ := List.ne_and_not_mem_of_not_mem_cons h
    rw [replaceChar, List.flatMap_cons, if_neg (Ne.symm hd)]
    exact congrArg (d :: ·) (ih hcs)

theorem mem_replaceChar {c d : Char} {w cs : List Char} (hd : c ≠ d) (hw : c ∉ w) :
    c ∈ replaceChar d w cs ↔ c ∈ cs := by
  rw [replaceChar, List.mem_flatMap]
  constructor
  · rintro ⟨b, hb, hc⟩
    split at hc
    · exact absurd hc hw
    · rwa [List.mem_singleton.1 hc]
  · intro hc
    refine ⟨c, hc, ?_⟩
    rw [if_neg hd]
    exact List.mem_singleton_self c

/-! ## Cutting and joining -/

section Pieces

variable {sep : Char}

theorem splitAt_cons_of_ne {c : Char} (h : c ≠ sep) {cs p : List Char} {ps : List (List Char)}
    (hcs : splitAt sep cs = p :: ps) : splitAt sep (c :: cs) = (c :: p) :: ps := by
  rw [splitAt, if_neg h, hcs]

theorem splitAt_of_notMem {cs : List Char} (h : sep ∉ cs) : splitAt sep cs = [cs] := by
  induction cs with
  | nil => rfl
  | cons c cs ih =>
    obtain ⟨hc, hcs⟩ := List.ne_and_not_mem_of_not_mem_cons h
    exact splitAt_cons_of_ne (Ne.symm hc) (ih hcs)

theorem splitAt_append (a b : List Char) :
    splitAt sep (a ++ sep :: b) = splitAt sep a ++ splitAt sep b := by
  induction a with
  | nil => simp [splitAt]
  | cons c a ih =>
    by_cases hc : c = sep
    · simp only [List.cons_append, splitAt, if_pos hc, ih]
    · obtain ⟨p, ps, ha⟩ := List.exists_cons_of_ne_nil (splitAt_ne_nil sep a)
      rw [ha] at ih
      rw [List.cons_append, splitAt_cons_of_ne hc ih, splitAt_cons_of_ne hc ha]
      rfl

/-- A text without the character stands in the first piece. -/
theorem exists_splitAt_append {a : List Char} (h : sep ∉ a) (b : List Char) :
    ∃ p ps, splitAt sep (a ++ b) = (a ++ p) :: ps := by
  induction a with
  | nil =>
    obtain ⟨p, ps, hb⟩ := List.exists_cons_of_ne_nil (splitAt_ne_nil sep b)
    exact ⟨p, ps, hb⟩
  | cons c a ih =>
    simp only [List.mem_cons, not_or] at h
    obtain ⟨p, ps, hb⟩ := ih h.2
    exact ⟨p, ps, splitAt_cons_of_ne (Ne.symm h.1) hb⟩

theorem notMem_of_mem_splitAt {cs piece : List Char} (h : piece ∈ splitAt sep cs) :
    sep ∉ piece := by
  induction cs generalizing piece with
  | nil =>
    cases List.mem_singleton.1 h
    simp
  | cons c cs ih =>
    by_cases hc : c = sep
    · rw [splitAt, if_pos hc] at h
      rcases List.mem_cons.1 h with rfl | h
      · simp
      · exact ih h
    · obtain ⟨p, ps, hcs⟩ := List.exists_cons_of_ne_nil (splitAt_ne_nil sep cs)
      rw [splitAt_cons_of_ne hc hcs] at h
      rcases List.mem_cons.1 h with rfl | h
      · have hp : sep ∉ p := ih (hcs ▸ List.mem_cons_self)
        rw [List.mem_cons, not_or]
        exact ⟨Ne.symm hc, hp⟩
      · exact ih (hcs ▸ List.mem_cons_of_mem p h)

theorem eq_or_append_of_splitAt {cs piece : List Char} {pieces : List (List Char)}
    (h : splitAt sep cs = piece :: pieces) : cs = piece ∨ ∃ rest, cs = piece ++ sep :: rest := by
  have hjoin := joinWith_splitAt sep cs
  rw [h] at hjoin
  cases pieces with
  | nil => exact .inl hjoin.symm
  | cons next pieces => exact .inr ⟨joinWith sep (next :: pieces), hjoin.symm⟩

theorem splitAt_joinWith {pieces : List (List Char)} (hne : pieces ≠ [])
    (h : ∀ p ∈ pieces, sep ∉ p) : splitAt sep (joinWith sep pieces) = pieces := by
  induction pieces with
  | nil => exact absurd rfl hne
  | cons p pieces ih =>
    have hp : splitAt sep p = [p] := splitAt_of_notMem (h p List.mem_cons_self)
    cases pieces with
    | nil => exact hp
    | cons q pieces =>
      rw [joinWith, splitAt_append, hp, ih (by simp) fun r hr => h r (List.mem_cons_of_mem p hr)]
      rfl

theorem splitAt_flatMap {pieces : List (List Char)} (h : ∀ p ∈ pieces, sep ∉ p) :
    splitAt sep (pieces.flatMap (· ++ [sep])) = pieces ++ [[]] := by
  induction pieces with
  | nil => rfl
  | cons p pieces ih =>
    obtain ⟨hp, hpieces⟩ := List.forall_mem_cons.1 h
    rw [List.flatMap_cons, List.append_assoc, List.singleton_append, splitAt_append,
      splitAt_of_notMem hp, ih hpieces]
    rfl

theorem infix_joinWith {pieces : List (List Char)} {p : List Char} (h : p ∈ pieces) :
    p <:+: joinWith sep pieces := by
  induction pieces with
  | nil => cases h
  | cons q pieces ih =>
    cases pieces with
    | nil =>
      rw [List.mem_singleton.1 h]
      exact List.infix_refl q
    | cons r pieces =>
      rw [joinWith]
      rcases List.mem_cons.1 h with rfl | h
      · exact (List.prefix_append p _).isInfix
      · exact (ih h).trans ((List.suffix_cons sep _).trans (List.suffix_append q _)).isInfix

theorem mem_joinWith {c : Char} {pieces : List (List Char)} (h : c ∈ joinWith sep pieces) :
    c = sep ∨ ∃ p ∈ pieces, c ∈ p := by
  induction pieces with
  | nil => cases h
  | cons p pieces ih =>
    cases pieces with
    | nil => exact .inr ⟨p, List.mem_cons_self, h⟩
    | cons q pieces =>
      rw [joinWith, List.mem_append, List.mem_cons] at h
      rcases h with h | h | h
      · exact .inr ⟨p, List.mem_cons_self, h⟩
      · exact .inl h
      · rcases ih h with h | ⟨r, hr, hc⟩
        · exact .inl h
        · exact .inr ⟨r, List.mem_cons_of_mem p hr, hc⟩

theorem infix_of_mem_splitAt {cs piece : List Char} (h : piece ∈ splitAt sep cs) :
    piece <:+: cs := by
  have hwithin : piece <:+: joinWith sep (splitAt sep cs) := infix_joinWith h
  rwa [joinWith_splitAt] at hwithin

theorem mem_intercalate {c : Char} {sep : List Char} (h : c ∉ sep)
    {pieces : List (List Char)} : c ∈ sep.intercalate pieces ↔ ∃ p ∈ pieces, c ∈ p := by
  induction pieces with
  | nil => simp
  | cons p pieces ih =>
    cases pieces with
    | nil => simp
    | cons q pieces => simp [List.intercalate_cons_cons, h, ih]

theorem splitOn_singleton (cs : List Char) : splitOn [sep] cs = splitAt sep cs := by
  unfold splitOn
  induction cs with
  | nil => rfl
  | cons c cs ih =>
    obtain ⟨p, ps, hcs⟩ := List.exists_cons_of_ne_nil (splitAt_ne_nil sep cs)
    by_cases h : c = sep
    · simp [splitOnFrom, splitAt, h, ih]
    · rw [splitAt_cons_of_ne h hcs]
      simp [splitOnFrom, consFirst, Ne.symm h, ih, hcs]

theorem intercalate_eq_joinWith (ps : List (List Char)) :
    [sep].intercalate ps = joinWith sep ps := by
  induction ps with
  | nil => rfl
  | cons p ps ih =>
    cases ps with
    | nil => simp [joinWith]
    | cons q ps =>
      rw [List.intercalate_cons_cons, ih]
      simp [joinWith]

/-- One cut at a character leaves what stands before its first place and what stands behind. -/
theorem splitTimes_one {a : List Char} (h : sep ∉ a) (b : List Char) :
    splitTimes [sep] 1 (a ++ sep :: b) = [a, b] := by
  have hpieces : splitOn [sep] (a ++ sep :: b) = a :: splitAt sep b := by
    rw [splitOn_singleton, splitAt_append, splitAt_of_notMem h]
    rfl
  have hjoin : [sep].intercalate (splitAt sep b) = b := by
    rw [intercalate_eq_joinWith, joinWith_splitAt]
  unfold splitTimes
  rw [hpieces]
  dsimp only
  split
  · next hlength =>
    cases hb : splitAt sep b with
    | nil => exact absurd hb (splitAt_ne_nil sep b)
    | cons p ps =>
      rw [hb] at hlength hjoin
      have hps : ps = [] := by
        cases ps with
        | nil => rfl
        | cons q ps => simp at hlength
      rw [hps] at hjoin ⊢
      simpa using hjoin
  · simp [hjoin]

end Pieces

/-! ## Lines -/

theorem toList_intercalate {lines : List String} (h : lines ≠ []) :
    (String.intercalate "\n" lines ++ "\n").toList =
      (lines.map String.toList).flatMap (· ++ ['\n']) := by
  induction lines with
  | nil => exact absurd rfl h
  | cons line lines ih =>
    cases lines with
    | nil => simp
    | cons next lines =>
      rw [String.intercalate_cons_cons, String.append_assoc, String.append_assoc,
        String.toList_append, String.toList_append, ih (List.cons_ne_nil _ _)]
      simp

/-- An empty line at the end ends the line before it. -/
theorem intercalate_concat_empty {lines : List String} (h : lines ≠ []) :
    String.intercalate "\n" (lines ++ [""]) = String.intercalate "\n" lines ++ "\n" := by
  induction lines with
  | nil => exact absurd rfl h
  | cons line lines ih =>
    cases lines with
    | nil => simp
    | cons next lines =>
      rw [List.cons_append, List.cons_append, String.intercalate_cons_cons, ← List.cons_append,
        ih (List.cons_ne_nil _ _), String.intercalate_cons_cons, String.append_assoc,
        String.append_assoc, String.append_assoc]

theorem unifyLineEnds_of_notMem {cs : List Char} (h : '\r' ∉ cs) : unifyLineEnds cs = cs := by
  fun_induction unifyLineEnds cs with
  | case1 cs _ => simp at h
  | case2 cs _ _ => simp at h
  | case3 c cs _ _ ih => rw [ih (fun hc => h (List.mem_cons_of_mem c hc))]
  | case4 => rfl

theorem boundaryLines_append {line : List Char} (h : ∀ c ∈ line, isLineBoundary c = false)
    (rest : List Char) : boundaryLines (line ++ '\n' :: rest) = line :: boundaryLines rest := by
  induction line with
  | nil =>
    rw [List.nil_append, boundaryLines.eq_def]
    simp [isLineBoundary]
  | cons c line ih =>
    obtain ⟨hc, hline⟩ := List.forall_mem_cons.1 h
    rw [List.cons_append, boundaryLines.eq_def]
    simp [hc, ih hline]

section Lines

variable {lines : List (List Char)} (h : ∀ line ∈ lines, ∀ c ∈ line, isLineBoundary c = false)

include h

/-- Lines that are each ended by a line feed are cut apart again. -/
theorem boundaryLines_flatMap : boundaryLines (lines.flatMap (· ++ ['\n'])) = lines := by
  induction lines with
  | nil => simp [boundaryLines]
  | cons line lines ih =>
    obtain ⟨hline, hlines⟩ := List.forall_mem_cons.1 h
    rw [List.flatMap_cons, List.append_assoc, List.singleton_append, boundaryLines_append hline,
      ih hlines]

theorem cr_notMem_flatMap : '\r' ∉ lines.flatMap (· ++ ['\n']) := by
  rw [List.mem_flatMap]
  rintro ⟨line, hline, hcr⟩
  rcases List.mem_append.1 hcr with hcr | hcr
  · cases h line hline _ hcr
  · cases List.mem_singleton.1 hcr

end Lines

theorem breaksBefore_le {p q : Nat} (h : p ≤ q) (cs : List Char) :
    breaksBefore p cs ≤ breaksBefore q cs := by
  have hfront : cs.take p <+: cs.take q := List.take_prefix_take_left h
  exact hfront.sublist.count_le '\n'

/-- Two places are on one line exactly if no line feed stands between them. -/
theorem breaksBefore_eq_iff {p q : Nat} (h : p ≤ q) (cs : List Char) :
    breaksBefore p cs = breaksBefore q cs ↔ '\n' ∉ (cs.take q).drop p := by
  have hcut : cs.take q = cs.take p ++ (cs.take q).drop p := by
    conv_lhs => rw [← List.take_append_drop p (cs.take q), List.take_take, Nat.min_eq_left h]
  have hcount : breaksBefore q cs = breaksBefore p cs + ((cs.take q).drop p).count '\n' := by
    rw [breaksBefore, hcut, List.count_append, ← hcut]
    rfl
  rw [hcount, ← List.count_eq_zero]
  omega

/-! ## Places -/

variable {content snippet : List Char} {k : Nat}

/-- `k` is the least place at which `snippet` begins. -/
structure FirstAt (content snippet : List Char) (k : Nat) : Prop where
  begins : snippet <+: content.drop k
  least : ∀ p, snippet <+: content.drop p → k ≤ p

theorem exists_firstAt (h : snippet <:+: content) : ∃ k, FirstAt content snippet k := by
  have hplace : ∃ p, snippet <+: content.drop p := by
    obtain ⟨before, after, rfl⟩ := h
    exact ⟨before.length, after, by rw [List.append_assoc, List.drop_left]⟩
  exact ⟨Nat.find hplace, Nat.find_spec hplace, fun p hp => Nat.find_min' hplace hp⟩

/-- Looking a text up gives its first place. -/
theorem FirstAt.indexOf?_eq (h : FirstAt content snippet k) :
    indexOf? snippet content = some k := by
  induction content generalizing k with
  | nil =>
    have hnil : snippet = [] := List.prefix_nil.1 (by simpa using h.begins)
    obtain rfl : k = 0 := Nat.le_zero.1 (h.least 0 (by simp [hnil]))
    simp [indexOf?, hnil]
  | cons c cs ih =>
    by_cases hfront : snippet <+: c :: cs
    · obtain rfl : k = 0 := Nat.le_zero.1 (h.least 0 hfront)
      simp [indexOf?, hfront]
    · cases k with
      | zero => exact absurd h.begins hfront
      | succ j =>
        have htail : FirstAt cs snippet j :=
          ⟨h.begins, fun p hp => Nat.le_of_succ_le_succ (h.least (p + 1) hp)⟩
        simp [indexOf?, hfront, ih htail]

theorem occursIn_iff {w cs : List Char} : occursIn w cs = true ↔ w <:+: cs := by
  constructor
  · intro h
    induction cs with
    | nil => cases w <;> simp_all [occursIn, indexOf?]
    | cons c cs ih =>
      by_cases hfront : w <+: c :: cs
      · exact hfront.isInfix
      · have htail : occursIn w cs = true := by simpa [occursIn, indexOf?, hfront] using h
        exact (ih htail).trans (List.suffix_cons c cs).isInfix
  · intro h
    obtain ⟨k, hk⟩ := exists_firstAt h
    rw [occursIn, hk.indexOf?_eq]
    rfl

/-- A text that occurs is on the line of its first place. -/
theorem FirstAt.lineOf_eq (h : FirstAt content snippet k) :
    lineOf content snippet = breaksBefore k content + 1 := by
  rw [lineOf, h.indexOf?_eq, Option.getD_some]

end ImportAtlas.Text
