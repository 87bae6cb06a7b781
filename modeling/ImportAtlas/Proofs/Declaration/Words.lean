import ImportAtlas.Proofs.Declaration.BraceNames

/-!
# Whole words of a text

A word occurs as a whole where no word character stands before it or after it (`WholeIn`). A text
can be cut at every place where two word characters do not meet (`Parted`), and an occurrence of a
word, whole or within a longer one, lies on one side of such a cut. `WordLocal` names the properties
for which this holds: the words of a text settle them. Whatever the body of a brace list is, its
names that are words stand in it as a whole.
-/

namespace ImportAtlas

namespace Text

variable {p : Char → Bool} {a b cs rest run : List Char} {c : Char}

theorem Stops.eq_nil_of_run (h : Stops p (run ++ rest)) (hrun : run.all p = true) : run = [] := by
  cases run with
  | nil => rfl
  | cons c run =>
    rw [List.all_cons, Bool.and_eq_true] at hrun
    exact absurd (hrun.1.symm.trans h) (by decide)

theorem Stops.append (ha : Stops p a) (hb : a = [] → Stops p b) : Stops p (a ++ b) := by
  cases a with
  | nil => exact hb rfl
  | cons c a => exact ha

theorem Gap.stops (g : Gap) : Stops isWord g.chars := by
  have hstops := g.stops_word stops_nil
  rwa [List.append_nil] at hstops

theorem Gap.stops_reverse (g : Gap) : Stops isWord g.chars.reverse :=
  Gap.stops ⟨g.chars.reverse, by rw [List.all_reverse, g.blank]⟩

/-! ## Cuts -/

/-- The word `w` stands in the text, with no word character before it or after it. -/
def WholeIn (w cs : List Char) : Prop :=
  ∃ before after, cs = before ++ (w ++ after) ∧ Stops isWord before.reverse ∧ Stops isWord after

/-- A text is not cut within a word. -/
def Parted (a b : List Char) : Prop := Stops isWord a.reverse ∨ Stops isWord b

/-- An occurrence of a word lies on one side of a cut that is not within a word. -/
theorem Parted.sides (h : Parted a b) (w : Identifier) {before after : List Char}
    (heq : before ++ (w.chars ++ after) = a ++ b) :
    (∃ m, a = before ++ (w.chars ++ m) ∧ after = m ++ b) ∨
      ∃ m, before = a ++ m ∧ b = m ++ (w.chars ++ after) := by
  rcases List.append_eq_append_iff.1 heq with ⟨m, rfl, hm⟩ | ⟨m, hbefore, hb⟩
  · rcases List.append_eq_append_iff.1 hm with ⟨n, rfl, hn⟩ | ⟨n, hword, rfl⟩
    · exact .inl ⟨n, rfl, hn⟩
    · -- the cut would be between `m` and `n`, so one of them is empty
      have hall : m.all isWord = true ∧ n.all isWord = true := by
        rw [← Bool.and_eq_true, ← List.all_append, ← hword, w.word]
      rcases h with h | h
      · rw [List.reverse_append] at h
        have hm := h.eq_nil_of_run (by rw [List.all_reverse, hall.1])
        rw [List.reverse_eq_nil_iff] at hm
        exact .inr ⟨[], by simp [hm], by simp [hword, hm]⟩
      · have hn := h.eq_nil_of_run hall.2
        exact .inl ⟨[], by simp [hword, hn], by simp [hn]⟩
  · exact .inr ⟨m, hbefore, hb⟩

/-- A property of texts that the words of a text settle. -/
structure WordLocal (holds : List Char → Prop) : Prop where
  append_iff : ∀ {a b}, Parted a b → (holds (a ++ b) ↔ holds a ∨ holds b)
  not_of_all : ∀ {cs}, cs.all (!isWord ·) = true → ¬holds cs

theorem not_of_wordless {w : Identifier} (hcs : cs.all (!isWord ·) = true) : ¬w.chars <:+: cs := by
  intro h
  obtain ⟨d, ds, hw, hd⟩ := w.exists_eq_cons
  have hmem : d ∈ cs := h.subset (hw ▸ List.mem_cons_self)
  have hno := List.all_eq_true.1 hcs d hmem
  rw [hd] at hno
  cases hno

/-- Occurring, also within a longer word. -/
theorem wordLocal_occurs (w : Identifier) : WordLocal (w.chars <:+: ·) where
  append_iff {a b} h := by
    constructor
    · rintro ⟨before, after, heq⟩
      rw [List.append_assoc] at heq
      rcases h.sides w heq with ⟨m, rfl, -⟩ | ⟨m, -, rfl⟩
      · exact .inl ⟨before, m, List.append_assoc _ _ _⟩
      · exact .inr ⟨m, after, List.append_assoc _ _ _⟩
    · rintro (h | h)
      · exact h.trans (List.prefix_append a b).isInfix
      · exact h.trans (List.suffix_append a b).isInfix
  not_of_all := not_of_wordless

/-- Occurring as a whole. -/
theorem wordLocal_wholeIn (w : Identifier) : WordLocal (WholeIn w.chars) where
  append_iff {a b} h := by
    constructor
    · rintro ⟨before, after, heq, hbefore, hafter⟩
      rcases h.sides w heq.symm with ⟨m, rfl, rfl⟩ | ⟨m, rfl, rfl⟩
      · exact .inl ⟨before, m, rfl, hbefore, hafter.of_isPrefix (List.prefix_append m b)⟩
      · rw [List.reverse_append] at hbefore
        exact .inr ⟨m, after, rfl, hbefore.of_isPrefix (List.prefix_append _ _), hafter⟩
    · rintro (⟨before, after, rfl, hbefore, hafter⟩ | ⟨before, after, rfl, hbefore, hafter⟩)
      · -- if the word ends the first part, it is the second that does not go on with it
        refine ⟨before, after ++ b, by simp, hbefore, hafter.append ?_⟩
        rintro rfl
        refine h.resolve_left fun hstops => w.ne_nil ?_
        rw [List.append_nil, List.reverse_append] at hstops
        exact List.reverse_eq_nil_iff.1 (hstops.eq_nil_of_run (by rw [List.all_reverse, w.word]))
      · refine ⟨a ++ before, after, by simp, ?_, hafter⟩
        rw [List.reverse_append]
        refine hbefore.append fun hnil => h.resolve_right fun hstops => w.ne_nil ?_
        rw [List.reverse_eq_nil_iff.1 hnil, List.nil_append] at hstops
        exact hstops.eq_nil_of_run w.word
  not_of_all := by
    rintro cs hcs ⟨before, after, rfl, -⟩
    exact not_of_wordless (w := w) hcs ⟨before, after, List.append_assoc _ _ _⟩

theorem WholeIn.self (w : Identifier) : WholeIn w.chars w.chars :=
  ⟨[], [], by simp, stops_nil, stops_nil⟩

/-- Only the word itself stands as a whole in a word. -/
theorem wholeIn_identifier_iff {w : List Char} (i : Identifier) :
    WholeIn w i.chars ↔ i.chars = w := by
  constructor
  · rintro ⟨before, after, heq, hbefore, hafter⟩
    have hall := i.word
    rw [heq, List.all_append, List.all_append, Bool.and_eq_true, Bool.and_eq_true] at hall
    rw [← List.append_nil before.reverse] at hbefore
    rw [← List.append_nil after] at hafter
    have hfront := hbefore.eq_nil_of_run (by rw [List.all_reverse, hall.1])
    rw [heq, List.reverse_eq_nil_iff.1 hfront, hafter.eq_nil_of_run hall.2.2]
    simp
  · intro h
    exact h ▸ WholeIn.self i

/-! ## Properties that words settle -/

namespace WordLocal

variable {holds : List Char → Prop}

theorem not_nil (h : WordLocal holds) : ¬holds [] := h.not_of_all rfl

theorem not_gap (h : WordLocal holds) (g : Gap) : ¬holds g.chars := by
  refine h.not_of_all (List.all_eq_true.2 fun c hc => ?_)
  rw [isWord_of_isBlank (List.all_eq_true.1 g.blank c hc)]
  rfl

theorem gap_append_iff (h : WordLocal holds) (g : Gap) : holds (g.chars ++ rest) ↔ holds rest := by
  rw [h.append_iff (.inl g.stops_reverse), or_iff_right (h.not_gap g)]

theorem append_gap_iff (h : WordLocal holds) (g : Gap) : holds (rest ++ g.chars) ↔ holds rest := by
  rw [h.append_iff (.inr g.stops), or_iff_left (h.not_gap g)]

/-- A character that is not a word character parts what stands before it from what follows. -/
theorem append_cons_iff (h : WordLocal holds) (hc : isWord c = false) :
    holds (a ++ c :: b) ↔ holds a ∨ holds b := by
  have hchar : ¬holds [c] := h.not_of_all (by simp [hc])
  have hbefore : Parted a ([c] ++ b) := .inr hc
  have hafter : Parted [c] b := .inl hc
  rw [← List.singleton_append, h.append_iff hbefore, h.append_iff hafter, or_iff_right hchar]

theorem cons_iff (h : WordLocal holds) (hc : isWord c = false) : holds (c :: b) ↔ holds b := by
  have happend := h.append_cons_iff (a := []) (b := b) hc
  rwa [List.nil_append, or_iff_right h.not_nil] at happend

/-- A keyword that does not hold can be left out. -/
theorem keyword_iff (h : WordLocal holds) {w : String} (hw : ¬holds w.toList) (s : Option Space) :
    holds (optionalKeyword w s ++ rest) ↔ holds rest := by
  cases s with
  | none => exact Iff.rfl
  | some s =>
    rw [optionalKeyword, List.append_assoc, h.append_iff (.inr (s.stops_word rest)),
      h.gap_append_iff, or_iff_right hw]

theorem joinWith_iff (h : WordLocal holds) {sep : Char} (hsep : isWord sep = false)
    (pieces : List (List Char)) : holds (joinWith sep pieces) ↔ ∃ piece ∈ pieces, holds piece := by
  induction pieces with
  | nil => simpa [joinWith] using h.not_nil
  | cons piece pieces ih =>
    cases pieces with
    | nil => simp [joinWith]
    | cons next pieces =>
      rw [joinWith, h.append_cons_iff hsep, ih]
      exact (List.exists_mem_cons_iff ..).symm

end WordLocal

end Text

/-! ## The names of a brace list -/

namespace BraceList

open Text Recogniser

variable {cs raw body : List Char}

/-- The first part of an item ends where no word goes on. -/
theorem exists_of_parts (cs : List Char) : ∃ first others rest, parts cs = first :: others ∧
    cs = first ++ rest ∧ Stops isWord rest := by
  induction cs with
  | nil => exact ⟨[], [], [], rfl, rfl, stops_nil⟩
  | cons c cs ih =>
    cases hren : renaming? (c :: cs) with
    | some rest =>
      obtain ⟨before, after, hcs, -⟩ := renaming?_eq_some_iff.1 hren
      refine ⟨[], parts rest, c :: cs, parts_of_renaming hren, rfl, ?_⟩
      rw [hcs]
      exact before.stops_word _
    | none =>
      obtain ⟨first, others, rest, hparts, rfl, hrest⟩ := ih
      exact ⟨c :: first, others, rest, by rw [parts_of_no_renaming hren, hparts]; rfl, rfl, hrest⟩

theorem exists_of_trim (cs : List Char) :
    ∃ before after : Gap, cs = before.chars ++ (trim cs ++ after.chars) := by
  obtain ⟨before, hbefore⟩ := exists_gap cs
  have hrun : ((skipBlanks cs).reverse.takeWhile isBlank).reverse.all isBlank = true := by
    rw [List.all_reverse, List.all_takeWhile]
  refine ⟨before, ⟨_, hrun⟩, ?_⟩
  have hback : trim cs ++ ((skipBlanks cs).reverse.takeWhile isBlank).reverse = skipBlanks cs := by
    rw [trim, trimBoth, ← List.reverse_append]
    exact List.reverse_eq_iff.2 List.takeWhile_append_dropWhile
  rw [hback, ← hbefore]

/-- What words settle holds of an item if it holds of its part before `as`. -/
theorem holds_of_beforeAs {holds : List Char → Prop} (h : WordLocal holds)
    (hpick : holds (pick .beforeAs (bare raw))) : holds raw := by
  obtain ⟨first, others, rest, hparts, hitem, hrest⟩ := exists_of_parts (bare raw)
  have hbare : holds (bare raw) := by
    obtain ⟨before, after, hfirst⟩ := exists_of_trim first
    rw [hitem, h.append_iff (.inr hrest), hfirst, h.gap_append_iff, h.append_gap_iff]
    refine .inl ?_
    simpa [pick, hparts] using hpick
  have htrim : holds (trim raw) := by
    rw [bare] at hbare
    cases hkeyword : keyword? "type" (trim raw) with
    | none => rwa [hkeyword, Option.getD_none] at hbare
    | some item =>
      rw [hkeyword, Option.getD_some] at hbare
      obtain ⟨s, hs, -⟩ := keyword?_eq_some_iff.1 hkeyword
      rw [hs, h.append_iff (.inr (s.stops_word item)), h.gap_append_iff]
      exact .inr hbare
  obtain ⟨before, after, hraw⟩ := exists_of_trim raw
  rw [hraw, h.gap_append_iff, h.append_gap_iff]
  exact htrim

/-- A name before `as` that is a word stands in the list as a whole. -/
theorem wholeIn_of_mem_names (w : Identifier) (h : w.chars ∈ names .beforeAs body) :
    WholeIn w.chars body := by
  have hlocal := wordLocal_wholeIn w
  rw [names] at h
  obtain ⟨raw, hraw, hname⟩ := List.mem_filterMap.1 h
  have hpick : pick .beforeAs (bare raw) = w.chars := by
    dsimp only [nameOf?] at hname
    split at hname
    · cases hname
    split at hname
    · cases hname
    · exact Option.some.inj hname
  rw [← joinWith_splitAt ',' body, hlocal.joinWith_iff (by decide)]
  exact ⟨raw, hraw, holds_of_beforeAs hlocal (hpick ▸ WholeIn.self w)⟩

end BraceList

end ImportAtlas
