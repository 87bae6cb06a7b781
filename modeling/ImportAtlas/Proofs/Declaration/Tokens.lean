import ImportAtlas.Declaration.Scan

/-!
# Blanks, identifiers and keywords

What separates the tokens of a statement (`Gap`, `Space`) and what names its bindings (`Identifier`)
carry the characters they are made of. No blank is a word character, so a run of either kind ends
where the other begins, and for each small recogniser one `iff` says which texts it accepts and what
it leaves of them.
-/

namespace ImportAtlas

namespace Text

/-- Blanks, or nothing. -/
structure Gap where
  chars : List Char
  blank : chars.all isBlank = true

/-- At least one blank. -/
structure Space extends Gap where
  ne_nil : chars ≠ []

/-- No blank. -/
def Gap.empty : Gap := ⟨[], rfl⟩

/-- One blank. -/
def Space.one : Space := ⟨⟨[' '], rfl⟩, by decide⟩

/-- At least one word character and nothing else. -/
structure Identifier where
  chars : List Char
  word : chars.all isWord = true
  ne_nil : chars ≠ []

/-- The keyword `w` with the blanks after it, or nothing. -/
def optionalKeyword (w : String) : Option Space → List Char
  | none => []
  | some s => w.toList ++ s.chars

/-- The text does not go on with a character that satisfies `p`. -/
def Stops (p : Char → Bool) : List Char → Prop
  | [] => True
  | c :: _ => p c = false

variable {p : Char → Bool} {c : Char} {cs run rest : List Char}

@[simp] theorem stops_nil : Stops p [] := trivial

@[simp] theorem stops_cons : Stops p (c :: cs) ↔ p c = false := Iff.rfl

/-! ## Runs -/

theorem stops_dropWhile (p : Char → Bool) (cs : List Char) : Stops p (cs.dropWhile p) := by
  induction cs with
  | nil => exact stops_nil
  | cons c cs ih =>
    cases h : p c with
    | true => simpa [h] using ih
    | false => simp [h]

theorem Stops.takeWhile (h : Stops p rest) : rest.takeWhile p = [] := by
  cases rest with
  | nil => rfl
  | cons c cs => exact List.takeWhile_cons_of_neg (by simpa using h)

theorem Stops.dropWhile (h : Stops p rest) : rest.dropWhile p = rest := by
  cases rest with
  | nil => rfl
  | cons c cs => exact List.dropWhile_cons_of_neg (by simpa using h)

theorem Stops.takeWhile_append (hrest : Stops p rest) (hrun : run.all p = true) :
    (run ++ rest).takeWhile p = run := by
  rw [List.takeWhile_append_of_pos (List.all_eq_true.1 hrun), hrest.takeWhile, List.append_nil]

theorem Stops.dropWhile_append (hrest : Stops p rest) (hrun : run.all p = true) :
    (run ++ rest).dropWhile p = rest := by
  rw [List.dropWhile_append_of_pos (List.all_eq_true.1 hrun), hrest.dropWhile]

/-- A text is cut in one way only into a run and a rest that does not go on with it. -/
theorem Stops.run_unique {run' rest' : List Char} (hrest : Stops p rest) (hrest' : Stops p rest')
    (hrun : run.all p = true) (hrun' : run'.all p = true) (h : run ++ rest = run' ++ rest') :
    run = run' ∧ rest = rest' := by
  constructor
  · rw [← hrest.takeWhile_append hrun, h, hrest'.takeWhile_append hrun']
  · rw [← hrest.dropWhile_append hrun, h, hrest'.dropWhile_append hrun']

theorem Stops.of_isPrefix {front : List Char} (h : Stops p cs) (hfront : front <+: cs) :
    Stops p front := by
  cases front with
  | nil => exact stops_nil
  | cons c front =>
    obtain ⟨rest, rfl⟩ := hfront
    exact h

/-- A run of characters that satisfy `q` stops any run of characters that do not. -/
theorem stops_append {q : Char → Bool} (hpq : ∀ c, q c = true → p c = false)
    (hrun : run.all q = true) (hne : run ≠ []) : Stops p (run ++ rest) := by
  cases run with
  | nil => exact absurd rfl hne
  | cons c run =>
    rw [List.all_cons, Bool.and_eq_true] at hrun
    exact hpq c hrun.1

/-! ## Blanks and words -/

/-- The code points of the blanks. -/
def blankPoints : List Nat :=
  [0x09, 0x0a, 0x0b, 0x0c, 0x0d, 0x1c, 0x1d, 0x1e, 0x1f, 0x20, 0x85, 0xa0, 0x1680, 0x2000, 0x2001,
   0x2002, 0x2003, 0x2004, 0x2005, 0x2006, 0x2007, 0x2008, 0x2009, 0x200a, 0x2028, 0x2029, 0x202f,
   0x205f, 0x3000]

theorem mem_blankPoints (h : isBlank c = true) : c.toNat ∈ blankPoints := by
  simp only [isBlank, Bool.or_eq_true, Bool.and_eq_true, decide_eq_true_eq, beq_iff_eq] at h
  simp only [blankPoints, List.mem_cons, List.not_mem_nil, or_false]
  omega

theorem isWord_of_isBlank (h : isBlank c = true) : isWord c = false := by
  have hall : blankPoints.all (fun n => !isWord (Char.ofNat n)) = true := by decide +kernel
  simpa [Char.ofNat_toNat] using List.all_eq_true.1 hall _ (mem_blankPoints h)

theorem isBlank_of_isWord (h : isWord c = true) : isBlank c = false := by
  cases hblank : isBlank c with
  | false => rfl
  | true => rw [isWord_of_isBlank hblank] at h; cases h

theorem Space.stops_word (s : Space) (rest : List Char) : Stops isWord (s.chars ++ rest) :=
  stops_append (fun _ => isWord_of_isBlank) s.blank s.ne_nil

theorem Identifier.stops_blank (i : Identifier) (rest : List Char) :
    Stops isBlank (i.chars ++ rest) :=
  stops_append (fun _ => isBlank_of_isWord) i.word i.ne_nil

theorem Identifier.exists_eq_cons (i : Identifier) :
    ∃ c cs, i.chars = c :: cs ∧ isWord c = true := by
  obtain ⟨c, cs, hi⟩ := List.exists_cons_of_ne_nil i.ne_nil
  exact ⟨c, cs, hi, List.all_eq_true.1 i.word c (hi ▸ List.mem_cons_self)⟩

theorem Gap.notMem (g : Gap) (hc : isBlank c = false) : c ∉ g.chars := by
  intro h
  exact absurd ((List.all_eq_true.1 g.blank c h).symm.trans hc) (by decide)

theorem Identifier.notMem (i : Identifier) (hc : isWord c = false) : c ∉ i.chars := by
  intro h
  exact absurd ((List.all_eq_true.1 i.word c h).symm.trans hc) (by decide)

theorem notMem_optionalKeyword {w : String} (hw : c ∉ w.toList) (hc : isBlank c = false)
    (s : Option Space) : c ∉ optionalKeyword w s := by
  cases s with
  | none => exact List.not_mem_nil
  | some s => exact fun h => (List.mem_append.1 h).elim hw (s.notMem hc)

/-- What does not go on with a word character can follow a gap too. -/
theorem Gap.stops_word (g : Gap) (h : Stops isWord rest) : Stops isWord (g.chars ++ rest) := by
  cases hg : g.chars with
  | nil => exact h
  | cons c cs => exact hg ▸ stops_append (fun _ => isWord_of_isBlank) g.blank (by simp [hg])

/-- Only one character that is not blank can follow a gap. -/
theorem Gap.cons_unique {g g' : Gap} {d : Char} {ds : List Char} (hc : isBlank c = false)
    (hd : isBlank d = false) (h : g.chars ++ c :: cs = g'.chars ++ d :: ds) : c = d ∧ cs = ds :=
  List.cons.inj (Stops.run_unique (stops_cons.2 hc) (stops_cons.2 hd) g.blank g'.blank h).2

/-! ## The recognisers of runs -/

theorem skipBlanks_append (g : Gap) (h : Stops isBlank rest) :
    skipBlanks (g.chars ++ rest) = rest :=
  h.dropWhile_append g.blank

theorem exists_gap (cs : List Char) : ∃ g : Gap, cs = g.chars ++ skipBlanks cs :=
  ⟨⟨cs.takeWhile isBlank, List.all_takeWhile⟩, List.takeWhile_append_dropWhile.symm⟩

theorem skipBlanks1?_eq_some_iff :
    skipBlanks1? cs = some rest ↔ ∃ s : Space, cs = s.chars ++ rest ∧ Stops isBlank rest := by
  constructor
  · intro h
    cases cs with
    | nil => cases h
    | cons c cs =>
      rw [skipBlanks1?] at h
      split at h
      · next hc =>
        obtain rfl : skipBlanks cs = rest := Option.some.inj h
        have hall : (c :: cs.takeWhile isBlank).all isBlank = true := by
          simp [hc]
        exact ⟨⟨⟨c :: cs.takeWhile isBlank, hall⟩, by simp⟩,
          by simp [skipBlanks, List.takeWhile_append_dropWhile], stops_dropWhile _ _⟩
      · cases h
  · rintro ⟨⟨⟨run, hrun⟩, hne⟩, rfl, hrest⟩
    cases run with
    | nil => exact absurd rfl hne
    | cons c run =>
      rw [List.all_cons, Bool.and_eq_true] at hrun
      rw [List.cons_append, skipBlanks1?, if_pos hrun.1]
      exact congrArg some (skipBlanks_append ⟨run, hrun.2⟩ hrest)

theorem skipBlanks1?_append (s : Space) (h : Stops isBlank rest) :
    skipBlanks1? (s.chars ++ rest) = some rest :=
  skipBlanks1?_eq_some_iff.2 ⟨s, rfl, h⟩

theorem word?_append (i : Identifier) (h : Stops isWord rest) :
    word? (i.chars ++ rest) = some (i.chars, rest) := by
  unfold word?
  rw [h.takeWhile_append i.word, h.dropWhile_append i.word]
  split
  · next hnil => exact absurd hnil i.ne_nil
  · rfl

theorem word?_eq_some_iff {w : List Char} : word? cs = some (w, rest) ↔
    ∃ i : Identifier, i.chars = w ∧ cs = i.chars ++ rest ∧ Stops isWord rest := by
  constructor
  · intro h
    obtain ⟨rfl, rfl, hne⟩ := word?_eq_some h
    exact ⟨⟨_, List.all_takeWhile, hne⟩, rfl, List.takeWhile_append_dropWhile.symm,
      stops_dropWhile _ _⟩
  · rintro ⟨i, rfl, rfl, hrest⟩
    exact word?_append i hrest

/-! ## Trimming -/

theorem trim_isPrefix (cs : List Char) : trim cs <+: cs.dropWhile isBlank := by
  rw [← List.reverse_suffix, trim, trimBoth, List.reverse_reverse]
  exact List.dropWhile_suffix _

theorem trim_isInfix (cs : List Char) : trim cs <:+: cs :=
  (trim_isPrefix cs).isInfix.trans (List.dropWhile_suffix _).isInfix

theorem stops_trim (cs : List Char) : Stops isBlank (trim cs) :=
  (stops_dropWhile isBlank cs).of_isPrefix (trim_isPrefix cs)

theorem stops_reverse_trim (cs : List Char) : Stops isBlank (trim cs).reverse := by
  rw [trim, trimBoth, List.reverse_reverse]
  exact stops_dropWhile _ _

/-- Trimming removes the gaps around a text that neither begins nor ends with a blank. -/
theorem trim_append (before after : Gap) {core : List Char} (hne : core ≠ [])
    (hfirst : Stops isBlank core) (hlast : Stops isBlank core.reverse) :
    trim (before.chars ++ (core ++ after.chars)) = core := by
  have hstart : Stops isBlank (core ++ after.chars) := by
    cases core with
    | nil => exact absurd rfl hne
    | cons c core => exact hfirst
  have hafter : after.chars.reverse.all isBlank = true := by
    rw [List.all_reverse]
    exact after.blank
  rw [trim, trimBoth, hstart.dropWhile_append before.blank, List.reverse_append,
    hlast.dropWhile_append hafter, List.reverse_reverse]

theorem trim_gap (g : Gap) : trim g.chars = [] := by
  have hdrop : (g.chars ++ []).dropWhile isBlank = [] := stops_nil.dropWhile_append g.blank
  rw [List.append_nil] at hdrop
  rw [trim, trimBoth, hdrop]
  rfl

end Text

/-! ## Keywords, braces and quotes -/

namespace Recogniser

open Text

variable {cs rest body : List Char} {w : String} {stop : Char → Bool}

theorem keyword?_eq_some_iff : keyword? w cs = some rest ↔
    ∃ s : Space, cs = w.toList ++ (s.chars ++ rest) ∧ Stops isBlank rest := by
  simp only [keyword?, Option.bind_eq_some_iff, after?_eq_some_iff, skipBlanks1?_eq_some_iff]
  constructor
  · rintro ⟨_, rfl, s, rfl, hrest⟩
    exact ⟨s, rfl, hrest⟩
  · rintro ⟨s, rfl, hrest⟩
    exact ⟨_, rfl, s, rfl, hrest⟩

theorem keyword?_append (w : String) (s : Space) (h : Stops isBlank rest) :
    keyword? w (w.toList ++ (s.chars ++ rest)) = some rest :=
  keyword?_eq_some_iff.2 ⟨s, rfl, h⟩

/-- A keyword at the front of an identifier is the whole of it. -/
theorem eq_of_keyword?_identifier (hw : w.toList.all isWord = true) (i : Identifier)
    (hcs : Stops isWord cs) (h : keyword? w (i.chars ++ cs) = some rest) :
    i.chars = w.toList ∧ ∃ s : Space, cs = s.chars ++ rest ∧ Stops isBlank rest := by
  obtain ⟨s, heq, hrest⟩ := keyword?_eq_some_iff.1 h
  obtain ⟨hi, rfl⟩ := hcs.run_unique (s.stops_word rest) i.word hw heq
  exact ⟨hi, s, rfl, hrest⟩

theorem until?_eq_some_iff : until? stop cs = some (body, rest) ↔
    body ≠ [] ∧ body.all (!stop ·) = true ∧ ∃ c, stop c = true ∧ cs = body ++ c :: rest := by
  constructor
  · intro h
    unfold until? at h
    split at h
    · cases h
    · cases h
    · next c _ hdrop hne =>
      obtain ⟨rfl, rfl⟩ := Prod.mk.inj (Option.some.inj h)
      have hstop := stops_dropWhile (!stop ·) cs
      rw [hdrop, stops_cons, Bool.not_eq_false'] at hstop
      refine ⟨hne, List.all_takeWhile, c, hstop, ?_⟩
      rw [← hdrop, List.takeWhile_append_dropWhile]
  · rintro ⟨hne, hbody, c, hc, rfl⟩
    have hrest : Stops (!stop ·) (c :: rest) := by simp [hc]
    unfold until?
    rw [hrest.takeWhile_append hbody, hrest.dropWhile_append hbody]
    split
    · exact absurd rfl hne
    · next hnil => cases hnil
    · next hcons => cases hcons; rfl

theorem braces?_eq_some_iff : braces? cs = some (body, rest) ↔
    body ≠ [] ∧ '}' ∉ body ∧ cs = '{' :: (body ++ '}' :: rest) := by
  have hall : body.all (!(· == '}') ·) = true ↔ '}' ∉ body := by
    simp [List.all_eq_true, List.forall_mem_ne']
  unfold braces?
  split
  · simp [until?_eq_some_iff, hall]
  · next hno =>
    refine ⟨nofun, fun ⟨_, _, h⟩ => ?_⟩
    exact absurd h (hno _)

theorem isBlank_of_isQuote {c : Char} (h : isQuote c = true) : isBlank c = false := by
  simp only [isQuote, Bool.or_eq_true, beq_iff_eq] at h
  rcases h with rfl | rfl <;> rfl

theorem isWord_of_isQuote {c : Char} (h : isQuote c = true) : isWord c = false := by
  simp only [isQuote, Bool.or_eq_true, beq_iff_eq] at h
  rcases h with rfl | rfl <;> rfl

theorem quoted?_eq_some_iff : quoted? cs = some (body, rest) ↔
    body ≠ [] ∧ body.all (!isQuote ·) = true ∧ ∃ opening closing, isQuote opening = true ∧
      isQuote closing = true ∧ cs = opening :: (body ++ closing :: rest) := by
  cases cs with
  | nil => simp [quoted?]
  | cons c cs =>
    by_cases hc : isQuote c = true
    · simp only [quoted?, hc, if_true, until?_eq_some_iff, List.cons.injEq]
      constructor
      · rintro ⟨hne, hbody, d, hd, rfl⟩
        exact ⟨hne, hbody, c, d, hc, hd, rfl, rfl⟩
      · rintro ⟨hne, hbody, _, d, -, hd, rfl, rfl⟩
        exact ⟨hne, hbody, d, hd, rfl⟩
    · simp only [quoted?, hc, if_false, List.cons.injEq, reduceCtorEq, false_iff]
      rintro ⟨-, -, _, _, hopening, -, rfl, -⟩
      exact hc hopening

end Recogniser

end ImportAtlas
