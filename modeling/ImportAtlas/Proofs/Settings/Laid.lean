import ImportAtlas.Proofs.Text
import ImportAtlas.Settings.Toml.Document

/-!
# Lines that are laid out as they are

The first pass over a document changes nothing in a line that is a heading, a key with a plain
value, or empty. `Leads` follows the pass from one state to another over the characters between
them; the states that matter are those at the front of a line (`atLine`), in a key, behind an equals
sign (`inValue`) and in a quoted text. A document made of such lines is cut into just these lines
(`layOut_lines`).
-/

namespace ImportAtlas.Toml

/-! ## Characters -/

/-- A character that stands in a text with double quotes as itself: neither a double quote nor a
backslash nor a line end. -/
def Verbatim (c : Char) : Prop := c ≠ '"' ∧ c ≠ '\\' ∧ c ≠ '\n' ∧ c ≠ '\r'

instance (c : Char) : Decidable (Verbatim c) := inferInstanceAs (Decidable (_ ∧ _))

theorem isBareName_iff {c : Char} : isBareName c = true ↔
    (48 ≤ c.toNat ∧ c.toNat ≤ 57) ∨ (65 ≤ c.toNat ∧ c.toNat ≤ 90) ∨
      (97 ≤ c.toNat ∧ c.toNat ≤ 122) ∨ c.toNat = 95 ∨ c.toNat = 45 := by
  have hname : isBareName c =
    (((decide (65 ≤ c.val ∧ c.val ≤ 90) || decide (97 ≤ c.val) && decide (c.val ≤ 122)) ||
      decide (48 ≤ c.val) && decide (c.val ≤ 57)) || c == '_' || c == '-') := rfl
  have heq {d : Char} : c = d ↔ c.toNat = d.toNat := Char.toNat_inj.symm
  rw [hname]
  simp only [Bool.or_eq_true, Bool.and_eq_true, decide_eq_true_eq, beq_iff_eq, heq,
    UInt32.le_iff_toNat_le, Char.toNat_val]
  show (((65 ≤ c.toNat ∧ c.toNat ≤ 90 ∨ 97 ≤ c.toNat ∧ c.toNat ≤ 122) ∨
    48 ≤ c.toNat ∧ c.toNat ≤ 57) ∨ c.toNat = 95) ∨ c.toNat = 45 ↔ _
  omega

/-- A character of a bare name is no other character. -/
theorem ne_of_isBareName {c d : Char} (h : isBareName c = true) (hd : isBareName d = false) :
    c ≠ d := by
  rintro rfl
  rw [h] at hd
  cases hd

theorem isBlank_of_isBareName {c : Char} (h : isBareName c = true) : Text.isBlank c = false := by
  have hname := isBareName_iff.1 h
  simp only [Text.isBlank, Bool.or_eq_false_iff, Bool.and_eq_false_iff, decide_eq_false_iff_not,
    beq_eq_false_iff_ne]
  omega

theorem isQuote_of_isBareName {c : Char} (h : isBareName c = true) : isQuote c = false := by
  have hdouble : c ≠ '"' := ne_of_isBareName h rfl
  have hsingle : c ≠ apostrophe := ne_of_isBareName h rfl
  simp [isQuote, hdouble, hsingle]

theorem isWord_of_isBareName {c : Char} (h : isBareName c = true) :
    Text.isWord c = true ∨ c = '-' := by
  have hsmall : c.toNat < 128 := by
    have := isBareName_iff.1 h
    omega
  rw [Text.isWord, if_pos hsmall]
  simpa [isBareName] using h

namespace Layout

/-! ## States -/

/-- At the front of a line. -/
def atLine (done : List Char) : Layout := { start with done }

/-- In the characters of a key. -/
def inKey (done : List Char) : Layout := { atLine done with fresh := false, key := .within }

/-- Behind an equals sign, inside `depth` brackets. -/
def inValue (depth : Int) (done : List Char) : Layout := { atLine done with fresh := false, depth }

/-- In a text with double quotes. -/
def inText (depth : Int) (done : List Char) : Layout :=
  { inValue depth done with quote := some '"' }

/-- Going over `cs` leads from one state to another, whatever follows. -/
def Leads (s : Layout) (cs : List Char) (t : Layout) : Prop :=
  ∀ rest, s.run (cs ++ rest) = t.run rest

variable {s t u : Layout} {depth : Int} {done : List Char}

theorem Leads.append {as bs : List Char} (h : s.Leads as t) (h' : t.Leads bs u) :
    s.Leads (as ++ bs) u := by
  intro rest
  rw [List.append_assoc, h, h']

theorem leads_of_step {c : Char} (h : ∀ rest, s.step c rest = .ok t) : s.Leads [c] t := by
  intro rest
  show (s.step c rest).bind _ = _
  rw [h]
  rfl

/-- A kind of state in which each of some characters is put down and nothing else changes. -/
theorem leads_of_put {f : List Char → Layout} {cs : List Char}
    (h : ∀ c ∈ cs, ∀ done rest, (f done).step c rest = .ok (f (c :: done))) (done : List Char) :
    (f done).Leads cs (f (cs.reverse ++ done)) := by
  induction cs generalizing done with
  | nil => exact fun rest => rfl
  | cons c cs ih =>
    have hfirst : (f done).Leads [c] (f (c :: done)) :=
      leads_of_step fun rest => h c List.mem_cons_self done rest
    have hrest := ih (fun d hd => h d (List.mem_cons_of_mem c hd)) (c :: done)
    rw [List.reverse_cons, List.append_assoc]
    exact hfirst.append hrest

/-! ## Values -/

/-- A character without a meaning of its own behind an equals sign. -/
def Bare (c : Char) : Prop := c ≠ '\n' ∧ c ≠ '#' ∧ isQuote c = false ∧ c ≠ '[' ∧ c ≠ ']'

instance (c : Char) : Decidable (Bare c) := inferInstanceAs (Decidable (_ ∧ _))

theorem step_inValue {c : Char} (h : Bare c) (depth : Int) (done rest : List Char) :
    (inValue depth done).step c rest = .ok (inValue depth (c :: done)) := by
  obtain ⟨hbreak, hcomment, hquote, hopen, hclose⟩ := h
  simp [step, stepPlain, inValue, atLine, start, beginLine, put, hbreak, hcomment, hquote, hopen,
    hclose, bind, Except.bind, pure, Except.pure]

theorem leads_bare {cs : List Char} (h : ∀ c ∈ cs, Bare c) (depth : Int) (done : List Char) :
    (inValue depth done).Leads cs (inValue depth (cs.reverse ++ done)) :=
  leads_of_put (fun c hc => step_inValue (h c hc) depth) done

theorem step_inText {c : Char} (h : Verbatim c) (depth : Int) (done rest : List Char) :
    (inText depth done).step c rest = .ok (inText depth (c :: done)) := by
  obtain ⟨hquote, -, hbreak, -⟩ := h
  have hother : ('"' == c) = false := by simpa using hquote.symm
  cases hc : isQuote c with
  | true =>
    simp [step, stepPlain, inText, inValue, atLine, start, beginLine, put, hbreak, hc, hother, bind,
      Except.bind, pure, Except.pure]
  | false =>
    simp [step, stepPlain, inText, inValue, atLine, start, beginLine, put, openBracket,
      closeBracket, hbreak, hc, bind, Except.bind, pure, Except.pure]

/-- The quote behind a text closes it: the two characters before it are no two quotes, and no
backslash stands before it. -/
theorem step_closing {cs : List Char} (h : ∀ c ∈ cs, Verbatim c) (depth : Int)
    (done rest : List Char) :
    (inText depth (cs.reverse ++ '"' :: ' ' :: done)).step '"' rest =
      .ok (inValue depth ('"' :: (cs.reverse ++ '"' :: ' ' :: done))) := by
  have hback : ∀ c ∈ cs.reverse, Verbatim c := by simpa using h
  generalize cs.reverse = back at hback ⊢
  cases back with
  | nil => rfl
  | cons c back =>
    obtain ⟨hquote, hslash, -⟩ := hback c List.mem_cons_self
    simp [step, stepPlain, inText, inValue, atLine, start, beginLine, put, isQuote, turnQuote,
      endsEscaping, hquote, hslash, bind, Except.bind, pure, Except.pure]

/-- A text in double quotes after a blank. -/
theorem leads_quoted {cs : List Char} (h : ∀ c ∈ cs, Verbatim c) (depth : Int) (done : List Char) :
    (inValue depth (' ' :: done)).Leads ('"' :: (cs ++ ['"']))
      (inValue depth (('"' :: (cs ++ ['"'])).reverse ++ ' ' :: done)) := by
  have hopen : (inValue depth (' ' :: done)).Leads ['"'] (inText depth ('"' :: ' ' :: done)) :=
    leads_of_step fun rest => rfl
  have hinside := leads_of_put (fun c hc => step_inText (h c hc) depth) ('"' :: ' ' :: done)
  have hclose := leads_of_step (step_closing h depth done)
  simpa using hopen.append (hinside.append hclose)

/-! ## Lines -/

/-- A line that is laid out as it is. -/
def Kept (line : List Char) : Prop :=
  '\n' ∉ line ∧
    ∀ done, (atLine done).Leads (line ++ ['\n']) (atLine ((line ++ ['\n']).reverse ++ done))

theorem step_inKey {c : Char} (h : isBareName c = true) (done rest : List Char) :
    (inKey done).step c rest = .ok (inKey (c :: done)) := by
  simp [step, stepKey, inKey, atLine, start, put, ne_of_isBareName h (d := '\n') (by decide),
    ne_of_isBareName h (d := '.') (by decide), isBlank_of_isBareName h, isWord_of_isBareName h,
    bind, Except.bind, pure, Except.pure]

/-- The first character of a key that is made of the characters of bare names. -/
theorem step_atLine {c : Char} (h : isBareName c = true) (done rest : List Char) :
    (atLine done).step c rest = .ok (inKey (c :: done)) := by
  have other {d : Char} (hd : isBareName d = false) : c ≠ d := ne_of_isBareName h hd
  simp [step, stepPlain, inKey, atLine, start, beginLine, put, isQuote_of_isBareName h,
    other (d := '\n') (by decide), other (d := '#') (by decide), other (d := '[') (by decide),
    other (d := ']') (by decide), other (d := '=') (by decide), other (d := ' ') (by decide),
    other (d := '\t') (by decide), bind, Except.bind, pure, Except.pure]

theorem leads_key {key : List Char} (hne : key ≠ []) (h : ∀ c ∈ key, isBareName c = true)
    (done : List Char) : (atLine done).Leads key (inKey (key.reverse ++ done)) := by
  obtain ⟨c, cs, rfl⟩ := List.exists_cons_of_ne_nil hne
  have hbegin := leads_of_step (step_atLine (h c List.mem_cons_self) done)
  have hrest := leads_of_put (fun d hd => step_inKey (h d (List.mem_cons_of_mem c hd))) (c :: done)
  rw [List.reverse_cons, List.append_assoc]
  exact hbegin.append hrest

/-- A key and its value, if the value is laid out as it is. -/
theorem kept_pair {key text : List Char} (hne : key ≠ []) (hkey : ∀ c ∈ key, isBareName c = true)
    (hbreak : '\n' ∉ text) (htext : ∀ done,
      (inValue 0 (' ' :: done)).Leads text (inValue 0 (text.reverse ++ ' ' :: done))) :
    Kept (key ++ ' ' :: '=' :: ' ' :: text) := by
  refine ⟨?_, fun done => ?_⟩
  · have hkeyBreak : '\n' ∉ key := fun hmem => ne_of_isBareName (hkey _ hmem) (by decide) rfl
    simp [hkeyBreak, hbreak]
  · have hequals : (inKey (key.reverse ++ done)).Leads [' ', '=', ' ']
        (inValue 0 (' ' :: '=' :: ' ' :: (key.reverse ++ done))) := fun rest => rfl
    have hend (done : List Char) : (inValue 0 done).Leads ['\n'] (atLine ('\n' :: done)) :=
      fun rest => rfl
    simpa using (leads_key hne hkey done).append (hequals.append ((htext _).append (hend _)))

theorem kept_nil : Kept [] := ⟨by simp, fun done rest => rfl⟩

theorem run_lines {lines : List (List Char)} (h : ∀ line ∈ lines, Kept line) (done : List Char) :
    (atLine done).run (lines.flatMap (· ++ ['\n'])) =
      .ok (atLine ((lines.flatMap (· ++ ['\n'])).reverse ++ done)) := by
  induction lines generalizing done with
  | nil => rfl
  | cons line lines ih =>
    obtain ⟨-, hline⟩ := h line List.mem_cons_self
    rw [List.flatMap_cons, hline, ih fun l hl => h l (List.mem_cons_of_mem line hl)]
    simp

/-- A document of such lines is cut into them. -/
theorem layOut_lines {lines : List (List Char)} (h : ∀ line ∈ lines, Kept line) :
    layOut (lines.flatMap (· ++ ['\n'])) = .ok (lines ++ [[]]) := by
  have hrun : start.run (lines.flatMap (· ++ ['\n'])) = _ := run_lines h []
  have hcut : Text.splitAt '\n' (lines.flatMap (· ++ ['\n'])) = lines ++ [[]] :=
    Text.splitAt_flatMap fun line hline => (h line hline).1
  rw [layOut, hrun]
  show Except.ok (Text.splitAt '\n' ((lines.flatMap (· ++ ['\n'])).reverse ++ []).reverse) = _
  rw [List.append_nil, List.reverse_reverse, hcut]

end Layout

end ImportAtlas.Toml
