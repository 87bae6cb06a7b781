import ImportAtlas.Declaration.Scan
import Mathlib.Data.List.Infix

/-!
# What a scan finds

`Scanned` says step by step how a text is scanned: at each place a statement is found and left
behind as a whole, or nothing is recognised and one character is passed. What holds of every scan is
proved along these steps: each statement is found where it stands, and no recognisable place is
missed unless a statement covers it. A text that is written as statements between fillers (`Source`)
is scanned into those statements, if the fillers are free of the word that opens a statement.
-/

namespace ImportAtlas

variable {α σ : Type}

namespace Recogniser

/-- Every statement begins with the word `w`. -/
structure Opens (w : List Char) (at? : Recogniser α) : Prop where
  ne_nil : w ≠ []
  exists_text : ∀ {cs a rest}, at? cs = some (a, rest) → ∃ text, w <+: text ∧ cs = text ++ rest

end Recogniser

namespace Found

variable {at? : Recogniser α} {w : List Char}

/-- The steps of a scan of a text that begins at the place `start`. -/
inductive Scanned (at? : Recogniser α) : Nat → List Char → List (Found α) → Prop
  | done (start : Nat) : Scanned at? start [] []
  | found {start : Nat} {a : α} {text rest : List Char} {fs : List (Found α)} : text ≠ [] →
      at? (text ++ rest) = some (a, rest) → Scanned at? (start + text.length) rest fs →
      Scanned at? start (text ++ rest) (⟨a, start, text⟩ :: fs)
  | passed {start : Nat} {c : Char} {cs : List Char} {fs : List (Found α)} :
      at? (c :: cs) = none → Scanned at? (start + 1) cs fs → Scanned at? start (c :: cs) fs

/-! ## The scan takes these steps -/

theorem scanFrom_skip (at? : Recogniser α) (start n : Nat) (cs : List Char) :
    scanFrom at? start n cs = scanFrom at? (start + n) 0 (cs.drop n) := by
  induction n generalizing start cs with
  | zero => rfl
  | succ n ih =>
    cases cs with
    | nil => rfl
    | cons c cs =>
      rw [scanFrom, ih, List.drop_succ_cons]
      congr 1
      omega

theorem scanFrom_found {start : Nat} {a : α} {text rest : List Char} (hne : text ≠ [])
    (h : at? (text ++ rest) = some (a, rest)) :
    scanFrom at? start 0 (text ++ rest) =
      ⟨a, start, text⟩ :: scanFrom at? (start + text.length) 0 rest := by
  have hused : used (text ++ rest) rest = text.length := by
    rw [used, List.length_append]
    omega
  cases text with
  | nil => exact absurd rfl hne
  | cons c text =>
    have htake : (c :: (text ++ rest)).take (text.length + 1) = c :: text := by
      rw [List.take_succ_cons, List.take_left]
    rw [List.cons_append, List.length_cons] at hused
    rw [List.cons_append] at h ⊢
    simp only [scanFrom, h, hused, htake, List.length_cons, Nat.add_sub_cancel]
    rw [scanFrom_skip, List.drop_left, Nat.add_assoc, Nat.add_comm 1]

theorem scanFrom_passed {start : Nat} {c : Char} {cs : List Char} (h : at? (c :: cs) = none) :
    scanFrom at? start 0 (c :: cs) = scanFrom at? (start + 1) 0 cs := by
  simp only [scanFrom, h]

theorem Scanned.eq_scanFrom {start : Nat} {cs : List Char} {fs : List (Found α)}
    (h : Scanned at? start cs fs) : fs = scanFrom at? start 0 cs := by
  induction h with
  | done start => rfl
  | found hne hat _ ih => rw [scanFrom_found hne hat, ih]
  | passed hat _ ih => rw [scanFrom_passed hat, ih]

theorem scanned_scanFrom (hw : at?.Opens w) (start : Nat) (cs : List Char) :
    Scanned at? start cs (scanFrom at? start 0 cs) := by
  -- a statement found may be of any length, so the induction is on the length of the text
  induction hn : cs.length using Nat.strong_induction_on generalizing start cs with
  | _ n ih =>
    cases cs with
    | nil => exact .done start
    | cons c cs =>
      cases hat : at? (c :: cs) with
      | none =>
        rw [scanFrom_passed hat]
        exact .passed hat (ih cs.length (by simp [← hn]) _ _ rfl)
      | some found =>
        obtain ⟨a, rest⟩ := found
        obtain ⟨text, hopen, htext⟩ := hw.exists_text hat
        have hne : text ≠ [] := fun hnil => hw.ne_nil (List.prefix_nil.1 (hnil ▸ hopen))
        have hpos : 0 < text.length := List.length_pos_iff.2 hne
        rw [htext] at hat hn ⊢
        rw [scanFrom_found hne hat]
        refine .found hne hat (ih rest.length ?_ _ _ rfl)
        rw [List.length_append] at hn
        omega

theorem scanned_scan (hw : at?.Opens w) (cs : List Char) : Scanned at? 0 cs (scan at? cs) :=
  scanned_scanFrom hw 0 cs

/-! ## What holds of every scan -/

/-- A statement stands where it was found, and the recogniser accepts it there. -/
theorem Scanned.exists_of_mem {start : Nat} {cs : List Char} {fs : List (Found α)} {f : Found α}
    (h : Scanned at? start cs fs) (hf : f ∈ fs) :
    ∃ before after, cs = before ++ (f.text ++ after) ∧ f.start = start + before.length ∧
      f.text ≠ [] ∧ at? (f.text ++ after) = some (f.value, after) := by
  induction h with
  | done => cases hf
  | @found start a text rest fs hne hat _ ih =>
    rcases List.mem_cons.1 hf with rfl | hf
    · exact ⟨[], rest, rfl, rfl, hne, hat⟩
    · obtain ⟨before, after, hrest, hstart, hfound⟩ := ih hf
      refine ⟨text ++ before, after, by rw [hrest, List.append_assoc], ?_, hfound⟩
      rw [hstart, List.length_append, Nat.add_assoc]
  | @passed start c cs fs _ _ ih =>
    obtain ⟨before, after, hcs, hstart, hfound⟩ := ih hf
    refine ⟨c :: before, after, by rw [hcs, List.cons_append], ?_, hfound⟩
    rw [hstart, List.length_cons]
    omega

/-- Where the recogniser would accept something, a statement found begins or is still going on. -/
theorem Scanned.covers {start : Nat} {cs before rest : List Char} {fs : List (Found α)}
    (h : Scanned at? start cs fs) (hcs : cs = before ++ rest) (hne : rest ≠ [])
    (hat : (at? rest).isSome) :
    ∃ f ∈ fs, f.start ≤ start + before.length ∧
      start + before.length < f.start + f.text.length := by
  induction h generalizing before with
  | done => exact absurd (List.append_eq_nil_iff.1 hcs.symm).2 hne
  | @found start a text tail fs _ _ _ ih =>
    rcases Nat.lt_or_ge before.length text.length with hlt | hge
    · exact ⟨_, List.mem_cons_self, Nat.le_add_right .., Nat.add_lt_add_left hlt _⟩
    · obtain ⟨before, rfl⟩ := List.prefix_of_prefix_length_le ⟨tail, hcs⟩ ⟨rest, rfl⟩ hge
      rw [List.append_assoc, List.append_cancel_left_eq] at hcs
      obtain ⟨f, hf, hle, hlt⟩ := ih hcs
      rw [List.length_append, ← Nat.add_assoc]
      exact ⟨f, List.mem_cons_of_mem _ hf, hle, hlt⟩
  | @passed start c cs fs hnone _ ih =>
    cases before with
    | nil =>
      rw [List.nil_append] at hcs
      rw [← hcs, hnone] at hat
      cases hat
    | cons d before =>
      obtain ⟨f, hf, hle, hlt⟩ := ih (List.cons.inj hcs).2
      rw [List.length_cons]
      exact ⟨f, hf, by omega, by omega⟩

end Found

/-! ## Fillers -/

/-- A text in which the word `w` does not occur. -/
structure Filler (w : List Char) where
  chars : List Char
  free : ¬w <:+: chars

/-- No proper end of the word begins it. -/
def Unbordered (w : List Char) : Prop := ∀ n < w.length, 0 < n → ¬w.drop n <+: w

instance (w : List Char) : Decidable (Unbordered w) :=
  inferInstanceAs (Decidable (∀ n < w.length, 0 < n → ¬w.drop n <+: w))

variable {at? : Recogniser α} {w : List Char}

/-- The word does not begin inside a filler, even if it follows the filler. -/
theorem Filler.not_isPrefix (hw : Unbordered w) (f : Filler w) {back rest : List Char}
    (hne : back ≠ []) (hback : back <:+ f.chars) (hrest : rest = [] ∨ w <+: rest) :
    ¬w <+: back ++ rest := by
  intro h
  rcases Nat.lt_or_ge back.length w.length with hlt | hge
  · -- the occurrence leaves the filler, so an end of the word begins what follows
    obtain ⟨beyond, rfl⟩ := List.prefix_of_prefix_length_le ⟨rest, rfl⟩ h hlt.le
    have hbeyond : beyond <+: rest := (List.prefix_append_right_inj back).1 h
    rcases hrest with rfl | hrest
    · rw [List.prefix_nil.1 hbeyond, List.append_nil] at hlt
      exact absurd hlt (Nat.lt_irrefl _)
    · have hborder : beyond <+: back ++ beyond :=
        List.prefix_of_prefix_length_le hbeyond hrest (by simp)
      refine hw back.length hlt (List.length_pos_iff.2 hne) ?_
      rwa [List.drop_left]
  · have hwhole : w <+: back := List.prefix_of_prefix_length_le h ⟨rest, rfl⟩ hge
    exact f.free (hwhole.isInfix.trans hback.isInfix)

/-- A text at no place of which something is recognised is passed character by character. -/
theorem Found.Scanned.pass {front rest : List Char} {fs : List (Found α)}
    (hnone : ∀ back, back ≠ [] → back <:+ front → at? (back ++ rest) = none) {start : Nat}
    (h : Scanned at? (start + front.length) rest fs) : Scanned at? start (front ++ rest) fs := by
  induction front generalizing start with
  | nil => exact h
  | cons c front ih =>
    refine .passed (hnone (c :: front) (List.cons_ne_nil _ _) (List.suffix_refl _)) ?_
    refine ih (fun back hne hback => hnone back hne (hback.trans (List.suffix_cons c front))) ?_
    rwa [List.length_cons, Nat.add_comm front.length 1, ← Nat.add_assoc] at h

theorem Recogniser.Opens.eq_none (hopen : at?.Opens w) {cs : List Char} (h : ¬w <+: cs) :
    at? cs = none := by
  cases hat : at? cs with
  | none => rfl
  | some found =>
    obtain ⟨text, hfront, htext⟩ := hopen.exists_text hat
    refine absurd ?_ h
    rw [htext]
    exact hfront.trans (List.prefix_append text found.2)

theorem Found.Scanned.filler (hopen : at?.Opens w) (hw : Unbordered w) (f : Filler w) {start : Nat}
    {rest : List Char} {fs : List (Found α)} (hrest : rest = [] ∨ w <+: rest)
    (h : Scanned at? (start + f.chars.length) rest fs) :
    Scanned at? start (f.chars ++ rest) fs :=
  h.pass fun _ hne hback => hopen.eq_none (f.not_isPrefix hw hne hback hrest)

/-! ## Closed texts -/

/-- The text ends with a character that is not in the word. -/
def Closed (w text : List Char) : Prop := ∃ front c, c ∉ w ∧ text = front ++ [c]

theorem Closed.append_left {text : List Char} (h : Closed w text) (before : List Char) :
    Closed w (before ++ text) := by
  obtain ⟨front, c, hc, rfl⟩ := h
  exact ⟨before ++ front, c, hc, (List.append_assoc _ _ _).symm⟩

theorem Closed.of_suffix {text back : List Char} (h : Closed w text) (hne : back ≠ [])
    (hback : back <:+ text) : Closed w back := by
  obtain ⟨front, c, hc, rfl⟩ := h
  obtain ⟨init, last, rfl⟩ := (List.eq_nil_or_concat' back).resolve_left hne
  obtain ⟨before, heq⟩ := hback
  rw [← List.append_assoc] at heq
  obtain rfl : last = c := by simpa using (List.append_inj' heq rfl).2
  exact ⟨init, last, hc, rfl⟩

/-- A word that does not occur in a closed text does not begin in it either. -/
theorem Closed.not_isPrefix {text rest : List Char} (h : Closed w text) (hfree : ¬w <:+: text) :
    ¬w <+: text ++ rest := by
  intro hfront
  rcases Nat.le_total w.length text.length with hle | hge
  · exact hfree (List.prefix_of_prefix_length_le hfront ⟨rest, rfl⟩ hle).isInfix
  · obtain ⟨front, c, hc, rfl⟩ := h
    have hwhole : front ++ [c] <+: w := List.prefix_of_prefix_length_le ⟨rest, rfl⟩ hfront hge
    exact hc (hwhole.subset (by simp))

/-- In a closed text that is not accepted, and in which the word occurs only at the front, nothing
is recognised. -/
theorem Recogniser.Opens.pass_closed (hopen : at?.Opens w) {text rest : List Char}
    (hclosed : Closed w text) (hfree : ¬w <:+: text.tail) (hnone : at? (text ++ rest) = none)
    {back : List Char} (hne : back ≠ []) (hback : back <:+ text) : at? (back ++ rest) = none := by
  cases text with
  | nil => exact absurd (List.suffix_nil.1 hback) hne
  | cons c text =>
    rcases List.suffix_cons_iff.1 hback with rfl | hback'
    · exact hnone
    · exact hopen.eq_none ((hclosed.of_suffix hne hback).not_isPrefix fun h =>
        hfree (h.trans hback'.isInfix))

/-! ## Sources -/

/-- What is read of a text before `rest`: the whole of it, or nothing at any of its places. -/
def Found.Reads (at? : Recogniser α) (text rest : List Char) (read : Option α) : Prop :=
  (∃ a, read = some a ∧ at? (text ++ rest) = some (a, rest)) ∨
    read = none ∧ ∀ back, back ≠ [] → back <:+ text → at? (back ++ rest) = none

/-- Statements with a filler after each of them, and one in front. -/
structure Source (w : List Char) (σ : Type) where
  front : Filler w
  pieces : List (σ × Filler w)

namespace Source

variable {text : σ → List Char} {value : σ → α}

/-- Statements and fillers as they are written. -/
def written (text : σ → List Char) (pieces : List (σ × Filler w)) : List Char :=
  pieces.flatMap fun p => text p.1 ++ p.2.chars

/-- The whole text. -/
def content (text : σ → List Char) (s : Source w σ) : List Char :=
  s.front.chars ++ written text s.pieces

theorem infix_content (s : Source w σ) (text : σ → List Char) {p : σ × Filler w}
    (hp : p ∈ s.pieces) : text p.1 <:+: s.content text := by
  obtain ⟨before, after, hpieces⟩ := List.append_of_mem hp
  refine ⟨s.front.chars ++ written text before, p.2.chars ++ written text after, ?_⟩
  simp [content, written, hpieces]

/-- A source is scanned into the statements that are read, one after the other. -/
theorem scan_reads (hopen : at?.Opens w) (hw : Unbordered w) (s : Source w σ)
    (reads : σ → Option α) (htext : ∀ p ∈ s.pieces, w <+: text p.1)
    (hreads : ∀ p after, p :: after <:+ s.pieces →
      Found.Reads at? (text p.1) (p.2.chars ++ written text after) (reads p.1)) :
    (Found.scan at? (s.content text)).map (fun f => (f.value, f.text)) =
      s.pieces.filterMap fun p => (reads p.1).map (·, text p.1) := by
  have hopens : ∀ ps, ps <:+ s.pieces → written text ps = [] ∨ w <+: written text ps := by
    intro ps hps
    cases ps with
    | nil => exact .inl rfl
    | cons p ps =>
      refine .inr ((htext p (hps.subset List.mem_cons_self)).trans ?_)
      rw [written, List.flatMap_cons, List.append_assoc]
      exact List.prefix_append _ _
  have hscan : ∀ ps, ps <:+ s.pieces → ∀ start, ∃ fs,
      Found.Scanned at? start (written text ps) fs ∧ fs.map (fun f => (f.value, f.text)) =
        ps.filterMap fun p => (reads p.1).map (·, text p.1) := by
    intro ps
    induction ps with
    | nil => exact fun _ start => ⟨[], .done start, rfl⟩
    | cons p ps ih =>
      intro hps start
      have htail : ps <:+ s.pieces := (List.suffix_cons p ps).trans hps
      obtain ⟨fs, hscanned, hfs⟩ := ih htail (start + (text p.1).length + p.2.chars.length)
      have hafter := hscanned.filler hopen hw p.2 (hopens ps htail)
      rw [written, List.flatMap_cons, List.append_assoc]
      rcases hreads p ps hps with ⟨a, hread, hat⟩ | ⟨hread, hnone⟩
      · have hne : text p.1 ≠ [] := fun hnil =>
          hopen.ne_nil (List.prefix_nil.1 (hnil ▸ htext p (hps.subset List.mem_cons_self)))
        refine ⟨⟨a, start, text p.1⟩ :: fs, .found hne hat hafter, ?_⟩
        rw [List.map_cons, List.filterMap_cons_some (by rw [hread]; rfl), hfs]
      · refine ⟨fs, .pass hnone hafter, ?_⟩
        rw [List.filterMap_cons_none (by rw [hread]; rfl), hfs]
  obtain ⟨fs, hscanned, hfs⟩ := hscan s.pieces (List.suffix_refl _) (0 + s.front.chars.length)
  have hwhole := hscanned.filler hopen hw s.front (hopens s.pieces (List.suffix_refl _))
  rw [Found.scan, content, ← hwhole.eq_scanFrom, hfs]

/-- A source is scanned into its statements, if the recogniser accepts each of them before what
follows it. -/
theorem scan_content (hopen : at?.Opens w) (hw : Unbordered w) (s : Source w σ)
    (htext : ∀ p ∈ s.pieces, w <+: text p.1)
    (hat : ∀ p after, p :: after <:+ s.pieces →
      at? (text p.1 ++ (p.2.chars ++ written text after)) =
        some (value p.1, p.2.chars ++ written text after)) :
    (Found.scan at? (s.content text)).map (fun f => (f.value, f.text)) =
      s.pieces.map fun p => (value p.1, text p.1) := by
  have hreads := s.scan_reads hopen hw (fun p => some (value p)) htext fun p after hp =>
    .inl ⟨value p.1, rfl, hat p after hp⟩
  rw [hreads, ← List.filterMap_eq_map]
  rfl

end Source

end ImportAtlas
