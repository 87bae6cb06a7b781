import ImportAtlas.Proofs.Json.Double
import ImportAtlas.Proofs.Settings.Laid

/-!
# Numbers after a key

The text of a number without a sign is read after a key as that number. A whole number is written
by its digits and a finite double by its parts, and both are numerals of one form (`Numeral`): they
have no low lines, no zeros that only fill up, and look neither like a time nor like a date. With a
point or an exponent a numeral is read as a double, without one as a whole number.
-/

namespace ImportAtlas

namespace Number

open Layout Binary

variable {ds rest : List Char}

theorem cutSign_of_isDigit {d : Char} (h : d.isDigit = true) (rest : List Char) :
    cutSign (d :: rest) = (false, d :: rest) := by
  unfold cutSign
  split
  · next heq => cases heq; cases h
  · next heq => cases heq; cases h
  · rfl

theorem groupedDigits?_of_isDigit (hne : ds ≠ []) (h : ∀ c ∈ ds, c.isDigit = true) :
    groupedDigits? ds = some (ds.map fun c => c.toNat - 48) := by
  induction ds with
  | nil => exact absurd rfl hne
  | cons c ds ih =>
    have hc := Text.digitValue?_of_isDigit (h c List.mem_cons_self)
    cases ds with
    | nil => simp [groupedDigits?, hc]
    | cons d ds =>
      have hrest := ih (List.cons_ne_nil d ds) fun e he => h e (List.mem_cons_of_mem c he)
      have hd : d ≠ '_' := by
        rintro rfl
        cases h '_' (by simp)
      rw [groupedDigits?, hc]
      simp [hd, hrest]

theorem cutDigits?_append (h : ∀ c ∈ ds, c.isDigit = true)
    (hrest : ∀ c ∈ rest.head?, isDigitOrLine c = false) :
    cutDigits? (ds ++ rest) = some (ds.map fun c => c.toNat - 48, rest) := by
  have hrun : ∀ c ∈ ds, isDigitOrLine c = true := fun c hc => by
    simp [isDigitOrLine, Text.digitValue?_of_isDigit (h c hc)]
  have hstop : rest.takeWhile isDigitOrLine = [] ∧ rest.dropWhile isDigitOrLine = rest := by
    cases rest with
    | nil => exact ⟨rfl, rfl⟩
    | cons c rest => simp [hrest c rfl]
  rw [cutDigits?, List.takeWhile_append_of_pos hrun, List.dropWhile_append_of_pos hrun, hstop.1,
    hstop.2, List.append_nil]
  cases ds with
  | nil => rfl
  | cons c ds => simp [groupedDigits?_of_isDigit (List.cons_ne_nil c ds) h]

theorem exponent?_elim (e : Option Int) :
    exponent? (e.elim [] fun e => (Layout.exponent e).toList) = some (e.getD 0) := by
  cases e with
  | none => rfl
  | some e =>
    obtain ⟨ds, htext, hdigits, hne, hvalue⟩ := Json.exists_exponent_eq e
    rw [Option.elim_some, htext, exponent?]
    simp only [decide_true, Bool.true_or, if_true, Json.cutSign_of_int,
      groupedDigits?_of_isDigit hne hdigits]
    show some (signed _ (Json.digitsValue ds)) = _
    rw [hvalue, signed_natAbs]
    rfl

theorem cutFraction?_append (digits : ∀ c ∈ ds, c.isDigit = true)
    (h : ∀ c ∈ rest.head?, isDigitOrLine c = false ∧ c ≠ '.') :
    cutFraction? ((if ds = [] then [] else '.' :: ds) ++ rest) =
      some (ds.map fun c => c.toNat - 48, rest) := by
  cases ds with
  | nil =>
    rw [if_pos rfl, List.nil_append]
    unfold cutFraction?
    split
    · exact absurd rfl (h '.' rfl).2
    · rfl
  | cons d ds =>
    rw [if_neg (List.cons_ne_nil d ds), List.cons_append]
    exact cutDigits?_append digits fun c hc => (h c hc).1

/-- A text that begins with a digit is none of the words for doubles. -/
theorem ofList_toLower_ne {d : Char} (h : d.isDigit = true) (rest : List Char) {w : String}
    {c : Char} {cs : List Char} (hw : w.toList = c :: cs) (hc : c.isDigit = false) :
    String.ofList ((d :: rest).map Char.toLower) ≠ w := by
  intro heq
  have hchars := congrArg String.toList heq
  rw [String.toList_ofList, hw, List.map_cons, Text.toLower_of_isDigit h] at hchars
  rw [← (List.cons.inj hchars).1, h] at hc
  cases hc

/-- The parts of a decimal are read as the double nearest to their value. -/
theorem unsignedDouble?_parts (negative : Bool) {p : Parts} (hp : p.WellFormed) :
    unsignedDouble? negative p.text = some (ofScientific negative (ofDigits (p.whole ++ p.fraction))
      (p.exponent.getD 0 - p.fraction.length)) := by
  obtain ⟨d, rest, htext, hd⟩ := Json.exists_parts_text_eq_cons hp
  have hmarks : ∀ c ∈ (p.exponent.elim [] fun e => (Layout.exponent e).toList).head?,
      isDigitOrLine c = false ∧ c ≠ '.' := by
    cases p.exponent with
    | none => simp
    | some e =>
      obtain ⟨ds, hexponent, -⟩ := Json.exists_exponent_eq e
      rw [Option.elim_some, hexponent]
      rintro c ⟨⟩
      decide +kernel
  have hempty : Parts.digitChars p.fraction = [] ↔ p.fraction = [] := List.map_eq_nil_iff
  have hfraction := cutFraction?_append
    (fun c => Json.isDigit_of_mem_digitChars hp.fraction_digit) hmarks
  simp only [hempty] at hfraction
  have hpoint : ∀ c ∈ ((if p.fraction = [] then [] else '.' :: Parts.digitChars p.fraction) ++
      p.exponent.elim [] fun e => (Layout.exponent e).toList).head?, isDigitOrLine c = false := by
    split
    · exact fun c hc => (hmarks c hc).1
    · rintro c ⟨⟩
      decide +kernel
  have hwhole := cutDigits?_append (fun c => Json.isDigit_of_mem_digitChars hp.whole_digit) hpoint
  have hsome : p.whole.isEmpty = false := by
    rcases hp.first with h | ⟨d, ds, h, -⟩ <;> rw [h] <;> rfl
  unfold unsignedDouble?
  split
  · next heq => exact absurd (htext ▸ heq) (ofList_toLower_ne hd rest rfl rfl)
  · next heq => exact absurd (htext ▸ heq) (ofList_toLower_ne hd rest rfl rfl)
  · next heq => exact absurd (htext ▸ heq) (ofList_toLower_ne hd rest rfl rfl)
  · rw [Parts.text, hwhole]
    simp only [Option.bind_eq_bind, Option.bind_some, hfraction, exponent?_elim,
      Json.map_digitChars hp.whole_digit, Json.map_digitChars hp.fraction_digit, hsome,
      Bool.false_and, Bool.false_eq_true, if_false]

end Number

namespace Toml

open ImportAtlas.Layout (Parts)
open Toml.Layout (Bare)

/-! ## Numerals -/

/-- The characters of a number without a sign: digits, a point, the mark of an exponent and its
sign. -/
def NumeralChar (c : Char) : Prop := c.isDigit = true ∨ c = '.' ∨ c = 'e' ∨ c = '+' ∨ c = '-'

/-- A number without a sign, as it may stand after a key: a zero is its first digit only alone or
before a point, and it cannot be taken for a date. -/
structure Numeral (cs : List Char) : Prop where
  chars : ∀ c ∈ cs, NumeralChar c
  first : ∃ d rest, cs = d :: rest ∧ d.isDigit = true ∧
    (d = '0' → rest = [] ∨ ∃ more, rest = '.' :: more)
  noDate : '-' ∉ cs ∨ ∃ d e rest, cs = d :: e :: rest ∧ e.isDigit = false

theorem NumeralChar.range {c : Char} (h : NumeralChar c) :
    (43 ≤ c.toNat ∧ c.toNat ≤ 57) ∨ c.toNat = 101 := by
  rcases h with h | rfl | rfl | rfl | rfl
  · have hdigit := Decimal.isDigit_iff.1 h
    omega
  all_goals decide

theorem NumeralChar.ne {c : Char} (h : NumeralChar c) {d : Char}
    (hd : ¬((43 ≤ d.toNat ∧ d.toNat ≤ 57) ∨ d.toNat = 101)) : c ≠ d := by
  rintro rfl
  exact hd h.range

theorem NumeralChar.bare {c : Char} (h : NumeralChar c) : Bare c := by
  refine ⟨h.ne (by decide), h.ne (by decide), ?_, h.ne (by decide), h.ne (by decide)⟩
  simp [isQuote, apostrophe, h.ne (d := '"') (by decide), h.ne (d := '\x27') (by decide)]

theorem NumeralChar.isBlank {c : Char} (h : NumeralChar c) : Text.isBlank c = false := by
  have hrange := h.range
  simp only [Text.isBlank, Bool.or_eq_false_iff, Bool.and_eq_false_iff, decide_eq_false_iff_not,
    beq_eq_false_iff_ne]
  omega

theorem NumeralChar.isMargin {c : Char} (h : NumeralChar c) : Number.isMargin c = false := by
  rw [Number.isMargin, h.isBlank, Bool.false_and]

theorem NumeralChar.toLower {c : Char} (h : NumeralChar c) : c.toLower = c := by
  rcases h with h | rfl | rfl | rfl | rfl
  · exact Text.toLower_of_isDigit h
  all_goals rfl

theorem withoutMargin_eq {cs : List Char} (h : ∀ c ∈ cs, NumeralChar c) :
    Number.withoutMargin cs = cs :=
  Text.trimBoth_of_forall fun c hc => (h c hc).isMargin

namespace Numeral

variable {cs : List Char}

theorem tight (h : Numeral cs) : Text.Tight cs :=
  Text.tight_of_forall fun c hc => (h.chars c hc).isBlank

theorem isPlainNumber_eq (h : Numeral cs) : isPlainNumber (' ' :: cs) = true := by
  have hline : '_' ∉ cs := fun hmem => (h.chars _ hmem).ne (d := '_') (by decide) rfl
  have hoccurs {w : List Char} (hw : '_' ∈ w) : Text.occursIn w cs = false := by
    rw [Bool.eq_false_iff, ne_eq, Text.occursIn_iff]
    exact fun hpart => hline (hpart.subset hw)
  have hlast : (cs.getLast? == some '_') = false := by
    rw [beq_eq_false_iff_ne]
    exact fun heq => hline (List.mem_of_getLast? heq)
  obtain ⟨d, rest, rfl, hd, hzero⟩ := h.first
  have hsign : d ≠ '_' ∧ d ≠ '+' ∧ d ≠ '-' := by
    refine ⟨?_, ?_, ?_⟩ <;> rintro rfl <;> cases hd
  rw [isPlainNumber, Text.trim_cons_space h.tight]
  simp only [hoccurs, hlast, List.mem_cons, true_or, or_true, beq_iff_eq, Bool.or_false,
    Bool.not_false, Bool.and_true]
  cases rest with
  | nil => simp [hsign]
  | cons e rest =>
    by_cases h0 : d = '0'
    · obtain ⟨more, hmore⟩ := (hzero h0).resolve_left (List.cons_ne_nil e rest)
      obtain ⟨rfl, -⟩ := List.cons.inj hmore
      simp [h0]
    · simp [h0, hsign]

theorem isTimeLike_eq (h : Numeral cs) : isTimeLike cs = false := by
  have hcolon : ':' ∉ cs := fun hmem => (h.chars _ hmem).ne (d := ':') (by decide) rfl
  rcases cs with _ | ⟨a, _ | ⟨b, _ | ⟨c, rest⟩⟩⟩
  · rfl
  · rfl
  · rfl
  · have hc : c ≠ ':' := by
      rintro rfl
      simp at hcolon
    simp [isTimeLike, hasShape, hc.symm]

theorem isDate_eq (h : Numeral cs) : isDate cs = false := by
  rcases h.noDate with hdash | ⟨d, e, rest, hcs, he⟩
  · have hdrop : (cs.drop 1).contains '-' = false := by
      simp only [List.contains_eq_mem, decide_eq_false_iff_not]
      exact fun hmem => hdash (List.mem_of_mem_drop hmem)
    rw [isDate, hdrop, Bool.false_and, Bool.false_and]
  · have hyear : part? 0 4 cs = none := by
      have hfront : ∀ c ∈ cs.take 4, NumeralChar c := fun c hc =>
        h.chars c (List.mem_of_mem_take hc)
      obtain ⟨d', rest', hcs', hd, -⟩ := h.first
      rw [hcs] at hcs' hfront
      obtain ⟨rfl, -⟩ := List.cons.inj hcs'
      have hmark : Text.digitValue? e = none ∧ e ≠ '_' := by
        rcases hfront e (by simp) with hdigit | rfl | rfl | rfl | rfl
        · rw [hdigit] at he
          cases he
        all_goals decide +kernel
      rw [part?, List.drop_zero, Number.ofText?, String.toList_ofList, hcs, withoutMargin_eq hfront]
      simp [Number.cutSign_of_isDigit hd, Number.groupedDigits?, Text.digitValue?_of_isDigit hd,
        hmark]
    rw [isDate, isDay, hyear]
    simp

/-- A number after a key is read as one. -/
theorem readValue_eq (h : Numeral cs) :
    readValue (isPlainNumber (' ' :: cs)) cs = (number? cs).elim malformed .ok := by
  have htime := h.isTimeLike_eq
  have hdate := h.isDate_eq
  rw [h.isPlainNumber_eq]
  obtain ⟨d, rest, rfl, hd, -⟩ := h.first
  have hword {w : String} {c : Char} {ws : List Char} (hw : w.toList = c :: ws)
      (hc : c.isDigit = false) : (d :: rest == w.toList) = false := by
    rw [beq_eq_false_iff_ne, hw]
    intro heq
    rw [← (List.cons.inj heq).1, hd] at hc
    cases hc
  have hquote : isQuote d = false := (h.chars d List.mem_cons_self).bare.2.2.1
  have hread : readValue true (d :: rest) = scalar true (d :: rest) := by
    rw [readValue, List.length_cons]
    unfold readValueIn
    split
    · next heq => cases heq
    · next heq => cases heq; cases hd
    · next heq => cases heq; cases hd
    · next heq =>
      cases heq
      rw [hquote, if_neg Bool.false_ne_true]
  rw [hread, scalar, hword rfl rfl, hword rfl rfl, htime, hdate]
  cases number? (d :: rest) <;> rfl

theorem cutSign_eq (h : Numeral cs) : Number.cutSign cs = (false, cs) := by
  obtain ⟨d, rest, rfl, hd, -⟩ := h.first
  exact Number.cutSign_of_isDigit hd rest

theorem filter_eq (h : Numeral cs) : cs.filter (· != '_') = cs := by
  refine List.filter_eq_self.2 fun c hc => ?_
  simpa using (h.chars c hc).ne (d := '_') (by decide)

theorem map_toLower (h : Numeral cs) : cs.map Char.toLower = cs :=
  (List.map_congr_left fun c hc => (h.chars c hc).toLower).trans (List.map_id cs)

/-- With a point or an exponent it is a double. -/
theorem number?_double (h : Numeral cs) (hmark : '.' ∈ cs ∨ 'e' ∈ cs)
    (hlast : cs.getLast? ≠ some '.') :
    number? cs = (Number.unsignedDouble? false cs).map fun x => (.float x, .float) := by
  have hx : 'x' ∉ cs := fun hmem => (h.chars _ hmem).ne (d := 'x') (by decide) rfl
  have hread : Number.doubleOfText? (String.ofList cs) = Number.unsignedDouble? false cs := by
    rw [Number.doubleOfText?, String.toList_ofList, withoutMargin_eq h.chars, h.cutSign_eq]
  have hfirst : cs.head?.any Char.isDigit = true := by
    obtain ⟨d, rest, rfl, hd, -⟩ := h.first
    exact hd
  rw [number?, h.cutSign_eq]
  simp [h.filter_eq, h.map_toLower, hread, hmark, hlast, hx, hfirst]

/-- Digits alone are a whole number. -/
theorem number?_whole (h : Numeral cs) (digits : ∀ c ∈ cs, c.isDigit = true) :
    number? cs = (unsigned? cs).map fun n => (.int n, .int) := by
  have hnot {c : Char} (hc : c.isDigit = false) : c ∉ cs := by
    intro hmem
    rw [digits c hmem] at hc
    cases hc
  have hascii : cs.map asciiDigit = cs := by
    refine (List.map_congr_left fun c hc => ?_).trans (List.map_id cs)
    have hdigit := Decimal.isDigit_iff.1 (digits c hc)
    rw [asciiDigit, Text.digitValue?_of_isDigit (digits c hc)]
    show Char.ofNat (48 + (c.toNat - 48)) = c
    rw [Nat.add_sub_cancel' hdigit.1, Char.ofNat_toNat]
  have hword {w : List Char} {c : Char} (hc : c ∈ w) (hdigit : c.isDigit = false) : cs ≠ w := by
    rintro rfl
    exact hnot hdigit hc
  rw [number?, h.cutSign_eq]
  simp [h.filter_eq, h.map_toLower, hnot, whole?, withoutMargin_eq h.chars, h.cutSign_eq, hascii,
    hword (c := 'n')]
  cases unsigned? cs <;> rfl

end Numeral

/-! ## The texts of numbers -/

theorem inBase?_of_isDigit {ds : List Char} (hne : ds ≠ []) (h : ∀ c ∈ ds, c.isDigit = true) :
    inBase? 10 ds = some (Json.digitsValue ds) := by
  have hstep (n : Nat) {c : Char} (hc : c.isDigit = true) :
      (do
        let d ← Json.hexValue? c
        if d < 10 then some (10 * n + d) else none) = some (10 * n + (c.toNat - 48)) := by
    have hdigit := Decimal.isDigit_iff.1 hc
    have hvalue : Json.hexValue? c = some (c.toNat - 48) := if_pos hc
    have hsmall : c.toNat - 48 < 10 := by omega
    simp [hvalue, hsmall]
  have hfold {es : List Char} (hes : ∀ c ∈ es, c.isDigit = true) (n : Nat) :
      es.foldlM (fun n c => do
        let d ← Json.hexValue? c
        if d < 10 then some (10 * n + d) else none) n =
      some ((es.map fun c => c.toNat - 48).foldl (fun n d => 10 * n + d) n) := by
    induction es generalizing n with
    | nil => rfl
    | cons c es ih =>
      rw [List.foldlM_cons, hstep n (hes c List.mem_cons_self)]
      exact ih (fun d hd => hes d (List.mem_cons_of_mem c hd)) _
  rw [inBase?, List.isEmpty_eq_false_iff.2 hne, if_neg Bool.false_ne_true, hfold h]
  rfl

theorem unsigned?_toDigits {n : Nat} (short : (Nat.toDigits 10 n).length ≤ Number.digitLimit) :
    unsigned? (Nat.toDigits 10 n) = some n := by
  have hbase := inBase?_of_isDigit Nat.toDigits_ne_nil fun c =>
    Json.isDigit_of_mem_toDigits (n := n)
  rw [Json.digitsValue_toDigits] at hbase
  unfold unsigned?
  split
  · next m ds hds =>
    -- a zero is in front only of zero, which has one digit
    obtain ⟨d, rest, hcons, -, hzero⟩ := Decimal.exists_toDigits_eq_cons n
    rw [hds] at hcons
    obtain rfl : n = 0 := Nat.eq_zero_of_not_pos fun hn => hzero hn (List.cons.inj hcons).1.symm
    cases hds
  · rw [if_neg (Nat.not_lt.2 short), hbase]

theorem numeral_toDigits (n : Nat) : Numeral (Nat.toDigits 10 n) := by
  have digits : ∀ c ∈ Nat.toDigits 10 n, c.isDigit = true := fun c => Json.isDigit_of_mem_toDigits
  constructor
  case chars => exact fun c hc => .inl (digits c hc)
  case first =>
    obtain ⟨d, rest, hds, hd, hzero⟩ := Decimal.exists_toDigits_eq_cons n
    refine ⟨d, rest, hds, hd, fun h0 => .inl ?_⟩
    obtain rfl : n = 0 := Nat.eq_zero_of_not_pos fun hn => hzero hn h0
    exact (List.cons.inj hds).2.symm
  case noDate =>
    refine .inl fun hmem => ?_
    cases digits _ hmem

/-- The last characters of a double are digits. -/
theorem exists_parts_text_eq_append {p : Parts} (hp : p.WellFormed) :
    ∃ front ds, p.text = front ++ ds ∧ ds ≠ [] ∧ ∀ c ∈ ds, c.isDigit = true := by
  cases hexponent : p.exponent with
  | none =>
    have hfraction : p.fraction ≠ [] := hp.double.resolve_right (by simp [hexponent])
    refine ⟨Parts.digitChars p.whole ++ ['.'], Parts.digitChars p.fraction, ?_, ?_,
      fun c => Json.isDigit_of_mem_digitChars hp.fraction_digit⟩
    · simp [Parts.text, hexponent, hfraction]
    · simpa [Parts.digitChars] using hfraction
  | some e =>
    obtain ⟨ds, htext, hdigits, hne, -⟩ := Json.exists_exponent_eq e
    refine ⟨Parts.digitChars p.whole ++ ((if p.fraction = [] then [] else
      '.' :: Parts.digitChars p.fraction) ++ ['e', if e < 0 then '-' else '+']), ds, ?_, hne,
      hdigits⟩
    rw [Parts.text, hexponent, Option.elim_some, htext]
    simp

/-- A zero in front is followed by the point. -/
theorem exists_point_of_zero {p : Parts} (hp : p.WellFormed) {rest : List Char}
    (h : p.text = '0' :: rest) : ∃ more, rest = '.' :: more := by
  rcases hp.first with hwhole | ⟨n, ds, hwhole, hn⟩
  · have hnone : p.exponent = none := by
      cases hexponent : p.exponent with
      | none => rfl
      | some e =>
        obtain ⟨n, hn, hpos⟩ := hp.single (by simp [hexponent])
        cases hwhole.symm.trans hn
        cases hpos
    have hfraction : p.fraction ≠ [] := hp.double.resolve_right (by simp [hnone])
    rw [Parts.text, hwhole, if_neg hfraction] at h
    exact ⟨_, (List.cons.inj h).2.symm⟩
  · have all : ∀ n < 10, 0 < n → Char.ofNat (n + 48) ≠ '0' := by decide
    have hsmall : n < 10 := hp.whole_digit n (hwhole ▸ List.mem_cons_self)
    rw [Parts.text, hwhole] at h
    exact absurd (List.cons.inj h).1 (all n hsmall hn)

/-- Without an exponent there is no dash, and before one there is a single digit. -/
theorem noDate_parts {p : Parts} (hp : p.WellFormed) :
    '-' ∉ p.text ∨ ∃ d e rest, p.text = d :: e :: rest ∧ e.isDigit = false := by
  cases hexponent : p.exponent with
  | none =>
    refine .inl fun hmem => ?_
    rw [Parts.text, hexponent, Option.elim_none, List.append_nil, List.mem_append] at hmem
    rcases hmem with hmem | hmem
    · cases Json.isDigit_of_mem_digitChars hp.whole_digit hmem
    · split at hmem
      · cases hmem
      · rcases List.mem_cons.1 hmem with heq | hmem
        · cases heq
        · cases Json.isDigit_of_mem_digitChars hp.fraction_digit hmem
  | some e =>
    obtain ⟨d, hwhole, -⟩ := hp.single (by simp [hexponent])
    obtain ⟨ds, htext, -⟩ := Json.exists_exponent_eq e
    refine .inr ?_
    by_cases hfraction : p.fraction = []
    · rw [Parts.text, hwhole, if_pos hfraction, hexponent, Option.elim_some, htext]
      exact ⟨_, 'e', _, rfl, rfl⟩
    · rw [Parts.text, hwhole, if_neg hfraction]
      exact ⟨_, '.', _, rfl, rfl⟩

theorem numeral_parts {p : Parts} (hp : p.WellFormed) : Numeral p.text where
  chars _ := Json.mem_parts_text hp
  first := by
    obtain ⟨d, rest, htext, hd⟩ := Json.exists_parts_text_eq_cons hp
    exact ⟨d, rest, htext, hd, fun h0 => .inr (exists_point_of_zero hp (h0 ▸ htext))⟩
  noDate := noDate_parts hp

/-- A whole number is read after a key as it was written. -/
theorem readValue_toDigits {n : Nat} (short : (Nat.toDigits 10 n).length ≤ Number.digitLimit) :
    readValue (isPlainNumber (' ' :: Nat.toDigits 10 n)) (Nat.toDigits 10 n) =
      .ok (.int n, .int) := by
  have h := numeral_toDigits n
  rw [h.readValue_eq, h.number?_whole fun c => Json.isDigit_of_mem_toDigits,
    unsigned?_toDigits short]
  rfl

/-- The parts of a decimal are read after a key as the double nearest to their value. -/
theorem readValue_parts {p : Parts} (hp : p.WellFormed) :
    readValue (isPlainNumber (' ' :: p.text)) p.text =
      .ok (.float (Binary.ofScientific false (Number.ofDigits (p.whole ++ p.fraction))
        (p.exponent.getD 0 - p.fraction.length)), .float) := by
  have h := numeral_parts hp
  have hmark : '.' ∈ p.text ∨ 'e' ∈ p.text := by
    rcases hp.double with hfraction | hexponent
    · exact .inl (by simp [Parts.text, hfraction])
    · obtain ⟨e, he⟩ := Option.isSome_iff_exists.1 hexponent
      obtain ⟨ds, hds, -⟩ := Json.exists_exponent_eq e
      exact .inr (by simp [Parts.text, he, hds])
  have hlast : p.text.getLast? ≠ some '.' := by
    obtain ⟨front, ds, htext, hne, hdigits⟩ := exists_parts_text_eq_append hp
    rw [htext, List.getLast?_append_of_ne_nil _ hne]
    intro heq
    cases hdigits _ (List.mem_of_getLast? heq)
  rw [h.readValue_eq, h.number?_double hmark hlast, Number.unsignedDouble?_parts false hp]
  rfl

end Toml

end ImportAtlas
