import ImportAtlas.Json.Writer
import ImportAtlas.Proofs.Decimal.Layout
import ImportAtlas.Proofs.Decimal.Order
import ImportAtlas.Proofs.Decimal.Shortest
import ImportAtlas.Proofs.Json.Numeral

/-!
# Doubles in a document

The text of a double is read as the same double. A finite double is written by the shortest digits in
its rounding interval, and whatever lies there has it as the nearest double; zeros keep their sign,
and the other values are words of the grammar.
-/

namespace ImportAtlas.Json

open Layout Binary

variable {τ : Type}

/-! ## The parts of a decimal -/

theorem isDigit_of_mem_digitChars {ds : List Nat} (digits : ∀ d ∈ ds, d < 10) {c : Char}
    (h : c ∈ Parts.digitChars ds) : c.isDigit = true := by
  obtain ⟨d, hd, rfl⟩ := List.mem_map.1 h
  have all : ∀ d < 10, (Char.ofNat (d + 48)).isDigit = true := by decide
  exact all d (digits d hd)

theorem map_digitChars {ds : List Nat} (digits : ∀ d ∈ ds, d < 10) :
    (Parts.digitChars ds).map (fun c => c.toNat - 48) = ds := by
  have all : ∀ d < 10, (Char.ofNat (d + 48)).toNat - 48 = d := by decide
  rw [Parts.digitChars, List.map_map]
  exact (List.map_congr_left fun d hd => all d (digits d hd)).trans (List.map_id ds)

theorem digitsValue_digitChars {ds : List Nat} (digits : ∀ d ∈ ds, d < 10) :
    digitsValue (Parts.digitChars ds) = Number.ofDigits ds := by
  rw [digitsValue, map_digitChars digits]

/-- An exponent is written as its mark, a sign and digits. -/
theorem exists_exponent_eq (e : Int) :
    ∃ ds, (Layout.exponent e).toList = 'e' :: (if e < 0 then '-' else '+') :: ds ∧
      (∀ c ∈ ds, c.isDigit = true) ∧ ds ≠ [] ∧ digitsValue ds = e.natAbs := by
  have hdigits : (toString e.natAbs).toList = Nat.toDigits 10 e.natAbs := Nat.toList_repr
  have hsign : (if e < 0 then "e-" else "e+").toList = ['e', if e < 0 then '-' else '+'] := by
    split <;> rfl
  unfold Layout.exponent
  dsimp only
  rw [String.toList_append, hsign]
  by_cases hshort : (toString e.natAbs).length < 2
  · rw [if_pos hshort]
    refine ⟨'0' :: Nat.toDigits 10 e.natAbs, ?_, ?_, List.cons_ne_nil _ _, ?_⟩
    · rw [String.toList_append, hdigits]
      rfl
    · rintro c (- | ⟨-, hc⟩)
      · rfl
      · exact isDigit_of_mem_toDigits hc
    · exact digitsValue_toDigits e.natAbs
  · rw [if_neg hshort]
    exact ⟨Nat.toDigits 10 e.natAbs, by rw [hdigits]; rfl, fun c => isDigit_of_mem_toDigits,
      Nat.toDigits_ne_nil, digitsValue_toDigits e.natAbs⟩

theorem cutSign_of_int (e : Int) (cs : List Char) :
    Number.cutSign ((if e < 0 then '-' else '+') :: cs) = (decide (e < 0), cs) := by
  by_cases he : e < 0
  · rw [if_pos he, decide_eq_true he]
    rfl
  · rw [if_neg he, decide_eq_false he]
    rfl

theorem readExponent_exponent (e : Int) {rest : List Char} (h : Ends rest) :
    readExponent ((Layout.exponent e).toList ++ rest) = (some e, rest) := by
  obtain ⟨ds, htext, hdigits, hne, hvalue⟩ := exists_exponent_eq e
  have hrun := digitRun_append hdigits h.head_not_digit
  obtain ⟨d, ds', rfl⟩ := List.exists_cons_of_ne_nil hne
  have hcut := cutSign_of_int e (d :: ds' ++ rest)
  rw [htext]
  simp only [List.cons_append] at hrun hcut ⊢
  simp [readExponent, hcut, hrun, hvalue, signed_natAbs]

/-- The exponent of some parts and what follows it. -/
theorem readExponent_elim (e : Option Int) {rest : List Char} (h : Ends rest) :
    readExponent (e.elim [] (fun e => (Layout.exponent e).toList) ++ rest) = (e, rest) := by
  cases e with
  | none => exact readExponent_of_ends h
  | some e => exact readExponent_exponent e h

/-- Neither an exponent nor what may follow a value continues digits or begins a fraction. -/
theorem head_elim (e : Option Int) {rest : List Char} (h : Ends rest) :
    ∀ c ∈ (e.elim [] (fun e => (Layout.exponent e).toList) ++ rest).head?,
      c.isDigit = false ∧ c ≠ '.' := by
  cases e with
  | none =>
    cases rest with
    | nil => simp
    | cons c cs => simpa using ⟨h.not_in_number.1, h.not_in_number.2.1⟩
  | some e =>
    obtain ⟨ds, htext, -⟩ := exists_exponent_eq e
    simp [htext]

theorem readFraction_append {ds rest : List Char} (digits : ∀ c ∈ ds, c.isDigit = true)
    (h : ∀ c ∈ rest.head?, c.isDigit = false ∧ c ≠ '.') :
    readFraction ((if ds = [] then [] else '.' :: ds) ++ rest) = (ds, rest) := by
  cases ds with
  | nil =>
    cases rest with
    | nil => rfl
    | cons c cs =>
      rw [if_pos rfl, List.nil_append]
      unfold readFraction
      split
      · next heq => cases heq; exact absurd rfl (h '.' rfl).2
      · rfl
  | cons d ds =>
    have hrun := digitRun_append digits fun c hc => (h c hc).1
    rw [if_neg (List.cons_ne_nil d ds), List.cons_append, readFraction, hrun]

theorem readFraction_digitChars {ds : List Nat} (digits : ∀ d ∈ ds, d < 10) {rest : List Char}
    (h : ∀ c ∈ rest.head?, c.isDigit = false ∧ c ≠ '.') :
    readFraction ((if ds = [] then [] else '.' :: Parts.digitChars ds) ++ rest) =
      (Parts.digitChars ds, rest) := by
  have hempty : Parts.digitChars ds = [] ↔ ds = [] := List.map_eq_nil_iff
  simp only [← hempty]
  exact readFraction_append (fun c => isDigit_of_mem_digitChars digits) h

theorem readWhole_digitChars {ds : List Nat} (digits : ∀ d ∈ ds, d < 10)
    (first : ds = [0] ∨ ∃ d ds', ds = d :: ds' ∧ 0 < d) {rest : List Char}
    (h : ∀ c ∈ rest.head?, c.isDigit = false) :
    readWhole (Parts.digitChars ds ++ rest) = some (Parts.digitChars ds, rest) := by
  refine readWhole_append (fun c => isDigit_of_mem_digitChars digits) ?_ h
  refine first.imp (fun h0 => by rw [h0]; rfl) ?_
  rintro ⟨d, ds, rfl, hd⟩
  refine ⟨Char.ofNat (d + 48), Parts.digitChars ds, rfl, ?_⟩
  have all : ∀ d < 10, 0 < d → Char.ofNat (d + 48) ≠ '0' := by decide
  exact all d (digits d List.mem_cons_self) hd

/-- Well-formed parts are read as the double nearest to their value. -/
theorem readUnsigned_parts (negative : Bool) {p : Parts} (hp : p.WellFormed) {rest : List Char}
    (h : Ends rest) :
    readUnsigned negative (p.text ++ rest) =
      .ok (.float (ofScientific negative (Number.ofDigits (p.whole ++ p.fraction))
        (p.exponent.getD 0 - p.fraction.length)), rest) := by
  have htail := head_elim p.exponent h
  have hfraction := readFraction_digitChars hp.fraction_digit htail
  have hpoint : ∀ c ∈ ((if p.fraction = [] then [] else '.' :: Parts.digitChars p.fraction) ++
      (p.exponent.elim [] (fun e => (Layout.exponent e).toList) ++ rest)).head?,
      c.isDigit = false := by
    split
    · exact fun c hc => (htail c hc).1
    · rintro c ⟨⟩
      rfl
  have hwhole := readWhole_digitChars hp.whole_digit hp.first hpoint
  have hnumber : ((Parts.digitChars p.fraction).isEmpty && p.exponent.isNone) = false := by
    rw [Bool.and_eq_false_iff]
    exact hp.double.imp (by simp [Parts.digitChars]) (by simp [Option.isSome_iff_ne_none])
  have hvalue : digitsValue (Parts.digitChars p.whole ++ Parts.digitChars p.fraction) =
      Number.ofDigits (p.whole ++ p.fraction) := by
    rw [Parts.digitChars, Parts.digitChars, ← List.map_append]
    exact digitsValue_digitChars hp.digit
  have hlength : (Parts.digitChars p.fraction).length = p.fraction.length := List.length_map _
  simp only [Parts.text, List.append_assoc]
  rw [readUnsigned, hwhole]
  dsimp only
  rw [hfraction]
  dsimp only
  rw [readExponent_elim p.exponent h]
  simp only [hnumber, hvalue, hlength, Bool.false_eq_true, if_false]

theorem exists_parts_text_eq_cons {p : Parts} (hp : p.WellFormed) :
    ∃ c cs, p.text = c :: cs ∧ c.isDigit = true := by
  have hfirst : ∃ d ds, p.whole = d :: ds := by
    rcases hp.first with h | ⟨d, ds, h, -⟩
    · exact ⟨0, [], h⟩
    · exact ⟨d, ds, h⟩
  obtain ⟨d, ds, hds⟩ := hfirst
  refine ⟨Char.ofNat (d + 48), _, by rw [Parts.text, hds]; rfl, ?_⟩
  refine isDigit_of_mem_digitChars hp.whole_digit ?_
  rw [hds]
  exact List.mem_cons_self

/-- The characters of a decimal. -/
theorem mem_parts_text {p : Parts} (hp : p.WellFormed) {c : Char} (h : c ∈ p.text) :
    c.isDigit = true ∨ c = '.' ∨ c = 'e' ∨ c = '+' ∨ c = '-' := by
  rw [Parts.text, List.mem_append, List.mem_append] at h
  rcases h with h | h | h
  · exact .inl (isDigit_of_mem_digitChars hp.whole_digit h)
  · split at h
    · cases h
    · rcases List.mem_cons.1 h with rfl | h
      · exact .inr (.inl rfl)
      · exact .inl (isDigit_of_mem_digitChars hp.fraction_digit h)
  · cases hexponent : p.exponent with
    | none =>
      rw [hexponent] at h
      cases h
    | some e =>
      obtain ⟨ds, htext, hds, -⟩ := exists_exponent_eq e
      rw [hexponent, Option.elim_some, htext] at h
      rcases List.mem_cons.1 h with rfl | h
      · decide
      rcases List.mem_cons.1 h with rfl | h
      · split <;> decide
      · exact .inl (hds c h)

theorem readScalar_parts (negative : Bool) {p : Parts} (hp : p.WellFormed) (rest : List Char) :
    readScalar (τ := τ) ((signText negative).toList ++ (p.text ++ rest)) =
      (readUnsigned negative (p.text ++ rest)).map fun (n, rest) => (.num n, rest) := by
  obtain ⟨c, cs, htext, hc⟩ := exists_parts_text_eq_cons hp
  rw [htext, List.cons_append]
  cases negative with
  | true => exact readScalar_minus hc (cs ++ rest)
  | false => exact readScalar_digit hc (cs ++ rest)

/-! ## The text of a double -/

/-- A finite double is written as parts that are read as it. -/
theorem exists_finite_text {x : Float} {s : Bool} {m : Nat} {e : Int}
    (h : ofFloat x = .finite s m e) :
    ∃ p : Parts, p.WellFormed ∧
      (numberText (.float x)).toList = (signText s).toList ++ p.text ∧
      ofScientific s (Number.ofDigits (p.whole ++ p.fraction))
        (p.exponent.getD 0 - p.fraction.length) = x := by
  simp only [numberText, h, exactText]
  cases m with
  | zero =>
    refine ⟨⟨[0], [0], none⟩, ⟨by decide, .inl rfl, .inl (by decide), by simp⟩,
      String.toList_append, ?_⟩
    rcases finite_cases h with ⟨-, -, hpack⟩ | ⟨hnormal, -⟩
    · exact hpack.symm
    · exact absurd hnormal (by decide)
  | succ k =>
    have hne : k + 1 ≠ 0 := Nat.succ_ne_zero k
    have hpositive := isPositive_of_ofFloat h hne
    obtain ⟨c, unit, hshortest, hrounds⟩ := Decimal.shortest_spec hpositive
    have hc : 0 < c := hrounds.count_pos hpositive
    obtain ⟨p, hp, htext, hvalue⟩ := exists_show (l := exact) rfl (Decimal.normal_ofCount hc unit)
    refine ⟨p, hp, ?_, ?_⟩
    · show (signText s ++ exact.text (Decimal.shortest (k + 1) e)).toList = _
      rw [hshortest, String.toList_append, htext]
    · refine ofScientific_of_roundsTo h hne ?_
      rw [← Decimal.value_ofCount, ← hvalue] at hrounds
      exact hrounds

theorem toList_numberText_nan {x : Float} (h : ofFloat x = .nan) :
    (numberText (.float x)).toList = "NaN".toList := by
  rw [numberText, h]

theorem toList_numberText_infinite {x : Float} {s : Bool} (h : ofFloat x = .infinite s) :
    (numberText (.float x)).toList = (signText s).toList ++ "Infinity".toList := by
  rw [numberText, h, String.toList_append]

theorem exists_floatText_eq_cons (x : Float) :
    ∃ c cs, (numberText (.float x)).toList = c :: cs ∧
      (c.isDigit = true ∨ c = '-' ∨ c = 'N' ∨ c = 'I') := by
  rcases ofFloat_cases x with ⟨hof, -⟩ | ⟨s, hof, -⟩ | ⟨s, m, hof, -⟩ | ⟨s, m, e, hof, -⟩
  · exact ⟨'N', ['a', 'N'], toList_numberText_nan hof, by decide⟩
  · rw [toList_numberText_infinite hof]
    cases s with
    | false => exact ⟨'I', "nfinity".toList, rfl, by decide⟩
    | true => exact ⟨'-', "Infinity".toList, rfl, by decide⟩
  all_goals
    obtain ⟨p, hp, htext, -⟩ := exists_finite_text hof
    obtain ⟨c, cs, hcs, hc⟩ := exists_parts_text_eq_cons hp
    rw [htext, hcs]
    cases s with
    | false => exact ⟨c, cs, rfl, .inl hc⟩
    | true => exact ⟨'-', c :: cs, rfl, .inr (.inl rfl)⟩

/-- The text of a double is read as it. -/
theorem readScalar_float (x : Float) {rest : List Char} (h : Ends rest) :
    readScalar ((numberText (.float x)).toList ++ rest) = .ok ((.float x : Json τ), rest) := by
  rcases ofFloat_cases x with ⟨hof, hx⟩ | ⟨s, hof, hx⟩ | ⟨s, m, hof, -⟩ | ⟨s, m, e, hof, -⟩
  · rw [toList_numberText_nan hof, hx]
    rfl
  · rw [toList_numberText_infinite hof, hx]
    cases s <;> rfl
  all_goals
    obtain ⟨p, hp, htext, hvalue⟩ := exists_finite_text hof
    rw [htext, List.append_assoc, readScalar_parts s hp, readUnsigned_parts s hp h, hvalue]
    rfl

end ImportAtlas.Json
