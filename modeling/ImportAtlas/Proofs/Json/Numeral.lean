import ImportAtlas.Proofs.Decimal.Digits
import ImportAtlas.Proofs.Json.Quoted

/-!
# Whole numbers in a document

The decimal digits of a whole number are read as that number, if there are not more of them than are
read and nothing follows that could belong to a number.
-/

namespace ImportAtlas.Json

variable {τ : Type}

/-- What may follow a value: nothing, white space, a comma or a closing bracket. -/
def Ends (cs : List Char) : Prop :=
  ∀ c ∈ cs.head?, isSpace c = true ∨ c = ',' ∨ c = ']' ∨ c = '\x7d'

theorem ends_nil : Ends [] := by simp [Ends]

theorem ends_cons {c : Char} (h : isSpace c = true ∨ c = ',' ∨ c = ']' ∨ c = '\x7d')
    (cs : List Char) : Ends (c :: cs) := by
  simpa [Ends] using h

/-- Nothing that may follow a value continues a number. -/
theorem Ends.not_in_number {c : Char} {cs : List Char} (h : Ends (c :: cs)) :
    c.isDigit = false ∧ c ≠ '.' ∧ c ≠ 'e' ∧ c ≠ 'E' := by
  have hc := h c rfl
  simp only [isSpace, Bool.or_eq_true, beq_iff_eq] at hc
  rcases hc with ((((rfl | rfl) | rfl) | rfl) | rfl | rfl | rfl) <;> decide

theorem readFraction_of_ends {cs : List Char} (h : Ends cs) : readFraction cs = ([], cs) := by
  cases cs with
  | nil => rfl
  | cons c cs =>
    unfold readFraction
    split
    · next heq => cases heq; exact absurd rfl h.not_in_number.2.1
    · rfl

theorem readExponent_of_ends {cs : List Char} (h : Ends cs) : readExponent cs = (none, cs) := by
  cases cs with
  | nil => rfl
  | cons c cs =>
    obtain ⟨-, -, he, hE⟩ := h.not_in_number
    simp [readExponent, he, hE]

/-! ## Digits -/

theorem Ends.head_not_digit {cs : List Char} (h : Ends cs) : ∀ c ∈ cs.head?, c.isDigit = false := by
  cases cs with
  | nil => simp
  | cons c cs => simpa using h.not_in_number.1

theorem digitRun_append {ds rest : List Char} (digits : ∀ c ∈ ds, c.isDigit = true)
    (h : ∀ c ∈ rest.head?, c.isDigit = false) : digitRun (ds ++ rest) = (ds, rest) := by
  have hrest : rest.takeWhile Char.isDigit = [] ∧ rest.dropWhile Char.isDigit = rest := by
    cases rest with
    | nil => exact ⟨rfl, rfl⟩
    | cons c cs => simp [h c rfl]
  rw [digitRun, List.takeWhile_append_of_pos digits, List.dropWhile_append_of_pos digits, hrest.1,
    hrest.2, List.append_nil]

theorem digitsValue_toDigits (n : Nat) : digitsValue (Nat.toDigits 10 n) = n :=
  Decimal.ofDigits_digitsOf n

theorem isDigit_of_mem_toDigits {n : Nat} {c : Char} (h : c ∈ Nat.toDigits 10 n) :
    c.isDigit = true :=
  Nat.isDigit_of_mem_toDigits (by decide) (by decide) h

/-- Digits are read up to what is no digit, if a zero stands in front only alone. -/
theorem readWhole_append {ds rest : List Char} (digits : ∀ c ∈ ds, c.isDigit = true)
    (first : ds = ['0'] ∨ ∃ c cs, ds = c :: cs ∧ c ≠ '0')
    (h : ∀ c ∈ rest.head?, c.isDigit = false) : readWhole (ds ++ rest) = some (ds, rest) := by
  rcases first with rfl | ⟨c, cs, rfl, hc⟩
  · rfl
  · have hrun := digitRun_append digits h
    rw [List.cons_append] at hrun ⊢
    unfold readWhole
    split
    · next heq => cases heq; exact absurd rfl hc
    · rw [hrun]

theorem readWhole_toDigits (n : Nat) {rest : List Char} (h : Ends rest) :
    readWhole (Nat.toDigits 10 n ++ rest) = some (Nat.toDigits 10 n, rest) := by
  refine readWhole_append (fun _ => isDigit_of_mem_toDigits) ?_ h.head_not_digit
  rcases Nat.eq_zero_or_pos n with rfl | hn
  · exact .inl (Nat.toDigits_zero 10)
  · obtain ⟨c, cs, hcs, -, hzero⟩ := Decimal.exists_toDigits_eq_cons n
    exact .inr ⟨c, cs, hcs, hzero hn⟩

/-- The digits of a number that is not too long are read as it. -/
theorem readUnsigned_toDigits (negative : Bool) {n : Nat} {rest : List Char}
    (short : (Nat.toDigits 10 n).length ≤ Number.digitLimit) (h : Ends rest) :
    readUnsigned negative (Nat.toDigits 10 n ++ rest) =
      .ok (.int (Binary.signed negative n), rest) := by
  rw [readUnsigned, readWhole_toDigits n h]
  simp only [readFraction_of_ends h, readExponent_of_ends h, List.isEmpty_nil, Option.isNone_none,
    Bool.and_self, if_true, if_neg (Nat.not_lt.2 short), digitsValue_toDigits]

/-! ## Signs -/

/-- No word of the grammar begins with a digit, or with a digit after a sign. -/
theorem constants_of_digit {c : Char} (h : c.isDigit = true) (cs : List Char) :
    (constants (τ := τ)).findSome? (fun (w, v) => (Text.after? w (c :: cs)).map (v, ·)) = none ∧
      (constants (τ := τ)).findSome? (fun (w, v) => (Text.after? w ('-' :: c :: cs)).map (v, ·)) =
        none := by
  have hne : ∀ d : Char, d.isDigit = false → d ≠ c := by
    rintro d hd rfl
    rw [h] at hd
    cases hd
  simp [constants, Text.after?, hne]

theorem readScalar_digit {c : Char} (h : c.isDigit = true) (cs : List Char) :
    readScalar (τ := τ) (c :: cs) =
      (readUnsigned false (c :: cs)).map fun (n, rest) => (.num n, rest) := by
  have hsign : readNumber (c :: cs) = readUnsigned false (c :: cs) := by
    unfold readNumber
    split
    · next heq => cases heq; cases h
    · rfl
  rw [readScalar, (constants_of_digit h cs).1, hsign]

theorem readScalar_minus {c : Char} (h : c.isDigit = true) (cs : List Char) :
    readScalar (τ := τ) ('-' :: c :: cs) =
      (readUnsigned true (c :: cs)).map fun (n, rest) => (.num n, rest) := by
  rw [readScalar, (constants_of_digit h cs).2, readNumber]

/-- A whole number that can be written is read as itself. -/
theorem readScalar_int {i : Int} {rest : List Char} (writable : numberWritable (.int i) = true)
    (h : Ends rest) :
    readScalar ((numberText (.int i)).toList ++ rest) = .ok ((.int i : Json τ), rest) := by
  have short : (Nat.toDigits 10 i.natAbs).length ≤ Number.digitLimit := of_decide_eq_true writable
  have hunsigned (negative : Bool) := readUnsigned_toDigits negative short h
  obtain ⟨c, cs, hcs, hc, -⟩ := Decimal.exists_toDigits_eq_cons i.natAbs
  rw [hcs, List.cons_append] at hunsigned
  rw [numberText, Int.toString_eq_repr, Int.repr_eq_if]
  split
  · next hi =>
    rw [Nat.toList_repr, show i.toNat = i.natAbs by omega, hcs, List.cons_append,
      readScalar_digit hc, hunsigned, Binary.signed, if_neg (by decide), show (i.natAbs : Int) = i by omega]
    rfl
  · next hi =>
    rw [String.toList_append, Nat.toList_repr, show (-i).toNat = i.natAbs by omega, hcs]
    show readScalar ('-' :: c :: (cs ++ rest)) = _
    rw [readScalar_minus hc, hunsigned, Binary.signed, if_pos rfl,
      show -(i.natAbs : Int) = i by omega]
    rfl

end ImportAtlas.Json
