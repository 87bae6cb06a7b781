import ImportAtlas.Types.Definition
import ImportAtlas.Proofs.Declaration.Scanned
import ImportAtlas.Proofs.Declaration.Tokens

/-!
# Definitions of types

A type has a capitalised name of ASCII letters, digits and low lines (`TypeName`), which is a word
as the names of bindings are. What is recognised as a definition is `export`, one of the two
keywords and such a name.
-/

namespace ImportAtlas

open Text Recogniser

/-- A capitalised name. -/
structure TypeName where
  first : Char
  others : List Char
  upper : first.isUpper = true
  plain : others.all TypeDefinition.isNameChar = true

namespace TypeName

def chars (t : TypeName) : List Char := t.first :: t.others

/-- The name as a text. -/
def text (t : TypeName) : String := String.ofList t.chars

@[simp] theorem toList_text (t : TypeName) : t.text.toList = t.chars := String.toList_ofList

/-- The characters of a name are ASCII. -/
theorem toNat_lt_of_isNameChar {c : Char} (h : TypeDefinition.isNameChar c = true) :
    c.toNat < 128 := by
  have hle {d : Char} (hd : d.toNat < 128) (h : c ≤ d) : c.toNat < 128 :=
    Nat.lt_of_le_of_lt (UInt32.le_iff_toNat_le.1 h) hd
  rw [TypeDefinition.isNameChar, Bool.or_eq_true, beq_iff_eq] at h
  rcases h with h | rfl
  · rcases (Bool.or_eq_true _ _).mp h with h | h
    · rcases (Bool.or_eq_true _ _).mp h with h | h
      · exact hle (d := 'Z') (by decide) (of_decide_eq_true h).2
      · exact hle (d := 'z') (by decide) (of_decide_eq_true ((Bool.and_eq_true _ _).mp h).2)
    · exact hle (d := '9') (by decide) (of_decide_eq_true ((Bool.and_eq_true _ _).mp h).2)
  · decide

theorem isWord_of_isNameChar {c : Char} (h : TypeDefinition.isNameChar c = true) :
    isWord c = true := by
  rw [isWord, if_pos (toNat_lt_of_isNameChar h)]
  exact h

theorem isWord_first (t : TypeName) : isWord t.first = true := by
  have halpha : t.first.isAlpha = true := (Bool.or_eq_true _ _).mpr (.inl t.upper)
  refine isWord_of_isNameChar ?_
  rw [TypeDefinition.isNameChar, Bool.or_eq_true]
  exact .inl ((Bool.or_eq_true _ _).mpr (.inl halpha))

/-- A capitalised name is a word. -/
def identifier (t : TypeName) : Identifier where
  chars := t.chars
  word := by
    rw [chars, List.all_cons, t.isWord_first, Bool.true_and, List.all_eq_true]
    exact fun c hc => isWord_of_isNameChar (List.all_eq_true.1 t.plain c hc)
  ne_nil := List.cons_ne_nil _ _

@[simp] theorem chars_identifier (t : TypeName) : t.identifier.chars = t.chars := rfl

/-- A keyword is not a capitalised name. -/
theorem ne_of_isUpper (t : TypeName) {w : List Char} (hw : w.head?.any Char.isUpper = false) :
    w ≠ t.chars := by
  rintro rfl
  rw [chars, List.head?_cons, Option.any_some, t.upper] at hw
  cases hw

/-- The name `User`. -/
def user : TypeName := ⟨'U', "ser".toList, by decide, by decide⟩

end TypeName

namespace TypeDefinition

variable {cs rest name : List Char}

theorem exists_of_name? (h : name? cs = some (name, rest)) :
    ∃ t : TypeName, t.chars = name ∧ cs = t.chars ++ rest := by
  cases cs with
  | nil => cases h
  | cons c cs =>
    rw [name?] at h
    split at h
    · next hupper =>
      obtain ⟨rfl, rfl⟩ := Prod.mk.inj (Option.some.inj h)
      refine ⟨⟨c, cs.takeWhile isNameChar, hupper, List.all_takeWhile⟩, rfl, ?_⟩
      rw [TypeName.chars, List.cons_append, List.takeWhile_append_dropWhile]
    · cases h

/-- What is recognised is spelled as a definition. -/
theorem exists_of_at? {a : TypeKind × List Char} (h : at? cs = some (a, rest)) :
    ∃ (afterExport afterKind : Space) (t : TypeName), t.chars = a.2 ∧
      cs = ("export".toList ++ (afterExport.chars ++
        (a.1.keyword.toList ++ (afterKind.chars ++ t.chars)))) ++ rest := by
  simp only [at?, Option.bind_eq_bind, Option.bind_eq_some_iff, Option.pure_def] at h
  obtain ⟨r, hexport, ⟨kind, q⟩, hkind, ⟨n, _⟩, hname, heq⟩ := h
  obtain ⟨rfl, rfl⟩ := Prod.mk.inj (Option.some.inj heq)
  obtain ⟨k, -, hfound⟩ := List.exists_of_findSome?_eq_some hkind
  obtain ⟨q', hkeyword, heq⟩ := Option.map_eq_some_iff.1 hfound
  obtain ⟨rfl, rfl⟩ := Prod.mk.inj heq
  obtain ⟨afterExport, rfl, -⟩ := keyword?_eq_some_iff.1 hexport
  obtain ⟨afterKind, rfl, -⟩ := keyword?_eq_some_iff.1 hkeyword
  obtain ⟨t, ht, rfl⟩ := exists_of_name? hname
  exact ⟨afterExport, afterKind, t, ht, by simp only [List.append_assoc]⟩

theorem opens_at? : Recogniser.Opens "export".toList at? where
  ne_nil := by decide
  exists_text h := by
    obtain ⟨_, _, _, -, hcs⟩ := exists_of_at? h
    exact ⟨_, List.prefix_append _ _, hcs⟩

end TypeDefinition

end ImportAtlas
