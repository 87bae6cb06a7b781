import ImportAtlas.Proofs.Json.RoundTrip

/-!
# The characters of a document

Texts and numbers are written in printable ASCII, so any other character of a document comes from
the style that sets its parts apart.
-/

namespace ImportAtlas.Json

open Layout Binary

variable {τ : Type} [Wording τ]

/-- A printable character of ASCII. -/
def Printable (c : Char) : Prop := 32 ≤ c.toNat ∧ c.toNat < 127

instance (c : Char) : Decidable (Printable c) := inferInstanceAs (Decidable (_ ∧ _))

/-- A check of each character of a text in turn. Asked for the quantifier itself, an instance may go
through every character there is. -/
theorem forall_mem_of_all {p : Char → Prop} [DecidablePred p] {cs : List Char}
    (h : cs.all (fun c => decide (p c)) = true) : ∀ c ∈ cs, p c :=
  fun c hc => of_decide_eq_true (List.all_eq_true.1 h c hc)

theorem printable_of_isDigit {c : Char} (h : c.isDigit = true) : Printable c := by
  obtain ⟨h₁, h₂⟩ := Decimal.isDigit_iff.1 h
  exact ⟨by omega, by omega⟩

theorem printable_unitEscape (u : UInt16) : ∀ c ∈ unitEscape u, Printable c := by
  have hdigit (n : Nat) : Printable (hexDigit (n % 16)) := by
    have all : ∀ m, m < 16 → Printable (hexDigit m) := by decide
    exact all _ (Nat.mod_lt _ (by decide))
  have hopen : Printable '\\' ∧ Printable 'u' := by decide
  simp [unitEscape, hdigit, hopen]

theorem printable_escapeUnit (u : UInt16) : ∀ d ∈ escapeUnit u, Printable d := by
  unfold escapeUnit
  split
  any_goals
    apply forall_mem_of_all
    decide
  split
  · next h =>
    simp only [Bool.and_eq_true, decide_eq_true_eq] at h
    have hchar : (Char.ofNat u.toNat).toNat = u.toNat := by
      rw [Char.ofNat, dif_pos (.inl (by omega))]
      rfl
    exact List.forall_mem_singleton.2 ⟨by omega, by omega⟩
  · exact printable_unitEscape u

theorem printable_quote (s : τ) : ∀ c ∈ (quote s).toList, Printable c := by
  have hquote : Printable '"' := by decide
  intro c hc
  simp only [toList_quote, List.mem_cons, List.mem_append, List.mem_flatMap, List.not_mem_nil,
    or_false] at hc
  rcases hc with rfl | ⟨d, -, hd⟩ | rfl
  · exact hquote
  · exact printable_escapeUnit d c hd
  · exact hquote

theorem printable_parts {p : Parts} (hp : p.WellFormed) : ∀ c ∈ p.text, Printable c := by
  intro c hc
  rcases mem_parts_text hp hc with hdigit | rfl | rfl | rfl | rfl
  · exact printable_of_isDigit hdigit
  all_goals decide

theorem printable_floatText (x : Float) : ∀ c ∈ (numberText (.float x)).toList, Printable c := by
  have hsign (s : Bool) : ∀ c ∈ (signText s).toList, Printable c := by
    cases s <;> exact forall_mem_of_all (by decide)
  rcases ofFloat_cases x with ⟨hof, -⟩ | ⟨s, hof, -⟩ | ⟨s, m, hof, -⟩ | ⟨s, m, e, hof, -⟩
  · rw [toList_numberText_nan hof]
    exact forall_mem_of_all (by decide)
  · rw [toList_numberText_infinite hof]
    cases s <;> exact forall_mem_of_all (by decide)
  all_goals
    obtain ⟨p, hp, htext, -⟩ := exists_finite_text hof
    rw [htext]
    exact List.forall_mem_append.2 ⟨hsign s, printable_parts hp⟩

theorem printable_numberText (n : Number) : ∀ c ∈ (numberText n).toList, Printable c := by
  cases n with
  | float x => exact printable_floatText x
  | int i =>
    have hdigits (n : Nat) : ∀ c ∈ Nat.toDigits 10 n, Printable c :=
      fun c hc => printable_of_isDigit (isDigit_of_mem_toDigits hc)
    have hminus : Printable '-' := by decide
    rw [numberText, Int.toString_eq_repr, Int.repr_eq_if]
    split <;> simp [hminus] <;> exact hdigits _

section Style

variable {st : Style} {p : Char → Prop} (hprint : ∀ c, Printable c → p c)
  (hbreak : ∀ level, ∀ c ∈ (st.breakAt level).toList, p c) (hcomma : ∀ c ∈ st.afterComma.toList, p c)

include hprint hbreak hcomma

theorem forall_mem_renderItems {vs : List (Json τ)} {level : Nat}
    (h : ∀ v ∈ vs, ∀ c ∈ (render st level v).toList, p c) :
    ∀ c ∈ (renderItems st level vs).toList, p c := by
  have hmark : p ',' := hprint _ (by decide)
  induction vs with
  | nil => simp [renderItems]
  | cons v vs ih =>
    obtain ⟨hv, hvs⟩ := List.forall_mem_cons.1 h
    simp only [renderItems, String.toList_append, List.forall_mem_append]
    exact ⟨⟨⟨⟨by simpa using hmark, hcomma⟩, hbreak level⟩, hv⟩, ih hvs⟩

theorem forall_mem_renderMembers {ms : List (τ × Json τ)} {level : Nat}
    (h : ∀ m ∈ ms, ∀ c ∈ (render st level m.2).toList, p c) :
    ∀ c ∈ (renderMembers st level ms).toList, p c := by
  have hmark : p ',' ∧ p ':' ∧ p ' ' :=
    ⟨hprint _ (by decide), hprint _ (by decide), hprint _ (by decide)⟩
  induction ms with
  | nil => simp [renderMembers]
  | cons m ms ih =>
    obtain ⟨hm, hms⟩ := List.forall_mem_cons.1 h
    have hkey : ∀ c ∈ (quote m.1).toList, p c := fun c hc => hprint c (printable_quote _ c hc)
    simp only [renderMembers, String.toList_append, List.forall_mem_append]
    exact ⟨⟨⟨⟨⟨⟨by simpa using hmark.1, hcomma⟩, hbreak level⟩, hkey⟩, by simpa using hmark.2⟩, hm⟩,
      ih hms⟩

/-- What holds of the printable characters and of what a style sets parts apart with holds of every
character of a document. -/
theorem Plain.forall_mem_render {v : Json τ} (h : Plain v) (level : Nat) :
    ∀ c ∈ (render st level v).toList, p c := by
  have hword {text : String} (htext : ∀ c ∈ text.toList, Printable c) : ∀ c ∈ text.toList, p c :=
    fun c hc => hprint c (htext c hc)
  have hmark {text : String} (htext : text.toList.all (fun c => decide (Printable c)) = true) :
      ∀ c ∈ text.toList, p c := hword (forall_mem_of_all htext)
  induction h generalizing level with
  | null => rw [render]; exact hmark (by decide)
  | bool b => cases b <;> rw [render] <;> exact hmark (by decide)
  | num n => rw [render]; exact hword (printable_numberText n)
  | str s => rw [render]; exact hword (printable_quote s)
  | @arr vs items ih =>
    cases vs with
    | nil => rw [render]; exact hmark (by decide)
    | cons v vs =>
      obtain ⟨hv, hvs⟩ := List.forall_mem_cons.1 ih
      have hitems := forall_mem_renderItems hprint hbreak hcomma fun u hu => hvs u hu (level + 1)
      simp only [render, String.toList_append, List.forall_mem_append]
      exact ⟨⟨⟨⟨⟨hmark (by decide), hbreak _⟩, hv _⟩, hitems⟩, hbreak level⟩, hmark (by decide)⟩
  | @obj ms keys values ih =>
    cases ms with
    | nil => rw [render]; exact hmark (by decide)
    | cons m ms =>
      obtain ⟨hm, hms⟩ := List.forall_mem_cons.1 ih
      have hmembers := forall_mem_renderMembers hprint hbreak hcomma fun n hn => hms n hn (level + 1)
      simp only [render, String.toList_append, List.forall_mem_append]
      exact ⟨⟨⟨⟨⟨⟨⟨hmark (by decide), hbreak _⟩, hword (printable_quote _)⟩, hmark (by decide)⟩,
        hm _⟩, hmembers⟩, hbreak level⟩, hmark (by decide)⟩

end Style

end ImportAtlas.Json
