import ImportAtlas.Proofs.Json.Double

/-!
# Documents are read as they were written

A value without repeated keys is read from its text, in every style that sets parts apart by white
space. Values are written in front of an arbitrary rest, and the length of their text
bounds the steps of the reader, so one induction over the value carries the proof.
-/

namespace ImportAtlas.Json

variable {τ : Type}

/-- A value whose objects do not repeat a key. -/
inductive Plain : Json τ → Prop
  | null : Plain .null
  | bool (b : Bool) : Plain (.bool b)
  | num (n : Number) : Plain (.num n)
  | str (s : τ) : Plain (.str s)
  | arr {vs : List (Json τ)} (items : ∀ v ∈ vs, Plain v) : Plain (.arr vs)
  | obj {ms : List (τ × Json τ)} (keys : (ms.map (·.1)).Nodup) (values : ∀ m ∈ ms, Plain m.2) :
      Plain (.obj ms)

/-- A style that sets parts apart by white space only. -/
structure Style.Blank (st : Style) : Prop where
  breakAt : ∀ level, ∀ c ∈ (st.breakAt level).toList, isSpace c = true
  afterComma : ∀ c ∈ st.afterComma.toList, isSpace c = true

theorem itemsWritable_iff {vs : List (Json τ)} :
    itemsWritable vs = true ↔ ∀ v ∈ vs, v.isWritable = true := by
  induction vs with
  | nil => simp [itemsWritable]
  | cons v vs ih => simp [itemsWritable, ih]

theorem membersWritable_iff {ms : List (τ × Json τ)} :
    membersWritable ms = true ↔ ∀ m ∈ ms, m.2.isWritable = true := by
  induction ms with
  | nil => simp [membersWritable]
  | cons m ms ih => simp [membersWritable, ih]

/-! ## Members without repeated keys -/

theorem setMember_of_notMem [DecidableEq τ] {key : τ} {value : Json τ} {ms : List (τ × Json τ)}
    (h : key ∉ ms.map (·.1)) : setMember key value ms = ms ++ [(key, value)] := by
  induction ms with
  | nil => rfl
  | cons m ms ih =>
    obtain ⟨hm, hms⟩ := List.ne_and_not_mem_of_not_mem_cons h
    rw [setMember, if_neg (Ne.symm hm), ih hms, List.cons_append]

theorem foldl_setMember [DecidableEq τ] {ms acc : List (τ × Json τ)}
    (h : ((acc ++ ms).map (·.1)).Nodup) :
    ms.foldl (fun acc m => setMember m.1 m.2 acc) acc = acc ++ ms := by
  induction ms generalizing acc with
  | nil => rw [List.append_nil, List.foldl_nil]
  | cons m ms ih =>
    have hnew : m.1 ∉ acc.map (·.1) := by
      rw [List.map_append, List.map_cons, List.nodup_append] at h
      exact fun hm => h.2.2 _ hm _ List.mem_cons_self rfl
    rw [List.foldl_cons, setMember_of_notMem hnew, ih (by simpa using h), List.append_assoc]
    rfl

theorem ofMembers_of_nodup [DecidableEq τ] {ms : List (τ × Json τ)} (h : (ms.map (·.1)).Nodup) :
    ofMembers ms = .obj ms := by
  rw [ofMembers, foldl_setMember (by simpa using h), List.nil_append]

/-! ## White space -/

theorem skipSpace_append {ws : List Char} (blank : ∀ c ∈ ws, isSpace c = true) (cs : List Char) :
    skipSpace (ws ++ cs) = skipSpace cs :=
  List.dropWhile_append_of_pos blank

theorem skipSpace_cons {c : Char} (h : isSpace c = false) (cs : List Char) :
    skipSpace (c :: cs) = c :: cs := by
  simp [skipSpace, h]

theorem ends_append {ws : List Char} (blank : ∀ c ∈ ws, isSpace c = true) {cs : List Char}
    (h : Ends cs) : Ends (ws ++ cs) := by
  cases ws with
  | nil => exact h
  | cons w ws => exact ends_cons (.inl (blank w List.mem_cons_self)) _

/-- A text that begins with something other than white space and a closing bracket. -/
def Opens (cs : List Char) : Prop :=
  ∃ c, cs.head? = some c ∧ isSpace c = false ∧ c ≠ ']'

theorem Opens.eq_cons {cs : List Char} (h : Opens cs) :
    ∃ c ds, cs = c :: ds ∧ isSpace c = false ∧ c ≠ ']' := by
  obtain ⟨c, hc, hspace, hclose⟩ := h
  cases cs with
  | nil => cases hc
  | cons d ds => cases hc; exact ⟨_, ds, rfl, hspace, hclose⟩

theorem Style.Blank.skipSpace_afterComma {st : Style} (hst : st.Blank) {cs : List Char}
    (h : Opens cs) (level : Nat) (rest : List Char) :
    skipSpace (st.afterComma.toList ++ ((st.breakAt level).toList ++ (cs ++ rest))) =
      cs ++ rest := by
  obtain ⟨c, ds, rfl, hc, -⟩ := h.eq_cons
  rw [skipSpace_append hst.afterComma, skipSpace_append (hst.breakAt level), List.cons_append,
    skipSpace_cons hc]

/-- A number is written with a digit, a sign or the first letter of a word in front. -/
theorem exists_numberText_eq_cons (n : Number) :
    ∃ c cs, (numberText n).toList = c :: cs ∧
      (c.isDigit = true ∨ c = '-' ∨ c = 'N' ∨ c = 'I') := by
  cases n with
  | float x => exact exists_floatText_eq_cons x
  | int i =>
    rw [numberText, Int.toString_eq_repr, Int.repr_eq_if]
    split
    · obtain ⟨c, cs, hcs, hc, -⟩ := Decimal.exists_toDigits_eq_cons i.toNat
      exact ⟨c, cs, Nat.toList_repr.trans hcs, .inl hc⟩
    · exact ⟨'-', _, String.toList_append, .inr (.inl rfl)⟩

theorem opens_numberText (n : Number) : Opens (numberText n).toList := by
  obtain ⟨c, cs, hcs, hc⟩ := exists_numberText_eq_cons n
  refine ⟨c, by rw [hcs]; rfl, ?_, ?_⟩
  · rw [Bool.eq_false_iff]
    intro hspace
    have hdigit := (ends_cons (.inl hspace) []).not_in_number.1
    rcases hc with hc | rfl | rfl | rfl
    · rw [hdigit] at hc
      cases hc
    all_goals cases hspace
  · rintro rfl
    revert hc
    decide

variable [Wording τ]

theorem opens_quote (s : τ) : Opens (quote s).toList :=
  ⟨'"', by simp [toList_quote], rfl, by decide⟩

theorem Plain.opens {v : Json τ} (h : Plain v) (st : Style) (level : Nat) :
    Opens (render st level v).toList := by
  cases h with
  | null => exact ⟨'n', by simp [render], rfl, by decide⟩
  | bool b =>
    cases b with
    | true => exact ⟨'t', by simp [render], rfl, by decide⟩
    | false => exact ⟨'f', by simp [render], rfl, by decide⟩
  | num n => rw [render]; exact opens_numberText n
  | str s => rw [render]; exact opens_quote s
  | @arr vs =>
    refine ⟨'[', ?_, rfl, by decide⟩
    cases vs <;> simp [render]
  | @obj ms =>
    refine ⟨'\x7b', ?_, rfl, by decide⟩
    cases ms <;> simp [render]

/-! ## One value in front of a rest -/

variable [DecidableEq τ]

/-- A value is read from its text, whatever may follow it, in as many steps as its text is long. -/
def ReadsBack (st : Style) (v : Json τ) : Prop :=
  ∀ (level fuel : Nat) (rest : List Char), Ends rest → (render st level v).toList.length ≤ fuel →
    readValue fuel ((render st level v).toList ++ rest) = .ok (v, rest)

theorem readValue_scalar {c : Char} (hquote : c ≠ '"') (harr : c ≠ '[') (hobj : c ≠ '\x7b')
    (fuel : Nat) (cs : List Char) :
    readValue (fuel + 1) (c :: cs) = readScalar (τ := τ) (c :: cs) := by
  rw [readValue]
  · rintro ds heq; cases heq; exact hquote rfl
  · rintro ds heq; cases heq; exact harr rfl
  · rintro ds heq; cases heq; exact hobj rfl

/-- The items of a list are read up to its closing bracket. -/
theorem readItems_render {st : Style} (hst : st.Blank) {level : Nat} {closing : List Char}
    (blank : ∀ c ∈ closing, isSpace c = true) (rest : List Char) {v : Json τ} {vs : List (Json τ)}
    (back : ∀ w ∈ v :: vs, ReadsBack st w) (opens : ∀ w ∈ v :: vs, Opens (render st level w).toList)
    {fuel : Nat}
    (enough : (render st level v).toList.length + (renderItems st level vs).toList.length < fuel) :
    readItems fuel ((render st level v).toList ++ ((renderItems st level vs).toList ++
      (closing ++ ']' :: rest))) = .ok (v :: vs, rest) := by
  induction vs generalizing v fuel with
  | nil =>
    obtain _ | fuel := fuel
    · omega
    have hends : Ends (closing ++ ']' :: rest) := ends_append blank (ends_cons (by simp) rest)
    have hv := back v List.mem_cons_self level fuel _ hends (by omega)
    have hskip : skipSpace (closing ++ ']' :: rest) = ']' :: rest := by
      rw [skipSpace_append blank, skipSpace_cons rfl]
    simp [readItems, renderItems, hv, hskip, bind, Except.bind, pure, Except.pure]
  | cons w ws ih =>
    obtain _ | fuel := fuel
    · omega
    have hlength : (renderItems st level (w :: ws)).toList.length =
        1 + st.afterComma.toList.length + (st.breakAt level).toList.length +
          (render st level w).toList.length + (renderItems st level ws).toList.length := by
      simp [renderItems]
      omega
    let next := (render st level w).toList ++ ((renderItems st level ws).toList ++
      (closing ++ ']' :: rest))
    have htext : (renderItems st level (w :: ws)).toList ++ (closing ++ ']' :: rest) =
        ',' :: (st.afterComma.toList ++ ((st.breakAt level).toList ++ next)) := by
      simp [renderItems, next]
    have hends : Ends ((renderItems st level (w :: ws)).toList ++ (closing ++ ']' :: rest)) := by
      rw [htext]
      exact ends_cons (.inr (.inl rfl)) _
    have hv := back v List.mem_cons_self level fuel _ hends (by omega)
    have hless : (render st level w).toList.length + (renderItems st level ws).toList.length <
        fuel := by omega
    have hws := ih (fun u hu => back u (List.mem_cons_of_mem _ hu))
      (fun u hu => opens u (List.mem_cons_of_mem _ hu)) hless
    have hskip := hst.skipSpace_afterComma (opens w (by simp)) level
      ((renderItems st level ws).toList ++ (closing ++ ']' :: rest))
    have hcomma (cs : List Char) : skipSpace (',' :: cs) = ',' :: cs := skipSpace_cons rfl cs
    rw [readItems, hv, htext]
    simp [hcomma, hskip, next, hws, bind, Except.bind, pure, Except.pure]

theorem readValue_items {fuel : Nat} {cs text rest : List Char} {vs : List (Json τ)}
    (opens : Opens text) (skip : skipSpace cs = text ++ rest) {rest' : List Char}
    (items : readItems fuel (text ++ rest) = .ok (vs, rest')) :
    readValue (fuel + 1) ('[' :: cs) = .ok (.arr vs, rest') := by
  obtain ⟨c, ds, rfl, -, hclose⟩ := opens.eq_cons
  rw [readValue, skip]
  split
  · next heq => cases heq; exact absurd rfl hclose
  · rw [items]
    rfl

theorem readValue_members {fuel : Nat} {cs text rest : List Char} {k : τ}
    {ms : List (τ × Json τ)} (skip : skipSpace cs = (quote k).toList ++ rest)
    (members : readMembers fuel ((quote k).toList ++ rest) = .ok (ms, text)) :
    readValue (fuel + 1) ('\x7b' :: cs) = .ok (ofMembers ms, text) := by
  rw [readValue, skip]
  split
  · next heq => simp [toList_quote] at heq
  · rw [members]
    rfl

theorem readValue_num {n : Number} (writable : numberWritable n = true) (fuel : Nat)
    {rest : List Char} (h : Ends rest) :
    readValue (fuel + 1) ((numberText n).toList ++ rest) = .ok ((.num n : Json τ), rest) := by
  have hread : readScalar ((numberText n).toList ++ rest) = .ok ((.num n : Json τ), rest) := by
    cases n with
    | int i => exact readScalar_int writable h
    | float x => exact readScalar_float x h
  obtain ⟨c, cs, hcs, hc⟩ := exists_numberText_eq_cons n
  rw [hcs, List.cons_append] at hread ⊢
  rw [readValue_scalar, hread]
  all_goals
    rintro rfl
    revert hc
    decide

theorem readValue_arr {st : Style} (hst : st.Blank) {vs : List (Json τ)} {level fuel : Nat}
    (back : ∀ v ∈ vs, ReadsBack st v)
    (opens : ∀ v ∈ vs, Opens (render st (level + 1) v).toList)
    (enough : (render st level (.arr vs)).toList.length ≤ fuel + 1) (rest : List Char) :
    readValue (fuel + 1) ((render st level (.arr vs)).toList ++ rest) = .ok (.arr vs, rest) := by
  cases vs with
  | nil => rw [render]; rfl
  | cons v vs =>
    have htext : (render st level (.arr (v :: vs))).toList ++ rest =
        '[' :: ((st.breakAt (level + 1)).toList ++ ((render st (level + 1) v).toList ++
          ((renderItems st (level + 1) vs).toList ++
            ((st.breakAt level).toList ++ ']' :: rest)))) := by
      simp [render]
    have hskip : skipSpace ((st.breakAt (level + 1)).toList ++ ((render st (level + 1) v).toList ++
        ((renderItems st (level + 1) vs).toList ++ ((st.breakAt level).toList ++ ']' :: rest)))) =
        (render st (level + 1) v).toList ++ ((renderItems st (level + 1) vs).toList ++
          ((st.breakAt level).toList ++ ']' :: rest)) := by
      obtain ⟨c, ds, hv, hc, -⟩ := (opens v List.mem_cons_self).eq_cons
      rw [skipSpace_append (hst.breakAt _), hv, List.cons_append, skipSpace_cons hc]
    simp only [render, String.toList_append, List.length_append] at enough
    rw [htext]
    exact readValue_items (opens v List.mem_cons_self) hskip
      (readItems_render hst (hst.breakAt level) rest back opens (by simp at enough; omega))

variable [LawfulWording τ]

/-- A member in front of a rest: after a comma the reader goes on, and a brace ends the object. -/
theorem readMembers_member {m : τ × Json τ} {text rest : List Char} {fuel : Nat}
    (opens : Opens text) (value : readValue fuel (text ++ rest) = .ok (m.2, rest)) :
    (∀ r, skipSpace rest = ',' :: r →
      readMembers (fuel + 1) ((quote m.1).toList ++ ':' :: ' ' :: (text ++ rest)) =
        (readMembers fuel (skipSpace r)).map fun p => (m :: p.1, p.2)) ∧
    (∀ r, skipSpace rest = '\x7d' :: r →
      readMembers (fuel + 1) ((quote m.1).toList ++ ':' :: ' ' :: (text ++ rest)) =
        .ok ([m], r)) := by
  have hkey : (quote m.1).toList ++ ':' :: ' ' :: (text ++ rest) =
      '"' :: ((Wording.units m.1).flatMap escapeUnit ++ '"' :: ':' :: ' ' :: (text ++ rest)) := by
    simp [toList_quote]
  have hcolon (cs : List Char) : skipSpace (':' :: cs) = ':' :: cs := skipSpace_cons rfl cs
  have hvalue : skipSpace (' ' :: (text ++ rest)) = text ++ rest := by
    obtain ⟨c, ds, rfl, hc, -⟩ := opens.eq_cons
    exact skipSpace_cons hc _
  rw [hkey, readMembers, readString_quote]
  simp only [hcolon, hvalue, value, bind, Except.bind, pure, Except.pure]
  constructor
  · intro r hr
    simp only [hr]
    cases readMembers (τ := τ) fuel (skipSpace r) <;> rfl
  · intro r hr
    rw [hr]
    rfl

/-- The members of an object are read up to its closing brace. -/
theorem readMembers_render {st : Style} (hst : st.Blank) {level : Nat} {closing : List Char}
    (blank : ∀ c ∈ closing, isSpace c = true) (rest : List Char) {m : τ × Json τ}
    {ms : List (τ × Json τ)} (back : ∀ n ∈ m :: ms, ReadsBack st n.2)
    (opens : ∀ n ∈ m :: ms, Opens (render st level n.2).toList) {fuel : Nat}
    (enough : (render st level m.2).toList.length + (renderMembers st level ms).toList.length <
      fuel) :
    readMembers fuel ((quote m.1).toList ++ ':' :: ' ' :: ((render st level m.2).toList ++
      ((renderMembers st level ms).toList ++ (closing ++ '\x7d' :: rest)))) =
        .ok (m :: ms, rest) := by
  induction ms generalizing m fuel with
  | nil =>
    obtain _ | fuel := fuel
    · omega
    have hends : Ends (closing ++ '\x7d' :: rest) := ends_append blank (ends_cons (by simp) rest)
    have hv := back m List.mem_cons_self level fuel _ hends (by omega)
    rw [renderMembers, String.toList_empty, List.nil_append]
    refine (readMembers_member (opens m List.mem_cons_self) hv).2 rest ?_
    rw [skipSpace_append blank, skipSpace_cons rfl]
  | cons n ms ih =>
    obtain _ | fuel := fuel
    · omega
    have hlength : (renderMembers st level (n :: ms)).toList.length =
        3 + st.afterComma.toList.length + (st.breakAt level).toList.length +
          (quote n.1).toList.length + (render st level n.2).toList.length +
          (renderMembers st level ms).toList.length := by
      simp [renderMembers]
      omega
    have htext : (renderMembers st level (n :: ms)).toList ++ (closing ++ '\x7d' :: rest) =
        ',' :: (st.afterComma.toList ++ ((st.breakAt level).toList ++ ((quote n.1).toList ++
          ':' :: ' ' :: ((render st level n.2).toList ++ ((renderMembers st level ms).toList ++
            (closing ++ '\x7d' :: rest)))))) := by
      simp [renderMembers]
    have hends :
        Ends ((renderMembers st level (n :: ms)).toList ++ (closing ++ '\x7d' :: rest)) := by
      rw [htext]
      exact ends_cons (.inr (.inl rfl)) _
    have hv := back m List.mem_cons_self level fuel _ hends (by omega)
    have hless : (render st level n.2).toList.length + (renderMembers st level ms).toList.length <
        fuel := by omega
    have hms := ih (fun u hu => back u (List.mem_cons_of_mem _ hu))
      (fun u hu => opens u (List.mem_cons_of_mem _ hu)) hless
    have hcomma := congrArg skipSpace htext
    rw [skipSpace_cons rfl] at hcomma
    rw [(readMembers_member (opens m List.mem_cons_self) hv).1 _ hcomma,
      hst.skipSpace_afterComma (opens_quote n.1), hms]
    rfl

theorem readValue_quote (s : τ) (fuel : Nat) (rest : List Char) :
    readValue (fuel + 1) ((quote s).toList ++ rest) = .ok (.str s, rest) := by
  have htext : (quote s).toList ++ rest =
      '"' :: ((Wording.units s).flatMap escapeUnit ++ '"' :: rest) := by
    simp [toList_quote]
  rw [htext, readValue, readString_quote]
  rfl

theorem readValue_obj {st : Style} (hst : st.Blank) {ms : List (τ × Json τ)} {level fuel : Nat}
    (keys : (ms.map (·.1)).Nodup) (back : ∀ m ∈ ms, ReadsBack st m.2)
    (opens : ∀ m ∈ ms, Opens (render st (level + 1) m.2).toList)
    (enough : (render st level (.obj ms)).toList.length ≤ fuel + 1) (rest : List Char) :
    readValue (fuel + 1) ((render st level (.obj ms)).toList ++ rest) = .ok (.obj ms, rest) := by
  cases ms with
  | nil => rw [render]; rfl
  | cons m ms =>
    have htext : (render st level (.obj (m :: ms))).toList ++ rest =
        '\x7b' :: ((st.breakAt (level + 1)).toList ++ ((quote m.1).toList ++
          ':' :: ' ' :: ((render st (level + 1) m.2).toList ++
            ((renderMembers st (level + 1) ms).toList ++
              ((st.breakAt level).toList ++ '\x7d' :: rest))))) := by
      simp [render]
    have hskip (cs : List Char) :
        skipSpace ((st.breakAt (level + 1)).toList ++ ((quote m.1).toList ++ cs)) =
          (quote m.1).toList ++ cs := by
      obtain ⟨c, ds, hk, hc, -⟩ := (opens_quote m.1).eq_cons
      rw [skipSpace_append (hst.breakAt _), hk, List.cons_append, skipSpace_cons hc]
    simp only [render, String.toList_append, List.length_append] at enough
    rw [htext, ← ofMembers_of_nodup keys]
    exact readValue_members (hskip _)
      (readMembers_render hst (hst.breakAt level) rest back opens (by simp at enough; omega))

/-! ## Whole documents -/

/-- Every plain value whose numbers can be written is read from its text. -/
theorem Plain.readsBack {st : Style} (hst : st.Blank) {v : Json τ} (h : Plain v)
    (writable : v.isWritable = true) : ReadsBack st v := by
  -- a text is never empty, so there is always a step left for its first character
  have hsucc {v : Json τ} (hv : Plain v) (step : ∀ level fuel rest, Ends rest →
      (render st level v).toList.length ≤ fuel + 1 →
        readValue (fuel + 1) ((render st level v).toList ++ rest) = .ok (v, rest)) :
      ReadsBack st v := by
    intro level fuel rest hends hfuel
    obtain ⟨c, ds, htext, -⟩ := (hv.opens st level).eq_cons
    obtain _ | fuel := fuel
    · simp [htext] at hfuel
    · exact step level fuel rest hends hfuel
  induction h with
  | null => exact hsucc .null fun level fuel rest _ _ => by rw [render]; rfl
  | bool b => exact hsucc (.bool b) fun level fuel rest _ _ => by cases b <;> rw [render] <;> rfl
  | num n =>
    exact hsucc (.num n) fun level fuel rest hends _ => by
      rw [render]; exact readValue_num writable fuel hends
  | str s =>
    refine hsucc (.str s) fun level fuel rest _ _ => ?_
    rw [render]
    exact readValue_quote s fuel rest
  | @arr vs items ih =>
    rw [isWritable, itemsWritable_iff] at writable
    exact hsucc (.arr items) fun level fuel rest _ hfuel =>
      readValue_arr hst (fun v hv => ih v hv (writable v hv))
        (fun v hv => (items v hv).opens st _) hfuel rest
  | @obj ms keys values ih =>
    rw [isWritable, membersWritable_iff] at writable
    exact hsucc (.obj keys values) fun level fuel rest _ hfuel =>
      readValue_obj hst keys (fun m hm => ih m hm (writable m hm))
        (fun m hm => (values m hm).opens st _) hfuel rest

/-- A plain document is read from the text of any style. -/
theorem parse_render {st : Style} (hst : st.Blank) {v : Json τ} (h : Plain v)
    (writable : v.isWritable = true) (level : Nat) : parse (render st level v) = .ok v := by
  obtain ⟨c, ds, htext, hc, -⟩ := (h.opens st level).eq_cons
  have hskip : skipSpace (render st level v).toList = (render st level v).toList := by
    rw [htext, skipSpace_cons hc]
  have hread := h.readsBack hst writable level (2 * (render st level v).toList.length + 2) []
    ends_nil (by omega)
  rw [List.append_nil] at hread
  rw [parse, hskip, hread]
  rfl

theorem blank_lines : Style.lines.Blank where
  breakAt := by
    intro level c hc
    simp only [Style.lines, String.toList_append, String.toList_ofList, List.mem_append] at hc
    rcases hc with hc | hc
    · rw [show c = '\n' by simpa using hc]; rfl
    · rw [(List.mem_replicate.1 hc).2]; rfl
  afterComma := by simp [Style.lines]

/-- A saved document is read as it was written. -/
theorem parse_pretty {v : Json τ} (h : Plain v) (writable : v.isWritable = true) :
    parse v.pretty = .ok v :=
  parse_render blank_lines h writable 0

end ImportAtlas.Json
