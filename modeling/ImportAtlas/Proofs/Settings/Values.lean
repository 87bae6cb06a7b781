import ImportAtlas.Proofs.Settings.Numerals

/-!
# Values that are read as they were written

A text in double quotes, a list of such texts and a number without a sign are read after a key as
what they were written for. `Reads text v` says so of one line: `text` is laid out as it is, ends on
its line, and is read as `v`. A line with a key and such a text is cut at its first equals sign,
whatever stands in the quotes.
-/

namespace ImportAtlas.Toml

variable {cs : List Char}

/-! ## Quotes -/

theorem dropEnds_append (a b : Char) (cs : List Char) : dropEnds (a :: (cs ++ [b])) = cs := by
  simp [dropEnds]

theorem endsEscaping_of_notMem (h : '\\' ∉ cs) : endsEscaping cs.reverse = false := by
  have hrun : cs.reverse.takeWhile (· == '\\') = [] := by
    cases hback : cs.reverse with
    | nil => rfl
    | cons c back =>
      have hc : c ∈ cs := List.mem_reverse.1 (hback ▸ List.mem_cons_self)
      have hne : c ≠ '\\' := fun heq => h (heq ▸ hc)
      simp [hne]
  rw [endsEscaping, hrun]
  rfl

theorem codePoints_of_notMem {c : Char} (h : c ∉ cs) (mark : List Char) (width : Nat) :
    codePoints (c :: mark) width cs = .ok cs := by
  have hcut : Text.splitOn (c :: mark) cs = [cs] := by
    unfold Text.splitOn
    induction cs with
    | nil => rfl
    | cons d cs ih =>
      obtain ⟨hd, hcs⟩ := List.ne_and_not_mem_of_not_mem_cons h
      simp [Text.splitOnFrom, hd, ih hcs, Text.consFirst]
  rw [codePoints, hcut]
  simp [codePointsFrom]

theorem unescape_of_notMem (h : '\\' ∉ cs) : unescape cs = .ok cs := by
  induction cs with
  | nil => rfl
  | cons c cs ih =>
    obtain ⟨hc, hcs⟩ := List.ne_and_not_mem_of_not_mem_cons h
    rw [unescape, ih hcs]
    · rfl
    · rintro e r rfl
      exact absurd rfl hc

theorem unescapeAll_of_notMem (h : '\\' ∉ cs) : unescapeAll cs = .ok cs := by
  rw [unescapeAll, Text.splitAt_of_notMem h]
  show (codePoints ['\\', 'u'] 4 cs >>= fun cs => codePoints ['\\', 'U'] 8 cs >>= unescape) = _
  rw [codePoints_of_notMem h]
  show (codePoints ['\\', 'U'] 8 cs >>= unescape) = _
  rw [codePoints_of_notMem h]
  exact unescape_of_notMem h

/-- Nothing follows the closing quote. -/
theorem isFollowed_quoted (hquote : '"' ∉ cs) (hslash : '\\' ∉ cs) :
    isFollowed '"' ('"' :: (cs ++ ['"'])) = false := by
  have hcut : Text.splitAt '"' (cs ++ ['"']) = [cs, []] := by
    rw [Text.splitAt_append, Text.splitAt_of_notMem hquote]
    rfl
  rw [isFollowed, List.drop_one, List.tail_cons, hcut]
  cases cs with
  | nil => rfl
  | cons c cs => simp [hasTail, endsEscaping_of_notMem hslash, -List.reverse_cons]

theorem quotedText_verbatim (h : ∀ c ∈ cs, Verbatim c) :
    quotedText '"' ('"' :: (cs ++ ['"'])) = .ok (String.ofList cs) := by
  have hquote : '"' ∉ cs := fun hmem => (h _ hmem).1 rfl
  have hslash : '\\' ∉ cs := fun hmem => (h _ hmem).2.1 rfl
  have hstrip : stripQuotes '"' ('"' :: (cs ++ ['"'])) = cs := by
    cases cs with
    | nil => rfl
    | cons c cs =>
      have hc : c ≠ '"' := fun heq => hquote (heq ▸ List.mem_cons_self)
      have hstrip : stripQuotes '"' ('"' :: c :: (cs ++ ['"'])) =
          dropEnds ('"' :: c :: (cs ++ ['"'])) := by simp [stripQuotes, hc]
      exact hstrip.trans (dropEnds_append '"' '"' (c :: cs))
  have hall : '\\' ∉ '"' :: (cs ++ ['"']) := by simp [hslash]
  rw [quotedText, isFollowed_quoted hquote hslash, if_neg Bool.false_ne_true]
  show (unescapeAll _ >>= fun t => pure (String.ofList (stripQuotes '"' t))) = _
  rw [unescapeAll_of_notMem hall]
  exact congrArg (fun t => Except.ok (String.ofList t)) hstrip

/-! ## Lists -/

/-- A text of a list: in quotes, after a blank. -/
abbrev listItem (t : List Char) : List Char := ' ' :: '"' :: (t ++ ['"'])

/-- The text of a list of texts, with a comma behind each. -/
def listChars : List (List Char) → List Char
  | [] => ['[', ' ', ']']
  | t :: ts => '[' :: ((t :: ts).flatMap (listItem · ++ [',']) ++ [']'])

theorem isWholeText_quoted (hquote : '"' ∉ cs) (hslash : '\\' ∉ cs) :
    isWholeText (listItem cs) = true := by
  have htrim : Text.trim (listItem cs) = '"' :: (cs ++ ['"']) :=
    Text.trim_cons_space (Text.tight_enclosed rfl rfl cs)
  have hopen : isHalfOpen ('"' :: (cs ++ ['"'])) = false := by
    unfold isHalfOpen
    split
    · next a b c _ _ y z _ hfront hback =>
      cases cs with
      | nil => simp at hfront
      | cons d cs =>
        simp at hfront hquote
        simp [← hfront.1, ← hfront.2.1, hquote.1]
    · rfl
  have hbounded : isBounded ('"' :: (cs ++ ['"'])) = true := by
    rw [isBounded, dropEnds_append, endsEscaping_of_notMem hslash]
    simp [List.getLast?_cons]
  rw [isWholeText, htrim, hbounded, hopen]
  rfl

theorem joinTexts_quoted {ts : List (List Char)} (h : ∀ t ∈ ts, '"' ∉ t ∧ '\\' ∉ t) :
    joinTexts (ts.map listItem ++ [[]]) = .ok (ts.map listItem ++ [[]]) := by
  induction ts with
  | nil => rfl
  | cons t ts ih =>
    have hrest := ih fun u hu => h u (List.mem_cons_of_mem t hu)
    obtain ⟨hquote, hslash⟩ := h t List.mem_cons_self
    have hwhole := isWholeText_quoted hquote hslash
    cases ts with
    | nil => simp [joinTexts, joinTextsFrom, hwhole]
    | cons u ts =>
      simp only [List.map_cons, List.cons_append, joinTexts] at hrest ⊢
      rw [joinTextsFrom, if_pos hwhole, hrest]
      rfl

/-- A text of a list: verbatim, and without the comma that separates texts. -/
def Listed (t : List Char) : Prop := (∀ c ∈ t, Verbatim c) ∧ ',' ∉ t

theorem exists_items (t : List Char) (ts : List (List Char)) :
    ∃ body, (t :: ts).flatMap (listItem · ++ [',']) = ' ' :: '"' :: (body ++ [',']) := by
  induction ts generalizing t with
  | nil => exact ⟨t ++ ['"'], by simp⟩
  | cons u ts ih =>
    obtain ⟨body, hbody⟩ := ih u
    refine ⟨t ++ '"' :: ',' :: ' ' :: '"' :: body, ?_⟩
    rw [List.flatMap_cons, hbody]
    simp

theorem itemTexts_listChars {t : List Char} {ts : List (List Char)} (h : ∀ u ∈ t :: ts, Listed u) :
    itemTexts (listChars (t :: ts)) = .ok ((t :: ts).map listItem ++ [[]]) := by
  let inside := (t :: ts).flatMap (listItem · ++ [','])
  have hchars : listChars (t :: ts) = '[' :: (inside ++ [']']) := rfl
  have hcut : Text.splitAt ',' inside = (t :: ts).map listItem ++ [[]] := by
    have hpieces : inside = ((t :: ts).map listItem).flatMap (· ++ [',']) :=
      (List.flatMap_map listItem (· ++ [',']) (t :: ts)).symm
    rw [hpieces, Text.splitAt_flatMap]
    rintro p hp
    obtain ⟨u, hu, rfl⟩ := List.mem_map.1 hp
    simp [(h u hu).2]
  have hends : dropEnds ('[' :: (inside ++ [']'])) = inside := dropEnds_append '[' ']' inside
  have hjoin := joinTexts_quoted fun u hu =>
    ⟨fun hmem => ((h u hu).1 _ hmem).1 rfl, fun hmem => ((h u hu).1 _ hmem).2.1 rfl⟩
  obtain ⟨body, hbody⟩ : ∃ body, inside = ' ' :: '"' :: (body ++ [',']) := exists_items t ts
  have htrim : Text.trim inside = '"' :: (body ++ [',']) := by
    rw [hbody]
    exact Text.trim_cons_space (Text.tight_enclosed rfl rfl body)
  have harray : isTextArray ('[' :: (inside ++ [']'])) = true := by
    rw [isTextArray, hends, htrim]
    rfl
  have hnested : (inside.takeWhile (· != '[')).all Text.isBlank = false := by
    rw [hbody]
    rfl
  rw [hchars, itemTexts, Text.trim_of_tight (Text.tight_enclosed rfl rfl inside)]
  rw [hends, hnested, htrim, harray, hcut, hjoin]
  simp

theorem readItems_quoted {read : List Char → Reading (Json × Kind)} {ts : List (List Char)}
    (h : ∀ t ∈ ts, read ('"' :: (t ++ ['"'])) = .ok (.str (String.ofList t), .text))
    {k : Option Kind} (hkind : k.any (· ≠ .text) = false) :
    readItems read k (ts.map listItem ++ [[]]) = .ok (ts.map fun t => .str (String.ofList t)) := by
  induction ts generalizing k with
  | nil => rfl
  | cons t ts ih =>
    have hvisible : (listItem t).all Text.isBlank = false := rfl
    have hrest := ih (fun u hu => h u (List.mem_cons_of_mem t hu)) (k := some .text) rfl
    rw [List.map_cons, List.cons_append, readItems, hvisible, if_neg Bool.false_ne_true,
      Text.trim_cons_space (Text.tight_enclosed rfl rfl t), h t List.mem_cons_self]
    simp only [bind, Except.bind, hkind, hrest]
    rfl

theorem readValueIn_quoted (fuel : Nat) (plain : Bool) (h : ∀ c ∈ cs, Verbatim c) :
    readValueIn (fuel + 1) plain ('"' :: (cs ++ ['"'])) = .ok (.str (String.ofList cs), .text) := by
  show (fun s => (Json.str s, Kind.text)) <$> quotedText '"' _ = _
  rw [quotedText_verbatim h]
  rfl

theorem readValue_quoted (plain : Bool) (h : ∀ c ∈ cs, Verbatim c) :
    readValue plain ('"' :: (cs ++ ['"'])) = .ok (.str (String.ofList cs), .text) :=
  readValueIn_quoted _ plain h

theorem readValue_listChars (plain : Bool) {ts : List (List Char)} (h : ∀ t ∈ ts, Listed t) :
    readValue plain (listChars ts) =
      .ok (.arr (ts.map fun t => .str (String.ofList t)), .array) := by
  cases ts with
  | nil => rfl
  | cons t ts =>
    let fuel := (listChars (t :: ts)).length
    have hread : ∀ u ∈ t :: ts, readValueIn fuel true ('"' :: (u ++ ['"'])) =
        .ok (.str (String.ofList u), .text) := fun u hu => readValueIn_quoted _ true (h u hu).1
    show (itemTexts (listChars (t :: ts)) >>= fun ps =>
      readItems (fun p => readValueIn fuel true p) none ps >>= fun vs =>
        pure (Json.arr vs, Kind.array)) = _
    rw [itemTexts_listChars h]
    show (readItems (fun p => readValueIn fuel true p) none _ >>= fun vs =>
      pure (Json.arr vs, Kind.array)) = _
    rw [readItems_quoted hread rfl]
    rfl

/-! ## Cutting a line -/

theorem exists_closeSingles (p : List Char) (ps ds : List (List Char)) :
    ∃ qs left, closeSingles (p :: ps) ds = (p :: qs, left) := by
  induction ds generalizing ps with
  | nil => exact ⟨ps, [], rfl⟩
  | cons d ds ih =>
    unfold closeSingles
    split
    · next heven =>
      cases ps with
      | nil => cases heven
      | cons q ps =>
        dsimp only
        rw [List.dropLast_cons_of_ne_nil (List.cons_ne_nil q ps), List.cons_append]
        exact ih _
    · exact ⟨ps, d :: ds, rfl⟩

/-- What stands before the first quote of a line is part of its first piece. -/
theorem exists_piecesAtQuotes {a : List Char} (hdouble : '"' ∉ a) (hsingle : apostrophe ∉ a)
    (b : List Char) : ∃ p ps, piecesAtQuotes (a ++ b) = (a ++ p) :: ps := by
  obtain ⟨d, ds, hcut⟩ := Text.exists_splitAt_append hdouble b
  obtain ⟨p, ps, hfirst⟩ := Text.exists_splitAt_append hsingle d
  unfold piecesAtQuotes
  rw [hcut]
  cases ds with
  | nil => exact ⟨p, ps ++ [], by simp [cutFirstAtSingles, hfirst]⟩
  | cons e ds =>
    dsimp only
    split
    · obtain ⟨qs, left, hclose⟩ := exists_closeSingles (a ++ p) ps (e :: ds)
      rw [hfirst, hclose]
      exact ⟨p, _, rfl⟩
    · exact ⟨p, ps ++ e :: ds, by simp [cutFirstAtSingles, hfirst]⟩

/-- A mark before all quotes is the first one outside quotes. -/
theorem cutsFor_append {mark : Char} {a : List Char} (h : ∀ c ∈ a ++ [mark], isQuote c = false)
    (b : List Char) : cutsFor [mark] (a ++ mark :: b) = 1 := by
  have hnot {q : Char} (hq : isQuote q = true) : q ∉ a ++ [mark] := by
    intro hmem
    rw [h q hmem] at hq
    cases hq
  obtain ⟨p, ps, hpieces⟩ := exists_piecesAtQuotes (hnot (q := '"') rfl)
    (hnot (q := apostrophe) rfl) b
  have hline : a ++ mark :: b = a ++ [mark] ++ b := by simp
  have hoccurs : Text.occursIn [mark] (a ++ [mark] ++ p) = true :=
    Text.occursIn_iff.2 ⟨a, p, rfl⟩
  rw [cutsFor, hline, hpieces, cutsFrom, hoccurs]
  rfl

/-- A bare name: letters, digits, low lines and dashes of ASCII. -/
structure BareName (key : List Char) : Prop where
  ne_nil : key ≠ []
  chars : ∀ c ∈ key, isBareName c = true

namespace BareName

variable {key text : List Char}

theorem notMem (h : BareName key) {c : Char} (hc : isBareName c = false) : c ∉ key := by
  intro hmem
  rw [h.chars c hmem] at hc
  cases hc

theorem tight (h : BareName key) : Text.Tight key :=
  Text.tight_of_forall fun c hc => isBlank_of_isBareName (h.chars c hc)

theorem cutLine_eq (h : BareName key) (htext : Text.Tight text) :
    cutLine (key ++ ' ' :: '=' :: ' ' :: text) = .ok ⟨key, text, isPlainNumber (' ' :: text)⟩ := by
  have hquotes : ∀ c ∈ key ++ [' '] ++ ['='], isQuote c = false := by
    intro c hc
    simp only [List.mem_append, List.mem_singleton] at hc
    rcases hc with (hc | rfl) | rfl
    · exact isQuote_of_isBareName (h.chars c hc)
    · rfl
    · rfl
  have hequals : '=' ∉ key ++ [' '] := by
    simp [h.notMem (c := '=') rfl]
  have hline : key ++ ' ' :: '=' :: ' ' :: text = key ++ [' '] ++ '=' :: ' ' :: text := by simp
  rw [hline, cutLine, cutsFor_append hquotes, Text.splitTimes_one hequals]
  simp [settleCut, canBeValue, Text.trim_concat_space h.tight, Text.trim_cons_space htext]

theorem readKey_eq (h : BareName key) : readKey key = .ok ⟨[], String.ofList key⟩ := by
  have hdot : key.contains '.' = false := by simpa using h.notMem (c := '.') rfl
  obtain ⟨c, rest, rfl⟩ := List.exists_cons_of_ne_nil h.ne_nil
  have hquote := isQuote_of_isBareName (h.chars c List.mem_cons_self)
  rw [readKey, hdot, if_neg Bool.false_ne_true]
  simp [hquote]

end BareName

/-! ## Values after a key -/

/-- A text after an equals sign that is laid out as it is and read as `v`. -/
structure Reads (text : List Char) (v : Json) : Prop where
  laid : ∀ done, (Layout.inValue 0 (' ' :: done)).Leads text
    (Layout.inValue 0 (text.reverse ++ ' ' :: done))
  unbroken : '\n' ∉ text ∧ '\r' ∉ text
  tight : Text.Tight text
  closed : leavesOpen text = .ok false
  read : ∃ kind, readValue (isPlainNumber (' ' :: text)) text = .ok (v, kind)

theorem leavesOpen_of_isQuote {c : Char} (h : isQuote c = false)
    (hlist : c ≠ '[' ∨ (c :: cs).getLast? = some ']') : leavesOpen (c :: cs) = .ok false := by
  have hlast : lastText (c :: cs) = .ok (c :: cs) := by
    rw [lastText, if_neg]
    rcases hlist with hc | hc <;> simp [hc]
  unfold leavesOpen
  rw [hlast]
  split
  · rfl
  · simp [h, bind, Except.bind, pure, Except.pure]

theorem leavesOpen_quoted (h : '"' ∉ cs) : leavesOpen ('"' :: (cs ++ ['"'])) = .ok false := by
  cases cs with
  | nil => rfl
  | cons c cs =>
    have hc : c ≠ '"' := fun heq => h (heq ▸ List.mem_cons_self)
    obtain ⟨d, rest, hrest⟩ : ∃ d rest, cs ++ ['"'] = d :: rest :=
      List.exists_cons_of_ne_nil (by simp)
    simp [leavesOpen, lastText, isQuote, hrest, hc, bind, Except.bind, pure, Except.pure]

theorem reads_quoted (h : ∀ c ∈ cs, Verbatim c) :
    Reads ('"' :: (cs ++ ['"'])) (.str (String.ofList cs)) where
  laid := Layout.leads_quoted h 0
  unbroken := by
    have hbreak : '\n' ∉ cs := fun hmem => (h _ hmem).2.2.1 rfl
    have hreturn : '\r' ∉ cs := fun hmem => (h _ hmem).2.2.2 rfl
    simp [hbreak, hreturn]
  tight := Text.tight_enclosed rfl rfl cs
  closed := leavesOpen_quoted fun hmem => (h _ hmem).1 rfl
  read := ⟨.text, readValue_quoted _ h⟩

theorem leads_items {ts : List (List Char)} (h : ∀ t ∈ ts, ∀ c ∈ t, Verbatim c) (depth : Int)
    (done : List Char) :
    (Layout.inValue depth done).Leads (ts.flatMap (listItem · ++ [',']))
      (Layout.inValue depth ((ts.flatMap (listItem · ++ [','])).reverse ++ done)) := by
  induction ts generalizing done with
  | nil => exact fun rest => rfl
  | cons t ts ih =>
    have hspace : (Layout.inValue depth done).Leads [' '] (Layout.inValue depth (' ' :: done)) :=
      fun rest => rfl
    have htext := Layout.leads_quoted (h t List.mem_cons_self) depth done
    have hcomma (done : List Char) :
        (Layout.inValue depth done).Leads [','] (Layout.inValue depth (',' :: done)) :=
      fun rest => rfl
    have hrest := ih fun u hu => h u (List.mem_cons_of_mem t hu)
    simpa using hspace.append (htext.append ((hcomma _).append (hrest _)))

theorem exists_listChars (ts : List (List Char)) :
    ∃ inside, listChars ts = '[' :: (inside ++ [']']) := by
  cases ts with
  | nil => exact ⟨[' '], rfl⟩
  | cons t ts => exact ⟨_, rfl⟩

theorem reads_listChars {ts : List (List Char)} (h : ∀ t ∈ ts, Listed t) :
    Reads (listChars ts) (.arr (ts.map fun t => .str (String.ofList t))) where
  laid done := by
    cases ts with
    | nil => exact fun rest => rfl
    | cons t ts =>
      have hopen : (Layout.inValue 0 (' ' :: done)).Leads ['[']
          (Layout.inValue 1 ('[' :: ' ' :: done)) := fun rest => rfl
      have hitems := leads_items (fun u hu => (h u hu).1) 1 ('[' :: ' ' :: done)
      have hclose (done : List Char) :
          (Layout.inValue 1 done).Leads [']'] (Layout.inValue 0 (']' :: done)) := fun rest => rfl
      simpa [listChars] using hopen.append (hitems.append (hclose _))
  unbroken := by
    have hbreak : ∀ t ∈ ts, '\n' ∉ t := fun t ht hmem => ((h t ht).1 _ hmem).2.2.1 rfl
    have hreturn : ∀ t ∈ ts, '\r' ∉ t := fun t ht hmem => ((h t ht).1 _ hmem).2.2.2 rfl
    cases ts with
    | nil => decide
    | cons t ts => simpa [listChars] using And.intro hbreak hreturn
  tight := by
    obtain ⟨inside, hinside⟩ := exists_listChars ts
    rw [hinside]
    exact Text.tight_enclosed rfl rfl inside
  closed := by
    obtain ⟨inside, hinside⟩ := exists_listChars ts
    rw [hinside]
    exact leavesOpen_of_isQuote rfl (.inr (by simp [List.getLast?_cons]))
  read := ⟨.array, readValue_listChars _ h⟩

/-- Without quotes and brackets nothing but the reading itself counts. -/
theorem reads_of_bare (hne : cs ≠ []) (h : ∀ c ∈ cs, Layout.Bare c ∧ Text.isBlank c = false)
    {v : Json} {kind : Kind} (hread : readValue (isPlainNumber (' ' :: cs)) cs = .ok (v, kind)) :
    Reads cs v where
  laid done := Layout.leads_bare (fun c hc => (h c hc).1) 0 (' ' :: done)
  unbroken := by
    refine ⟨fun hmem => (h _ hmem).1.1 rfl, fun hmem => ?_⟩
    cases (h _ hmem).2
  tight := Text.tight_of_forall fun c hc => (h c hc).2
  closed := by
    obtain ⟨c, rest, rfl⟩ := List.exists_cons_of_ne_nil hne
    obtain ⟨-, -, hquote, hopen, -⟩ := (h c List.mem_cons_self).1
    exact leavesOpen_of_isQuote hquote (.inl hopen)
  read := ⟨kind, hread⟩

theorem Numeral.reads (h : Numeral cs) {v : Json} {kind : Kind}
    (hread : readValue (isPlainNumber (' ' :: cs)) cs = .ok (v, kind)) : Reads cs v := by
  refine reads_of_bare ?_ (fun c hc => ⟨(h.chars c hc).bare, (h.chars c hc).isBlank⟩) hread
  obtain ⟨d, rest, rfl, -⟩ := h.first
  exact List.cons_ne_nil d rest

theorem reads_toDigits {n : Nat} (short : (Nat.toDigits 10 n).length ≤ Number.digitLimit) :
    Reads (Nat.toDigits 10 n) (.int n) :=
  (numeral_toDigits n).reads (readValue_toDigits short)

/-- A double that carries no minus sign, not even on a zero. -/
def Unsigned (x : Float) : Prop :=
  (∀ m e, Binary.ofFloat x ≠ .finite true m e) ∧ Binary.ofFloat x ≠ .infinite true

theorem reads_exactText {x : Float} (h : Unsigned x) :
    Reads (Binary.exactText x).toList (.float x) := by
  have finite {s : Bool} {m : Nat} {e : Int} (hof : Binary.ofFloat x = .finite s m e) :
      Reads (Binary.exactText x).toList (.float x) := by
    obtain ⟨p, hp, htext, hvalue⟩ := Json.exists_finite_text hof
    have hsame : Json.numberText (.float x) = Binary.exactText x := by rw [Json.numberText, hof]
    cases s with
    | true => exact absurd hof (h.1 m e)
    | false =>
      have hparts : (Binary.exactText x).toList = p.text := by rw [← hsame, htext]; rfl
      have hread := readValue_parts hp
      rw [hvalue] at hread
      rw [hparts]
      exact (numeral_parts hp).reads hread
  rcases Binary.ofFloat_cases x with ⟨hof, hx⟩ | ⟨s, hof, hx⟩ | ⟨s, m, hof, -⟩ | ⟨s, m, e, hof, -⟩
  · have htext : Binary.exactText x = "nan" := by rw [Binary.exactText, hof]
    rw [htext, hx]
    exact reads_of_bare (by decide) (List.all_iff_forall_prop.1 (by decide)) rfl
  · cases s with
    | true => exact absurd hof h.2
    | false =>
      have htext : Binary.exactText x = "inf" := by rw [Binary.exactText, hof]; rfl
      rw [htext, hx]
      exact reads_of_bare (by decide) (List.all_iff_forall_prop.1 (by decide)) rfl
  · exact finite hof
  · exact finite hof

end ImportAtlas.Toml
