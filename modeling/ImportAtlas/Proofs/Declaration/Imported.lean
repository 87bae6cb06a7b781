import ImportAtlas.Declaration.Import
import ImportAtlas.Proofs.Declaration.BraceNames
import ImportAtlas.Proofs.Declaration.Scanned

/-!
# Import statements are read as they are written

`ImportStatement.Spelled` is the grammar of the statements, and the recogniser accepts exactly its
texts: the words `type` and `from` may be names as well as keywords, but no text can be read in two
ways. A text that is written as statements between fillers therefore gives one record for each
binding, in source order.
-/

namespace ImportAtlas

open Text Recogniser

/-! ## The grammar -/

/-- How bindings are spelled. -/
inductive Bindings.Spelled : Bindings → List Char → Prop
  | named {body : List Char} : body ≠ [] → '}' ∉ body →
      Spelled (.named body) ('{' :: (body ++ ['}']))
  | space (afterStar afterAs : Space) (name : Identifier) : Spelled (.single name.chars)
      ('*' :: (afterStar.chars ++ ("as".toList ++ (afterAs.chars ++ name.chars))))
  | name (name : Identifier) : Spelled (.single name.chars) name.chars

namespace ImportStatement

/-- A leading name with its comma. -/
structure Leading where
  name : Identifier
  beforeComma : Gap
  afterComma : Gap

def Leading.text (l : Leading) : List Char :=
  l.name.chars ++ (l.beforeComma.chars ++ ',' :: l.afterComma.chars)

/-- `from` and a quoted specifier. -/
structure Origin where
  beforeFrom : Space
  afterFrom : Space
  opening : Char
  specifier : List Char
  closing : Char
  opens : isQuote opening = true
  ne_nil : specifier ≠ []
  unquoted : specifier.all (!isQuote ·) = true
  closes : isQuote closing = true

def Origin.text (o : Origin) : List Char :=
  o.beforeFrom.chars ++ ("from".toList ++
    (o.afterFrom.chars ++ o.opening :: (o.specifier ++ [o.closing])))

/-- How the part after the keywords is spelled. -/
inductive Clause : ImportStatement → List Char → Prop
  | mk (leading : Option Leading) {bindings : Bindings} {text : List Char}
      (h : bindings.Spelled text) (origin : Origin) :
      Clause ⟨leading.map (·.name.chars), bindings, origin.specifier⟩
        ((leading.map Leading.text).getD [] ++ (text ++ origin.text))

/-- How a statement is spelled. -/
inductive Spelled : ImportStatement → List Char → Prop
  | mk (afterImport : Space) (modifier : Option Space) {s : ImportStatement} {text : List Char}
      (h : Clause s text) :
      Spelled s ("import".toList ++
        (afterImport.chars ++ (optionalKeyword "type" modifier ++ text)))

end ImportStatement

/-! ## How spelled parts begin -/

theorem Bindings.Spelled.exists_eq_cons {bindings : Bindings} {text : List Char}
    (h : bindings.Spelled text) :
    ∃ c cs, text = c :: cs ∧ (isWord c = true ∨ c = '{' ∨ c = '*') := by
  cases h with
  | named => exact ⟨_, _, rfl, .inr (.inl rfl)⟩
  | space => exact ⟨_, _, rfl, .inr (.inr rfl)⟩
  | name name =>
    obtain ⟨c, cs, hname, hc⟩ := name.exists_eq_cons
    exact ⟨c, cs, hname, .inl hc⟩

namespace ImportStatement

section Reading

variable {cs rest text : List Char} {bindings : Bindings} {s : ImportStatement}

theorem Clause.exists_eq_cons (h : Clause s text) :
    ∃ c cs, text = c :: cs ∧ (isWord c = true ∨ c = '{' ∨ c = '*') := by
  cases h with
  | mk leading hbindings origin =>
    cases leading with
    | none =>
      obtain ⟨c, cs, rfl, hc⟩ := hbindings.exists_eq_cons
      exact ⟨c, _, rfl, hc⟩
    | some l =>
      obtain ⟨c, cs, hname, hc⟩ := l.name.exists_eq_cons
      rw [Option.map_some, Option.getD_some, Leading.text, hname]
      exact ⟨c, _, rfl, .inl hc⟩

theorem isBlank_of_opening {c : Char} (h : isWord c = true ∨ c = '{' ∨ c = '*') :
    isBlank c = false := by
  rcases h with h | rfl | rfl
  · exact isBlank_of_isWord h
  · rfl
  · rfl

theorem Origin.text_append (o : Origin) (rest : List Char) :
    o.text ++ rest = o.beforeFrom.chars ++ ("from".toList ++
      (o.afterFrom.chars ++ o.opening :: (o.specifier ++ o.closing :: rest))) := by
  simp [Origin.text]

theorem Origin.stops_word (o : Origin) (rest : List Char) : Stops isWord (o.text ++ rest) := by
  rw [Origin.text, List.append_assoc]
  exact o.beforeFrom.stops_word _

theorem Clause.stops_blank (h : Clause s text) (rest : List Char) :
    Stops isBlank (text ++ rest) := by
  obtain ⟨c, cs, rfl, hc⟩ := h.exists_eq_cons
  exact isBlank_of_opening hc

/-! ## The recognisers accept what is spelled -/

theorem bindings?_text (h : bindings.Spelled text) (hrest : Stops isWord rest) :
    bindings? (text ++ rest) = some (bindings, rest) := by
  cases h with
  | @named body hne hbody =>
    have hbraces : braces? ('{' :: (body ++ ['}']) ++ rest) = some (body, rest) :=
      braces?_eq_some_iff.2 ⟨hne, hbody, by simp⟩
    rw [List.cons_append] at hbraces ⊢
    rw [bindings?, hbraces]
    rfl
  | space afterStar afterAs name =>
    have hname : Stops isBlank (name.chars ++ rest) := name.stops_blank rest
    simp only [List.cons_append, List.append_assoc, bindings?]
    rw [skipBlanks1?_append afterStar (by exact rfl)]
    simp only [Option.bind_eq_bind, Option.bind_some]
    rw [keyword?_append "as" afterAs hname, Option.bind_some, word?_append name hrest]
    rfl
  | name name =>
    have hword := word?_append name hrest
    obtain ⟨c, cs, hname, hc⟩ := name.exists_eq_cons
    have hbrace : c ≠ '{' := by rintro rfl; exact absurd hc (by decide)
    have hstar : c ≠ '*' := by rintro rfl; exact absurd hc (by decide)
    rw [hname, List.cons_append] at hword ⊢
    unfold bindings?
    split
    · next heq => exact absurd (List.cons.inj heq).1 hbrace
    · next heq => exact absurd (List.cons.inj heq).1 hstar
    · rw [hword]
      rfl

theorem exists_of_bindings? (h : bindings? cs = some (bindings, rest)) :
    ∃ text, bindings.Spelled text ∧ cs = text ++ rest := by
  unfold bindings? at h
  split at h
  · obtain ⟨⟨body, _⟩, hbraces, heq⟩ := Option.map_eq_some_iff.1 h
    obtain ⟨rfl, rfl⟩ := Prod.mk.inj heq
    obtain ⟨hne, hbody, hcs⟩ := braces?_eq_some_iff.1 hbraces
    exact ⟨_, .named hne hbody, by simp [hcs]⟩
  · simp only [Option.bind_eq_bind, Option.bind_eq_some_iff, Option.pure_def] at h
    obtain ⟨_, hstar, _, has, ⟨w, _⟩, hword, heq⟩ := h
    obtain ⟨rfl, rfl⟩ := Prod.mk.inj (Option.some.inj heq)
    obtain ⟨afterStar, rfl, -⟩ := skipBlanks1?_eq_some_iff.1 hstar
    obtain ⟨afterAs, rfl, -⟩ := keyword?_eq_some_iff.1 has
    obtain ⟨name, rfl, rfl, -⟩ := word?_eq_some_iff.1 hword
    exact ⟨_, .space afterStar afterAs name, by simp⟩
  · obtain ⟨⟨w, _⟩, hword, heq⟩ := Option.map_eq_some_iff.1 h
    obtain ⟨rfl, rfl⟩ := Prod.mk.inj heq
    obtain ⟨name, rfl, rfl, -⟩ := word?_eq_some_iff.1 hword
    exact ⟨_, .name name, rfl⟩

theorem origin_iff {specifier : List Char} :
    (skipBlanks1? cs).bind source? = some (specifier, rest) ↔
      ∃ o : Origin, o.specifier = specifier ∧ cs = o.text ++ rest := by
  simp only [source?, Option.bind_eq_bind, Option.bind_eq_some_iff, skipBlanks1?_eq_some_iff,
    after?_eq_some_iff, quoted?_eq_some_iff]
  constructor
  · rintro ⟨_, ⟨s, rfl, -⟩, _, rfl, _, ⟨t, rfl, -⟩, hne, hspec, opening, closing, hopen, hclose,
      rfl⟩
    exact ⟨⟨s, t, opening, specifier, closing, hopen, hne, hspec, hclose⟩, rfl,
      by simp [Origin.text]⟩
  · rintro ⟨o, rfl, rfl⟩
    exact ⟨_, ⟨o.beforeFrom, o.text_append rest, rfl⟩, _, rfl, _,
      ⟨o.afterFrom, rfl, isBlank_of_isQuote o.opens⟩, o.ne_nil, o.unquoted, o.opening, o.closing,
      o.opens, o.closes, rfl⟩

theorem tail?_eq_some_iff {leading : Option (List Char)} : tail? leading cs = some (s, rest) ↔
    ∃ (bindings : Bindings) (text : List Char) (o : Origin), bindings.Spelled text ∧
      s = ⟨leading, bindings, o.specifier⟩ ∧ cs = text ++ (o.text ++ rest) := by
  simp only [tail?, Option.bind_eq_bind, Option.pure_def]
  constructor
  · intro h
    simp only [Option.bind_eq_some_iff] at h
    obtain ⟨⟨bindings, _⟩, hbindings, _, hspace, ⟨specifier, _⟩, hsource, heq⟩ := h
    obtain ⟨rfl, rfl⟩ := Prod.mk.inj (Option.some.inj heq)
    obtain ⟨text, hspelled, rfl⟩ := exists_of_bindings? hbindings
    obtain ⟨o, rfl, rfl⟩ := origin_iff.1 (Option.bind_eq_some_iff.2 ⟨_, hspace, hsource⟩)
    exact ⟨bindings, text, o, hspelled, rfl, rfl⟩
  · rintro ⟨bindings, text, o, hspelled, rfl, rfl⟩
    have horigin : (skipBlanks1? (o.text ++ rest)).bind source? = some (o.specifier, rest) :=
      origin_iff.2 ⟨o, rfl, rfl⟩
    obtain ⟨r, hspace, hsource⟩ := Option.bind_eq_some_iff.1 horigin
    rw [bindings?_text hspelled (o.stops_word rest), Option.bind_some, hspace, Option.bind_some,
      hsource, Option.bind_some]

theorem led?_eq_some_iff : led? cs = some (s, rest) ↔
    ∃ (l : Leading) (bindings : Bindings) (text : List Char) (o : Origin), bindings.Spelled text ∧
      s = ⟨some l.name.chars, bindings, o.specifier⟩ ∧
      cs = l.text ++ (text ++ (o.text ++ rest)) := by
  simp only [led?, Option.bind_eq_bind]
  constructor
  · intro h
    simp only [Option.bind_eq_some_iff, after?_eq_some_iff, tail?_eq_some_iff] at h
    obtain ⟨⟨_, r⟩, hword, r', hcomma, bindings, text, o, hspelled, rfl, htail⟩ := h
    obtain ⟨name, rfl, rfl, -⟩ := word?_eq_some_iff.1 hword
    obtain ⟨before, hbefore⟩ := exists_gap r
    obtain ⟨after, hafter⟩ := exists_gap r'
    dsimp only at hcomma
    refine ⟨⟨name, before, after⟩, bindings, text, o, hspelled, rfl, ?_⟩
    rw [Leading.text, ← htail]
    simp only [List.append_assoc, List.cons_append]
    rw [← hafter, ← List.singleton_append, ← hcomma, ← hbefore]
  · rintro ⟨l, bindings, text, o, hspelled, rfl, rfl⟩
    have htext : l.text ++ (text ++ (o.text ++ rest)) = l.name.chars ++ (l.beforeComma.chars ++
        ',' :: (l.afterComma.chars ++ (text ++ (o.text ++ rest)))) := by
      simp [Leading.text]
    have hword : Stops isWord (l.beforeComma.chars ++
        ',' :: (l.afterComma.chars ++ (text ++ (o.text ++ rest)))) :=
      l.beforeComma.stops_word (by exact rfl)
    have hstops : Stops isBlank (text ++ (o.text ++ rest)) := by
      obtain ⟨c, cs, rfl, hc⟩ := hspelled.exists_eq_cons
      exact isBlank_of_opening hc
    have hcomma (r : List Char) : after? [','] (',' :: r) = some r := after?_eq_some_iff.2 rfl
    rw [htext, word?_append l.name hword, Option.bind_some]
    dsimp only
    rw [skipBlanks_append l.beforeComma (by exact rfl), hcomma, Option.bind_some,
      skipBlanks_append l.afterComma hstops]
    exact tail?_eq_some_iff.2 ⟨bindings, text, o, hspelled, rfl, rfl⟩

/-- No leading name stands before a clause that has none. -/
theorem led?_eq_none (h : bindings.Spelled text) (o : Origin) (rest : List Char) :
    led? (text ++ (o.text ++ rest)) = none := by
  refine Option.eq_none_iff_forall_ne_some.2 fun ⟨s, tail⟩ hled => ?_
  obtain ⟨l, _, text', o', -, -, heq⟩ := led?_eq_some_iff.1 hled
  rw [Leading.text, List.append_assoc] at heq
  cases h with
  | named =>
    obtain ⟨c, cs, hname, hc⟩ := l.name.exists_eq_cons
    rw [hname] at heq
    obtain rfl : '{' = c := (List.cons.inj heq).1
    exact absurd hc (by decide)
  | space =>
    obtain ⟨c, cs, hname, hc⟩ := l.name.exists_eq_cons
    rw [hname] at heq
    obtain rfl : '*' = c := (List.cons.inj heq).1
    exact absurd hc (by decide)
  | name name =>
    have hcomma : Stops isWord ((l.beforeComma.chars ++ ',' :: l.afterComma.chars) ++
        (text' ++ (o'.text ++ tail))) := by
      rw [List.append_assoc]
      exact l.beforeComma.stops_word (by exact rfl)
    obtain ⟨-, heq⟩ := (o.stops_word rest).run_unique hcomma name.word l.name.word heq
    rw [Origin.text_append, List.append_assoc] at heq
    have hfrom : 'f' = ',' := (Gap.cons_unique rfl rfl heq).1
    exact absurd hfrom (by decide)

theorem clause?_eq_some_iff :
    clause? cs = some (s, rest) ↔ ∃ text, Clause s text ∧ cs = text ++ rest := by
  rw [clause?, Option.or_eq_some_iff, led?_eq_some_iff, tail?_eq_some_iff]
  constructor
  · rintro (⟨l, bindings, text, o, hspelled, rfl, rfl⟩ | ⟨-, bindings, text, o, hspelled, rfl, rfl⟩)
    · exact ⟨_, .mk (some l) hspelled o, by simp⟩
    · exact ⟨_, .mk none hspelled o, by simp⟩
  · rintro ⟨_, ⟨leading, hspelled, o⟩, rfl⟩
    cases leading with
    | some l => exact .inl ⟨l, _, _, o, hspelled, rfl, by simp⟩
    | none =>
      refine .inr ⟨?_, _, _, o, hspelled, rfl, by simp⟩
      rw [Option.map_none, Option.getD_none, List.nil_append, List.append_assoc]
      exact led?_eq_none hspelled o rest

/-! ## No text can be read in two ways -/

/-- After the name `from` there is no clause in a quoted specifier. -/
theorem Clause.not_from (h : Clause s text) {opening : Char} (hopening : isQuote opening = true)
    (afterFrom : Space) : text ++ rest ≠ "from".toList ++ (afterFrom.chars ++ opening :: cs) := by
  intro heq
  have hstops := afterFrom.stops_word (opening :: cs)
  have hquote := isBlank_of_isQuote hopening
  cases h with
  | mk leading hbindings o =>
    cases leading with
    | some l =>
      rw [Option.map_some, Option.getD_some, Leading.text, List.append_assoc, List.append_assoc,
        List.append_assoc] at heq
      obtain ⟨-, heq⟩ := (l.beforeComma.stops_word (by exact rfl)).run_unique hstops l.name.word
        (by decide) heq
      have hcomma := (Gap.cons_unique rfl hquote heq).1
      rw [← hcomma] at hopening
      exact absurd hopening (by decide)
    | none =>
      rw [Option.map_none, Option.getD_none, List.nil_append, List.append_assoc] at heq
      cases hbindings with
      | named => exact absurd (List.cons.inj heq).1 (by decide)
      | space => exact absurd (List.cons.inj heq).1 (by decide)
      | name name =>
        obtain ⟨-, heq⟩ := (o.stops_word rest).run_unique hstops name.word (by decide) heq
        rw [Origin.text_append] at heq
        have hfrom : 'f' = opening := (Gap.cons_unique rfl hquote heq).1
        rw [← hfrom] at hopening
        exact absurd hopening (by decide)

/-- What is spelled as a clause is not spelled as `type` and another clause. -/
theorem Clause.not_modified {s' : ImportStatement} {text' rest' : List Char} (h : Clause s text)
    (h' : Clause s' text') (modifier : Space) :
    text ++ rest ≠ "type".toList ++ (modifier.chars ++ (text' ++ rest')) := by
  intro heq
  have hstops := modifier.stops_word (text' ++ rest')
  cases h with
  | mk leading hbindings o =>
    cases leading with
    | some l =>
      rw [Option.map_some, Option.getD_some, Leading.text, List.append_assoc, List.append_assoc,
        List.append_assoc] at heq
      obtain ⟨-, heq⟩ := (l.beforeComma.stops_word (by exact rfl)).run_unique hstops l.name.word
        (by decide) heq
      obtain ⟨c, cs, rfl, hc⟩ := h'.exists_eq_cons
      obtain ⟨rfl, -⟩ := Gap.cons_unique rfl (isBlank_of_opening hc) heq
      exact absurd hc (by decide)
    | none =>
      rw [Option.map_none, Option.getD_none, List.nil_append, List.append_assoc] at heq
      cases hbindings with
      | named => exact absurd (List.cons.inj heq).1 (by decide)
      | space => exact absurd (List.cons.inj heq).1 (by decide)
      | name name =>
        -- the name `type`, and what follows it would have to begin with the name `from`
        obtain ⟨-, heq⟩ := (o.stops_word rest).run_unique hstops name.word (by decide) heq
        rw [Origin.text_append] at heq
        obtain ⟨c, cs, rfl, hc⟩ := h'.exists_eq_cons
        obtain ⟨rfl, htail⟩ := Gap.cons_unique rfl (isBlank_of_opening hc) heq
        exact h'.not_from o.opens o.afterFrom (congrArg ('f' :: ·) htail.symm)

/-- The recogniser accepts exactly what is spelled as a statement. -/
theorem at?_eq_some_iff :
    at? cs = some (s, rest) ↔ ∃ text, Spelled s text ∧ cs = text ++ rest := by
  simp only [at?, Option.bind_eq_bind, Option.bind_eq_some_iff, Option.or_eq_some_iff,
    clause?_eq_some_iff]
  constructor
  · rintro ⟨r, himport, ⟨_, htype, text, hclause, rfl⟩ | ⟨-, text, hclause, rfl⟩⟩
    · obtain ⟨afterImport, rfl, -⟩ := keyword?_eq_some_iff.1 himport
      obtain ⟨modifier, rfl, -⟩ := keyword?_eq_some_iff.1 htype
      exact ⟨_, .mk afterImport (some modifier) hclause, by simp [optionalKeyword]⟩
    · obtain ⟨afterImport, rfl, -⟩ := keyword?_eq_some_iff.1 himport
      exact ⟨_, .mk afterImport none hclause, by simp [optionalKeyword]⟩
  · rintro ⟨_, ⟨afterImport, modifier, hclause⟩, rfl⟩
    rename_i text
    cases modifier with
    | some modifier =>
      refine ⟨"type".toList ++ (modifier.chars ++ (text ++ rest)), ?_, .inl ⟨_,
        keyword?_append "type" modifier (hclause.stops_blank rest), text, hclause, rfl⟩⟩
      exact keyword?_eq_some_iff.2 ⟨afterImport, by simp [optionalKeyword], rfl⟩
    | none =>
      refine ⟨text ++ rest, keyword?_eq_some_iff.2 ⟨afterImport, by simp [optionalKeyword],
        hclause.stops_blank rest⟩, .inr ⟨?_, text, hclause, rfl⟩⟩
      refine Option.eq_none_iff_forall_ne_some.2 ?_
      rintro ⟨s', rest'⟩ hmodified
      obtain ⟨_, htype, hread⟩ := Option.bind_eq_some_iff.1 hmodified
      obtain ⟨text', hclause', rfl⟩ := clause?_eq_some_iff.1 hread
      obtain ⟨modifier, heq, -⟩ := keyword?_eq_some_iff.1 htype
      exact hclause.not_modified hclause' modifier heq

theorem opens_at? : Recogniser.Opens "import".toList at? where
  ne_nil := by decide
  exists_text h := by
    obtain ⟨text, hspelled, rfl⟩ := at?_eq_some_iff.1 h
    cases hspelled with
    | mk => exact ⟨_, List.prefix_append _ _, rfl⟩

theorem spelled_of_mem_scan {f : Found ImportStatement} (hf : f ∈ Found.scan at? cs) :
    Spelled f.value f.text := by
  obtain ⟨_, after, -, -, -, hat⟩ := (Found.scanned_scan opens_at? cs).exists_of_mem hf
  obtain ⟨text, hspelled, htext⟩ := at?_eq_some_iff.1 hat
  rwa [List.append_cancel_right htext]

end Reading

/-! ## Statements as they are written -/

/-- A brace list or a namespace. -/
inductive Group where
  | list (l : BraceList.Listing)
  | space (afterStar afterAs : Space) (name : Identifier)

def Group.text : Group → List Char
  | .list l => l.text
  | .space afterStar afterAs name =>
    '*' :: (afterStar.chars ++ ("as".toList ++ (afterAs.chars ++ name.chars)))

/-- The names that are bound, those of a list before `as`. -/
def Group.names : Group → List (List Char)
  | .list l => l.items.map fun i => i.name.chars
  | .space _ _ name => [name.chars]

/-- The default name, a group, or both. -/
inductive Subject where
  | single (name : Identifier)
  | group (g : Group)
  | both (leading : Leading) (g : Group)

def Subject.text : Subject → List Char
  | .single name => name.chars
  | .group g => g.text
  | .both leading g => leading.text ++ g.text

def Subject.names : Subject → List (List Char)
  | .single name => [name.chars]
  | .group g => g.names
  | .both leading g => leading.name.chars :: g.names

/-- A statement with all its blanks. -/
structure Written where
  afterImport : Space
  modifier : Option Space
  subject : Subject
  origin : Origin

def Written.text (w : Written) : List Char :=
  "import".toList ++ (w.afterImport.chars ++ (optionalKeyword "type" w.modifier ++
    (w.subject.text ++ w.origin.text)))

/-! ## What they are read as -/

def Group.bindings : Group → Bindings
  | .list l => .named l.body
  | .space _ _ name => .single name.chars

theorem Group.spelled (g : Group) : g.bindings.Spelled g.text := by
  cases g with
  | list l => exact .named (BraceList.body_ne_nil l) (BraceList.brace_notMem_body l)
  | space afterStar afterAs name => exact .space afterStar afterAs name

theorem Group.names_bindings (g : Group) (leading : Option (List Char)) (specifier : List Char) :
    ImportStatement.names ⟨leading, g.bindings, specifier⟩ = leading.toList ++ g.names := by
  cases g with
  | list l => exact congrArg (leading.toList ++ ·) (BraceList.names_body .beforeAs l)
  | space => rfl

def Written.statement (w : Written) : ImportStatement :=
  match w.subject with
  | .single name => ⟨none, .single name.chars, w.origin.specifier⟩
  | .group g => ⟨none, g.bindings, w.origin.specifier⟩
  | .both leading g => ⟨some leading.name.chars, g.bindings, w.origin.specifier⟩

theorem Written.spelled (w : Written) : Spelled w.statement w.text := by
  obtain ⟨afterImport, modifier, subject, origin⟩ := w
  cases subject with
  | single name => exact .mk afterImport modifier (.mk none (.name name) origin)
  | group g => exact .mk afterImport modifier (.mk none g.spelled origin)
  | both leading g =>
    have hclause : Clause ⟨some leading.name.chars, g.bindings, origin.specifier⟩
        ((leading.text ++ g.text) ++ origin.text) := by
      rw [List.append_assoc]
      exact .mk (some leading) g.spelled origin
    exact .mk afterImport modifier hclause

theorem Written.names_statement (w : Written) : w.statement.names = w.subject.names := by
  obtain ⟨afterImport, modifier, subject, origin⟩ := w
  cases subject with
  | single name => rfl
  | group g => exact g.names_bindings none _
  | both leading g => exact g.names_bindings (some leading.name.chars) _

theorem Written.specifier_statement (w : Written) : w.statement.specifier = w.origin.specifier := by
  obtain ⟨afterImport, modifier, subject, origin⟩ := w
  cases subject <;> rfl

end ImportStatement

open ImportStatement

theorem importsOf_eq (aliases : List String) (file : String) (cs : List Char) :
    importsOf aliases file (String.ofList cs) =
      ((Found.scan ImportStatement.at? cs).map fun f => (f.value, f.text)).flatMap fun p =>
        p.1.names.map fun name =>
          ⟨file, String.ofList name, String.ofList p.1.specifier,
            isProjectSpecifier aliases (String.ofList p.1.specifier), Text.lineOf cs p.2⟩ := by
  rw [importsOf, String.toList_ofList, List.flatMap_map]
  rfl

/-- Reading undoes writing: a text that is written as import statements between fillers gives one
record for each binding, in source order, and each record has the line on which the text of its
statement first occurs. -/
theorem importsOf_written (aliases : List String) (file : String)
    (source : Source "import".toList Written) :
    let content := source.content Written.text
    importsOf aliases file (String.ofList content) =
        source.pieces.flatMap (fun p => p.1.subject.names.map fun name =>
          ⟨file, String.ofList name, String.ofList p.1.origin.specifier,
            isProjectSpecifier aliases (String.ofList p.1.origin.specifier),
            Text.lineOf content p.1.text⟩) ∧
      ∀ p ∈ source.pieces, ∃ k, Text.FirstAt content p.1.text k ∧
        Text.lineOf content p.1.text = (content.take k).count '\n' + 1 := by
  intro content
  have hscan := source.scan_content opens_at? (by decide)
    (fun p _ => List.prefix_append _ _) fun p after _ =>
      at?_eq_some_iff.2 ⟨p.1.text, p.1.spelled, rfl⟩
  constructor
  · rw [importsOf_eq, hscan, List.flatMap_map]
    refine List.flatMap_congr fun p _ => ?_
    rw [Written.names_statement, Written.specifier_statement]
  · intro p hp
    obtain ⟨k, hfirst⟩ := Text.exists_firstAt (source.infix_content Written.text hp)
    exact ⟨k, hfirst, hfirst.lineOf_eq⟩

/-- Three statements in which `type`, `as` and `from` are names. -/
def keywordNames : Source "import".toList Written where
  front := ⟨"im".toList, by decide⟩
  pieces :=
    let blank := Space.one
    let source : Identifier := ⟨"from".toList, by decide, by decide⟩
    let origin (c : Char) (hc : ['.', '/', c].all (!isQuote ·) = true) : Origin :=
      ⟨blank, blank, '"', ['.', '/', c], '\x27', rfl, List.cons_ne_nil _ _, hc, rfl⟩
    [(⟨blank, none, .single BraceList.typeName, origin 'a' (by decide)⟩, ⟨['\n'], by decide⟩),
      (⟨blank, some blank, .both ⟨BraceList.typeName, Gap.empty, blank.toGap⟩
          (.list BraceList.keywordList), origin 'b' (by decide)⟩, ⟨[], by decide⟩),
      (⟨blank, none, .group (.space blank blank source), origin 'a' (by decide)⟩,
        ⟨"port".toList, by decide⟩)]

theorem keywordNames_imports :
    String.ofList (keywordNames.content Written.text) =
        "imimport type from \"./a'\nimport type type, \x7b type as, as as type, type, \x7d from " ++
          "\"./b'import * as from from \"./a'port" ∧
      importsOf [] "x.ts" (String.ofList (keywordNames.content Written.text)) =
        [⟨"x.ts", "type", "./a", true, 1⟩, ⟨"x.ts", "type", "./b", true, 2⟩,
          ⟨"x.ts", "as", "./b", true, 2⟩, ⟨"x.ts", "as", "./b", true, 2⟩,
          ⟨"x.ts", "type", "./b", true, 2⟩, ⟨"x.ts", "from", "./a", true, 2⟩] :=
  ⟨by decide +kernel, (importsOf_written [] "x.ts" keywordNames).1.trans (by decide +kernel)⟩

end ImportAtlas
