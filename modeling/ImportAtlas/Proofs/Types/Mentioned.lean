import ImportAtlas.Proofs.Declaration.Imported
import ImportAtlas.Proofs.Declaration.Words
import ImportAtlas.Proofs.Types.Defined

/-!
# Where a type is mentioned

The recogniser of uses tries every place of a brace list and every number of blanks. For a
capitalised name the outcome does not depend on the order in which they are tried: a list mentions
the name exactly if the name stands in it as a whole word, and a statement that binds one name
mentions it exactly if that is the name. Between `import` and what is bound only blanks and `type`
are passed over, and `type` only before a list.
-/

namespace ImportAtlas

open Text Recogniser

namespace TypeName

/-- A capitalised name is not at the front of a text that begins with another character. -/
theorem after?_eq_none (t : TypeName) {c : Char} {cs : List Char} (hc : c ≠ t.first) :
    after? t.chars (c :: cs) = none := by
  refine Option.eq_none_iff_forall_ne_some.2 fun rest h => hc ?_
  exact (List.cons.inj (after?_eq_some_iff.1 h)).1

end TypeName

namespace TypeUse

variable {t : TypeName} {body cs rest r tail : List Char} {k : Nat}

/-! ## Places of a brace list -/

/-- A word ends where no word character follows it. -/
theorem isBoundary_after {c : Char} (hc : isWord c = true) (after : List Char) :
    isBoundary (some c) after.head? = true ↔ Stops isWord after := by
  cases after with
  | nil => simp [isBoundary, hc]
  | cons d after => simp [isBoundary, hc]

/-- A word begins where no word character stands before it. -/
theorem isBoundary_before (c : Char) (t : TypeName) (after : List Char) :
    isBoundary (some c) (t.chars ++ after).head? = true ↔ isWord c = false := by
  simp [isBoundary, TypeName.chars, t.isWord_first]

theorem isWord_last (t : TypeName) (c : Char) : isWord (t.chars.getLast?.getD c) = true := by
  have hne : t.chars ≠ [] := List.cons_ne_nil _ _
  rw [List.getLast?_eq_some_getLast hne, Option.getD_some]
  exact List.all_eq_true.1 t.identifier.word _ (List.getLast_mem hne)

/-- A name does not run over the brace that closes a list. -/
theorem exists_of_append_brace {after : List Char} (h : body ++ '}' :: rest = t.chars ++ after) :
    ∃ inside, body = t.chars ++ inside ∧ after = inside ++ '}' :: rest := by
  rcases List.append_eq_append_iff.1 h with ⟨m, hname, hm⟩ | ⟨m, hbody, hafter⟩
  · cases m with
    | nil => exact ⟨[], by simpa using hname.symm, by simpa using hm.symm⟩
    | cons c m =>
      obtain rfl : '}' = c := (List.cons.inj hm).1
      have hmem : '}' ∈ t.chars := by simp [hname]
      exact absurd hmem (t.identifier.notMem (by decide))
  · exact ⟨m, hbody, hafter⟩

/-- At one place of a list: the name stands there as a whole, and a specifier follows the list. -/
theorem namedHere?_eq_some_iff {c : Char} (hbody : '}' ∉ body) :
    namedHere? t.chars c (body ++ '}' :: rest) = some r ↔
      isWord c = false ∧ (∃ after, body = t.chars ++ after ∧ Stops isWord after) ∧
        (source? (skipBlanks rest)).map (·.2) = some r := by
  have hopen : Stops (· != '}') ('}' :: rest) := rfl
  have hdrop {after : List Char} (hafter : body = t.chars ++ after) :
      (after ++ '}' :: rest).dropWhile (· != '}') = '}' :: rest := by
    refine hopen.dropWhile_append (List.all_eq_true.2 fun d hd => ?_)
    rw [bne_iff_ne]
    rintro rfl
    exact hbody (hafter ▸ List.mem_append_right _ hd)
  have hstops {after : List Char} : Stops isWord (after ++ '}' :: rest) ↔ Stops isWord after := by
    cases after with
    | nil => exact iff_of_true rfl stops_nil
    | cons d after => exact Iff.rfl
  simp only [namedHere?, Option.bind_eq_bind, Option.bind_eq_some_iff, after?_eq_some_iff]
  constructor
  · rintro ⟨_, heq, hhere⟩
    obtain ⟨after, rfl, rfl⟩ := exists_of_append_brace heq
    rw [hdrop rfl] at hhere
    split at hhere
    · next hbound =>
      rw [Bool.and_eq_true, List.append_assoc, isBoundary_before,
        isBoundary_after (isWord_last t c), hstops] at hbound
      exact ⟨hbound.1, ⟨after, rfl, hbound.2⟩, hhere⟩
    · cases hhere
  · rintro ⟨hc, ⟨after, rfl, hafter⟩, hsource⟩
    refine ⟨after ++ '}' :: rest, List.append_assoc _ _ _, ?_⟩
    rw [if_pos, hdrop rfl]
    · exact hsource
    · rw [Bool.and_eq_true, List.append_assoc, isBoundary_before,
        isBoundary_after (isWord_last t c), hstops]
      exact ⟨hc, hafter⟩

/-- The character before a place of a list, the opening brace for the first place. -/
theorem isWord_before (hk : k ≤ body.length) :
    isWord (if k = 0 then '{' else ((body ++ rest)[k - 1]?).getD '{') = false ↔
      Stops isWord (body.take k).reverse := by
  cases k with
  | zero => exact iff_of_true rfl stops_nil
  | succ k =>
    have hlt : k < body.length := hk
    rw [if_neg (Nat.succ_ne_zero k), Nat.add_sub_cancel, List.getElem?_append_left hlt,
      List.getElem?_eq_getElem hlt, Option.getD_some, List.take_succ_eq_append_getElem hlt,
      List.reverse_append]
    exact Iff.rfl

/-- A list mentions the name exactly if the name stands in it as a whole. -/
theorem namedIn?_eq_some_iff (hbody : '}' ∉ body) :
    namedIn? t.chars (body ++ '}' :: rest) = some r ↔
      WholeIn t.chars body ∧ (source? (skipBlanks rest)).map (·.2) = some r := by
  have hopen : Stops (· != '}') ('}' :: rest) := rfl
  have hrun : (body ++ '}' :: rest).takeWhile (· != '}') = body := by
    refine hopen.takeWhile_append (List.all_eq_true.2 fun d hd => ?_)
    rw [bne_iff_ne]
    rintro rfl
    exact hbody hd
  have hplace {k : Nat} (hk : k ≤ body.length) {r : List Char} :
      namedHere? t.chars (if k = 0 then '{' else ((body ++ '}' :: rest)[k - 1]?).getD '{')
          ((body ++ '}' :: rest).drop k) = some r ↔
        Stops isWord (body.take k).reverse ∧
          (∃ after, body.drop k = t.chars ++ after ∧ Stops isWord after) ∧
          (source? (skipBlanks rest)).map (·.2) = some r := by
    rw [List.drop_append_of_le_length hk,
      namedHere?_eq_some_iff fun h => hbody (List.mem_of_mem_drop h), isWord_before hk]
  have hsound {r : List Char} (h : namedIn? t.chars (body ++ '}' :: rest) = some r) :
      WholeIn t.chars body ∧ (source? (skipBlanks rest)).map (·.2) = some r := by
    obtain ⟨k, hmem, hk⟩ := List.exists_of_findSome?_eq_some h
    rw [hrun, List.mem_reverse, List.mem_range, Nat.lt_succ_iff] at hmem
    obtain ⟨hbefore, ⟨after, hdrop, hafter⟩, hsource⟩ := (hplace hmem).1 hk
    exact ⟨⟨body.take k, after, by rw [← hdrop, List.take_append_drop], hbefore, hafter⟩, hsource⟩
  refine ⟨hsound, ?_⟩
  rintro ⟨⟨before, after, hwhole, hbefore, hafter⟩, hsource⟩
  -- some place is accepted, and every accepted place leaves the same rest
  have hk : before.length ≤ body.length := by rw [hwhole, List.length_append]; omega
  have hhere := (hplace hk).2 ⟨by rwa [hwhole, List.take_left],
    ⟨after, by rw [hwhole, List.drop_left], hafter⟩, hsource⟩
  have hsome : (namedIn? t.chars (body ++ '}' :: rest)).isSome = true := by
    rw [namedIn?, hrun, List.findSome?_isSome_iff]
    exact ⟨before.length, by simpa [Nat.lt_succ_iff] using hk, by rw [hhere]; rfl⟩
  obtain ⟨r', hr'⟩ := Option.isSome_iff_exists.1 hsome
  rw [hr', ← (hsound hr').2, hsource]

/-! ## What stands after `import` -/

theorem after?_append (w cs : List Char) : after? w (w ++ cs) = some cs :=
  after?_eq_some_iff.2 rfl

/-- Before a list blanks and `type` are passed over. -/
theorem named?_list (g : Gap) (modifier : Option Space) (cs : List Char) :
    named? t.chars (g.chars ++ (optionalKeyword "type" modifier ++ '{' :: cs)) =
      namedIn? t.chars cs := by
  have hbrace : Stops isBlank ('{' :: cs) := rfl
  cases modifier with
  | none =>
    have hskip : skipBlanks (g.chars ++ '{' :: cs) = '{' :: cs := skipBlanks_append g hbrace
    simp only [named?, optionalKeyword, List.nil_append, hskip]
    rfl
  | some s =>
    have hstops : Stops isBlank ("type".toList ++ (s.chars ++ '{' :: cs)) := rfl
    have hskip : skipBlanks (s.chars ++ '{' :: cs) = '{' :: cs := skipBlanks_append s.toGap hbrace
    simp only [named?, optionalKeyword, List.append_assoc, skipBlanks_append g hstops,
      after?_append, Option.map_some, Option.getD_some, hskip]
    rfl

theorem append_ne_brace (i : Identifier) (tail cs : List Char) : i.chars ++ tail ≠ '{' :: cs := by
  obtain ⟨c, ds, hi, hc⟩ := i.exists_eq_cons
  intro heq
  rw [hi] at heq
  rw [(List.cons.inj heq).1] at hc
  exact absurd hc (by decide)

/-- A word is not the beginning of a list, and `type` is none unless a list follows it. -/
theorem named?_word (g : Gap) (i : Identifier) (hword : Stops isWord tail)
    (hlist : ∀ cs, skipBlanks tail ≠ '{' :: cs) :
    named? t.chars (g.chars ++ (i.chars ++ tail)) = none := by
  rw [named?, skipBlanks_append g (i.stops_blank tail)]
  refine Option.eq_none_iff_forall_ne_some.2 fun r h => ?_
  obtain ⟨cs, hbrace, -⟩ := Option.bind_eq_some_iff.1 h
  rw [after?_eq_some_iff, List.singleton_append] at hbrace
  cases htype : after? "type".toList (i.chars ++ tail) with
  | none =>
    rw [htype, Option.map_none, Option.getD_none] at hbrace
    exact append_ne_brace i tail cs hbrace
  | some q =>
    rw [htype, Option.map_some, Option.getD_some] at hbrace
    rcases List.append_eq_append_iff.1 (after?_eq_some_iff.1 htype) with
      ⟨m, hm, rfl⟩ | ⟨m, hm, rfl⟩
    · -- the word ends within `type`, so it is `type`
      have hall : m.all isWord = true := by
        have htypeword : "type".toList.all isWord = true := by decide
        rw [hm, List.all_append, Bool.and_eq_true] at htypeword
        exact htypeword.2
      rw [hword.eq_nil_of_run hall] at hlist
      exact hlist cs hbrace
    · have hall : m.all isWord = true := by
        have hi := i.word
        rw [hm, List.all_append, Bool.and_eq_true] at hi
        exact hi.2
      cases m with
      | nil => exact hlist cs hbrace
      | cons c m =>
        let rest : Identifier := ⟨c :: m, hall, List.cons_ne_nil _ _⟩
        have hskip : skipBlanks (rest.chars ++ tail) = rest.chars ++ tail :=
          (rest.stops_blank tail).dropWhile
        exact append_ne_brace rest tail cs (hskip.symm.trans hbrace)

/-- Only after all blanks can the name begin. -/
theorem single?_append (s : Space) (hcs : Stops isBlank cs) :
    single? t.chars (s.chars ++ cs) = (after? t.chars cs).bind fun r =>
      ((skipBlanks1? r).bind source?).map (·.2) := by
  obtain ⟨n, hn⟩ := Nat.exists_eq_add_one.2 (List.length_pos_iff.2 s.ne_nil)
  have hearlier : ∀ j ∈ (List.range n).reverse,
      after? t.chars ((s.chars ++ cs).drop (j + 1)) = none := by
    intro j hj
    have hlt : j + 1 < s.chars.length := by
      rw [List.mem_reverse, List.mem_range] at hj
      omega
    rw [List.drop_append_of_le_length hlt.le, List.drop_eq_getElem_cons hlt]
    refine t.after?_eq_none fun heq => ?_
    have hblank := List.all_eq_true.1 s.blank _ (List.getElem_mem hlt)
    rw [heq, isBlank_of_isWord t.isWord_first] at hblank
    cases hblank
  have hrest : (s.chars ++ cs).drop (n + 1) = cs := by rw [← hn, List.drop_left]
  simp only [single?, hcs.takeWhile_append s.blank, hn, List.range_succ, List.reverse_append,
    List.reverse_singleton, List.singleton_append, List.findSome?_cons, hrest]
  rw [List.findSome?_eq_none_iff.2 fun j hj => by rw [hearlier j hj]; rfl]
  cases after? t.chars cs with
  | none => rfl
  | some r =>
    simp only [Option.bind_eq_bind, Option.bind_some]
    cases skipBlanks1? r with
    | none => rfl
    | some r =>
      rw [Option.bind_some, Option.bind_some]
      cases source? r <;> rfl

/-- A statement that binds one name mentions it and no other. -/
theorem single?_word (s : Space) (i : Identifier) (hword : Stops isWord tail) :
    single? t.chars (s.chars ++ (i.chars ++ tail)) =
      if i.chars = t.chars then ((skipBlanks1? tail).bind source?).map (·.2) else none := by
  rw [single?_append s (i.stops_blank tail)]
  split
  · next heq => rw [heq, after?_append, Option.bind_some]
  · next hne =>
    refine Option.eq_none_iff_forall_ne_some.2 fun r h => hne ?_
    obtain ⟨q, hname, hsource⟩ := Option.bind_eq_some_iff.1 h
    obtain ⟨p, hspace, -⟩ := Option.map_eq_some_iff.1 hsource
    obtain ⟨_, hblanks, -⟩ := Option.bind_eq_some_iff.1 hspace
    obtain ⟨s', rfl, -⟩ := skipBlanks1?_eq_some_iff.1 hblanks
    exact (hword.run_unique (s'.stops_word _) i.word t.identifier.word
      (after?_eq_some_iff.1 hname)).1

/-! ## Statements -/

/-- The keyword as a word. -/
def importWord : Identifier := ⟨"import".toList, by decide, by decide⟩

theorem at?_import (name cs : List Char) :
    at? name ("import".toList ++ cs) = ((named? name cs).or (single? name cs)).map ((), ·) := by
  rw [at?, after?_append]
  rfl

theorem source?_skipBlanks (o : ImportStatement.Origin) (rest : List Char) :
    source? (skipBlanks (o.text ++ rest)) = some (o.specifier, rest) := by
  have horigin : (skipBlanks1? (o.text ++ rest)).bind source? = some (o.specifier, rest) :=
    ImportStatement.origin_iff.2 ⟨o, rfl, rfl⟩
  obtain ⟨r, hblanks, hsource⟩ := Option.bind_eq_some_iff.1 horigin
  obtain ⟨s, heq, hstops⟩ := skipBlanks1?_eq_some_iff.1 hblanks
  rw [heq, skipBlanks_append s.toGap hstops, hsource]

theorem isQuote_double : isQuote '"' = true := rfl

/-- `from "./u"` with single blanks. -/
def userOrigin : ImportStatement.Origin :=
  ⟨.one, .one, '"', "./u".toList, '"', isQuote_double, by decide, by decide, isQuote_double⟩

/-- A specifier ends with a quote. -/
theorem closed_origin (w : Identifier) (o : ImportStatement.Origin) : Closed w.chars o.text :=
  ⟨o.beforeFrom.chars ++ ("from".toList ++ (o.afterFrom.chars ++ o.opening :: o.specifier)),
    o.closing, w.notMem (isWord_of_isQuote o.closes), by simp [ImportStatement.Origin.text]⟩

theorem skipBlanks_ne_brace (o : ImportStatement.Origin) (rest cs : List Char) :
    skipBlanks (o.text ++ rest) ≠ '{' :: cs := by
  intro heq
  rw [o.text_append, skipBlanks_append o.beforeFrom.toGap (by exact rfl)] at heq
  exact absurd (List.cons.inj heq).1 (by decide)

/-- A statement with a list is recognised if the name stands in the list, and as a whole. -/
theorem at?_list (t : TypeName) [Decidable (WholeIn t.chars body)] (s : Space)
    (modifier : Option Space) (hbody : '}' ∉ body) (o : ImportStatement.Origin) (rest : List Char) :
    at? t.chars ("import".toList ++ (s.chars ++ (optionalKeyword "type" modifier ++
        '{' :: (body ++ '}' :: (o.text ++ rest))))) =
      if WholeIn t.chars body then some ((), rest) else none := by
  have hsingle : single? t.chars (s.chars ++ (optionalKeyword "type" modifier ++
      '{' :: (body ++ '}' :: (o.text ++ rest)))) = none := by
    obtain ⟨c, cs, heq, hblank, hupper⟩ : ∃ c cs, optionalKeyword "type" modifier ++
        '{' :: (body ++ '}' :: (o.text ++ rest)) = c :: cs ∧ isBlank c = false ∧
          c.isUpper = false := by
      cases modifier with
      | none => exact ⟨_, _, rfl, by decide, by decide⟩
      | some m => exact ⟨_, _, rfl, by decide, by decide⟩
    rw [heq, single?_append s (stops_cons.2 hblank), t.after?_eq_none, Option.bind_none]
    rintro rfl
    exact absurd (hupper.symm.trans t.upper) (by decide)
  rw [at?_import, named?_list, hsingle, Option.or_none]
  have hnamed : namedIn? t.chars (body ++ '}' :: (o.text ++ rest)) =
      if WholeIn t.chars body then some rest else none := by
    refine Option.ext fun r => ?_
    rw [namedIn?_eq_some_iff hbody, source?_skipBlanks]
    split <;> simp_all
  rw [hnamed]
  split <;> rfl

/-- A statement that begins with a word is recognised if the word is the name and a specifier
follows it. -/
theorem at?_word (t : TypeName) (s : Space) (i : Identifier) (hword : Stops isWord tail)
    (hlist : ∀ cs, skipBlanks tail ≠ '{' :: cs) :
    at? t.chars ("import".toList ++ (s.chars ++ (i.chars ++ tail))) =
      if i.chars = t.chars then ((skipBlanks1? tail).bind source?).map fun p => ((), p.2)
      else none := by
  rw [at?_import, named?_word s.toGap i hword hlist, Option.none_or, single?_word s i hword]
  split
  · rw [Option.map_map]
    rfl
  · rfl

/-- `type` and a word after it are not recognised. -/
theorem at?_type_word (t : TypeName) (s m : Space) (i : Identifier) (tail : List Char) :
    at? t.chars ("import".toList ++
      (s.chars ++ ("type".toList ++ (m.chars ++ (i.chars ++ tail))))) = none := by
  have hlist : ∀ cs, skipBlanks (m.chars ++ (i.chars ++ tail)) ≠ '{' :: cs := by
    rw [skipBlanks_append m.toGap (i.stops_blank tail)]
    exact append_ne_brace i tail
  have hat := at?_word t s BraceList.typeName (m.stops_word (i.chars ++ tail)) hlist
  rwa [if_neg (t.ne_of_isUpper (by decide))] at hat

/-- A word with a comma after it is not recognised. -/
theorem at?_led (t : TypeName) (s : Space) (i : Identifier) (g : Gap) (tail : List Char) :
    at? t.chars ("import".toList ++ (s.chars ++ (i.chars ++ (g.chars ++ ',' :: tail)))) = none := by
  have hcomma : Stops isBlank (',' :: tail) := rfl
  have hlist : ∀ cs, skipBlanks (g.chars ++ ',' :: tail) ≠ '{' :: cs := by
    intro cs heq
    rw [skipBlanks_append g hcomma] at heq
    exact absurd (List.cons.inj heq).1 (by decide)
  have hsource : (skipBlanks1? (g.chars ++ ',' :: tail)).bind source? = none := by
    refine Option.eq_none_iff_forall_ne_some.2 ?_
    rintro ⟨specifier, rest⟩ h
    obtain ⟨o, -, heq⟩ := ImportStatement.origin_iff.1 h
    rw [o.text_append] at heq
    exact absurd (Gap.cons_unique rfl rfl heq).1 (by decide)
  rw [at?_word t s i (g.stops_word (by exact rfl)) hlist, hsource]
  split <;> rfl

/-! ## What is left is an end of the text -/

theorem suffix_of_source? {specifier : List Char} (h : source? cs = some (specifier, rest)) :
    rest <:+ cs := by
  simp only [source?, Option.bind_eq_bind, Option.bind_eq_some_iff, skipBlanks1?_eq_some_iff,
    after?_eq_some_iff, quoted?_eq_some_iff] at h
  obtain ⟨_, rfl, _, ⟨s, rfl, -⟩, -, -, opening, closing, -, -, rfl⟩ := h
  exact ⟨"from".toList ++ (s.chars ++ opening :: (specifier ++ [closing])), by simp⟩

theorem suffix_of_namedHere? {name : List Char} {c : Char} (h : namedHere? name c cs = some r) :
    r <:+ cs := by
  simp only [namedHere?, Option.bind_eq_bind, Option.bind_eq_some_iff, after?_eq_some_iff] at h
  obtain ⟨q, rfl, h⟩ := h
  split at h
  · split at h
    · next d q' hdrop =>
      obtain ⟨p, hsource, rfl⟩ := Option.map_eq_some_iff.1 h
      have hlist : q' <:+ q := (List.suffix_cons d q').trans (hdrop ▸ List.dropWhile_suffix _)
      exact ((suffix_of_source? hsource).trans (List.dropWhile_suffix _)).trans
        (hlist.trans (List.suffix_append _ _))
    · cases h
  · cases h

theorem suffix_of_named? {name : List Char} (h : named? name cs = some r) : r <:+ cs := by
  obtain ⟨q, hbrace, hnamed⟩ := Option.bind_eq_some_iff.1 h
  obtain ⟨k, -, hhere⟩ := List.exists_of_findSome?_eq_some hnamed
  have hlist : r <:+ '{' :: q :=
    ((suffix_of_namedHere? hhere).trans (List.drop_suffix k q)).trans (List.suffix_cons _ _)
  rw [after?_eq_some_iff, List.singleton_append] at hbrace
  have hskip : skipBlanks cs <:+ cs := List.dropWhile_suffix _
  rw [← hbrace] at hlist
  refine hlist.trans ?_
  cases htype : after? "type".toList (skipBlanks cs) with
  | none => exact hskip
  | some q' =>
    have htail : q' <:+ skipBlanks cs := by
      rw [after?_eq_some_iff.1 htype]
      exact List.suffix_append _ _
    exact ((List.dropWhile_suffix _).trans htail).trans hskip

theorem suffix_of_single? {name : List Char} (h : single? name cs = some r) : r <:+ cs := by
  obtain ⟨j, -, hhere⟩ := List.exists_of_findSome?_eq_some h
  simp only [Option.bind_eq_bind, Option.bind_eq_some_iff, after?_eq_some_iff,
    skipBlanks1?_eq_some_iff] at hhere
  obtain ⟨_, hdrop, q, ⟨s, rfl, -⟩, hmap⟩ := hhere
  obtain ⟨p, hsource, rfl⟩ := Option.map_eq_some_iff.1 hmap
  have htail : q <:+ cs.drop (j + 1) := by
    rw [hdrop, ← List.append_assoc]
    exact List.suffix_append _ _
  exact ((suffix_of_source? hsource).trans htail).trans (List.drop_suffix _ _)

theorem opens_at? (name : List Char) : Recogniser.Opens "import".toList (at? name) where
  ne_nil := by decide
  exists_text {cs a rest} h := by
    obtain ⟨q, himport, hmap⟩ := Option.bind_eq_some_iff.1 h
    obtain ⟨r, hor, heq⟩ := Option.map_eq_some_iff.1 hmap
    obtain rfl : r = rest := (Prod.mk.inj heq).2
    have hsuffix : r <:+ q := by
      rcases Option.or_eq_some_iff.1 hor with hnamed | ⟨-, hsingle⟩
      · exact suffix_of_named? hnamed
      · exact suffix_of_single? hsingle
    obtain ⟨front, rfl⟩ := hsuffix
    exact ⟨"import".toList ++ front, List.prefix_append _ _,
      by rw [after?_eq_some_iff.1 himport, List.append_assoc]⟩

end TypeUse

end ImportAtlas
