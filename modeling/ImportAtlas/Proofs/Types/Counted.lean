import ImportAtlas.Proofs.Types.Mentioned

/-!
# How often a type is imported

A plain import statement binds the names of a brace list, or one name. In a text that is written as
such statements between fillers, the uses of a type are counted exactly: each list that has the type
as a name or as an alias counts once, and so does each statement that binds it alone. A statement
that is not counted is passed over without another being found in it, since `import` stands neither
in its names nor in its specifier.
-/

namespace ImportAtlas

open Text Recogniser

namespace TypeUse

open ImportStatement (Origin)

/-! ## Plain statements -/

/-- An item of a list with the gaps around it. -/
structure Entry where
  before : Gap
  modifier : Option Space
  name : Identifier
  renamed : Option BraceList.Renaming
  after : Gap

def Entry.text (e : Entry) : List Char :=
  e.before.chars ++ (optionalKeyword "type" e.modifier ++
    (e.name.chars ++ ((e.renamed.map BraceList.Renaming.text).getD [] ++ e.after.chars)))

/-- The name and the alias. -/
def Entry.identifiers (e : Entry) : List Identifier :=
  e.name :: (e.renamed.map BraceList.Renaming.newName).toList

/-- The items of a list, and perhaps a comma and a gap after the last. -/
structure Entries where
  items : List Entry
  trailing : Option Gap

def Entries.body (l : Entries) : List Char :=
  joinWith ',' (l.items.map Entry.text ++ l.trailing.toList.map Gap.chars)

def Entries.identifiers (l : Entries) : List Identifier := l.items.flatMap Entry.identifiers

/-- A list, or one name. -/
inductive Subject where
  | list (modifier : Option Space) (l : Entries)
  | single (name : Identifier)

def Subject.text : Subject → List Char
  | .list modifier l => optionalKeyword "type" modifier ++ '{' :: (l.body ++ ['}'])
  | .single name => name.chars

def Subject.identifiers : Subject → List Identifier
  | .list _ l => l.identifiers
  | .single name => [name]

/-- A statement in which `import` stands only as the keyword. -/
structure PlainImport where
  afterImport : Space
  subject : Subject
  origin : Origin
  names_free : ∀ i ∈ subject.identifiers, ¬"import".toList <:+: i.chars
  specifier_free : ¬"import".toList <:+: origin.specifier

/-- What follows the keyword. -/
def PlainImport.clause (p : PlainImport) : List Char :=
  p.afterImport.chars ++ (p.subject.text ++ p.origin.text)

def PlainImport.text (p : PlainImport) : List Char := "import".toList ++ p.clause

/-- A list with the type as a name or as an alias. -/
def PlainImport.lists (t : TypeName) (p : PlainImport) : Bool :=
  match p.subject with
  | .list _ l => l.identifiers.any (·.chars = t.chars)
  | .single _ => false

/-- The type is the one name that is bound. -/
def PlainImport.isDefault (t : TypeName) (p : PlainImport) : Bool :=
  match p.subject with
  | .list .. => false
  | .single name => name.chars = t.chars

/-! ## The words of a statement -/

section Words

variable {holds : List Char → Prop}

theorem Entry.holds_text (h : WordLocal holds) (htype : ¬holds "type".toList)
    (has : ¬holds "as".toList) (e : Entry) :
    holds e.text ↔ ∃ i ∈ e.identifiers, holds i.chars := by
  rw [Entry.text, h.gap_append_iff, h.keyword_iff htype, Entry.identifiers]
  cases e.renamed with
  | none =>
    simp only [Option.map_none, Option.getD_none, List.nil_append, h.append_gap_iff]
    simp
  | some r =>
    have hafter : holds (r.newName.chars ++ e.after.chars) ↔ holds r.newName.chars :=
      h.append_gap_iff e.after
    simp only [Option.map_some, Option.getD_some, BraceList.Renaming.text, List.append_assoc]
    rw [h.append_iff (.inr (r.before.stops_word _)), h.gap_append_iff,
      h.append_iff (.inr (r.after.stops_word _)), or_iff_right has, h.gap_append_iff, hafter]
    simp

/-- What words settle holds of a list if it holds of one of its names and aliases. -/
theorem Entries.holds_body (h : WordLocal holds) (htype : ¬holds "type".toList)
    (has : ¬holds "as".toList) (l : Entries) :
    holds l.body ↔ ∃ i ∈ l.identifiers, holds i.chars := by
  have htrailing : ∀ piece ∈ l.trailing.toList.map Gap.chars, ¬holds piece := by
    rintro piece hpiece
    obtain ⟨g, -, rfl⟩ := List.mem_map.1 hpiece
    exact h.not_gap g
  rw [Entries.body, h.joinWith_iff (by decide)]
  constructor
  · rintro ⟨piece, hpiece, hholds⟩
    rcases List.mem_append.1 hpiece with hpiece | hpiece
    · obtain ⟨e, he, rfl⟩ := List.mem_map.1 hpiece
      obtain ⟨i, hi, hholds⟩ := (e.holds_text h htype has).1 hholds
      exact ⟨i, List.mem_flatMap.2 ⟨e, he, hi⟩, hholds⟩
    · exact absurd hholds (htrailing piece hpiece)
  · rintro ⟨i, hi, hholds⟩
    obtain ⟨e, he, hi⟩ := List.mem_flatMap.1 hi
    exact ⟨e.text, List.mem_append_left _ (List.mem_map_of_mem he),
      (e.holds_text h htype has).2 ⟨i, hi, hholds⟩⟩

end Words

/-- The type stands in a list as a whole exactly if it is one of its names or aliases. -/
theorem Entries.wholeIn_body_iff (t : TypeName) (l : Entries) :
    WholeIn t.chars l.body ↔ l.identifiers.any (·.chars = t.chars) = true := by
  have hkeyword (w : Identifier) (hw : w.chars.head?.any Char.isUpper = false) :
      ¬WholeIn t.chars w.chars := by
    rw [wholeIn_identifier_iff]
    exact t.ne_of_isUpper hw
  have hbody := l.holds_body (wordLocal_wholeIn t.identifier)
    (hkeyword BraceList.typeName (by decide)) (hkeyword BraceList.asName (by decide))
  simp only [wholeIn_identifier_iff] at hbody
  simpa using hbody

theorem Entry.brace_notMem_text (e : Entry) : '}' ∉ e.text := by
  have hgap (g : Gap) : '}' ∉ g.chars := g.notMem (by decide)
  have hname (i : Identifier) : '}' ∉ i.chars := i.notMem (by decide)
  have hmodifier : '}' ∉ optionalKeyword "type" e.modifier :=
    notMem_optionalKeyword (by decide) (by decide) e.modifier
  have hrenamed : '}' ∉ (e.renamed.map BraceList.Renaming.text).getD [] := by
    cases e.renamed with
    | none => exact List.not_mem_nil
    | some r => simp [BraceList.Renaming.text, hgap, hname]
  simp [Entry.text, hgap, hname, hmodifier, hrenamed]

theorem Entries.brace_notMem_body (l : Entries) : '}' ∉ l.body := by
  intro h
  rcases mem_joinWith h with h | ⟨piece, hpiece, h⟩
  · exact absurd h (by decide)
  rcases List.mem_append.1 hpiece with hpiece | hpiece
  · obtain ⟨e, -, rfl⟩ := List.mem_map.1 hpiece
    exact e.brace_notMem_text h
  · obtain ⟨g, -, rfl⟩ := List.mem_map.1 hpiece
    exact g.notMem (by decide) h

/-! ## What is recognised -/

namespace PlainImport

theorem import_free_subject (p : PlainImport) : ¬"import".toList <:+: p.subject.text := by
  have hlocal := wordLocal_occurs importWord
  have hnames := p.names_free
  cases hsubject : p.subject with
  | single name =>
    rw [hsubject] at hnames
    exact hnames name (List.mem_singleton_self name)
  | list modifier l =>
    rw [hsubject] at hnames
    have hbody := l.holds_body hlocal (by decide) (by decide)
    have hopen : isWord '{' = false := by decide
    have hclose : isWord '}' = false := by decide
    intro h
    rw [Subject.text] at h
    rcases (hlocal.append_cons_iff hclose).1 ((hlocal.cons_iff hopen).1
      ((hlocal.keyword_iff (by decide) modifier).1 h)) with h | h
    · obtain ⟨i, hi, hoccurs⟩ := hbody.1 h
      exact hnames i hi hoccurs
    · exact hlocal.not_nil h

/-- Of the keyword `import` nothing is repeated in a statement. -/
theorem import_free_tail (p : PlainImport) : ¬"import".toList <:+: p.text.tail := by
  have hlocal := wordLocal_occurs importWord
  have hspace (s : Space) (a rest : List Char) : "import".toList <:+: a ++ (s.chars ++ rest) ↔
      "import".toList <:+: a ∨ "import".toList <:+: rest :=
    (hlocal.append_iff (.inr (s.stops_word rest))).trans
      (or_congr_right (hlocal.gap_append_iff s.toGap))
  have horigin : ¬"import".toList <:+: p.origin.specifier ++ [p.origin.closing] := fun h =>
    ((hlocal.append_cons_iff (isWord_of_isQuote p.origin.closes)).1 h).elim p.specifier_free
      hlocal.not_nil
  intro h
  rcases (hspace p.afterImport "mport".toList _).1 h with h | h
  · exact absurd h (by decide)
  rcases (hspace p.origin.beforeFrom p.subject.text _).1 h with h | h
  · exact p.import_free_subject h
  rcases (hspace p.origin.afterFrom "from".toList _).1 h with h | h
  · exact absurd h (by decide)
  · exact horigin ((hlocal.cons_iff (isWord_of_isQuote p.origin.opens)).1 h)

theorem closed_text (p : PlainImport) : Closed "import".toList p.text :=
  (((closed_origin importWord p.origin).append_left p.subject.text).append_left
    p.afterImport.chars).append_left "import".toList

theorem text_append (p : PlainImport) (rest : List Char) :
    p.text ++ rest = "import".toList ++ (p.clause ++ rest) :=
  List.append_assoc "import".toList p.clause rest

theorem at?_text (t : TypeName) (p : PlainImport) (rest : List Char) :
    TypeUse.at? t.chars (p.text ++ rest) =
      if p.lists t || p.isDefault t then some ((), rest) else none := by
  rw [text_append]
  obtain ⟨s, subject, o, -, -⟩ := p
  cases subject with
  | list modifier l =>
    have := decidable_of_iff _ (l.wholeIn_body_iff t).symm
    have hat := at?_list t s modifier l.brace_notMem_body o rest
    simp only [l.wholeIn_body_iff t] at hat
    simpa [clause, Subject.text, lists, isDefault] using hat
  | single name =>
    have hat := at?_word t s name (o.stops_word rest) (skipBlanks_ne_brace o rest)
    rw [ImportStatement.origin_iff.2 ⟨o, rfl, rfl⟩] at hat
    simpa [clause, Subject.text, lists, isDefault] using hat

/-- A statement is recognised before whatever follows it if it mentions the type, and otherwise
nothing is recognised in it. -/
theorem reads_text (t : TypeName) (p : PlainImport) (rest : List Char) :
    Found.Reads (TypeUse.at? t.chars) p.text rest
      (if p.lists t || p.isDefault t then some () else none) := by
  have hat := p.at?_text t rest
  split at hat
  · next hmentions => exact .inl ⟨(), if_pos hmentions, hat⟩
  · next hmentions =>
    exact .inr ⟨if_neg hmentions, fun back hne hback =>
      (opens_at? t.chars).pass_closed p.closed_text p.import_free_tail hat hne hback⟩

end PlainImport

/-! ## Sources -/

/-- No statement is both. -/
theorem countP_mentions (t : TypeName) {w : List Char} (pieces : List (PlainImport × Filler w)) :
    pieces.countP (fun p => p.1.lists t || p.1.isDefault t) =
      pieces.countP (fun p => p.1.lists t) + pieces.countP (fun p => p.1.isDefault t) := by
  induction pieces with
  | nil => rfl
  | cons p pieces ih =>
    have hone : p.1.lists t = false ∨ p.1.isDefault t = false := by
      rw [PlainImport.lists, PlainImport.isDefault]
      cases p.1.subject with
      | list => exact .inr rfl
      | single => exact .inl rfl
    simp only [List.countP_cons, ih]
    rcases hone with h | h
    · simp only [h, Bool.false_or, Bool.false_eq_true, if_false]
      omega
    · simp only [h, Bool.or_false, Bool.false_eq_true, if_false]
      omega

theorem countIn_plain (t : TypeName) (source : Source "import".toList PlainImport) :
    countIn t.text (String.ofList (source.content PlainImport.text)) =
      source.pieces.countP (fun p => p.1.lists t) +
        source.pieces.countP (fun p => p.1.isDefault t) := by
  have htext : ∀ p ∈ source.pieces, "import".toList <+: p.1.text := fun p _ =>
    List.prefix_append _ p.1.clause
  have hscan := source.scan_reads (opens_at? t.chars) (by decide)
    (fun p => if p.lists t || p.isDefault t then some () else none) htext
    fun p _ _ => p.1.reads_text t _
  have hlength := congrArg List.length hscan
  rw [List.length_map, List.length_filterMap_eq_countP] at hlength
  rw [countIn, TypeName.toList_text, String.toList_ofList, hlength, ← countP_mentions]
  refine List.countP_congr fun p _ => ?_
  cases p.1.lists t || p.1.isDefault t <;> simp

/-- Uses are counted exactly: in texts that are written as plain statements between fillers, a file
is listed with the number of lists that have the type as a name or as an alias and of statements
that bind it alone, and it is not listed if there are none. -/
theorem find_plain (t : TypeName) (sources : List (String × Source "import".toList PlainImport)) :
    find t.text (sources.map fun s => (s.1, String.ofList (s.2.content PlainImport.text))) =
      sources.filterMap fun s =>
        let n := s.2.pieces.countP (fun p => p.1.lists t) +
          s.2.pieces.countP (fun p => p.1.isDefault t)
        if n = 0 then none else some ⟨s.1, n⟩ := by
  rw [find, List.filterMap_map]
  refine List.filterMap_congr fun s _ => ?_
  simp only [Function.comp_apply, countIn_plain]

/-- A file in which the type is a name, an alias, a part of names and a default, and one in which
it is only a part of names. -/
def userSources : List (String × Source "import".toList PlainImport) :=
  let gap := Gap.empty
  let blank := Space.one
  let name (c : Char) (cs : List Char) (h : (c :: cs).all isWord = true) : Identifier :=
    ⟨c :: cs, h, List.cons_ne_nil c cs⟩
  let user := TypeName.user.identifier
  let users := name 'U' "sers".toList (by decide)
  let accented := name 'é' "User".toList (by decide +kernel)
  let line : Filler "import".toList := ⟨";\n".toList, by decide⟩
  [("a.ts", ⟨⟨"re".toList, by decide⟩,
      [(⟨blank, .list none ⟨[⟨gap, some blank, user, none, gap⟩,
            ⟨blank.toGap, none, users, none, gap⟩], none⟩, userOrigin, by decide, by decide⟩, line),
        (⟨blank, .list (some blank) ⟨[⟨gap, none, accented, some ⟨blank, blank, user⟩, gap⟩],
            some gap⟩, userOrigin, by decide +kernel, by decide⟩, line),
        (⟨blank, .list none ⟨[⟨gap, none, users, none, gap⟩], none⟩, userOrigin, by decide,
          by decide⟩, line),
        (⟨blank, .single user, userOrigin, by decide, by decide⟩, line)]⟩),
    ("b.ts", ⟨line, [(⟨blank, .single users, userOrigin, by decide, by decide⟩, line),
      (⟨blank, .single accented, userOrigin, by decide +kernel, by decide⟩, line)]⟩)]

theorem userSources_found :
    userSources.map (fun s => (s.1, String.ofList (s.2.content PlainImport.text))) =
        [("a.ts", "reimport \x7btype User, Users\x7d from \"./u\";\n" ++
            "import type \x7béUser as User,\x7d from \"./u\";\n" ++
            "import \x7bUsers\x7d from \"./u\";\nimport User from \"./u\";\n"),
          ("b.ts", ";\nimport Users from \"./u\";\nimport éUser from \"./u\";\n")] ∧
      find "User" (userSources.map fun s => (s.1, String.ofList (s.2.content PlainImport.text))) =
        [⟨"a.ts", 3⟩] :=
  ⟨by decide +kernel, (find_plain .user userSources).trans (by decide +kernel)⟩

end TypeUse

end ImportAtlas
