import ImportAtlas.Declaration.Export
import ImportAtlas.Proofs.Declaration.BraceNames
import ImportAtlas.Proofs.Declaration.Scanned

/-!
# Export statements are read as they are written

`ExportStatement.Spelled` is the grammar of the statements, and the recogniser accepts exactly its
texts, with the whole of the declared word: a declaration ends where no word character follows. The
two forms share the word `type`, but what follows it tells them apart. A text that is written as
statements between fillers therefore gives one record for each exported name, in source order, if no
filler goes on with the name declared before it.
-/

namespace ImportAtlas

open Text Recogniser

namespace ExportStatement

/-! ## The grammar -/

/-- The modifiers of a declaration, each of which may be missing. -/
structure Modifiers where
  default : Option Space
  async : Option Space
  abstract : Option Space

def Modifiers.text (m : Modifiers) : List Char :=
  optionalKeyword "default" m.default ++
    (optionalKeyword "async" m.async ++ optionalKeyword "abstract" m.abstract)

/-- How a statement is spelled. -/
inductive Spelled : ExportStatement → List Char → Prop
  | named (afterExport : Space) (modifier : Option Space) {body : List Char} : body ≠ [] →
      '}' ∉ body → Spelled (.named body) ("export".toList ++ (afterExport.chars ++
        (optionalKeyword "type" modifier ++ '{' :: (body ++ ['}']))))
  | declared (afterExport : Space) (m : Modifiers) {w : String} (hw : w ∈ declaring)
      (afterKeyword : Space) (name : Identifier) :
      Spelled (.declared name.chars) ("export".toList ++ (afterExport.chars ++
        (m.text ++ (w.toList ++ (afterKeyword.chars ++ name.chars)))))

/-- Whether the statement can end before `rest`. -/
def Ends : ExportStatement → List Char → Prop
  | .named _, _ => True
  | .declared _, rest => Stops isWord rest

section Reading

variable {cs rest text : List Char} {s : ExportStatement} {words : List String} {w : String}

/-! ## Keywords in front -/

/-- The text begins with one of the words, blanks and a word character. -/
def Heads (words : List String) (cs : List Char) : Prop :=
  ∃ (i : Identifier) (t : Space) (c : Char) (tail : List Char), String.ofList i.chars ∈ words ∧
    isWord c = true ∧ cs = i.chars ++ (t.chars ++ c :: tail)

/-- A keyword that is not among the words in front is not read. -/
theorem Heads.keyword?_eq_none (h : Heads words cs) (hword : w.toList.all isWord = true)
    (hw : w ∉ words) : keyword? w cs = none := by
  obtain ⟨i, t, c, tail, hi, -, rfl⟩ := h
  refine Option.eq_none_iff_forall_ne_some.2 fun rest hkeyword => hw ?_
  obtain ⟨hchars, -⟩ := eq_of_keyword?_identifier hword i (t.stops_word _) hkeyword
  rwa [hchars, String.ofList_toList] at hi

theorem Heads.stops_blank (h : Heads words cs) : Stops isBlank cs := by
  obtain ⟨i, t, c, tail, -, -, rfl⟩ := h
  exact i.stops_blank _

theorem Heads.optionalKeyword (h : Heads words cs) (hword : w.toList.all isWord = true)
    (hne : w.toList ≠ []) (s : Option Space) : Heads (w :: words) (optionalKeyword w s ++ cs) := by
  cases s with
  | none =>
    obtain ⟨i, t, c, tail, hi, hc, rfl⟩ := h
    exact ⟨i, t, c, tail, List.mem_cons_of_mem w hi, hc, rfl⟩
  | some s =>
    obtain ⟨i, t, c, tail, -, -, rfl⟩ := h
    obtain ⟨d, ds, hi, hd⟩ := i.exists_eq_cons
    refine ⟨⟨w.toList, hword, hne⟩, s, d, ds ++ (t.chars ++ c :: tail), by simp, hd, ?_⟩
    rw [Text.optionalKeyword, hi, List.append_assoc, List.cons_append]

/-- A keyword that may be missing is skipped, if it is not among the words that follow it. -/
theorem Heads.skipKeyword (h : Heads words cs) (hword : w.toList.all isWord = true)
    (hw : w ∉ words) (s : Option Space) : skipKeyword w (Text.optionalKeyword w s ++ cs) = cs := by
  cases s with
  | none =>
    rw [Text.optionalKeyword, List.nil_append, ExportStatement.skipKeyword,
      h.keyword?_eq_none hword hw, Option.getD_none]
  | some s =>
    rw [Text.optionalKeyword, List.append_assoc, ExportStatement.skipKeyword,
      keyword?_append w s h.stops_blank, Option.getD_some]

theorem exists_skipKeyword (w : String) (cs : List Char) :
    ∃ s : Option Space, cs = optionalKeyword w s ++ skipKeyword w cs := by
  unfold skipKeyword
  cases h : keyword? w cs with
  | none => exact ⟨none, rfl⟩
  | some rest =>
    obtain ⟨s, rfl, -⟩ := keyword?_eq_some_iff.1 h
    exact ⟨some s, by simp [optionalKeyword]⟩

/-! ## Brace lists and declarations -/

theorem named?_eq_some_iff : named? cs = some (s, rest) ↔
    ∃ (modifier : Option Space) (body : List Char), body ≠ [] ∧ '}' ∉ body ∧ s = .named body ∧
      cs = optionalKeyword "type" modifier ++ '{' :: (body ++ '}' :: rest) := by
  rw [named?, Option.map_eq_some_iff]
  constructor
  · rintro ⟨⟨body, _⟩, hbraces, heq⟩
    obtain ⟨rfl, rfl⟩ := Prod.mk.inj heq
    obtain ⟨hne, hbody, hskip⟩ := braces?_eq_some_iff.1 hbraces
    obtain ⟨modifier, hcs⟩ := exists_skipKeyword "type" cs
    exact ⟨modifier, body, hne, hbody, rfl, by rwa [hskip] at hcs⟩
  · rintro ⟨modifier, body, hne, hbody, rfl, rfl⟩
    have hskip : skipKeyword "type" (optionalKeyword "type" modifier ++
        '{' :: (body ++ '}' :: rest)) = '{' :: (body ++ '}' :: rest) := by
      cases modifier with
      | none => rfl
      | some s =>
        rw [optionalKeyword, List.append_assoc, skipKeyword,
          keyword?_append "type" s (by exact rfl), Option.getD_some]
    exact ⟨(body, rest), braces?_eq_some_iff.2 ⟨hne, hbody, hskip⟩, rfl⟩

theorem declaring_words : ∀ w ∈ declaring, w.toList.all isWord = true ∧ w.toList ≠ [] := by
  decide

theorem heads_declaring (hw : w ∈ declaring) (t : Space) (name : Identifier) (rest : List Char) :
    Heads declaring (w.toList ++ (t.chars ++ (name.chars ++ rest))) := by
  obtain ⟨hword, hne⟩ := declaring_words w hw
  obtain ⟨c, cs, hname, hc⟩ := name.exists_eq_cons
  exact ⟨⟨w.toList, hword, hne⟩, t, c, cs ++ rest, by simpa using hw, hc, by rw [hname]; rfl⟩

theorem heads_modifiers (m : Modifiers) (hw : w ∈ declaring) (t : Space) (name : Identifier)
    (rest : List Char) : Heads ("default" :: "async" :: "abstract" :: declaring)
      (m.text ++ (w.toList ++ (t.chars ++ (name.chars ++ rest)))) := by
  have hdeclaring := heads_declaring hw t name rest
  have habstract := hdeclaring.optionalKeyword (w := "abstract") (by decide) (by decide) m.abstract
  have hasync := habstract.optionalKeyword (w := "async") (by decide) (by decide) m.async
  rw [Modifiers.text, List.append_assoc, List.append_assoc]
  exact hasync.optionalKeyword (by decide) (by decide) m.default

/-- Only one of the declaring keywords is read. -/
theorem findSome?_declaring (hw : w ∈ declaring) (t : Space) (h : Stops isBlank rest) :
    (declaring.findSome? fun k => keyword? k (w.toList ++ (t.chars ++ rest))) = some rest := by
  obtain ⟨hword, hne⟩ := declaring_words w hw
  cases hfind : declaring.findSome? fun k => keyword? k (w.toList ++ (t.chars ++ rest)) with
  | none =>
    have hnone := List.findSome?_eq_none_iff.1 hfind w hw
    rw [keyword?_append w t h] at hnone
    cases hnone
  | some r =>
    obtain ⟨k, hk, hkeyword⟩ := List.exists_of_findSome?_eq_some hfind
    obtain ⟨-, u, heq, hr⟩ := eq_of_keyword?_identifier (declaring_words k hk).1
      ⟨w.toList, hword, hne⟩ (t.stops_word rest) hkeyword
    rw [(h.run_unique hr t.blank u.blank heq).2]

theorem declared?_eq_some_iff : declared? cs = some (s, rest) ↔
    ∃ (m : Modifiers) (w : String) (t : Space) (name : Identifier), w ∈ declaring ∧
      s = .declared name.chars ∧ Stops isWord rest ∧
      cs = m.text ++ (w.toList ++ (t.chars ++ (name.chars ++ rest))) := by
  rw [declared?]
  simp only [Option.bind_eq_some_iff, Option.map_eq_some_iff]
  constructor
  · rintro ⟨r, hkeyword, ⟨_, _⟩, hname, heq⟩
    obtain ⟨rfl, rfl⟩ := Prod.mk.inj heq
    obtain ⟨name, rfl, rfl, hrest⟩ := word?_eq_some_iff.1 hname
    obtain ⟨w, hw, hkeyword⟩ := List.exists_of_findSome?_eq_some hkeyword
    obtain ⟨t, hskip, -⟩ := keyword?_eq_some_iff.1 hkeyword
    obtain ⟨d, hd⟩ := exists_skipKeyword "default" cs
    obtain ⟨a, ha⟩ := exists_skipKeyword "async" (skipKeyword "default" cs)
    obtain ⟨b, hb⟩ := exists_skipKeyword "abstract" (skipKeyword "async" (skipKeyword "default" cs))
    refine ⟨⟨d, a, b⟩, w, t, name, hw, rfl, hrest, ?_⟩
    rw [Modifiers.text, List.append_assoc, List.append_assoc, ← hskip, ← hb, ← ha, ← hd]
  · rintro ⟨m, w, t, name, hw, rfl, hrest, rfl⟩
    have hheads := heads_declaring hw t name rest
    have habstract := hheads.optionalKeyword (w := "abstract") (by decide) (by decide) m.abstract
    have hasync := habstract.optionalKeyword (w := "async") (by decide) (by decide) m.async
    rw [Modifiers.text, List.append_assoc, List.append_assoc,
      hasync.skipKeyword (by decide) (by decide), habstract.skipKeyword (by decide) (by decide),
      hheads.skipKeyword (by decide) (by decide)]
    exact ⟨name.chars ++ rest, findSome?_declaring hw t (name.stops_blank rest),
      (name.chars, rest), word?_append name hrest, rfl⟩

/-! ## Statements -/

/-- A declaration is not read as a brace list. -/
theorem named?_eq_none (m : Modifiers) (hw : w ∈ declaring) (t : Space) (name : Identifier)
    (rest : List Char) :
    named? (m.text ++ (w.toList ++ (t.chars ++ (name.chars ++ rest)))) = none := by
  obtain ⟨i, u, c, tail, -, hc, heads⟩ := heads_modifiers m hw t name rest
  refine Option.eq_none_iff_forall_ne_some.2 fun ⟨s, r⟩ hnamed => ?_
  obtain ⟨modifier, body, -, -, -, heq⟩ := named?_eq_some_iff.1 hnamed
  rw [heads] at heq
  cases modifier with
  | none =>
    obtain ⟨d, ds, hi, hd⟩ := i.exists_eq_cons
    rw [hi] at heq
    obtain rfl : d = '{' := (List.cons.inj heq).1
    exact absurd hd (by decide)
  | some v =>
    -- `type` is followed by a word character in a declaration and by a brace in a list
    rw [optionalKeyword, List.append_assoc] at heq
    obtain ⟨-, heq⟩ := (u.stops_word _).run_unique (v.stops_word _) i.word (by decide) heq
    obtain ⟨rfl, -⟩ := Gap.cons_unique (isBlank_of_isWord hc) rfl heq
    exact absurd hc (by decide)

/-- The recogniser accepts exactly what is spelled as a statement, with the whole of a declared
word. -/
theorem at?_eq_some_iff :
    at? cs = some (s, rest) ↔ ∃ text, Spelled s text ∧ s.Ends rest ∧ cs = text ++ rest := by
  simp only [at?, Option.bind_eq_bind, Option.bind_eq_some_iff, Option.or_eq_some_iff,
    keyword?_eq_some_iff]
  constructor
  · rintro ⟨r, ⟨afterExport, rfl, -⟩, hnamed | ⟨-, hdeclared⟩⟩
    · obtain ⟨modifier, body, hne, hbody, rfl, rfl⟩ := named?_eq_some_iff.1 hnamed
      exact ⟨_, .named afterExport modifier hne hbody, trivial, by simp⟩
    · obtain ⟨m, w, t, name, hw, rfl, hrest, rfl⟩ := declared?_eq_some_iff.1 hdeclared
      exact ⟨_, .declared afterExport m hw t name, hrest, by simp⟩
  · rintro ⟨_, hspelled, hends, rfl⟩
    cases hspelled with
    | @named afterExport modifier body hne hbody =>
      refine ⟨optionalKeyword "type" modifier ++ '{' :: (body ++ '}' :: rest),
        ⟨afterExport, by simp, ?_⟩,
        .inl (named?_eq_some_iff.2 ⟨modifier, body, hne, hbody, rfl, rfl⟩)⟩
      cases modifier with
      | none => exact rfl
      | some s => exact rfl
    | @declared afterExport m w hw t name =>
      refine ⟨m.text ++ (w.toList ++ (t.chars ++ (name.chars ++ rest))), ⟨afterExport, by simp, ?_⟩,
        .inr ⟨named?_eq_none m hw t name rest,
          declared?_eq_some_iff.2 ⟨m, w, t, name, hw, rfl, hends, rfl⟩⟩⟩
      exact (heads_modifiers m hw t name rest).stops_blank

theorem opens_at? : Recogniser.Opens "export".toList at? where
  ne_nil := by decide
  exists_text h := by
    obtain ⟨text, hspelled, -, rfl⟩ := at?_eq_some_iff.1 h
    cases hspelled with
    | named => exact ⟨_, List.prefix_append _ _, rfl⟩
    | declared => exact ⟨_, List.prefix_append _ _, rfl⟩

theorem spelled_of_mem_scan {f : Found ExportStatement} (hf : f ∈ Found.scan at? cs) :
    Spelled f.value f.text := by
  obtain ⟨_, after, -, -, -, hat⟩ := (Found.scanned_scan opens_at? cs).exists_of_mem hf
  obtain ⟨text, hspelled, -, htext⟩ := at?_eq_some_iff.1 hat
  rwa [List.append_cancel_right htext]

end Reading

/-! ## Statements as they are written -/

/-- A statement with all its blanks. -/
inductive Written where
  /-- A brace list. -/
  | list (afterExport : Space) (modifier : Option Space) (l : BraceList.Listing)
  /-- A declaration of one name. -/
  | declaration (afterExport : Space) (m : Modifiers) (w : String) (hw : w ∈ declaring)
      (afterKeyword : Space) (name : Identifier)

namespace Written

def text : Written → List Char
  | .list afterExport modifier l =>
    "export".toList ++ (afterExport.chars ++ (optionalKeyword "type" modifier ++ l.text))
  | .declaration afterExport m w _ afterKeyword name =>
    "export".toList ++ (afterExport.chars ++
      (m.text ++ (w.toList ++ (afterKeyword.chars ++ name.chars))))

/-- The exported names, those of a list after `as`. -/
def names : Written → List (List Char)
  | .list _ _ l => l.items.map fun i => (i.nameOn .afterAs).chars
  | .declaration _ _ _ _ _ name => [name.chars]

def isDeclaration : Written → Bool
  | .list .. => false
  | .declaration .. => true

def statement : Written → ExportStatement
  | .list _ _ l => .named l.body
  | .declaration _ _ _ _ _ name => .declared name.chars

theorem spelled (x : Written) : Spelled x.statement x.text := by
  cases x with
  | list afterExport modifier l =>
    exact .named afterExport modifier (BraceList.body_ne_nil l) (BraceList.brace_notMem_body l)
  | declaration afterExport m w hw afterKeyword name =>
    exact .declared afterExport m hw afterKeyword name

theorem names_statement (x : Written) : x.statement.names = x.names := by
  cases x with
  | list _ _ l => exact BraceList.names_body .afterAs l
  | declaration => rfl

theorem ends_statement {x : Written} {rest : List Char}
    (h : x.isDeclaration = true → Stops isWord rest) : x.statement.Ends rest := by
  cases x with
  | list => trivial
  | declaration => exact h rfl

end Written

end ExportStatement

open ExportStatement

/-- After a declaration the filler does not begin with a word character, and it is not empty unless
it ends the text. -/
def Separated : List (Written × Filler "export".toList) → Prop
  | [] => True
  | p :: after => (p.1.isDeclaration = true →
      Stops isWord p.2.chars ∧ (after ≠ [] → p.2.chars ≠ [])) ∧ Separated after

/-- No statement of a separated source goes on after its text. -/
theorem Separated.ends {pieces after : List (Written × Filler "export".toList)}
    {p : Written × Filler "export".toList} (h : Separated pieces)
    (hsuffix : p :: after <:+ pieces) :
    p.1.statement.Ends (p.2.chars ++ Source.written Written.text after) := by
  induction pieces with
  | nil => exact absurd (List.suffix_nil.1 hsuffix) (List.cons_ne_nil p after)
  | cons q pieces ih =>
    rcases List.suffix_cons_iff.1 hsuffix with heq | hsuffix
    · obtain ⟨rfl, rfl⟩ := List.cons.inj heq
      refine Written.ends_statement fun hdeclaration => ?_
      obtain ⟨hstops, hne⟩ := h.1 hdeclaration
      cases hchars : p.2.chars with
      | cons c cs => rwa [hchars] at hstops
      | nil =>
        have hlast : after = [] := Classical.not_not.1 fun hafter => hne hafter hchars
        rw [hlast]
        exact stops_nil
    · exact ih h.2 hsuffix

theorem exportsOf_eq (file : String) (cs : List Char) :
    exportsOf file (String.ofList cs) =
      ((Found.scan ExportStatement.at? cs).map fun f => (f.value, f.text)).flatMap fun p =>
        p.1.names.map fun name => ⟨file, String.ofList name, Text.lineOf cs p.2⟩ := by
  rw [exportsOf, String.toList_ofList, List.flatMap_map]
  rfl

/-- Reading undoes writing: a text that is written as export statements between fillers gives one
record for each exported name, in source order. -/
theorem exportsOf_written (file : String) (source : Source "export".toList Written)
    (h : Separated source.pieces) :
    let content := source.content Written.text
    exportsOf file (String.ofList content) =
      source.pieces.flatMap fun p => p.1.names.map fun name =>
        ⟨file, String.ofList name, Text.lineOf content p.1.text⟩ := by
  intro content
  have htext (x : Written) : "export".toList <+: x.text := by
    cases x <;> exact List.prefix_append _ _
  have hscan := source.scan_content opens_at? (by decide) (fun p _ => htext p.1)
    fun p after hsuffix =>
      at?_eq_some_iff.2 ⟨p.1.text, p.1.spelled, h.ends hsuffix, rfl⟩
  rw [exportsOf_eq, hscan, List.flatMap_map]
  refine List.flatMap_congr fun p _ => ?_
  rw [Written.names_statement]

/-- The names `type` and `as`, declared and listed, and a declaration with two modifiers. -/
def keywordExports : Source "export".toList Written where
  front := ⟨"ex".toList, by decide⟩
  pieces :=
    let blank := Space.one
    [(.declaration blank ⟨none, none, none⟩ "type" (by decide) blank BraceList.typeName,
        ⟨['\n'], by decide⟩),
      (.list blank (some blank) BraceList.keywordList, ⟨[], by decide⟩),
      (.declaration blank ⟨some blank, some blank, none⟩ "function" (by decide) blank
        BraceList.asName, ⟨[], by decide⟩)]

theorem keywordExports_read :
    Separated keywordExports.pieces ∧
      String.ofList (keywordExports.content Written.text) =
        "exexport type type\nexport type \x7b type as, as as type, type, \x7d" ++
          "export default async function as" ∧
      exportsOf "x.ts" (String.ofList (keywordExports.content Written.text)) =
        [⟨"x.ts", "type", 1⟩, ⟨"x.ts", "as", 2⟩, ⟨"x.ts", "type", 2⟩, ⟨"x.ts", "type", 2⟩,
          ⟨"x.ts", "as", 2⟩] := by
  have hseparated : Separated keywordExports.pieces :=
    ⟨fun _ => ⟨rfl, fun _ => List.cons_ne_nil _ _⟩, nofun,
      fun _ => ⟨trivial, fun h => absurd rfl h⟩, trivial⟩
  refine ⟨hseparated, by decide +kernel, ?_⟩
  exact (exportsOf_written "x.ts" keywordExports hseparated).trans (by decide +kernel)

/-- Two declarations with nothing between them. -/
def runTogether : Source "export".toList Written where
  front := ⟨[], by decide⟩
  pieces :=
    let constant (c : Char) (hc : [c].all isWord = true) : Written :=
      .declaration .one ⟨none, none, none⟩ "const" (by decide) .one ⟨[c], hc, by simp⟩
    [(constant 'a' (by decide), ⟨[], by decide⟩), (constant 'b' (by decide), ⟨[], by decide⟩)]

/-- It is not enough that no filler begins with a word character: nothing ends the first name. -/
theorem runTogether_misread :
    (∀ p ∈ runTogether.pieces, Stops isWord p.2.chars) ∧
      String.ofList (runTogether.content Written.text) = "export const aexport const b" ∧
      (exportsOf "x.ts" "export const aexport const b").map (·.name) = ["aexport"] ∧
      runTogether.pieces.flatMap (fun p => p.1.names.map String.ofList) = ["a", "b"] := by
  refine ⟨?_, by decide +kernel, by decide +kernel, by decide +kernel⟩
  intro p hp
  rcases List.mem_cons.1 hp with rfl | hp
  · exact stops_nil
  · rw [List.mem_singleton.1 hp]
    exact stops_nil

end ImportAtlas
