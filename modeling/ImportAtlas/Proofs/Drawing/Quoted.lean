import ImportAtlas.Proofs.Drawing.Agreement
import ImportAtlas.Proofs.Text

/-!
# Strings of the Graphviz text

In a string of the Graphviz language a backslash pairs with the backslash or the quote after it, and
the first quote that is not paired closes the string. Texts are written with a backslash before each
of their quotes, but their backslashes are left alone. A string therefore ends where it should
exactly if each quote of the text, and the one that closes it, stands after an even number of
backslashes.
-/

namespace ImportAtlas

namespace Drawing

/-! ## Reading -/

/-- What a Graphviz text is made of: strings, and the characters between them. -/
inductive Lexeme where
  | char (c : Char)
  | string (cs : List Char)
  deriving DecidableEq

/-- The lexemes of a text. In a string, what was read of it is kept, and whether the next character
belongs to the backslash before it. -/
def lexemes : Option (List Char × Bool) → List Char → Option (List Lexeme)
  | none, [] => some []
  | none, c :: cs =>
    if c = '"' then lexemes (some ([], false)) cs else (lexemes none cs).map (.char c :: ·)
  | some _, [] => none
  | some (read, paired), c :: cs =>
    if c = '"' ∧ paired = false then (lexemes none cs).map (.string read :: ·)
    else lexemes (some (read ++ [c], c = '\\' && !paired)) cs

/-- The number of backslashes that a text ends in. -/
def backslashes (cs : List Char) : Nat := (cs.reverse.takeWhile (· = '\\')).length

/-- Each quote of a text stands after an even number of backslashes. -/
def QuotesBare (cs : List Char) : Prop :=
  ∀ before after, cs = before ++ '"' :: after → Even (backslashes before)

/-- A text whose quotes are bare, with that of the string around it. -/
def Enclosed (s : String) : Prop := QuotesBare (s.toList ++ ['"'])

/-! ## Bare quotes, one character at a time -/

/-- Whether quotes are bare in what is left of a text. -/
def bare : Bool → List Char → Bool
  | _, [] => true
  | paired, c :: cs => (c ≠ '"' || !paired) && bare (c = '\\' && !paired) cs

theorem backslashes_concat (cs : List Char) (c : Char) :
    backslashes (cs ++ [c]) = if c = '\\' then backslashes cs + 1 else 0 := by
  unfold backslashes
  split <;> simp [*]

theorem bare_iff (front cs : List Char) :
    bare (decide (Odd (backslashes front))) cs = true ↔
      ∀ before after, cs = before ++ '"' :: after → Even (backslashes (front ++ before)) := by
  induction cs generalizing front with
  | nil => simp [bare]
  | cons c cs ih =>
    have hpaired : (decide (c = '\\') && !decide (Odd (backslashes front))) =
        decide (Odd (backslashes (front ++ [c]))) := by
      rw [backslashes_concat, Bool.eq_iff_iff]
      by_cases hc : c = '\\' <;> simp [hc, Nat.odd_add_one]
    rw [bare, Bool.and_eq_true, hpaired, ih]
    constructor
    · rintro ⟨hc, hcs⟩ before after h
      cases before with
      | nil =>
        cases h
        simpa using hc
      | cons b before =>
        obtain ⟨rfl, hrest⟩ := List.cons.inj h
        simpa using hcs before after hrest
    · intro h
      refine ⟨?_, fun before after hcs => ?_⟩
      · by_cases hc : c = '"'
        · subst hc
          simpa using h [] cs rfl
        · simp [hc]
      · simpa using h (c :: before) after (by rw [hcs]; rfl)

theorem quotesBare_iff {cs : List Char} : QuotesBare cs ↔ bare false cs = true :=
  (bare_iff [] cs).symm

instance (cs : List Char) : Decidable (QuotesBare cs) := decidable_of_iff _ quotesBare_iff.symm

instance (s : String) : Decidable (Enclosed s) := inferInstanceAs (Decidable (QuotesBare _))

theorem bare_append_cons {c : Char} (hslash : c ≠ '\\') (hquote : c ≠ '"') (paired : Bool)
    (before after : List Char) :
    bare paired (before ++ c :: after) = (bare paired before && bare false after) := by
  induction before generalizing paired with
  | nil => simp [bare, hslash, hquote]
  | cons b before ih => rw [List.cons_append, bare, bare, ih, Bool.and_assoc]

theorem bare_concat_backslash (paired : Bool) (cs : List Char) :
    bare paired (cs ++ ['\\']) = bare paired cs := by
  induction cs generalizing paired with
  | nil => simp [bare]
  | cons c cs ih => rw [List.cons_append, bare, bare, ih]

/-! ## What strings are read -/

/-- How a text is written in a string. -/
def escaped (cs : List Char) : List Char := Text.replaceChar '"' ['\\', '"'] cs

theorem escaped_cons (c : Char) (cs : List Char) :
    escaped (c :: cs) = (if c = '"' then ['\\', '"'] else [c]) ++ escaped cs := by
  simp [escaped, Text.replaceChar]

/-- A string that is being read only grows. -/
theorem exists_string_of_lexemes {read cs : List Char} {paired : Bool} {out : List Lexeme}
    (h : lexemes (some (read, paired)) cs = some out) :
    ∃ more rest, out = .string (read ++ more) :: rest := by
  induction cs generalizing read paired with
  | nil => cases h
  | cons c cs ih =>
    rw [lexemes] at h
    split at h
    · obtain ⟨rest, -, rfl⟩ := Option.map_eq_some_iff.1 h
      exact ⟨[], rest, by rw [List.append_nil]⟩
    · obtain ⟨more, rest, rfl⟩ := ih h
      exact ⟨c :: more, rest, by rw [List.append_assoc]; rfl⟩

/-- The string ends where it was closed exactly if quotes are bare from here on. -/
theorem lexemes_escaped_iff (s rest : List Char) (out : List Lexeme) (read : List Char)
    (paired : Bool) :
    lexemes (some (read, paired)) (escaped s ++ '"' :: rest) =
        some (.string (read ++ escaped s) :: out) ↔
      bare paired (s ++ ['"']) = true ∧ lexemes none rest = some out := by
  induction s generalizing read paired with
  | nil =>
    show lexemes (some (read, paired)) ('"' :: rest) = some (.string (read ++ []) :: out) ↔ _
    rw [lexemes, List.append_nil]
    cases paired with
    | false => simp [bare]
    | true =>
      -- the closing quote is paired, so the string goes on
      simp only [reduceCtorEq, and_false, if_false]
      refine iff_of_false (fun h => ?_) (by simp [bare])
      obtain ⟨more, _, hlonger⟩ := exists_string_of_lexemes h
      simp at hlonger
  | cons c s ih =>
    rw [escaped_cons, List.cons_append, bare]
    by_cases hc : c = '"'
    · subst hc
      rw [if_pos rfl]
      show lexemes (some (read, paired)) ('\\' :: '"' :: (escaped s ++ '"' :: rest)) = _ ↔ _
      rw [lexemes, if_neg (by simp), lexemes]
      cases paired with
      | false =>
        have hread : read ++ (['\\', '"'] ++ escaped s) = read ++ ['\\'] ++ ['"'] ++ escaped s := by
          simp
        rw [if_neg (by simp), hread, ih]
        simp
      | true =>
        -- the backslash before the quote is paired, so the quote closes the string
        rw [if_pos (by simp)]
        refine iff_of_false (fun h => ?_) (by simp)
        obtain ⟨_, -, hshorter⟩ := Option.map_eq_some_iff.1 h
        simp at hshorter
    · have hread : read ++ ([c] ++ escaped s) = read ++ [c] ++ escaped s := by simp
      rw [if_neg hc, hread]
      show lexemes (some (read, paired)) (c :: (escaped s ++ '"' :: rest)) = _ ↔ _
      rw [lexemes, if_neg (by simp [hc]), ih]
      simp [hc]

/-! ## What texts are read -/

/-- What a Graphviz text is written from. -/
inductive Piece where
  /-- Anything but a string. -/
  | code (s : String)
  /-- A string. -/
  | quoted (s : String)

def Piece.text : Piece → List Char
  | code s => s.toList
  | quoted s => (dotQuoted s).toList

/-- What a piece is meant to be read as. -/
def Piece.lexemes : Piece → List Lexeme
  | code s => s.toList.map .char
  | quoted s => [.string (escaped s.toList)]

/-- A piece of code has no quotes. -/
def Piece.Plain : Piece → Prop
  | code s => '"' ∉ s.toList
  | quoted _ => True

/-- A string ends at the quote that was written to close it. -/
def Piece.Closed : Piece → Prop
  | code _ => True
  | quoted s => Enclosed s

/-- A text is read as some pieces. -/
def ReadAs (text : String) (pieces : List Piece) : Prop :=
  lexemes none text.toList = some (pieces.flatMap Piece.lexemes)

theorem lexemes_code_iff {cs : List Char} (h : '"' ∉ cs) (rest : List Char) (out : List Lexeme) :
    lexemes none (cs ++ rest) = some (cs.map .char ++ out) ↔ lexemes none rest = some out := by
  induction cs with
  | nil => rfl
  | cons c cs ih =>
    obtain ⟨hc, hcs⟩ := List.ne_and_not_mem_of_not_mem_cons h
    rw [List.cons_append, lexemes, if_neg hc.symm, ← ih hcs]
    simp

theorem lexemes_quoted_iff (s : String) (rest : List Char) (out : List Lexeme) :
    lexemes none ((dotQuoted s).toList ++ rest) = some (.string (escaped s.toList) :: out) ↔
      Enclosed s ∧ lexemes none rest = some out := by
  have htext : (dotQuoted s).toList ++ rest = '"' :: (escaped s.toList ++ '"' :: rest) := by
    simp [dotQuoted, escaped]
  rw [htext, lexemes, if_pos rfl, Enclosed, quotesBare_iff]
  exact lexemes_escaped_iff s.toList rest out [] false

/-- A text that is written from pieces is read as these pieces exactly if its strings are closed. -/
theorem readAs_iff {text : String} {pieces : List Piece}
    (htext : text.toList = pieces.flatMap Piece.text) (hplain : ∀ p ∈ pieces, p.Plain) :
    ReadAs text pieces ↔ ∀ p ∈ pieces, p.Closed := by
  rw [ReadAs, htext]
  clear htext
  induction pieces with
  | nil => simp [lexemes]
  | cons p pieces ih =>
    obtain ⟨hp, hpieces⟩ := List.forall_mem_cons.1 hplain
    rw [List.flatMap_cons, List.flatMap_cons, List.forall_mem_cons, ← ih hpieces]
    cases p with
    | code s => exact (lexemes_code_iff hp _ _).trans (and_iff_right trivial).symm
    | quoted s => exact lexemes_quoted_iff s _ _

/-! ## Statements -/

/-- The statement of a node, in pieces. -/
def nodePieces (n : SourceFile String) : List Piece :=
  [.code ("  " ++ nodeId n.id ++ " [label="), .quoted (n.name ++ "\\n" ++ n.category),
    .code ", fillcolor=", .quoted (colourOf n.category), .code ", tooltip=", .quoted n.path,
    .code "];"]

/-- The statement of a link, in pieces. -/
def linkPieces (red : Bool) (l : Link) : List Piece :=
  [.code ("  " ++ nodeId l.source ++ " -> " ++ nodeId l.target ++ " [label="),
    .quoted (linkText l)] ++
    (if red then [.code ", color=", .quoted "red", .code ", penwidth=2"] else []) ++ [.code "];"]

/-- The whole text, in pieces. -/
def dotPieces (d : Drawing) : List Piece :=
  [.code "digraph Dependencies \x7b\n  rankdir=LR;\n  node [shape=box, style=filled, fontname=",
    .quoted "Helvetica", .code "];\n"] ++
    d.nodes.flatMap (fun n => nodePieces n ++ [.code "\n"]) ++
    d.links.flatMap (fun l => linkPieces (d.isRed l) l ++ [.code "\n"]) ++ [.code "\x7d\n"]

/-- The strings of a node's statement end where they should. The line break that stands after the
name in the label keeps the backslashes that the name ends in from what follows. -/
structure NodeEnclosed (n : SourceFile String) : Prop where
  name : QuotesBare n.name.toList
  category : Enclosed n.category
  path : Enclosed n.path

/-- The string of a link's statement ends where it should: only the last name reaches the quote. -/
structure LinkEnclosed (l : Link) : Prop where
  names : ∀ name ∈ l.names.dropLast, QuotesBare name.toList
  last : ∀ name ∈ l.names.getLast?, Enclosed name

theorem enclosed_label_iff {name category : String} :
    Enclosed (name ++ "\\n" ++ category) ↔ QuotesBare name.toList ∧ Enclosed category := by
  have htext : (name ++ "\\n" ++ category).toList ++ ['"'] =
      (name.toList ++ ['\\']) ++ 'n' :: (category.toList ++ ['"']) := by
    simp
  simp only [Enclosed, quotesBare_iff]
  rw [htext, bare_append_cons (by decide) (by decide), bare_concat_backslash, Bool.and_eq_true]

theorem enclosed_intercalate_cons_cons (name next : String) (names : List String) :
    Enclosed (String.intercalate ", " (name :: next :: names)) ↔
      QuotesBare name.toList ∧ Enclosed (String.intercalate ", " (next :: names)) := by
  have htext : (String.intercalate ", " (name :: next :: names)).toList ++ ['"'] =
      name.toList ++ ',' ::
        ([] ++ ' ' :: ((String.intercalate ", " (next :: names)).toList ++ ['"'])) := by
    simp [String.toList_intercalate]
  simp only [Enclosed, quotesBare_iff]
  rw [htext, bare_append_cons (by decide) (by decide), bare_append_cons (by decide) (by decide),
    Bool.and_eq_true]
  rfl

theorem enclosed_intercalate_iff {names : List String} :
    Enclosed (String.intercalate ", " names) ↔
      (∀ name ∈ names.dropLast, QuotesBare name.toList) ∧
        ∀ name ∈ names.getLast?, Enclosed name := by
  induction names with
  | nil => simp [Enclosed, quotesBare_iff, bare]
  | cons name names ih =>
    cases names with
    | nil => simp
    | cons next names =>
      rw [enclosed_intercalate_cons_cons, ih]
      simp [and_assoc]

theorem enclosed_linkText_iff {l : Link} : Enclosed (linkText l) ↔ LinkEnclosed l := by
  rw [linkText, enclosed_intercalate_iff]
  exact ⟨fun h => ⟨h.1, h.2⟩, fun h => ⟨h.names, h.last⟩⟩

/-- Colours have neither quotes nor backslashes. -/
theorem colourOf_quoted (category : String) :
    dotQuoted (colourOf category) = "\"" ++ colourOf category ++ "\"" ∧
      Enclosed (colourOf category) := by
  have hcolours : ∀ colour ∈ otherColour :: colours.map (·.2),
      dotQuoted colour = "\"" ++ colour ++ "\"" ∧ Enclosed colour := by
    decide
  apply hcolours
  unfold colourOf
  cases h : colours.lookup category with
  | none => exact List.mem_cons_self
  | some colour =>
    obtain ⟨before, after, heq, -⟩ := List.lookup_eq_some_iff.1 h
    rw [heq]
    simp

theorem quote_notMem_nodeId (id : Int) : '"' ∉ (nodeId id).toList :=
  notMem_nodeId (by decide) (by decide) (by decide) id

section Statements

variable (d : Drawing) (n : SourceFile String) (l : Link) (red : Bool)

theorem toList_dotNode : (dotNode n).toList = (nodePieces n).flatMap Piece.text := by
  have hcolour : (dotQuoted (colourOf n.category)).toList =
      '"' :: ((colourOf n.category).toList ++ ['"']) := by
    rw [(colourOf_quoted n.category).1]
    simp
  simp [dotNode, nodePieces, Piece.text, hcolour]

theorem toList_dotLink : (d.dotLink l).toList = (linkPieces (d.isRed l) l).flatMap Piece.text := by
  have hred : (dotQuoted "red").toList = "\"red\"".toList := by decide
  unfold dotLink dotAttributes linkPieces
  cases d.isRed l <;> simp [Piece.text, hred]

theorem toList_dot : d.dot.toList = d.dotPieces.flatMap Piece.text := by
  have hheader : "  node [shape=box, style=filled, fontname=\"Helvetica\"];".toList =
      "  node [shape=box, style=filled, fontname=".toList ++ (dotQuoted "Helvetica").toList ++
        "];".toList := by
    decide
  rw [dot, linesText, Text.toList_intercalate (by simp [dotLines]), dotLines, dotPieces]
  simp [hheader, Piece.text, toList_dotNode, toList_dotLink, List.flatMap_map, List.flatMap_assoc]

theorem plain_nodePieces : ∀ p ∈ nodePieces n, p.Plain := by
  simp [nodePieces, Piece.Plain, quote_notMem_nodeId]

theorem plain_linkPieces : ∀ p ∈ linkPieces red l, p.Plain := by
  cases red <;> simp [linkPieces, Piece.Plain, quote_notMem_nodeId]

theorem plain_dotPieces : ∀ p ∈ d.dotPieces, p.Plain := by
  simp only [dotPieces, List.forall_mem_append, List.forall_mem_flatMap]
  refine ⟨⟨⟨?_, fun n _ => ⟨plain_nodePieces n, ?_⟩⟩, fun l _ => ⟨plain_linkPieces l _, ?_⟩⟩, ?_⟩
  all_goals simp [Piece.Plain]

theorem closed_nodePieces_iff : (∀ p ∈ nodePieces n, p.Closed) ↔ NodeEnclosed n := by
  simp only [nodePieces, List.forall_mem_cons, Piece.Closed, enclosed_label_iff]
  constructor
  · rintro ⟨-, ⟨hname, hcategory⟩, -, -, -, hpath, -⟩
    exact ⟨hname, hcategory, hpath⟩
  · rintro ⟨hname, hcategory, hpath⟩
    simp [hname, hcategory, hpath, (colourOf_quoted n.category).2]

theorem closed_linkPieces_iff : (∀ p ∈ linkPieces red l, p.Closed) ↔ LinkEnclosed l := by
  have hred : Enclosed "red" := by decide
  rw [← enclosed_linkText_iff]
  cases red <;> simp [linkPieces, Piece.Closed, hred]

theorem closed_dotPieces_iff : (∀ p ∈ d.dotPieces, p.Closed) ↔
    (∀ n ∈ d.nodes, NodeEnclosed n) ∧ ∀ l ∈ d.links, LinkEnclosed l := by
  have hfont : (Piece.quoted "Helvetica").Closed := by
    show Enclosed "Helvetica"
    decide
  simp only [dotPieces, List.forall_mem_append, List.forall_mem_flatMap, List.forall_mem_cons,
    closed_nodePieces_iff, closed_linkPieces_iff, iff_true_intro hfont]
  simp [Piece.Closed]

end Statements

/-- The Graphviz text of a report is read as it was written exactly if the strings of all its
statements are closed where they should be, and each statement by itself exactly if its own are. -/
theorem dot_read_as_written_iff (highlight : Bool) (r : Report String) :
    let d := ofReport highlight r
    (Report.ofTexts r).toDot highlight = .ok d.dot ∧
    (∀ n, ReadAs (dotNode n) (nodePieces n) ↔ NodeEnclosed n) ∧
    (∀ l, ReadAs (d.dotLink l) (linkPieces (d.isRed l) l) ↔ LinkEnclosed l) ∧
    (ReadAs d.dot d.dotPieces ↔
      (∀ n ∈ r.nodes, NodeEnclosed n) ∧ ∀ l ∈ linksOf r.edges, LinkEnclosed l) := by
  intro d
  refine ⟨Report.toDot_ofTexts highlight r, ?_, ?_, ?_⟩
  · intro n
    rw [readAs_iff (toList_dotNode n) (plain_nodePieces n), closed_nodePieces_iff]
  · intro l
    rw [readAs_iff (toList_dotLink d l) (plain_linkPieces l _), closed_linkPieces_iff]
  · rw [readAs_iff (toList_dot d) (plain_dotPieces d), closed_dotPieces_iff]
    rfl

/-- A report on one file that imports itself, with the given name, path and imported names. -/
def selfImport (name path : String) (imported : List String) : Report String where
  timestamp := "now"
  project := ⟨"p", "/p", "atlas"⟩
  summary := ⟨1, 1, 1, imported.length, 1, 0⟩
  typeNodes := []
  nodes := [⟨0, name, path, "other", imported.length, 0⟩]
  edges := imported.map fun i => ⟨0, 0, i, "./a", 1⟩
  cycles := [[0]]
  unusedExports := []

/-- Quotes do no harm, nor do backslashes in pairs or at the end of a name that another follows. -/
theorem selfImport_read_as_written :
    let r := selfImport "the \"a\".ts" "src\\\\" ["b\\", "c\"d"]
    ((∀ n ∈ r.nodes, NodeEnclosed n) ∧ ∀ l ∈ linksOf r.edges, LinkEnclosed l) ∧
      ReadAs (ofReport true r).dot (ofReport true r).dotPieces := by
  intro r
  have hnodes : ∀ n ∈ r.nodes, NodeEnclosed n :=
    List.forall_mem_singleton.2 ⟨by decide, by decide, by decide⟩
  have hlinks : ∀ l ∈ linksOf r.edges, LinkEnclosed l :=
    List.forall_mem_singleton.2 ⟨by decide, by decide⟩
  obtain ⟨-, -, -, hread⟩ := dot_read_as_written_iff true r
  exact ⟨⟨hnodes, hlinks⟩, hread.2 ⟨hnodes, hlinks⟩⟩

/-- A backslash at the end of a path takes the closing quote, and the string does not end. -/
theorem trailing_backslash_unclosed :
    ((Report.ofTexts (selfImport "a.ts" "src\\" [])).toDot true).toOption.map
      (fun text => lexemes none text.toList) = some none := by
  decide +kernel

end Drawing

end ImportAtlas
