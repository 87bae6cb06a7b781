import ImportAtlas.Label
import ImportAtlas.Settings.Toml.Item
import ImportAtlas.Settings.Toml.Scalar

/-!
# Keys and values

A line with an equals sign sets a key (`setPair`). The dots in a key lead through tables, which are
made where they are missing. A value is a text, an array, an inline table or a scalar (`readValue`);
an inline table is set pair by pair in the same way. A text of several lines may only begin on the
line, and then it is left open for the lines that follow.
-/

namespace ImportAtlas.Toml

/-! ## Keys -/

/-- A key: the tables that its dots lead through, and its name. -/
structure Key where
  levels : List String
  name : String
  deriving DecidableEq, Repr

/-- The parts of a dotted key that has quotes: quoted parts as they are, the others without blanks
around them. -/
def quotedLevels : Bool → List (List Char) → List (List Char)
  | _, [] => []
  | true, p :: ps => p :: quotedLevels false ps
  | false, p :: ps => (Text.splitAt '.' p).map Text.trim ++ quotedLevels true ps

/-- The key in the text before an equals sign. Empty parts lead nowhere, and one part is not
empty. -/
def readKey (cs : List Char) : Reading Key :=
  if cs.contains '.' then
    let levels :=
      if cs.any isQuote then quotedLevels false (piecesAtQuotes cs) else Text.splitAt '.' cs
    match levels.reverse.dropWhile List.isEmpty with
    | [] => pastEnd
    | name :: before =>
      .ok ⟨(before.reverse.filter (!·.isEmpty)).map String.ofList,
        String.ofList (Text.trim name)⟩
  else
    match cs with
    | [] => pastEnd
    | c :: _ =>
      if isQuote c && cs.getLast? == some c then
        (fun name => ⟨[], String.ofList name⟩) <$> unescape (dropEnds cs)
      else .ok ⟨[], String.ofList cs⟩

/-! ## Cutting a line -/

structure Cut where
  key : List Char
  value : List Char
  /-- Whether the value has the form of a plain number. -/
  plain : Bool

/-- Whether what follows an equals sign can be a value. Without a blank in front it has to be in
quotes or brackets, a truth value, or like a scalar. -/
def canBeValue (cs : List Char) : Bool :=
  match cs with
  | [] => true
  | c :: _ =>
    c == ' ' || c == '\t' || isQuote c || c == '[' || c == '{' ||
      Text.trim cs == "true".toList || Text.trim cs == "false".toList || isScalarLike cs

/-- Moves the cut to later equals signs until what follows can be a value. -/
def settleCut (line : List Char) : Nat → Nat → List (List Char) → List Char → Bool → Reading Cut
  | 0, _, _, _, _ => malformed
  | fuel + 1, n, before, value, plain =>
    if canBeValue value then
      .ok ⟨Text.trim (['='].intercalate before), Text.trim value, plain⟩
    else
      let ps := Text.splitTimes ['='] (n + 1) line
      let later := ps.getLast?.getD []
      if later == value then malformed
      else settleCut line fuel (n + 1) ps.dropLast later (plain && isPlainNumber later)

/-- Cuts a line at the first equals sign outside quotes that a value can follow. In a value that
begins with a digit low lines do not count. -/
def cutLine (line : List Char) : Reading Cut :=
  let n := cutsFor ['='] line
  let ps := Text.splitTimes ['='] n line
  let value := ps.getLast?.getD []
  settleCut line (line.length + 3) n ps.dropLast
    (if value.head?.any Char.isDigit then value.filter (· != '_') else value) (isPlainNumber value)

/-! ## Texts of several lines -/

/-- The last piece between commas that begins with a quote, with all after it. -/
def lastTextFrom (p : List Char) : List (List Char) → Reading (List Char)
  | [] => .ok p
  | q :: qs =>
    match p with
    | [] => pastEnd
    | c :: _ => if isQuote c then .ok p else lastTextFrom (q ++ ',' :: p) qs

/-- The text that the end of a value may leave open: its own, or that of the last item of an array
of texts. -/
def lastText (cs : List Char) : Reading (List Char) :=
  if cs.head? == some '[' && cs.getLast? != some ']' && isTextArray cs then
    match (Text.splitAt ',' (Text.trim (cs.drop 1))).reverse with
    | [] => pastEnd
    | p :: ps => lastTextFrom p ps
  else .ok cs

/-- Whether a value begins a text of several lines and does not end it. -/
def leavesOpen (cs : List Char) : Reading Bool := do
  if cs.length < 3 then return false
  match ← lastText cs with
  | [] => pastEnd
  | q :: r =>
    if !isQuote q then return false
    match r with
    | [] => pastEnd
    | [a] => if a == q then pastEnd else return false
    | a :: b :: _ =>
      return a == q && b == q && !(5 < r.length + 1 && endsTripled q (q :: r))

/-- A text that later lines continue. -/
structure OpenText where
  key : String
  text : List Char
  /-- Whether the next line is joined without a line end. -/
  joined : Bool

/-- The text at the end of a line: a backslash there joins it with the next line, without one a line
end follows. -/
def OpenText.ofLine (key : String) (text : List Char) : OpenText :=
  if endsEscaping text.reverse then ⟨key, text.dropLast, true⟩ else ⟨key, text ++ ['\n'], false⟩

/-! ## Pairs -/

/-- Changes the value that levels lead to, making the tables on the way. -/
def atLevels {α : Type} (f : Json → Reading (Json × α)) : List String → Json → Reading (Json × α)
  | [], v => f v
  | k :: ks, .obj t => do
    let (inner, a) ← atLevels f ks ((t.lookup k).getD (.obj []))
    return (.obj (Json.setMember k inner t), a)
  | _ :: _, _ => wrongKind

/-- Sets the key of a line in a table, where `read` reads values. The key is not set yet. A text
that later lines continue is given back instead. -/
def setPair (read : Bool → List Char → Reading (Json × Kind)) (line : List Char) (level : Json) :
    Reading (Json × Option OpenText) := do
  let cut ← cutLine line
  let key ← readKey cut.key
  atLevels (fun level => do
    let value ← if ← leavesOpen cut.value then pure none else some <$> read cut.plain cut.value
    match level, value with
    | .obj t, value =>
      if (t.lookup key.name).isSome then malformed
      else
        match value with
        | some (v, _) => return (.obj (t ++ [(key.name, v)]), none)
        | none =>
          if key.name.isEmpty then throw (.fault .noValue)
          else return (level, some (.ofLine key.name cut.value))
    | _, _ => malformed) key.levels level

/-- Sets the members of an inline table one by one, up to one that is left open. -/
def setMembers (read : Bool → List Char → Reading (Json × Kind)) :
    List (List Char) → Json → Reading Json
  | [], level => .ok level
  | m :: ms, level => do
    match ← setPair read m level with
    | (level, none) => setMembers read ms level
    | (level, some _) => return level

/-! ## Values -/

/-- The items of an array, all of one kind. Nothing between two commas is no item. -/
def readItems (read : List Char → Reading (Json × Kind)) :
    Option Kind → List (List Char) → Reading (List Json)
  | _, [] => .ok []
  | kind, p :: ps =>
    if p.all Text.isBlank then readItems read kind ps
    else do
      let (v, k) ← read (Text.trim p)
      if kind.any (· ≠ k) then malformed else (v :: ·) <$> readItems read (some k) ps

/-- A value, when collections are nested less than `fuel` deep. -/
def readValueIn : Nat → Bool → List Char → Reading (Json × Kind)
  | 0, _, _ => malformed
  | fuel + 1, plain, cs =>
    match cs with
    | [] => malformed
    | '[' :: _ => do
      let vs ← readItems (fun p => readValueIn fuel true p) none (← itemTexts cs)
      return (.arr vs, .array)
    | '{' :: _ => do
      let t ← setMembers (fun plain p => readValueIn fuel plain p) (← memberTexts cs) (.obj [])
      return (t, .table)
    | c :: _ =>
      if isQuote c then (fun s => (.str s, .text)) <$> quotedText c cs else scalar plain cs

/-- A value. If it is not `plain`, it is no number. -/
def readValue (plain : Bool) (cs : List Char) : Reading (Json × Kind) :=
  readValueIn (cs.length + 1) plain cs

end ImportAtlas.Toml
