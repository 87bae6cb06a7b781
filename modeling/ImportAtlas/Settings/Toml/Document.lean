import ImportAtlas.Label
import ImportAtlas.Settings.Toml.Layout
import ImportAtlas.Settings.Toml.Value

/-!
# Reading a document

The second pass over a text. Its lines are headings, pairs, and the lines of a text that a pair has
left open; other lines say nothing. A heading opens a table for the pairs after it. A table that
only exists because a heading lies below it may get a heading of its own once, and it is known by
its name alone, wherever it lies.
-/

namespace ImportAtlas.Toml

/-! ## Headings -/

/-- A heading: of a table, or of a further table of an array. -/
structure Heading where
  further : Bool
  names : List String
  deriving DecidableEq, Repr

def isBareName (c : Char) : Bool := c.isAlphanum || c == '_' || c == '-'

/-- Whether a quoted name is complete. -/
def isClosedName (cs : List Char) : Bool := 1 < cs.length && cs.head? == cs.getLast?

/-- The names in the pieces between the dots of a heading. A quoted name goes on over dots until its
quote comes again at the end of a piece; `quoted` is what there is of one. -/
def readNames : Option (List Char) → List (List Char) → Reading (List String)
  | none, [] => .ok []
  | some _, [] => malformed
  | quoted, p :: ps =>
    let name := match quoted with
      | none => Text.trim p
      | some q => q ++ '.' :: p
    if name.head?.any isQuote then
      if isClosedName (Text.trim name) then
        (String.ofList (dropEnds (Text.trim name)) :: ·) <$> readNames none ps
      else readNames (some name) ps
    else if name.isEmpty || !name.all isBareName then malformed
    else (String.ofList name :: ·) <$> readNames none ps

/-- The names before the closing bracket `close`, which ends the line. -/
def readHeadingTo (further : Bool) (close cs : List Char) : Reading Heading := do
  let n := cutsFor close cs
  let ps := Text.splitTimes close n cs
  if ps.length ≤ n || !(ps.getLast?.getD []).all Text.isBlank then malformed
  else return ⟨further, ← readNames none (Text.splitAt '.' (close.intercalate ps.dropLast))⟩

def readHeading (line : List Char) : Reading Heading :=
  match line.drop 1 with
  | [] => malformed
  | '[' :: r => readHeadingTo true [']', ']'] r
  | r => readHeadingTo false [']'] r

/-! ## Opening tables -/

/-- A step from a value to one inside it. -/
inductive Step where
  | member (key : String)
  /-- To the last value of an array. -/
  | last
  deriving DecidableEq, Repr

/-- A value after a table inside it has been opened. -/
structure Opened where
  value : Json
  /-- The way to the table; none if what has been opened is no table. -/
  path : Option (List Step)
  /-- The names of tables that have no heading yet. -/
  implied : List String

/-- The value that holds what has been opened, one step further out. -/
def Opened.outward (o : Opened) (step : Step) (value : Json) : Opened :=
  { o with value, path := o.path.map (step :: ·) }

/-- Goes on with the last value of an array if the heading is of a further table. -/
def enter (further : Bool) (go : Json → Reading Opened) (v : Json) : Reading Opened :=
  if !further then go v
  else
    match v with
    | .obj _ => go v
    | .arr vs =>
      match vs.getLast? with
      | none => pastEnd
      | some w => do
        let o ← go w
        return o.outward .last (.arr (vs.dropLast ++ [o.value]))
    | .str s =>
      match s.toList.getLast? with
      | none => pastEnd
      | some c => do return { ← go (.str c.toString) with value := v, path := none }
    | _ => wrongKind

/-- What a heading makes where there is nothing. -/
def newTable (further final : Bool) : Json := if further && final then .arr [.obj []] else .obj []

/-- What a heading finds under a name of a table, and the names still without a heading. -/
def findTable (further final : Bool) (implied : List String) (name : String) (t : Table) :
    Reading (Json × List String) :=
  match t.lookup name with
  | none => .ok (newTable further final, if final then implied else implied ++ [name])
  | some v =>
    if !final then .ok (v, implied)
    else if implied.contains name then
      if further then malformed else .ok (v, implied.erase name)
    else if further then
      match v with
      | .arr vs => .ok (.arr (vs ++ [.obj []]), implied)
      | _ => wrongKind
    else malformed

/-- Opens the table that a heading names, from the value `v`. Through an array the way leads by its
last value, and what is there already may be opened again. -/
def openNames (further : Bool) : List String → List String → Json → Reading Opened
  | [], implied, v => .ok ⟨v, match v with | .obj _ => some [] | _ => none, implied⟩
  | name :: names, implied, v =>
    if name.isEmpty then malformed
    else
      match v with
      | .obj t => do
        let (w, implied) ← findTable further names.isEmpty implied name t
        let o ← enter further (fun w => openNames further names implied w) w
        return o.outward (.member name) (.obj (Json.setMember name o.value t))
      | .arr vs =>
        match vs.getLast? with
        | none => pastEnd
        | some (.obj t) => do
          let w := (t.lookup name).getD (newTable further names.isEmpty)
          let o ← enter further (fun w => openNames further names implied w) w
          let inner := o.outward (.member name) (.obj (Json.setMember name o.value t))
          return inner.outward .last (.arr (vs.dropLast ++ [inner.value]))
        | some _ => wrongKind
      | .str s => if s.isEmpty then pastEnd else wrongKind
      | _ => wrongKind

/-- Changes the value at the end of a way. -/
def alter {α : Type} (f : Json → Reading (Json × α)) : List Step → Json → Reading (Json × α)
  | [], v => f v
  | .member k :: path, .obj t => do
    let (inner, a) ← alter f path ((t.lookup k).getD .null)
    return (.obj (Json.setMember k inner t), a)
  | .last :: path, .arr vs => do
    let (inner, a) ← alter f path (vs.getLast?.getD .null)
    return (.arr (vs.dropLast ++ [inner]), a)
  | _ :: _, _ => wrongKind

/-! ## Lines -/

structure Draft where
  root : Json
  /-- The way to the table that pairs go into; none if the last heading has opened no table. -/
  path : Option (List Step)
  implied : List String
  /-- The text that the next lines continue. -/
  pending : Option OpenText

def Draft.start : Draft := ⟨.obj [], some [], [], none⟩

/-- Changes the table that pairs go into. -/
def Draft.change {α : Type} (d : Draft) (f : Json → Reading (Json × α)) : Reading (Draft × α) := do
  match d.path with
  | none => do
    let (_, a) ← f .null
    return (d, a)
  | some path => do
    let (root, a) ← alter f path d.root
    return ({ d with root }, a)

/-- Whether a line ends the text that it continues. -/
def endsText (text line : List Char) : Reading Bool :=
  match text with
  | '[' :: _ =>
    match line.getLast? with
    | none => pastEnd
    | some c => .ok (c == ']')
  | q :: _ => .ok (endsTripled q line)
  | [] => .ok false

/-- A line that continues a text. Blanks around it count only after a line end of the text. -/
def Draft.continueText (d : Draft) (p : OpenText) (line : List Char) : Reading Draft := do
  let line := if p.joined || !p.text.contains '\n' then Text.trim line else line
  if line.isEmpty && p.joined then return d
  let text := p.text ++ line
  if ← endsText text line then
    let (v, _) ← readValue true text
    let (d, _) ← d.change fun
      | .obj t => .ok (.obj (Json.setMember p.key v t), ())
      | _ => wrongKind
    return { d with pending := none }
  else return { d with pending := some (.ofLine p.key text) }

def Draft.readStatement (d : Draft) (line : List Char) : Reading Draft := do
  match line with
  | [] => return d
  | '[' :: _ =>
    let h ← readHeading line
    let o ← openNames h.further h.names d.implied d.root
    return { d with root := o.value, path := o.path, implied := o.implied }
  | '{' :: _ =>
    if line.getLast? != some '}' then malformed
    else
      let ms ← memberTexts line
      let (d, _) ← d.change fun level => (·, ()) <$> setMembers readValue ms level
      return d
  | _ =>
    if line.contains '=' then
      let (d, pending) ← d.change (setPair readValue line)
      return { d with pending }
    else return d

def Draft.readLine (d : Draft) (line : List Char) : Reading Draft :=
  match d.pending with
  | some p => d.continueText p line
  | none => d.readStatement (Text.trim line)

/-- The document of a text. A text that is still open at its end sets nothing. -/
def parse (s : String) : Reading Table := do
  let d ← (← layOut s.toList).foldlM Draft.readLine Draft.start
  match d.root with
  | .obj t => return t
  | _ => malformed

end ImportAtlas.Toml
