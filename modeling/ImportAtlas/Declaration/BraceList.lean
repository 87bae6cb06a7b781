import ImportAtlas.Declaration.Scan

/-!
# Brace lists

A brace list names bindings between commas. An item may begin with `type` and may rename its
binding with `as`; an import goes by the name before `as` and an export by the name after it.
-/

namespace ImportAtlas.BraceList

/-- `as` with blanks on both sides; the rest after them. -/
def renaming? (cs : List Char) : Option (List Char) := do
  let r ← Text.skipBlanks1? cs
  Recogniser.keyword? "as" r

/-- The parts of an item whose first `skip` characters belong to a renaming already found. -/
def partsFrom : Nat → List Char → List (List Char)
  | _, [] => [[]]
  | skip + 1, _ :: cs => partsFrom skip cs
  | 0, c :: cs =>
    match renaming? (c :: cs) with
    | some rest => [] :: partsFrom (Found.used (c :: cs) rest - 1) cs
    | none =>
      match partsFrom 0 cs with
      | p :: ps => (c :: p) :: ps
      | [] => [[c]]

/-- The parts of an item between its renamings. -/
def parts (item : List Char) : List (List Char) := partsFrom 0 item

/-- An item without the blanks around it and without `type` in front. -/
def bare (raw : List Char) : List Char :=
  let item := Text.trim raw
  (Recogniser.keyword? "type" item).getD item

/-- Which part of an item is its name. -/
inductive Side where
  | beforeAs
  | afterAs
  deriving DecidableEq, Repr

def pick (side : Side) (item : List Char) : List Char :=
  let ps := parts item
  Text.trim ((match side with
    | .beforeAs => ps.head?
    | .afterAs => ps.getLast?).getD [])

/-- The name of one piece between commas; an empty item has none. -/
def nameOf? (side : Side) (raw : List Char) : Option (List Char) :=
  let item := bare raw
  if item.isEmpty then none
  else
    let name := pick side item
    if name.isEmpty then none else some name

def names (side : Side) (body : List Char) : List (List Char) :=
  (Text.splitAt ',' body).filterMap (nameOf? side)

end ImportAtlas.BraceList
