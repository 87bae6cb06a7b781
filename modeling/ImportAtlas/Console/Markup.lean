import ImportAtlas.Label
import ImportAtlas.Text.Blank
import ImportAtlas.Text.Case
import ImportAtlas.Text.Search

/-!
# Console markup

Lines for a terminal carry styles as tags in square brackets: `[red]late[/red]`. A tag begins with
a small letter, `#`, `@` or `/`, and holds no further opening bracket; other brackets are text.
Backslashes in front of a tag count in pairs, one of each pair shown, and an odd one makes the tag
text. `escape` writes a text so that its tags are shown, and `render` gives what a terminal without
styles shows.
-/

namespace ImportAtlas.Console.Markup

def beginsTag (c : Char) : Bool := ('a' ≤ c && c ≤ 'z') || c == '#' || c == '/' || c == '@'

/-- The inside of the tag whose opening bracket stands before the text. -/
def tag? (cs : List Char) : Option (List Char) :=
  let body := cs.takeWhile fun c => c != ']' && c != '['
  if body.head?.any beginsTag && (cs.drop body.length).head? == some ']' then some body else none

def slashes (n : Nat) : List Char := List.replicate n '\\'

/-! ## Escaping -/

/-- Escapes the tags of a text that follows some backslashes. -/
def escapeFrom (before : Nat) : List Char → List Char
  | [] => []
  | c :: cs =>
    if c = '[' ∧ (tag? cs).isSome then slashes (before + 1) ++ c :: escapeFrom 0 cs
    else c :: escapeFrom (if c = '\\' then before + 1 else 0) cs

/-- A single backslash at the end is doubled, so that it cannot escape what follows. -/
def closeSlash (cs : List Char) : List Char :=
  match cs.reverse with
  | '\\' :: '\\' :: _ => cs
  | '\\' :: _ => cs ++ ['\\']
  | _ => cs

/-- The markup that shows a text. -/
def escape (s : String) : String := String.ofList (closeSlash (escapeFrom 0 s.toList))

/-! ## Rendering -/

inductive Piece where
  | text (cs : List Char)
  | tag (body : List Char)
  deriving DecidableEq, Repr

/-- The parts of a text that follows some backslashes and begins with characters to skip. -/
def pieces (before : Nat) : Nat → List Char → List Piece
  | _, [] => [.text (slashes before)]
  | skip + 1, _ :: cs => pieces 0 skip cs
  | 0, c :: cs =>
    if c = '\\' then pieces (before + 1) 0 cs
    else if c = '[' then
      match tag? cs with
      | some body =>
        .text (slashes (before / 2)) ::
          (if before % 2 = 1 then .text ('[' :: body ++ [']']) else .tag body) ::
          pieces 0 (body.length + 1) cs
      | none => .text (slashes (before - 1) ++ ['[']) :: pieces 0 0 cs
    else .text (slashes before ++ [c]) :: pieces 0 0 cs

def shortStyles : List (String × String) :=
  [("b", "bold"), ("c", "conceal"), ("d", "dim"), ("i", "italic"), ("o", "overline"),
   ("r", "reverse"), ("s", "strike"), ("u", "underline"), ("uu", "underline2")]

/-- The style that a tag names, in small letters and in full. -/
def styleOf (name : List Char) : String :=
  let s := Text.lower (String.ofList (Text.trim name))
  (shortStyles.lookup s).getD s

/-- A tag closes a style that is not open. -/
structure MarkupError where
  closing : String
  deriving DecidableEq, Repr

/-- Closes the style opened last among those of that name. -/
def close? (style : String) : List String → Option (List String)
  | [] => none
  | s :: styles => if s = style then some styles else (close? style styles).map (s :: ·)

/-- What a tag does to the open styles, the last opened first. -/
def applyTag (body : List Char) (styles : List String) : Except MarkupError (List String) :=
  let name := body.takeWhile (· != '=')
  match name with
  | '/' :: style =>
    let closed := if Text.trim style = [] then styles.tail? else close? (styleOf style) styles
    match closed with
    | some rest => .ok rest
    | none => .error ⟨String.ofList name⟩
  | _ => .ok (styleOf name :: styles)

/-- What the parts show, under some open styles. -/
def shown (styles : List String) : List Piece → Except MarkupError (List Char)
  | [] => .ok []
  | .text cs :: ps => do return cs ++ (← shown styles ps)
  | .tag body :: ps => do shown (← applyTag body styles) ps

/-- What a terminal without styles shows. -/
def render (s : String) : Except MarkupError (List Char) := shown [] (pieces 0 0 s.toList)

end ImportAtlas.Console.Markup
