import ImportAtlas.Json.Basic

/-!
# Labels

Names, paths and categories are texts in an analysis, and whatever a document holds in a report
that was read back. The structures of the library are built over a label type, and what needs the
text of a label asks for it.
-/

namespace ImportAtlas

/-- Labels can be made from texts, compared, and asked for their text. -/
class Label (τ : Type) extends BEq τ where
  ofText : String → τ
  text? : τ → Option String

instance : Label String where
  ofText := id
  text? := some

instance : Label Json where
  ofText := .str
  text?
    | .str s => some s
    | _ => none

@[simp] theorem Label.text?_string (s : String) : Label.text? s = some s := rfl

@[simp] theorem Label.ofText_string (s : String) : (Label.ofText s : String) = s := rfl

end ImportAtlas
