import ImportAtlas.Proofs.Types.Mentioned

/-!
# Imports that are not counted as uses

Import statements are read in two ways: once for the names they bind, and once for the uses of a
type. A statement with a leading name, and one with `type` before a single name, binds its names but
is not recognised as a use of any of them; every other statement that binds the type by a list or as
its default is (`Reading.Plain`). So a type that a file imports by a plain statement is listed with
that file, and a file whose only statement imports the type and is not plain is not listed.
-/

namespace ImportAtlas

open Text Recogniser

/-! ## Readings -/

namespace ImportStatement

/-- What a statement binds besides its leading name. -/
inductive Form where
  | list (body : List Char) (ne_nil : body ≠ []) (closed : '}' ∉ body)
  | space (afterStar afterAs : Space) (name : Identifier)
  | single (name : Identifier)

def Form.text : Form → List Char
  | .list body _ _ => '{' :: (body ++ ['}'])
  | .space afterStar afterAs name =>
    '*' :: (afterStar.chars ++ ("as".toList ++ (afterAs.chars ++ name.chars)))
  | .single name => name.chars

def Form.bindings : Form → Bindings
  | .list body _ _ => .named body
  | .space _ _ name => .single name.chars
  | .single name => .single name.chars

/-- The type is a name of the list, or the one name that is bound. -/
def Form.Binds (t : TypeName) : Form → Prop
  | .list body _ _ => t.chars ∈ BraceList.names .beforeAs body
  | .space .. => False
  | .single name => name.chars = t.chars

/-- The type is the name of a namespace. -/
def Form.BindsSpace (t : TypeName) : Form → Prop
  | .space _ _ name => name.chars = t.chars
  | _ => False

def Form.isSingle : Form → Bool
  | .single _ => true
  | _ => false

instance (t : TypeName) : (f : Form) → Decidable (f.Binds t)
  | .list body _ _ => inferInstanceAs (Decidable (t.chars ∈ BraceList.names .beforeAs body))
  | .space .. => inferInstanceAs (Decidable False)
  | .single name => inferInstanceAs (Decidable (name.chars = t.chars))

/-- A statement with all its blanks, and with any text in its braces. -/
structure Reading where
  afterImport : Space
  modifier : Option Space
  leading : Option Leading
  form : Form
  origin : Origin

namespace Reading

/-- What follows the keywords. -/
def clause (r : Reading) : List Char :=
  (r.leading.map Leading.text).getD [] ++ (r.form.text ++ r.origin.text)

def text (r : Reading) : List Char :=
  "import".toList ++ (r.afterImport.chars ++ (optionalKeyword "type" r.modifier ++ r.clause))

def statement (r : Reading) : ImportStatement :=
  ⟨r.leading.map (·.name.chars), r.form.bindings, r.origin.specifier⟩

/-- The type is the leading name, or bound after it. -/
def Binds (t : TypeName) (r : Reading) : Prop :=
  (∃ l ∈ r.leading, l.name.chars = t.chars) ∨ r.form.Binds t

/-- No leading name, and no `type` before a single name. -/
def Plain (r : Reading) : Prop :=
  r.leading = none ∧ (r.form.isSingle = true → r.modifier = none)

instance (t : TypeName) (r : Reading) : Decidable (r.Binds t) :=
  inferInstanceAs (Decidable ((∃ l ∈ r.leading, l.name.chars = t.chars) ∨ r.form.Binds t))

instance (r : Reading) : Decidable r.Plain :=
  inferInstanceAs (Decidable (r.leading = none ∧ (r.form.isSingle = true → r.modifier = none)))

/-! ### Readings are the statements that are found -/

theorem spelled_form (f : Form) : f.bindings.Spelled f.text := by
  cases f with
  | list body ne_nil closed => exact .named ne_nil closed
  | space afterStar afterAs name => exact .space afterStar afterAs name
  | single name => exact .name name

theorem spelled (r : Reading) : Spelled r.statement r.text :=
  .mk r.afterImport r.modifier (.mk r.leading (spelled_form r.form) r.origin)

theorem exists_of_spelled {s : ImportStatement} {cs : List Char} (h : Spelled s cs) :
    ∃ r : Reading, r.text = cs ∧ r.statement = s := by
  obtain ⟨afterImport, modifier, leading, hbindings, origin⟩ := h
  cases hbindings with
  | named ne_nil closed => exact ⟨⟨_, _, _, .list _ ne_nil closed, origin⟩, rfl, rfl⟩
  | space afterStar afterAs name =>
    exact ⟨⟨_, _, _, .space afterStar afterAs name, origin⟩, rfl, rfl⟩
  | name name => exact ⟨⟨_, _, _, .single name, origin⟩, rfl, rfl⟩

theorem at?_text (r : Reading) (rest : List Char) :
    at? (r.text ++ rest) = some (r.statement, rest) :=
  at?_eq_some_iff.2 ⟨r.text, r.spelled, rfl⟩

/-- The text has this statement. -/
def FoundIn (content : List Char) (r : Reading) : Prop :=
  ∃ f ∈ Found.scan at? content, f.text = r.text ∧ f.value = r.statement

theorem exists_foundIn {content : List Char} {f : Found ImportStatement}
    (hf : f ∈ Found.scan at? content) :
    ∃ r : Reading, f.text = r.text ∧ f.value = r.statement := by
  obtain ⟨r, htext, hstatement⟩ := exists_of_spelled (spelled_of_mem_scan hf)
  exact ⟨r, htext.symm, hstatement.symm⟩

theorem mem_names_iff (t : TypeName) (r : Reading) :
    t.chars ∈ r.statement.names ↔ r.Binds t ∨ r.form.BindsSpace t := by
  obtain ⟨_, _, leading, form, _⟩ := r
  have hleading : t.chars ∈ (leading.map (·.name.chars)).toList ↔
      ∃ l ∈ leading, l.name.chars = t.chars := by
    simp
  rw [statement, names, List.mem_append, hleading]
  cases form with
  | list => simp [Binds, Form.Binds, Form.BindsSpace, Form.bindings]
  | space => simp [Binds, Form.Binds, Form.BindsSpace, Form.bindings, eq_comm]
  | single => simp [Binds, Form.Binds, Form.BindsSpace, Form.bindings, eq_comm]

/-- A type is a name of a record exactly if a statement of the text binds it. -/
theorem exists_import_iff (t : TypeName) (aliases : List String) (file content : String) :
    (∃ i ∈ importsOf aliases file content, i.name = t.text) ↔
      ∃ r : Reading, r.FoundIn content.toList ∧ (r.Binds t ∨ r.form.BindsSpace t) := by
  constructor
  · rintro ⟨i, hi, hname⟩
    obtain ⟨f, hf, hi⟩ := List.mem_flatMap.1 hi
    obtain ⟨name, hmem, rfl⟩ := List.mem_map.1 hi
    obtain rfl : name = t.chars := by simpa using congrArg String.toList hname
    obtain ⟨r, htext, hvalue⟩ := exists_foundIn hf
    exact ⟨r, ⟨f, hf, htext, hvalue⟩, (r.mem_names_iff t).1 (hvalue ▸ hmem)⟩
  · rintro ⟨r, ⟨f, hf, -, hvalue⟩, hbinds⟩
    have hmem : t.chars ∈ f.value.names := hvalue ▸ (r.mem_names_iff t).2 hbinds
    exact ⟨_, List.mem_flatMap.2 ⟨f, hf, List.mem_map_of_mem hmem⟩, rfl⟩

/-! ### Which of them are uses -/

theorem text_append (r : Reading) (rest : List Char) :
    r.text ++ rest = "import".toList ++ (r.afterImport.chars ++
      (optionalKeyword "type" r.modifier ++ (r.clause ++ rest))) := by
  refine (List.append_assoc "import".toList _ rest).trans ?_
  rw [List.append_assoc, List.append_assoc]

theorem use_of_plain (t : TypeName) {r : Reading} (hbinds : r.Binds t) (hplain : r.Plain)
    (rest : List Char) : TypeUse.at? t.chars (r.text ++ rest) = some ((), rest) := by
  rw [text_append]
  obtain ⟨s, modifier, leading, form, o⟩ := r
  obtain ⟨rfl, hform⟩ := hplain
  have hbound := hbinds.resolve_left (by simp)
  cases form with
  | list body ne_nil closed =>
    have hwhole : WholeIn t.chars body := BraceList.wholeIn_of_mem_names t.identifier hbound
    have := Decidable.isTrue hwhole
    have hat := TypeUse.at?_list t s modifier closed o rest
    rw [if_pos hwhole] at hat
    simpa [clause, Form.text] using hat
  | space => exact hbound.elim
  | single name =>
    obtain rfl : modifier = none := hform rfl
    have hname : name.chars = t.chars := hbound
    have hat := TypeUse.at?_word t s name (o.stops_word rest) (TypeUse.skipBlanks_ne_brace o rest)
    rw [if_pos hname, origin_iff.2 ⟨o, rfl, rfl⟩] at hat
    simpa [clause, Form.text, optionalKeyword] using hat

theorem no_use_of_not_plain (t : TypeName) {r : Reading} (h : ¬r.Plain) (rest : List Char) :
    TypeUse.at? t.chars (r.text ++ rest) = none := by
  rw [text_append]
  obtain ⟨s, modifier, leading, form, o⟩ := r
  cases leading with
  | some l =>
    cases modifier with
    | none =>
      simpa [clause, Leading.text, optionalKeyword] using TypeUse.at?_led t s l.name l.beforeComma _
    | some m =>
      simpa [clause, Leading.text, optionalKeyword] using TypeUse.at?_type_word t s m l.name _
  | none =>
    cases form with
    | list => exact absurd ⟨rfl, by simp [Form.isSingle]⟩ h
    | space => exact absurd ⟨rfl, by simp [Form.isSingle]⟩ h
    | single name =>
      cases modifier with
      | none => exact absurd ⟨rfl, fun _ => rfl⟩ h
      | some m =>
        simpa [clause, Form.text, optionalKeyword] using TypeUse.at?_type_word t s m name _

end Reading

end ImportStatement

namespace TypeUse

open ImportStatement (Reading)

/-! ## Which files are listed -/

theorem find_singleton_eq_nil_iff (name path content : String) :
    find name [(path, content)] = [] ↔ countIn name content = 0 := by
  by_cases h : countIn name content = 0
  · simp [find, h]
  · simp [find, h]

theorem mem_find {name path content : String} {sources : List (String × String)}
    (hsource : (path, content) ∈ sources) (h : 1 ≤ countIn name content) :
    ⟨path, countIn name content⟩ ∈ find name sources := by
  refine List.mem_filterMap.2 ⟨(path, content), hsource, ?_⟩
  exact if_neg (Nat.one_le_iff_ne_zero.1 h)

/-- Where a plain statement binds the type, a use begins or is still going on. -/
theorem one_le_countIn (t : TypeName) {r : Reading} {content : String}
    (hfound : r.FoundIn content.toList) (hbinds : r.Binds t) (hplain : r.Plain) :
    1 ≤ countIn t.text content := by
  obtain ⟨f, hf, htext, -⟩ := hfound
  obtain ⟨before, after, hcontent, -, hne, -⟩ :=
    (Found.scanned_scan ImportStatement.opens_at? content.toList).exists_of_mem hf
  have huse : (at? t.chars (f.text ++ after)).isSome = true := by
    rw [htext, Reading.use_of_plain t hbinds hplain]
    rfl
  obtain ⟨g, hg, -⟩ := (Found.scanned_scan (opens_at? t.chars) content.toList).covers hcontent
    (fun h => hne (List.append_eq_nil_iff.1 h).1) huse
  rw [countIn, TypeName.toList_text]
  exact List.length_pos_of_mem hg

theorem closed_reading (r : Reading) : Closed "import".toList r.text := by
  have hclause : Closed "import".toList r.clause :=
    ((closed_origin importWord r.origin).append_left r.form.text).append_left _
  exact ((hclause.append_left _).append_left r.afterImport.chars).append_left "import".toList

/-- A statement that is not plain has no use in it, if `import` does not stand in it again. -/
theorem countIn_eq_zero (t : TypeName) {r : Reading} (hplain : ¬r.Plain)
    (hfree : ¬"import".toList <:+: r.text.tail) : countIn t.text (String.ofList r.text) = 0 := by
  have hdone : Found.Scanned (at? t.chars) (0 + r.text.length) [] [] := .done _
  have hpass := hdone.pass fun back hne hback =>
    (opens_at? t.chars).pass_closed (closed_reading r) hfree
      (Reading.no_use_of_not_plain t hplain []) hne hback
  rw [List.append_nil] at hpass
  rw [countIn, TypeName.toList_text, String.toList_ofList, Found.scan, ← hpass.eq_scanFrom,
    List.length_nil]

theorem foundIn_text (r : Reading) : r.FoundIn r.text := by
  have hne : r.text ≠ [] := fun h => absurd (List.append_eq_nil_iff.1 h).1 (by decide)
  have hscan : Found.scan ImportStatement.at? (r.text ++ []) = ⟨r.statement, 0, r.text⟩ :: _ :=
    Found.scanFrom_found hne (r.at?_text [])
  rw [List.append_nil] at hscan
  exact ⟨_, hscan ▸ List.mem_cons_self, rfl, rfl⟩

/-- The records of a text name the type where one of its statements binds it. If that is a plain
statement with the type in its list or as its default, the file is listed as using the type. If it
is not plain and the only statement, the file is not listed. -/
theorem uses_of_plain_readings (t : TypeName) (aliases : List String) (file path content : String)
    (sources : List (String × String)) (hsource : (path, content) ∈ sources) :
    ((∃ i ∈ importsOf aliases file content, i.name = t.text) ↔
        ∃ r : Reading, r.FoundIn content.toList ∧ (r.Binds t ∨ r.form.BindsSpace t)) ∧
      (∀ r : Reading, r.FoundIn content.toList → r.Binds t → r.Plain →
        1 ≤ countIn t.text content ∧ ⟨path, countIn t.text content⟩ ∈ find t.text sources) ∧
      ∀ r : Reading, r.Binds t → ¬"import".toList <:+: r.text.tail →
        (∃ i ∈ importsOf aliases file (String.ofList r.text), i.name = t.text) ∧
          (find t.text [(path, String.ofList r.text)] = [] ↔ ¬r.Plain) := by
  refine ⟨Reading.exists_import_iff t aliases file content, ?_, ?_⟩
  · intro r hfound hbinds hplain
    have hcount := one_le_countIn t hfound hbinds hplain
    exact ⟨hcount, mem_find hsource hcount⟩
  · intro r hbinds hfree
    have hfound : r.FoundIn (String.ofList r.text).toList := by
      rw [String.toList_ofList]
      exact foundIn_text r
    refine ⟨(Reading.exists_import_iff t aliases file _).2 ⟨r, hfound, .inl hbinds⟩, ?_⟩
    rw [find_singleton_eq_nil_iff]
    constructor
    · intro hzero hplain
      have hcount := one_le_countIn t hfound hbinds hplain
      omega
    · exact fun hplain => countIn_eq_zero t hplain hfree

/-- A list with `type` before it and in it. -/
def typeListReading : Reading where
  afterImport := .one
  modifier := some .one
  leading := none
  form := .list " type User as U ".toList (by decide) (by decide)
  origin := userOrigin

/-- A leading name and a list. -/
def combinedReading : Reading where
  afterImport := .one
  modifier := none
  leading := some ⟨⟨"React".toList, by decide, by decide⟩, .empty, Space.one.toGap⟩
  form := .list " User ".toList (by decide) (by decide)
  origin := userOrigin

theorem typeList_listed_combined_missed :
    (String.ofList typeListReading.text = "import type \x7b type User as U \x7d from \"./u\"" ∧
        typeListReading.Binds .user ∧ typeListReading.Plain ∧
        1 ≤ countIn "User" (String.ofList typeListReading.text)) ∧
      String.ofList combinedReading.text = "import React, \x7b User \x7d from \"./u\"" ∧
        combinedReading.Binds .user ∧ ¬combinedReading.Plain ∧
        find "User" [("a.ts", String.ofList combinedReading.text)] = [] := by
  have hlisted : typeListReading.Binds .user ∧ typeListReading.Plain := by decide +kernel
  have hmissed : combinedReading.Binds .user ∧ ¬combinedReading.Plain ∧
      ¬"import".toList <:+: combinedReading.text.tail := by decide +kernel
  have hfound : typeListReading.FoundIn (String.ofList typeListReading.text).toList := by
    rw [String.toList_ofList]
    exact foundIn_text typeListReading
  have huses := uses_of_plain_readings .user [] "a.ts" "a.ts" (String.ofList typeListReading.text)
    [("a.ts", String.ofList typeListReading.text)] List.mem_cons_self
  exact ⟨⟨by decide +kernel, hlisted.1, hlisted.2, (huses.2.1 _ hfound hlisted.1 hlisted.2).1⟩,
    by decide +kernel, hmissed.1, hmissed.2.1,
    (huses.2.2 combinedReading hmissed.1 hmissed.2.2).2.2 hmissed.2.1⟩

/-- A name of a list after a leading name has a record and no use. -/
theorem combined_import_missed :
    let content := "import React, \x7b User \x7d from './user';\n"
    (importsOf [] "src/a.ts" content).map (·.name) = ["React", "User"] ∧
      find "User" [("src/a.ts", content)] = [] := by
  decide +kernel

end TypeUse

end ImportAtlas
