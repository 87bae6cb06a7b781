import ImportAtlas.Declaration.BraceList
import ImportAtlas.Proofs.Declaration.Tokens
import ImportAtlas.Proofs.Text

/-!
# The names of a brace list

An item is cut at its renamings: `parts` leaves no blank, `as` and blank in a row in any part. So
whatever the body of a brace list is, its names are trimmed pieces of it with neither comma nor
renaming inside (`Trimmed`). A list that is written item by item (`Listing`) has the name of each
item on either side of `as`.
-/

namespace ImportAtlas

namespace BraceList

open Text Recogniser

variable {c : Char} {cs rest : List Char}

/-! ## Cutting an item at its renamings -/

theorem renaming?_eq_some_iff : renaming? cs = some rest ↔
    ∃ before after : Space, cs = before.chars ++ ("as".toList ++ (after.chars ++ rest)) ∧
      Stops isBlank rest := by
  simp only [renaming?, Option.bind_eq_bind, Option.bind_eq_some_iff, skipBlanks1?_eq_some_iff,
    keyword?_eq_some_iff]
  constructor
  · rintro ⟨_, ⟨before, rfl, -⟩, after, rfl, hrest⟩
    exact ⟨before, after, rfl, hrest⟩
  · rintro ⟨before, after, rfl, hrest⟩
    exact ⟨_, ⟨before, rfl, rfl⟩, after, rfl, hrest⟩

theorem partsFrom_zero_cons (c : Char) (cs : List Char) :
    partsFrom 0 (c :: cs) = match renaming? (c :: cs) with
      | some rest => [] :: partsFrom (Found.used (c :: cs) rest - 1) cs
      | none => match partsFrom 0 cs with
        | p :: ps => (c :: p) :: ps
        | [] => [[c]] := by
  rfl

theorem partsFrom_skip (n : Nat) (cs : List Char) : partsFrom n cs = parts (cs.drop n) := by
  induction n generalizing cs with
  | zero => rw [List.drop_zero, parts]
  | succ n ih =>
    cases cs with
    | nil => rfl
    | cons c cs => exact ih cs

theorem parts_of_renaming (h : renaming? cs = some rest) : parts cs = [] :: parts rest := by
  obtain ⟨before, after, rfl, -⟩ := renaming?_eq_some_iff.1 h
  obtain ⟨c, front, hfront⟩ := List.exists_cons_of_ne_nil before.ne_nil
  have hcons : before.chars ++ ("as".toList ++ (after.chars ++ rest)) =
      c :: ((front ++ ("as".toList ++ after.chars)) ++ rest) := by
    simp [hfront]
  have hused : Found.used (c :: ((front ++ ("as".toList ++ after.chars)) ++ rest)) rest - 1 =
      (front ++ ("as".toList ++ after.chars)).length := by
    rw [Found.used, List.length_cons, List.length_append]
    omega
  rw [hcons] at h ⊢
  rw [parts, partsFrom_zero_cons, h]
  simp only [hused, partsFrom_skip, List.drop_left]

theorem parts_of_no_renaming (h : renaming? (c :: cs) = none) :
    parts (c :: cs) = consFirst c (parts cs) := by
  rw [parts, partsFrom_zero_cons, h, parts]
  dsimp only
  cases partsFrom 0 cs with
  | nil => rfl
  | cons p ps => rfl

theorem parts_append {run p : List Char} {ps : List (List Char)}
    (hrun : run.all isWord = true) (h : parts rest = p :: ps) :
    parts (run ++ rest) = (run ++ p) :: ps := by
  induction run with
  | nil => exact h
  | cons c run ih =>
    rw [List.all_cons, Bool.and_eq_true] at hrun
    have hnone : renaming? (c :: (run ++ rest)) = none := by
      rw [renaming?, skipBlanks1?, if_neg (by simp [isBlank_of_isWord hrun.1])]
      rfl
    rw [List.cons_append, parts_of_no_renaming hnone, ih hrun.2]
    rfl

/-- A blank, `as` and a blank stand in a row. -/
def Renames (cs : List Char) : Prop :=
  ∃ a b, isBlank a = true ∧ isBlank b = true ∧ [a, 'a', 's', b] <:+: cs

theorem renaming?_isSome {a b : Char} (ha : isBlank a = true) (hb : isBlank b = true)
    (h : [a, 'a', 's', b] <+: cs) : (renaming? cs).isSome := by
  obtain ⟨rest, rfl⟩ := h
  have hrun : (b :: rest.takeWhile isBlank).all isBlank = true := by simp [hb]
  refine Option.isSome_iff_exists.2 ⟨rest.dropWhile isBlank, renaming?_eq_some_iff.2
    ⟨⟨⟨[a], by simp [ha]⟩, by simp⟩, ⟨⟨_, hrun⟩, by simp⟩, ?_, stops_dropWhile _ _⟩⟩
  simp [List.takeWhile_append_dropWhile]

/-- Every part stands in the item and has no renaming inside; the first stands at its front. -/
theorem parts_spec (cs : List Char) : ∃ first others, parts cs = first :: others ∧ first <+: cs ∧
    ∀ p ∈ first :: others, p <:+: cs ∧ ¬Renames p := by
  have hnil : ¬Renames [] := fun ⟨_, _, _, _, h⟩ => by simp at h
  -- a renaming may be of any length, so the induction is on the length of the item
  induction hn : cs.length using Nat.strongRecOn generalizing cs with
  | ind n ih =>
    cases cs with
    | nil => exact ⟨[], [], rfl, List.prefix_refl _, by simpa using hnil⟩
    | cons c cs =>
      cases hren : renaming? (c :: cs) with
      | some rest =>
        obtain ⟨before, after, hcs, -⟩ := renaming?_eq_some_iff.1 hren
        have hsuffix : rest <:+ c :: cs := hcs ▸ (List.suffix_append after.chars rest).trans
          ((List.suffix_append _ _).trans (List.suffix_append _ _))
        have hlt : rest.length < n := by
          have hlen := congrArg List.length hcs
          have hpos := List.length_pos_iff.2 before.ne_nil
          simp only [List.length_append] at hlen
          omega
        obtain ⟨first, others, hparts, -, hall⟩ := ih rest.length hlt rest rfl
        refine ⟨[], first :: others, by rw [parts_of_renaming hren, hparts], List.nil_prefix, ?_⟩
        intro p hp
        rcases List.mem_cons.1 hp with rfl | hp
        · exact ⟨ List.nil_infix, hnil⟩
        · exact ⟨(hall p hp).1.trans hsuffix.isInfix, (hall p hp).2⟩
      | none =>
        obtain ⟨first, others, hparts, hfirst, hall⟩ := ih cs.length (by simp [← hn]) cs rfl
        have hfront : c :: first <+: c :: cs := (List.prefix_cons_inj c).2 hfirst
        refine ⟨c :: first, others, by rw [parts_of_no_renaming hren, hparts]; rfl, hfront, ?_⟩
        intro p hp
        rcases List.mem_cons.1 hp with rfl | hp
        · refine ⟨hfront.isInfix, ?_⟩
          rintro ⟨a, b, ha, hb, hab⟩
          rcases List.infix_cons_iff.1 hab with hab | hab
          · have hsome := renaming?_isSome ha hb (hab.trans hfront)
            rw [hren] at hsome
            cases hsome
          · exact (hall first List.mem_cons_self).2 ⟨a, b, ha, hb, hab⟩
        · obtain ⟨hwithin, hno⟩ := hall p (List.mem_cons_of_mem _ hp)
          exact ⟨hwithin.trans (List.suffix_cons c cs).isInfix, hno⟩

/-! ## The names of any list -/

/-- A name as it is recorded. -/
structure Trimmed (name : List Char) : Prop where
  ne_nil : name ≠ []
  first : Stops isBlank name
  last : Stops isBlank name.reverse
  comma : ',' ∉ name
  renames : ¬Renames name

theorem Renames.of_isInfix {front : List Char} (h : Renames front) (hfront : front <:+: cs) :
    Renames cs := by
  obtain ⟨a, b, ha, hb, hab⟩ := h
  exact ⟨a, b, ha, hb, hab.trans hfront⟩

theorem bare_isInfix (raw : List Char) : bare raw <:+: raw := by
  unfold bare
  dsimp only
  cases h : keyword? "type" (trim raw) with
  | none => exact trim_isInfix raw
  | some rest =>
    obtain ⟨s, htrim, -⟩ := keyword?_eq_some_iff.1 h
    have hsuffix : rest <:+ trim raw :=
      htrim ▸ (List.suffix_append s.chars rest).trans (List.suffix_append _ _)
    exact hsuffix.isInfix.trans (trim_isInfix raw)

theorem pick_spec (side : Side) (item : List Char) :
    ∃ part ∈ parts item, pick side item = trim part := by
  obtain ⟨first, others, hparts, -⟩ := parts_spec item
  cases side with
  | beforeAs => exact ⟨first, by simp [hparts], by simp [pick, hparts]⟩
  | afterAs =>
    refine ⟨(first :: others).getLast (by simp), by rw [hparts]; exact List.getLast_mem _, ?_⟩
    simp [pick, hparts, List.getLast?_eq_some_getLast]

/-- Whatever the body is, its names are trimmed pieces of it. -/
theorem trimmed_of_mem_names {side : Side} {body name : List Char} (h : name ∈ names side body) :
    Trimmed name ∧ name <:+: body := by
  rw [names] at h
  obtain ⟨raw, hraw, hname⟩ := List.mem_filterMap.1 h
  dsimp only [nameOf?] at hname
  split at hname
  · cases hname
  split at hname
  · cases hname
  next hne =>
    obtain rfl := Option.some.inj hname
    obtain ⟨part, hpart, hpick⟩ := pick_spec side (bare raw)
    obtain ⟨first, others, hparts, -, hall⟩ := parts_spec (bare raw)
    obtain ⟨hwithin, hno⟩ := hall part (hparts ▸ hpart)
    have htrim : pick side (bare raw) <:+: part := hpick ▸ trim_isInfix part
    have hpiece : pick side (bare raw) <:+: raw := htrim.trans (hwithin.trans (bare_isInfix raw))
    refine ⟨⟨by simpa using hne, hpick ▸ stops_trim part, hpick ▸ stops_reverse_trim part, ?_,
      fun hren => hno (hren.of_isInfix htrim)⟩, hpiece.trans (infix_of_mem_splitAt hraw)⟩
    exact fun hcomma => notMem_of_mem_splitAt hraw (hpiece.subset hcomma)

/-! ## Lists as they are written -/

/-- `as` and another name. -/
structure Renaming where
  before : Space
  after : Space
  newName : Identifier

/-- An item with the gaps around it. An item `type` without the modifier `type` is not renamed: it
would be taken for the modifier. -/
structure Item where
  before : Gap
  modifier : Option Space
  name : Identifier
  renamed : Option Renaming
  after : Gap
  plain : modifier = none → name.chars = "type".toList → renamed = none

/-- At least one item, and perhaps a comma and a gap after the last. -/
structure Listing where
  items : List Item
  ne_nil : items ≠ []
  trailing : Option Gap

def Renaming.text (r : Renaming) : List Char :=
  r.before.chars ++ ("as".toList ++ (r.after.chars ++ r.newName.chars))

namespace Item

/-- The item without gaps and modifier. -/
def core (i : Item) : List Char :=
  i.name.chars ++ (i.renamed.map Renaming.text).getD []

def text (i : Item) : List Char :=
  i.before.chars ++ ((optionalKeyword "type" i.modifier ++ i.core) ++ i.after.chars)

/-- The name on one side of `as`; an item that is not renamed has the same on both. -/
def nameOn (i : Item) : Side → Identifier
  | .beforeAs => i.name
  | .afterAs => (i.renamed.map Renaming.newName).getD i.name

end Item

/-- What stands between the commas. -/
def Listing.pieces (l : Listing) : List (List Char) :=
  l.items.map Item.text ++ l.trailing.toList.map Gap.chars

def Listing.body (l : Listing) : List Char := joinWith ',' l.pieces

def Listing.text (l : Listing) : List Char := '{' :: (l.body ++ ['}'])

/-! ### One item -/

theorem core_ne_nil (i : Item) : i.core ≠ [] := by
  intro h
  exact i.name.ne_nil (List.append_eq_nil_iff.1 h).1

/-- An item ends with an identifier. -/
theorem exists_core_eq (i : Item) : ∃ front, ∃ last : Identifier, i.core = front ++ last.chars := by
  unfold Item.core
  cases i.renamed with
  | none => exact ⟨[], i.name, List.append_nil _⟩
  | some r =>
    refine ⟨i.name.chars ++ (r.before.chars ++ ("as".toList ++ r.after.chars)), r.newName, ?_⟩
    simp [Renaming.text]

theorem trim_text (i : Item) : trim i.text = optionalKeyword "type" i.modifier ++ i.core := by
  refine trim_append i.before i.after ?_ ?_ ?_
  · simp [core_ne_nil]
  · cases i.modifier with
    | none => exact i.name.stops_blank _
    | some s => exact rfl
  · obtain ⟨front, last, hcore⟩ := exists_core_eq i
    rw [hcore, ← List.append_assoc, List.reverse_append]
    exact stops_append (fun _ => isBlank_of_isWord) (by simpa using last.word)
      (by simpa using last.ne_nil)

theorem bare_text (i : Item) : bare i.text = i.core := by
  unfold bare
  dsimp only
  rw [trim_text]
  cases hmodifier : i.modifier with
  | some s =>
    have hstops : Stops isBlank i.core := i.name.stops_blank _
    rw [optionalKeyword, List.append_assoc, keyword?_append "type" s hstops, Option.getD_some]
  | none =>
    rw [optionalKeyword, List.nil_append, Option.getD_eq_iff]
    refine .inr ⟨Option.eq_none_iff_forall_ne_some.2 fun rest hkeyword => ?_, rfl⟩
    -- the name would be `type` with blanks after it, hence renamed
    have hstops : Stops isWord ((i.renamed.map Renaming.text).getD []) := by
      cases i.renamed with
      | none => exact stops_nil
      | some r => exact r.before.stops_word _
    obtain ⟨hname, s, hs, -⟩ := eq_of_keyword?_identifier (by decide) i.name hstops hkeyword
    rw [i.plain hmodifier hname] at hs
    exact s.ne_nil (List.append_eq_nil_iff.1 hs.symm).1

theorem parts_identifier (i : Identifier) : parts i.chars = [i.chars] := by
  have hparts : parts (i.chars ++ []) = [i.chars ++ []] := parts_append i.word rfl
  rwa [List.append_nil] at hparts

theorem parts_core (i : Item) :
    parts i.core = i.name.chars :: (i.renamed.map (·.newName.chars)).toList := by
  unfold Item.core
  cases i.renamed with
  | none => simpa using parts_identifier i.name
  | some r =>
    have hstops : Stops isBlank r.newName.chars := by simpa using r.newName.stops_blank []
    have hrenaming : renaming? r.text = some r.newName.chars :=
      renaming?_eq_some_iff.2 ⟨r.before, r.after, rfl, hstops⟩
    have hparts : parts r.text = [[], r.newName.chars] := by
      rw [parts_of_renaming hrenaming, parts_identifier]
    simpa using parts_append i.name.word hparts

theorem trim_identifier (i : Identifier) : trim i.chars = i.chars := by
  have hlast : Stops isBlank (i.chars.reverse ++ []) :=
    stops_append (fun _ => isBlank_of_isWord) (by rw [List.all_reverse]; exact i.word)
      (by simpa using i.ne_nil)
  rw [List.append_nil] at hlast
  simpa using trim_append ⟨[], rfl⟩ ⟨[], rfl⟩ i.ne_nil (by simpa using i.stops_blank []) hlast

theorem pick_core (side : Side) (i : Item) : pick side i.core = (i.nameOn side).chars := by
  unfold pick Item.nameOn
  rw [parts_core]
  cases side with
  | beforeAs => exact trim_identifier i.name
  | afterAs =>
    cases i.renamed with
    | none => exact trim_identifier i.name
    | some r => exact trim_identifier r.newName

theorem nameOf?_text (side : Side) (i : Item) :
    nameOf? side i.text = some (i.nameOn side).chars := by
  rw [nameOf?, bare_text, pick_core]
  simp [core_ne_nil, (i.nameOn side).ne_nil]

theorem nameOf?_gap (side : Side) (g : Gap) : nameOf? side g.chars = none := by
  rw [nameOf?, bare, trim_gap]
  rfl

/-! ### Whole lists -/

/-- Blanks and word characters are all that stands between the commas. -/
theorem blank_or_word_of_mem {l : Listing} {p : List Char} (hp : p ∈ l.pieces) (hc : c ∈ p) :
    isBlank c = true ∨ isWord c = true := by
  have hgap {g : Gap} (h : c ∈ g.chars) : isBlank c = true := List.all_eq_true.1 g.blank c h
  have hname {i : Identifier} (h : c ∈ i.chars) : isWord c = true := List.all_eq_true.1 i.word c h
  have hkeyword {w : String} (hw : w.toList.all isWord = true) (h : c ∈ w.toList) :
      isWord c = true := List.all_eq_true.1 hw c h
  rcases List.mem_append.1 hp with hp | hp
  · obtain ⟨i, -, rfl⟩ := List.mem_map.1 hp
    simp only [Item.text, Item.core, List.mem_append] at hc
    rcases hc with hc | ((hc | hc | hc) | hc)
    · exact .inl (hgap hc)
    · cases hmodifier : i.modifier with
      | none => simp [hmodifier, optionalKeyword] at hc
      | some s =>
        rw [hmodifier, optionalKeyword, List.mem_append] at hc
        exact hc.symm.imp hgap (hkeyword (by decide))
    · exact .inr (hname hc)
    · cases hrenamed : i.renamed with
      | none => simp [hrenamed] at hc
      | some r =>
        simp only [hrenamed, Option.map_some, Option.getD_some, Renaming.text,
          List.mem_append] at hc
        rcases hc with hc | hc | hc | hc
        · exact .inl (hgap hc)
        · exact .inr (hkeyword (by decide) hc)
        · exact .inl (hgap hc)
        · exact .inr (hname hc)
    · exact .inl (hgap hc)
  · obtain ⟨g, -, rfl⟩ := List.mem_map.1 hp
    exact .inl (hgap hc)

theorem notMem_of_mem_pieces {l : Listing} {p : List Char} (hp : p ∈ l.pieces)
    (hblank : isBlank c = false) (hword : isWord c = false) : c ∉ p := by
  intro hc
  rcases blank_or_word_of_mem hp hc with h | h
  · exact absurd (hblank.symm.trans h) (by decide)
  · exact absurd (hword.symm.trans h) (by decide)

theorem splitAt_body (l : Listing) : splitAt ',' l.body = l.pieces :=
  splitAt_joinWith (by simp [Listing.pieces, l.ne_nil]) fun _ hp => notMem_of_mem_pieces hp rfl rfl

/-- A list has the name of each of its items, in their order. -/
theorem names_body (side : Side) (l : Listing) :
    names side l.body = l.items.map fun i => (i.nameOn side).chars := by
  rw [names, splitAt_body, Listing.pieces, List.filterMap_append, List.filterMap_map,
    List.filterMap_map, ← List.filterMap_eq_map]
  have htrailing : l.trailing.toList.filterMap (nameOf? side ∘ Gap.chars) = [] :=
    List.filterMap_eq_nil_iff.2 fun g _ => nameOf?_gap side g
  rw [htrailing, List.append_nil]
  exact List.filterMap_congr fun i _ => nameOf?_text side i

theorem body_ne_nil (l : Listing) : l.body ≠ [] := by
  intro h
  obtain ⟨i, items, hitems⟩ := List.exists_cons_of_ne_nil l.ne_nil
  have hwithin : i.text <:+: l.body := infix_joinWith (by simp [Listing.pieces, hitems])
  rw [h, List.infix_nil] at hwithin
  simp [Item.text, core_ne_nil] at hwithin

theorem brace_notMem_body (l : Listing) : '}' ∉ l.body := by
  intro h
  rcases mem_joinWith h with h | ⟨p, hp, h⟩
  · exact absurd h (by decide)
  · exact notMem_of_mem_pieces hp rfl rfl h

/-! ### Keywords as names -/

def typeName : Identifier := ⟨"type".toList, by decide, by decide⟩

def asName : Identifier := ⟨"as".toList, by decide, by decide⟩

/-- A list in which `type` and `as` are names as well as keywords. -/
def keywordList : Listing where
  items :=
    let gap := Gap.empty
    let blank := Space.one
    [⟨blank.toGap, some blank, asName, none, gap, by decide⟩,
      ⟨blank.toGap, none, asName, some ⟨blank, blank, typeName⟩, gap, by decide⟩,
      ⟨blank.toGap, none, typeName, none, gap, fun _ _ => rfl⟩]
  ne_nil := List.cons_ne_nil _ _
  trailing := some Space.one.toGap

end BraceList

end ImportAtlas
