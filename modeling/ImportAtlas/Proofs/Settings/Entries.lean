import ImportAtlas.Proofs.Except
import ImportAtlas.Proofs.Json.RoundTrip
import ImportAtlas.Proofs.Settings.Values

/-!
# Tables that are read as they were written

Pairs of a bare name and a value that can be read (`Entry.Sound`) go one after another into the
table that is open, wherever that table lies (`Focus`). From this a document with the headings of
settings is read as its tables (`parse_documentLines`).
-/

namespace ImportAtlas.Toml

/-! ## Pairs -/

/-- A key, the text after its equals sign, and the value that the text stands for. -/
structure Entry where
  key : String
  text : List Char
  value : Json

namespace Entry

def line (e : Entry) : List Char := e.key.toList ++ ' ' :: '=' :: ' ' :: e.text

def member (e : Entry) : String × Json := (e.key, e.value)

structure Sound (e : Entry) : Prop where
  bare : BareName e.key.toList
  reads : Reads e.text e.value

variable {e : Entry}

theorem Sound.kept (h : e.Sound) : Layout.Kept e.line :=
  Layout.kept_pair h.bare.ne_nil h.bare.chars h.reads.unbroken.1 h.reads.laid

theorem Sound.return_notMem (h : e.Sound) : '\r' ∉ e.line := by
  simp [line, h.bare.notMem (c := '\r') rfl, h.reads.unbroken.2]

theorem Sound.tight (h : e.Sound) : Text.Tight e.line := by
  have hne : e.text ≠ [] := by
    intro hnil
    obtain ⟨kind, hread⟩ := h.reads.read
    rw [hnil] at hread
    cases hread
  constructor
  · obtain ⟨c, cs, hkey⟩ := List.exists_cons_of_ne_nil h.bare.ne_nil
    rw [line, hkey]
    rintro d ⟨⟩
    exact isBlank_of_isBareName (h.bare.chars c (hkey ▸ List.mem_cons_self))
  · have hline : e.line = (e.key.toList ++ [' ', '=', ' ']) ++ e.text := by simp [line]
    rw [hline, List.getLast?_append_of_ne_nil _ hne]
    exact h.reads.tight.2

end Entry

/-- Entries of one table: each can be read, and no key comes twice. -/
structure SoundAll (es : List Entry) : Prop where
  sound : ∀ e ∈ es, e.Sound
  keys : (es.map Entry.key).Nodup

/-! ## Tables -/

section Members

variable {t : Table} {key : String}

theorem lookup_of_notMem (h : key ∉ t.map (·.1)) : t.lookup key = none := by
  rw [List.lookup_eq_none_iff]
  intro m hm
  exact bne_iff_ne.2 fun heq => h (heq ▸ List.mem_map_of_mem hm)

theorem lookup_concat_of_notMem (h : key ∉ t.map (·.1)) (v : Json) :
    (t ++ [(key, v)]).lookup key = some v := by
  simp [List.lookup_append, lookup_of_notMem h]

theorem setMember_concat_of_notMem (h : key ∉ t.map (·.1)) (u v : Json) :
    Json.setMember key u (t ++ [(key, v)]) = t ++ [(key, u)] := by
  induction t with
  | nil => exact if_pos rfl
  | cons m t ih =>
    obtain ⟨hm, ht⟩ := List.ne_and_not_mem_of_not_mem_cons h
    rw [List.cons_append, Json.setMember, if_neg (Ne.symm hm), ih ht]
    rfl

end Members

/-- A way that leads in `root v` to `v`, whatever `v` is. -/
def Focus (path : List Step) (root : Json → Json) : Prop :=
  ∀ (α : Type) (f : Json → Reading (Json × α)) (v : Json),
    alter f path (root v) = (f v).map fun r => (root r.1, r.2)

theorem focus_nil : Focus [] fun v => v := by
  intro α f v
  show f v = _
  cases f v <;> rfl

theorem Focus.member {path : List Step} {root : Json → Json} (h : Focus path root) {t : Table}
    {key : String} (hkey : key ∉ t.map (·.1)) :
    Focus (.member key :: path) fun v => .obj (t ++ [(key, root v)]) := by
  intro α f v
  show (alter f path (((t ++ [(key, root v)]).lookup key).getD .null)).bind _ = _
  rw [lookup_concat_of_notMem hkey, Option.getD_some, h]
  cases f v with
  | error e => rfl
  | ok r =>
    exact congrArg (fun t => Except.ok (Json.obj t, r.2))
      (setMember_concat_of_notMem hkey (root r.1) (root v))

theorem Focus.last {path : List Step} {root : Json → Json} (h : Focus path root) (vs : List Json) :
    Focus (.last :: path) fun v => .arr (vs ++ [root v]) := by
  intro α f v
  show (alter f path ((vs ++ [root v]).getLast?.getD .null)).bind _ = _
  rw [List.getLast?_concat, Option.getD_some, h]
  cases f v with
  | error e => rfl
  | ok r =>
    show Except.ok (Json.arr ((vs ++ [root v]).dropLast ++ [root r.1]), r.2) = _
    rw [List.dropLast_concat]
    rfl

/-! ## Lines -/

/-- A draft between two lines, whose pairs go into the table at the end of `path`. -/
def draft (path : List Step) (root : Json) : Draft := ⟨root, some path, [], none⟩

section Lines

variable {path : List Step} {root : Json → Json} {t : Table}

/-- A pair is added to the table that is open. -/
theorem readLine_entry (hfocus : Focus path root) {e : Entry} (h : e.Sound)
    (fresh : e.key ∉ t.map (·.1)) :
    (draft path (root (.obj t))).readLine e.line =
      .ok (draft path (root (.obj (t ++ [e.member])))) := by
  have hset : setPair readValue e.line (.obj t) = .ok (.obj (t ++ [e.member]), none) := by
    obtain ⟨kind, hread⟩ := h.reads.read
    rw [setPair, Entry.line, h.bare.cutLine_eq h.reads.tight]
    simp only [bind, Except.bind]
    rw [h.bare.readKey_eq]
    simp only [atLevels, h.reads.closed, hread, lookup_of_notMem fresh, String.ofList_toList]
    rfl
  have hequals : e.line.contains '=' = true := by simp [Entry.line]
  obtain ⟨c, rest, hline, hc⟩ : ∃ c rest, e.line = c :: rest ∧ isBareName c = true := by
    obtain ⟨c, cs, hkey⟩ := List.exists_cons_of_ne_nil h.bare.ne_nil
    exact ⟨c, _, by rw [Entry.line, hkey]; rfl, h.bare.chars c (hkey ▸ List.mem_cons_self)⟩
  show (draft path (root (.obj t))).readStatement (Text.trim e.line) = _
  rw [Text.trim_of_tight h.tight]
  unfold Draft.readStatement
  -- a name does not start as a heading or an inline table does
  split
  · next heq => cases hline.symm.trans heq
  · next heq =>
    cases hline.symm.trans heq
    cases hc
  · next heq =>
    cases hline.symm.trans heq
    cases hc
  · rw [if_pos hequals]
    show ((alter (setPair readValue e.line) path (root (.obj t))).bind _ >>= _) = _
    rw [hfocus, hset]
    rfl

/-- All pairs below a heading go into its table. -/
theorem foldlM_entries (hfocus : Focus path root) {es : List Entry} (h : ∀ e ∈ es, e.Sound)
    (keys : ((t ++ es.map Entry.member).map (·.1)).Nodup) :
    (es.map Entry.line).foldlM Draft.readLine (draft path (root (.obj t))) =
      .ok (draft path (root (.obj (t ++ es.map Entry.member)))) := by
  induction es generalizing t with
  | nil =>
    rw [List.map_nil, List.map_nil, List.append_nil]
    rfl
  | cons e es ih =>
    obtain ⟨he, hes⟩ := List.forall_mem_cons.1 h
    have fresh : e.key ∉ t.map (·.1) := by
      intro hmem
      rw [List.map_append, List.nodup_append] at keys
      exact keys.2.2 e.key hmem e.key List.mem_cons_self rfl
    have happend : t ++ (e :: es).map Entry.member = t ++ [e.member] ++ es.map Entry.member := by
      simp
    rw [happend] at keys
    rw [List.map_cons, foldlM_cons_of_ok (readLine_entry hfocus he fresh), ih hes keys, happend]

theorem foldlM_table (hfocus : Focus path root) {es : List Entry} (h : SoundAll es) :
    (es.map Entry.line).foldlM Draft.readLine (draft path (root (.obj []))) =
      .ok (draft path (root (.obj (es.map Entry.member)))) := by
  refine foldlM_entries (t := []) hfocus h.sound ?_
  rw [List.nil_append, List.map_map]
  exact h.keys

end Lines

/-! ## Headings -/

theorem readLine_heading {line : List Char} {h : Heading} (first : line.head? = some '[')
    (trimmed : Text.trim line = line) (hread : readHeading line = .ok h) (path : List Step)
    (root : Json) :
    (draft path root).readLine line =
      (openNames h.further h.names [] root).map fun o => ⟨o.value, o.path, o.implied, none⟩ := by
  obtain ⟨rest, rfl⟩ := List.head?_eq_some_iff.1 first
  show (draft path root).readStatement (Text.trim ('[' :: rest)) = _
  rw [trimmed, Draft.readStatement, hread]
  show (openNames h.further h.names [] root).bind _ = _
  cases openNames h.further h.names [] root <;> rfl

theorem openNames_member {further : Bool} {name : String} {names implied implied' : List String}
    {t : Table} {w : Json} {o : Opened} (hname : name.isEmpty = false)
    (hfind : findTable further names.isEmpty implied name t = .ok (w, implied'))
    (henter : enter further (fun w => openNames further names implied' w) w = .ok o) :
    openNames further (name :: names) implied (.obj t) =
      .ok (o.outward (.member name) (.obj (Json.setMember name o.value t))) := by
  rw [openNames, hname, if_neg Bool.false_ne_true]
  show (findTable further names.isEmpty implied name t).bind _ = _
  rw [hfind]
  show (enter further (fun w => openNames further names implied' w) w).bind _ = _
  rw [henter]
  rfl

/-- The member with the further tables, which is not there without one. -/
def subtreeMember (vs : List Json) : Table := if vs = [] then [] else [("subtrees", .arr vs)]

/-- A document after some further tables, with `base` as what stands under `analysis` itself. -/
def covered (base : Table) (vs : List Json) : Json :=
  .obj [("analysis", .obj (base ++ subtreeMember vs))]

theorem covered_nil (base : Table) : covered base [] = .obj [("analysis", .obj base)] := by
  rw [covered, subtreeMember, if_pos rfl, List.append_nil]

theorem covered_concat (base : Table) (vs : List Json) (v : Json) :
    covered base (vs ++ [v]) =
      .obj [("analysis", .obj (base ++ [("subtrees", .arr (vs ++ [v]))]))] := by
  rw [covered, subtreeMember, if_neg (by simp)]

theorem readLine_analysis :
    Draft.start.readLine "[analysis]".toList =
      .ok (draft [.member "analysis"] (.obj [("analysis", .obj [])])) := rfl

theorem focus_analysis : Focus [.member "analysis"] fun v => .obj [("analysis", v)] :=
  focus_nil.member (t := []) List.not_mem_nil

theorem focus_validation (a : Json) :
    Focus [.member "validation"] fun v => .obj [("analysis", a), ("validation", v)] :=
  focus_nil.member (t := [("analysis", a)]) (by simp)

def subtreePath : List Step := [.member "analysis", .member "subtrees", .last]

variable {base : Table} (fresh : "subtrees" ∉ base.map (·.1))

include fresh

theorem focus_covered (vs : List Json) :
    Focus subtreePath fun v => covered base (vs ++ [v]) := by
  simp only [covered_concat]
  exact ((focus_nil.last vs).member fresh).member (t := []) List.not_mem_nil

/-- A further table is opened at the end of the array. -/
theorem openNames_subtrees (vs : List Json) :
    openNames true ["subtrees"] []
        (.obj (base ++ subtreeMember vs)) =
      .ok ⟨.obj (base ++ [("subtrees", .arr (vs ++ [.obj []]))]),
        some [.member "subtrees", .last], []⟩ := by
  have henter : enter true (fun w => openNames true [] [] w) (.arr (vs ++ [.obj []])) =
      .ok ⟨.arr (vs ++ [.obj []]), some [.last], []⟩ := by
    simp [enter, openNames, Opened.outward, bind, Except.bind, pure, Except.pure]
  cases vs with
  | nil =>
    have hfind : findTable true true [] "subtrees" base = .ok (.arr [.obj []], []) := by
      rw [findTable, lookup_of_notMem fresh]
      rfl
    rw [subtreeMember, if_pos rfl, List.append_nil, openNames_member rfl hfind henter,
      Opened.outward, Json.setMember_of_notMem fresh]
    rfl
  | cons v vs =>
    have hfind : findTable true true [] "subtrees" (base ++ [("subtrees", .arr (v :: vs))]) =
        .ok (.arr (v :: vs ++ [.obj []]), []) := by
      rw [findTable, lookup_concat_of_notMem fresh]
      rfl
    rw [subtreeMember, if_neg (List.cons_ne_nil v vs), openNames_member rfl hfind henter,
      Opened.outward, setMember_concat_of_notMem fresh]
    rfl

theorem readLine_subtrees (path : List Step) (vs : List Json) :
    (draft path (covered base vs)).readLine "[[analysis.subtrees]]".toList =
      .ok (draft subtreePath (covered base (vs ++ [.obj []]))) := by
  have hread : readHeading "[[analysis.subtrees]]".toList =
    .ok ⟨true, ["analysis", "subtrees"]⟩ := rfl
  let inside : Table := base ++ subtreeMember vs
  have hfind : findTable true false [] "analysis" [("analysis", .obj inside)] =
    .ok (.obj inside, []) := rfl
  have henter : enter true (fun w => openNames true ["subtrees"] [] w) (.obj inside) = .ok _ :=
    openNames_subtrees fresh vs
  have hopen : openNames true ["analysis", "subtrees"] [] (covered base vs) = .ok _ :=
    openNames_member rfl hfind henter
  rw [covered_concat, readLine_heading rfl rfl hread, hopen]
  rfl

omit fresh

theorem readLine_validation (path : List Step) (a : Json) :
    (draft path (.obj [("analysis", a)])).readLine "[validation]".toList =
      .ok (draft [.member "validation"] (.obj [("analysis", a), ("validation", .obj [])])) := by
  have hread : readHeading "[validation]".toList = .ok ⟨false, ["validation"]⟩ := rfl
  rw [readLine_heading rfl rfl hread]
  rfl

/-! ## Documents -/

/-- The lines of a further table, with an empty line behind them. -/
def partLines (es : List Entry) : List (List Char) :=
  "[[analysis.subtrees]]".toList :: es.map Entry.line ++ [[]]

/-- A further table becomes the last value of the array. -/
theorem foldlM_partLines (fresh : "subtrees" ∉ base.map (·.1)) {es : List Entry} (h : SoundAll es)
    (path : List Step) (vs : List Json) :
    (partLines es).foldlM Draft.readLine (draft path (covered base vs)) =
      .ok (draft subtreePath (covered base (vs ++ [.obj (es.map Entry.member)]))) := by
  rw [partLines, List.cons_append, foldlM_cons_of_ok (readLine_subtrees fresh path vs),
    foldlM_append_of_ok (foldlM_table (focus_covered fresh vs) h)]
  rfl

theorem foldlM_parts (fresh : "subtrees" ∉ base.map (·.1)) {parts : List (List Entry)}
    (h : ∀ es ∈ parts, SoundAll es) (path : List Step) (vs : List Json) :
    ∃ path', (parts.flatMap partLines).foldlM Draft.readLine (draft path (covered base vs)) =
      .ok (draft path' (covered base (vs ++ parts.map fun es => .obj (es.map Entry.member)))) := by
  induction parts generalizing path vs with
  | nil =>
    refine ⟨path, ?_⟩
    rw [List.map_nil, List.append_nil]
    rfl
  | cons es parts ih =>
    obtain ⟨hes, hparts⟩ := List.forall_mem_cons.1 h
    obtain ⟨path', hrest⟩ := ih hparts subtreePath (vs ++ [.obj (es.map Entry.member)])
    refine ⟨path', ?_⟩
    rw [List.flatMap_cons, foldlM_append_of_ok (foldlM_partLines fresh hes path vs), hrest,
      List.map_cons, List.append_assoc]
    rfl

/-- The lines of a document: the entries under `analysis`, the tables of its array, and the entries
under `validation`. -/
def documentLines (own : List Entry) (parts : List (List Entry)) (limits : List Entry) :
    List (List Char) :=
  "[analysis]".toList :: own.map Entry.line ++ parts.flatMap partLines ++
    "[validation]".toList :: limits.map Entry.line

section Documents

variable {own limits : List Entry} {parts : List (List Entry)} (hown : SoundAll own)
  (hparts : ∀ es ∈ parts, SoundAll es) (hlimits : SoundAll limits)

include hown hparts hlimits

theorem forall_mem_documentLines {P : List Char → Prop} (analysis : P "[analysis]".toList)
    (subtrees : P "[[analysis.subtrees]]".toList) (validation : P "[validation]".toList)
    (empty : P []) (entry : ∀ e : Entry, e.Sound → P e.line) :
    ∀ line ∈ documentLines own parts limits, P line := by
  have hentries {es : List Entry} (h : SoundAll es) : ∀ line ∈ es.map Entry.line, P line :=
    List.forall_mem_map.2 fun e he => entry e (h.sound e he)
  intro line hline
  simp only [documentLines, List.mem_append, List.mem_cons, List.mem_flatMap, partLines,
    List.not_mem_nil, or_false] at hline
  rcases hline with ((rfl | hline) | ⟨es, hes, (rfl | hline) | rfl⟩) | rfl | hline
  · exact analysis
  · exact hentries hown line hline
  · exact subtrees
  · exact hentries (hparts es hes) line hline
  · exact empty
  · exact validation
  · exact hentries hlimits line hline

theorem kept_documentLines : ∀ line ∈ documentLines own parts limits, Layout.Kept line :=
  forall_mem_documentLines hown hparts hlimits ⟨by decide, fun done rest => rfl⟩
    ⟨by decide, fun done rest => rfl⟩ ⟨by decide, fun done rest => rfl⟩ Layout.kept_nil
    fun e he => he.kept

theorem return_notMem_documentLines :
    '\r' ∉ (documentLines own parts limits).flatMap (· ++ ['\n']) := by
  have hlines := forall_mem_documentLines hown hparts hlimits (P := fun line => '\r' ∉ line)
    (by decide) (by decide) (by decide) (by decide) fun e he => he.return_notMem
  simpa using hlines

/-- A document is read into the tables that were written. -/
theorem parse_documentLines (fresh : "subtrees" ∉ own.map Entry.key) {text : String}
    (htext : text.toList = (documentLines own parts limits).flatMap (· ++ ['\n'])) :
    parse text = .ok [("analysis", .obj (own.map Entry.member ++
        subtreeMember (parts.map fun es => .obj (es.map Entry.member)))),
      ("validation", .obj (limits.map Entry.member))] := by
  have hfresh : "subtrees" ∉ (own.map Entry.member).map (·.1) := by
    rw [List.map_map]
    exact fresh
  obtain ⟨path, hmiddle⟩ := foldlM_parts hfresh hparts [.member "analysis"] []
  rw [List.nil_append, covered_nil] at hmiddle
  have hfold : (documentLines own parts limits ++ [[]]).foldlM Draft.readLine Draft.start =
      .ok (draft [.member "validation"] (.obj [("analysis", .obj (own.map Entry.member ++
        subtreeMember (parts.map fun es => .obj (es.map Entry.member)))),
          ("validation", .obj (limits.map Entry.member))])) := by
    rw [documentLines, List.append_assoc, List.append_assoc, List.cons_append,
      foldlM_cons_of_ok readLine_analysis, foldlM_append_of_ok (foldlM_table focus_analysis hown),
      foldlM_append_of_ok hmiddle, covered, List.cons_append,
      foldlM_cons_of_ok (readLine_validation path _),
      foldlM_append_of_ok (foldlM_table (focus_validation _) hlimits)]
    rfl
  rw [parse, htext, Layout.layOut_lines (kept_documentLines hown hparts hlimits)]
  show ((documentLines own parts limits ++ [[]]).foldlM Draft.readLine Draft.start).bind _ = _
  rw [hfold]
  rfl

end Documents

end ImportAtlas.Toml
