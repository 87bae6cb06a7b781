import ImportAtlas.Proofs.Except
import ImportAtlas.Proofs.Gate.Faults
import ImportAtlas.Settings.Basic
import Mathlib.Data.List.Forall2

/-!
# What a document gives as settings

Every key gives what stands under it, or its default if nothing does, and what it gives has to be of
its kind. `From t s` says this of all the settings `s` of a document `t`, and settings are read from
exactly these documents. The others are refused, with one exception: a threshold that is a number
and not negative may still be one that cannot be kept, and then there is a fault.
-/

namespace ImportAtlas

namespace Settings

variable {t : Table} {key : String}

/-! ## Single keys -/

/-- What a key gives: the value under it, or the fallback if there is none. -/
def Draws {α : Type} (write : α → Json) (t : Table) (key : String) (fallback a : α) : Prop :=
  t.lookup key = some (write a) ∨ t.lookup key = none ∧ a = fallback

/-- A list of texts as a value. -/
def texts (ss : List String) : Json := .arr (ss.map .str)

theorem string_eq_ok_iff {fallback s : String} :
    string t key fallback = .ok s ↔ Draws .str t key fallback s ∧ s ≠ "" := by
  unfold string Draws
  cases t.lookup key with
  | none => by_cases h : fallback = "" <;> grind
  | some v =>
    cases v with
    | str u => by_cases h : u = "" <;> grind
    | _ => simp

theorem stringList?_eq_some_iff {v : Json} {ss : List String} :
    stringList? v = some ss ↔ v = texts ss := by
  cases v with
  | arr vs =>
    simp only [stringList?, texts, Json.arr.injEq]
    induction vs generalizing ss with
    | nil => cases ss <;> simp
    | cons v vs ih =>
      cases v <;> cases ss <;> simp [List.mapM_cons, Option.bind_eq_some_iff, ih, and_comm]
  | _ => simp [stringList?, texts]

theorem strings_eq_ok_iff {fallback ss : List String} :
    strings t key fallback = .ok ss ↔ Draws texts t key fallback ss := by
  unfold strings Draws
  cases t.lookup key with
  | none => simp [eq_comm]
  | some v =>
    simp only [Option.some.injEq, ← stringList?_eq_some_iff, reduceCtorEq, false_and, or_false]
    cases stringList? v <;> simp

theorem number_eq_ok_iff {fallback n : Number} :
    number t key fallback = .ok n ↔ Draws .num t key fallback n ∧ n.lt (.int 0) = false := by
  unfold number Draws
  cases t.lookup key with
  | none => cases h : fallback.lt (.int 0) <;> simp [h] <;> grind
  | some v =>
    cases v with
    | num m => cases h : m.lt (.int 0) <;> simp [h] <;> grind
    | _ => simp

theorem table_eq_ok_iff {ms : Table} : table t key = .ok ms ↔ Draws .obj t key [] ms := by
  unfold table Draws
  cases t.lookup key with
  | none => simp [eq_comm]
  | some v => cases v <;> simp

/-! ## Thresholds -/

/-- The number can be kept so. -/
def Form.Fits : Form → Number → Prop
  | .whole, .int _ => True
  | .whole, .float x => Binary.IsFinite x
  | .double, .int i => i.natAbs < Binary.limit
  | .double, .float _ => True

namespace Limit

/-- The thresholds in the order of reading. -/
def all : List Limit := [cycles, unused, average, stale]

/-- The settings give a number that is not negative. -/
def Gives (l : Limit) (t : Table) (n : Number) : Prop :=
  Draws .num t l.key (l.get default.thresholds) n ∧ n.lt (.int 0) = false

/-- The settings give a number that is kept as `n`. -/
def Kept (l : Limit) (t : Table) (n : Number) : Prop := ∃ m, l.Gives t m ∧ l.form.convert m = .ok n

end Limit

theorem Form.exists_convert_iff {form : Form} {m : Number} :
    (∃ n, form.convert m = .ok n) ↔ form.Fits m := by
  cases form with
  | whole =>
    cases m with
    | int i => exact iff_of_true ⟨_, rfl⟩ trivial
    | float x =>
      by_cases hx : Binary.IsFinite x
      · obtain ⟨s, m, e, h, -, -⟩ := hx.exists_ofFloat
        simp [convert, Fits, Json.toInt, Except.map, h, hx]
      · rcases Binary.ofFloat_of_not_isFinite hx with h | ⟨s, h⟩ <;>
          simp [convert, Fits, Json.toInt, Except.map, h, hx]
  | double =>
    cases m with
    | float x => exact iff_of_true ⟨_, rfl⟩ trivial
    | int i =>
      have hnone : Binary.ofInt? i = none ↔ ¬ i.natAbs < Binary.limit :=
        (Binary.nearest?_eq_none_iff _ Nat.one_pos).trans (by
          rw [Nat.mul_one]
          exact Nat.not_lt.symm)
      cases h : Binary.ofInt? i with
      | none =>
        refine iff_of_false ?_ (hnone.1 h)
        simp [convert, Number.toFloat?, h]
      | some x =>
        refine iff_of_true ⟨.float x, ?_⟩ ?_
        · simp [convert, Number.toFloat?, h]
        · by_contra hi
          rw [hnone.2 hi] at h
          cases h

theorem Limit.read_eq_ok_iff {l : Limit} {n : Number} : l.read t = .ok n ↔ l.Kept t n := by
  simp only [read, Kept, Gives, bind_eq_ok_iff, number_eq_ok_iff]
  refine exists_congr fun m => and_congr_right fun _ => ?_
  cases l.form.convert m <;> simp [Except.mapError]

theorem number_ne_fault {fallback : Number} {f : Fault} :
    number t key fallback ≠ .error (.fault f) := by
  unfold number
  split
  · split <;> nofun
  · nofun

theorem Limit.exists_read_fault_iff {l : Limit} :
    (∃ f, l.read t = .error (.fault f)) ↔ ∃ n, l.Gives t n ∧ ¬ l.form.Fits n := by
  simp only [read, Gives, bind_eq_error_iff, number_ne_fault, false_or, number_eq_ok_iff]
  rw [exists_comm]
  refine exists_congr fun n => ?_
  rw [exists_and_left, ← Form.exists_convert_iff]
  refine and_congr_right fun _ => ?_
  cases l.form.convert n <;> simp [Except.mapError]

/-! ## Subtrees -/

/-- An entry gives a subtree. A label counts as it stands; without one the subtree goes by the last
segment of its path. -/
structure GivesSubtree (e : Table) (b : Subtree) : Prop where
  path : Draws .str e "path" "" b.path ∧ b.path ≠ ""
  category : Draws .str e "category" Category.other b.category ∧ b.category ≠ ""
  extensions : Draws texts e "extensions" Resolver.defaultExtensions b.extensions
  label : e.lookup "label" = some b.label ∧ b.label.counts = true ∨
    (∀ v, e.lookup "label" = some v → v.counts = false) ∧
      b.label = .str (Location.ofText b.path).name

theorem givenLabel_iff {e : Table} {label fallback : Json} :
    (if ((e.lookup "label").getD .null).counts then (e.lookup "label").getD .null else fallback) =
        label ↔
      e.lookup "label" = some label ∧ label.counts = true ∨
        (∀ v, e.lookup "label" = some v → v.counts = false) ∧ label = fallback := by
  cases e.lookup "label" with
  | none => simp [Json.counts, @eq_comm _ label]
  | some v => cases h : v.counts <;> grind

theorem subtree_eq_ok_iff {v : Json} {b : Subtree} :
    subtree v = .ok b ↔ ∃ e, v = .obj e ∧ GivesSubtree e b := by
  cases v with
  | obj e =>
    simp only [subtree, bind_eq_ok_iff, string_eq_ok_iff, strings_eq_ok_iff, Json.obj.injEq,
      exists_eq_left']
    constructor
    · rintro ⟨path, hpath, category, hcategory, extensions, hextensions, h⟩
      cases h
      exact ⟨hpath, hcategory, hextensions, givenLabel_iff.1 rfl⟩
    · rintro ⟨hpath, hcategory, hextensions, hlabel⟩
      refine ⟨_, hpath, _, hcategory, _, hextensions, ?_⟩
      rw [givenLabel_iff.2 hlabel]
      rfl
  | _ => simp [subtree, throw, throwThe, MonadExceptOf.throw]

theorem subtrees_eq_ok_iff {fallback bs : List Subtree} :
    subtrees t fallback = .ok bs ↔
      (∃ vs, t.lookup "subtrees" = some (.arr vs) ∧
        List.Forall₂ (fun v b => ∃ e, v = .obj e ∧ GivesSubtree e b) vs bs) ∨
      t.lookup "subtrees" = none ∧ bs = fallback := by
  unfold subtrees
  cases t.lookup "subtrees" with
  | none => simp [@eq_comm _ bs]
  | some v =>
    cases v with
    | arr vs => simp [mapM_eq_ok_iff, subtree_eq_ok_iff]
    | _ => simp

/-! ## Nothing but thresholds is a fault -/

section NoFault

variable {f : Fault}

theorem string_ne_fault {fallback : String} : string t key fallback ≠ .error (.fault f) := by
  unfold string
  split
  · split <;> nofun
  · nofun

theorem strings_ne_fault {fallback : List String} :
    strings t key fallback ≠ .error (.fault f) := by
  unfold strings
  split
  · nofun
  · split <;> nofun

theorem table_ne_fault : table t key ≠ .error (.fault f) := by
  unfold table
  split <;> nofun

theorem subtree_ne_fault {v : Json} : subtree v ≠ .error (.fault f) := by
  cases v with
  | obj e =>
    simp only [subtree, ne_eq, bind_eq_error_iff, string_ne_fault, strings_ne_fault, false_or]
    rintro ⟨path, -, category, -, extensions, -, h⟩
    cases h
  | _ => nofun

theorem subtrees_ne_fault {fallback : List Subtree} : subtrees t fallback ≠ .error (.fault f) := by
  unfold subtrees
  split
  · nofun
  · intro h
    obtain ⟨v, -, hv⟩ := exists_mem_of_mapM_error h
    exact subtree_ne_fault hv
  · nofun

end NoFault

/-! ## Whole documents -/

/-- A table gives what an analysis covers. -/
structure GivesAnalysis (t : Table) (a : AnalysisSettings) : Prop where
  sourceRoot : Draws .str t "source_root" default.analysis.sourceRoot a.sourceRoot ∧
    a.sourceRoot ≠ ""
  aliases : Draws texts t "alias_prefixes" default.analysis.aliases a.aliases
  extensions : Draws texts t "extensions" default.analysis.extensions a.extensions
  exclude : Draws texts t "exclude" default.analysis.exclude a.exclude
  reportPath : Draws .str t "report_path" default.analysis.reportPath a.reportPath ∧
    a.reportPath ≠ ""
  subtrees : (∃ vs, t.lookup "subtrees" = some (.arr vs) ∧
      List.Forall₂ (fun v b => ∃ e, v = .obj e ∧ GivesSubtree e b) vs a.subtrees) ∨
    t.lookup "subtrees" = none ∧ a.subtrees = default.analysis.subtrees

theorem readAnalysis_eq_ok_iff {a : AnalysisSettings} :
    readAnalysis t = .ok a ↔ GivesAnalysis t a := by
  simp only [readAnalysis, bind_eq_ok_iff, string_eq_ok_iff, strings_eq_ok_iff,
    subtrees_eq_ok_iff]
  constructor
  · rintro ⟨_, hroot, _, haliases, _, hextensions, _, hexclude, _, hreport, _, hsubtrees, h⟩
    cases h
    exact ⟨hroot, haliases, hextensions, hexclude, hreport, hsubtrees⟩
  · rintro ⟨hroot, haliases, hextensions, hexclude, hreport, hsubtrees⟩
    exact ⟨_, hroot, _, haliases, _, hextensions, _, hexclude, _, hreport, _, hsubtrees, rfl⟩

theorem readAnalysis_ne_fault {f : Fault} : readAnalysis t ≠ .error (.fault f) := by
  simp only [readAnalysis, ne_eq, bind_eq_error_iff, string_ne_fault, strings_ne_fault,
    subtrees_ne_fault, false_or]
  rintro ⟨_, -, _, -, _, -, _, -, _, -, _, -, h⟩
  cases h

theorem readThresholds_eq_ok_iff {b : Gate.Thresholds} :
    readThresholds t = .ok b ↔ ∀ l ∈ Limit.all, l.Kept t (l.get b) := by
  simp only [readThresholds, bind_eq_ok_iff, Limit.read_eq_ok_iff, Limit.all, List.forall_mem_cons]
  constructor
  · rintro ⟨_, hcycles, _, hunused, _, haverage, _, hstale, h⟩
    cases h
    exact ⟨hcycles, hunused, haverage, hstale, by simp⟩
  · rintro ⟨hcycles, hunused, haverage, hstale, -⟩
    exact ⟨_, hcycles, _, hunused, _, haverage, _, hstale, rfl⟩

theorem exists_first_cons_iff {α : Type} {P Q : α → Prop} {a : α} {as : List α} :
    (∃ before b after, a :: as = before ++ b :: after ∧ (∀ c ∈ before, P c) ∧ Q b) ↔
      Q a ∨ P a ∧ ∃ before b after, as = before ++ b :: after ∧ (∀ c ∈ before, P c) ∧ Q b := by
  constructor
  · rintro ⟨_ | ⟨c, before⟩, b, after, h, hbefore, hb⟩
    · cases h
      exact .inl hb
    · cases h
      obtain ⟨hc, hbefore⟩ := List.forall_mem_cons.1 hbefore
      exact .inr ⟨hc, before, b, after, rfl, hbefore, hb⟩
  · rintro (ha | ⟨ha, before, b, after, rfl, hbefore, hb⟩)
    · exact ⟨[], a, as, rfl, by simp, ha⟩
    · exact ⟨a :: before, b, after, rfl, List.forall_mem_cons.2 ⟨ha, hbefore⟩, hb⟩

/-- Reading the thresholds is a fault at the first one that cannot be kept. -/
theorem exists_readThresholds_fault_iff :
    (∃ f, readThresholds t = .error (.fault f)) ↔
      ∃ before l after, Limit.all = before ++ l :: after ∧ (∀ m ∈ before, ∃ n, m.Kept t n) ∧
        ∃ n, l.Gives t n ∧ ¬ l.form.Fits n := by
  simp only [← Limit.read_eq_ok_iff, ← Limit.exists_read_fault_iff, Limit.all,
    exists_first_cons_iff, readThresholds, bind_eq_error_iff]
  constructor
  · rintro ⟨f, h | ⟨c, hc, h | ⟨u, hu, h | ⟨a, ha, h | ⟨s, hs, h⟩⟩⟩⟩⟩
    · exact .inl ⟨f, h⟩
    · exact .inr ⟨⟨c, hc⟩, .inl ⟨f, h⟩⟩
    · exact .inr ⟨⟨c, hc⟩, .inr ⟨⟨u, hu⟩, .inl ⟨f, h⟩⟩⟩
    · exact .inr ⟨⟨c, hc⟩, .inr ⟨⟨u, hu⟩, .inr ⟨⟨a, ha⟩, .inl ⟨f, h⟩⟩⟩⟩
    · cases h
  · rintro (⟨f, h⟩ | ⟨⟨c, hc⟩, ⟨f, h⟩ | ⟨⟨u, hu⟩, ⟨f, h⟩ | ⟨⟨a, ha⟩, ⟨f, h⟩ | ⟨-, h⟩⟩⟩⟩)
    · exact ⟨f, .inl h⟩
    · exact ⟨f, .inr ⟨c, hc, .inl h⟩⟩
    · exact ⟨f, .inr ⟨c, hc, .inr ⟨u, hu, .inl h⟩⟩⟩
    · exact ⟨f, .inr ⟨c, hc, .inr ⟨u, hu, .inr ⟨a, ha, .inl h⟩⟩⟩⟩
    · simp at h

/-- The two tables of a document. -/
structure Tables (t analysis validation : Table) : Prop where
  analysis : Draws .obj t "analysis" [] analysis
  validation : Draws .obj t "validation" [] validation

/-- A document gives settings. -/
def From (t : Table) (s : Settings) : Prop :=
  ∃ analysis validation, Tables t analysis validation ∧ GivesAnalysis analysis s.analysis ∧
    ∀ l ∈ Limit.all, l.Kept validation (l.get s.thresholds)

/-- Settings are read from the documents that give some. -/
theorem ofTable_eq_ok_iff {s : Settings} : ofTable t = .ok s ↔ From t s := by
  simp only [ofTable, bind_eq_ok_iff, table_eq_ok_iff, readAnalysis_eq_ok_iff,
    readThresholds_eq_ok_iff]
  constructor
  · rintro ⟨analysis, hanalysis, validation, hvalidation, a, ha, b, hb, h⟩
    cases h
    exact ⟨analysis, validation, ⟨hanalysis, hvalidation⟩, ha, hb⟩
  · rintro ⟨analysis, validation, ⟨hanalysis, hvalidation⟩, ha, hb⟩
    exact ⟨analysis, hanalysis, validation, hvalidation, s.analysis, ha, s.thresholds, hb, rfl⟩

/-- There is a fault if all is well up to a threshold that cannot be kept. -/
theorem exists_ofTable_fault_iff :
    (∃ f, ofTable t = .error (.fault f)) ↔
      ∃ analysis validation, Tables t analysis validation ∧ (∃ a, GivesAnalysis analysis a) ∧
        ∃ f, readThresholds validation = .error (.fault f) := by
  simp only [ofTable, bind_eq_error_iff, table_ne_fault, readAnalysis_ne_fault, false_or,
    table_eq_ok_iff, readAnalysis_eq_ok_iff]
  constructor
  · rintro ⟨f, analysis, hanalysis, validation, hvalidation, a, ha, h | ⟨b, -, h⟩⟩
    · exact ⟨analysis, validation, ⟨hanalysis, hvalidation⟩, ⟨a, ha⟩, f, h⟩
    · cases h
  · rintro ⟨analysis, validation, ⟨hanalysis, hvalidation⟩, ⟨a, ha⟩, f, h⟩
    exact ⟨f, analysis, hanalysis, validation, hvalidation, a, ha, .inl h⟩

end Settings

end ImportAtlas
