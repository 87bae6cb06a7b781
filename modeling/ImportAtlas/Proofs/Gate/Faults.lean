import ImportAtlas.Proofs.Gate.Rules
import ImportAtlas.Proofs.Json.Access
import ImportAtlas.Proofs.World.Written
import ImportAtlas.Report.Store

/-!
# When the gate has no answer

A document of the right shape can still hold numbers that the rules cannot compute with. What the
summary states for a list that is missing is not looked at before it is read, the average of imports
may be too large for a double, and so may a threshold that a message shows as one. A count or a
threshold that a message shows in full may have too many digits. `Computable` says when none of this
happens, and the gate gives a result on exactly these documents.

The statements bound no depth: values nest as deeply as their texts do, and a reader that runs out
of stack on a deep text is outside of them.
-/

namespace ImportAtlas

/-- A value that counts and that no whole number can be made of. -/
def Json.NoInteger : Json → Prop
  | .num (.float x) => ¬ Binary.IsFinite x
  | .str s => s ≠ "" ∧ Number.ofText? s = none
  | .arr vs => vs ≠ []
  | .obj ms => ms ≠ []
  | _ => False

/-- A value gives a whole number; one that does not count gives zero. -/
def Json.Gives (v : Json) (n : Int) : Prop := if v.counts then v.toInt = .ok n else n = 0

theorem Binary.ofFloat_of_not_isFinite {x : Float} (h : ¬ IsFinite x) :
    ofFloat x = .nan ∨ ∃ s, ofFloat x = .infinite s := by
  have hfield := Classical.not_not.1 h
  rw [ofFloat_eq, if_pos hfield]
  split
  · exact .inr ⟨_, rfl⟩
  · exact .inl rfl

theorem Json.exists_toInt_float_iff (x : Float) :
    (∃ i, (if (Json.float x).counts then (Json.float x).toInt else .ok 0) = .ok i) ↔
      Binary.IsFinite x := by
  by_cases hx : Binary.IsFinite x
  · obtain ⟨s, m, e, hfinite, -, -⟩ := hx.exists_ofFloat
    refine iff_of_true ?_ hx
    simp only [toInt, hfinite]
    split <;> exact ⟨_, rfl⟩
  · refine iff_of_false ?_ hx
    -- What is not finite differs from zero, so it is read.
    rcases Binary.ofFloat_of_not_isFinite hx with h | ⟨s, h⟩
    · simp [counts, Number.isNonzero, Number.compare?, Number.exact, toInt, h, Binary.compare?]
    · cases s <;>
        simp [counts, Number.isNonzero, Number.compare?, Number.exact, toInt, h, Binary.compare?,
          Binary.ofInt]

theorem Json.exists_toInt_iff {v : Json} :
    (∃ i, (if v.counts then v.toInt else .ok 0) = .ok i) ↔ ¬ v.NoInteger := by
  cases v with
  | null => simp [counts, NoInteger]
  | bool b => cases b <;> simp [counts, toInt, NoInteger]
  | num n =>
    cases n with
    | int i =>
      simp only [toInt, NoInteger, not_false_eq_true, iff_true]
      split <;> exact ⟨_, rfl⟩
    | float x => simpa [NoInteger] using exists_toInt_float_iff x
  | str s =>
    by_cases hs : s = ""
    · simp [counts, NoInteger, hs]
    · cases hi : Number.ofText? s <;> simp [counts, toInt, NoInteger, hs, hi]
  | arr vs => cases vs <;> simp [counts, toInt, NoInteger]
  | obj ms => cases ms <;> simp [counts, toInt, NoInteger]

namespace Gate

/-- A list is missing, and what the summary states in its place is no whole number. -/
structure BadCount (d : Document) (listKey summaryKey : String) : Prop where
  missing : d.lookup listKey = none
  stated : ∃ s v, d.lookup "summary" = some (.obj s) ∧ s.lookup summaryKey = some v ∧ v.NoInteger

/-- What a document says of the number of items in a list: its length where it is present, else the
number in the summary. -/
inductive Counted (d : Document) (listKey summaryKey : String) : Int → Prop where
  | listed {vs : List Json} (list : d.lookup listKey = some (.arr vs)) :
      Counted d listKey summaryKey vs.length
  | stated {s : Document} {n : Int} (missing : ∀ vs, d.lookup listKey ≠ some (.arr vs))
      (summary : d.lookup "summary" = some (.obj s))
      (number : ((s.lookup summaryKey).getD (.int 0)).Gives n) : Counted d listKey summaryKey n

/-- A count that the rules can make, and show if it exceeds its threshold. -/
structure Countable (d : Document) (listKey summaryKey : String) (threshold : Number) : Prop where
  number : ¬ BadCount d listKey summaryKey
  shown : ∀ n, Counted d listKey summaryKey n → Shown n threshold

/-- The size of the graph that the summary states. -/
def Sizes (d : Document) (nodes edges : Int) : Prop :=
  ∃ s, d.lookup "summary" = some (.obj s) ∧ s.lookup "totalNodes" = some (.int nodes) ∧
    s.lookup "totalEdges" = some (.int edges)

/-- A document whose numbers the rules can compute with. -/
structure Computable (d : Document) (t : Thresholds) (now : Moment) : Prop where
  cycles : Countable d "cycles" "cyclesCount" t.cycles
  unused : Countable d "unusedExports" "unusedExportsCount" t.unused
  average : ∀ nodes edges, Sizes d nodes edges → nodes ≠ 0 →
    edges.natAbs < Binary.limit * nodes.natAbs
  density : ∀ nodes edges x, Sizes d nodes edges → nodes ≠ 0 → edges ≠ 0 →
    divide (.int edges) (.int nodes) = .ok x →
    t.averageImports.lt (.float (Binary.roundPlaces 2 x)) = true → t.averageImports.toFloat? ≠ none
  age : ∀ text, d.lookup "timestamp" = some (.str text) → ∀ made, Moment.ofText? text = some made →
    t.staleHours.lt (.float (now.hoursSince made)) = true → t.staleHours.toFloat? ≠ none

/-! ## One rule after another -/

/-- Counting gives what the document says. -/
theorem count_eq_ok_iff {d : Document} {listKey summaryKey : String} {n : Int} :
    count d listKey summaryKey = .ok n ↔ Counted d listKey summaryKey n := by
  unfold count
  split
  · next vs hlist =>
    constructor
    · rintro ⟨⟩
      exact .listed hlist
    · rintro (⟨list⟩ | ⟨missing⟩)
      · cases hlist.symm.trans list
        rfl
      · exact absurd hlist (missing vs)
  · next hmissing =>
    simp only [bind_eq_ok_iff, Json.field_eq_ok_iff, Json.fieldD_eq_ok_iff]
    constructor
    · rintro ⟨_, ⟨_, ⟨⟩, summary⟩, _, ⟨s, rfl, rfl⟩, number⟩
      refine .stated hmissing summary ?_
      unfold Json.Gives
      split at number
      · next h => rwa [if_pos h]
      · next h => cases number; rw [if_neg h]
    · rintro (⟨list⟩ | ⟨-, summary, number⟩)
      · exact absurd list (hmissing _)
      · refine ⟨_, ⟨_, rfl, summary⟩, _, ⟨_, rfl, rfl⟩, ?_⟩
        unfold Json.Gives at number
        split
        · next h => rwa [if_pos h] at number
        · next h => rw [if_neg h] at number; rw [number]; rfl

theorem exists_count_iff {d : Document} {listKey summaryKey : String} (h : WellShaped d)
    (hkey : listKey ∈ ["cycles", "unusedExports", "typeNodes"]) :
    (∃ n, count d listKey summaryKey = .ok n) ↔ ¬ BadCount d listKey summaryKey := by
  obtain ⟨s, -, -, hsummary, -⟩ := h.summary
  cases hlist : d.lookup listKey with
  | some v =>
    obtain ⟨vs, rfl⟩ := h.lists listKey hkey v hlist
    exact iff_of_true ⟨_, count_of_list hlist⟩ fun hbad => nomatch hlist.symm.trans hbad.missing
  | none =>
    have hcount : count d listKey summaryKey =
        let v := (s.lookup summaryKey).getD (.int 0)
        if v.counts then v.toInt else .ok 0 := by
      simp only [count, hlist, Json.field, hsummary, Json.fieldD, bind, Except.bind, pure,
        Except.pure]
    rw [hcount, Json.exists_toInt_iff, not_iff_not]
    constructor
    · intro hv
      cases hstated : s.lookup summaryKey with
      | none =>
        rw [hstated] at hv
        exact hv.elim
      | some v =>
        rw [hstated] at hv
        exact ⟨hlist, s, v, hsummary, hstated, hv⟩
    · rintro ⟨-, s', v, hsummary', hstated, hv⟩
      cases hsummary.symm.trans hsummary'
      rwa [hstated]

theorem exists_checkCount_iff_countable {d : Document} {rule : Rule}
    {listKey summaryKey things : String} {threshold : Number}
    {details : Except Fault (List String)} (h : WellShaped d)
    (hkey : listKey ∈ ["cycles", "unusedExports", "typeNodes"])
    (hdetails : ∃ texts, details = .ok texts) :
    (∃ r, checkCount d rule listKey summaryKey things threshold details = .ok r) ↔
      Countable d listKey summaryKey threshold := by
  rw [exists_checkCount_iff hdetails]
  constructor
  · rintro ⟨n, hn, hshown⟩
    refine ⟨(exists_count_iff h hkey).1 ⟨n, hn⟩, fun m hm => ?_⟩
    rw [← count_eq_ok_iff, hn] at hm
    cases hm
    exact hshown
  · rintro ⟨number, shown⟩
    obtain ⟨n, hn⟩ := (exists_count_iff h hkey).2 number
    exact ⟨n, hn, shown n (count_eq_ok_iff.1 hn)⟩

/-- Whole numbers have a quotient unless it is too large for a double. -/
theorem exists_divide_iff {m n : Int} (hn : n ≠ 0) :
    (∃ x, divide (.int m) (.int n) = .ok x) ↔ m.natAbs < Binary.limit * n.natAbs := by
  rw [← Nat.not_le, ← Binary.nearest?_eq_none_iff (decide (m < 0) != decide (n < 0))
    (Int.natAbs_pos.2 hn)]
  simp only [divide, Json.asNumber?]
  split <;> simp_all

theorem exists_thresholdText_iff {t : Number} :
    (∃ text, thresholdText t = .ok text) ↔ t.toFloat? ≠ none := by
  unfold thresholdText
  cases t.toFloat? <;> simp

theorem exists_checkStructure_iff {d : Document} (t : Thresholds) {nodes edges : Int}
    (h : Sizes d nodes edges) :
    (∃ c, checkStructure d t = .ok c) ↔
      (nodes ≠ 0 → edges.natAbs < Binary.limit * nodes.natAbs) ∧
      (nodes ≠ 0 → edges ≠ 0 → ∀ x, divide (.int edges) (.int nodes) = .ok x →
        t.averageImports.lt (.float (Binary.roundPlaces 2 x)) = true →
          t.averageImports.toFloat? ≠ none) := by
  obtain ⟨s, hsummary, hnodes, hedges⟩ := h
  unfold checkStructure
  simp only [Json.field, hsummary, hnodes, hedges, bind, Except.bind, pure, Except.pure,
    same_int_zero_iff, decide_eq_true_eq]
  by_cases hn : nodes = 0
  · simp [hn]
  by_cases he : edges = 0
  · have hpos : 0 < Binary.limit * nodes.natAbs :=
      Nat.mul_pos Binary.limit_pos (Int.natAbs_pos.2 hn)
    simp [hn, he, hpos]
  rw [← exists_divide_iff hn]
  simp only [hn, he, if_false, ne_eq, not_false_eq_true, forall_const]
  cases hdivide : divide (.int edges) (.int nodes) with
  | error f => simp
  | ok x =>
    simp only [Except.ok.injEq, exists_eq', true_and, forall_eq']
    cases t.averageImports.lt (.float (Binary.roundPlaces 2 x)) with
    | false => simp
    | true =>
      rw [← ne_eq, ← exists_thresholdText_iff]
      cases thresholdText t.averageImports <;> simp

theorem exists_checkAge_iff {d : Document} (t : Thresholds) (now : Moment) (h : WellShaped d) :
    (∃ r, checkAge d t now = .ok r) ↔
      ∀ text, d.lookup "timestamp" = some (.str text) → ∀ made, Moment.ofText? text = some made →
        t.staleHours.lt (.float (now.hoursSince made)) = true → t.staleHours.toFloat? ≠ none := by
  unfold checkAge member
  cases htime : d.lookup "timestamp" with
  | none => exact iff_of_true ⟨_, rfl⟩ (by simp)
  | some v =>
    obtain ⟨text, rfl⟩ := h.timestamp v htime
    simp only [Option.getD_some, Json.counts, Json.toText, bind, Except.bind, pure, Except.pure,
      Bool.not_not, String.isEmpty_iff, Option.some.injEq, Json.str.injEq, forall_eq']
    by_cases hempty : text = ""
    · have hnone : Moment.ofText? "" = none := by decide
      simp [hempty, hnone]
    cases Moment.ofText? text with
    | none => simp [hempty]
    | some made =>
      simp only [hempty, if_false, Option.some.injEq, forall_eq']
      cases t.staleHours.lt (.float (now.hoursSince made)) with
      | false => simp
      | true =>
        rw [← exists_thresholdText_iff]
        cases thresholdText t.staleHours <;> simp

/-- The rules give a result if each of them does. -/
theorem exists_evaluate_iff {d : Document} {t : Thresholds} {now : Moment} :
    (∃ r, evaluate d t now = .ok r) ↔ (∃ r, checkCycles d t = .ok r) ∧
      (∃ r, checkUnused d t = .ok r) ∧ (∃ r, checkStructure d t = .ok r) ∧
      (∃ r, checkAge d t now = .ok r) ∧ ∃ r, checkTypeFiles d = .ok r := by
  constructor
  · rintro ⟨r, hr⟩
    obtain ⟨⟨n₁, f₁⟩, h₁, hr⟩ := bind_eq_ok_iff.1 hr
    obtain ⟨⟨n₂, f₂⟩, h₂, hr⟩ := bind_eq_ok_iff.1 hr
    obtain ⟨c, h₃, hr⟩ := bind_eq_ok_iff.1 hr
    obtain ⟨⟨age, f₄⟩, h₄, hr⟩ := bind_eq_ok_iff.1 hr
    obtain ⟨⟨n₅, f₅⟩, h₅, -⟩ := bind_eq_ok_iff.1 hr
    exact ⟨⟨_, h₁⟩, ⟨_, h₂⟩, ⟨_, h₃⟩, ⟨_, h₄⟩, ⟨_, h₅⟩⟩
  · rintro ⟨⟨r₁, h₁⟩, ⟨r₂, h₂⟩, ⟨c, h₃⟩, ⟨r₄, h₄⟩, ⟨r₅, h₅⟩⟩
    unfold evaluate
    simp only [h₁, h₂, h₃, h₄, h₅, bind, Except.bind, pure, Except.pure]
    exact ⟨_, rfl⟩

theorem Sizes.unique {d : Document} {nodes edges nodes' edges' : Int} (h : Sizes d nodes edges)
    (h' : Sizes d nodes' edges') : nodes = nodes' ∧ edges = edges' := by
  obtain ⟨s, hs, hn, he⟩ := h
  obtain ⟨s', hs', hn', he'⟩ := h'
  cases hs.symm.trans hs'
  cases hn.symm.trans hn'
  cases he.symm.trans he'
  exact ⟨rfl, rfl⟩

/-- On documents of the right shape the rules give a result as far as the numbers allow. -/
theorem exists_evaluate_iff_computable {d : Document} (t : Thresholds) (now : Moment)
    (h : WellShaped d) : (∃ r, evaluate d t now = .ok r) ↔ Computable d t now := by
  obtain ⟨s, nodes, edges, hsizes⟩ := h.summary
  have hsizes : Sizes d nodes edges := ⟨s, hsizes⟩
  obtain ⟨files, f, htypes, -⟩ := checkTypeFiles_spec h
  rw [exists_evaluate_iff, checkCycles, checkUnused,
    exists_checkCount_iff_countable h (by simp) (exists_cycleTexts h),
    exists_checkCount_iff_countable h (by simp) (exists_unusedTexts h),
    exists_checkStructure_iff t hsizes, exists_checkAge_iff t now h]
  constructor
  · rintro ⟨hcycles, hunused, ⟨haverage, hdensity⟩, hage, -⟩
    refine ⟨hcycles, hunused, ?_, ?_, hage⟩
    · intro nodes' edges' hsizes'
      obtain ⟨rfl, rfl⟩ := hsizes.unique hsizes'
      exact haverage
    · intro nodes' edges' x hsizes' hn he
      obtain ⟨rfl, rfl⟩ := hsizes.unique hsizes'
      exact hdensity hn he x
  · rintro ⟨hcycles, hunused, haverage, hdensity, hage⟩
    exact ⟨hcycles, hunused, ⟨haverage nodes edges hsizes,
      fun hn he x => hdensity nodes edges x hsizes hn he⟩, hage, _, htypes⟩

end Gate

namespace ReportStore

theorem loadRaw_eq_ok_iff {s : ReportStore} {w : World} {d : Gate.Document} :
    s.loadRaw w = .ok d ↔
      ∃ text, w.readText s.location = .ok text ∧ Json.parse text = .ok (.obj d) := by
  simp only [World.readText_eq_ok_iff]
  unfold loadRaw
  dsimp only
  split
  · next content hfind =>
    split
    · next e hdecode => simp [hfind, hdecode]
    · next text hdecode => split <;> simp_all
  · next hfind => simp_all

theorem exists_loadRaw_fault_iff {s : ReportStore} {w : World} :
    (∃ f, s.loadRaw w = .error (.fault f)) ↔
      ∃ text, w.readText s.location = .ok text ∧
        Json.parse (τ := String) text = .error .tooManyDigits := by
  simp only [World.readText_eq_ok_iff]
  unfold loadRaw
  dsimp only
  split
  · next content hfind =>
    split
    · next e hdecode => simp [hfind, hdecode]
    · next text hdecode => split <;> simp_all
  · next hfind => simp_all

theorem exists_validate_fault_iff {s : ReportStore} {t : Gate.Thresholds} {w : World} :
    (∃ f, s.validate t w = .error (.fault f)) ↔ (∃ f, s.loadRaw w = .error (.fault f)) ∨
      ∃ d, s.loadRaw w = .ok d ∧ Gate.shapeError? d = none ∧
        ¬ ∃ r, Gate.evaluate d t w.now = .ok r := by
  unfold validate
  cases s.loadRaw w with
  | error e => simp [bind, Except.bind]
  | ok d =>
    cases hshape : Gate.shapeError? d with
    | some e => simp [bind, Except.bind, hshape, throw, throwThe, MonadExceptOf.throw]
    | none =>
      cases heval : Gate.evaluate d t w.now <;>
        simp [bind, Except.bind, hshape, heval, pure, Except.pure, throw, throwThe,
          MonadExceptOf.throw]

/-- The gate has no answer on a stored text in two cases only, as far as the depth of the text is no
obstacle: a whole number in it has too many digits to be read, or it is a document of the right
shape that the rules cannot compute with. -/
theorem validate_fault_iff (s : ReportStore) (t : Gate.Thresholds) (w : World) :
    (∃ f, s.validate t w = .error (.fault f)) ↔
      ∃ text, w.readText s.location = .ok text ∧
        (Json.parse (τ := String) text = .error .tooManyDigits ∨
          ∃ d, Json.parse text = .ok (.obj d) ∧ Gate.shapeError? d = none ∧
            ¬ Gate.Computable d t w.now) := by
  rw [exists_validate_fault_iff, exists_loadRaw_fault_iff]
  constructor
  · rintro (⟨text, hread, hdigits⟩ | ⟨d, hload, hshape, hnone⟩)
    · exact ⟨text, hread, .inl hdigits⟩
    · obtain ⟨text, hread, hparse⟩ := loadRaw_eq_ok_iff.1 hload
      have hwell := Gate.shapeError?_eq_none_iff.1 hshape
      rw [Gate.exists_evaluate_iff_computable t w.now hwell] at hnone
      exact ⟨text, hread, .inr ⟨d, hparse, hshape, hnone⟩⟩
  · rintro ⟨text, hread, hdigits | ⟨d, hparse, hshape, hnone⟩⟩
    · exact .inl ⟨text, hread, hdigits⟩
    · have hwell := Gate.shapeError?_eq_none_iff.1 hshape
      rw [← Gate.exists_evaluate_iff_computable t w.now hwell] at hnone
      exact .inr ⟨d, loadRaw_eq_ok_iff.2 ⟨text, hread, hparse⟩, hshape, hnone⟩

/-- A world with a report that states its cycles in words. -/
def wordyArchive : World where
  tree := .dir [("p", .dir [("report.json", .file
    "\x7b\"summary\": \x7b\"totalNodes\": 1, \"totalEdges\": 1, \"cyclesCount\": \"many\"\x7d\x7d".toUTF8)])]
  here := ⟨1, ["p"]⟩
  home := ⟨1, []⟩
  now := ⟨0, 0⟩
  settingsFile := none

/-- A document of the right shape on which the gate gives neither a result nor a reason. -/
theorem wordyArchive_faults :
    (∃ d, (⟨⟨0, ["report.json"]⟩⟩ : ReportStore).loadRaw wordyArchive = .ok d ∧
      Gate.shapeError? d = none) ∧
    ∃ f, (⟨⟨0, ["report.json"]⟩⟩ : ReportStore).validate .default wordyArchive =
      .error (.fault f) := by
  have hread : ((⟨⟨0, ["report.json"]⟩⟩ : ReportStore).loadRaw wordyArchive).toOption.map
      (fun d => (Gate.shapeError? d, (Gate.count d "cycles" "cyclesCount").toOption)) =
        some (none, none) := by
    decide +kernel
  generalize (⟨⟨0, ["report.json"]⟩⟩ : ReportStore) = s at hread ⊢
  cases hload : s.loadRaw wordyArchive with
  | error e => simp [hload, Except.toOption] at hread
  | ok d =>
    simp only [hload, Except.toOption, Option.map_some, Option.some.injEq, Prod.mk.injEq] at hread
    obtain ⟨hshape, hcount⟩ := hread
    refine ⟨⟨d, rfl, hshape⟩, exists_validate_fault_iff.2 (.inr ⟨d, hload, hshape, ?_⟩)⟩
    intro hresult
    obtain ⟨⟨r, hr⟩, -⟩ := Gate.exists_evaluate_iff.1 hresult
    obtain ⟨n, hn, -⟩ := bind_eq_ok_iff.1 hr
    rw [hn] at hcount
    cases hcount

end ReportStore

end ImportAtlas
