import ImportAtlas.Proofs.Decimal.Value
import ImportAtlas.Proofs.Settings.Given

/-!
# Settings are refused or well typed

The settings that are read from a document are well typed, with two exceptions that `Loose` names: a
label is not checked, and what is no number passes for one that is not negative.
-/

namespace ImportAtlas

theorem exists_mem_of_forall₂ {α β : Type} {R : α → β → Prop} {as : List α} {bs : List β} {a : α}
    (h : List.Forall₂ R as bs) (ha : a ∈ as) : ∃ b ∈ bs, R a b := by
  induction h with
  | nil => cases ha
  | @cons a' b as bs hab _ ih =>
    rcases List.mem_cons.1 ha with rfl | ha
    · exact ⟨b, List.mem_cons_self, hab⟩
    · obtain ⟨b', hb', hr⟩ := ih ha
      exact ⟨b', List.mem_cons_of_mem b hb', hr⟩

namespace Settings

variable {t : Table} {key : String}

/-! ## Thresholds -/

/-- A number that is not negative is cut to one that is not negative. -/
theorem Form.exists_nat_of_convert {m n : Number} (hm : m.lt (.int 0) = false)
    (h : Form.whole.convert m = .ok n) : ∃ k : Nat, n = .int k := by
  cases m with
  | int i =>
    cases h
    rw [← Bool.not_eq_true, Number.int_lt_int_iff, Int.not_lt] at hm
    exact ⟨i.toNat, by rw [Int.toNat_of_nonneg hm]⟩
  | float x =>
    cases hx : Binary.ofFloat x with
    | nan => simp [convert, Json.toInt, Except.map, hx] at h
    | infinite s => simp [convert, Json.toInt, Except.map, hx] at h
    | finite s m e =>
      have hexact : (Number.float x).exact = .finite s m e := hx
      rw [← Bool.not_eq_true, Number.lt_int_iff hexact, Int.cast_zero, not_lt] at hm
      simp only [convert, Json.toInt, Except.map, hx, Binary.truncate?, Option.getD_some,
        Except.ok.injEq] at h
      subst h
      cases s with
      | false => exact ⟨_, rfl⟩
      | true =>
        -- Of the values with a sign only zero is not negative.
        have hzero : m = 0 := by
          have hpow : (0 : ℚ) < 2 ^ e := zpow_pos (by norm_num) e
          simp only [Binary.value, Binary.signed, if_true] at hm
          have hle := nonneg_of_mul_nonneg_left hm hpow
          push_cast at hle
          exact_mod_cast le_antisymm (neg_nonneg.1 hle) (Nat.cast_nonneg m)
        subst hzero
        refine ⟨0, ?_⟩
        simp only [Binary.scaled]
        split <;> simp [Binary.signed]

/-- A number that is not negative is kept as one that is not negative, unless it is no number. -/
theorem Form.le_of_convert {m n : Number} (hm : m.lt (.int 0) = false)
    (h : Form.double.convert m = .ok n) :
    (Number.int 0).le n = true ∨ ∃ x, m = .float x ∧ n = .float x ∧ Binary.ofFloat x = .nan := by
  cases m with
  | int i =>
    cases hx : Binary.ofInt? i with
    | none => simp [convert, Number.toFloat?, hx] at h
    | some x =>
      simp only [convert, Number.toFloat?, hx, Option.map_some, Option.elim_some,
        Except.ok.injEq] at h
      subst h
      obtain ⟨k, e, hfinite, -, -⟩ := Binary.ofFloat_of_nearest? Nat.one_pos hx
      rw [← Bool.not_eq_true, Number.int_lt_int_iff] at hm
      rw [decide_eq_false hm] at hfinite
      have hexact : (Number.float x).exact = .finite false k e := hfinite
      refine .inl (Number.le_of_lt_eq_false (Number.exact_int_ne_nan 0) (by simp [hexact]) ?_)
      rw [← Bool.not_eq_true, Number.lt_int_iff hexact, Int.cast_zero, not_lt,
        Binary.value_finite_false]
      exact mul_nonneg (Nat.cast_nonneg k) (zpow_nonneg (by norm_num) e)
  | float x =>
    cases h
    by_cases hnan : Binary.ofFloat x = .nan
    · exact .inr ⟨x, rfl, rfl, hnan⟩
    · exact .inl (Number.le_of_lt_eq_false (Number.exact_int_ne_nan 0) hnan hm)

/-! ## Well-typed settings -/

/-- Settings as a program expects them: texts that are not empty, counts that are whole numbers and
not negative, and other numbers that are not negative. -/
structure WellTyped (s : Settings) : Prop where
  sourceRoot : s.analysis.sourceRoot ≠ ""
  reportPath : s.analysis.reportPath ≠ ""
  subtrees : ∀ b ∈ s.analysis.subtrees, b.path ≠ "" ∧ b.category ≠ "" ∧
    ∃ label, b.label = .str label ∧ label ≠ ""
  counts : ∀ n ∈ [s.thresholds.cycles, s.thresholds.unused], ∃ k : Nat, n = .int k
  measures : ∀ n ∈ [s.thresholds.averageImports, s.thresholds.staleHours],
    (Number.int 0).le n = true

/-- An entry whose label is no text, or that has no label and no last segment to go by. -/
def LooseLabel (e : Table) : Prop :=
  (∃ v, e.lookup "label" = some v ∧ v.counts = true ∧ ∀ label, v ≠ .str label) ∨
    (∀ v, e.lookup "label" = some v → v.counts = false) ∧
      ∃ path, e.lookup "path" = some (.str path) ∧ (Location.ofText path).name = ""

/-- A document with a loose label, or with a threshold that is no number. -/
def Loose (t : Table) : Prop :=
  ∃ analysis validation, Tables t analysis validation ∧
    ((∃ vs e, analysis.lookup "subtrees" = some (.arr vs) ∧ .obj e ∈ vs ∧ LooseLabel e) ∨
      ∃ l ∈ Limit.all, l.form = .double ∧
        ∃ x, validation.lookup l.key = some (.float x) ∧ Binary.ofFloat x = .nan)

theorem Draws.unique {α : Type} {write : α → Json} {fallback a b : α}
    (hwrite : Function.Injective write) (ha : Draws write t key fallback a)
    (hb : Draws write t key fallback b) : a = b := by
  rcases ha with ha | ⟨ha, rfl⟩ <;> rcases hb with hb | ⟨hb, rfl⟩
  · exact hwrite (Option.some.inj (ha.symm.trans hb))
  · cases ha.symm.trans hb
  · cases ha.symm.trans hb
  · rfl

theorem Tables.unique {a v a' v' : Table} (h : Tables t a v) (h' : Tables t a' v') :
    a = a' ∧ v = v' :=
  have hobj : Function.Injective Json.obj := fun _ _ => Json.obj.inj
  ⟨h.analysis.unique hobj h'.analysis, h.validation.unique hobj h'.validation⟩

/-- The label of a subtree is a text that is not empty unless the entry is loose. -/
theorem GivesSubtree.label_iff {e : Table} {b : Subtree} (h : GivesSubtree e b) :
    (∃ label, b.label = .str label ∧ label ≠ "") ↔ ¬ LooseLabel e := by
  have hpath : e.lookup "path" = some (.str b.path) :=
    h.path.1.resolve_right fun hnone => h.path.2 hnone.2
  rcases h.label with ⟨hlabel, hcounts⟩ | ⟨hnone, hlabel⟩
  · have hloose : LooseLabel e ↔ ∀ label, b.label ≠ .str label := by
      constructor
      · rintro (⟨v, hv, -, hne⟩ | ⟨hnone, -⟩)
        · cases hlabel.symm.trans hv
          exact hne
        · cases hcounts.symm.trans (hnone _ hlabel)
      · exact fun hne => .inl ⟨_, hlabel, hcounts, hne⟩
    rw [hloose]
    constructor
    · rintro ⟨label, h, -⟩ hne
      exact hne label h
    · intro hne
      obtain ⟨label, h⟩ := Classical.not_forall_not.1 hne
      refine ⟨label, h, ?_⟩
      rintro rfl
      rw [h] at hcounts
      cases hcounts
  · have hloose : LooseLabel e ↔ (Location.ofText b.path).name = "" := by
      constructor
      · rintro (⟨v, hv, hcounts, -⟩ | ⟨-, path, hp, hname⟩)
        · cases hcounts.symm.trans (hnone v hv)
        · cases hpath.symm.trans hp
          exact hname
      · exact fun hname => .inr ⟨hnone, b.path, hpath, hname⟩
    rw [hloose, hlabel]
    simp

theorem defaultSubtrees_typed : ∀ b ∈ defaultSubtrees, b.path ≠ "" ∧ b.category ≠ "" ∧
    ∃ label, b.label = .str label ∧ label ≠ "" := by
  simp [defaultSubtrees]

theorem GivesAnalysis.subtrees_iff {a : AnalysisSettings} (h : GivesAnalysis t a) :
    (∀ b ∈ a.subtrees, b.path ≠ "" ∧ b.category ≠ "" ∧ ∃ label, b.label = .str label ∧ label ≠ "") ↔
      ¬ ∃ vs e, t.lookup "subtrees" = some (.arr vs) ∧ .obj e ∈ vs ∧ LooseLabel e := by
  rcases h.subtrees with ⟨vs, hvs, hgiven⟩ | ⟨hnone, hdefault⟩
  · constructor
    · rintro htyped ⟨vs', e, hvs', he, hloose⟩
      cases hvs.symm.trans hvs'
      obtain ⟨b, hb, e', heq, hgives⟩ := exists_mem_of_forall₂ hgiven he
      cases heq
      exact hgives.label_iff.1 (htyped b hb).2.2 hloose
    · intro hloose b hb
      obtain ⟨v, hv, e, rfl, hgives⟩ := exists_mem_of_forall₂ hgiven.flip hb
      refine ⟨hgives.path.2, hgives.category.2, hgives.label_iff.2 fun hlabel => ?_⟩
      exact hloose ⟨vs, e, hvs, hv, hlabel⟩
  · refine iff_of_true ?_ ?_
    · rw [hdefault]
      exact defaultSubtrees_typed
    · rintro ⟨vs, e, hvs, -⟩
      cases hnone.symm.trans hvs

theorem Limit.exact_default_ne_nan : ∀ l ∈ Limit.all, (l.get default.thresholds).exact ≠ .nan := by
  decide +kernel

theorem Limit.Kept.exists_nat {l : Limit} {n : Number} (h : l.Kept t n) (hform : l.form = .whole) :
    ∃ k : Nat, n = .int k := by
  obtain ⟨m, ⟨-, hm⟩, hconvert⟩ := h
  rw [hform] at hconvert
  exact Form.exists_nat_of_convert hm hconvert

theorem Limit.Kept.le_iff {l : Limit} {n : Number} (h : l.Kept t n) (hform : l.form = .double)
    (hl : l ∈ Limit.all) :
    (Number.int 0).le n = true ↔
      ¬ ∃ x, t.lookup l.key = some (.float x) ∧ Binary.ofFloat x = .nan := by
  obtain ⟨m, ⟨hdraws, hm⟩, hconvert⟩ := h
  rw [hform] at hconvert
  constructor
  · rintro hle ⟨x, hx, hnan⟩
    have hdraw : m = .float x := by
      rcases hdraws with hdraws | ⟨hnone, -⟩
      · cases hdraws.symm.trans hx
        rfl
      · cases hnone.symm.trans hx
    subst hdraw
    cases hconvert
    exact Number.exact_ne_nan_of_le hle hnan
  · intro hnone
    refine (Form.le_of_convert hm hconvert).resolve_right ?_
    rintro ⟨x, rfl, -, hnan⟩
    rcases hdraws with hdraws | ⟨-, hdefault⟩
    · exact hnone ⟨x, hdraws, hnan⟩
    · exact Limit.exact_default_ne_nan l hl (by rw [← hdefault]; exact hnan)

theorem Limit.get_mem {l : Limit} (hl : l ∈ Limit.all) (hform : l.form = .double)
    (b : Gate.Thresholds) : l.get b ∈ [b.averageImports, b.staleHours] := by
  simp only [Limit.all, List.mem_cons, List.not_mem_nil, or_false] at hl
  rcases hl with rfl | rfl | rfl | rfl
  · cases hform
  · cases hform
  · exact List.mem_cons_self
  · exact List.mem_cons_of_mem _ List.mem_cons_self

/-- The settings of a document are well typed unless the document is loose. -/
theorem From.wellTyped_iff {s : Settings} (h : From t s) : s.WellTyped ↔ ¬ Loose t := by
  obtain ⟨analysis, validation, htables, hanalysis, hlimits⟩ := h
  have hloose : Loose t ↔
      (∃ vs e, analysis.lookup "subtrees" = some (.arr vs) ∧ .obj e ∈ vs ∧ LooseLabel e) ∨
      ∃ l ∈ Limit.all, l.form = .double ∧
        ∃ x, validation.lookup l.key = some (.float x) ∧ Binary.ofFloat x = .nan := by
    constructor
    · rintro ⟨analysis', validation', htables', h⟩
      obtain ⟨rfl, rfl⟩ := htables.unique htables'
      exact h
    · exact fun h => ⟨analysis, validation, htables, h⟩
  rw [hloose, not_or, ← hanalysis.subtrees_iff]
  constructor
  · intro htyped
    refine ⟨htyped.subtrees, ?_⟩
    rintro ⟨l, hl, hform, hnan⟩
    have hle := htyped.measures _ (Limit.get_mem hl hform s.thresholds)
    exact ((hlimits l hl).le_iff hform hl).1 hle hnan
  · rintro ⟨hsubtrees, hnan⟩
    have hcount (l : Limit) (hl : l ∈ Limit.all) := (hlimits l hl).exists_nat
    have hmeasure (l : Limit) (hl : l ∈ Limit.all) (hform : l.form = .double) :=
      ((hlimits l hl).le_iff hform hl).2 fun h => hnan ⟨l, hl, hform, h⟩
    refine ⟨hanalysis.sourceRoot.2, hanalysis.reportPath.2, hsubtrees, ?_, ?_⟩
    · simp only [List.forall_mem_cons]
      exact ⟨hcount .cycles (by simp [Limit.all]) rfl, hcount .unused (by simp [Limit.all]) rfl,
        by simp⟩
    · simp only [List.forall_mem_cons]
      exact ⟨hmeasure .average (by simp [Limit.all]) rfl, hmeasure .stale (by simp [Limit.all]) rfl,
        by simp⟩

/-- What settings give, for every document. They are those that the document gives, key by key, and
well typed unless the document is loose. A document that gives none is refused, except at a
threshold that cannot be kept, if all before it is as it should be. -/
theorem ofTable_outcomes (t : Table) :
    (∀ s, ofTable t = .ok s ↔ From t s) ∧
    (∀ s, ofTable t = .ok s ∧ s.WellTyped ↔ From t s ∧ ¬ Loose t) ∧
    ((∃ f, ofTable t = .error (.fault f)) ↔
      ∃ analysis validation, Tables t analysis validation ∧ (∃ a, GivesAnalysis analysis a) ∧
        ∃ before l after, Limit.all = before ++ l :: after ∧
          (∀ m ∈ before, ∃ n, m.Kept validation n) ∧
          ∃ n, l.Gives validation n ∧ ¬ l.form.Fits n) := by
  refine ⟨fun s => ofTable_eq_ok_iff, fun s => ?_, ?_⟩
  · rw [ofTable_eq_ok_iff]
    exact and_congr_right From.wellTyped_iff
  · simp only [exists_ofTable_fault_iff, exists_readThresholds_fault_iff]

/-- A subtree with a number for its label. -/
def numbered : Table :=
  [("analysis", .obj [("subtrees", .arr [.obj [("path", .str "src/a"), ("label", .int 5)]])])]

/-- A gate that tolerates endlessly many cycles. -/
def endless : Table :=
  [("validation", .obj [("cycles_threshold", .float (Binary.infinity false))])]

/-- Settings that are accepted and not well typed, and a document that is neither accepted nor
refused. -/
theorem numbered_accepted :
    (∃ s, ofTable numbered = .ok s ∧ ¬ s.WellTyped) ∧ ∃ f, ofTable endless = .error (.fault f) := by
  constructor
  · have hsome : (ofTable numbered).toOption.isSome := by decide +kernel
    cases h : ofTable numbered with
    | error e => simp [h, Except.toOption] at hsome
    | ok s =>
      have hloose : Loose numbered :=
        ⟨_, _, ⟨.inl rfl, .inr ⟨rfl, rfl⟩⟩, .inl ⟨_, _, rfl, List.mem_singleton.2 rfl,
          .inl ⟨.int 5, rfl, by decide, by simp⟩⟩⟩
      exact ⟨s, rfl, fun htyped => (ofTable_eq_ok_iff.1 h).wellTyped_iff.1 htyped hloose⟩
  · refine exists_ofTable_fault_iff.2 ⟨[], _, ⟨.inr ⟨rfl, rfl⟩, .inl rfl⟩, ⟨default.analysis, ?_⟩,
      exists_readThresholds_fault_iff.2 ⟨[], .cycles, _, rfl, by simp, _, ⟨.inl rfl, ?_⟩, ?_⟩⟩
    · exact ⟨⟨.inr ⟨rfl, rfl⟩, by decide⟩, .inr ⟨rfl, rfl⟩, .inr ⟨rfl, rfl⟩, .inr ⟨rfl, rfl⟩,
        ⟨.inr ⟨rfl, rfl⟩, by decide⟩, .inr ⟨rfl, rfl⟩⟩
    · decide +kernel
    · show ¬ Binary.IsFinite (Binary.infinity false)
      unfold Binary.IsFinite
      decide +kernel

end Settings

end ImportAtlas
