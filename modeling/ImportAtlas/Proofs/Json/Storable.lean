import ImportAtlas.Json.Access
import ImportAtlas.Label
import ImportAtlas.Proofs.Except
import ImportAtlas.Proofs.Json.RoundTrip
import Mathlib.Data.List.Basic

/-!
# Values that can be stored

A value can be stored if its objects do not repeat a key and its whole numbers are not too long.
Those are the values that texts denote. Whatever is taken from such a value can be stored as well.
-/

namespace ImportAtlas

theorem Number.ofDigits_lt {ds : List Nat} (h : ∀ d ∈ ds, d < 10) : ofDigits ds < 10 ^ ds.length := by
  induction ds with
  | nil => decide
  | cons d ds ih =>
    obtain ⟨hd, hds⟩ := List.forall_mem_cons.1 h
    have hrest := ih hds
    have hsplit : ofDigits (d :: ds) = d * 10 ^ ds.length + ofDigits ds := by
      rw [← List.singleton_append, ofDigits_append]
      simp [ofDigits]
    have hfirst : d * 10 ^ ds.length ≤ 9 * 10 ^ ds.length := Nat.mul_le_mul_right _ (by omega)
    rw [hsplit, List.length_cons, Nat.pow_succ]
    omega

namespace Json

variable {τ : Type}

/-- No object repeats a key, and every number can be written. -/
def Storable (v : Json τ) : Prop := Plain v ∧ v.isWritable = true

theorem storable_null : Storable (.null : Json τ) := ⟨.null, rfl⟩

theorem storable_bool (b : Bool) : Storable (.bool b : Json τ) := ⟨.bool b, rfl⟩

theorem storable_str (s : τ) : Storable (.str s) := ⟨.str s, rfl⟩

theorem storable_num {n : Number} (h : numberWritable n = true) : Storable (.num n : Json τ) :=
  ⟨.num n, h⟩

theorem storable_arr_iff {vs : List (Json τ)} : Storable (.arr vs) ↔ ∀ v ∈ vs, Storable v := by
  unfold Storable
  rw [isWritable, itemsWritable_iff]
  constructor
  · rintro ⟨hplain, hwritable⟩ v hv
    cases hplain with
    | arr hitems => exact ⟨hitems v hv, hwritable v hv⟩
  · exact fun h => ⟨.arr fun v hv => (h v hv).1, fun v hv => (h v hv).2⟩

theorem storable_arr_nil : Storable (.arr [] : Json τ) := storable_arr_iff.2 (by simp)

theorem storable_obj_nil : Storable (.obj [] : Json τ) := ⟨.obj List.nodup_nil (by simp), rfl⟩

theorem storable_obj_iff {ms : List (τ × Json τ)} :
    Storable (.obj ms) ↔ (ms.map (·.1)).Nodup ∧ ∀ m ∈ ms, Storable m.2 := by
  unfold Storable
  rw [isWritable, membersWritable_iff]
  constructor
  · rintro ⟨hplain, hwritable⟩
    cases hplain with
    | obj hkeys hvalues => exact ⟨hkeys, fun m hm => ⟨hvalues m hm, hwritable m hm⟩⟩
  · rintro ⟨hkeys, h⟩
    exact ⟨.obj hkeys fun m hm => (h m hm).1, fun m hm => (h m hm).2⟩

/-- An object with the given keys, of which none is repeated. -/
theorem storable_obj {ms : List (τ × Json τ)} (keys : (ms.map (·.1)).Nodup)
    (values : ms.Forall fun m => Storable m.2) : Storable (.obj ms) :=
  storable_obj_iff.2 ⟨keys, List.forall_iff_forall_mem.1 values⟩

/-! ## What is taken from a value -/

variable {v u : Json τ} {key : τ}

theorem storable_of_lookup [DecidableEq τ] {ms : List (τ × Json τ)} (h : Storable (.obj ms))
    (hlookup : ms.lookup key = some u) : Storable u := by
  obtain ⟨before, after, hms, -⟩ := List.lookup_eq_some_iff.1 hlookup
  have hmem : (key, u) ∈ ms := by simp [hms]
  exact (storable_obj_iff.1 h).2 _ hmem

theorem storable_field [DecidableEq τ] [Wording τ] (h : Storable v) (hfield : v.field key = .ok u) :
    Storable u := by
  unfold field at hfield
  split at hfield
  · next ms =>
    split at hfield
    · next hlookup =>
      cases hfield
      exact storable_of_lookup h hlookup
    · cases hfield
  · cases hfield

theorem storable_fieldD [DecidableEq τ] {fallback : Json τ} (h : Storable v)
    (hfallback : Storable fallback) (hfield : v.fieldD key fallback = .ok u) : Storable u := by
  unfold fieldD at hfield
  split at hfield
  · next ms =>
    cases hfield
    cases hlookup : ms.lookup key with
    | none => exact hfallback
    | some w => exact storable_of_lookup h hlookup
  · cases hfield

theorem storable_elements [Wording τ] {vs : List (Json τ)} (h : Storable v)
    (helements : v.elements = .ok vs) : ∀ w ∈ vs, Storable w := by
  unfold elements at helements
  split at helements
  · cases helements
    exact storable_arr_iff.1 h
  · cases helements
    intro w hw
    obtain ⟨c, -, rfl⟩ := List.mem_map.1 hw
    exact storable_str _
  · cases helements
    intro w hw
    obtain ⟨m, -, rfl⟩ := List.mem_map.1 hw
    exact storable_str _
  · cases helements

/-! ## Whole numbers -/

theorem lt_of_digitValue? {c : Char} {d : Nat} (h : Text.digitValue? c = some d) : d < 10 := by
  obtain ⟨z, hz, rfl⟩ := Option.map_eq_some_iff.1 h
  have hrange := List.find?_some hz
  simp only [Bool.and_eq_true, decide_eq_true_eq] at hrange
  omega

theorem lt_of_mem_groupedDigits? {cs : List Char} {ds : List Nat}
    (h : Number.groupedDigits? cs = some ds) : ∀ d ∈ ds, d < 10 := by
  fun_induction Number.groupedDigits? cs generalizing ds with
  | case1 => cases h
  | case2 c cs ih =>
    obtain ⟨d, hd, hrest⟩ := Option.bind_eq_some_iff.1 h
    have hfirst := lt_of_digitValue? hd
    split at hrest
    · cases hrest
      simpa using hfirst
    · obtain ⟨ds', hds', rfl⟩ := Option.map_eq_some_iff.1 hrest
      exact List.forall_mem_cons.2 ⟨hfirst, ih hds'⟩
    · next hnil hline =>
      obtain ⟨ds', hds', rfl⟩ := Option.map_eq_some_iff.1 hrest
      split at ih
      · exact absurd rfl hnil
      · exact absurd rfl (hline _)
      · exact List.forall_mem_cons.2 ⟨hfirst, ih hds'⟩

theorem writable_int_iff {i : Int} :
    numberWritable (.int i) = true ↔ i.natAbs < 10 ^ Number.digitLimit := by
  rw [numberWritable, decide_eq_true_iff, Nat.length_toDigits_le_iff (by decide) (by decide)]

theorem writable_signed {negative : Bool} {n : Nat} (h : n < 10 ^ Number.digitLimit) :
    numberWritable (.int (Binary.signed negative n)) = true := by
  have habs : (Binary.signed negative n).natAbs = n := by
    cases negative <;> simp [Binary.signed]
  rwa [writable_int_iff, habs]

/-- The number that not too many digits write can be written. -/
theorem writable_ofDigits (negative : Bool) {ds : List Nat} (digits : ∀ d ∈ ds, d < 10)
    (short : ds.length ≤ Number.digitLimit) :
    numberWritable (.int (Binary.signed negative (Number.ofDigits ds))) = true :=
  writable_signed ((Number.ofDigits_lt digits).trans_le (Nat.pow_le_pow_right (by decide) short))

theorem writable_ofText? {s : String} {i : Int} (h : Number.ofText? s = some i) :
    numberWritable (.int i) = true := by
  unfold Number.ofText? at h
  obtain ⟨ds, hds, hi⟩ := Option.bind_eq_some_iff.1 h
  split at hi
  · cases hi
  · next hshort =>
    cases hi
    exact writable_ofDigits _ (lt_of_mem_groupedDigits? hds) (Nat.not_lt.1 hshort)

/-- The whole part of a double has far fewer digits than are read. -/
theorem writable_truncate? {x : Float} {s : Bool} {m : Nat} {e : Int}
    (h : Binary.ofFloat x = .finite s m e) :
    numberWritable (.int (((Binary.finite s m e).truncate?).getD 0)) = true := by
  obtain ⟨k, hk, hm, he⟩ : ∃ k : Nat, k = 971 ∧ m < 2 ^ 53 ∧ e ≤ k := by
    rcases Binary.finite_cases h with ⟨hm, rfl, -⟩ | ⟨-, hm, -, he, -⟩
    · exact ⟨971, rfl, by omega, by decide⟩
    · exact ⟨971, rfl, hm, he⟩
  have hlimit : 53 + k ≤ Number.digitLimit := by
    rw [Number.digitLimit]
    omega
  refine writable_signed ?_
  calc (Binary.scaled m e).1 / (Binary.scaled m e).2 ≤ (Binary.scaled m e).1 := Nat.div_le_self _ _
    _ < 2 ^ 53 * 2 ^ k := Binary.scaled_fst_lt hm he
    _ = 2 ^ (53 + k) := (Nat.pow_add 2 53 k).symm
    _ ≤ 10 ^ (53 + k) := Nat.pow_le_pow_left (by decide) _
    _ ≤ 10 ^ Number.digitLimit := Nat.pow_le_pow_right (by decide) hlimit

theorem storable_toInt {v : Json} {i : Int} (h : Storable v) (hint : v.toInt = .ok i) :
    Storable (.int i : Json) := by
  unfold toInt at hint
  split at hint
  · next b =>
    cases hint
    refine storable_num ?_
    cases b <;> decide
  · cases hint
    exact h
  · split at hint
    · cases hint
    · cases hint
    · next hfinite =>
      cases hint
      exact storable_num (writable_truncate? hfinite)
  · split at hint
    · next hread =>
      cases hint
      exact storable_num (writable_ofText? hread)
    · cases hint
  · cases hint

/-! ## Values of texts -/

theorem mem_setMember [DecidableEq τ] {value : Json τ} {ms : List (τ × Json τ)} {m : τ × Json τ}
    (h : m ∈ setMember key value ms) : m = (key, value) ∨ m ∈ ms := by
  fun_induction setMember key value ms with
  | case1 => exact .inl (List.mem_singleton.1 h)
  | case2 v ms => exact (List.mem_cons.1 h).imp_right (List.mem_cons_of_mem _)
  | case3 k v ms hne ih =>
    rcases List.mem_cons.1 h with rfl | hrest
    · exact .inr List.mem_cons_self
    · exact (ih hrest).imp_right (List.mem_cons_of_mem _)

theorem nodup_setMember [DecidableEq τ] {value : Json τ} {ms : List (τ × Json τ)}
    (h : (ms.map (·.1)).Nodup) : ((setMember key value ms).map (·.1)).Nodup := by
  fun_induction setMember key value ms with
  | case1 => simp
  | case2 v ms => exact h
  | case3 k v ms hne ih =>
    obtain ⟨hk, hms⟩ := List.nodup_cons.1 h
    refine List.nodup_cons.2 ⟨fun hmem => ?_, ih hms⟩
    obtain ⟨m, hm, hname⟩ := List.mem_map.1 hmem
    rcases mem_setMember hm with rfl | hm
    · exact hne hname.symm
    · exact hk (hname ▸ List.mem_map_of_mem hm)

theorem storable_ofMembers [DecidableEq τ] {ms : List (τ × Json τ)}
    (h : ∀ m ∈ ms, Storable m.2) : Storable (ofMembers ms) := by
  have hset (acc : List (τ × Json τ)) (hacc : Storable (.obj acc)) :
      Storable (.obj (ms.foldl (fun acc m => setMember m.1 m.2 acc) acc)) := by
    induction ms generalizing acc with
    | nil => exact hacc
    | cons m ms ih =>
      obtain ⟨hm, hms⟩ := List.forall_mem_cons.1 h
      obtain ⟨hkeys, hvalues⟩ := storable_obj_iff.1 hacc
      refine ih hms _ (storable_obj_iff.2 ⟨nodup_setMember hkeys, fun n hn => ?_⟩)
      rcases mem_setMember hn with rfl | hn
      · exact hm
      · exact hvalues n hn
  exact hset [] storable_obj_nil

theorem isDigit_of_readWhole {cs whole rest : List Char} (h : readWhole cs = some (whole, rest)) :
    ∀ c ∈ whole, c.isDigit = true := by
  unfold readWhole at h
  split at h
  · cases h
    exact List.forall_mem_singleton.2 rfl
  · split at h
    · cases h
    · next found _ =>
      cases h
      exact fun c hc => List.mem_takeWhile_imp hc

theorem writable_readUnsigned {negative : Bool} {n : Number} {cs rest : List Char}
    (h : readUnsigned negative cs = .ok (n, rest)) : numberWritable n = true := by
  unfold readUnsigned at h
  split at h
  · cases h
  · next whole r hwhole =>
    dsimp only at h
    split at h
    · split at h
      · cases h
      · next hshort =>
        cases h
        refine writable_ofDigits negative (fun d hd => ?_) ?_
        · obtain ⟨c, hc, rfl⟩ := List.mem_map.1 hd
          have hdigit := Decimal.isDigit_iff.1 (isDigit_of_readWhole hwhole c hc)
          omega
        · rw [List.length_map]
          omega
    · cases h
      rfl

theorem writable_readNumber {n : Number} {cs rest : List Char} (h : readNumber cs = .ok (n, rest)) :
    numberWritable n = true := by
  unfold readNumber at h
  split at h
  · exact writable_readUnsigned h
  · exact writable_readUnsigned h

theorem storable_readScalar {cs rest : List Char} (h : readScalar cs = .ok (v, rest)) :
    Storable v := by
  unfold readScalar at h
  split at h
  · next found hfound =>
    cases h
    obtain ⟨⟨w, u⟩, hmem, hafter⟩ := List.exists_of_findSome?_eq_some hfound
    obtain ⟨r, -, hr⟩ := Option.map_eq_some_iff.1 hafter
    cases hr
    have hwords : ∀ c ∈ constants (τ := τ), Storable c.2 := by
      simp only [constants, List.forall_mem_cons]
      exact ⟨storable_null, storable_bool _, storable_bool _, storable_num rfl, storable_num rfl,
        storable_num rfl, by simp⟩
    exact hwords _ hmem
  · obtain ⟨⟨n, r⟩, hn, h⟩ := map_eq_ok_iff.1 h
    cases h
    exact storable_num (writable_readNumber hn)

theorem readScalar_ne_obj {cs rest : List Char} {ms : List (τ × Json τ)} :
    readScalar cs ≠ .ok (.obj ms, rest) := by
  intro h
  unfold readScalar at h
  split at h
  · next found hfound =>
    cases h
    obtain ⟨⟨word, v⟩, hmem, hafter⟩ := List.exists_of_findSome?_eq_some hfound
    obtain ⟨r, -, hr⟩ := Option.map_eq_some_iff.1 hafter
    cases hr
    simp [constants] at hmem
  · obtain ⟨⟨n, r⟩, -, h⟩ := map_eq_ok_iff.1 h
    cases h

variable [DecidableEq τ] [Wording τ]

section Step

variable {fuel : Nat}
  (value : ∀ {cs rest} {v : Json τ}, readValue fuel cs = .ok (v, rest) → Storable v)
  (items : ∀ {cs rest} {vs : List (Json τ)}, readItems fuel cs = .ok (vs, rest) →
    ∀ v ∈ vs, Storable v)
  (members : ∀ {cs rest} {ms : List (τ × Json τ)}, readMembers fuel cs = .ok (ms, rest) →
    ∀ m ∈ ms, Storable m.2)

include items members in
theorem storable_readValue_succ {cs rest : List Char}
    (h : readValue (fuel + 1) cs = .ok (v, rest)) : Storable v := by
  unfold readValue at h
  split at h
  · cases ‹_›
  · obtain ⟨⟨s, r⟩, -, h⟩ := bind_eq_ok_iff.1 h
    cases h
    exact storable_str s
  · next heq =>
    cases heq
    split at h
    · cases h
      exact storable_arr_nil
    · obtain ⟨⟨vs, r⟩, hvs, h⟩ := bind_eq_ok_iff.1 h
      cases h
      exact storable_arr_iff.2 (items hvs)
  · next heq =>
    cases heq
    split at h
    · cases h
      exact storable_obj_nil
    · obtain ⟨⟨ms, r⟩, hms, h⟩ := bind_eq_ok_iff.1 h
      cases h
      exact storable_ofMembers (members hms)
  · exact storable_readScalar h

include value items in
theorem storable_readItems_succ {cs rest : List Char} {vs : List (Json τ)}
    (h : readItems (fuel + 1) cs = .ok (vs, rest)) : ∀ v ∈ vs, Storable v := by
  unfold readItems at h
  obtain ⟨⟨v, r⟩, hv, h⟩ := bind_eq_ok_iff.1 h
  dsimp only at h
  split at h
  · obtain ⟨⟨ws, r⟩, hws, h⟩ := bind_eq_ok_iff.1 h
    cases h
    exact List.forall_mem_cons.2 ⟨value hv, items hws⟩
  · cases h
    simpa using value hv
  · cases h

include value members in
theorem storable_readMembers_succ {cs rest : List Char} {ms : List (τ × Json τ)}
    (h : readMembers (fuel + 1) cs = .ok (ms, rest)) : ∀ m ∈ ms, Storable m.2 := by
  unfold readMembers at h
  split at h
  · cases ‹_›
  · next heq =>
    cases heq
    obtain ⟨⟨k, r⟩, -, h⟩ := bind_eq_ok_iff.1 h
    dsimp only at h
    split at h
    · obtain ⟨⟨v, r⟩, hv, h⟩ := bind_eq_ok_iff.1 h
      dsimp only at h
      split at h
      · obtain ⟨⟨ns, r⟩, hns, h⟩ := bind_eq_ok_iff.1 h
        cases h
        exact List.forall_mem_cons.2 ⟨value hv, members hns⟩
      · cases h
        simpa using value hv
      · cases h
    · cases h
  · cases h

end Step

/-- Whatever is read can be stored. -/
theorem storable_read (fuel : Nat) :
    (∀ {cs rest} {v : Json τ}, readValue fuel cs = .ok (v, rest) → Storable v) ∧
      (∀ {cs rest} {vs : List (Json τ)}, readItems fuel cs = .ok (vs, rest) →
        ∀ v ∈ vs, Storable v) ∧
      ∀ {cs rest} {ms : List (τ × Json τ)}, readMembers fuel cs = .ok (ms, rest) →
        ∀ m ∈ ms, Storable m.2 := by
  induction fuel with
  | zero =>
    refine ⟨fun h => ?_, fun h => ?_, fun h => ?_⟩ <;> cases h
  | succ fuel ih =>
    obtain ⟨value, items, members⟩ := ih
    exact ⟨storable_readValue_succ items members, storable_readItems_succ value items,
      storable_readMembers_succ value members⟩

/-- The values that can be stored are those that a text denotes. -/
theorem storable_iff_exists_text [LawfulWording τ] : Storable v ↔ ∃ text, parse text = .ok v := by
  refine ⟨fun h => ⟨v.pretty, parse_pretty h.1 h.2⟩, ?_⟩
  rintro ⟨text, h⟩
  unfold parse at h
  dsimp only at h
  split at h
  · cases h
  · next u r hread =>
    split at h
    · cases h
      exact (storable_read _).1 hread
    · cases h

/-- The text of an object has an opening brace. -/
theorem brace_mem_of_parse {s : String} {ms : List (τ × Json τ)} (h : parse s = .ok (.obj ms)) :
    '\x7b' ∈ s.toList := by
  unfold parse at h
  dsimp only at h
  split at h
  · cases h
  · next v r hread =>
    split at h
    · cases h
      unfold readValue at hread
      split at hread
      · cases hread
      · obtain ⟨⟨_, _⟩, -, hstr⟩ := bind_eq_ok_iff.1 hread
        cases hstr
      · split at hread
        · cases hread
        · obtain ⟨⟨_, _⟩, -, harr⟩ := bind_eq_ok_iff.1 hread
          cases harr
      · next cs hbrace =>
        have hmem : '\x7b' ∈ skipSpace s.toList := hbrace ▸ List.mem_cons_self
        exact (List.dropWhile_sublist _).subset hmem
      · exact absurd hread readScalar_ne_obj
    · cases h

end Json

end ImportAtlas
