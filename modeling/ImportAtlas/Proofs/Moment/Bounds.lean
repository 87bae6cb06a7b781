import ImportAtlas.Moment.Reader
import ImportAtlas.Proofs.Decimal.Nearest

/-!
# Moments on the calendar

Every timestamp that can be read is a moment that a clock shows in the years 1 to 9999, less than a
day away from UTC. The hours between two such moments are a finite double.
-/

namespace ImportAtlas

/-! ## Dates -/

namespace Date

theorem sum_monthLengths (year : Nat) : (monthLengths year).sum = yearLength year := by
  unfold monthLengths yearLength
  cases isLeap year <;> rfl

theorem sum_take_add_getD_le (ls : List Nat) (k : Nat) :
    (ls.take k).sum + (ls[k]?).getD 0 ≤ ls.sum := by
  induction ls generalizing k with
  | nil => simp
  | cons l ls ih =>
    cases k with
    | zero => simp
    | succ k =>
      have := ih k
      simp only [List.take_succ_cons, List.sum_cons, List.getElem?_cons_succ]
      omega

theorem dayNumber_eq (d : Date) :
    d.dayNumber =
      daysBeforeYear d.year + ((monthLengths d.year).take (d.month - 1)).sum + (d.day - 1) :=
  rfl

/-- A date that exists lies in the years 1 to 9999. -/
theorem dayNumber_lt {d : Date} (h : d.exists? = true) : d.dayNumber < 3652059 := by
  simp only [exists?, Bool.and_eq_true, decide_eq_true_eq] at h
  obtain ⟨⟨⟨⟨⟨-, hyear⟩, -⟩, -⟩, hday⟩, hdays⟩ := h
  have hmonth := sum_take_add_getD_le (monthLengths d.year) (d.month - 1)
  rw [sum_monthLengths] at hmonth
  unfold monthLength at hdays
  rw [dayNumber_eq]
  -- only the last year can reach the bound, and it is no leap year
  by_cases hlast : d.year = 9999
  · rw [hlast] at hmonth hdays ⊢
    have hlength : yearLength 9999 = 365 := by decide
    have hbefore : daysBeforeYear 9999 = 3651694 := by decide
    omega
  · have hlength : yearLength d.year ≤ 366 := by unfold yearLength; split <;> omega
    have hbefore : daysBeforeYear d.year ≤ 365 * 9997 + 9997 / 4 + 9997 / 400 := by
      unfold daysBeforeYear
      dsimp only
      omega
    omega

end Date

namespace Moment

/-! ## Clocks -/

theorem foldl_digits_lt {ds : List Char} (h : ds.all Char.isDigit = true) (v : Nat) :
    ds.foldl (fun v c => 10 * v + (c.toNat - 48)) v < (v + 1) * 10 ^ ds.length := by
  induction ds generalizing v with
  | nil => simp
  | cons c ds ih =>
    rw [List.all_cons, Bool.and_eq_true] at h
    have hc : c.toNat - 48 ≤ 9 := by
      have hdigit := h.1
      simp only [Char.isDigit, Bool.and_eq_true, decide_eq_true_eq] at hdigit
      have hle : c.toNat ≤ 57 := hdigit.2
      omega
    rw [List.foldl_cons, List.length_cons, Nat.pow_succ]
    calc ds.foldl (fun v c => 10 * v + (c.toNat - 48)) (10 * v + (c.toNat - 48))
        < (10 * v + (c.toNat - 48) + 1) * 10 ^ ds.length := ih h.2 _
      _ ≤ (v + 1) * 10 * 10 ^ ds.length := Nat.mul_le_mul_right _ (by omega)
      _ = (v + 1) * (10 ^ ds.length * 10) := by rw [Nat.mul_assoc, Nat.mul_comm 10]

theorem lt_of_digits? {n v : Nat} {cs r : List Char} (h : digits? n cs = some (v, r)) :
    v < 10 ^ n := by
  simp only [digits?] at h
  split at h
  · next hall =>
    simp only [Bool.and_eq_true, decide_eq_true_eq] at hall
    cases h
    have hlt := foldl_digits_lt hall.2 0
    rwa [hall.1, Nat.zero_add, Nat.one_mul] at hlt
  · cases h

/-- A fraction of a second is less than a second. -/
theorem lt_of_fraction? {micro : Nat} {cs r : List Char} (h : fraction? cs = some (micro, r)) :
    micro < 1000000 := by
  unfold fraction? at h
  dsimp only at h
  split at h
  · cases h
  · next hn =>
    obtain ⟨⟨v, r'⟩, hdigits, hv⟩ := Option.bind_eq_some_iff.1 h
    cases hv
    have hlt := lt_of_digits? hdigits
    calc v * 10 ^ (6 - min cs.length 6) < 10 ^ min cs.length 6 * 10 ^ (6 - min cs.length 6) :=
          Nat.mul_lt_mul_of_pos_right hlt (Nat.pow_pos (by decide))
      _ = 1000000 := by rw [← Nat.pow_add, Nat.add_sub_cancel' (Nat.min_le_right _ _)]

theorem lt_of_ending? {us : List Nat} {micro : Nat} {more : Bool} {cs : List Char}
    (h : ending? cs = some (us, micro, more)) : micro < 1000000 := by
  obtain ⟨⟨m, r⟩, hfraction, heq⟩ := Option.map_eq_some_iff.1 h
  cases heq
  exact lt_of_fraction? hfraction

theorem lt_of_units? {colons : Bool} {n : Nat} {us : List Nat} {micro : Nat} {more : Bool}
    {cs : List Char} (h : units? colons n cs = some (us, micro, more)) : micro < 1000000 := by
  induction n generalizing cs us with
  | zero => exact lt_of_ending? h
  | succ n ih =>
    unfold units? at h
    split at h
    · cases h
    · cases h; decide
    · split at h
      · cases h; decide
      · cases h
    · obtain ⟨⟨vs, m, b⟩, hrest, heq⟩ := Option.map_eq_some_iff.1 h
      cases heq
      split at hrest
      · exact ih hrest
      · split at hrest
        · exact lt_of_ending? hrest
        · split at hrest
          · cases hrest
          · exact ih hrest

theorem lt_of_clock? {cs : List Char} {c : Clock} {more : Bool} (h : clock? cs = some (c, more)) :
    c.micro < 1000000 := by
  obtain ⟨⟨us, micro, b⟩, hunits, heq⟩ := Option.bind_eq_some_iff.1 h
  cases heq
  exact lt_of_units? hunits

theorem offset?_bounds {negative : Bool} {c : Clock} {o : Int} (h : offset? negative c = some o) :
    -day < o ∧ o < day := by
  have hday : day = 86400000000 := rfl
  have hnonneg : 0 ≤ c.micros := by
    unfold Clock.micros
    simp only [Moment.second]
    omega
  unfold offset? at h
  split at h
  · cases h; omega
  · split at h
    · cases h
      split <;> omega
    · cases h

theorem time?_bounds {cs : List Char} {c : Clock} {o : Int} (h : time? cs = some (c, o)) :
    c.micro < 1000000 ∧ -day < o ∧ o < day := by
  have hday : day = 86400000000 := rfl
  unfold time? at h
  dsimp only at h
  split at h
  · obtain ⟨⟨c', more⟩, hclock, heq⟩ := Option.bind_eq_some_iff.1 h
    dsimp only at heq
    split at heq
    · cases heq
    · cases heq
      exact ⟨lt_of_clock? hclock, by omega, by omega⟩
  · obtain ⟨⟨c', more⟩, hclock, h⟩ := Option.bind_eq_some_iff.1 h
    obtain ⟨⟨r, more'⟩, -, h⟩ := Option.bind_eq_some_iff.1 h
    dsimp only at h
    split at h
    · cases h
    · obtain ⟨o', hoffset, heq⟩ := Option.bind_eq_some_iff.1 h
      cases heq
      exact ⟨lt_of_clock? hclock, offset?_bounds hoffset⟩

/-! ## Moments -/

/-- A moment that a clock shows in the years 1 to 9999, less than a day away from UTC. -/
structure OnCalendar (m : Moment) : Prop where
  after : 0 ≤ m.sinceYearOne + m.offset
  before : m.sinceYearOne + m.offset < 3652059 * day
  west : -day < m.offset
  east : m.offset < day

theorem onCalendar_of_parts {date : Date} {c : Clock} {o : Int} (hdate : date.exists? = true)
    (hclock : c.isTime = true) (hmicro : c.micro < 1000000) (west : -day < o) (east : o < day) :
    OnCalendar ⟨((date.dayNumber : Int) - epochDays) * day + c.micros - o, o⟩ := by
  have hdays := Date.dayNumber_lt hdate
  simp only [Clock.isTime, Bool.and_eq_true, decide_eq_true_eq] at hclock
  have hshown : sinceYearOne ⟨((date.dayNumber : Int) - epochDays) * day + c.micros - o, o⟩ + o =
      date.dayNumber * day + c.micros := by
    simp only [sinceYearOne]
    ring
  have hmicros : 0 ≤ c.micros ∧ c.micros < day := by
    simp only [Clock.micros, day, Moment.second]
    omega
  have hday : day = 86400000000 := rfl
  refine ⟨?_, ?_, west, east⟩
  · rw [hshown]
    rw [hday] at hmicros ⊢
    omega
  · rw [hshown]
    rw [hday] at hmicros ⊢
    omega

/-- Every timestamp that can be read is on the calendar. -/
theorem onCalendar_of_ofText? {s : String} {m : Moment} (h : ofText? s = some m) :
    m.OnCalendar := by
  unfold ofText? iso? at h
  dsimp only at h
  split at h
  · cases h
  · obtain ⟨date, -, h⟩ := Option.bind_eq_some_iff.1 h
    split at h
    · obtain ⟨⟨c, o⟩, hmidnight, h⟩ := Option.bind_eq_some_iff.1 h
      cases hmidnight
      split at h
      · next hexists =>
        cases h
        rw [Bool.and_eq_true] at hexists
        exact onCalendar_of_parts hexists.1 hexists.2 (by decide) (by decide) (by decide)
      · cases h
    · obtain ⟨⟨c, o⟩, htime, h⟩ := Option.bind_eq_some_iff.1 h
      obtain ⟨hmicro, west, east⟩ := time?_bounds htime
      split at h
      · next hexists =>
        cases h
        rw [Bool.and_eq_true] at hexists
        exact onCalendar_of_parts hexists.1 hexists.2 hmicro west east
      · cases h

/-- The hours between two moments on the calendar are a finite double. -/
theorem isFinite_hoursSince {now made : Moment} (hnow : now.OnCalendar) (hmade : made.OnCalendar) :
    Binary.IsFinite (now.hoursSince made) := by
  have hhour : ∃ pos, (3600 : Float).toModel.unpack =
      .finite .positive (3600 * 2 ^ 41) (-41) pos := ⟨by decide, rfl⟩
  obtain ⟨pos, hhour⟩ := hhour
  have hsize : (now.instant - made.instant).natAbs < 2 ^ 64 := by
    obtain ⟨h₁, h₂, h₃, h₄⟩ := hnow
    obtain ⟨h₅, h₆, h₇, h₈⟩ := hmade
    simp only [sinceYearOne, epochDays, day, Moment.second] at *
    omega
  have hseconds : Binary.IsFinite (now.secondsSince made) :=
    Binary.isFinite_nearest _ (by decide) (Binary.lt_greatest_mul (by decide) hsize)
  exact hseconds.div hhour (by decide)

end Moment

end ImportAtlas
