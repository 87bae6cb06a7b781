import ImportAtlas.Proofs.Moment.Bounds

/-!
# Days and dates

A number of days is turned into a date by walking through years and months. The walk loses no day:
what lies before the year and the month it stops at, with the days that are left, is the number it
started with. So every date it gives exists and has that number of days before it.
-/

namespace ImportAtlas.Date

theorem daysBeforeYear_succ {year : Nat} (h : 1 ≤ year) :
    daysBeforeYear (year + 1) = daysBeforeYear year + yearLength year := by
  obtain ⟨y, rfl⟩ : ∃ y, year = y + 1 := ⟨year - 1, by omega⟩
  have hle : y / 100 ≤ y / 4 := by omega
  have hcentury : (y + 1) % 100 = 0 → (y + 1) % 4 = 0 := by omega
  have hcycle : (y + 1) % 400 = 0 → (y + 1) % 100 = 0 := by omega
  have hleap : (isLeap (y + 1) = true) ↔
      (y + 1) % 4 = 0 ∧ ((y + 1) % 100 ≠ 0 ∨ (y + 1) % 400 = 0) := by
    simp [isLeap]
  unfold daysBeforeYear yearLength
  simp only [Nat.add_sub_cancel, hleap, Nat.succ_div, Nat.dvd_iff_mod_eq_zero]
  generalize y / 4 = q, y / 100 = c, y / 400 = d at *
  split_ifs <;> omega

/-! ## Years -/

/-- What a walk through `fuel` years from a year keeps: no day is lost, and it stops early only
within a year. -/
structure Walked (fuel year days : Nat) (stop : Nat × Nat) : Prop where
  days_eq : daysBeforeYear stop.1 + stop.2 = daysBeforeYear year + days
  from_le : year ≤ stop.1
  le_until : stop.1 ≤ year + fuel
  within : stop.2 < yearLength stop.1 ∨ stop.1 = year + fuel

theorem walked_walkYears (fuel : Nat) {year : Nat} (days : Nat) (h : 1 ≤ year) :
    Walked fuel year days (walkYears fuel year days) := by
  fun_induction walkYears fuel year days with
  | case1 year days => exact ⟨rfl, le_refl _, le_refl _, .inr rfl⟩
  | case2 fuel year days hlt => exact ⟨rfl, le_refl _, by omega, .inl hlt⟩
  | case3 fuel year days hge ih =>
    obtain ⟨hdays, hfrom, huntil, hwithin⟩ := ih (by omega)
    have hnext := daysBeforeYear_succ h
    exact ⟨by omega, by omega, by omega, hwithin.imp id (by omega)⟩

theorem daysBeforeYear_cycle (q : Nat) : daysBeforeYear (400 * q + 1) = cycleDays * q := by
  unfold daysBeforeYear cycleDays
  simp only [Nat.add_sub_cancel]
  omega

/-- The walk stops within a year. -/
theorem exists_walkYears (n : Nat) :
    ∃ year days, walkYears 400 (400 * (n / cycleDays) + 1) (n % cycleDays) = (year, days) ∧
      1 ≤ year ∧ daysBeforeYear year + days = n ∧ days < yearLength year := by
  obtain ⟨hdays, hfrom, -, hwithin⟩ :=
    walked_walkYears 400 (n % cycleDays) (Nat.le_add_left 1 (400 * (n / cycleDays)))
  have hstart := daysBeforeYear_cycle (n / cycleDays)
  have hsum : daysBeforeYear (400 * (n / cycleDays) + 1) + n % cycleDays = n := by
    rw [hstart, Nat.div_add_mod]
  refine ⟨_, _, rfl, (Nat.le_add_left 1 _).trans hfrom, hdays.trans hsum,
    hwithin.resolve_right fun hlast => ?_⟩
  -- after a whole cycle of years more days would have been used up than there were
  have hnext := daysBeforeYear_cycle (n / cycleDays + 1)
  have hmod : n % cycleDays < cycleDays := Nat.mod_lt _ (by decide)
  rw [show 400 * (n / cycleDays + 1) + 1 = 400 * (n / cycleDays) + 1 + 400 by omega, ← hlast] at hnext
  rw [Nat.mul_add, Nat.mul_one] at hnext
  omega

/-! ## Months -/

/-- The walk through the months stops within a month. -/
theorem exists_walkMonths {lengths : List Nat} {days : Nat} (h : days < lengths.sum) (month : Nat) :
    ∃ k left, walkMonths lengths month days = (month + k, left) ∧ k < lengths.length ∧
      (lengths.take k).sum + left = days ∧ left < (lengths[k]?).getD 0 := by
  induction lengths generalizing days month with
  | nil => exact absurd h (Nat.not_lt_zero days)
  | cons n lengths ih =>
    rw [List.sum_cons] at h
    rw [walkMonths]
    split
    · next hlt => exact ⟨0, days, rfl, by simp, by simp, hlt⟩
    · next hge =>
      have hrest : days - n < lengths.sum := by omega
      obtain ⟨k, left, hwalk, hk, hsum, hleft⟩ := ih hrest (month + 1)
      refine ⟨k + 1, left, ?_, by simpa using hk, ?_, by simpa using hleft⟩
      · rw [hwalk, Nat.add_assoc, Nat.add_comm 1 k]
      · rw [List.take_succ_cons, List.sum_cons]
        omega

theorem monthLength_le (year month : Nat) : monthLength year month ≤ 31 := by
  unfold monthLength
  cases h : (monthLengths year)[month - 1]? with
  | none => exact Nat.zero_le 31
  | some n =>
    have hmem := List.mem_of_getElem? h
    simp only [monthLengths, List.mem_cons, List.not_mem_nil, or_false] at hmem
    rw [Option.getD_some]
    split at hmem <;> omega

/-! ## Dates -/

theorem exists_ofDayNumber (n : Nat) :
    ∃ year k left, ofDayNumber n = ⟨year, k + 1, left + 1⟩ ∧ 1 ≤ year ∧ k < 12 ∧
      daysBeforeYear year + ((monthLengths year).take k).sum + left = n ∧
      left < monthLength year (k + 1) := by
  obtain ⟨year, days, hyears, hyear, hdays, hlt⟩ := exists_walkYears n
  rw [← sum_monthLengths] at hlt
  obtain ⟨k, left, hmonths, hk, hsum, hleft⟩ := exists_walkMonths hlt 1
  refine ⟨year, k, left, ?_, hyear, hk, by omega, hleft⟩
  simp only [ofDayNumber, hyears, hmonths, Nat.add_comm 1 k]

/-- The date of a number of days has that many days before it. -/
theorem dayNumber_ofDayNumber (n : Nat) : (ofDayNumber n).dayNumber = n := by
  obtain ⟨year, k, left, hdate, -, -, hsum, -⟩ := exists_ofDayNumber n
  rw [hdate, dayNumber_eq]
  simpa using hsum

/-- The date of a number of days before the year 10000 exists. -/
theorem exists?_ofDayNumber {n : Nat} (h : n < daysBeforeYear 10000) :
    (ofDayNumber n).exists? = true := by
  obtain ⟨year, k, left, hdate, hyear, hk, hsum, hleft⟩ := exists_ofDayNumber n
  have hlast : year ≤ 9999 := by
    by_contra hlate
    have hbefore : daysBeforeYear 10000 ≤ daysBeforeYear year := by
      unfold daysBeforeYear
      dsimp only
      omega
    omega
  rw [hdate, exists?]
  simp only [Bool.and_eq_true, decide_eq_true_eq]
  omega

end ImportAtlas.Date
