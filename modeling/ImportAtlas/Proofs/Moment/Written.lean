import ImportAtlas.Proofs.Moment.Dates
import ImportAtlas.Proofs.Text

/-!
# Reading a moment that was written

A moment is written as the date and the time of day in UTC, each number with zeros in front up to a
fixed width. The reader takes such a text apart at the same places, so it finds the numbers again;
with the date and the time they give back the instant, but for what milliseconds do not show.
-/

namespace ImportAtlas

namespace Moment

/-! ## Numbers of a fixed width -/

/-- Digits that stand for a number. -/
structure Numeral (width n : Nat) (ds : List Char) : Prop where
  length_eq : ds.length = width
  digits : ∀ c ∈ ds, c.isDigit = true
  value : ds.foldl (fun v c => 10 * v + (c.toNat - 48)) 0 = n

variable {width n : Nat} {ds rest : List Char}

theorem Numeral.digits?_append (h : Numeral width n ds) (rest : List Char) :
    digits? width (ds ++ rest) = some (n, rest) := by
  have hall : ds.all Char.isDigit = true := List.all_eq_true.2 h.digits
  simp [digits?, ← h.length_eq, hall, h.value]

theorem Numeral.digits?_self (h : Numeral width n ds) : digits? width ds = some (n, []) := by
  have := h.digits?_append []
  rwa [List.append_nil] at this

theorem Numeral.exists_eq_cons (h : Numeral (width + 1) n ds) :
    ∃ c cs, ds = c :: cs ∧ c.isDigit = true := by
  obtain ⟨c, cs, rfl⟩ := List.exists_cons_of_length_eq_add_one h.length_eq
  exact ⟨c, cs, rfl, h.digits c List.mem_cons_self⟩

theorem toList_padded (width n : Nat) :
    (padded width n).toList =
      List.replicate (width - (Nat.toDigits 10 n).length) '0' ++ Nat.toDigits 10 n := by
  simp [padded, Nat.repr]

theorem isDigit_of_mem_padded {c : Char} (h : c ∈ (padded width n).toList) : c.isDigit = true := by
  rw [toList_padded] at h
  rcases List.mem_append.1 h with h | h
  · rw [List.eq_of_mem_replicate h]
    rfl
  · exact Nat.isDigit_of_mem_toDigits (by decide) (by decide) h

theorem numeral_padded (width : Nat) (hwidth : 0 < width) (h : n < 10 ^ width) :
    Numeral width n (padded width n).toList where
  length_eq := by
    have := (Nat.length_toDigits_le_iff (b := 10) (by decide) hwidth).2 h
    rw [toList_padded, List.length_append, List.length_replicate]
    omega
  digits _ := isDigit_of_mem_padded
  value := by
    have hzeros (k : Nat) :
        (List.replicate k '0').foldl (fun v c => 10 * v + (c.toNat - 48)) 0 = 0 := by
      induction k with
      | zero => rfl
      | succ k ih => simpa [List.replicate_succ] using ih
    rw [toList_padded, List.foldl_append, hzeros]
    exact Nat.ofDigitChars_eq_foldl.symm.trans Nat.ofDigitChars_ten_toDigits

/-! ## Times of day -/

theorem ending?_numeral (h : Numeral (width + 1) n ds) (hwidth : width + 1 ≤ 6) :
    ending? ds = some ([], n * 10 ^ (6 - (width + 1)), false) := by
  have hmin : min ds.length 6 = width + 1 := by rw [h.length_eq]; omega
  rw [ending?, fraction?, hmin, if_neg (Nat.succ_ne_zero width)]
  simp [h.digits?_self]

/-- A unit that a colon sets apart from the next one. -/
theorem units?_colon {micro k : Nat} {us : List Nat} {more : Bool} (h : Numeral 2 n ds)
    (hne : rest ≠ []) (hrest : units? true k rest = some (us, micro, more)) :
    units? true (k + 1) (ds ++ ':' :: rest) = some (n :: us, micro, more) := by
  obtain ⟨c, cs, rfl⟩ := List.exists_cons_of_ne_nil hne
  rw [units?, h.digits?_append]
  simp [hrest]

/-- A unit with a fraction behind it. -/
theorem units?_point {micro k : Nat} {us : List Nat} {more : Bool} (h : Numeral 2 n ds)
    (hne : rest ≠ []) (hrest : ending? rest = some (us, micro, more)) :
    units? true (k + 1) (ds ++ '.' :: rest) = some (n :: us, micro, more) := by
  obtain ⟨c, cs, rfl⟩ := List.exists_cons_of_ne_nil hne
  rw [units?, h.digits?_append]
  simp [hrest, isMark]

/-- A time of day to the millisecond. -/
def clockText (hour minute second milli : Nat) : List Char :=
  (padded 2 hour).toList ++ ':' :: ((padded 2 minute).toList ++ ':' ::
    ((padded 2 second).toList ++ '.' :: (padded 3 milli).toList))

theorem clock?_clockText {hour minute second milli : Nat} (hhour : hour < 100)
    (hminute : minute < 100) (hsecond : second < 100) (hmilli : milli < 1000) :
    clock? (clockText hour minute second milli) =
      some (⟨hour, minute, second, milli * 1000⟩, false) := by
  have hours := numeral_padded 2 (by decide) hhour
  have minutes := numeral_padded 2 (by decide) hminute
  have seconds := numeral_padded 2 (by decide) hsecond
  have millis := numeral_padded 3 (by decide) hmilli
  have hunits : units? true 3 (clockText hour minute second milli) =
      some ([hour, minute, second], milli * 1000, false) := by
    obtain ⟨c, cs, hcs, -⟩ := millis.exists_eq_cons
    refine units?_colon hours (by simp) (units?_colon minutes (by simp) ?_)
    exact units?_point seconds (by simp [hcs]) (ending?_numeral millis (by decide))
  have hcolon : (clockText hour minute second milli)[2]? = some ':' := by
    rw [clockText, List.getElem?_append_right hours.length_eq.le, hours.length_eq]
    rfl
  rw [clock?, hcolon, beq_self_eq_true, hunits]
  rfl

/-! ## Dates -/

/-- A date with dashes. -/
def dateText (year month day : Nat) : List Char :=
  (padded 4 year).toList ++ '-' :: ((padded 2 month).toList ++ '-' :: (padded 2 day).toList)

theorem date?_dateText {year month day : Nat} (hyear : year < 10000) (hmonth : month < 100)
    (hday : day < 100) : date? (dateText year month day) = some ⟨year, month, day⟩ := by
  have years := numeral_padded 4 (by decide) hyear
  have months := numeral_padded 2 (by decide) hmonth
  have days := numeral_padded 2 (by decide) hday
  rw [date?, dateText, years.digits?_append]
  simp only [Option.bind_eq_bind, Option.bind_some, List.head?_cons, beq_self_eq_true, if_true,
    List.drop_succ_cons, List.drop_zero]
  split
  · next hweek =>
    obtain ⟨c, cs, hcs, hc⟩ := months.exists_eq_cons
    rw [hcs, List.cons_append] at hweek
    rw [(List.cons.inj hweek).1] at hc
    cases hc
  · rw [months.digits?_append]
    simp only [Option.bind_some, dash?, if_true]
    simp [Text.after?, days.digits?_self]

theorem length_dateText {year month day : Nat} (hyear : year < 10000) (hmonth : month < 100)
    (hday : day < 100) : (dateText year month day).length = 10 := by
  simp [dateText, (numeral_padded 4 (by decide) hyear).length_eq,
    (numeral_padded 2 (by decide) hmonth).length_eq,
    (numeral_padded 2 (by decide) hday).length_eq]

theorem dateLength_dateText {year month day : Nat} (hyear : year < 10000) (hmonth : month < 100)
    (hday : day < 100) (rest : List Char) : dateLength (dateText year month day ++ rest) = 10 := by
  have years := (numeral_padded 4 (by decide) hyear).length_eq
  obtain ⟨c, cs, hcs, hc⟩ := (numeral_padded 2 (by decide) hmonth).exists_eq_cons
  have hlength := length_dateText hyear hmonth hday
  have hdash : (dateText year month day ++ rest)[4]? = some '-' := by
    rw [dateText, List.append_assoc, List.getElem?_append_right years.le, years]
    rfl
  have hmonths : (dateText year month day ++ rest)[5]? = some c := by
    rw [dateText, List.append_assoc, List.getElem?_append_right (years.le.trans (by decide)), years,
      hcs]
    rfl
  have hweek : ¬c = 'W' := by
    rintro rfl
    cases hc
  have hlong : ¬(dateText year month day ++ rest).length = 7 := by
    rw [List.length_append, hlength]
    omega
  rw [dateLength, if_neg hlong, if_pos hdash, if_neg (by simpa [hmonths] using hweek)]

/-! ## Moments -/

theorem mem_clockText {hour minute second milli : Nat} {c : Char}
    (h : c ∈ clockText hour minute second milli) : c.isDigit = true ∨ c = ':' ∨ c = '.' := by
  simp only [clockText, List.mem_append, List.mem_cons] at h
  rcases h with h | rfl | h | rfl | h | rfl | h
  all_goals first
    | exact .inl (isDigit_of_mem_padded h)
    | simp

theorem mem_dateText {year month day : Nat} {c : Char} (h : c ∈ dateText year month day) :
    c.isDigit = true ∨ c = '-' := by
  simp only [dateText, List.mem_append, List.mem_cons] at h
  rcases h with h | rfl | h | rfl | h
  all_goals first
    | exact .inl (isDigit_of_mem_padded h)
    | exact .inr rfl

theorem isSign_of_isDigit {c : Char} (h : c.isDigit = true) : isSign c = false := by
  have hplus : c ≠ '+' := by rintro rfl; cases h
  have hminus : c ≠ '-' := by rintro rfl; cases h
  simp [isSign, hplus, hminus]

theorem time?_clockText {hour minute second milli : Nat} (hhour : hour < 100)
    (hminute : minute < 100) (hsecond : second < 100) (hmilli : milli < 1000) :
    time? (clockText hour minute second milli ++ "+00:00".toList) =
      some (⟨hour, minute, second, milli * 1000⟩, 0) := by
  have hfront : ∀ c ∈ clockText hour minute second milli, (!isSign c) = true := by
    intro c hc
    rcases mem_clockText hc with hdigit | rfl | rfl
    · rw [isSign_of_isDigit hdigit]
      rfl
    · rfl
    · rfl
  have htake : (clockText hour minute second milli ++ "+00:00".toList).takeWhile (!isSign ·) =
      clockText hour minute second milli := by
    rw [List.takeWhile_append_of_pos hfront]
    exact List.append_nil _
  have hdrop : (clockText hour minute second milli ++ "+00:00".toList).dropWhile (!isSign ·) =
      '+' :: "00:00".toList := by
    rw [List.dropWhile_append_of_pos hfront]
    rfl
  have hzero : clock? "00:00".toList = some (⟨0, 0, 0, 0⟩, false) := by decide
  unfold time?
  simp only [htake, hdrop, clock?_clockText hhour hminute hsecond hmilli, hzero]
  rfl

theorem bounds_of_exists? {date : Date} (h : date.exists? = true) :
    date.year < 10000 ∧ date.month < 100 ∧ date.day < 100 := by
  simp only [Date.exists?, Bool.and_eq_true, decide_eq_true_eq] at h
  have := Date.monthLength_le date.year date.month
  omega

/-- What the reader makes of a date and a time. -/
theorem iso?_written {date : Date} {hour minute second milli : Nat} (hdate : date.exists? = true)
    (hhour : hour < 24) (hminute : minute < 60) (hsecond : second < 60) (hmilli : milli < 1000) :
    iso? (dateText date.year date.month date.day ++
        'T' :: (clockText hour minute second milli ++ "+00:00".toList)) =
      some ⟨((date.dayNumber : Int) - epochDays) * day +
        Clock.micros ⟨hour, minute, second, milli * 1000⟩, 0⟩ := by
  obtain ⟨hyear, hmonth, hday⟩ := bounds_of_exists? hdate
  have hlength := length_dateText hyear hmonth hday
  have hclock : Clock.isTime ⟨hour, minute, second, milli * 1000⟩ = true := by
    simp only [Clock.isTime, Bool.and_eq_true, decide_eq_true_eq]
    omega
  have hlong : ¬(dateText date.year date.month date.day ++
      'T' :: (clockText hour minute second milli ++ "+00:00".toList)).length < 7 := by
    rw [List.length_append, hlength]
    omega
  unfold iso?
  simp only [dateLength_dateText hyear hmonth hday, if_neg hlong, List.take_left' hlength,
    List.drop_left' hlength, date?_dateText hyear hmonth hday,
    time?_clockText (by omega : hour < 100) (by omega : minute < 100) (by omega : second < 100) hmilli]
  simp [hdate, hclock]

/-- The time of day in milliseconds as a clock shows it. -/
def clockTextOf (milli : Nat) : List Char :=
  clockText (milli / 3600000) (milli / 60000 % 60) (milli / 1000 % 60) (milli % 1000)

/-- The date and the time of day that are written for a number of microseconds since the year 1. -/
def faceText (t : Nat) : List Char :=
  let date := Date.ofDayNumber (t / 86400000000)
  dateText date.year date.month date.day ++ 'T' :: clockTextOf (t % 86400000000 / 1000)

theorem toList_utcText (m : Moment) : m.utcText.toList = faceText m.sinceYearOne.toNat ++ ['Z'] := by
  simp [utcText, faceText, clockTextOf, dateText, clockText]

theorem mem_faceText {t : Nat} {c : Char} (h : c ∈ faceText t) :
    c.isDigit = true ∨ c = '-' ∨ c = 'T' ∨ c = ':' ∨ c = '.' := by
  rcases List.mem_append.1 h with hdate | htime
  · exact (mem_dateText hdate).imp id .inl
  · rcases List.mem_cons.1 htime with rfl | hclock
    · exact .inr (.inr (.inl rfl))
    · exact (mem_clockText hclock).imp id fun hmark => .inr (.inr hmark)

theorem isBlank_of_mem_faceText {t : Nat} {c : Char} (h : c ∈ faceText t) :
    Text.isBlank c = false := by
  rcases mem_faceText h with hdigit | rfl | rfl | rfl | rfl
  · exact Text.isBlank_of_isDigit hdigit
  all_goals decide

theorem z_notMem_faceText (t : Nat) : 'Z' ∉ faceText t := by
  intro h
  have hmark := mem_faceText h
  revert hmark
  decide

/-- Behind what is written the reader sees an offset of nothing. -/
theorem ofText?_utcText (m : Moment) :
    ofText? m.utcText = iso? (faceText m.sinceYearOne.toNat ++ "+00:00".toList) := by
  have hblank : ∀ c ∈ m.utcText.toList, Text.isBlank c = false := by
    rw [toList_utcText, List.forall_mem_append]
    exact ⟨fun c => isBlank_of_mem_faceText, by simp; decide⟩
  rw [ofText?, Text.trim_of_forall hblank, toList_utcText, Text.replaceChar, List.flatMap_append,
    ← Text.replaceChar, Text.replaceChar_of_notMem (z_notMem_faceText _)]
  rfl

/-- The instant cut down to the millisecond, on a clock of UTC. -/
def cutToMilli (m : Moment) : Moment := ⟨m.instant / 1000 * 1000, 0⟩

theorem sinceYearOne_eq (m : Moment) : m.sinceYearOne = m.instant + 719162 * 86400000000 := rfl

theorem sinceYearOne_cutToMilli (m : Moment) :
    m.cutToMilli.sinceYearOne = m.sinceYearOne / 1000 * 1000 := by
  rw [sinceYearOne_eq, sinceYearOne_eq]
  show m.instant / 1000 * 1000 + _ = _
  omega

theorem isWritable_iff {m : Moment} : m.isWritable = true ↔
    0 ≤ m.sinceYearOne ∧ m.sinceYearOne < 3652059 * 86400000000 := by
  rw [isWritable, Bool.and_eq_true, decide_eq_true_eq, decide_eq_true_eq]
  rfl

/-- A time of day in milliseconds is the sum of what the clock shows. -/
theorem micros_of_milli (milli : Nat) :
    Clock.micros ⟨milli / 3600000, milli / 60000 % 60, milli / 1000 % 60, milli % 1000 * 1000⟩ =
      milli * 1000 := by
  simp only [Clock.micros, Moment.second]
  omega

/-- What is written is read as the instant that the date and the time of day show. -/
theorem ofText?_utcText_eq {m : Moment} (h : m.isWritable = true) :
    ofText? m.utcText = some m.cutToMilli := by
  obtain ⟨hfirst, hlast⟩ := isWritable_iff.1 h
  have hm := sinceYearOne_eq m
  rw [ofText?_utcText]
  obtain ⟨t, ht⟩ := Int.eq_ofNat_of_zero_le hfirst
  rw [ht, Int.toNat_natCast]
  rw [ht] at hm hlast
  have hyears : Date.daysBeforeYear 10000 = 3652059 := by decide
  have hexists : (Date.ofDayNumber (t / 86400000000)).exists? = true :=
    Date.exists?_ofDayNumber (by omega)
  have hmilli : t % 86400000000 / 1000 < 86400000 := by omega
  have hinstant : ((t / 86400000000 : Nat) - 719162) * 86400000000 +
      ((t % 86400000000 / 1000 : Nat) : Int) * 1000 = m.instant / 1000 * 1000 := by omega
  have hread := iso?_written hexists
    (Nat.div_lt_of_lt_mul hmilli : t % 86400000000 / 1000 / 3600000 < 24)
    (Nat.mod_lt (t % 86400000000 / 1000 / 60000) (by decide : 0 < 60))
    (Nat.mod_lt (t % 86400000000 / 1000 / 1000) (by decide : 0 < 60))
    (Nat.mod_lt (t % 86400000000 / 1000) (by decide : 0 < 1000))
  rw [Date.dayNumber_ofDayNumber, micros_of_milli] at hread
  rw [faceText, List.append_assoc, List.cons_append, clockTextOf, hread, cutToMilli, ← hinstant]
  rfl

theorem faceText_cut (t : Nat) : faceText (t / 1000 * 1000) = faceText t := by
  have hdays : t / 1000 * 1000 / 86400000000 = t / 86400000000 := by omega
  have hmilli : t / 1000 * 1000 % 86400000000 / 1000 = t % 86400000000 / 1000 := by omega
  rw [faceText, hdays, hmilli]
  rfl

/-- What milliseconds do not show is not written. -/
theorem toUtc?_cutToMilli (m : Moment) : m.cutToMilli.toUtc? = m.toUtc? := by
  have hwritable : m.cutToMilli.isWritable = m.isWritable := by
    rw [Bool.eq_iff_iff, isWritable_iff, isWritable_iff, sinceYearOne_cutToMilli]
    omega
  have htext : m.cutToMilli.utcText = m.utcText := by
    have hnat : m.cutToMilli.sinceYearOne.toNat = m.sinceYearOne.toNat / 1000 * 1000 := by
      rw [sinceYearOne_cutToMilli]
      omega
    rw [← String.toList_inj, toList_utcText, toList_utcText, hnat, faceText_cut]
  rw [toUtc?, toUtc?, hwritable, htext]

/-- Every moment in the years 1 to 9999 of UTC, whatever its offset, is written as a text that is
read as the same instant cut down to the millisecond, without an offset; and what was read is
written as the same text. -/
theorem timestamp_round_trip (m : Moment)
    (first : (Date.daysBeforeYear 1 : Int) * day ≤ m.sinceYearOne)
    (last : m.sinceYearOne < Date.daysBeforeYear 10000 * day) :
    ∃ text, m.toUtc? = some text ∧ ofText? text = some ⟨m.instant / 1000 * 1000, 0⟩ ∧
      toUtc? ⟨m.instant / 1000 * 1000, 0⟩ = some text := by
  have hwritable : m.isWritable = true := by
    have hfirst : Date.daysBeforeYear 1 = 0 := by decide
    have hlast : Date.daysBeforeYear 10000 = 3652059 := by decide
    rw [hfirst, Int.natCast_zero, Int.zero_mul] at first
    rw [hlast] at last
    exact isWritable_iff.2 ⟨first, last⟩
  have htext : m.toUtc? = some m.utcText := if_pos hwritable
  exact ⟨m.utcText, htext, ofText?_utcText_eq hwritable, (toUtc?_cutToMilli m).trans htext⟩

/-- The last microsecond of a leap day before 1970, on a clock where the next day has begun. -/
theorem leapDay_round_trip :
    let m : Moment := ⟨-62035804800000001, 14 * 3600000000⟩
    m.toUtc? = some "0004-02-29T23:59:59.999Z" ∧
      ofText? "0004-02-29T23:59:59.999Z" = some ⟨-62035804800001000, 0⟩ := by
  intro m
  have htext : m.toUtc? = some "0004-02-29T23:59:59.999Z" := by decide +kernel
  obtain ⟨text, hwritten, hread, -⟩ := timestamp_round_trip m (by decide) (by decide)
  obtain rfl : "0004-02-29T23:59:59.999Z" = text := Option.some.inj (htext.symm.trans hwritten)
  exact ⟨htext, hread⟩

end Moment

end ImportAtlas
