import Bom.Proofs.Calendar.Reading

/-!
# The numbers of an instant

An instant is made of the numbers that are written for it and of no others: of its date, of its time
of day with second 60 in a leap second, and of the billionths of this second. Only the numbers of a
leap second that ends no minute are those of the second after it, and make up that one
(`DateTime.instant?_eq_some_iff`). The numbers that some instant has are those of a date between the
years -262143 and 262142 and of a time of day, where any minute may end with a leap second
(`DateTime.exists_parts_eq_iff`).

For this a date has to be the date of the day that it is counted as
(`Civil.ofDayNumber_dayNumber`). Its day lies in the year that begins in the March before it, and by
the days before that year no day lies in two years.
-/

namespace Bom

namespace Civil

/-! ## Dates and their days -/

/-- The year in which the date lies, taken to begin in March. -/
def yearFromMarch (c : Civil) : Int := if c.month ≤ 2 then c.year - 1 else c.year

/-- The month of that year, March being 0. -/
def monthFromMarch (c : Civil) : Int := if c.month ≤ 2 then c.month + 9 else c.month - 3

/-- The day of that year, the first of March being 0. -/
def dayFromMarch (c : Civil) : Int := daysBeforeMonth c.monthFromMarch + c.day - 1

theorem dayNumber_eq (c : Civil) :
    c.dayNumber + 719468 = daysBeforeYear c.yearFromMarch + c.dayFromMarch := by
  change c.yearFromMarch / 400 * 146097 + (c.yearFromMarch % 400 * 365 + c.yearFromMarch % 400 / 4 -
    c.yearFromMarch % 400 / 100 + c.dayFromMarch) - 719468 + 719468 = _
  unfold daysBeforeYear
  omega

/-- A date that exists has one of the twelve months, by the length of the month. -/
theorem month_cases {c : Civil} (h : c.isValid = true) : 1 ≤ c.day ∧
    (c.month = 2 ∧ c.day ≤ (if isLeapYear c.year then 29 else 28) ∨
      (c.month = 4 ∨ c.month = 6 ∨ c.month = 9 ∨ c.month = 11) ∧ c.day ≤ 30 ∨
      (c.month = 1 ∨ c.month = 3 ∨ c.month = 5 ∨ c.month = 7 ∨ c.month = 8 ∨ c.month = 10 ∨
        c.month = 12) ∧ c.day ≤ 31) := by
  unfold isValid daysInMonth at h
  simp only [Bool.and_eq_true, decide_eq_true_eq, List.mem_cons, List.not_mem_nil, or_false] at h
  obtain ⟨hlow, hhigh⟩ := h
  refine ⟨hlow, ?_⟩
  split at hhigh
  · next hm => exact .inl ⟨hm, hhigh⟩
  · split at hhigh
    · next hm => exact .inr (.inl ⟨hm, hhigh⟩)
    · split at hhigh
      · exact .inr (.inr ⟨by omega, hhigh⟩)
      · omega

/-- A date that exists lies in the year that begins in the March before it, and its month is found
by the day of this year. -/
theorem bounds_dayFromMarch {c : Civil} (h : c.isValid = true) : 0 ≤ c.dayFromMarch ∧
    daysBeforeYear c.yearFromMarch + c.dayFromMarch < daysBeforeYear (c.yearFromMarch + 1) ∧
    (5 * c.dayFromMarch + 2) / 153 = c.monthFromMarch := by
  obtain ⟨hday, hmonth⟩ := month_cases h
  unfold dayFromMarch monthFromMarch yearFromMarch daysBeforeYear daysBeforeMonth
  rcases hmonth with ⟨hm, hlast⟩ | ⟨hm, hlast⟩ | ⟨hm, hlast⟩
  · -- February, which is as long as the year that began in March says
    unfold isLeapYear at hlast
    simp only [Bool.and_eq_true, Bool.or_eq_true, beq_iff_eq, bne_iff_ne] at hlast
    simp only [hm, Nat.le_refl, if_true]
    split at hlast <;> omega
  · rcases hm with hm | hm | hm | hm <;> simp +decide only [hm, if_false] <;> omega
  · rcases hm with hm | hm | hm | hm | hm | hm | hm <;> simp +decide only [hm, if_false, if_true] <;>
      omega

/-- A date that exists is that of the day that it is counted as. -/
theorem ofDayNumber_dayNumber {c : Civil} (h : c.isValid = true) : ofDayNumber c.dayNumber = c := by
  obtain ⟨hlow, hhigh, hmonth⟩ := bounds_dayFromMarch h
  have hcount := dayNumber_eq c
  obtain ⟨hyearLow, hyearHigh⟩ := bounds_marchYear c.dayNumber
  have hyear : marchYear c.dayNumber = c.yearFromMarch := by
    rcases Int.lt_trichotomy (marchYear c.dayNumber) c.yearFromMarch with hlt | heq | hgt
    · have := daysBeforeYear_mono (Int.add_one_le_of_lt hlt)
      omega
    · exact heq
    · have := daysBeforeYear_mono (Int.add_one_le_of_lt hgt)
      omega
  have hday : marchDay c.dayNumber = c.dayFromMarch := by
    unfold marchDay
    rw [hyear]
    omega
  have hmarch : marchMonth c.dayNumber = c.monthFromMarch := by
    unfold marchMonth
    rw [hday, hmonth]
  obtain ⟨hfirst, hmonths⟩ := month_cases h
  rw [ofDayNumber_eq, hmarch, hday, hyear]
  unfold dayFromMarch monthFromMarch yearFromMarch
  obtain ⟨year, month, day⟩ := c
  dsimp only at hfirst hmonths ⊢
  simp only [mk.injEq]
  split <;> split <;> omega

/-- The days of the calendar are those of its years. -/
theorem dayNumber_mem_calendar_iff {c : Civil} (h : c.isValid = true) :
    firstDay ≤ c.dayNumber ∧ c.dayNumber ≤ lastDay ↔ -262143 ≤ c.year ∧ c.year ≤ 262142 := by
  have hfirst : ofDayNumber firstDay = ⟨-262143, 1, 1⟩ := by decide +kernel
  have hlast : ofDayNumber lastDay = ⟨262142, 12, 31⟩ := by decide +kernel
  have hbefore := ofDayNumber_lt_iff (m := c.dayNumber) (n := firstDay)
  have hafter := ofDayNumber_lt_iff (m := lastDay) (n := c.dayNumber)
  have hbounds := bounds_ofDayNumber c.dayNumber
  rw [hfirst, ofDayNumber_dayNumber h] at hbefore
  rw [hlast, ofDayNumber_dayNumber h] at hafter
  rw [ofDayNumber_dayNumber h] at hbounds
  dsimp only at hbefore hafter
  omega

end Civil

/-! ## Instants and their numbers -/

/-- The numbers that are written for an instant: its date, its time of day, where second 60 is a
leap second, and the billionths of this second. -/
structure ClockParts where
  date : Civil
  hour : Nat
  minute : Nat
  second : Nat
  nano : Nat
  deriving DecidableEq

namespace ClockParts

/-- The instant with these numbers, if the calendar has it. -/
def instant? (p : ClockParts) : Option DateTime :=
  DateTime.ofClock? p.date p.hour p.minute p.second p.nano

/-- The same numbers without a fraction of the second. -/
def cut (p : ClockParts) : ClockParts := { p with nano := 0 }

/-- The date exists in a year of the calendar, and so does the time in a day, of which any minute
may have one second more. -/
structure IsInCalendar (p : ClockParts) : Prop where
  date : p.date.isValid = true
  year : -262143 ≤ p.date.year ∧ p.date.year ≤ 262142
  hour : p.hour < 24
  minute : p.minute < 60
  second : p.second ≤ 60
  nano : p.nano < 1000000000

end ClockParts

namespace DateTime

/-- The numbers of an instant. -/
def parts (t : DateTime) : ClockParts := ⟨t.date, t.hour, t.minute, t.secondOfMinute, t.fraction⟩

/-- What a text stands for has the numbers that are written, without a fraction. -/
theorem parts_written (t : DateTime) : t.written.parts = t.parts.cut := by
  obtain ⟨hhour, hminute, hsecond⟩ := t.clock_written
  unfold parts
  rw [t.date_written, hhour, hminute, hsecond, t.fraction_written]
  rfl

/-- An instant whose leap second ends a minute is made of its own numbers and of no others. -/
theorem instant?_eq_some_iff {p : ClockParts} {t : DateTime} :
    p.instant? = some t ↔ t.EndsMinute ∧ t.parts = p := by
  constructor
  · intro h
    obtain ⟨date, hour, minute, second, nano⟩ := p
    unfold ClockParts.instant? ofClock? at h
    dsimp only at h
    split at h
    · next hvalid =>
      obtain ⟨hdate, hhour, hminute, hsecond, hnano⟩ := hvalid
      have hcounted (hday : t.day = date.dayNumber) : t.date = date := by
        unfold DateTime.date
        rw [hday, Civil.ofDayNumber_dayNumber hdate]
      unfold EndsMinute parts DateTime.hour DateTime.minute secondOfMinute fraction inLeapSecond
      rw [ClockParts.mk.injEq]
      split at h
      · obtain ⟨hday, hseconds, hnanos⟩ := ofParts?_eq_some h
        rw [hseconds, hnanos, if_pos (by simp)]
        exact ⟨fun _ => by omega, hcounted hday, by omega⟩
      · obtain ⟨hday, hseconds, hnanos⟩ := ofParts?_eq_some h
        have hplain : ¬ decide (1000000000 ≤ nano) = true := by simpa using hnano
        rw [hseconds, hnanos, if_neg hplain]
        exact ⟨fun hin => absurd hin hplain, hcounted hday, by omega⟩
    · cases h
  · rintro ⟨hends, rfl⟩
    exact ofClock?_self hends

/-- Some instant has the numbers just when they are those of a date and a time of the calendar, and
then one whose leap second ends a minute has them. -/
theorem exists_parts_eq_iff {p : ClockParts} :
    (∃ t : DateTime, t.EndsMinute ∧ t.parts = p) ↔ p.IsInCalendar := by
  constructor
  · rintro ⟨t, -, rfl⟩
    have hvalid : t.date.isValid = true := Civil.isValid_ofDayNumber t.day
    have hday : t.date.dayNumber = t.day := Civil.dayNumber_ofDayNumber t.day
    have hseconds := t.second_lt
    refine ⟨hvalid, (Civil.dayNumber_mem_calendar_iff hvalid).1 ?_, ?_, ?_, ?_, ?_⟩
    · rw [hday]
      exact ⟨t.firstDay_le, t.le_lastDay⟩
    · change t.second / 3600 < 24
      omega
    · exact Nat.mod_lt _ (by decide)
    · change t.second % 60 + (if t.inLeapSecond then 1 else 0) ≤ 60
      split <;> omega
    · exact Nat.mod_lt _ (by decide)
  · rintro ⟨hvalid, hyear, hhour, hminute, hsecond, hnano⟩
    have hday := (Civil.dayNumber_mem_calendar_iff hvalid).2 hyear
    suffices ∃ t, p.instant? = some t from this.imp fun _ => instant?_eq_some_iff.1
    unfold ClockParts.instant? ofClock? ofParts?
    rw [if_pos ⟨hvalid, hhour, hminute, hsecond, hnano⟩]
    split
    · exact ⟨_, dif_pos ⟨hday.1, hday.2, by omega⟩⟩
    · exact ⟨_, dif_pos ⟨hday.1, hday.2, by omega⟩⟩

end DateTime

end Bom
