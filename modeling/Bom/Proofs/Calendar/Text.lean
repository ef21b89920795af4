import Bom.Calendar.Format
import Bom.Proofs.Calendar
import Bom.Proofs.Text

/-!
# Instants and their texts

Tables compare the texts of instants. Texts with a year of four digits are ordered like the instants
that they stand for (`DateTime.columnText_lt_iff_written`): the calendar counts years, months and
days upwards as days pass (`Civil.ofDayNumber_lt_iff`), and every number in such a text has its
fixed width. So the text of a table compares part by part even with a text that has another mark in
the middle or goes on behind the seconds (`DateTime.columnText_lt_spelling`).

A text stands for its instant but for the fraction of the second, unless the instant lies in a leap
second that ends no minute (`DateTime.EndsMinute`). Such a leap second is written as the second
after it, and its text stands for that second (`DateTime.written`).

Years are taken to begin in March. The years of an era are found by a division that is exact on the
first days of all years (`Civil.bounds_yearOfEra`), so a day lies in the year that it is given.
-/

namespace Bom

namespace Civil

/-! ## Days and their dates -/

/-- The year of an era in which a day of the era lies. -/
def yearOfEra (dayOfEra : Int) : Int :=
  (dayOfEra - dayOfEra / 1460 + dayOfEra / 36524 - dayOfEra / 146096) / 365

/-- The days before a year that begins in March, counted from the year 0. -/
def daysBeforeYear (year : Int) : Int := 365 * year + year / 4 - year / 100 + year / 400

/-- A day of an era lies in its year. -/
theorem bounds_yearOfEra {d : Int} (h0 : 0 ≤ d) (h1 : d < 146097) :
    0 ≤ yearOfEra d ∧ yearOfEra d < 400 ∧
      daysBeforeYear (yearOfEra d) ≤ d ∧ d < daysBeforeYear (yearOfEra d + 1) := by
  unfold daysBeforeYear yearOfEra
  generalize hy : (d - d / 1460 + d / 36524 - d / 146096) / 365 = y
  have hyear : 0 ≤ y ∧ y < 400 := by omega
  -- the years of four that have passed are those of `y`, but for the days that are skipped
  have hfours : y / 4 ≤ d / 1460 ∧ d / 1460 ≤ (y + 1) / 4 := by omega
  have hcentury : d / 36524 = 0 ∨ d / 36524 = 1 ∨ d / 36524 = 2 ∨ d / 36524 = 3 ∨
      d / 36524 = 4 := by
    omega
  have hhundreds : y / 100 = min (d / 36524) 3 := by
    rcases hcentury with hc | hc | hc | hc | hc <;> omega
  refine ⟨hyear.1, hyear.2, ?_, ?_⟩
  · rcases hcentury with hc | hc | hc | hc | hc <;> omega
  · have hnext : (y + 1) / 100 = y / 100 ∨ y + 1 = 100 * (y / 100 + 1) := by omega
    rcases hcentury with hc | hc | hc | hc | hc <;> rcases hnext with hn | hn <;> omega

/-- The year in which a day lies, taken to begin in March. -/
def marchYear (n : Int) : Int :=
  yearOfEra ((n + 719468) % 146097) + (n + 719468) / 146097 * 400

/-- The day of that year, the first of March being 0. -/
def marchDay (n : Int) : Int := n + 719468 - daysBeforeYear (marchYear n)

/-- The month of that year, March being 0. -/
def marchMonth (n : Int) : Int := (5 * marchDay n + 2) / 153

/-- Every four hundred years have as many days. -/
theorem daysBeforeYear_add_eras (year eras : Int) :
    daysBeforeYear (year + eras * 400) = daysBeforeYear year + eras * 146097 := by
  unfold daysBeforeYear
  rw [show eras * 400 = eras * 100 * 4 by omega, Int.add_mul_ediv_right _ _ (by decide),
    show eras * 100 * 4 = eras * 4 * 100 by omega, Int.add_mul_ediv_right _ _ (by decide),
    show eras * 4 * 100 = eras * 400 by omega, Int.add_mul_ediv_right _ _ (by decide)]
  omega

theorem bounds_marchYear (n : Int) :
    daysBeforeYear (marchYear n) ≤ n + 719468 ∧
      n + 719468 < daysBeforeYear (marchYear n + 1) := by
  obtain ⟨-, -, hlow, hhigh⟩ := bounds_yearOfEra
    (Int.emod_nonneg (n + 719468) (by decide)) (Int.emod_lt_of_pos (n + 719468) (by decide))
  have hnext : marchYear n + 1 =
      yearOfEra ((n + 719468) % 146097) + 1 + (n + 719468) / 146097 * 400 := by
    unfold marchYear
    omega
  rw [hnext, daysBeforeYear_add_eras]
  unfold marchYear
  rw [daysBeforeYear_add_eras]
  omega

theorem daysBeforeYear_mono {y z : Int} (h : y ≤ z) : daysBeforeYear y ≤ daysBeforeYear z := by
  unfold daysBeforeYear
  omega

theorem bounds_marchDay (n : Int) : 0 ≤ marchDay n ∧ marchDay n ≤ 365 := by
  have := bounds_marchYear n
  unfold marchDay
  unfold daysBeforeYear at this ⊢
  omega

theorem marchYear_mono {m n : Int} (h : m ≤ n) : marchYear m ≤ marchYear n := by
  by_contra hlt
  have hmono := daysBeforeYear_mono (show marchYear n + 1 ≤ marchYear m by omega)
  have hm := bounds_marchYear m
  have hn := bounds_marchYear n
  omega

/-- The date of a day, by the year that begins in March. -/
theorem ofDayNumber_eq (n : Int) :
    ofDayNumber n =
      let month := if marchMonth n < 10 then marchMonth n + 3 else marchMonth n - 9
      ⟨if month ≤ 2 then marchYear n + 1 else marchYear n, month.toNat,
        (marchDay n - daysBeforeMonth (marchMonth n) + 1).toNat⟩ := by
  have hday : (n + 719468) % 146097 - (365 * yearOfEra ((n + 719468) % 146097) +
      yearOfEra ((n + 719468) % 146097) / 4 - yearOfEra ((n + 719468) % 146097) / 100) =
      marchDay n := by
    obtain ⟨hpos, hlt, -, -⟩ := bounds_yearOfEra
      (Int.emod_nonneg (n + 719468) (by decide)) (Int.emod_lt_of_pos (n + 719468) (by decide))
    unfold marchDay marchYear daysBeforeYear
    omega
  unfold ofDayNumber
  change (let dayOfYear := (n + 719468) % 146097 - (365 * yearOfEra ((n + 719468) % 146097) +
      yearOfEra ((n + 719468) % 146097) / 4 - yearOfEra ((n + 719468) % 146097) / 100)
    let shifted := (5 * dayOfYear + 2) / 153
    let day := dayOfYear - daysBeforeMonth shifted + 1
    let month := if shifted < 10 then shifted + 3 else shifted - 9
    (⟨if month ≤ 2 then marchYear n + 1 else marchYear n, month.toNat, day.toNat⟩ : Civil)) = _
  rw [hday]
  rfl

/-- The months that have passed, counted from the March of the year 0, and the day of the month. -/
theorem months_ofDayNumber (n : Int) :
    12 * (ofDayNumber n).year + (ofDayNumber n).month = 12 * marchYear n + marchMonth n + 3 ∧
      ((ofDayNumber n).day : Int) = marchDay n - daysBeforeMonth (marchMonth n) + 1 := by
  have hbounds := bounds_marchDay n
  have hmonth : marchMonth n = (5 * marchDay n + 2) / 153 := rfl
  rw [ofDayNumber_eq]
  unfold daysBeforeMonth
  dsimp only
  split <;> split <;> omega

theorem bounds_ofDayNumber (n : Int) :
    1 ≤ (ofDayNumber n).month ∧ (ofDayNumber n).month ≤ 12 ∧
      1 ≤ (ofDayNumber n).day ∧ (ofDayNumber n).day ≤ 31 := by
  have hbounds := bounds_marchDay n
  have hmonth : marchMonth n = (5 * marchDay n + 2) / 153 := rfl
  rw [ofDayNumber_eq]
  unfold daysBeforeMonth
  dsimp only
  split <;> omega

/-- A later day has a later month, or the same month and a later day of it. -/
theorem months_lt_of_lt {m n : Int} (h : m < n) :
    12 * marchYear m + marchMonth m < 12 * marchYear n + marchMonth n ∨
      12 * marchYear m + marchMonth m = 12 * marchYear n + marchMonth n ∧
        (ofDayNumber m).day < (ofDayNumber n).day := by
  obtain ⟨-, hdaym⟩ := months_ofDayNumber m
  obtain ⟨-, hdayn⟩ := months_ofDayNumber n
  have hboundsm := bounds_marchDay m
  have hboundsn := bounds_marchDay n
  have hmonth (k : Int) : marchMonth k = (5 * marchDay k + 2) / 153 := rfl
  have hmonthm := hmonth m
  have hmonthn := hmonth n
  rcases Int.lt_or_eq_of_le (marchYear_mono (Int.le_of_lt h)) with hyear | hyear
  · omega
  · have hlater : marchDay m < marchDay n := by
      unfold marchDay
      rw [hyear]
      omega
    by_cases hsame : marchMonth m = marchMonth n
    · rw [hsame] at hdaym
      omega
    · omega

/-- Years, months and days are counted upwards as days pass. -/
theorem ofDayNumber_lt_iff {m n : Int} :
    m < n ↔ (ofDayNumber m).year < (ofDayNumber n).year ∨
      (ofDayNumber m).year = (ofDayNumber n).year ∧
        ((ofDayNumber m).month < (ofDayNumber n).month ∨
          (ofDayNumber m).month = (ofDayNumber n).month ∧
            (ofDayNumber m).day < (ofDayNumber n).day) := by
  obtain ⟨hmonthsm, -⟩ := months_ofDayNumber m
  obtain ⟨hmonthsn, -⟩ := months_ofDayNumber n
  obtain ⟨hlowm, hhighm, -⟩ := bounds_ofDayNumber m
  obtain ⟨hlown, hhighn, -⟩ := bounds_ofDayNumber n
  rcases Int.lt_trichotomy m n with h | rfl | h
  · have := months_lt_of_lt h
    omega
  · omega
  · have := months_lt_of_lt h
    omega

end Civil

namespace DateTime

/-! ## Instants as texts of tables -/

/-- If the instant lies in a leap second, this one ends a minute, so it is written as second 60 and
as no second that follows. -/
def EndsMinute (t : DateTime) : Prop := t.inLeapSecond = true → t.second % 60 = 59

instance (t : DateTime) : Decidable t.EndsMinute :=
  inferInstanceAs (Decidable (t.inLeapSecond = true → t.second % 60 = 59))

/-- No leap second that ends no minute is the last of its day. -/
theorem second_succ_lt {t : DateTime} (h : ¬ t.EndsMinute) : t.second + 1 < 86400 := by
  have hlt := t.second_lt
  unfold EndsMinute at h
  omega

/-- The instant that a text of a table stands for: the fraction of the second is cut off, and what
lies in a leap second that ends no minute is taken for the second after it. -/
def written (t : DateTime) : DateTime :=
  if h : t.EndsMinute then t.truncate
  else { t with
    second := t.second + 1
    nano := 0
    second_lt := second_succ_lt h
    nano_lt := Nat.zero_lt_of_lt t.nano_lt }

/-- The text of an instant in a table loses nothing, and its year has four digits. -/
def FitsColumn (t : DateTime) : Prop :=
  t.written = t ∧ 0 ≤ t.date.year ∧ t.date.year ≤ 9999

instance (t : DateTime) : Decidable t.FitsColumn := inferInstanceAs (Decidable (_ ∧ _))

/-- The year of an instant is written with four digits. -/
def HasFourDigitYear (t : DateTime) : Prop := 0 ≤ t.date.year ∧ t.date.year ≤ 9999

instance (t : DateTime) : Decidable t.HasFourDigitYear := inferInstanceAs (Decidable (_ ∧ _))

theorem nano_truncate (t : DateTime) :
    t.truncate.nano = if t.inLeapSecond then 1000000000 else 0 := rfl

theorem inLeapSecond_truncate (t : DateTime) : t.truncate.inLeapSecond = t.inLeapSecond := by
  have hin : t.truncate.inLeapSecond = decide (1000000000 ≤ t.truncate.nano) := rfl
  rw [hin, nano_truncate]
  cases t.inLeapSecond <;> rfl

theorem secondOfMinute_truncate (t : DateTime) : t.truncate.secondOfMinute = t.secondOfMinute := by
  unfold secondOfMinute
  rw [t.inLeapSecond_truncate]
  rfl

theorem fraction_truncate (t : DateTime) : t.truncate.fraction = 0 := by
  unfold fraction
  rw [t.nano_truncate]
  split <;> rfl

/-- Nothing is cut off from an instant without a fraction. -/
theorem truncate_eq_self_iff {t : DateTime} : t.truncate = t ↔ t.fraction = 0 := by
  constructor
  · intro h
    rw [← h]
    exact t.fraction_truncate
  · intro h
    have hnano : t.truncate.nano = t.nano := by
      have hlt := t.nano_lt
      unfold fraction at h
      rw [t.nano_truncate]
      unfold inLeapSecond
      simp only [decide_eq_true_eq]
      split <;> omega
    exact instant_inj.1 (congrArg
      (fun n : Nat => (t.day * 86400 + t.second) * 2000000000 + (n : Int)) hnano)

/-- What is outside a leap second ends no minute with one. -/
theorem endsMinute_of_plain {t : DateTime} (h : t.inLeapSecond = false) : t.EndsMinute :=
  fun hin => absurd (h.symm.trans hin) Bool.false_ne_true

theorem endsMinute_truncate_iff {t : DateTime} : t.truncate.EndsMinute ↔ t.EndsMinute := by
  unfold EndsMinute
  rw [t.inLeapSecond_truncate]
  rfl

theorem written_of_endsMinute {t : DateTime} (h : t.EndsMinute) : t.written = t.truncate :=
  dif_pos h

/-- The parts of an instant as it is written where its leap second ends no minute. -/
theorem parts_written_of_not {t : DateTime} (h : ¬ t.EndsMinute) :
    t.written.day = t.day ∧ t.written.second = t.second + 1 ∧ t.written.nano = 0 := by
  unfold written
  rw [dif_neg h]
  exact ⟨rfl, rfl, rfl⟩

@[simp] theorem day_written (t : DateTime) : t.written.day = t.day := by
  by_cases h : t.EndsMinute
  · rw [written_of_endsMinute h]
    rfl
  · exact (parts_written_of_not h).1

@[simp] theorem date_written (t : DateTime) : t.written.date = t.date :=
  congrArg Civil.ofDayNumber t.day_written

theorem inLeapSecond_written_of_not {t : DateTime} (h : ¬ t.EndsMinute) :
    t.written.inLeapSecond = false := by
  unfold inLeapSecond
  rw [(parts_written_of_not h).2.2]
  rfl

/-- A leap second that ends no minute is in its minute what the second after it is. -/
theorem clock_written (t : DateTime) : t.written.hour = t.hour ∧ t.written.minute = t.minute ∧
    t.written.secondOfMinute = t.secondOfMinute := by
  by_cases h : t.EndsMinute
  · rw [written_of_endsMinute h, t.secondOfMinute_truncate]
    exact ⟨rfl, rfl, rfl⟩
  · have hplain := inLeapSecond_written_of_not h
    obtain ⟨-, hsecond, -⟩ := parts_written_of_not h
    unfold EndsMinute at h
    have hin : t.inLeapSecond = true := by
      by_contra hout
      exact h fun hin => absurd hin hout
    unfold hour minute secondOfMinute
    rw [hplain, hin, hsecond, if_pos rfl, if_neg Bool.false_ne_true]
    omega

theorem fraction_written (t : DateTime) : t.written.fraction = 0 := by
  by_cases h : t.EndsMinute
  · rw [written_of_endsMinute h, t.fraction_truncate]
  · unfold fraction
    rw [(parts_written_of_not h).2.2]

theorem endsMinute_written (t : DateTime) : t.written.EndsMinute := by
  by_cases h : t.EndsMinute
  · rw [written_of_endsMinute h]
    exact endsMinute_truncate_iff.2 h
  · exact endsMinute_of_plain (inLeapSecond_written_of_not h)

/-- An instant is what its text stands for just when it has no fraction and ends a minute if it lies
in a leap second. -/
theorem written_eq_self_iff {t : DateTime} :
    t.written = t ↔ t.fraction = 0 ∧ t.EndsMinute := by
  constructor
  · intro h
    rw [← h]
    exact ⟨t.fraction_written, t.endsMinute_written⟩
  · rintro ⟨hfraction, hends⟩
    rw [written_of_endsMinute hends, truncate_eq_self_iff.2 hfraction]

/-- What a text stands for is written with the same text. -/
theorem written_written (t : DateTime) : t.written.written = t.written :=
  written_eq_self_iff.2 ⟨t.fraction_written, t.endsMinute_written⟩

/-- Only the fraction is lost just when a leap second ends its minute. -/
theorem written_eq_truncate_iff {t : DateTime} : t.written = t.truncate ↔ t.EndsMinute := by
  refine ⟨fun h => ?_, written_of_endsMinute⟩
  have hends := t.endsMinute_written
  rw [h] at hends
  exact endsMinute_truncate_iff.1 hends

@[simp] theorem hasFourDigitYear_written {t : DateTime} :
    t.written.HasFourDigitYear ↔ t.HasFourDigitYear := by
  unfold HasFourDigitYear
  rw [t.date_written]

/-- An instant with a year of four digits fits a column once it is what its text stands for. -/
theorem HasFourDigitYear.fitsColumn {t : DateTime} (h : t.HasFourDigitYear) :
    t.written.FitsColumn :=
  ⟨t.written_written, hasFourDigitYear_written.2 h⟩

/-- Where an instant lies as it is written: on its second, on its leap second, or on the second
after it. -/
theorem instant_written (t : DateTime) : t.written.instant =
    (t.day * 86400 + t.second) * 2000000000 +
      if t.nano < 1000000000 then 0 else if t.second % 60 = 59 then 1000000000 else 2000000000 := by
  unfold instant
  by_cases h : t.EndsMinute
  · rw [written_of_endsMinute h, nano_truncate]
    change (t.day * 86400 + (t.second : Int)) * 2000000000 + _ = _
    unfold EndsMinute at h
    unfold inLeapSecond at h ⊢
    simp only [decide_eq_true_eq] at h ⊢
    split <;> split <;> omega
  · obtain ⟨hday, hsecond, hnano⟩ := parts_written_of_not h
    unfold EndsMinute inLeapSecond at h
    simp only [decide_eq_true_eq] at h
    rw [hday, hsecond, hnano, if_neg (by omega), if_neg (by omega)]
    omega

/-- Writing turns the order of no two instants around. -/
theorem written_le_written {t u : DateTime} (h : t ≤ u) : t.written ≤ u.written := by
  have hnanot := t.nano_lt
  have hnanou := u.nano_lt
  change t.instant ≤ u.instant at h
  change t.written.instant ≤ u.written.instant
  rw [instant_written, instant_written]
  unfold instant at h
  split <;> split <;> omega

/-- The text of an instant is that of what it stands for. -/
theorem columnText_written (t : DateTime) : t.written.columnText = t.columnText := by
  obtain ⟨hhour, hminute, hsecond⟩ := t.clock_written
  unfold columnText clockText dateText
  rw [t.date_written, hhour, hminute, hsecond]

/-- A text that spells an instant in full, with a mark between date and time of day and with
something after the seconds. -/
def spelling (t : DateTime) (mark : Char) (rest : List Char) : List Char :=
  t.dateText ++ mark :: (t.clockText ++ rest)

/-- The text that a table holds has a blank in the middle and nothing after the seconds. -/
theorem toList_columnText (t : DateTime) : t.columnText.toList = t.spelling ' ' [] := by
  unfold columnText spelling
  rw [String.toList_ofList, List.append_nil]

/-- The parts of an instant in the order in which they are written. -/
theorem spelling_eq (t : DateTime) (mark : Char) (rest : List Char) :
    t.spelling mark rest = yearText t.date.year ++ '-' :: (Text.padded 2 t.date.month ++
      '-' :: (Text.padded 2 t.date.day ++ mark :: (Text.padded 2 t.hour ++
        ':' :: (Text.padded 2 t.minute ++ ':' :: (Text.padded 2 t.secondOfMinute ++ rest))))) := by
  unfold spelling dateText clockText
  simp only [List.append_assoc, List.cons_append]

/-- A year of four digits has its width too. -/
theorem HasFourDigitYear.yearText_eq {t : DateTime} (h : t.HasFourDigitYear) :
    yearText t.date.year = Text.padded 4 t.date.year.toNat := if_pos h

theorem date_bounds (t : DateTime) : t.date.month < 100 ∧ t.date.day < 100 := by
  obtain ⟨-, hmonth, -, hday⟩ := Civil.bounds_ofDayNumber t.day
  change (Civil.ofDayNumber t.day).month < 100 ∧ (Civil.ofDayNumber t.day).day < 100
  omega

theorem clock_bounds (t : DateTime) : t.hour < 100 ∧ t.minute < 100 ∧ t.secondOfMinute < 100 := by
  have := t.second_lt
  unfold hour minute secondOfMinute
  split <;> omega

/-- The date is the later one just when the day is. -/
theorem day_lt_iff_date (t u : DateTime) :
    t.day < u.day ↔ t.date.year < u.date.year ∨ t.date.year = u.date.year ∧
      (t.date.month < u.date.month ∨ t.date.month = u.date.month ∧ t.date.day < u.date.day) :=
  Civil.ofDayNumber_lt_iff

/-- Without a fraction, only a leap second has billionths. -/
theorem nano_of_written {t : DateTime} (h : t.written = t) :
    t.nano = 0 ∨ t.nano = 1000000000 ∧ t.second % 60 = 59 := by
  obtain ⟨hfraction, hends⟩ := written_eq_self_iff.1 h
  have hlt := t.nano_lt
  unfold fraction at hfraction
  unfold EndsMinute inLeapSecond at hends
  simp only [decide_eq_true_eq] at hends
  omega

/-- An instant as it is written is before another one that has the later date, or the same date and
the later time of day, or the same time of day and a fraction. Leap seconds are to end their
minutes. -/
theorem lt_iff_parts {t u : DateTime} (ht : t.written = t) (hu : u.EndsMinute) :
    t < u ↔ t.day < u.day ∨ t.day = u.day ∧ (t.hour < u.hour ∨ t.hour = u.hour ∧
      (t.minute < u.minute ∨ t.minute = u.minute ∧ (t.secondOfMinute < u.secondOfMinute ∨
        t.secondOfMinute = u.secondOfMinute ∧ u.fraction ≠ 0))) := by
  have hnanot := nano_of_written ht
  have hsecondt := t.second_lt
  have hsecondu := u.second_lt
  have hnanou := u.nano_lt
  unfold EndsMinute at hu
  change t.instant < u.instant ↔ _
  unfold instant hour minute secondOfMinute fraction inLeapSecond
  unfold inLeapSecond at hu
  rw [decide_eq_true_iff] at hu
  rcases hnanot with hnanot | ⟨hnanot, hleapt⟩ <;>
    by_cases hinu : 1000000000 ≤ u.nano <;>
    simp only [hnanot, hinu, Nat.reduceLeDiff, decide_false, decide_true, if_true,
      Bool.false_eq_true, if_false, Nat.le_refl] <;>
    omega

/-- As they are written, the parts that are written tell instants apart. -/
theorem eq_iff_parts {t u : DateTime} (ht : t.written = t) (hu : u.written = u) :
    t = u ↔ t.day = u.day ∧ t.hour = u.hour ∧ t.minute = u.minute ∧
      t.secondOfMinute = u.secondOfMinute := by
  constructor
  · rintro rfl
    exact ⟨rfl, rfl, rfl, rfl⟩
  · rintro ⟨hday, hhour, hminute, hsecond⟩
    obtain ⟨hnonet, hendst⟩ := written_eq_self_iff.1 ht
    obtain ⟨hnoneu, hendsu⟩ := written_eq_self_iff.1 hu
    have hnotBefore : ¬ t < u := by
      rw [lt_iff_parts ht hendsu]
      omega
    have hnotAfter : ¬ u < t := by
      rw [lt_iff_parts hu hendst]
      omega
    exact instant_inj.1 (Int.le_antisymm (Int.not_lt.1 hnotAfter) (Int.not_lt.1 hnotBefore))

/-- The text of a table comes before a text that spells an instant with a later date, or with the
same date and a greater mark, or with the same mark and a later time of day, or with the same time
of day and anything after it. -/
theorem columnText_lt_spelling {t u : DateTime} (ht : t.HasFourDigitYear) (hu : u.HasFourDigitYear)
    (mark : Char) (rest : List Char) :
    t.columnText.toList < u.spelling mark rest ↔ t.day < u.day ∨ t.day = u.day ∧
      (' ' < mark ∨ ' ' = mark ∧ (t.hour < u.hour ∨ t.hour = u.hour ∧
        (t.minute < u.minute ∨ t.minute = u.minute ∧ (t.secondOfMinute < u.secondOfMinute ∨
          t.secondOfMinute = u.secondOfMinute ∧ rest ≠ [])))) := by
  obtain ⟨hmontht, hdayt⟩ := t.date_bounds
  obtain ⟨hmonthu, hdayu⟩ := u.date_bounds
  obtain ⟨hhourt, hminutet, hsecondt⟩ := t.clock_bounds
  obtain ⟨hhouru, hminuteu, hsecondu⟩ := u.clock_bounds
  have hbefore := day_lt_iff_date t u
  have hafter := day_lt_iff_date u t
  have hsame : t.day = u.day → t.date = u.date := congrArg Civil.ofDayNumber
  have hrest : [] < rest ↔ rest ≠ [] := by
    cases rest with
    | nil => simp
    | cons c rest => simp
  rw [toList_columnText, spelling_eq, spelling_eq, ht.yearText_eq, hu.yearText_eq]
  obtain ⟨hlowt, hhight⟩ := ht
  obtain ⟨hlowu, hhighu⟩ := hu
  rw [Text.padded_append_lt_iff (by omega) (by omega), List.cons_lt_cons_iff,
    Text.padded_append_lt_iff hmontht hmonthu, List.cons_lt_cons_iff,
    Text.padded_append_lt_iff hdayt hdayu, List.cons_lt_cons_iff,
    Text.padded_append_lt_iff hhourt hhouru, List.cons_lt_cons_iff,
    Text.padded_append_lt_iff hminutet hminuteu, List.cons_lt_cons_iff,
    Text.padded_append_lt_iff hsecondt hsecondu, hrest]
  simp only [Char.lt_irrefl, false_or, true_and]
  have hyear : t.date.year.toNat < u.date.year.toNat ↔ t.date.year < u.date.year := by omega
  have hyears : t.date.year.toNat = u.date.year.toNat ↔ t.date.year = u.date.year := by omega
  rw [hyear, hyears]
  rcases Int.lt_trichotomy t.day u.day with hday | hday | hday
  · grind
  · simp only [hsame hday, hday, Int.lt_irrefl, Nat.lt_irrefl, false_or, true_and]
  · grind

/-- Texts of tables are ordered like the instants. -/
theorem columnText_lt_iff {t u : DateTime} (ht : t.FitsColumn) (hu : u.FitsColumn) :
    t.columnText < u.columnText ↔ t < u := by
  obtain ⟨hfraction, hends⟩ := written_eq_self_iff.1 hu.1
  rw [String.lt_iff, u.toList_columnText, columnText_lt_spelling ht.2 hu.2, lt_iff_parts ht.1 hends,
    hfraction]
  simp only [Char.lt_irrefl, false_or, true_and, ne_eq, not_true_eq_false]

theorem columnText_le_iff {t u : DateTime} (ht : t.FitsColumn) (hu : u.FitsColumn) :
    t.columnText ≤ u.columnText ↔ t ≤ u := by
  change ¬ u.columnText < t.columnText ↔ t ≤ u
  rw [columnText_lt_iff hu ht]
  exact Int.not_lt

/-- Texts of tables are ordered like the instants that they stand for. -/
theorem columnText_lt_iff_written {t u : DateTime} (ht : t.HasFourDigitYear)
    (hu : u.HasFourDigitYear) : t.columnText < u.columnText ↔ t.written < u.written := by
  rw [← columnText_lt_iff ht.fitsColumn hu.fitsColumn, columnText_written, columnText_written]

theorem columnText_le_iff_written {t u : DateTime} (ht : t.HasFourDigitYear)
    (hu : u.HasFourDigitYear) : t.columnText ≤ u.columnText ↔ t.written ≤ u.written := by
  rw [← columnText_le_iff ht.fitsColumn hu.fitsColumn, columnText_written, columnText_written]

theorem fitsColumn_epoch : epoch.FitsColumn := by decide +kernel

/-- A third of a second into a leap second after 23:56:04, which ends no minute. -/
def oddLeapSecond : DateTime := { day := 16686, second := 86164, nano := 1333000000 }

/-- The second after this leap second, which is written like it. -/
def afterOddLeap : DateTime :=
  { epoch with
    day := 16686
    second := 86165
    firstDay_le := by decide
    le_lastDay := by decide
    second_lt := by decide }

/-- What is not before the year 1970 is not before the epoch. -/
theorem epoch_le {t : DateTime} (h : 1970 ≤ t.date.year) : epoch ≤ t := by
  obtain ⟨hmonth, -, hday, -⟩ := Civil.bounds_ofDayNumber t.day
  have hdate := day_lt_iff_date t epoch
  rw [show epoch.date = ⟨1970, 1, 1⟩ by decide +kernel] at hdate
  have hpast : ¬ t.day < 0 := by
    change 1 ≤ t.date.month at hmonth
    change 1 ≤ t.date.day at hday
    change t.day < 0 ↔ t.date.year < 1970 ∨ t.date.year = 1970 ∧ (t.date.month < 1 ∨
      t.date.month = 1 ∧ t.date.day < 1) at hdate
    omega
  change (0 : Int) ≤ t.instant
  unfold instant
  omega

end DateTime

end Bom
