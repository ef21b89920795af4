import Mathlib.Data.List.Basic
import Mathlib.Data.List.TakeWhile
import Bom.Proofs.Calendar.Text

/-!
# Reading instants back

A table gives an instant back as what its text stands for (`readColumn?_columnText`). More generally
a text that spells an instant in full is read as this instant, with a blank or the letter T in the
middle and with any fraction (`IsSpelledBy.readColumn?_eq`). This holds of all instants outside the
leap seconds that end no minute: a year outside the range of four digits is written with a sign and
is read up to the mark that follows it, and a leap second that ends a minute is written as second
60. The date of a day is counted as that day again (`Civil.dayNumber_ofDayNumber`).
-/

namespace Bom

/-! ## Numbers in a text -/

namespace Text

/-- A number that fits its width is written with that many digits. -/
theorem length_padded {width n : Nat} (h : n < 10 ^ (width + 1)) :
    (padded (width + 1) n).length = width + 1 := by
  have hle := (Nat.length_toDigits_le_iff (by decide) (by omega)).2 h
  unfold padded
  rw [List.length_append, List.length_replicate]
  omega

/-- A run of digits within the limit is read where something else begins after it, or where it
reaches the limit. -/
theorem spanDigitsUpTo_append (rest : List Char) : ∀ {limit : Nat} {ds : List Char},
    (∀ c ∈ ds, c.isDigit = true) → ds.length ≤ limit →
    (ds.length = limit ∨ ∀ c ∈ rest.head?, c.isDigit = false) →
    spanDigitsUpTo limit (ds ++ rest) = (ds, rest)
  | 0, ds, _, hlength, _ => by
    obtain rfl := List.eq_nil_of_length_eq_zero (Nat.le_zero.1 hlength)
    unfold spanDigitsUpTo
    rfl
  | limit + 1, [], _, _, hrest => by
    cases rest with
    | nil => rfl
    | cons c rest =>
      have hc : c.isDigit = false := hrest.resolve_left (by simp) c rfl
      unfold spanDigitsUpTo
      simp [hc]
  | limit + 1, d :: ds, hds, hlength, hrest => by
    have hd : d.isDigit = true := hds d List.mem_cons_self
    have htail : spanDigitsUpTo limit (ds ++ rest) = (ds, rest) := spanDigitsUpTo_append rest
      (fun c hc => hds c (List.mem_cons_of_mem d hc)) (by simpa using hlength) (by simpa using hrest)
    unfold spanDigitsUpTo
    simp [hd, htail]

theorem exists_cons_of_padded (width n : Nat) : ∃ c cs, padded (width + 1) n = c :: cs := by
  refine List.exists_cons_of_ne_nil fun h => ?_
  have := le_length_padded (width + 1) n
  rw [h, List.length_nil] at this
  omega

/-- A number that fits its width is read back. -/
theorem numberUpTo_padded {width n : Nat} (h : n < 10 ^ (width + 1)) (rest : List Char) :
    numberUpTo (width + 1) (padded (width + 1) n ++ rest) = some (n, rest) := by
  have hlength := length_padded h
  have hspan := spanDigitsUpTo_append rest (fun c => isDigit_of_mem_padded)
    (Nat.le_of_eq hlength) (.inl hlength)
  obtain ⟨c, cs, hcons⟩ := exists_cons_of_padded width n
  unfold numberUpTo
  rw [hspan, hcons]
  change some (ofDigits (c :: cs), rest) = _
  rw [← hcons, ofDigits_padded]

/-- A number is read back up to the end of its digits. -/
theorem number_padded (width n : Nat) {rest : List Char}
    (hrest : ∀ c ∈ rest.head?, c.isDigit = false) :
    number (padded (width + 1) n ++ rest) = some (n, rest) := by
  have hspan : spanDigits (padded (width + 1) n ++ rest) = (padded (width + 1) n, rest) :=
    spanDigits_append_of_digits (fun c => isDigit_of_mem_padded) hrest
  obtain ⟨c, cs, hcons⟩ := exists_cons_of_padded width n
  unfold number
  rw [hspan, hcons]
  change some (ofDigits (c :: cs), rest) = _
  rw [← hcons, ofDigits_padded]

/-- There is nothing to skip in front of what is not blank. -/
theorem skipBlanks_eq_self {cs : List Char} (h : ∀ c ∈ cs.head?, isBlank c = false) :
    skipBlanks cs = cs := by
  unfold skipBlanks
  cases cs with
  | nil => rfl
  | cons c cs => rw [List.dropWhile_cons, h c rfl, if_neg Bool.false_ne_true]

/-- Nothing is cut off from a text with no blank at its ends. -/
theorem trimChars_of_ends {cs : List Char} (hfirst : ∀ c ∈ cs.head?, isBlank c = false)
    (hlast : ∀ c ∈ cs.getLast?, isBlank c = false) : trimChars cs = cs := by
  have hend : skipBlanks cs.reverse = cs.reverse :=
    skipBlanks_eq_self fun c hc => hlast c (by rwa [List.head?_reverse] at hc)
  change (skipBlanks (skipBlanks cs).reverse).reverse = cs
  rw [skipBlanks_eq_self hfirst, hend, List.reverse_reverse]

theorem head_padded {width n : Nat} {rest : List Char} {c : Char}
    (h : c ∈ (padded (width + 1) n ++ rest).head?) : c.isDigit = true := by
  obtain ⟨d, ds, hcons⟩ := exists_cons_of_padded width n
  have hfirst : d.isDigit = true :=
    isDigit_of_mem_padded (hcons ▸ List.mem_cons_self : d ∈ padded (width + 1) n)
  rw [hcons] at h
  cases h
  exact hfirst

end Text

open Text

/-- A year is read back up to the mark that follows it. -/
theorem readYear_yearText (year : Int) {rest : List Char}
    (hrest : ∀ c ∈ rest.head?, c.isDigit = false) :
    readYear (yearText year ++ rest) = some (year, rest) := by
  unfold yearText
  split
  · next h =>
    have hnumber := numberUpTo_padded (show year.toNat < 10 ^ (3 + 1) by omega) rest
    have hskip : skipBlanks (padded 4 year.toNat ++ rest) = padded 4 year.toNat ++ rest :=
      skipBlanks_eq_self fun c hc => isBlank_of_isDigit (head_padded hc)
    unfold readYear
    rw [hskip]
    split
    · next hcons => exact absurd (head_padded (by rw [hcons]; rfl)) (by decide)
    · next hcons => exact absurd (head_padded (by rw [hcons]; rfl)) (by decide)
    · rw [hnumber, Option.map_some]
      exact congrArg (fun y => some (y, rest)) (Int.toNat_of_nonneg h.1)
  · have hnumber := number_padded 3 year.natAbs hrest
    split
    · next hneg =>
      change (number (padded 4 year.natAbs ++ rest)).map _ = _
      rw [hnumber, Option.map_some]
      exact congrArg (fun y => some (y, rest)) (by omega)
    · next hnonneg =>
      change (number (padded 4 year.natAbs ++ rest)).map _ = _
      rw [hnumber, Option.map_some]
      exact congrArg (fun y => some (y, rest)) (by omega)

/-- A year begins with a digit or a sign. -/
theorem isBlank_of_head_yearText {year : Int} {rest : List Char} {c : Char}
    (h : c ∈ (yearText year ++ rest).head?) : isBlank c = false := by
  unfold yearText at h
  split at h
  · exact isBlank_of_isDigit (head_padded h)
  · cases h
    split <;> decide

/-- A run of digits that is read up to a limit stands in front of what is left. -/
theorem spanDigitsUpTo_spec : ∀ (limit : Nat) (cs : List Char),
    (spanDigitsUpTo limit cs).1 ++ (spanDigitsUpTo limit cs).2 = cs ∧
      ∀ c ∈ (spanDigitsUpTo limit cs).1, c.isDigit = true
  | 0, cs => by simp [spanDigitsUpTo]
  | limit + 1, [] => by simp [spanDigitsUpTo]
  | limit + 1, c :: cs => by
    obtain ⟨happend, hdigits⟩ := spanDigitsUpTo_spec limit cs
    unfold spanDigitsUpTo
    cases hc : c.isDigit with
    | false => simp
    | true => simpa [happend, hc] using hdigits

/-- A fraction that fills a text is a point and digits. -/
theorem digits_of_readNanos {ds : List Char} {n : Nat} (h : readNanos ('.' :: ds) = some (n, [])) :
    ds ≠ [] ∧ ∀ d ∈ ds, d.isDigit = true := by
  obtain ⟨happend, hdigits⟩ := spanDigitsUpTo_spec 9 ds
  rw [readNanos] at h
  split at h
  · cases h
  · next front left hne hspan =>
    rw [hspan] at happend hdigits
    have hleft : left.dropWhile Char.isDigit = [] := congrArg Prod.snd (Option.some.inj h)
    constructor
    · rintro rfl
      exact hne (List.append_eq_nil_iff.1 happend).1
    · rw [← happend]
      exact List.forall_mem_append.2 ⟨hdigits, List.dropWhile_eq_nil_iff.1 hleft⟩

/-- A fraction that fills a text ends with a digit. -/
theorem isDigit_of_getLast_readNanos {cs : List Char} {n : Nat}
    (h : readNanos cs = some (n, [])) {c : Char} (hc : c ∈ cs.getLast?) : c.isDigit = true := by
  by_cases hpoint : ∃ ds, cs = '.' :: ds
  · obtain ⟨ds, rfl⟩ := hpoint
    obtain ⟨hne, hdigits⟩ := digits_of_readNanos h
    have hlast : ('.' :: ds).getLast? = ds.getLast? := List.getLast?_append_of_ne_nil ['.'] hne
    rw [hlast] at hc
    exact hdigits c (List.mem_of_getLast? hc)
  · unfold readNanos at h
    split at h
    · exact absurd ⟨_, rfl⟩ hpoint
    · obtain rfl : cs = [] := congrArg Prod.snd (Option.some.inj h)
      cases hc

/-- A number of two digits is read back. -/
theorem readPair_padded {n : Nat} (h : n < 100) (rest : List Char) :
    readPair (padded 2 n ++ rest) = some (n, rest) := by
  unfold readPair
  rw [skipBlanks_eq_self fun c hc => isBlank_of_isDigit (head_padded hc)]
  exact numberUpTo_padded h rest

/-! ## Days and their dates -/

namespace Civil

/-- The date of a day is counted as that day. -/
theorem dayNumber_ofDayNumber (n : Int) : (ofDayNumber n).dayNumber = n := by
  have hday := bounds_marchDay n
  have hmonth : marchMonth n = (5 * marchDay n + 2) / 153 := rfl
  have hmarch : n + 719468 = daysBeforeYear (marchYear n) + marchDay n := by
    unfold marchDay
    omega
  rw [ofDayNumber_eq]
  unfold dayNumber daysBeforeMonth
  unfold daysBeforeYear at hmarch
  dsimp only
  split <;> split <;> omega

/-- A year that begins in March ends with a leap day only if the next year is a leap year. -/
theorem isLeapYear_of_marchDay {n : Int} (h : marchDay n = 365) :
    isLeapYear (marchYear n + 1) = true := by
  obtain ⟨-, hnext⟩ := bounds_marchYear n
  have hmarch : n + 719468 = daysBeforeYear (marchYear n) + 365 := by
    unfold marchDay at h
    omega
  generalize marchYear n = y at hnext hmarch
  unfold daysBeforeYear at hnext hmarch
  unfold isLeapYear
  simp only [Bool.and_eq_true, Bool.or_eq_true, beq_iff_eq, bne_iff_ne]
  omega

/-- The date of a day exists. -/
theorem isValid_ofDayNumber (n : Int) : (ofDayNumber n).isValid = true := by
  have hbounds := bounds_marchDay n
  have hmonth : marchMonth n = (5 * marchDay n + 2) / 153 := rfl
  have hmonths : marchMonth n = 0 ∨ marchMonth n = 1 ∨ marchMonth n = 2 ∨ marchMonth n = 3 ∨
      marchMonth n = 4 ∨ marchMonth n = 5 ∨ marchMonth n = 6 ∨ marchMonth n = 7 ∨
      marchMonth n = 8 ∨ marchMonth n = 9 ∨ marchMonth n = 10 ∨ marchMonth n = 11 := by
    omega
  rw [ofDayNumber_eq]
  unfold isValid
  simp only [Bool.and_eq_true, decide_eq_true_eq]
  rcases hmonths with hk | hk | hk | hk | hk | hk | hk | hk | hk | hk | hk | hk <;>
    rw [hk] at hmonth <;> simp only [hk]
  case inr.inr.inr.inr.inr.inr.inr.inr.inr.inr.inr =>
    -- February, the only month whose length depends on the year
    have hleap := isLeapYear_of_marchDay (n := n)
    change 1 ≤ (marchDay n - 337 + 1).toNat ∧ (marchDay n - 337 + 1).toNat ≤
      if isLeapYear (marchYear n + 1) = true then 29 else 28
    split
    · omega
    · next hcommon =>
      have : marchDay n ≠ 365 := fun h => hcommon (hleap h)
      omega
  all_goals
    simp +decide only [daysInMonth, daysBeforeMonth, if_true, if_false]
    omega

end Civil

/-! ## Instants and their texts -/

namespace DateTime

/-- The parts of an instant make up that instant. -/
theorem ofParts?_self (t : DateTime) : ofParts? t.day t.second t.nano = some t :=
  dif_pos ⟨t.firstDay_le, t.le_lastDay, t.second_lt, t.nano_lt⟩

/-- The date, the time of day and the fraction of an instant make up that instant, unless it lies in
a leap second that ends no minute. -/
theorem ofClock?_self {t : DateTime} (hends : t.EndsMinute) :
    ofClock? t.date t.hour t.minute t.secondOfMinute t.fraction = some t := by
  have hvalid : t.date.isValid = true := Civil.isValid_ofDayNumber t.day
  have hday : t.date.dayNumber = t.day := Civil.dayNumber_ofDayNumber t.day
  have hsecond := t.second_lt
  have hnano := t.nano_lt
  have hclock : t.hour < 24 ∧ t.minute < 60 ∧
      t.hour * 3600 + t.minute * 60 + t.second % 60 = t.second := by
    unfold hour minute
    omega
  obtain ⟨hhour, hminute, hsum⟩ := hclock
  have hfraction : t.fraction < 1000000000 := Nat.mod_lt _ (by decide)
  unfold ofClock?
  rw [hday]
  cases hin : t.inLeapSecond with
  | true =>
    have hleap : 1000000000 ≤ t.nano := of_decide_eq_true hin
    have hend : t.second % 60 = 59 := hends hin
    have hsixty : t.secondOfMinute = 60 := by
      unfold secondOfMinute
      rw [hin, hend]
      rfl
    have hwhole : 1000000000 + t.fraction = t.nano := by
      unfold fraction
      omega
    rw [hsixty, if_pos ⟨hvalid, hhour, hminute, by decide, hfraction⟩, if_pos rfl, hwhole,
      show t.hour * 3600 + t.minute * 60 + 59 = t.second by omega]
    exact t.ofParts?_self
  | false =>
    have hplain : ¬ 1000000000 ≤ t.nano := of_decide_eq_false hin
    have hsame : t.secondOfMinute = t.second % 60 := by
      unfold secondOfMinute
      rw [hin]
      rfl
    have hwhole : t.fraction = t.nano := Nat.mod_eq_of_lt (by omega)
    rw [hsame, if_pos ⟨hvalid, hhour, hminute, by omega, hfraction⟩, if_neg (by omega), hsum,
      hwhole]
    exact t.ofParts?_self

/-- The text spells the instant in full: its date, a blank or the letter T, its time of day and
perhaps a fraction, all of which is its own and no later second's. -/
structure IsSpelledBy (t : DateTime) (s : String) (mark : Char) (fraction : List Char) : Prop where
  endsMinute : t.EndsMinute
  toList_eq : s.toList = t.spelling mark fraction
  mark_eq : mark = ' ' ∨ mark = 'T'
  fraction_eq : readNanos fraction = some (t.fraction, [])

/-- The text that spells an instant has no blank at its ends. -/
theorem IsSpelledBy.trimChars_eq {t : DateTime} {s : String} {mark : Char} {fraction : List Char}
    (h : t.IsSpelledBy s mark fraction) : trimChars s.toList = t.spelling mark fraction := by
  rw [h.toList_eq]
  refine trimChars_of_ends (fun c hc => ?_) fun c hc => ?_
  · rw [t.spelling_eq] at hc
    exact isBlank_of_head_yearText hc
  · obtain ⟨d, ds, hcons⟩ := exists_cons_of_padded 1 t.secondOfMinute
    have hsplit : t.spelling mark fraction = t.dateText ++ mark :: (padded 2 t.hour ++
        ':' :: (padded 2 t.minute ++ [':'])) ++ (padded 2 t.secondOfMinute ++ fraction) := by
      unfold spelling clockText
      simp
    rw [hsplit, List.getLast?_append_of_ne_nil _ (by simp [hcons])] at hc
    refine isBlank_of_isDigit ?_
    by_cases hnone : fraction = []
    · rw [hnone, List.append_nil] at hc
      exact isDigit_of_mem_padded (List.mem_of_getLast? hc)
    · rw [List.getLast?_append_of_ne_nil _ hnone] at hc
      exact isDigit_of_getLast_readNanos h.fraction_eq hc

/-- The year of a date is read up to the mark that follows it. -/
theorem readYear_date (t : DateTime) (rest : List Char) :
    readYear (yearText t.date.year ++ '-' :: rest) = some (t.date.year, '-' :: rest) :=
  readYear_yearText t.date.year (by simp)

/-- Each part of a text that spells an instant is read up to the mark that follows it. -/
theorem readClock?_spelling {t : DateTime} (hends : t.EndsMinute) {l : ClockLayout}
    (hl : l.blanksBeforeMarks = false) {mark : Char}
    (hmiddle : ∀ rest, l.readMiddle (mark :: (padded 2 t.hour ++ rest)) =
      some (padded 2 t.hour ++ rest)) {fraction : List Char}
    (hfraction : readNanos fraction = some (t.fraction, [])) :
    readClock? l (t.spelling mark fraction) = some t := by
  obtain ⟨hmonth, hday⟩ := t.date_bounds
  obtain ⟨hhour, hminute, hsecond⟩ := t.clock_bounds
  have hmark (c : Char) (rest : List Char) : l.mark c (c :: rest) = some rest := by
    unfold ClockLayout.mark
    rw [hl]
    exact if_pos rfl
  rw [t.spelling_eq]
  unfold readClock?
  simp only [Option.bind_eq_bind, readYear_date, hmark, hmiddle, hfraction, readPair_padded, hmonth,
    hday, hhour, hminute, hsecond, hl, Option.bind_some, Bool.false_eq_true, if_false]
  exact ofClock?_self hends

/-- The letter T is no blank, and no digit either. -/
theorem readClock?_blank_of_letterT (t : DateTime) (fraction : List Char) :
    readClock? .blank (t.spelling 'T' fraction) = none := by
  obtain ⟨hmonth, hday⟩ := t.date_bounds
  have hmark (c : Char) (rest : List Char) : ClockLayout.blank.mark c (c :: rest) = some rest :=
    if_pos rfl
  have hmiddle (rest : List Char) :
      ClockLayout.blank.readMiddle ('T' :: rest) = some ('T' :: rest) := rfl
  have hpair (rest : List Char) : readPair ('T' :: rest) = none := rfl
  rw [t.spelling_eq]
  unfold readClock?
  simp only [Option.bind_eq_bind, readYear_date, hmark, hmiddle, hpair, readPair_padded, hmonth,
    hday, Option.bind_some, Option.bind_none]

/-- A text that spells an instant is read as this instant. -/
theorem IsSpelledBy.readColumn?_eq {t : DateTime} {s : String} {mark : Char} {fraction : List Char}
    (h : t.IsSpelledBy s mark fraction) : readColumn? s = some t := by
  unfold readColumn?
  dsimp only
  rw [h.trimChars_eq]
  rcases h.mark_eq with rfl | rfl
  · have hmiddle (rest : List Char) :
        ClockLayout.blank.readMiddle (' ' :: (padded 2 t.hour ++ rest)) =
          some (padded 2 t.hour ++ rest) :=
      congrArg some (skipBlanks_eq_self fun c hc => isBlank_of_isDigit (head_padded hc))
    rw [readClock?_spelling h.endsMinute rfl hmiddle h.fraction_eq]
    rfl
  · have hmiddle (rest : List Char) :
        ClockLayout.letterT.readMiddle ('T' :: (padded 2 t.hour ++ rest)) =
          some (padded 2 t.hour ++ rest) :=
      rfl
    rw [t.readClock?_blank_of_letterT, readClock?_spelling h.endsMinute rfl hmiddle h.fraction_eq]
    rfl

/-- A table gives an instant back as what its text stands for. -/
theorem readColumn?_columnText (t : DateTime) : readColumn? t.columnText = some t.written := by
  have hspelled : t.written.IsSpelledBy t.columnText ' ' [] := by
    refine ⟨t.endsMinute_written, ?_, .inl rfl, ?_⟩
    · rw [← t.columnText_written, toList_columnText]
    · rw [t.fraction_written]
      rfl
  exact hspelled.readColumn?_eq

end DateTime

end Bom
