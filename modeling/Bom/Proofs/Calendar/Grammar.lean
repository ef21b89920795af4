import Mathlib.Data.List.DropRight
import Bom.Proofs.Calendar.Parts

/-!
# Which texts are instants

A table's text is read generously: blanks may stand around it and before each number, numbers may be
short, a year may have a sign and then any number of digits, between date and time of day may stand
the letter T or nothing, and a fraction may have any number of digits. `IsWritten` says so without a
reader, and the reader takes a text for an instant just when it is written with the numbers of this
instant and the instant is in no leap second that ends no minute (`readColumn?_eq_some_iff`). Digits
are taken as long as there are any, which matters where nothing stands between the day and the hour.

A table's own text of an instant is written with its numbers but for the fraction. Nothing that was
read is in a leap second that ends no minute, so to read a text, to write what was read and to read
it again cuts off the fraction and changes nothing else (`DateTime.rewriting_cuts`). An instant that
was not read from a text may be in such a leap second, and is then not given back
(`DateTime.leap_second_read_as_next`).
-/

namespace Bom

open Text

namespace InstantGrammar

/-- Digits, of which there is at least one, and the number that they stand for. -/
structure IsNumeral (ds : List Char) (n : Nat) : Prop where
  ne_nil : ds ≠ []
  digits : ∀ d ∈ ds, d.isDigit = true
  value : ofDigits ds = n

/-- No digit stands first. -/
def NoDigit (cs : List Char) : Prop := ∀ c ∈ cs.head?, c.isDigit = false

/-- A number with all digits that there are, and the rest. -/
def Number (cs : List Char) (n : Nat) (rest : List Char) : Prop :=
  ∃ ds, IsNumeral ds n ∧ cs = ds ++ rest ∧ NoDigit rest

/-- A number with all digits that there are up to the limit, and the rest. -/
def NumberUpTo (limit : Nat) (cs : List Char) (n : Nat) (rest : List Char) : Prop :=
  ∃ ds, IsNumeral ds n ∧ cs = ds ++ rest ∧ ds.length ≤ limit ∧
    (ds.length = limit ∨ NoDigit rest)

/-- Blanks, and then something with the given property. -/
def AfterBlanks (P : List Char → Prop) (cs : List Char) : Prop :=
  ∃ blanks rest, (∀ b ∈ blanks, isBlank b = true) ∧ cs = blanks ++ rest ∧ P rest

/-- A year, and the rest. It may have more than four digits only behind a sign. -/
inductive Year : List Char → Int → List Char → Prop
  | plain {cs rest : List Char} {n : Nat} (h : NumberUpTo 4 cs n rest) : Year cs n rest
  | plus {cs rest : List Char} {n : Nat} (h : Number cs n rest) : Year ('+' :: cs) n rest
  | minus {cs rest : List Char} {n : Nat} (h : Number cs n rest) : Year ('-' :: cs) (-n) rest

/-- Blanks, one or two digits, and the rest. -/
def Pair (cs : List Char) (n : Nat) (rest : List Char) : Prop :=
  AfterBlanks (NumberUpTo 2 · n rest) cs

/-- Nothing, or a point and digits, of which nine count. -/
inductive Fraction : List Char → Nat → Prop
  | none : Fraction [] 0
  | digits {ds : List Char} (hne : ds ≠ []) (hdigits : ∀ d ∈ ds, d.isDigit = true) :
      Fraction ('.' :: ds) (ofDigits (ds.take 9) * 10 ^ (9 - ds.length))

/-- A date and a time of day with the given numbers, and between them what leads from the one to the
other. -/
inductive Clock (Between : List Char → List Char → Prop) : List Char → ClockParts → Prop
  | mk {cs months days middle hours minutes seconds fraction : List Char} {p : ClockParts}
      (hyear : AfterBlanks (Year · p.date.year ('-' :: months)) cs)
      (hmonth : Pair months p.date.month ('-' :: days)) (hday : Pair days p.date.day middle)
      (hmiddle : Between middle hours) (hhour : Pair hours p.hour (':' :: minutes))
      (hminute : Pair minutes p.minute (':' :: seconds)) (hsecond : Pair seconds p.second fraction)
      (hfraction : Fraction fraction p.nano) : Clock Between cs p

/-- Nothing but the letter T. The blanks that may stand in its place are those before the hour. -/
def LetterT (middle hours : List Char) : Prop := middle = 'T' :: hours

end InstantGrammar

open InstantGrammar

/-- The text is a date and a time of day with the given numbers, with nothing else but blanks after
it. -/
def IsWritten (s : String) (p : ClockParts) : Prop :=
  ∃ cs blanks, s.toList = cs ++ blanks ∧ (∀ b ∈ blanks, isBlank b = true) ∧
    (Clock Eq cs p ∨ Clock LetterT cs p)

/-! ## Numbers -/

theorem spanDigitsUpTo_stops : ∀ (limit : Nat) (cs : List Char),
    (spanDigitsUpTo limit cs).1.length ≤ limit ∧ ((spanDigitsUpTo limit cs).1.length = limit ∨
      NoDigit (spanDigitsUpTo limit cs).2)
  | 0, cs => by simp [spanDigitsUpTo]
  | limit + 1, [] => by simp [spanDigitsUpTo, NoDigit]
  | limit + 1, c :: cs => by
    have ih := spanDigitsUpTo_stops limit cs
    unfold spanDigitsUpTo
    cases hc : c.isDigit with
    | false => simp [NoDigit, hc]
    | true => simpa [hc] using ih

theorem numberUpTo_eq_some_iff {limit : Nat} {cs rest : List Char} {n : Nat} :
    numberUpTo limit cs = some (n, rest) ↔ NumberUpTo limit cs n rest := by
  constructor
  · intro h
    obtain ⟨happend, hdigits⟩ := spanDigitsUpTo_spec limit cs
    obtain ⟨hlength, hstops⟩ := spanDigitsUpTo_stops limit cs
    unfold numberUpTo at h
    split at h
    · cases h
    · next ds left hne hspan =>
      cases h
      rw [hspan] at happend hdigits hlength hstops
      exact ⟨ds, ⟨fun hnil => hne hnil, hdigits, rfl⟩, happend.symm, hlength, hstops⟩
  · rintro ⟨ds, ⟨hne, hdigits, rfl⟩, rfl, hlength, hstops⟩
    obtain ⟨d, ds, rfl⟩ := List.exists_cons_of_ne_nil hne
    unfold numberUpTo
    rw [spanDigitsUpTo_append rest hdigits hlength hstops]

theorem number_eq_some_iff {cs rest : List Char} {n : Nat} :
    number cs = some (n, rest) ↔ Number cs n rest := by
  constructor
  · intro h
    have happend := spanDigits_append cs
    have hdigits : ∀ d ∈ (spanDigits cs).1, d.isDigit = true := fun _ => isDigit_of_mem_spanDigits
    have hstops : NoDigit (spanDigits cs).2 := fun _ => isDigit_head_spanDigits
    unfold number at h
    split at h
    · cases h
    · next ds left hne hspan =>
      cases h
      rw [hspan] at happend hdigits hstops
      exact ⟨ds, ⟨fun hnil => hne hnil, hdigits, rfl⟩, happend.symm, hstops⟩
  · rintro ⟨ds, ⟨hne, hdigits, rfl⟩, rfl, hstops⟩
    obtain ⟨d, ds, rfl⟩ := List.exists_cons_of_ne_nil hne
    unfold number
    rw [spanDigits_append_of_digits hdigits hstops]

theorem InstantGrammar.NumberUpTo.isDigit_head {limit n : Nat} {cs rest : List Char}
    (h : NumberUpTo limit cs n rest) {c : Char} (hc : c ∈ cs.head?) : c.isDigit = true := by
  obtain ⟨ds, hds, rfl, -⟩ := h
  obtain ⟨d, ds, rfl⟩ := List.exists_cons_of_ne_nil hds.ne_nil
  cases hc
  exact hds.digits c List.mem_cons_self

/-- To drop the blanks and to allow for blanks come to the same for what begins with none. -/
theorem skipBlanks_iff {P : List Char → Prop}
    (hP : ∀ cs, P cs → ∀ c ∈ cs.head?, isBlank c = false) {cs : List Char} :
    P (skipBlanks cs) ↔ AfterBlanks P cs := by
  constructor
  · intro h
    exact ⟨cs.takeWhile isBlank, skipBlanks cs,
      fun b hb => List.all_eq_true.1 List.all_takeWhile b hb,
      List.takeWhile_append_dropWhile.symm, h⟩
  · rintro ⟨blanks, rest, hblanks, rfl, h⟩
    have hskip : skipBlanks (blanks ++ rest) = skipBlanks rest :=
      List.dropWhile_append_of_pos hblanks
    rw [hskip, skipBlanks_eq_self (hP rest h)]
    exact h

/-! ## The parts of a text -/

theorem readYear_eq_some_iff {cs rest : List Char} {year : Int} :
    readYear cs = some (year, rest) ↔ AfterBlanks (Year · year rest) cs := by
  have hskip : readYear cs = some (year, rest) ↔ Year (skipBlanks cs) year rest := by
    unfold readYear
    generalize skipBlanks cs = cs
    constructor
    · intro h
      split at h
      · obtain ⟨_, hn, heq⟩ := Option.map_eq_some_iff.1 h
        cases heq
        exact .minus (number_eq_some_iff.1 hn)
      · obtain ⟨_, hn, heq⟩ := Option.map_eq_some_iff.1 h
        cases heq
        exact .plus (number_eq_some_iff.1 hn)
      · obtain ⟨_, hn, heq⟩ := Option.map_eq_some_iff.1 h
        cases heq
        exact .plain (numberUpTo_eq_some_iff.1 hn)
    · intro h
      cases h with
      | plain h =>
        split
        · exact absurd (h.isDigit_head rfl) (by decide)
        · exact absurd (h.isDigit_head rfl) (by decide)
        · rw [numberUpTo_eq_some_iff.2 h]
          rfl
      | plus h =>
        change (number _).map _ = _
        rw [number_eq_some_iff.2 h]
        rfl
      | minus h =>
        change (number _).map _ = _
        rw [number_eq_some_iff.2 h]
        rfl
  rw [hskip]
  refine skipBlanks_iff (P := (Year · year rest)) fun cs h c hc => ?_
  cases h with
  | plain h => exact isBlank_of_isDigit (h.isDigit_head hc)
  | plus | minus =>
    cases hc
    decide

theorem readPair_eq_some_iff {cs rest : List Char} {n : Nat} :
    readPair cs = some (n, rest) ↔ Pair cs n rest := by
  unfold readPair Pair
  rw [numberUpTo_eq_some_iff]
  exact skipBlanks_iff (P := (NumberUpTo 2 · n rest)) fun cs h c hc =>
    isBlank_of_isDigit (h.isDigit_head hc)

theorem spanDigitsUpTo_of_digits : ∀ (limit : Nat) {ds : List Char},
    (∀ d ∈ ds, d.isDigit = true) → spanDigitsUpTo limit ds = (ds.take limit, ds.drop limit)
  | 0, ds, _ => by simp [spanDigitsUpTo]
  | limit + 1, [], _ => rfl
  | limit + 1, d :: ds, h => by
    obtain ⟨hd, hds⟩ := List.forall_mem_cons.1 h
    have htail := spanDigitsUpTo_of_digits limit hds
    unfold spanDigitsUpTo
    simp [hd, htail]

theorem readNanos_of_digits {ds : List Char} (hne : ds ≠ []) (h : ∀ d ∈ ds, d.isDigit = true) :
    readNanos ('.' :: ds) = some (ofDigits (ds.take 9) * 10 ^ (9 - ds.length), []) := by
  have hspan : spanDigitsUpTo 9 ds = (ds.take 9, ds.drop 9) := spanDigitsUpTo_of_digits 9 h
  have hrest : (ds.drop 9).dropWhile Char.isDigit = [] :=
    List.dropWhile_eq_nil_iff.2 fun d hd => h d (List.mem_of_mem_drop hd)
  have hplaces : 9 - (ds.take 9).length = 9 - ds.length := by
    rw [List.length_take]
    omega
  obtain ⟨d, front, hfront⟩ := List.exists_cons_of_ne_nil (l := ds.take 9) (by simpa using hne)
  rw [readNanos, hspan, hfront]
  dsimp only
  rw [← hfront, hrest, hplaces]
  rfl

theorem readNanos_eq_some_iff {cs : List Char} {nano : Nat} :
    readNanos cs = some (nano, []) ↔ Fraction cs nano := by
  constructor
  · intro h
    cases cs with
    | nil =>
      cases h
      exact .none
    | cons c ds =>
      by_cases hc : c = '.'
      · subst hc
        obtain ⟨hne, hdigits⟩ := digits_of_readNanos h
        rw [readNanos_of_digits hne hdigits] at h
        cases h
        exact .digits hne hdigits
      · unfold readNanos at h
        simp [hc] at h
  · intro h
    cases h with
    | none => rfl
    | digits hne hdigits => exact readNanos_of_digits hne hdigits

/-! ## Whole texts -/

theorem mark_eq_some_iff {l : ClockLayout} (hl : l.blanksBeforeMarks = false) {c : Char}
    {cs rest : List Char} : l.mark c cs = some rest ↔ cs = c :: rest := by
  unfold ClockLayout.mark expect
  rw [hl]
  cases cs with
  | nil => simp
  | cons d ds => by_cases h : d = c <;> simp [h]

/-- What is read in a layout is a date and a time of day with what the layout has between them. -/
theorem readClock?_eq_some_iff {l : ClockLayout} (hl : l.blanksBeforeMarks = false)
    {cs : List Char} {t : DateTime} : readClock? l cs = some t ↔ t.EndsMinute ∧
      Clock (fun middle hours => l.readMiddle middle = some hours) cs t.parts := by
  have hparts : readClock? l cs = some t ↔ ∃ p : ClockParts,
      Clock (fun middle hours => l.readMiddle middle = some hours) cs p ∧ p.instant? = some t := by
    unfold readClock?
    simp only [Option.bind_eq_bind, Option.bind_eq_some_iff, Prod.exists, mark_eq_some_iff hl,
      readYear_eq_some_iff, readPair_eq_some_iff, hl, Bool.false_eq_true, if_false,
      List.isEmpty_iff]
    constructor
    · rintro ⟨year, _, hyear, months, rfl, month, _, hmonth, days, rfl, day, middle, hday, hours,
        hmiddle, hour, _, hhour, minutes, rfl, minute, _, hminute, seconds, rfl, second, fraction,
        hsecond, nano, left, hnanos, hend⟩
      split at hend
      · next hleft =>
        subst hleft
        exact ⟨⟨⟨year, month, day⟩, hour, minute, second, nano⟩, ⟨hyear, hmonth, hday, hmiddle,
          hhour, hminute, hsecond, readNanos_eq_some_iff.1 hnanos⟩, hend⟩
      · cases hend
    · rintro ⟨⟨⟨year, month, day⟩, hour, minute, second, nano⟩, ⟨hyear, hmonth, hday, hmiddle,
        hhour, hminute, hsecond, hfraction⟩, hend⟩
      exact ⟨year, _, hyear, _, rfl, month, _, hmonth, _, rfl, day, _, hday, _, hmiddle, hour, _,
        hhour, _, rfl, minute, _, hminute, _, rfl, second, _, hsecond, nano, [],
        readNanos_eq_some_iff.2 hfraction, (if_pos rfl).trans hend⟩
  rw [hparts]
  constructor
  · rintro ⟨p, hp, hinstant⟩
    obtain ⟨hends, hparts⟩ := DateTime.instant?_eq_some_iff.1 hinstant
    rw [hparts]
    exact ⟨hends, hp⟩
  · rintro ⟨hends, h⟩
    exact ⟨t.parts, h, DateTime.instant?_eq_some_iff.2 ⟨hends, rfl⟩⟩

/-! ## Blanks around a text -/

theorem skipBlanks_skipBlanks (cs : List Char) : skipBlanks (skipBlanks cs) = skipBlanks cs :=
  List.dropWhile_idempotent isBlank cs

theorem pair_skipBlanks_iff {cs rest : List Char} {n : Nat} :
    Pair (skipBlanks cs) n rest ↔ Pair cs n rest := by
  rw [← readPair_eq_some_iff, ← readPair_eq_some_iff]
  unfold readPair
  rw [skipBlanks_skipBlanks]

theorem afterBlanks_year_skipBlanks_iff {cs rest : List Char} {year : Int} :
    AfterBlanks (Year · year rest) (skipBlanks cs) ↔ AfterBlanks (Year · year rest) cs := by
  rw [← readYear_eq_some_iff, ← readYear_eq_some_iff]
  unfold readYear
  rw [skipBlanks_skipBlanks]

theorem suffix_of_year {cs rest : List Char} {year : Int}
    (h : AfterBlanks (Year · year rest) cs) : rest <:+ cs := by
  obtain ⟨blanks, text, -, rfl, h⟩ := h
  refine .trans ?_ (List.suffix_append blanks text)
  cases h with
  | plain h =>
    obtain ⟨ds, -, rfl, -⟩ := h
    exact List.suffix_append ds rest
  | plus h | minus h =>
    obtain ⟨ds, -, rfl, -⟩ := h
    exact (List.suffix_append ds rest).trans (List.suffix_cons _ _)

theorem suffix_of_pair {cs rest : List Char} {n : Nat} (h : Pair cs n rest) : rest <:+ cs := by
  obtain ⟨blanks, _, -, rfl, ds, -, rfl, -⟩ := h
  exact ⟨blanks ++ ds, List.append_assoc ..⟩

theorem dropWhile_append_cons {α : Type} {q : α → Bool} {xs ys : List α} {y : α}
    (hy : q y = false) : (xs ++ y :: ys).dropWhile q = xs.dropWhile q ++ y :: ys := by
  rw [List.dropWhile_append]
  split
  · next h =>
    rw [List.isEmpty_iff.1 h, List.dropWhile_cons, hy]
    rfl
  · rfl

/-- Blanks that follow a text are cut off, and so are the blanks in front. -/
theorem trimChars_append {cs blanks : List Char} {c : Char} (hc : isBlank c = false)
    (hblanks : ∀ b ∈ blanks, isBlank b = true) :
    trimChars (cs ++ [c] ++ blanks) = skipBlanks (cs ++ [c]) := by
  have hback : ∀ b ∈ blanks.reverse, isBlank b = true :=
    fun b hb => hblanks b (List.mem_reverse.1 hb)
  unfold trimChars skipBlanks
  rw [List.append_assoc, List.singleton_append, dropWhile_append_cons hc, dropWhile_append_cons hc,
    List.reverse_append, List.reverse_cons, List.append_assoc, List.singleton_append,
    List.dropWhile_append_of_pos hback, List.dropWhile_cons, hc, if_neg Bool.false_ne_true,
    List.reverse_cons, List.reverse_reverse]

/-- Seconds end with a digit, be it one of their fraction. -/
theorem exists_last_of_seconds {seconds fraction : List Char} {n nano : Nat}
    (hsecond : Pair seconds n fraction) (hfraction : Fraction fraction nano) :
    ∃ front c, seconds = front ++ [c] ∧ c.isDigit = true := by
  obtain ⟨blanks, _, -, rfl, ds, hds, rfl, -⟩ := hsecond
  rcases List.eq_nil_or_concat' fraction with rfl | ⟨front, c, rfl⟩
  · obtain ⟨front, c, rfl⟩ := (List.eq_nil_or_concat' ds).resolve_left hds.ne_nil
    exact ⟨blanks ++ front, c, by simp, hds.digits c (by simp)⟩
  · have hlast : c ∈ (front ++ [c]).getLast? := by simp
    exact ⟨blanks ++ (ds ++ front), c, by simp,
      isDigit_of_getLast_readNanos (readNanos_eq_some_iff.2 hfraction) hlast⟩

namespace InstantGrammar.Clock

variable {Between : List Char → List Char → Prop} {cs : List Char} {p : ClockParts}

/-- Blanks in front make no difference. -/
theorem skipBlanks_iff : Clock Between (skipBlanks cs) p ↔ Clock Between cs p := by
  constructor
  · rintro ⟨hyear, hmonth, hday, hmiddle, hhour, hminute, hsecond, hfraction⟩
    exact ⟨afterBlanks_year_skipBlanks_iff.1 hyear, hmonth, hday, hmiddle, hhour, hminute, hsecond,
      hfraction⟩
  · rintro ⟨hyear, hmonth, hday, hmiddle, hhour, hminute, hsecond, hfraction⟩
    exact ⟨afterBlanks_year_skipBlanks_iff.2 hyear, hmonth, hday, hmiddle, hhour, hminute, hsecond,
      hfraction⟩

/-- The text ends with the digit with which its seconds end. -/
theorem exists_last (h : Clock Between cs p)
    (hsuffix : ∀ {middle hours}, Between middle hours → hours <:+ middle) :
    ∃ front c, cs = front ++ [c] ∧ c.isDigit = true := by
  obtain ⟨hyear, hmonth, hday, hmiddle, hhour, hminute, hsecond, hfraction⟩ := h
  have hmonths := (List.suffix_cons _ _).trans (suffix_of_year hyear)
  have hdays := ((List.suffix_cons _ _).trans (suffix_of_pair hmonth)).trans hmonths
  have hhours := ((hsuffix hmiddle).trans (suffix_of_pair hday)).trans hdays
  have hminutes := ((List.suffix_cons _ _).trans (suffix_of_pair hhour)).trans hhours
  obtain ⟨front, rfl⟩ := ((List.suffix_cons _ _).trans (suffix_of_pair hminute)).trans hminutes
  obtain ⟨middle, c, rfl, hc⟩ := exists_last_of_seconds hsecond hfraction
  exact ⟨front ++ middle, c, (List.append_assoc ..).symm, hc⟩

/-- What is a date and a time of day without the blanks around it has nothing else but blanks after
it. -/
theorem trimChars_iff (hsuffix : ∀ {middle hours}, Between middle hours → hours <:+ middle)
    {text : List Char} : Clock Between (trimChars text) p ↔
      ∃ cs blanks, text = cs ++ blanks ∧ (∀ b ∈ blanks, isBlank b = true) ∧ Clock Between cs p := by
  constructor
  · intro h
    have htrim : trimChars text = (skipBlanks text).rdropWhile isBlank := rfl
    refine ⟨text.takeWhile isBlank ++ trimChars text, (skipBlanks text).rtakeWhile isBlank, ?_,
      fun b => List.mem_rtakeWhile_imp, ?_⟩
    · rw [htrim, List.append_assoc, List.rdropWhile_append_rtakeWhile]
      exact List.takeWhile_append_dropWhile.symm
    · have hfront : skipBlanks (text.takeWhile isBlank ++ trimChars text) =
          skipBlanks (trimChars text) :=
        List.dropWhile_append_of_pos fun b hb => List.all_eq_true.1 List.all_takeWhile b hb
      rw [← skipBlanks_iff, hfront, skipBlanks_iff]
      exact h
  · rintro ⟨cs, blanks, rfl, hblanks, h⟩
    obtain ⟨front, c, rfl, hc⟩ := h.exists_last hsuffix
    rw [trimChars_append (isBlank_of_isDigit hc) hblanks, skipBlanks_iff]
    exact h

end InstantGrammar.Clock

/-! ## The two layouts -/

section

variable {cs : List Char} {t : DateTime}

/-- The blanks that the first layout drops are those before the hour. -/
theorem readClock?_blank_eq_some_iff :
    readClock? .blank cs = some t ↔ t.EndsMinute ∧ Clock Eq cs t.parts := by
  rw [readClock?_eq_some_iff rfl]
  refine and_congr_right fun _ => ?_
  constructor
  · rintro ⟨hyear, hmonth, hday, hmiddle, hhour, hminute, hsecond, hfraction⟩
    obtain rfl := Option.some.inj hmiddle
    exact ⟨hyear, hmonth, hday, rfl, pair_skipBlanks_iff.1 hhour, hminute, hsecond, hfraction⟩
  · rintro ⟨hyear, hmonth, hday, rfl, hhour, hminute, hsecond, hfraction⟩
    exact ⟨hyear, hmonth, hday, rfl, pair_skipBlanks_iff.2 hhour, hminute, hsecond, hfraction⟩

theorem readClock?_letterT_eq_some_iff :
    readClock? .letterT cs = some t ↔ t.EndsMinute ∧ Clock LetterT cs t.parts := by
  have hmiddle (middle hours : List Char) :
      ClockLayout.letterT.readMiddle middle = some hours ↔ LetterT middle hours :=
    mark_eq_some_iff rfl
  rw [readClock?_eq_some_iff rfl]
  simp only [hmiddle]

/-- With the letter T behind the day, no hour follows there. -/
theorem not_clock_eq_of_letterT {p q : ClockParts} (h : Clock LetterT cs p) : ¬ Clock Eq cs q := by
  rintro ⟨hyear', hmonth', hday', rfl, hhour', -⟩
  obtain ⟨hyear, hmonth, hday, rfl, -⟩ := h
  rw [← readYear_eq_some_iff] at hyear hyear'
  rw [← readPair_eq_some_iff] at hmonth hmonth' hday hday' hhour'
  have hmonths := congrArg Prod.snd (Option.some.inj (hyear.symm.trans hyear'))
  obtain rfl := (List.cons.inj hmonths).2
  have hdays := congrArg Prod.snd (Option.some.inj (hmonth.symm.trans hmonth'))
  obtain rfl := (List.cons.inj hdays).2
  obtain rfl := congrArg Prod.snd (Option.some.inj (hday.symm.trans hday'))
  cases hhour'

end

/-- A text is read as an instant just when it is written with the numbers of the instant and this is
in no leap second that ends no minute. -/
theorem readColumn?_eq_some_iff {s : String} {t : DateTime} :
    readColumn? s = some t ↔ t.EndsMinute ∧ IsWritten s t.parts := by
  have hblank : Clock Eq (trimChars s.toList) t.parts ↔ ∃ cs blanks, s.toList = cs ++ blanks ∧
      (∀ b ∈ blanks, isBlank b = true) ∧ Clock Eq cs t.parts := by
    refine Clock.trimChars_iff ?_
    rintro middle _ rfl
    exact List.suffix_rfl
  have hletterT : Clock LetterT (trimChars s.toList) t.parts ↔ ∃ cs blanks,
      s.toList = cs ++ blanks ∧ (∀ b ∈ blanks, isBlank b = true) ∧ Clock LetterT cs t.parts := by
    refine Clock.trimChars_iff ?_
    rintro _ hours rfl
    exact List.suffix_cons 'T' hours
  have hread : readColumn? s = some t ↔ t.EndsMinute ∧
      (Clock Eq (trimChars s.toList) t.parts ∨ Clock LetterT (trimChars s.toList) t.parts) := by
    unfold readColumn?
    dsimp only
    rw [Option.or_eq_some_iff, readClock?_blank_eq_some_iff, readClock?_letterT_eq_some_iff,
      and_or_left]
    refine or_congr_right ⟨And.right, fun h => ⟨?_, h⟩⟩
    exact Option.eq_none_iff_forall_ne_some.2 fun u hu =>
      not_clock_eq_of_letterT h.2 (readClock?_blank_eq_some_iff.1 hu).2
  rw [hread, hblank, hletterT]
  unfold IsWritten
  simp only [← exists_or, and_or_left]

/-- Each date and time of the calendar, second 60 included, is that of an instant whose leap second
ends a minute. The text that tables hold for any instant is read as the same date and time without
the fraction of the second, which is the instant without this fraction just when it is in no leap
second that ends no minute. A text is read as such an instant just when it is written with the
numbers of this instant, and what is written for this instant is then read as the same without the
fraction. -/
theorem DateTime.rewriting_cuts :
    (∀ p : ClockParts, p.IsInCalendar ↔ ∃ t : DateTime, t.EndsMinute ∧ t.parts = p) ∧
    (∀ t : DateTime, readColumn? t.columnText = some t.written ∧ t.written.parts = t.parts.cut ∧
      (t.written = t.truncate ↔ t.EndsMinute)) ∧
    ∀ s, (∀ t, readColumn? s = some t ↔ t.EndsMinute ∧ IsWritten s t.parts) ∧
      ((readColumn? s).bind fun t => readColumn? t.columnText) =
        (readColumn? s).map truncate := by
  refine ⟨fun p => exists_parts_eq_iff.symm,
    fun t => ⟨t.readColumn?_columnText, t.parts_written, written_eq_truncate_iff⟩,
    fun s => ⟨fun t => readColumn?_eq_some_iff, ?_⟩⟩
  cases hread : readColumn? s with
  | none => rfl
  | some t =>
    obtain ⟨hends, -⟩ := readColumn?_eq_some_iff.1 hread
    rw [Option.bind_some, Option.map_some, t.readColumn?_columnText, written_of_endsMinute hends]

/-- A leap second after 23:56:04 and the second that follows have the same text, and this is read as
the second that follows. -/
theorem DateTime.leap_second_read_as_next :
    oddLeapSecond.columnText = "2015-09-08 23:56:05" ∧
      afterOddLeap.columnText = "2015-09-08 23:56:05" ∧
      readColumn? "2015-09-08 23:56:05" = some afterOddLeap ∧
      afterOddLeap ≠ oddLeapSecond.truncate := by
  decide +kernel

/-- A text that is read generously comes out in the table's own form. -/
example : (readColumn? " +2016-12-31T 23:59: 60.25\t").map DateTime.columnText =
    some "2016-12-31 23:59:60" := by decide +kernel

end Bom
