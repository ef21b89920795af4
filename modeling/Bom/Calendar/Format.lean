import Bom.Calendar.DateTime
import Bom.Text.Scan

/-!
# Instants as text

Tables hold instants as year, month, day, hour, minute and second with a blank in the middle and
without a fraction. Messages and structured texts have the letter T in the middle and a fraction of
three, six or nine digits where there is one. Years below 0 or above 9999 carry a sign.

* `DateTime.columnText`, `DateTime.isoText`: the two texts.
* `readColumn?`: what a table's text stands for, either form being accepted.
* `readIso?`: what a structured text stands for, where blanks may stand before the marks.
-/

namespace Bom

open Text

/-- A year: four digits from 0 to 9999, otherwise a sign and at least four digits. -/
def yearText (year : Int) : List Char :=
  if 0 ≤ year ∧ year ≤ 9999 then padded 4 year.toNat
  else (if year < 0 then '-' else '+') :: padded 4 year.natAbs

namespace DateTime

/-- Year, month and day. -/
def dateText (t : DateTime) : List Char :=
  let d := t.date
  yearText d.year ++ '-' :: padded 2 d.month ++ '-' :: padded 2 d.day

/-- Hour, minute and second. -/
def clockText (t : DateTime) : List Char :=
  padded 2 t.hour ++ ':' :: padded 2 t.minute ++ ':' :: padded 2 t.secondOfMinute

/-- The text that tables hold. -/
def columnText (t : DateTime) : String :=
  String.ofList (t.dateText ++ ' ' :: t.clockText)

/-- The fraction of a second: nothing, or a point and the fewest of three, six or nine digits. -/
def fractionText (nano : Nat) : List Char :=
  if nano = 0 then []
  else if nano % 1000000 = 0 then '.' :: padded 3 (nano / 1000000)
  else if nano % 1000 = 0 then '.' :: padded 6 (nano / 1000)
  else '.' :: padded 9 nano

/-- The text with the letter T and the fraction. -/
def isoText (t : DateTime) : String :=
  String.ofList (t.dateText ++ 'T' :: t.clockText ++ fractionText t.fraction)

end DateTime

/-- What stands between the date and the time of day, and where blanks may stand. -/
structure ClockLayout where
  /-- the mark between date and time of day; none is a run of blanks, which may be empty -/
  middle : Option Char
  /-- blanks are skipped before each mark and at the end -/
  blanksBeforeMarks : Bool

namespace ClockLayout

/-- The layout with a blank in the middle. -/
def blank : ClockLayout := ⟨none, false⟩

/-- The layout with the letter T in the middle. -/
def letterT : ClockLayout := ⟨some 'T', false⟩

/-- The layout with the letter T that lets blanks stand before the marks. -/
def spaced : ClockLayout := ⟨some 'T', true⟩

/-- Reads a mark. -/
def mark (l : ClockLayout) (c : Char) (cs : List Char) : Option (List Char) :=
  expect c (if l.blanksBeforeMarks then skipBlanks cs else cs)

/-- Reads what stands between the date and the time of day. -/
def readMiddle (l : ClockLayout) (cs : List Char) : Option (List Char) :=
  match l.middle with
  | some c => l.mark c cs
  | none => some (skipBlanks cs)

end ClockLayout

/-- A year after blanks: up to four digits, or a sign and any number of digits. -/
def readYear : Scan Int := fun cs =>
  match skipBlanks cs with
  | '-' :: rest => (number rest).map fun (n, rest) => (-(n : Int), rest)
  | '+' :: rest => (number rest).map fun (n, rest) => ((n : Int), rest)
  | rest => (numberUpTo 4 rest).map fun (n, rest) => ((n : Int), rest)

/-- One or two digits after blanks. -/
def readPair : Scan Nat := fun cs => numberUpTo 2 (skipBlanks cs)

/-- The fraction of a second in billionths: nothing, or a point and at least one digit. Digits after
the ninth are passed over. -/
def readNanos : Scan Nat
  | '.' :: rest =>
    match spanDigitsUpTo 9 rest with
    | ([], _) => none
    | (ds, rest) => some (ofDigits ds * Nat.pow 10 (9 - ds.length), rest.dropWhile Char.isDigit)
  | rest => some (0, rest)

/-- A whole text as an instant in the given layout. -/
def readClock? (l : ClockLayout) (cs : List Char) : Option DateTime := do
  let (year, cs) ← readYear cs
  let cs ← l.mark '-' cs
  let (month, cs) ← readPair cs
  let cs ← l.mark '-' cs
  let (day, cs) ← readPair cs
  let cs ← l.readMiddle cs
  let (hour, cs) ← readPair cs
  let cs ← l.mark ':' cs
  let (minute, cs) ← readPair cs
  let cs ← l.mark ':' cs
  let (second, cs) ← readPair cs
  let (nano, cs) ← readNanos cs
  let cs := if l.blanksBeforeMarks then skipBlanks cs else cs
  if cs.isEmpty then DateTime.ofClock? ⟨year, month, day⟩ hour minute second nano else none

/-- The instant that a table's text stands for, with blanks around it cut off. -/
def readColumn? (s : String) : Option DateTime :=
  let cs := trimChars s.toList
  (readClock? .blank cs).or (readClock? .letterT cs)

/-- The instant that a structured text stands for. -/
def readIso? (s : String) : Option DateTime :=
  readClock? .spaced s.toList

end Bom
