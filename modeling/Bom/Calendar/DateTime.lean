import Bom.Calendar.Civil

/-!
# Instants

An instant is a day, a second of that day and a part of that second in billionths. It has no time
zone. A leap second is the continuation of a second: its part is a billion or more, and it is
written as the second after the one that it continues, as second 60 if it ends a minute. Any second
may be continued so. The calendar runs from the year -262143 to the year 262142.

* `DateTime`: an instant inside the calendar.
* `DateTime.instant`: its place on one line, which orders the instants.
* `DateTime.shift?`: the instant some whole seconds later, if the calendar still has it.
* `DateTime.truncate`: the instant without the fraction of its second.
-/

namespace Bom

/-- The first of January of the year -262143. -/
def firstDay : Int := -96465292

/-- The thirty-first of December of the year 262142. -/
def lastDay : Int := 95026236

/-- An instant: days since the first of January 1970, the second of the day, and billionths of a
second, from a billion on in a leap second. -/
structure DateTime where
  day : Int
  second : Nat
  nano : Nat
  firstDay_le : firstDay ≤ day := by decide
  le_lastDay : day ≤ lastDay := by decide
  second_lt : second < 86400 := by decide
  nano_lt : nano < 2000000000 := by decide
  deriving DecidableEq

namespace DateTime

/-- The instant as a number, later ones being greater. Each second has room for a leap second. -/
def instant (t : DateTime) : Int :=
  (t.day * 86400 + t.second) * 2000000000 + t.nano

instance : LT DateTime := ⟨fun a b => a.instant < b.instant⟩
instance : LE DateTime := ⟨fun a b => a.instant ≤ b.instant⟩
instance (a b : DateTime) : Decidable (a < b) := inferInstanceAs (Decidable (a.instant < b.instant))
instance (a b : DateTime) : Decidable (a ≤ b) := inferInstanceAs (Decidable (a.instant ≤ b.instant))

/-- The instant with the given parts, if the calendar has it. -/
def ofParts? (day : Int) (second nano : Nat) : Option DateTime :=
  if h : firstDay ≤ day ∧ day ≤ lastDay ∧ second < 86400 ∧ nano < 2000000000 then
    some ⟨day, second, nano, h.1, h.2.1, h.2.2.1, h.2.2.2⟩
  else none

/-- The instant of a date and a time of day, where second 60 is a leap second. -/
def ofClock? (date : Civil) (hour minute second nano : Nat) : Option DateTime :=
  if date.isValid ∧ hour < 24 ∧ minute < 60 ∧ second ≤ 60 ∧ nano < 1000000000 then
    if second = 60 then ofParts? date.dayNumber (hour * 3600 + minute * 60 + 59) (1000000000 + nano)
    else ofParts? date.dayNumber (hour * 3600 + minute * 60 + second) nano
  else none

/-- Midnight before the first of January 1970, the start of validity that is stored when none is
given. -/
def epoch : DateTime := { day := 0, second := 0, nano := 0 }

/-- The date of the instant. -/
def date (t : DateTime) : Civil := Civil.ofDayNumber t.day

/-- Holds inside a leap second. -/
def inLeapSecond (t : DateTime) : Bool := 1000000000 ≤ t.nano

/-- The hour of the day. -/
def hour (t : DateTime) : Nat := t.second / 3600

/-- The minute of the hour. -/
def minute (t : DateTime) : Nat := t.second / 60 % 60

/-- The second of the minute. Inside a leap second it is one more than that of the second which the
leap second continues. -/
def secondOfMinute (t : DateTime) : Nat :=
  t.second % 60 + if t.inLeapSecond then 1 else 0

/-- The billionths of the second that `secondOfMinute` names. -/
def fraction (t : DateTime) : Nat := t.nano % 1000000000

/-- The instant without the fraction of its second. A leap second keeps its beginning. -/
def truncate (t : DateTime) : DateTime :=
  { t with
    nano := if t.inLeapSecond then 1000000000 else 0
    nano_lt := by split <;> decide }

/-- The instant that is the given number of whole seconds away. Inside a leap second, a step forward
counts from the second that it continues and a step back from the second after it. -/
def shift? (t : DateTime) (seconds : Int) : Option DateTime :=
  if t.inLeapSecond ∧ seconds = 0 then some t
  else
    let base : Int := t.second + if t.inLeapSecond ∧ seconds < 0 then 1 else 0
    let total := base + seconds
    ofParts? (t.day + total / 86400) (total % 86400).toNat t.fraction

end DateTime

end Bom
