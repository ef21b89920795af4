import Bom.Text.Scan

/-!
# Decimal numbers as they are written

A numeral is what a text says: digits, a power of ten and a sign. Its value is the double nearest to
it, with ties to the even neighbour, infinite when it is too large.

* `Numeral.toFloat`: the nearest double.
* `Numeral.read?`: a sign, digits with an optional point (at least one digit on either side) and an
  optional exponent.
* `boundedPower`: the exponent of a double, which stops growing at a bound.
* `readFloat?`: a whole text as a double, where infinity and not-a-number have names.
* `readFinite?`: the quantity that a text column holds: trimmed, and finite or nothing.
* `readCount?`: a whole number that fits an unsigned word of 64 bits.
-/

namespace Bom

/-- The number `± digits · 10 ^ exponent`. -/
structure Numeral where
  negative : Bool
  digits : Nat
  exponent : Int
  deriving DecidableEq, Repr

namespace Numeral

/-- The double nearest to `digits · 10 ^ exponent`, a tie going to the even one. -/
def magnitude (digits : Nat) (exponent : Int) : Float :=
  Float.ofModel (Float.Model.ofScientific digits exponent)

/-- The double nearest to the numeral. A numeral with a minus and value zero is negative zero. -/
def toFloat (n : Numeral) : Float :=
  if n.negative then -(magnitude n.digits n.exponent) else magnitude n.digits n.exponent

end Numeral

open Text

/-- An optional sign, read as whether the number is negative. -/
def readSign : List Char → Bool × List Char
  | '-' :: rest => (true, rest)
  | '+' :: rest => (false, rest)
  | rest => (false, rest)

/-- The exponent after the letter e: an optional sign and at least one digit. What the digits stand
for is left to `power`. -/
def readExponent (power : List Char → Nat) (cs : List Char) : Option (Int × List Char) :=
  let (negative, rest) := readSign cs
  match spanDigits rest with
  | ([], _) => none
  | (ds, rest) => some (if negative then -(power ds : Int) else power ds, rest)

/-- The fraction after the digits before the point: its digits, empty when there is no point. -/
def readFraction : List Char → List Char × List Char
  | '.' :: rest => spanDigits rest
  | rest => ([], rest)

/-- Digits with an optional point and an optional exponent, without a sign. -/
def readMagnitude (power : List Char → Nat) (cs : List Char) : Option (Nat × Int × List Char) :=
  let (whole, rest) := spanDigits cs
  let (fraction, rest) := readFraction rest
  if whole.isEmpty && fraction.isEmpty then none
  else
    let digits := ofDigits (whole ++ fraction)
    let scale : Int := -(fraction.length : Int)
    match rest with
    | c :: after =>
      if c = 'e' ∨ c = 'E' then
        match readExponent power after with
        | some (e, after) => some (digits, scale + e, after)
        | none => none
      else some (digits, scale, rest)
    | [] => some (digits, scale, [])

/-- A whole text as a numeral. -/
def Numeral.read? (power : List Char → Nat) (cs : List Char) : Option Numeral :=
  let (negative, rest) := readSign cs
  match readMagnitude power rest with
  | some (digits, exponent, []) => some ⟨negative, digits, exponent⟩
  | _ => none

/-- The exponent that digits stand for in the text of a double. One that has reached `2 ^ 16` takes
no more digits. The double is then still zero or infinite, unless its other digits are as many. -/
def boundedPower : List Char → Nat := ofDigitsUpTo 65536 id

/-- Infinity, as a double. -/
def infinity : Float := 1.0 / 0.0

/-- Not a number, as a double. -/
def notANumber : Float := 0.0 / 0.0

/-- The names that stand for a double without digits, in any case and without their sign. -/
def namedFloat? (cs : List Char) : Option Float :=
  let name := String.ofList (cs.map Char.toLower)
  if name = "inf" ∨ name = "infinity" then some infinity
  else if name = "nan" then some notANumber
  else none

/-- A whole text as a double: a numeral, or a name with an optional sign. -/
def readFloat? (s : String) : Option Float :=
  match Numeral.read? boundedPower s.toList with
  | some n => some n.toFloat
  | none =>
    let (negative, rest) := readSign s.toList
    (namedFloat? rest).map fun x => if negative then -x else x

/-- The finite number that a text holds between blanks, if it holds one. -/
def readFinite? (s : String) : Option Float :=
  (readFloat? (trim s)).filter Float.isFinite

/-- The greatest whole number of an unsigned word of 64 bits. -/
def maxCount : Nat := 18446744073709551615

/-- The least whole number of a signed word of 64 bits. -/
def minWord : Int := -9223372036854775808

/-- The greatest whole number of a signed word of 64 bits. -/
def maxWord : Int := 9223372036854775807

/-- A whole text as a number of an unsigned word: digits with an optional plus in front. -/
def readCount? (s : String) : Option Nat :=
  let digits : List Char :=
    match s.toList with
    | '+' :: rest => rest
    | cs => cs
  match number digits with
  | some (n, []) => if n ≤ maxCount then some n else none
  | _ => none

end Bom
