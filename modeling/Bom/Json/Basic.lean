import Bom.Decimal.Numeral

/-!
# Structured texts

A structured text holds null, truth values, numbers, texts, lists and objects. Numbers are kept as
they are written, for a whole number is not the same as a number with a fraction of zero. Objects
keep their members in order, repeated names included.

* `Json`: what a structured text holds.
* `JsonNumber.integer?`, `JsonNumber.float?`: a number as a whole number or as a double.
-/

namespace Bom

/-- A number as it is written. -/
structure JsonNumber where
  numeral : Numeral
  /-- written without a fraction and without an exponent -/
  whole : Bool
  deriving DecidableEq, Repr

namespace JsonNumber

/-- The whole number, if it is written as one. Minus zero is no whole number. -/
def integer? (n : JsonNumber) : Option Int :=
  if n.whole then
    if n.numeral.negative then
      if n.numeral.digits = 0 then none else some (-(n.numeral.digits : Int))
    else some n.numeral.digits
  else none

/-- The nearest double, unless the number is too large for one. -/
def float? (n : JsonNumber) : Option Float :=
  let x := n.numeral.toFloat
  if x.isFinite then some x else none

end JsonNumber

/-- What a structured text holds. A text is missing where it is written with half of a surrogate
pair: such a text has no characters, and may stand only where nothing reads it. -/
inductive Json where
  | null
  | bool (value : Bool)
  | number (value : JsonNumber)
  | text (value : Option String)
  | list (items : List Json)
  | object (members : List (Option String × Json))

end Bom
