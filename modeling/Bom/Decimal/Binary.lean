/-!
# The exact value of a double

A finite double that is not zero is a whole number times a power of two, with a sign. Its decimal
digits, the whole number nearest to it and its order among the whole numbers are read off this value
in exact arithmetic.

* `Binary`: the exact value of a finite double.
* `Binary.scaledFloor`: the value in units of a power of ten, without the fraction of a unit.
* `nearestInt?`: the nearest whole number.
* `compareInt`: the order of a whole number and a double.
-/

namespace Bom

/-- The exact value of a finite double that is not zero: `± mantissa · 2 ^ power`. -/
structure Binary where
  negative : Bool
  mantissa : Nat
  power : Int
  deriving DecidableEq, Repr

namespace Binary

/-- The numerator of `mantissa · 2 ^ power · 10 ^ scale`, the value in units of `10 ^ (-scale)`. -/
def scaledNumerator (b : Binary) (scale : Int) : Nat :=
  b.mantissa * Nat.pow 2 b.power.toNat * Nat.pow 10 scale.toNat

/-- The denominator of the value in units of `10 ^ (-scale)`, which is not 0. -/
def scaledDenominator (b : Binary) (scale : Int) : Nat :=
  Nat.pow 2 (-b.power).toNat * Nat.pow 10 (-scale).toNat

/-- The whole units of `10 ^ (-scale)` in the value. -/
def scaledFloor (b : Binary) (scale : Int) : Nat :=
  b.scaledNumerator scale / b.scaledDenominator scale

/-- How many places before the point the leading digit of the value stands: the least `k` for which
the value is below `10 ^ k`. No positive double is below `10 ^ (-324)`. -/
def leadingPlace (b : Binary) : Int :=
  ((Nat.toDigits 10 (b.scaledFloor 324)).length : Int) - 324

/-- Holds when the value is below the middle between `a` and `a + 1` units of `10 ^ (-scale)`. -/
def belowMiddle (b : Binary) (scale : Int) (a : Nat) : Bool :=
  2 * b.scaledNumerator scale < (2 * a + 1) * b.scaledDenominator scale

/-- A whole number with the sign of the value. -/
def withSign (b : Binary) (n : Nat) : Int :=
  if b.negative then -(n : Int) else n

end Binary

/-- The sign of a double as whether it is negative. -/
def isNegative : Float.Model.UnpackedFloat.Sign → Bool
  | .negative => true
  | .positive => false

/-- The whole number nearest to a finite double, a half going away from zero. -/
def nearestInt? (x : Float) : Option Int :=
  match x.toModel.unpack with
  | .notANumber => none
  | .infinity _ => none
  | .zero _ => some 0
  | .finite s m e _ =>
    let b : Binary := ⟨isNegative s, m, e⟩
    let unit := b.scaledDenominator 0
    some (b.withSign ((2 * b.scaledNumerator 0 + unit) / (2 * unit)))

/-- The order of a whole number and a double, compared exactly. Every whole number comes after
not-a-number. -/
def compareInt (i : Int) (x : Float) : Ordering :=
  match x.toModel.unpack with
  | .notANumber => .gt
  | .infinity s => if isNegative s then .gt else .lt
  | .zero _ => compare i 0
  | .finite s m e _ =>
    let b : Binary := ⟨isNegative s, m, e⟩
    compare (i * b.scaledDenominator 0) (b.withSign (b.scaledNumerator 0))

end Bom
