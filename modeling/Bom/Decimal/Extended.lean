import Bom.Decimal.Binary
import Bom.Decimal.Numeral

/-!
# Numbers of extended precision

A number of extended precision is a whole number of sixty-four bits times a power of two. A product
is rounded to the nearest such number, and to the even one where two are equally near. Decimals are
turned into doubles and back by multiplying with powers of ten in this arithmetic; the error of the
products is small, but it may lead to the neighbour of the nearest double.

* `Extended`: the numbers, and `Extended.nearest` and `Extended.mul`, which round.
* `Extended.scale`: multiplication with a power of ten, in steps.
* `Extended.leadingDigits`: the leading decimal digits of a number.
* `Extended.toFloat`: the nearest double.
-/

namespace Bom

/-- The number `significand · 2 ^ power`, not negative. -/
structure Extended where
  significand : Nat
  power : Int
  deriving DecidableEq, Repr

namespace Extended

/-- The number nearest to `n · 2 ^ power`, the even one of two that are equally near. -/
def nearest (n : Nat) (power : Int) : Extended :=
  let dropped := n.log2 - 63
  let unit := Nat.pow 2 dropped
  let kept := n / unit
  let rest := n % unit
  let up := unit < 2 * rest || (unit == 2 * rest && kept % 2 == 1)
  ⟨if up then kept + 1 else kept, power + dropped⟩

/-- The value of a double without its sign. -/
def ofBinary (b : Binary) : Extended := ⟨b.mantissa, b.power⟩

/-- The product, rounded. -/
def mul (a b : Extended) : Extended :=
  nearest (a.significand * b.significand) (a.power + b.power)

/-- The order of the values. -/
def lt (a b : Extended) : Bool :=
  let low := min a.power b.power
  a.significand * Nat.pow 2 (a.power - low).toNat < b.significand * Nat.pow 2 (b.power - low).toNat

/-- The number nearest to `10 ^ k`. A negative power is a quotient with more bits than are kept, of
which the last one says whether the division left something. -/
def tenTo (k : Int) : Extended :=
  if 0 ≤ k then nearest (Nat.pow 10 k.toNat) 0
  else
    let unit := Nat.pow 10 k.natAbs
    let shift := 4 * k.natAbs + 70
    let one := Nat.pow 2 shift
    let left := if one % unit = 0 then 0 else 1
    nearest (2 * (one / unit) + left) (-(shift + 1 : Nat))

/-- The number times a power of ten: a hundred places at a time, then ten, then one, each product
rounded. -/
def scale (r : Extended) (places : Int) : Extended :=
  let factor (n : Nat) : Extended := tenTo (if places < 0 then -(n : Int) else n)
  let n := places.natAbs
  let r := Nat.repeat (·.mul (factor 100)) (n / 100) r
  let r := Nat.repeat (·.mul (factor 10)) (n % 100 / 10) r
  Nat.repeat (·.mul (factor 1)) (n % 10) r

/-- The number without its fraction. -/
def whole (r : Extended) : Nat :=
  r.significand * Nat.pow 2 r.power.toNat / Nat.pow 2 (-r.power).toNat

/-- Multiplies a number below the bound with a power of ten until it reaches the bound. The second
component counts the places by which the value is the greater one. No double needs more than twelve
products. -/
def raise (bound : Extended) (places : Nat) : Extended × Int → Extended × Int :=
  Nat.repeat
    (fun (r, n) => if r.lt bound then (r.mul (tenTo places), n - places) else (r, n)) 12

/-- Divides a number that reaches the bound by a power of ten until it is below the bound. -/
def lower (bound : Extended) (places : Nat) : Extended × Int → Extended × Int :=
  Nat.repeat
    (fun (r, n) => if r.lt bound then (r, n) else (r.mul (tenTo (-places)), n + places)) 12

/-- The eighteen or nineteen leading digits of a double, and the power of ten that they count. -/
def leadingDigits (r : Extended) : Nat × Int :=
  let (r, n) :=
    if r.lt (tenTo 19) then
      raise (tenTo 17) 1 (raise (tenTo 7) 10 (raise (tenTo (-97)) 100 (r, 0)))
    else lower (tenTo 19) 1 (lower (tenTo 29) 10 (lower (tenTo 119) 100 (r, 0)))
  (r.whole, n)

/-- The greatest finite double. -/
def greatest : Extended := ⟨Nat.pow 2 53 - 1, 971⟩

/-- The nearest double, infinite above the greatest finite one. -/
def toFloat (r : Extended) : Float :=
  if greatest.lt r then infinity
  else
    let halvings := (-r.power).toNat
    Numeral.magnitude (r.significand * Nat.pow 2 r.power.toNat * Nat.pow 5 halvings) (-halvings)

end Extended

end Bom
