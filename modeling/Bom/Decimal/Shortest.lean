import Bom.Decimal.Binary
import Bom.Decimal.Numeral

/-!
# The text of a double

A double is written with the fewest decimal digits that read back as the same double. Among texts of
that length the nearest to the double is taken, and of two equally near ones the greater. The point
stands among the digits, never an exponent, and a whole number has no point.

* `Plain`: a decimal fraction, digits over a power of ten, and its text.
* `Binary.neighbours`: the two multiples of a power of ten around a value.
* `Binary.shortest`: the first grid on which a neighbour reads back, from the power of ten above the
  value to seventeen digits. Seventeen digits identify a double; were they ever not to, the exact
  value is written.
* `floatText`: the text of any double.
-/

namespace Bom

open Text

/-- The decimal fraction `digits / 10 ^ places`. -/
structure Plain where
  digits : Nat
  places : Nat
  deriving DecidableEq, Repr

namespace Plain

/-- The digits with the point before the last `places` of them, and at least one digit before it. -/
def text (p : Plain) : List Char :=
  let ds := padded (p.places + 1) p.digits
  let whole := ds.take (ds.length - p.places)
  if p.places = 0 then ds else whole ++ '.' :: ds.drop whole.length

/-- The fraction `a · 10 ^ (-scale)`, without a power of ten above the unit. -/
def ofScaled (a : Nat) (scale : Int) : Plain :=
  ⟨a * Nat.pow 10 (-scale).toNat, scale.toNat⟩

/-- The numeral that the text of the fraction is read as. -/
def numeral (negative : Bool) (p : Plain) : Numeral :=
  ⟨negative, p.digits, -(p.places : Int)⟩

end Plain

namespace Binary

/-- The two multiples of `10 ^ (-scale)` around the value, the nearer one first and the greater one
first when both are equally near. -/
def neighbours (b : Binary) (scale : Int) : List Plain :=
  let a := b.scaledFloor scale
  let low := Plain.ofScaled a scale
  let high := Plain.ofScaled (a + 1) scale
  if b.belowMiddle scale a then [low, high] else [high, low]

/-- The exact value, written out to its last digit. -/
def exact (b : Binary) : Plain :=
  ⟨b.mantissa * Nat.pow 2 b.power.toNat * Nat.pow 5 (-b.power).toNat, (-b.power).toNat⟩

/-- The fraction reads back as the given double. -/
def readsBack (b : Binary) (x : Float) (p : Plain) : Bool :=
  (p.numeral b.negative).toFloat.toBits == x.toBits

/-- The neighbour with the fewest digits, up to seventeen, that reads back as the given double. The
first grid holds the power of ten above the value, which is one digit although it has one place more
than the value. -/
def shortest (b : Binary) (x : Float) : Plain :=
  let hit := (List.range 18).findSome? fun n : Nat =>
    (b.neighbours (n - b.leadingPlace)).find? (b.readsBack x)
  hit.getD b.exact

end Binary

/-- A text with a minus in front when the number is negative. -/
def signed (negative : Bool) (cs : List Char) : List Char :=
  if negative then '-' :: cs else cs

/-- The text of a double: its shortest decimal, or the name of a value that has none. -/
def floatText (x : Float) : String :=
  String.ofList <|
    match x.toModel.unpack with
    | .notANumber => ['N', 'a', 'N']
    | .infinity s => signed (isNegative s) ['i', 'n', 'f']
    | .zero s => signed (isNegative s) ['0']
    | .finite s m e _ =>
      let b : Binary := ⟨isNegative s, m, e⟩
      signed b.negative (b.shortest x).text

end Bom
