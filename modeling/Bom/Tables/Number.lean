import Bom.Decimal.Extended
import Bom.Decimal.Shortest

/-!
# Numbers in columns

A column turns texts into numbers and numbers into texts by rules of its own. Of a text the leading
digits that fit a word count, and are scaled by the power of ten in extended precision. Of a double
at most fifteen digits are written, which come from eighteen or nineteen in extended precision.

* `trimAscii`, `isWholeText`: the shape of a number in a column.
* `columnPower`: the exponent that a column reads.
* `Numeral.columnFloat`: the double that a column reads.
* `wholeOf?`: the whole number that a column keeps in place of a double.
* `columnReal`: the text of a double in a column of texts.
-/

namespace Bom

/-- The blanks that may stand around a number in a column. -/
def isAsciiBlank (c : Char) : Bool :=
  c = ' ' || (9 ≤ c.toNat && c.toNat ≤ 13)

/-- The characters between the blanks at both ends. -/
def trimAscii (cs : List Char) : List Char :=
  ((cs.dropWhile isAsciiBlank).reverse.dropWhile isAsciiBlank).reverse

/-- A text of digits with an optional sign. -/
def isWholeText (cs : List Char) : Bool :=
  let (_, digits) := readSign cs
  !digits.isEmpty && digits.all Char.isDigit

/-- The exponent that digits stand for in a column. One that has reached ten thousand takes no more
digits: each of them sets it back to ten thousand. A number is then still zero or infinite, unless
its other digits are as many. -/
def columnPower : List Char → Nat := Text.ofDigitsUpTo 10000 fun _ => 10000

/-- The whole number that a double equals, if it lies strictly inside the range of a word. -/
def wholeOf? (x : Float) : Option Int :=
  (nearestInt? x).filter fun i => minWord < i && i < maxWord && compareInt i x == .eq

namespace Numeral

/-- A word below this number takes one more digit. -/
def digitBound : Nat := (maxCount - 9) / 10

/-- One more digit, which counts if a word takes it and else only moves the point. -/
def push (n : Numeral) (c : Char) : Numeral :=
  if n.digits < digitBound then { n with digits := 10 * n.digits + (c.toNat - '0'.toNat) }
  else { n with exponent := n.exponent + 1 }

/-- The numeral with the leading digits that fit a word. -/
def leading (n : Numeral) : Numeral :=
  (Nat.toDigits 10 n.digits).foldl push { n with digits := 0 }

/-- Brings the exponent one nearer to zero, where the digits fit a word with one zero more or have a
zero to spare. -/
def settle (n : Numeral) : Numeral :=
  if 0 < n.exponent ∧ n.digits < maxCount / 10 then
    { n with digits := 10 * n.digits, exponent := n.exponent - 1 }
  else if n.exponent < 0 ∧ n.digits % 10 = 0 then
    { n with digits := n.digits / 10, exponent := n.exponent + 1 }
  else n

/-- The double that a column reads: the leading digits, with an exponent as near to zero as a word
allows, scaled in extended precision. A word has at most twenty digits, and beyond a thousand places
every double is zero or infinite. -/
def columnFloat (n : Numeral) : Float :=
  let m := Nat.repeat settle 20 n.leading
  let places := max (-1000) (min 1000 m.exponent)
  let x := ((Extended.nearest m.digits 0).scale places).toFloat
  if n.negative then -x else x

end Numeral

/-- Digits without the zeros at their end. -/
def dropEndZeros (ds : List Char) : List Char :=
  (ds.reverse.dropWhile (· = '0')).reverse

/-- Digits after a point: without zeros at their end, but at least one. -/
def pointDigits (ds : List Char) : List Char :=
  let kept := dropEndZeros ds
  '.' :: if kept.isEmpty then ['0'] else kept

/-- The leading fifteen digits, a half going up, and the place before the point of the first one. -/
def fifteenDigits (r : Extended) : List Char × Int :=
  let (digits, exponent) := r.leadingDigits
  let length := (Nat.toDigits 10 digits).length
  let unit := Nat.pow 10 (length - 15)
  let rounded := Nat.toDigits 10 ((2 * digits + unit) / (2 * unit))
  let place := length + exponent
  (rounded.take 15, if rounded.length > 15 then place + 1 else place)

/-- Digits with a point, and with an exponent when the number is below a ten-thousandth or has more
than fifteen digits before the point. -/
def placeDigits (ds : List Char) (place : Int) : List Char :=
  let power := place - 1
  if power < -4 ∨ 15 ≤ power then
    ds.take 1 ++ pointDigits (ds.drop 1) ++ 'e' :: (if power < 0 then '-' else '+')
      :: Text.padded 2 power.natAbs
  else if power < 0 then
    '0' :: pointDigits (List.replicate (-place).toNat '0' ++ ds)
  else ds.take place.toNat ++ pointDigits (ds.drop place.toNat)

/-- The text of a double in a column of texts. -/
def columnReal (x : Float) : String :=
  String.ofList <|
    match x.toModel.unpack with
    | .notANumber => []
    | .infinity s => signed (isNegative s) ['I', 'n', 'f']
    | .zero _ => ['0', '.', '0']
    | .finite s m e _ =>
      let (ds, place) := fifteenDigits ⟨m, e⟩
      signed (isNegative s) (placeDigits ds place)

end Bom
