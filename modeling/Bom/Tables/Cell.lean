import Bom.Tables.Number

/-!
# Cells of a table

A cell holds nothing, a whole number, a double or a text. A column has an affinity, a kind of value
that it prefers: what is put into the column is turned into that kind where nothing is lost by it,
and is kept as it is otherwise. So a column of doubles can hold a text.

* `Cell`: what a column holds.
* `Affinity.store`: what a column makes of a value that is put into it.
* `Cell.ofFloat`: a double as a column of doubles holds it.
-/

namespace Bom

/-- What a column holds. -/
inductive Cell where
  | null
  | integer (value : Int)
  | real (value : Float)
  | text (value : String)
  deriving DecidableEq

namespace Cell

/-- The name of the kind of value in a cell. -/
def kindName : Cell → String
  | null => "Null"
  | integer _ => "Integer"
  | real _ => "Real"
  | text _ => "Text"

/-- The cell holds something. -/
def isFilled : Cell → Bool
  | null => false
  | _ => true

/-- A double as a column of doubles holds it: not-a-number is nothing, and zero has no sign. -/
def ofFloat (x : Float) : Cell :=
  if x.isNaN then null else real (x + 0.0)

/-- A missing double is nothing. -/
def ofFloat? : Option Float → Cell
  | some x => ofFloat x
  | none => null

/-- The order of cells in a listing: nothing, then numbers, then texts. -/
def comesBefore : Cell → Cell → Bool
  | null, _ => true
  | _, null => false
  | integer a, integer b => a ≤ b
  | integer a, real b => (compareInt a b).isLE
  | real a, integer b => (compareInt b a).isGE
  | real a, real b => a ≤ b
  | text a, text b => a ≤ b
  | text _, _ => false
  | _, text _ => true

end Cell

/-- A text that is a number, as a whole number where it is written as one or equals one. -/
def numberOfText? (s : String) : Option Cell :=
  let cs := trimAscii s.toList
  (Numeral.read? columnPower cs).map fun n =>
    let whole : Int := if n.negative then -(n.digits : Int) else n.digits
    if isWholeText cs ∧ minWord ≤ whole ∧ whole ≤ maxWord then .integer whole
    else
      let x := n.columnFloat
      match wholeOf? x with
      | some i => .integer i
      | none => .real x

/-- The kind of value that a column prefers. -/
inductive Affinity where
  | text
  | integer
  | real
  deriving DecidableEq, Repr

namespace Affinity

/-- A number in a column of doubles. -/
def toReal : Cell → Cell
  | .integer i => .real (Float.ofInt i)
  | .real x => Cell.ofFloat x
  | c => c

/-- A number in a column of whole numbers. -/
def toInteger : Cell → Cell
  | .real x =>
    match wholeOf? x with
    | some i => .integer i
    | none => Cell.ofFloat x
  | c => c

/-- What a column makes of a value that is put into it. -/
def store : Affinity → Cell → Cell
  | .text, .integer i => .text (toString i)
  | .text, .real x => if x.isNaN then .null else .text (columnReal x)
  | .text, c => c
  | .integer, .text s => (numberOfText? s).getD (.text s)
  | .integer, c => toInteger c
  | .real, .text s => toReal ((numberOfText? s).getD (.text s))
  | .real, c => toReal c

end Affinity

end Bom
