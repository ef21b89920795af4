import Bom.Notice
import Bom.Error
import Bom.Tree.Table

/-!
# Quantities

A quantity pass walks a tree in pre-order and gives each node a quantity and a level: the quantity
of the node above, times the units of the edge, times the factor for scrap. An explosion lets an
edge name a calculation instead, and then a calculator is asked. Work in process can be passed over
with everything below it.

A calculation that fails ends the pass, and the nodes before it keep what the pass gave them.

Levels are counted in machine words: after the greatest word comes 0 again.

* `Calculator`: a calculation by name.
* `Pass`: what stays the same during one pass.
* `Loop`, `Pass.turn`: a pass over the table of a tree, with a stack of the places to count.
* `Tree.flatten`: one pass, and the numbers of the nodes it went through.
* `Totals`: quantities by product.
-/

namespace Bom

/-- What a calculation is told. Missing dimensions are 0. -/
structure CalculationInput where
  product : String
  /-- the quantity of the node above times the units of the edge -/
  needed : Float
  /-- the amount of the root -/
  amount : Float
  width : Float
  height : Float
  depth : Float
  deriving DecidableEq

/-- A calculation by name: a value, or none, or the text of a failure. -/
abbrev Calculator := String → CalculationInput → Except String (Option Float)

/-- What stays the same during one pass. -/
structure Pass where
  calculator : Option Calculator
  amount : Float
  /-- edges may name calculations -/
  calculates : Bool
  /-- work in process below the root is passed over -/
  excludesWip : Bool

namespace Pass

/-- The quantity of the node above, times the units, times the factor for scrap. -/
def formula (o : Occurrence) (above : Float) : Float :=
  above * o.multiplier * o.scrap

/-- What the calculation for an occurrence is told. -/
def input (p : Pass) (o : Occurrence) (above : Float) : CalculationInput where
  product := o.product.id
  needed := above * o.multiplier
  amount := p.amount
  width := o.product.width.getD 0.0
  height := o.product.height.getD 0.0
  depth := o.product.depth.getD 0.0

/-- The calculation that counts for an occurrence. -/
def calculation (p : Pass) (o : Occurrence) : Option String :=
  if p.calculates then o.calculation else none

/-- The quantity of an occurrence below the given quantity. -/
def quantityOf (p : Pass) (o : Occurrence) (above : Float) : Noted EngineError Float :=
  match p.calculation o with
  | none => pure (formula o above)
  | some method =>
    match p.calculator with
    | none => ⟨[.calculatorMissing], .ok (formula o above)⟩
    | some calculate =>
      match calculate method (p.input o above) with
      | .ok (some q) => pure q
      | .ok none => ⟨[.calculatorSilent], .ok (formula o above)⟩
      | .error text => Noted.fail (.calculation method text)

/-- A node is passed over with everything below it. -/
def skips (p : Pass) (n : Node) : Bool :=
  p.excludesWip && n.self.product.isWip

end Pass

/-- The row with another quantity and level. -/
def Row.count (row : Row) (quantity : Float) (depth : UInt64) : Row :=
  { row with self := { row.self with quantity, depth } }

/-- A place that a pass has still to count: its number, the quantity above it and its level. -/
structure Pending where
  number : Nat
  above : Float
  depth : UInt64

/-- A pass over the table of a tree on its way: the places that it has still to count, the next one
first, the table, and the numbers of the places that it has counted, or its failure. -/
structure Loop where
  stack : List Pending
  rows : List Row
  result : Noted EngineError (List Nat)

namespace Pass

/-- The places below a row that the pass goes on with, those that it passes over left out. -/
def below (p : Pass) (rows : List Row) (row : Row) : List Nat :=
  (row.children.filterMap id).filter fun n =>
    !rows[n]?.any fun child => p.excludesWip && child.self.product.isWip

/-- One turn of the loop: the place on top of the stack gets its quantity and its level, where its
row stands in the table, and the places below it are put on the stack, the last one first. A place
that cannot be counted ends the loop, and where the stack is empty there is nothing to do. -/
def turn (p : Pass) (l : Loop) : Loop :=
  match l.stack with
  | [] => l
  | next :: stack =>
    match l.rows[next.number]? with
    | none => l
    | some row =>
      let counted := p.quantityOf row.self next.above
      let result := l.result.andThen fun numbers =>
        counted.mapValue fun _ => numbers ++ [next.number]
      match counted.outcome with
      | .error _ => { l with stack := [], result }
      | .ok quantity =>
        let row := row.count quantity next.depth
        let rows := l.rows.set next.number row
        let pending : List Pending := (p.below rows row).map (⟨·, quantity, next.depth + 1⟩)
        ⟨pending.reverse.foldl (fun stack place => place :: stack) stack, rows, result⟩

/-- The loop after some turns. -/
def turns (p : Pass) : Nat → Loop → Loop
  | 0, l => l
  | n + 1, l => p.turns n (p.turn l)

end Pass

mutual

/-- The subtree with its new quantities and levels, and the numbers of the nodes that were gone
through. -/
def Node.pass (p : Pass) (above : Float) (depth : UInt64) :
    Node → Node × Noted EngineError (List Nat)
  | .mk self replaced slots =>
    let counted := p.quantityOf self above
    match counted.outcome with
    | .error e => (.mk self replaced slots, ⟨counted.notices, .error e⟩)
    | .ok quantity =>
      let (slots, below) := slots.pass p quantity (depth + 1)
      (.mk { self with quantity, depth } replaced slots,
        ⟨counted.notices ++ below.notices, below.outcome.map (self.number :: ·)⟩)

/-- The slots with the new quantities and levels of their subtrees. -/
def Slots.pass (p : Pass) (above : Float) (depth : UInt64) :
    Slots → Slots × Noted EngineError (List Nat)
  | .nil => (.nil, pure [])
  | .vacant edge rest =>
    let (rest, result) := rest.pass p above depth
    (.vacant edge rest, result)
  | .filled edge child rest =>
    if p.skips child then
      let (rest, result) := rest.pass p above depth
      (.filled edge child rest, result)
    else
      let (child, first) := child.pass p above depth
      match first.outcome with
      | .error e => (.filled edge child rest, ⟨first.notices, .error e⟩)
      | .ok numbers =>
        let (rest, second) := rest.pass p above depth
        (.filled edge child rest,
          ⟨first.notices ++ second.notices, second.outcome.map (numbers ++ ·)⟩)

end

namespace Tree

/-- The pass of a tree. -/
def passOf (t : Tree) (calculator : Option Calculator) (excludesWip : Bool) : Pass :=
  ⟨calculator, t.rootAmount, t.mode.isExplosion, excludesWip⟩

/-- The tree after a pass from its root quantity and the given level, and the numbers of the nodes
that the pass went through, in pre-order. It is told by recursion on the tree, and `Pass.turn` does
the same to the table, one place after the other. -/
def flatten (t : Tree) (depth : UInt64) (excludesWip : Bool) (calculator : Option Calculator) :
    Tree × Noted EngineError (List Nat) :=
  let (root, result) := t.root.pass (t.passOf calculator excludesWip) t.rootQuantity depth
  ({ t with root }, result)

end Tree

/-- Quantities by product, by ascending product id. -/
abbrev Totals := List (String × Float)

namespace Totals

/-- Adds a quantity to a product, which starts at 0. -/
def add (product : String) (quantity : Float) : Totals → Totals
  | [] => [(product, 0.0 + quantity)]
  | (p, q) :: rest =>
    if product = p then (p, q + quantity) :: rest
    else if product < p then (product, 0.0 + quantity) :: (p, q) :: rest
    else (p, q) :: add product quantity rest

/-- The sums of the quantities of the given occurrences, added from left to right. -/
def ofOccurrences (os : List Occurrence) : Totals :=
  os.foldl (fun totals o => totals.add o.product.id o.quantity) []

end Totals

namespace Tree

/-- The sums over the occurrences with the given numbers. -/
def sumOver (t : Tree) (numbers : List Nat) : Totals :=
  let occurrences := t.occurrences
  Totals.ofOccurrences (numbers.filterMap fun n => occurrences[n]?)

/-- The sums over all nodes, with the quantities that they have now. -/
def sum (t : Tree) : Totals :=
  t.sumOver t.numbers

end Tree

end Bom
