import Bom.Calendar.Span
import Bom.Stock
import Bom.Tree.Basic

/-!
# What is made, and when it has to be begun

A node is made when something goes into it and no preferred supplier delivers it. Work in process is
begun its lead time before it is due, and what goes into it is due when it is begun.

* `Node.isMade`: whether a node is made.
* `Node.startDate`: when the first thing below a node has to be begun.
-/

namespace Bom

/-- The node is made: some slot holds a node and, unless suppliers are ignored, no preferred
supplier delivers the product now. -/
def Node.isMade (c : Catalogue) (now : DateTime) (ignoreSuppliers : Bool) (n : Node) :
    Except StoreError Bool :=
  if !n.slots.hasNode then pure false
  else if ignoreSuppliers then pure true
  else (c.isSupplied n.self.product.id now).map (!·)

/-- A warehouse manages the product of the node. -/
def Node.isManaged (c : Catalogue) (facility : Option String) (n : Node) :
    Except EngineError Bool :=
  isWarehouseManaged c n.self.product (n.replaced.map (·.product)) facility

/-- An instant the lead time of a product before the given one. -/
def beginBefore (c : Catalogue) (facility : Option String) (product : String) (due : DateTime) :
    Except EngineError DateTime := do
  let lead ← ask (c.leadTime product facility)
  match due.before? (lead.getD 0.0) with
  | some start => pure start
  | none => throw .outOfCalendar

mutual

/-- When the first thing in the subtree has to be begun so that the node is ready when it is due.
Only work in process, or a node that is forced, takes its lead time into account and looks below. -/
def Node.startDate (c : Catalogue) (facility : Option String) (due : DateTime) (forced : Bool) :
    Node → Except EngineError DateTime
  | .mk self _ slots =>
    if self.product.isWip || forced then do
      let start ← beginBefore c facility self.product.id due
      slots.startDate c facility start
    else pure due

/-- The earliest start below the slots, each node being due at the earliest start found so far. -/
def Slots.startDate (c : Catalogue) (facility : Option String) (earliest : DateTime) :
    Slots → Except EngineError DateTime
  | .nil => pure earliest
  | .vacant _ rest => rest.startDate c facility earliest
  | .filled _ child rest => do
    let start ← child.startDate c facility earliest false
    rest.startDate c facility (if start < earliest then start else earliest)

end

end Bom
