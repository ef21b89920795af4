import Bom.Manufacture
import Bom.Order.Desk
import Bom.Order.Work
import Bom.Tree.Quantity

/-!
# Cascades of production orders

For a tree, orders are placed from the leaves up. A node that is made gets an order after the nodes
below it; it starts when the last of their orders is complete, and each of those orders is linked to
it. An order that is refused is left out, and the orders around it are placed as if it were not
there.

Only the root is ordered under the product that was asked for, and only the root carries the name,
the description, the routing and the sales order line of the request.

* `CascadeRequest`: what the orders have in common.
* `Workshop`: where orders are placed.
* `Node.order`: the orders of a subtree.
* `Workshop.run`: a quantity pass, and the orders of the whole tree.
-/

namespace Bom

/-- What the orders of a cascade have in common. -/
structure CascadeRequest where
  facility : Option String
  start : DateTime
  name : Option String
  description : Option String
  routing : Option String
  source : Option SourceLine
  shipment : Option String
  deriving DecidableEq

namespace CascadeRequest

/-- What the orders below take over: the facility, the start and the shipment. -/
def below (r : CascadeRequest) : CascadeRequest :=
  { r with name := none, description := none, routing := none, source := none }

/-- The name of an order for a product: the given name, else one made of the shipment. -/
def orderName (r : CascadeRequest) (product : String) : Option String :=
  r.name.or (r.shipment.map fun shipment => s!"SP_{shipment}_{product}")

end CascadeRequest

/-- The latest completion of some orders. -/
def latestCompletion (orders : List OrderRef) : Option DateTime :=
  orders.foldl (fun latest o =>
    if latest.all (· < o.completion) then some o.completion else latest) none

/-- Where orders are placed: the catalogue, the desk and the present. Whoever asks for the suppliers
of a product or writes an order down reads the clock anew. It is taken to stand still during a
cascade, so that there is one present for all of it. -/
structure Workshop (σ : Type) where
  catalogue : Catalogue
  desk : OrderDesk σ
  now : DateTime

namespace Workshop

variable {σ : Type}

/-- The order for a product in the given quantity, after the orders below it. -/
def orderRequest (r : CascadeRequest) (product : Product) (quantity : Float)
    (below : List OrderRef) : OrderRequest where
  product := product.id
  facility := r.facility.or product.facility
  quantity := quantity
  start := (latestCompletion below).getD r.start
  routing := r.routing
  name := r.orderName product.id
  description := r.description

/-- Places an order. A refusal is worth a notice. -/
def place (w : Workshop σ) (request : OrderRequest) : Work σ (Option OrderRef) := fun s =>
  match w.desk.place request s with
  | (s, .ok order) => (s, pure (some order))
  | (s, .error (.refused _)) => (s, ⟨[.orderRefused], .ok none⟩)
  | (s, .error .outOfCalendar) => (s, Noted.fail .outOfCalendar)

/-- Links an order to the sales order line of the request, if it names one. -/
def linkSource (w : Workshop σ) (r : CascadeRequest) (order : OrderRef) : Work σ Unit :=
  match r.source with
  | some source => Work.attempt .fulfillmentRefused (w.desk.fulfil order.id source)
  | none => pure ()

/-- Has an order wait for the orders below it. -/
def linkBelow (w : Workshop σ) (r : CascadeRequest) (order : OrderRef) :
    List OrderRef → Work σ Unit
  | [] => pure ()
  | child :: children => do
    Work.attempt .precedenceRefused (w.desk.precede child.id order.id r.start)
    w.linkBelow r order children

/-- Places the order for a product and links it. -/
def placeAndLink (w : Workshop σ) (r : CascadeRequest) (product : Product) (quantity : Float)
    (below : List OrderRef) : Work σ (Option OrderRef) := do
  match ← w.place (orderRequest r product quantity below) with
  | none => pure none
  | some order => do
    w.linkSource r order
    w.linkBelow r order below
    pure (some order)

end Workshop

/-- The product under which a node is ordered. -/
def orderedProduct (underReplaced : Bool) (self : Occurrence) (replaced : Option Occurrence) :
    Product :=
  if underReplaced then (replaced.getD self).product else self.product

mutual

/-- The orders of a subtree, and the order of its node if it gets one. -/
def Node.order {σ : Type} (w : Workshop σ) (r : CascadeRequest)
    (underReplaced ignoreSuppliers : Bool) : Node → Work σ (Option OrderRef)
  | .mk self replaced slots => do
    if ← Work.ofNoted (Noted.lift (ask
        ((Node.mk self replaced slots).isMade w.catalogue w.now ignoreSuppliers))) then
      let below ← slots.order w r.below
      w.placeAndLink r (orderedProduct underReplaced self replaced) self.quantity below
    else pure none

/-- The orders below the slots, and those of the nodes in them. -/
def Slots.order {σ : Type} (w : Workshop σ) (r : CascadeRequest) : Slots → Work σ (List OrderRef)
  | .nil => pure []
  | .vacant _ rest => rest.order w r
  | .filled _ child rest => do
    let order ← child.order w r false false
    let orders ← rest.order w r
    pure (order.toList ++ orders)

end

namespace Workshop

/-- A quantity pass through the tree and the orders of all its nodes. The root is ordered even if a
supplier delivers it. The tree comes back with its new quantities. -/
def run {σ : Type} (w : Workshop σ) (calculator : Option Calculator) (r : CascadeRequest)
    (t : Tree) (s : σ) : σ × Tree × Noted EngineError (Option OrderRef) :=
  let (t, pass) := t.flatten 0 false calculator
  match pass.outcome with
  | .error e => (s, t, ⟨pass.notices, .error e⟩)
  | .ok _ =>
    let (s, orders) := t.root.order w r true true s
    (s, t, ⟨pass.notices ++ orders.notices, orders.outcome⟩)

end Workshop

end Bom
