import Bom.Decimal.Shortest
import Bom.Order.Cascade
import Bom.Settings
import Bom.Text.Blank
import Bom.Tree.Build

/-!
# The service

The service answers questions about bills of materials and has production orders made. Each call
checks its numbers, builds a tree of its own and words the engine's errors for the caller.

* `Service`: a workshop with a calculator and settings.
* `Service.build`: a tree.
* `Service.components`: what goes directly into a product.
* `Service.lowLevelCode`: how deep a product occurs in others.
* `Service.netRequirements`: all that goes into a product.
* `Service.unconfiguredParts`: what has still to be chosen.
* `Service.make`: the production orders for a quantity of a product.
-/

namespace Bom

/-- Where the service works, and how. -/
structure Service (σ : Type) extends Workshop σ where
  calculator : Option Calculator
  settings : Settings

/-- What goes directly into a product. -/
structure ComponentLine where
  product : String
  name : Option String
  quantity : Float
  multiplier : Float
  scrap : Float
  sequence : Int
  isVirtual : Bool
  /-- the virtual product whose place it has taken -/
  replaced : Option String
  rule : Option String
  deriving DecidableEq

/-- A component that is still virtual, with the product that it goes into. -/
structure UnconfiguredPart where
  product : String
  parent : Option String
  deriving DecidableEq, Repr

/-- The production orders that are asked for. -/
structure MakeRequest where
  product : String
  quantity : Float
  amount : Float
  start : DateTime
  facility : Option String
  routing : Option String
  name : Option String
  description : Option String
  source : Option SourceLine
  shipment : Option String
  deriving DecidableEq

/-- A quantity is finite and not negative. -/
def checkQuantity (field : String) (q : Float) : Except ServiceError Unit :=
  if !q.isFinite || q < 0.0 then
    .error (.invalidInput (field ++ "必须为非负有限数: " ++ floatText q))
  else .ok ()

/-- A product id is not blank. -/
def checkProduct (id : String) : Except ServiceError Unit :=
  if Text.isBlankText id then .error (.invalidInput "产品ID不能为空") else .ok ()

/-- Words the error of the engine for the caller of the service. -/
def worded {α : Type} (x : Noted EngineError α) : Noted ServiceError α :=
  x.mapError ServiceError.ofEngine

/-- The line of a node. -/
def ComponentLine.ofNode (n : Node) : ComponentLine where
  product := n.self.product.id
  name := n.self.product.name
  quantity := n.self.quantity
  multiplier := n.self.multiplier
  scrap := n.self.scrap
  sequence := (n.self.edge.map Edge.sequence).getD 0
  isVirtual := n.self.product.isVirtual
  replaced := n.replaced.map (·.product.id)
  rule := n.self.rule.map Rule.id

namespace Service

variable {σ : Type}

/-- The tree for a request. A blank type of bill stands for the one of the settings. -/
def build (v : Service σ) (r : TreeRequest) : Noted ServiceError Tree := do
  Noted.lift (checkProduct r.product)
  let bomType := if Text.isBlankText r.bomType then v.settings.bomType else r.bomType
  worded (buildTree v.catalogue v.settings.maxDepth { r with bomType })

/-- The tree of a product in the type of bill of the settings. -/
def explode (v : Service σ) (product : String) (mode : Mode) (asOf : Option DateTime)
    (routing : Option String) : Noted ServiceError Tree :=
  v.build ⟨product, v.settings.bomType, asOf.getD v.now, mode, routing, none⟩

/-- The tree after a quantity pass, with the numbers of the nodes that it went through. -/
def count (v : Service σ) (t : Tree) (excludesWip : Bool) : Noted ServiceError (Tree × List Nat) :=
  let (t, pass) := t.flatten 0 excludesWip v.calculator
  worded (pass.mapValue fun numbers => (t, numbers))

/-- What goes directly into a quantity of a product. -/
def components (v : Service σ) (product : String) (quantity amount : Float)
    (asOf : Option DateTime) (routing : Option String) :
    Noted ServiceError (List ComponentLine) := do
  Noted.lift (checkQuantity "quantity" quantity)
  Noted.lift (checkQuantity "amount" amount)
  let tree ← v.explode product .singleLevel asOf routing
  let (tree, numbers) ← v.count { tree with rootQuantity := quantity, rootAmount := amount } false
  pure ((numbers.drop 1).filterMap fun n => (tree.node? n).map ComponentLine.ofNode)

/-- How deep the product occurs in the products that use it. -/
def lowLevelCode (v : Service σ) (product : String) (bomType : Option String)
    (asOf : Option DateTime) : Noted ServiceError Nat := do
  let bomType := (bomType.filter fun t => !Text.isBlankText t).getD v.settings.bomType
  let tree ← v.build ⟨product, bomType, asOf.getD v.now, .implosion, none, none⟩
  pure tree.maxDepth

/-- The quantities of all that goes into a quantity of a product, by product. -/
def netRequirements (v : Service σ) (product : String) (quantity : Float) (asOf : Option DateTime)
    (routing : Option String) (excludesWip : Option Bool) : Noted ServiceError Totals := do
  Noted.lift (checkQuantity "quantity" quantity)
  let tree ← v.explode product .explosion asOf routing
  let (tree, numbers) ← v.count { tree with rootQuantity := quantity }
    (excludesWip.getD v.settings.excludesWip)
  pure (tree.sumOver (numbers.drop 1))

/-- The components of a product that are still virtual. -/
def unconfiguredParts (v : Service σ) (product : String) (asOf : Option DateTime)
    (features : Option (List Feature)) : Noted ServiceError (List UnconfiguredPart) := do
  let tree ← v.build ⟨product, v.settings.bomType, asOf.getD v.now, .explosion, none, features⟩
  pure (tree.unconfigured.map fun p => ⟨p.node.self.product.id, p.parent.map (·.product.id)⟩)

/-- The tree that orders are made for, and what the orders have in common. -/
def plan (v : Service σ) (r : MakeRequest) : Noted ServiceError (Tree × CascadeRequest) := do
  Noted.lift (checkQuantity "quantity" r.quantity)
  Noted.lift (checkQuantity "amount" r.amount)
  let tree ← v.explode r.product .manufacturing (some r.start) r.routing
  pure ({ tree with rootQuantity := r.quantity, rootAmount := r.amount },
    { facility := r.facility.or v.settings.facility
      start := r.start
      name := r.name
      description := r.description
      routing := r.routing
      source := r.source
      shipment := r.shipment })

/-- The production orders for a quantity of a product, and the order for the product itself. -/
def make (v : Service σ) (r : MakeRequest) (s : σ) : σ × Noted ServiceError (Option OrderRef) :=
  let planned := v.plan r
  match planned.outcome with
  | .error e => (s, ⟨planned.notices, .error e⟩)
  | .ok (tree, request) =>
    let (s, _, orders) := v.toWorkshop.run v.calculator request tree s
    (s, ⟨planned.notices ++ orders.notices, (worded orders).outcome⟩)

end Service

end Bom
