import Bom.Notice
import Bom.Resolution
import Bom.Stock
import Bom.Tree.Basic

/-!
# Unfolding a bill of materials

A tree is built from the root downwards. At each place the edges are looked up, each edge is given
an occurrence or left vacant, and the occurrence is unfolded in turn if the mode says so. The room
that is left, the limit less the depth, shrinks by one at each level; when none is left, or when a
product occurs below itself, the build fails.

A routing has edges of its own. Where a product has none for it, the edges of the virtual product
that it replaced are taken, and then the generic edges of both.

* `Unfolding`: what stays the same while one tree is built.
* `Unfolding.edgesOf`: the edges of a place.
* `Unfolding.attach`: what the edge of a component leads to.
* `Unfolding.expand`: a place with everything below it.
* `buildTree`: a tree for a request.
-/

namespace Bom

/-- What stays the same while one tree is built. -/
structure Unfolding where
  catalogue : Catalogue
  bomType : String
  routing : Option String
  asOf : DateTime
  mode : Mode
  selected : List Feature
  /-- the id that the tree was asked for, whose rules count everywhere in it -/
  top : String
  maxDepth : Nat

/-- What an edge leads to: nothing, a product, or a product in the place of a virtual one. Numbers
are not given yet. -/
inductive Attachment where
  | vacant
  | plain (o : Occurrence)
  | replacing (component o : Occurrence)

namespace Unfolding

/-- The direction in which the mode looks up edges. -/
def direction (u : Unfolding) : Direction :=
  if u.mode.isExplosion then .components else .parents

/-- The routings whose edges are tried: the given one, and then none. -/
def routings (u : Unfolding) : List (Option String) :=
  match u.routing with
  | some r => [some r, none]
  | none => [none]

/-- Where edges are looked for: at the product and at the one it replaced, for each routing in turn.
-/
def sources (u : Unfolding) (product : String) (replaced : Option String) :
    List (Option String × String) :=
  u.routings.flatMap fun routing => (product :: replaced.toList).map fun p => (routing, p)

/-- The edges at the first source that has any. -/
def firstEdges (u : Unfolding) : List (Option String × String) → Except EngineError (List Edge)
  | [] => pure []
  | (routing, product) :: rest => do
    match ← ask (u.catalogue.edges u.direction product u.bomType routing u.asOf) with
    | [] => u.firstEdges rest
    | found => pure found

/-- The edges of a place, by ascending sequence. -/
def edgesOf (u : Unfolding) (self : Occurrence) (replaced : Option Occurrence) :
    Except EngineError (List Edge) := do
  let found ← u.firstEdges (u.sources self.product.id (replaced.map (·.product.id)))
  pure (sortBy Edge.sequence found)

/-- Where the components of a place stand. -/
def surroundings (u : Unfolding) (self : Occurrence) (replaced : Option Occurrence) :
    Surroundings :=
  ⟨u.top, self.product.id, replaced.map (·.product.id), u.selected, u.asOf⟩

/-- The component that an edge leads to, with the units and the scrap of the edge. -/
def component (edge : Edge) (product : Product) : Occurrence :=
  { Occurrence.detached 0 product with
    edge := some edge
    multiplier := quantityMultiplier edge.quantity
    scrap := scrapMultiplier edge.scrap }

/-- What the edge of a component leads to, once a virtual component has been resolved. -/
def attachComponent (u : Unfolding) (s : Surroundings) (edge : Edge) :
    Noted EngineError Attachment := do
  let product ← Noted.lift (u.catalogue.productOf edge.child)
  Noted.give (quantityNotices edge.quantity)
  Noted.give (scrapNotices edge.scrap)
  let found := component edge product
  match ← Noted.lift (resolve u.catalogue s product found.multiplier) with
  | .unchanged => pure (.plain found)
  | .removed _ _ => pure .vacant
  | .substituted substitute rule multiplier _ =>
    pure (.replacing found { found with product := substitute, rule, multiplier })

/-- What the edge of a product that uses this one leads to. Nothing is resolved or counted. -/
def attachUser (u : Unfolding) (edge : Edge) : Noted EngineError Attachment := do
  let product ← Noted.lift (u.catalogue.productOf edge.parent)
  pure (.plain { Occurrence.detached 0 product with edge := some edge })

/-- What an edge leads to. -/
def attach (u : Unfolding) (s : Surroundings) (edge : Edge) : Noted EngineError Attachment :=
  if u.mode.isExplosion then u.attachComponent s edge else u.attachUser edge

/-- Whether a place below the root is unfolded. -/
def descends (u : Unfolding) (self : Occurrence) (replaced : Option Occurrence) :
    Except EngineError Bool :=
  match u.mode with
  | .explosion => pure true
  | .implosion => pure true
  | .singleLevel => pure false
  | .manufacturing => do
    let stocked ← isWarehouseManaged u.catalogue self.product (replaced.map (·.product)) none
    pure !stocked

/-- A place below the root: unfolded by `grow` if the mode says so, else with nothing below it. The
next free number comes with it. -/
def settle (u : Unfolding)
    (grow : Occurrence → Option Occurrence → Nat → Noted EngineError (Node × Nat))
    (self : Occurrence) (replaced : Option Occurrence) (next : Nat) :
    Noted EngineError (Node × Nat) := do
  if ← Noted.lift (u.descends self replaced) then grow self replaced next
  else pure (.mk self replaced .nil, next)

/-- The slots for the given edges, numbered from `next` on, and the next free number. -/
def fill (u : Unfolding)
    (grow : Occurrence → Option Occurrence → Nat → Noted EngineError (Node × Nat))
    (s : Surroundings) : List Edge → Nat → Noted EngineError (Slots × Nat)
  | [], next => pure (.nil, next)
  | edge :: edges, next => do
    match ← u.attach s edge with
    | .vacant =>
      let (rest, next) ← u.fill grow s edges next
      pure (.vacant edge rest, next)
    | .plain o =>
      let (child, next) ← u.settle grow { o with number := next } none (next + 1)
      let (rest, next) ← u.fill grow s edges next
      pure (.filled edge child rest, next)
    | .replacing component o =>
      let (child, next) ←
        u.settle grow { o with number := next + 1 } (some { component with number := next })
          (next + 2)
      let (rest, next) ← u.fill grow s edges next
      pure (.filled edge child rest, next)

/-- A place with everything below it, and the next free number. `room` is how many levels may still
be unfolded, `above` the products on the way from the root. -/
def expand (u : Unfolding) :
    Nat → List String → Occurrence → Option Occurrence → Nat → Noted EngineError (Node × Nat)
  | 0, _, self, _, _ => Noted.fail (.maxDepth u.maxDepth self.product.id)
  | room + 1, above, self, replaced, next => do
    if self.product.id ∈ above then Noted.fail (.cycle self.product.id)
    else
      let edges ← Noted.lift (u.edgesOf self replaced)
      let grow := fun child childReplaced childNext =>
        u.expand room (self.product.id :: above) child childReplaced childNext
      let (slots, next) ← u.fill grow (u.surroundings self replaced) edges next
      pure (.mk { self with bomType := some u.bomType } replaced slots, next)

end Unfolding

/-- What a tree is asked for. -/
structure TreeRequest where
  product : String
  bomType : String
  /-- the time whose data count -/
  asOf : DateTime
  mode : Mode
  routing : Option String
  /-- the selected features, or none to take the standard features of the product -/
  features : Option (List Feature)
  deriving DecidableEq

namespace TreeRequest

/-- A product has edges for the routing or without one. -/
def hasBom (r : TreeRequest) (c : Catalogue) (product : String) : Except EngineError Bool := do
  let routed ← match r.routing with
    | some _ => ask (c.edges .components product r.bomType r.routing r.asOf)
    | none => pure []
  if routed.isEmpty then
    let generic ← ask (c.edges .components product r.bomType none r.asOf)
    pure !generic.isEmpty
  else pure true

/-- The product as which a product is made: another one if the catalogue says so, else itself. -/
def madeAs (r : TreeRequest) (c : Catalogue) (product : String) : Except EngineError String := do
  let target ← ask (c.manufacturedAs product r.asOf)
  pure (target.getD product)

/-- The product at the root: the one as which the requested product is made. If that has no bill but
is a variant, it is the one as which its virtual product is made. -/
def manufactured (r : TreeRequest) (c : Catalogue) (product : String) :
    Except EngineError String := do
  let target ← r.madeAs c product
  if ← r.hasBom c target then pure target
  else
    match ← ask (c.virtualParent target r.asOf) with
    | some family => r.madeAs c family
    | none => pure target

/-- The selected features of a request, for the product that was asked for. -/
def selected (r : TreeRequest) (c : Catalogue) (product : String) :
    Except EngineError (List Feature) :=
  match r.features with
  | some features => pure features
  | none => ask (c.features product r.asOf)

end TreeRequest

/-- The tree for a request, with at most `maxDepth` levels. -/
def buildTree (c : Catalogue) (maxDepth : Nat) (r : TreeRequest) : Noted EngineError Tree := do
  let product ← Noted.lift (c.productOf r.product)
  let target ← Noted.lift (r.manufactured c product.id)
  let made ← Noted.lift (if target = product.id then pure product else c.productOf target)
  let selected ← Noted.lift (r.selected c product.id)
  let requested := Occurrence.detached 0 product
  let redirected := if target = product.id then none else some requested
  let u : Unfolding :=
    ⟨c, r.bomType, r.routing, r.asOf, r.mode, selected, r.product, maxDepth⟩
  let (root, _) ← u.expand maxDepth [] (Occurrence.detached 1 made) redirected 2
  pure {
    root, requested
    requestedId := r.product
    manufacturedId := target
    rootQuantity := 1.0
    rootAmount := 0.0
    asOf := r.asOf
    bomType := r.bomType
    mode := r.mode
    routing := r.routing
    features := selected }

end Bom
