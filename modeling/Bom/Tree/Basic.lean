import Bom.Mode
import Bom.Product
import Bom.Rule

/-!
# Trees of a bill of materials

Unfolding a product gives a tree of occurrences. Each node has one slot per edge that leads on from
its product. A slot is empty when a rule leaves the component out; otherwise it holds the node of
the component, or of the product that has taken the place of a virtual component, which the node
then remembers.

Occurrences carry numbers in the order in which they came to be: 0 is the product that was asked
for, 1 is the root, and a replaced component comes just before its replacement. A subtree is
complete before the next slot is begun, so the numbers ascend along the tree.

* `Occurrence`: one product at one place.
* `Node`, `Slots`: a place with what lies below it.
* `Tree`: the root with the request it was built for.
* `Node.placed`: the nodes in pre-order, each with the occurrence above it.
* `Node.height`, `Node.unconfigured`: how deep the tree is, and what is still virtual in it.
-/

namespace Bom

/-- One product at one place of a tree. -/
structure Occurrence where
  number : Nat
  product : Product
  /-- the edge that leads to the place -/
  edge : Option Edge
  /-- the rule that put the product in the place of a virtual component -/
  rule : Option Rule
  /-- units per unit of the product above -/
  multiplier : Float
  /-- the factor for scrap -/
  scrap : Float
  /-- the type of bill by which the product was unfolded, if it was -/
  bomType : Option String
  /-- the level that the last quantity pass gave to the place, a machine word -/
  depth : UInt64
  /-- the quantity that the last quantity pass gave to the place -/
  quantity : Float
  deriving DecidableEq

namespace Occurrence

/-- An occurrence that no edge leads to. -/
def detached (number : Nat) (product : Product) : Occurrence :=
  ⟨number, product, none, none, 1.0, 1.0, none, 0, 0.0⟩

/-- The calculation that the edge names, a blank name being none. -/
def calculation (o : Occurrence) : Option String :=
  o.edge.bind Edge.calculation

end Occurrence

mutual

/-- A place of a tree: its occurrence, the occurrence that it has replaced, and its slots. -/
inductive Node where
  | mk (self : Occurrence) (replaced : Option Occurrence) (slots : Slots)

/-- The slots of a node, one for each edge. -/
inductive Slots where
  | nil
  | vacant (edge : Edge) (rest : Slots)
  | filled (edge : Edge) (child : Node) (rest : Slots)

end

namespace Node

/-- The occurrence at the node. -/
def self : Node → Occurrence
  | mk self _ _ => self

/-- The occurrence whose place the node has taken. -/
def replaced : Node → Option Occurrence
  | mk _ replaced _ => replaced

/-- The slots of the node. -/
def slots : Node → Slots
  | mk _ _ slots => slots

/-- A node with nothing below it. -/
def leaf (o : Occurrence) : Node := mk o none .nil

end Node

namespace Slots

/-- The edges of the slots. -/
def edges : Slots → List Edge
  | nil => []
  | vacant edge rest => edge :: rest.edges
  | filled edge _ rest => edge :: rest.edges

/-- What the slots hold. -/
def contents : Slots → List (Option Node)
  | nil => []
  | vacant _ rest => none :: rest.contents
  | filled _ child rest => some child :: rest.contents

/-- The nodes in the slots. -/
def nodes : Slots → List Node
  | nil => []
  | vacant _ rest => rest.nodes
  | filled _ child rest => child :: rest.nodes

/-- Some slot holds a node. -/
def hasNode : Slots → Bool
  | nil => false
  | vacant _ rest => rest.hasNode
  | filled _ _ _ => true

/-- There is one content for each edge. -/
@[simp] theorem length_contents : ∀ s : Slots, s.contents.length = s.edges.length
  | nil => rfl
  | vacant _ rest => by simp [contents, edges, rest.length_contents]
  | filled _ _ rest => by simp [contents, edges, rest.length_contents]

/-- The nodes are the contents, less the empty ones. -/
theorem filterMap_contents : ∀ s : Slots, s.contents.filterMap id = s.nodes
  | nil => rfl
  | vacant _ rest => rest.filterMap_contents
  | filled _ child rest => congrArg (child :: ·) rest.filterMap_contents

/-- Some slot holds a node just when there are nodes. -/
theorem hasNode_iff : ∀ s : Slots, s.hasNode = true ↔ s.nodes ≠ []
  | nil => by simp [hasNode, nodes]
  | vacant _ rest => by simpa [hasNode, nodes] using rest.hasNode_iff
  | filled _ _ _ => by simp [hasNode, nodes]

end Slots

/-- A node with the occurrence above it. -/
structure Placed where
  node : Node
  parent : Option Occurrence

mutual

/-- The nodes of a subtree in pre-order, below the given occurrence. -/
def Node.placed (parent : Option Occurrence) : Node → List Placed
  | .mk self replaced slots => ⟨.mk self replaced slots, parent⟩ :: slots.placed self

/-- The nodes below the slots of the given occurrence, in pre-order. -/
def Slots.placed (parent : Occurrence) : Slots → List Placed
  | .nil => []
  | .vacant _ rest => rest.placed parent
  | .filled _ child rest => child.placed (some parent) ++ rest.placed parent

end

/-- The nodes of a subtree in pre-order. -/
def Node.preorder (n : Node) : List Node :=
  (n.placed none).map (·.node)

mutual

/-- How many levels lie below the node. -/
def Node.height : Node → Nat
  | .mk _ _ slots => slots.height

/-- How many levels the slots reach down. -/
def Slots.height : Slots → Nat
  | .nil => 0
  | .vacant _ rest => rest.height
  | .filled _ child rest => max (child.height + 1) rest.height

end

mutual

/-- The virtual nodes below a node, in pre-order. Below a virtual node none is looked for. -/
def Node.unconfigured : Node → List Placed
  | .mk self _ slots => slots.unconfigured self

/-- The virtual nodes below the slots of the given occurrence. -/
def Slots.unconfigured (parent : Occurrence) : Slots → List Placed
  | .nil => []
  | .vacant _ rest => rest.unconfigured parent
  | .filled _ child rest =>
    (if child.self.product.isVirtual then [⟨child, some parent⟩] else child.unconfigured)
      ++ rest.unconfigured parent

end

/-- A tree with the request that it was built for. -/
structure Tree where
  root : Node
  /-- the product that was asked for, with number 0 -/
  requested : Occurrence
  /-- the id in the request -/
  requestedId : String
  /-- the id of the product at the root -/
  manufacturedId : String
  /-- the quantity that the next quantity pass starts from -/
  rootQuantity : Float
  /-- the amount that calculations are told -/
  rootAmount : Float
  asOf : DateTime
  bomType : String
  mode : Mode
  routing : Option String
  features : List Feature

namespace Tree

/-- The nodes in pre-order. -/
def preorder (t : Tree) : List Node := t.root.preorder

/-- The node with the given number. -/
def node? (t : Tree) (number : Nat) : Option Node :=
  t.preorder.find? (·.self.number = number)

/-- The products of the tree, each at its first place in pre-order. -/
def productIds (t : Tree) : List String :=
  (t.preorder.map (·.self.product.id)).eraseDups

/-- The greatest depth of a node, the root being at depth 0. -/
def maxDepth (t : Tree) : Nat := t.root.height

/-- The nodes that are still virtual, the root aside. -/
def unconfigured (t : Tree) : List Placed := t.root.unconfigured

/-- No node but the root is virtual as far as `unconfigured` looks. -/
def isConfigured (t : Tree) : Bool := t.unconfigured.isEmpty

end Tree

end Bom
