import Bom.Tree.Basic

/-!
# A tree as a table

The occurrences of a tree, listed by number, form a table in which a place names others by their
numbers. The first row is the product that was asked for, the second the root.

* `Row`: one occurrence, with the numbers of what is above, below and replaced.
* `Tree.table`: the rows.
* `Tree.occurrences`: the occurrences of the rows.
-/

namespace Bom

/-- One occurrence with its place in the tree. -/
structure Row where
  self : Occurrence
  parent : Option Nat
  replaced : Option Nat
  edges : List Edge
  children : List (Option Nat)
  deriving DecidableEq

namespace Row

/-- The row of an occurrence that has nothing below it and has replaced nothing. -/
def bare (parent : Option Nat) (o : Occurrence) : Row :=
  ⟨o, parent, none, [], []⟩

end Row

/-- The row of a node. -/
def Node.row (parent : Option Nat) (n : Node) : Row :=
  ⟨n.self, parent, n.replaced.map (·.number), n.slots.edges,
    n.slots.contents.map fun c => c.map (·.self.number)⟩

mutual

/-- The rows of a subtree, those of replaced components below the node among them. -/
def Node.rows (parent : Option Nat) : Node → List Row
  | .mk self replaced slots => (Node.mk self replaced slots).row parent :: slots.rows self.number

/-- The rows below the slots of the occurrence with the given number. -/
def Slots.rows (parent : Nat) : Slots → List Row
  | .nil => []
  | .vacant _ rest => rest.rows parent
  | .filled _ child rest =>
    (child.replaced.map (Row.bare (some parent))).toList ++ child.rows (some parent)
      ++ rest.rows parent

end

namespace Tree

/-- The rows of a tree, by number. -/
def table (t : Tree) : List Row :=
  Row.bare none t.requested :: t.root.rows none

/-- The occurrences of a tree, by number. -/
def occurrences (t : Tree) : List Occurrence :=
  t.table.map (·.self)

/-- The numbers of the nodes in pre-order. -/
def numbers (t : Tree) : List Nat :=
  t.preorder.map (·.self.number)

end Tree

end Bom
