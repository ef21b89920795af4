import Bom.Error
import Bom.Product
import Bom.Edge
import Bom.Rule

/-!
# The catalogue

The engine looks up products, edges, rules, features and stocking policies in a catalogue. A
catalogue is nothing but its answers: `Catalogue` lists the questions, and each answer may be an
error instead. The memory of a process and the tables of a database both give rise to one.
-/

namespace Bom

/-- Whether edges are looked up by their parent or by their child. -/
inductive Direction where
  | components
  | parents
  deriving DecidableEq, Repr

/-- The answers of a catalogue. Questions with a time are about what is valid then. -/
structure Catalogue where
  /-- the product with the given id -/
  product : String → Except StoreError (Option Product)
  /-- the edges of a product in one direction, for a type of bill and exactly the given routing, by
  ascending sequence -/
  edges : Direction → String → String → Option String → DateTime → Except StoreError (List Edge)
  /-- the product that a product is made as, if it is made as another one -/
  manufacturedAs : String → DateTime → Except StoreError (Option String)
  /-- the virtual product that a product is a variant of -/
  virtualParent : String → DateTime → Except StoreError (Option String)
  /-- the rules in a scope -/
  rules : RuleScope → DateTime → Except StoreError (List Rule)
  /-- the standard features of a product, which count as selected when none are named -/
  features : String → DateTime → Except StoreError (List Feature)
  /-- the variants of a virtual product that a selection of features leaves -/
  variants : String → List Feature → Except StoreError (List Product)
  /-- a preferred supplier delivers the product -/
  isSupplied : String → DateTime → Except StoreError Bool
  /-- a facility, or the given one, keeps the product in stock -/
  isStocked : String → Option String → Except StoreError Bool
  /-- the lead time in days that a facility, or the given one, states for the product -/
  leadTime : String → Option String → Except StoreError (Option Float)

end Bom
