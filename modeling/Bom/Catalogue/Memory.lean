import Bom.Catalogue.Basic
import Bom.Sorting

/-!
# A catalogue in memory

Products, edges, rules, variants, features, suppliers and facilities are kept as lists in the order
in which they were added. Windows of validity are compared as instants; variants, features and
suppliers are always valid. A product can be marked as failing, and every question about it is then
answered with an error.

* `MemoryCatalogue`: the lists.
* `MemoryCatalogue.catalogue`: the answers that they give.
-/

namespace Bom

/-- A variant of a virtual product. -/
structure VariantRecord where
  family : String
  variant : Variant
  deriving DecidableEq, Repr

/-- What a facility states for a product. With a minimum stock it keeps the product in stock. -/
structure FacilityRecord where
  product : String
  facility : String
  leadTime : Option Float
  minimumStock : Option Float
  deriving DecidableEq

/-- The facility is the given one, if one is given. -/
def FacilityRecord.isAt (r : FacilityRecord) (facility : Option String) : Bool :=
  facility.all (r.facility = ·)

/-- The lists of a catalogue in memory. -/
structure MemoryCatalogue where
  /-- at most one product per id, the last one added -/
  products : List Product
  edges : List Edge
  /-- at most one target per product, the last one added -/
  manufacturedAs : List (String × String)
  variants : List VariantRecord
  rules : List Rule
  features : List (String × Feature)
  supplied : List String
  facilities : List FacilityRecord
  /-- the products whose questions fail -/
  failing : List String

namespace MemoryCatalogue

/-- The catalogue that knows nothing. -/
def empty : MemoryCatalogue := ⟨[], [], [], [], [], [], [], [], []⟩

/-- Adds a product, in place of the one with its id. -/
def addProduct (c : MemoryCatalogue) (p : Product) : MemoryCatalogue :=
  { c with products := putBy Product.id p c.products }

/-- Adds an edge. -/
def addEdge (c : MemoryCatalogue) (e : Edge) : MemoryCatalogue :=
  { c with edges := c.edges ++ [e] }

/-- Adds a rule. -/
def addRule (c : MemoryCatalogue) (r : Rule) : MemoryCatalogue :=
  { c with rules := c.rules ++ [r] }

/-- Has a product made as another one. -/
def setManufacturedAs (c : MemoryCatalogue) (product target : String) : MemoryCatalogue :=
  { c with manufacturedAs := putBy Prod.fst (product, target) c.manufacturedAs }

/-- Adds a variant of a virtual product. -/
def addVariant (c : MemoryCatalogue) (family : String) (v : Variant) : MemoryCatalogue :=
  { c with variants := c.variants ++ [⟨family, v⟩] }

/-- Adds a standard feature of a product. -/
def addFeature (c : MemoryCatalogue) (product : String) (f : Feature) : MemoryCatalogue :=
  { c with features := c.features ++ [(product, f)] }

/-- Gives a product a preferred supplier. -/
def addSupplier (c : MemoryCatalogue) (product : String) : MemoryCatalogue :=
  { c with supplied := c.supplied ++ [product] }

/-- Has a facility keep a product in stock. -/
def addStocking (c : MemoryCatalogue) (product facility : String) (leadTime : Option Float) :
    MemoryCatalogue :=
  { c with facilities := c.facilities ++ [⟨product, facility, leadTime, some 0.0⟩] }

/-- Has a facility state a lead time for a product, without keeping it in stock. -/
def addLeadTime (c : MemoryCatalogue) (product facility : String) (leadTime : Float) :
    MemoryCatalogue :=
  { c with facilities := c.facilities ++ [⟨product, facility, some leadTime, none⟩] }

/-- Has every later question about a product fail. -/
def failFor (c : MemoryCatalogue) (product : String) : MemoryCatalogue :=
  { c with failing := c.failing ++ [product] }

/-- The error of a question about a failing product. -/
def failure (product : String) : StoreError :=
  .query s!"模拟查询失败: product_id={product}"

/-- Answers a question about a product, unless the product is failing. -/
def answer {α : Type} (c : MemoryCatalogue) (product : String) (a : α) : Except StoreError α :=
  if product ∈ c.failing then .error (failure product) else .ok a

/-- The product with the given id. -/
def product? (c : MemoryCatalogue) (id : String) : Option Product :=
  c.products.find? (·.id = id)

/-- The product at the end of an edge from which edges are looked up. -/
def endOf : Direction → Edge → String
  | .components, e => e.parent
  | .parents, e => e.child

/-- The edges of a product in one direction, by ascending sequence. -/
def edgesOf (c : MemoryCatalogue) (d : Direction) (product bomType : String)
    (routing : Option String) (asOf : DateTime) : List Edge :=
  sortBy Edge.sequence <| c.edges.filter fun e =>
    endOf d e = product && e.bomType = bomType && e.matchesRouting routing && e.validAt asOf

/-- The variants of a virtual product, in the order in which they were added. -/
def variantsOf (c : MemoryCatalogue) (family : String) : List Variant :=
  (c.variants.filter (·.family = family)).map (·.variant)

/-- The products of the variants that a selection leaves. A variant without a product is passed
over. -/
def selectedVariants (c : MemoryCatalogue) (family : String) (selected : List Feature) :
    List Product :=
  let candidates := c.variantsOf family
  (matchingVariants candidates selected).filterMap fun i =>
    candidates[i]?.bind fun v => c.product? v.product

/-- The answers of the lists. Searches for rules never fail. -/
def catalogue (c : MemoryCatalogue) : Catalogue where
  product id := c.answer id (c.product? id)
  edges d product bomType routing asOf :=
    c.answer product (c.edgesOf d product bomType routing asOf)
  manufacturedAs product _ :=
    c.answer product ((c.manufacturedAs.find? (·.1 = product)).map Prod.snd)
  virtualParent product _ :=
    c.answer product ((c.variants.find? (·.variant.product = product)).map (·.family))
  rules scope asOf := .ok (c.rules.filter fun r => scope.covers r && r.validAt asOf)
  features product _ := c.answer product ((c.features.filter (·.1 = product)).map Prod.snd)
  variants family selected := c.answer family (c.selectedVariants family selected)
  isSupplied product _ := c.answer product (decide (product ∈ c.supplied))
  isStocked product facility :=
    c.answer product <| c.facilities.any fun r =>
      r.product = product && r.minimumStock.isSome && r.isAt facility
  leadTime product facility :=
    c.answer product <|
      (c.facilities.filter fun r => r.product = product && r.isAt facility).findSome? (·.leadTime)

end MemoryCatalogue

end Bom
