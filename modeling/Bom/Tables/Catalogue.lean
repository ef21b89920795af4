import Bom.Sorting
import Bom.Tables.Store

/-!
# The catalogue that tables give rise to

Questions to the catalogue become searches of the tables. Windows of validity are compared as texts,
for the texts of instants sort like the instants. A row that cannot be read fails the search that
finds it.

* `withinTexts`: a window of validity as texts.
* `ProductRow.read`, `AssociationRow.readEdge`, `RuleRow.read`: rows as products, edges and rules.
* `Tables.facilityLeadTime`: the lead time that facilities state.
* `Database.catalogue`: the answers, at a given present.
-/

namespace Bom

/-- The time lies in a window, all three being texts of instants. -/
def withinTexts (start : String) (stop : Option String) (time : String) : Bool :=
  start ≤ time && stop.all (time < ·)

namespace ProductRow

/-- The product of a row. -/
def read (r : ProductRow) : Except TableFault Product := do
  let id ← readText 0 "product_id" r.id
  let isVirtual ← r.isVirtual.readInteger 3 "is_virtual"
  let width ← r.width.readReal? 5 "width"
  let height ← r.height.readReal? 6 "height"
  let depth ← r.depth.readReal? 7 "depth"
  pure ⟨id, r.name, .ofKeyword r.kind, isVirtual ≠ 0, r.facility, width, height, depth⟩

end ProductRow

namespace AssociationRow

/-- The edge of a row. A quantity that is no finite number is missing, and so is a date that is
none. -/
def readEdge (r : AssociationRow) : Except TableFault Edge := do
  let scrap ← r.scrap.readReal? 4 "scrap_factor"
  let sequence ← r.sequence.readInteger 5 "sequence_num"
  pure {
    parent := r.product
    child := r.target
    bomType := r.type
    quantity := r.quantity.bind readFinite?
    scrap := scrap
    sequence := sequence
    routing := r.routing
    window := ⟨readColumn? r.start, r.stop.bind readColumn?⟩
    calcMethod := r.calcMethod }

/-- The product at the end of an edge from which edges are looked up. -/
def endOf (r : AssociationRow) : Direction → String
  | .components => r.product
  | .parents => r.target

/-- The association is of the given type and valid at the given time. -/
def isValid (r : AssociationRow) (type time : String) : Bool :=
  r.type = type && withinTexts r.start r.stop time

end AssociationRow

namespace RuleRow

/-- The rule of a row. -/
def read (r : RuleRow) : Except TableFault Rule := do
  let id ← readText 0 "rule_id" r.id
  let quantity ← r.quantity.readReal? 7 "quantity"
  let sequence ← r.sequence.readInteger 8 "rule_seq"
  pure {
    id := id
    context := r.context
    parent := r.parent
    component := r.component
    substitute := r.substitute
    condition := r.condition
    operator := r.operator.bind RuleOperator.ofKeyword?
    quantity := quantity
    sequence := sequence
    window := ⟨readColumn? r.start, r.stop.bind readColumn?⟩ }

/-- The row is one that a search of the given scope is about. -/
def isIn (r : RuleRow) : RuleScope → Bool
  | .context top above part =>
    r.context = some top && r.parent = some above && r.component = part
  | .link above part => r.context = none && r.parent = some above && r.component = part
  | .node part => r.context = none && r.parent = none && r.component = part

end RuleRow

/-- The row states something for a product, at the given facility if one is given. -/
def FacilityRow.isAt (r : FacilityRow) (product : String) (facility : Option String) : Bool :=
  r.product = product && facility.all (r.facility = ·)

namespace Tables

/-- The product with the given id. -/
def product (t : Tables) (id : String) : Except TableFault (Option Product) :=
  match t.products.rows.find? (·.id = some id) with
  | some row => row.read.map some
  | none => .ok none

/-- Associations by their sequence, and those of one sequence in their order. -/
def bySequence (rows : List AssociationRow) : List AssociationRow :=
  sortWith (fun a b => a.sequence.comesBefore b.sequence) rows

/-- The edges of a product in one direction. -/
def edges (t : Tables) (d : Direction) (product bomType : String) (routing : Option String)
    (asOf : DateTime) : Except TableFault (List Edge) :=
  (bySequence <| t.associations.rows.filter fun r =>
    r.endOf d = product && r.isValid bomType asOf.columnText && r.routing = routing).mapM
      AssociationRow.readEdge

/-- The product as which a product is made, by the association that began last, and by the last one
among those that began together. -/
def manufacturedAs (t : Tables) (product : String) (asOf : DateTime) : Option String :=
  let found := t.associations.rows.filter fun r =>
    r.product = product && r.isValid madeAsType asOf.columnText
  let latest := sortWith (fun a b => b.start ≤ a.start) found.reverse
  latest.head?.map (·.target)

/-- The virtual product that a product is a variant of, by the first association. -/
def virtualParent (t : Tables) (product : String) (asOf : DateTime) : Option String :=
  let found := t.associations.rows.find? fun r =>
    r.target = product && r.isValid variantType asOf.columnText
  found.map (·.product)

/-- The rules in a scope, in the order of their rows. -/
def rulesIn (t : Tables) (scope : RuleScope) (asOf : DateTime) : Except TableFault (List Rule) :=
  (t.rules.rows.filter fun r => r.isIn scope && withinTexts r.start r.stop asOf.columnText).mapM
    RuleRow.read

/-- The features of a product in one use, by feature. -/
def featuresOf (t : Tables) (product use : String) (asOf : DateTime) : List Feature :=
  let found := t.featureUses.rows.filter fun r =>
    r.product = product && r.use = use && withinTexts r.start r.stop asOf.columnText
  let byStart := sortWith (fun a b => a.start ≤ b.start) found
  let sorted := sortWith (fun a b => a.feature ≤ b.feature) byStart
  sorted.filterMap fun r =>
    (t.features.rows.find? (·.id = some r.feature)).map fun f => ⟨r.feature, f.kind⟩

/-- The variants of a virtual product with the features that set them apart. -/
def variantsOf (t : Tables) (family : String) (now : DateTime) : List Variant :=
  let found := t.associations.rows.filter fun r =>
    r.product = family && r.isValid variantType now.columnText
  (bySequence found).map fun r => ⟨r.target, t.featuresOf r.target distinguishingUse now⟩

/-- The products of the variants that a selection leaves. A variant without a product is passed
over. -/
def selectedVariants (t : Tables) (family : String) (selected : List Feature) (now : DateTime) :
    Except TableFault (List Product) := do
  let candidates := t.variantsOf family now
  let left := (matchingVariants candidates selected).filterMap fun i => candidates[i]?
  let found ← left.mapM fun v => t.product v.product
  pure (found.filterMap id)

/-- The lead time of the first facility that states one. -/
def facilityLeadTime (t : Tables) (product : String) (facility : Option String) :
    Except TableFault (Option Float) :=
  let found := t.facilities.rows.filter fun r => r.isAt product facility && r.leadTime.isFilled
  match sortWith (fun a b => a.facility ≤ b.facility) found with
  | r :: _ => (r.leadTime.readReal 0 "lead_time_days").map some
  | [] => .ok none

/-- A preferred supplier delivers the product. -/
def isSupplied (t : Tables) (product : String) (asOf : DateTime) : Bool :=
  t.suppliers.rows.any fun r =>
    r.product = product && r.preference = .integer 1 && withinTexts r.start r.stop asOf.columnText

/-- Some facility, or the given one, keeps the product in stock. -/
def isStocked (t : Tables) (product : String) (facility : Option String) : Bool :=
  t.facilities.rows.any fun r => r.isAt product facility && r.minimumStock.isFilled

end Tables

namespace Database

/-- The answers of the tables. Variants are those of the present, which is read anew at each lookup.
The clock is taken to stand still while a tree is built or orders are placed in cascade, so all
lookups have the same present here. -/
def catalogue (db : Database) (now : DateTime) : Catalogue where
  product id := db.read "product" (·.product id)
  edges d product bomType routing asOf :=
    db.read "product_assoc" (·.edges d product bomType routing asOf)
  manufacturedAs product asOf :=
    db.read "product_assoc" fun t => .ok (t.manufacturedAs product asOf)
  virtualParent product asOf :=
    db.read "product_assoc" fun t => .ok (t.virtualParent product asOf)
  rules scope asOf := db.read "manufacturing_rule" (·.rulesIn scope asOf)
  features product asOf :=
    db.read "product_feature_appl" fun t => .ok (t.featuresOf product standardUse asOf)
  variants family selected :=
    db.read "product_assoc" (·.selectedVariants family selected now)
  isSupplied product asOf :=
    db.read "supplier_product" fun t => .ok (t.isSupplied product asOf)
  isStocked product facility :=
    db.read "product_facility" fun t => .ok (t.isStocked product facility)
  leadTime product facility :=
    db.read "product_facility" (·.facilityLeadTime product facility)

end Database

end Bom
