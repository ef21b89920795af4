import Bom.Calendar.Format
import Bom.Catalogue.Basic
import Bom.Tables.Fault

/-!
# Storing a catalogue in tables

Products, edges, rules, features, suppliers and facilities are written as rows. Where the table has
a key, a new row takes the place of the row with its key and goes to the end; associations are never
replaced, and their numbers never used again. Instants are stored without the fraction of their
second, and quantities of edges as text.

* `Database.putProduct`, `putRule`, `putSupplier`, `putFacility`: rows with a key.
* `Database.addEdge`, `addAssociation`: associations.
* `Database.applyFeature`: a feature and its use by a product.
-/

namespace Bom

namespace ProductRow

/-- The row of a product. -/
def ofProduct (p : Product) : ProductRow where
  id := some p.id
  name := p.name
  kind := p.kind.keyword
  isVirtual := .integer (if p.isVirtual then 1 else 0)
  facility := p.facility
  width := .ofFloat? p.width
  height := .ofFloat? p.height
  depth := .ofFloat? p.depth

end ProductRow

namespace Window

/-- The start of a window as it is stored: the epoch when it is open. -/
def startText (w : Window) : String := (w.start.getD DateTime.epoch).columnText

/-- The end of a window as it is stored. -/
def stopText (w : Window) : Option String := w.stop.map DateTime.columnText

end Window

namespace AssociationRow

/-- The row of an edge. -/
def ofEdge (e : Edge) : AssociationRow where
  product := e.parent
  target := e.child
  type := e.bomType
  quantity := e.quantity.map floatText
  scrap := .ofFloat? e.scrap
  sequence := .integer e.sequence
  routing := e.routing
  start := e.window.startText
  stop := e.window.stopText
  calcMethod := e.calcMethod

/-- The row of an association that is no edge. -/
def link (product target type : String) (start : DateTime) : AssociationRow where
  product := product
  target := target
  type := type
  quantity := none
  scrap := .null
  sequence := .integer 0
  routing := none
  start := start.columnText
  stop := none
  calcMethod := none

end AssociationRow

namespace RuleRow

/-- The row of a rule. -/
def ofRule (r : Rule) : RuleRow where
  id := some r.id
  context := r.context
  parent := r.parent
  component := r.component
  substitute := r.substitute
  condition := r.condition
  operator := r.operator.map RuleOperator.keyword
  quantity := .ofFloat? r.quantity
  sequence := .integer r.sequence
  start := r.window.startText
  stop := r.window.stopText

end RuleRow

namespace Tables

/-- Puts a product in the place of the one with its id. -/
def putProduct (t : Tables) (p : Product) : Tables :=
  { t with products := t.products.put ProductRow.id (.ofProduct p) }

/-- The number of the next association, which is one more than any association ever had. None is
left after the greatest word. -/
def nextAssociation (t : Tables) : Except TableFault Int :=
  if t.lastAssociation < maxWord then .ok (t.lastAssociation + 1) else .error .full

/-- Adds an association under the next number. -/
def addAssociation (t : Tables) (row : AssociationRow) : Except TableFault (Tables × Int) :=
  t.nextAssociation.map fun n =>
    ({ t with associations := t.associations.insertAt n row, lastAssociation := n }, n)

/-- Puts a rule in the place of the one with its id. -/
def putRule (t : Tables) (r : Rule) : Tables :=
  { t with rules := t.rules.put RuleRow.id (.ofRule r) }

/-- Notes a feature down, unless one with its id is known. -/
def noteFeature (t : Tables) (f : Feature) : Tables :=
  if t.features.rows.any (·.id = some f.id) then t
  else { t with features := t.features.add ⟨some f.id, f.kind, none⟩ }

/-- Has a product use a feature from some time on. -/
def applyFeature (t : Tables) (product : String) (f : Feature) (use : String) (start : DateTime) :
    Tables :=
  let t := t.noteFeature f
  let row : FeatureUseRow := ⟨product, f.id, use, start.columnText, none⟩
  { t with featureUses := t.featureUses.put (fun r => (r.product, r.feature, r.start)) row }

/-- Puts a supplier in the place of the one with its key. -/
def putSupplier (t : Tables) (product party : String) (preference : Int) (start : DateTime)
    (stop : Option DateTime) : Tables :=
  let row : SupplierRow :=
    ⟨product, party, .integer preference, start.columnText, stop.map DateTime.columnText⟩
  { t with suppliers := t.suppliers.put (fun r => (r.product, r.party, r.start)) row }

/-- Puts what a facility states for a product in the place of what it stated before. -/
def putFacility (t : Tables) (product facility : String) (leadTime minimumStock : Option Float) :
    Tables :=
  let row : FacilityRow := ⟨product, facility, .ofFloat? leadTime, .ofFloat? minimumStock⟩
  { t with facilities := t.facilities.put (fun r => (r.product, r.facility)) row }

end Tables

namespace Database

/-- Changes the tables in a way that nothing refuses. -/
def update (db : Database) (table : String) (f : Tables → Tables) :
    Database × Except StoreError Unit :=
  db.write table fun t => .ok (f t, ())

/-- Puts a product in the place of the one with its id. -/
def putProduct (db : Database) (p : Product) : Database × Except StoreError Unit :=
  db.update "product" (·.putProduct p)

/-- Adds an edge and returns its number. -/
def addEdge (db : Database) (e : Edge) : Database × Except StoreError Int :=
  db.write "product_assoc" (·.addAssociation (.ofEdge e))

/-- Adds an association that is no edge. -/
def addAssociation (db : Database) (product target type : String) (start : DateTime) :
    Database × Except StoreError Unit :=
  db.write "product_assoc" fun t =>
    (t.addAssociation (.link product target type start)).map fun (t, _) => (t, ())

/-- Puts a rule in the place of the one with its id. -/
def putRule (db : Database) (r : Rule) : Database × Except StoreError Unit :=
  db.update "manufacturing_rule" (·.putRule r)

/-- Has a product use a feature from some time on. A feature that is known keeps the kind it has. -/
def applyFeature (db : Database) (product : String) (f : Feature) (use : String)
    (start : DateTime) : Database × Except StoreError Unit :=
  db.update "product_feature" (·.applyFeature product f use start)

/-- Puts a supplier in the place of the one with its key. -/
def putSupplier (db : Database) (product party : String) (preference : Int) (start : DateTime)
    (stop : Option DateTime) : Database × Except StoreError Unit :=
  db.update "supplier_product" (·.putSupplier product party preference start stop)

/-- Puts what a facility states for a product in the place of what it stated before. -/
def putFacility (db : Database) (product facility : String) (leadTime minimumStock : Option Float) :
    Database × Except StoreError Unit :=
  db.update "product_facility" (·.putFacility product facility leadTime minimumStock)

end Database

end Bom
