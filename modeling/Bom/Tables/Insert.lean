import Bom.Tables.Schema
import Bom.Tables.Store

/-!
# Putting a row into a table

A row is given by some of its columns and, perhaps, by its number. The other columns take their
standard values, every value is stored as its column prefers, and then the row is checked: whether
its number is whole, the columns that have to be filled, whether the number and then the key are
free, and the rows that it refers to, in this order. A row that fails a check is not put there.

* `TableName.cells`: the cells of a row.
* `Tables.rowNumber`: the number of a row.
* `Tables.insert`: the tables with one more row.
* `Database.insertRow`: the same for a database, with tables and columns by name.
-/

namespace Bom

/-- The text in a cell. -/
def Cell.text? : Cell → Option String
  | .text s => some s
  | _ => none

/-- The text in a cell of a column of texts that has to be filled. -/
def Cell.filledText (c : Cell) : String := c.text?.getD ""

namespace TableName

/-- The first name that is given and that no column has. -/
def unknownColumn? (t : TableName) (given : List (String × Cell)) : Option String :=
  (given.map Prod.fst).find? fun name => !(t.columns.any (·.isNamed name) || t.isNumberName name)

/-- The cells of a row of which some columns are given. Of a column that is given twice the first
value counts. -/
def cells (t : TableName) (given : List (String × Cell)) : List Cell :=
  t.columns.map fun c =>
    c.affinity.store (((given.find? fun (name, _) => c.isNamed name).map Prod.snd).getD c.standard)

/-- The number that is given to a row, the last one if there are several. -/
def givenNumber (t : TableName) (given : List (String × Cell)) : Cell :=
  let numbers := given.filter fun (name, _) => t.isNumberName name
  Affinity.integer.store ((numbers.getLast?.map Prod.snd).getD .null)

/-- The first column that has to be filled and is not. -/
def unfilled? (t : TableName) (cells : List Cell) : Option Column :=
  ((t.columns.zip cells).find? fun (c, cell) => c.filled && !cell.isFilled).map Prod.fst

/-- A table with one more row, unless the number of the row or its key is taken. -/
def extend {α : Type} (t : TableName) (table : Table α) (number : Int) (row : α)
    (clashes : α → Bool) : Except TableFault (Table α) :=
  if table.hasNumber number then .error (.notUnique t.label [t.numberColumn])
  else if table.rows.any clashes then .error (.notUnique t.label t.keyColumns)
  else .ok (table.insertAt number row)

end TableName

/-- Fails when a row refers to one that does not exist. -/
def checkReference (found : Bool) : Except TableFault Unit :=
  if found then .ok () else .error .noReference

/-- Two keys of which neither is missing are the same. -/
def sameKey (a b : Option String) : Bool := a.isSome && a = b

namespace Tables

/-- There is an order with the given id. -/
def hasOrder (t : Tables) (id : String) : Bool := t.orders.rows.any (·.id = some id)

/-- There is a feature with the given id. -/
def hasFeature (t : Tables) (id : String) : Bool := t.features.rows.any (·.id = some id)

/-- The number of a row that is given none. -/
def nextNumber (t : Tables) : TableName → Except TableFault Int
  | .versions => .ok t.versions.nextNumber
  | .settings => .ok t.settings.nextNumber
  | .products => .ok t.products.nextNumber
  | .associations => t.nextAssociation
  | .rules => .ok t.rules.nextNumber
  | .features => .ok t.features.nextNumber
  | .featureUses => .ok t.featureUses.nextNumber
  | .suppliers => .ok t.suppliers.nextNumber
  | .facilities => .ok t.facilities.nextNumber
  | .orders => .ok t.orders.nextNumber
  | .fulfilments => .ok t.fulfilments.nextNumber
  | .precedences => .ok t.precedences.nextNumber

/-- The number of a row: the given one, which has to be whole, or the next. -/
def rowNumber (t : Tables) (table : TableName) : Cell → Except TableFault Int
  | .null => t.nextNumber table
  | .integer i => .ok i
  | _ => .error .mismatch

/-- The tables with one more row, once its number is known and its columns are filled. -/
def append (t : Tables) (number : Int) : TableName → List Cell → Except TableFault Tables
  | .versions, [appliedAt] => do
    let row : VersionRow := ⟨appliedAt.filledText⟩
    let versions ← TableName.versions.extend t.versions number row fun _ => false
    pure { t with versions }
  | .settings, [scope, key, value] => do
    let row : SettingRow := ⟨scope.filledText, key.filledText, value.filledText⟩
    let settings ← TableName.settings.extend t.settings number row fun r =>
      r.scope = row.scope ∧ r.key = row.key
    pure { t with settings }
  | .products, [id, name, kind, isVirtual, facility, width, height, depth] => do
    let row : ProductRow :=
      ⟨id.text?, name.text?, kind.filledText, isVirtual, facility.text?, width, height, depth⟩
    let products ← TableName.products.extend t.products number row fun r => sameKey r.id row.id
    pure { t with products }
  | .associations,
      [product, target, type, quantity, scrap, sequence, routing, start, stop, method] => do
    let row : AssociationRow :=
      ⟨product.filledText, target.filledText, type.filledText, quantity.text?, scrap, sequence,
        routing.text?, start.filledText, stop.text?, method.text?⟩
    let associations ← TableName.associations.extend t.associations number row fun _ => false
    pure { t with associations, lastAssociation := max t.lastAssociation number }
  | .rules,
      [id, context, parent, component, substitute, condition, operator, quantity, sequence, start,
       stop] => do
    let row : RuleRow :=
      ⟨id.text?, context.text?, parent.text?, component.filledText, substitute.text?,
        condition.text?, operator.text?, quantity, sequence, start.filledText, stop.text?⟩
    let rules ← TableName.rules.extend t.rules number row fun r => sameKey r.id row.id
    pure { t with rules }
  | .features, [id, kind, description] => do
    let row : FeatureRow := ⟨id.text?, kind.filledText, description.text?⟩
    let features ← TableName.features.extend t.features number row fun r => sameKey r.id row.id
    pure { t with features }
  | .featureUses, [product, feature, use, start, stop] => do
    let row : FeatureUseRow :=
      ⟨product.filledText, feature.filledText, use.filledText, start.filledText, stop.text?⟩
    let featureUses ← TableName.featureUses.extend t.featureUses number row fun r =>
      r.product = row.product ∧ r.feature = row.feature ∧ r.start = row.start
    checkReference (t.hasFeature row.feature)
    pure { t with featureUses }
  | .suppliers, [product, party, preference, start, stop] => do
    let row : SupplierRow :=
      ⟨product.filledText, party.filledText, preference, start.filledText, stop.text?⟩
    let suppliers ← TableName.suppliers.extend t.suppliers number row fun r =>
      r.product = row.product ∧ r.party = row.party ∧ r.start = row.start
    pure { t with suppliers }
  | .facilities, [product, facility, leadTime, minimumStock] => do
    let row : FacilityRow := ⟨product.filledText, facility.filledText, leadTime, minimumStock⟩
    let facilities ← TableName.facilities.extend t.facilities number row fun r =>
      r.product = row.product ∧ r.facility = row.facility
    pure { t with facilities }
  | .orders,
      [id, product, facility, quantity, start, completion, routing, name, description, status,
       createdAt] => do
    let row : OrderRow :=
      ⟨id.text?, product.filledText, facility.text?, quantity, start.filledText,
        completion.filledText, routing.text?, name.text?, description.text?, status.filledText,
        createdAt.filledText⟩
    let orders ← TableName.orders.extend t.orders number row fun r => sameKey r.id row.id
    pure { t with orders }
  | .fulfilments, [order, source, line] => do
    let row : FulfilmentRow := ⟨order.filledText, source.filledText, line.filledText⟩
    let fulfilments ← TableName.fulfilments.extend t.fulfilments number row (· = row)
    checkReference (t.hasOrder row.order)
    pure { t with fulfilments }
  | .precedences, [first, second, start] => do
    let row : PrecedenceRow := ⟨first.filledText, second.filledText, start.filledText⟩
    let precedences ← TableName.precedences.extend t.precedences number row fun r =>
      r.first = row.first ∧ r.second = row.second
    checkReference (t.hasOrder row.first && t.hasOrder row.second)
    pure { t with precedences }
  | _, _ => .ok t

/-- The tables with one more row, of which some columns are given. -/
def insert (t : Tables) (table : TableName) (given : List (String × Cell)) :
    Except TableFault Tables := do
  let number ← t.rowNumber table (table.givenNumber given)
  let cells := table.cells given
  match table.unfilled? cells with
  | some column => .error (.notNull table.label column.name)
  | none => t.append number table cells

end Tables

/-- Puts a row into the table with the given name. A row without columns is refused before the table
is looked for. -/
def Database.insertRow (db : Database) (table : String) (given : List (String × Cell)) :
    Database × Except StoreError Unit :=
  if given.isEmpty then (db, .error (TableFault.noColumns table).toStoreError)
  else db.write table fun t =>
    match TableName.ofLabel? table with
    | none => .error (.noTable table)
    | some name =>
      match name.unknownColumn? given with
      | some column => .error (.noColumn table column)
      | none => (t.insert name given).map fun t => (t, ())

end Bom
