import Bom.Calendar.Span
import Bom.Order.Desk
import Bom.Tables.Catalogue
import Bom.Tables.Insert

/-!
# Production orders in tables

Orders are rows, and so are the links between them. An order is complete its lead time after its
start; the lead time is the one that a facility states, or a default. The id of an order is drawn
from a supply, and an id that an order has already is refused. Links have to name orders that exist.
A second link of the same order to the same line is passed over, and a second link of the same two
orders takes the place of the first.

* `IdSupply`: where the ids of orders come from, with `IdSupply.counted`, which counts them.
* `Tables.addOrder`: an order under its id.
* `Tables.orderLabel`, `Tables.orderLabelled`: what an order is called in place of such an id.
* `Database.desk`: the desk that writes into the tables.
* `Database.order?`, `ordersOf`, `allOrders`, `precedences`, `fulfilments`: what has been written.
-/

namespace Bom

/-- Where the ids of orders come from: the id that is drawn while there are orders with the given
ids. -/
abbrev IdSupply := List String → String

/-- The `n`-th id that is counted: digits in five groups. -/
def issuedId (n : Nat) : String :=
  "00000000-0000-4000-8000-" ++ String.ofList (Text.padded 12 n)

/-- A digit to the base sixteen. -/
def isHexDigit (c : Char) : Bool := c.isDigit || ('a' ≤ c.toLower && c.toLower ≤ 'f')

/-- The form of an id that is drawn: digits to the base sixteen in groups of eight, four, four,
four and twelve. -/
def isIssuedForm (id : String) : Bool :=
  let cs := id.toList
  cs.length = 36 && cs.zipIdx.all fun (c, i) =>
    if i ∈ [8, 13, 18, 23] then c = '-' else isHexDigit c

namespace IdSupply

/-- No order has the id that is drawn. -/
def IsFresh (supply : IdSupply) : Prop := ∀ ids, supply ids ∉ ids

/-- The first id from the `n`-th on that is not among the given ones, looked for in a few steps. -/
def nextFree (ids : List String) : Nat → Nat → String
  | 0, n => issuedId n
  | steps + 1, n => if issuedId n ∈ ids then nextFree ids steps (n + 1) else issuedId n

/-- The supply that counts the orders and passes over ids that they have. -/
def counted : IdSupply := fun ids => nextFree ids ids.length (ids.length + 1)

end IdSupply

namespace Tables

/-- The tables with one more order. -/
def withOrder (t : Tables) (row : OrderRow) : Tables := { t with orders := t.orders.add row }

/-- Adds an order, unless there is one with its id. -/
def addOrder (t : Tables) (row : OrderRow) : Except TableFault Tables :=
  if row.id.any t.hasOrder then
    .error (.notUnique TableName.orders.label TableName.orders.keyColumns)
  else .ok (t.withOrder row)

/-- The ids of the orders, in the order of their rows. -/
def orderIds (t : Tables) : List String := t.orders.rows.filterMap OrderRow.id

/-- What an order is called: by its place among the orders if its id has the form of those that are
drawn, and by its id otherwise. -/
def orderLabel (t : Tables) (id : String) : String :=
  match if isIssuedForm id then t.orderIds.idxOf? id else none with
  | some i => s!"O{i + 1}"
  | none => id

/-- The id of the order that is called so by its place, or else the label itself. -/
def orderLabelled (t : Tables) (label : String) : String :=
  match label.toList with
  | 'O' :: place =>
    match readCount? (String.ofList place) with
    | some (i + 1) => t.orderIds[i]?.getD label
    | _ => label
  | _ => label

/-- Links an order to a sales order line, unless it is linked to it already. -/
def addFulfilment (t : Tables) (order : String) (source : SourceLine) : Except TableFault Tables :=
  let row : FulfilmentRow := ⟨order, source.order, source.line⟩
  if t.fulfilments.rows.contains row then .ok t
  else do
    checkReference (t.hasOrder order)
    pure { t with fulfilments := t.fulfilments.add row }

/-- Has the second order wait for the first, in place of what was noted about the two before. -/
def putPrecedence (t : Tables) (first second : String) (asOf : DateTime) :
    Except TableFault Tables := do
  checkReference (t.hasOrder first && t.hasOrder second)
  let row : PrecedenceRow := ⟨first, second, asOf.columnText⟩
  pure { t with precedences := t.precedences.put (fun r => (r.first, r.second)) row }

end Tables

namespace OrderRow

/-- The row of an order. -/
def ofRequest (id : String) (r : OrderRequest) (completion now : DateTime) : OrderRow where
  id := some id
  product := r.product
  facility := r.facility
  quantity := .ofFloat r.quantity
  start := r.start.columnText
  completion := completion.columnText
  routing := r.routing
  name := r.name
  description := r.description
  status := "CREATED"
  createdAt := now.columnText

/-- Reads an instant from the column with the given index. -/
def readInstant (index : Nat) (text : String) : Except TableFault DateTime :=
  match readColumn? text with
  | some t => .ok t
  | none => .error (.noInstant index text)

/-- The order of a row. -/
def read (r : OrderRow) : Except TableFault StoredOrder := do
  let id ← readText 0 "order_id" r.id
  let quantity ← r.quantity.readReal 3 "quantity"
  let start ← readInstant 4 r.start
  let completion ← readInstant 5 r.completion
  pure {
    id := id
    product := r.product
    facility := r.facility
    quantity := quantity
    start := start
    completion := completion
    routing := r.routing
    name := r.name
    description := r.description
    status := r.status }

end OrderRow

/-- The precedence of a row. -/
def PrecedenceRow.read (r : PrecedenceRow) : Except StoreError Precedence :=
  match readColumn? r.start with
  | some asOf => .ok ⟨r.first, r.second, asOf⟩
  | none => .error (.fieldValue "from_date" (noInstantText r.start))

namespace Database

/-- What an order is called. -/
def orderLabel (db : Database) (id : String) : String :=
  (db.tables.map (·.orderLabel id)).getD id

/-- The id of the order that is called so. -/
def orderLabelled (db : Database) (label : String) : String :=
  (db.tables.map (·.orderLabelled label)).getD label

/-- The lead time of a product: the one that a facility states, or the default. -/
def leadTimeOr (db : Database) (defaultLeadTime : Float) (product : String)
    (facility : Option String) : Except StoreError Float :=
  (db.read "product_facility" (·.facilityLeadTime product facility)).map (·.getD defaultLeadTime)

/-- Places an order under an id of the supply. A quantity that is negative or not finite is refused,
and so is an id that an order has. -/
def place (supply : IdSupply) (defaultLeadTime : Float) (now : DateTime) (r : OrderRequest)
    (db : Database) : Database × Except PlacingError OrderRef :=
  if !r.quantity.isFinite || r.quantity < 0.0 then
    (db, .error (.refused (.fieldValue "quantity" ("非法数量: " ++ floatText r.quantity))))
  else
    match db.leadTimeOr defaultLeadTime r.product r.facility with
    | .error e => (db, .error (.refused e))
    | .ok days =>
      match r.start.after? days with
      | none => (db, .error .outOfCalendar)
      | some completion =>
        let written := db.write "production_order" fun t =>
          let id := supply t.orderIds
          (t.addOrder (.ofRequest id r completion now)).map fun t =>
            (t, (⟨id, completion⟩ : OrderRef))
        (written.1, written.2.mapError .refused)

/-- The desk that writes into the tables, with a supply of ids and a lead time for products of which
no facility states one. -/
def desk (supply : IdSupply) (defaultLeadTime : Float) (now : DateTime) : OrderDesk Database where
  place := place supply defaultLeadTime now
  fulfil order source db :=
    db.write "order_fulfillment" fun t => (t.addFulfilment order source).map fun t => (t, ())
  precede first second asOf db :=
    db.write "order_precedence" fun t => (t.putPrecedence first second asOf).map fun t => (t, ())

/-- The order with the given number. -/
def order? (db : Database) (id : String) : Except StoreError (Option StoredOrder) :=
  db.read "production_order" fun t =>
    match t.orders.rows.find? (·.id = some id) with
    | some row => row.read.map some
    | none => .ok none

/-- The orders for a product, by their start and then by the time when they were placed. -/
def ordersOf (db : Database) (product : String) : Except StoreError (List StoredOrder) :=
  db.read "production_order" fun t =>
    let placed := sortWith (fun a b => a.createdAt ≤ b.createdAt)
      (t.orders.rows.filter (·.product = product))
    (sortWith (fun a b => a.start ≤ b.start) placed).mapM OrderRow.read

/-- All orders that have an id, in the order of their rows. A database without tables has none. -/
def allOrders (db : Database) : Except StoreError (List StoredOrder) :=
  match db.tables with
  | some t =>
    ((t.orders.rows.filter (·.id.isSome)).mapM OrderRow.read).mapError TableFault.toStoreError
  | none => .ok []

/-- All precedences, in the order of their rows. -/
def precedences (db : Database) : Except StoreError (List Precedence) := do
  let rows ← db.read "order_precedence" fun t => .ok t.precedences.rows
  rows.mapM PrecedenceRow.read

/-- The sales order lines of an order, by sales order and line. -/
def fulfilments (db : Database) (order : String) : Except StoreError (List Fulfilment) :=
  db.read "order_fulfillment" fun t =>
    let found := t.fulfilments.rows.filter (·.order = order)
    let byLine := sortWith (fun a b => a.line ≤ b.line) found
    let sorted := sortWith (fun a b => a.source ≤ b.source) byLine
    .ok (sorted.map fun r => ⟨r.order, ⟨r.source, r.line⟩⟩)

end Database

end Bom
