import Bom.Calendar.Span
import Bom.Order.Desk
import Bom.Sorting
import Bom.Text.Scan

/-!
# An order book in memory

The book numbers its orders in the order in which they are placed and records every link it is asked
for. Lead times are set by product, and placing an order can be made to fail by product.

* `DeskSettings`: lead times and failing products.
* `OrderBook`: what has been recorded.
* `OrderBook.desk`: the desk that writes into the book.
-/

namespace Bom

/-- How a desk in memory estimates completions, and which products it refuses. -/
structure DeskSettings where
  defaultLeadTime : Float
  leadTimes : List (String × Float)
  refused : List String

namespace DeskSettings

/-- No lead time, and nothing refused. -/
def standard : DeskSettings := ⟨0.0, [], []⟩

/-- Sets the lead time of a product. -/
def withLeadTime (d : DeskSettings) (product : String) (days : Float) : DeskSettings :=
  { d with leadTimes := putBy Prod.fst (product, days) d.leadTimes }

/-- Has every order for a product refused. -/
def refusing (d : DeskSettings) (product : String) : DeskSettings :=
  { d with refused := d.refused ++ [product] }

/-- The lead time of a product in days. -/
def leadTime (d : DeskSettings) (product : String) : Float :=
  ((d.leadTimes.find? (·.1 = product)).map Prod.snd).getD d.defaultLeadTime

end DeskSettings

/-- An order with the request that it was placed for. -/
structure RecordedOrder where
  ref : OrderRef
  request : OrderRequest
  deriving DecidableEq

/-- What a desk in memory has recorded, the earliest first. -/
structure OrderBook where
  orders : List RecordedOrder
  precedences : List Precedence
  fulfilments : List Fulfilment

namespace OrderBook

/-- The book without an entry. -/
def empty : OrderBook := ⟨[], [], []⟩

/-- The number of the order that is placed after `count` others. -/
def orderId (count : Nat) : String :=
  String.ofList ('P' :: 'O' :: '-' :: Text.padded 4 (count + 1))

/-- The first order for a product. -/
def orderFor (b : OrderBook) (product : String) : Option RecordedOrder :=
  b.orders.find? (·.request.product = product)

/-- Records an order. -/
def place (d : DeskSettings) (request : OrderRequest) (b : OrderBook) :
    OrderBook × Except PlacingError OrderRef :=
  if request.product ∈ d.refused then
    (b, .error (.refused (.internal s!"模拟下单失败: product_id={request.product}")))
  else
    match request.start.after? (d.leadTime request.product) with
    | none => (b, .error .outOfCalendar)
    | some completion =>
      let ref : OrderRef := ⟨orderId b.orders.length, completion⟩
      ({ b with orders := b.orders ++ [⟨ref, request⟩] }, .ok ref)

/-- The desk that writes into the book. It refuses no link, not even of orders that it does not
know. -/
def desk (d : DeskSettings) : OrderDesk OrderBook where
  place := place d
  fulfil order source b := ({ b with fulfilments := b.fulfilments ++ [⟨order, source⟩] }, .ok ())
  precede first second asOf b :=
    ({ b with precedences := b.precedences ++ [⟨first, second, asOf⟩] }, .ok ())

end OrderBook

end Bom
