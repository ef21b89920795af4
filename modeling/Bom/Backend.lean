import Bom.Catalogue.Memory
import Bom.Order.Memory
import Bom.Service
import Bom.Tables.Orders
import Bom.Tables.Settings

/-!
# Where products and orders are kept

A backend keeps products and orders, either in the memory of the process or in a database. It has a
catalogue, a desk and a service.

A database keeps its settings as well, so its service is opened anew for each call: the tables are
set up if they are missing, and the settings are those of the moment. It knows no calculations. In
memory the settings and the calculator come from the caller.

* `Backend.catalogue`, `Backend.desk`: where to look things up, and where to place orders.
* `Backend.openService`: the service.
* `Backend.orderLabel`, `Backend.orderLabelled`: what an order is called, and the order that is
  called so.
-/

namespace Bom

/-- Where products and orders are kept. -/
inductive Backend where
  | memory (products : MemoryCatalogue) (settings : DeskSettings) (links : LinkPolicy)
      (book : OrderBook × Nat)
  | database (db : Database)

namespace Backend

/-- The catalogue of a backend, at the given present. -/
def catalogue (now : DateTime) : Backend → Catalogue
  | memory products _ _ _ => products.catalogue
  | database db => db.catalogue now

/-- Carries a step at a desk over to the backend that the state of the desk is a part of. -/
def within {σ ε α : Type} (put : σ → Backend) (result : σ × Except ε α) : Backend × Except ε α :=
  (put result.1, result.2)

/-- The desk of a backend. A database draws the ids of orders from a supply, and has a lead time for
products of which no facility states one. -/
def desk (supply : IdSupply) (leadTime : Float) (now : DateTime) : OrderDesk Backend where
  place r
    | memory products settings links book =>
      within (memory products settings links)
        (((OrderBook.desk settings).refusing links).place r book)
    | database db => within database ((Database.desk supply leadTime now).place r db)
  fulfil order source
    | memory products settings links book =>
      within (memory products settings links)
        (((OrderBook.desk settings).refusing links).fulfil order source book)
    | database db => within database ((Database.desk supply leadTime now).fulfil order source db)
  precede first second asOf
    | memory products settings links book =>
      within (memory products settings links)
        (((OrderBook.desk settings).refusing links).precede first second asOf book)
    | database db =>
      within database ((Database.desk supply leadTime now).precede first second asOf db)

/-- The workshop of a backend. -/
def workshop (supply : IdSupply) (leadTime : Float) (now : DateTime) (b : Backend) :
    Workshop Backend :=
  ⟨b.catalogue now, desk supply leadTime now, now⟩

/-- The service of a backend. The settings and the calculator count in memory only. -/
def openService (supply : IdSupply) (settings : Settings) (calculator : Option Calculator)
    (now : DateTime) : Backend → Backend × Noted ServiceError (Service Backend)
  | memory products d links book =>
    let b := memory products d links book
    (b, pure ⟨b.workshop supply settings.leadTime now, calculator, settings⟩)
  | database db =>
    let b := database (db.setUp now.columnText)
    let loaded := (db.setUp now.columnText).settings
    (b, (loaded.mapError fun e => .internal ("配置加载失败: " ++ e.message)).mapValue fun settings =>
      ⟨b.workshop supply settings.leadTime now, none, settings⟩)

/-- What an order is called. In memory this is its id. -/
def orderLabel (id : String) : Backend → String
  | memory .. => id
  | database db => db.orderLabel id

/-- The id of the order that is called so. -/
def orderLabelled (label : String) : Backend → String
  | memory .. => label
  | database db => db.orderLabelled label

end Backend

end Bom
