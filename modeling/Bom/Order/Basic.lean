import Bom.Calendar.DateTime

/-!
# Production orders

A production order makes a quantity of one product from a start date on, and is expected to be
complete some time later. It may be made for the line of a sales order, and it may have to wait for
others.

* `OrderRequest`, `OrderRef`: what is asked for, and what comes of it.
* `StoredOrder`, `Precedence`, `Fulfilment`: orders and links as they are kept.
-/

namespace Bom

/-- What is asked of the order desk. -/
structure OrderRequest where
  product : String
  facility : Option String
  quantity : Float
  start : DateTime
  routing : Option String
  name : Option String
  description : Option String
  deriving DecidableEq

/-- An order that exists, by its number and the time when it is expected to be complete. -/
structure OrderRef where
  id : String
  completion : DateTime
  deriving DecidableEq

/-- The line of a sales order that a production order is made for. -/
structure SourceLine where
  order : String
  line : String
  deriving DecidableEq, Repr

/-- An order as it is kept. -/
structure StoredOrder where
  id : String
  product : String
  facility : Option String
  quantity : Float
  start : DateTime
  completion : DateTime
  routing : Option String
  name : Option String
  description : Option String
  status : String
  deriving DecidableEq

/-- An order that another one waits for, as of a date. -/
structure Precedence where
  first : String
  second : String
  asOf : DateTime
  deriving DecidableEq

/-- An order with the sales order line that it is made for. -/
structure Fulfilment where
  order : String
  source : SourceLine
  deriving DecidableEq, Repr

end Bom
