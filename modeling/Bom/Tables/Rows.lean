import Bom.Tables.Cell
import Bom.Tables.Table

/-!
# The rows of the tables

Products, associations, rules, features, suppliers, facilities, orders, links and settings are kept
in a table each. Columns of texts are texts here; a column of numbers is a cell, because it may hold
a text that is no number. The key of a product, a rule, a feature or an order may be missing, and
rows without a key do not clash. Associations and versions have no key but the number of their row.

Associations of products are edges of bills and links of other kinds, told apart by their type:
`madeAsType` leads to the product as which a product is made, and `variantType` from a virtual
product to its variants.

* `Tables`: all tables.
* `Database`: the tables, if they have been set up.
-/

namespace Bom

/-- The type of the association to the product as which a product is made. -/
def madeAsType : String := "MANUFACTURED_AS"

/-- The type of the association from a virtual product to a variant. -/
def variantType : String := "VARIANT"

/-- The use of a feature that counts as selected when a product is asked for. -/
def standardUse : String := "STANDARD"

/-- The use of a feature that sets a variant apart. -/
def distinguishingUse : String := "DISTINGUISHING"

/-- A product. -/
structure ProductRow where
  id : Option String
  name : Option String
  kind : String
  isVirtual : Cell
  facility : Option String
  width : Cell
  height : Cell
  depth : Cell
  deriving DecidableEq

/-- An association of two products, valid between two texts of instants. -/
structure AssociationRow where
  product : String
  target : String
  type : String
  quantity : Option String
  scrap : Cell
  sequence : Cell
  routing : Option String
  start : String
  stop : Option String
  calcMethod : Option String
  deriving DecidableEq

/-- A substitution rule. -/
structure RuleRow where
  id : Option String
  context : Option String
  parent : Option String
  component : String
  substitute : Option String
  condition : Option String
  operator : Option String
  quantity : Cell
  sequence : Cell
  start : String
  stop : Option String
  deriving DecidableEq

/-- A feature. -/
structure FeatureRow where
  id : Option String
  kind : String
  description : Option String
  deriving DecidableEq, Repr

/-- The use of a feature by a product. -/
structure FeatureUseRow where
  product : String
  feature : String
  use : String
  start : String
  stop : Option String
  deriving DecidableEq, Repr

/-- A supplier of a product. -/
structure SupplierRow where
  product : String
  party : String
  preference : Cell
  start : String
  stop : Option String
  deriving DecidableEq

/-- What a facility states for a product. -/
structure FacilityRow where
  product : String
  facility : String
  leadTime : Cell
  minimumStock : Cell
  deriving DecidableEq

/-- A production order. -/
structure OrderRow where
  id : Option String
  product : String
  facility : Option String
  quantity : Cell
  start : String
  completion : String
  routing : Option String
  name : Option String
  description : Option String
  status : String
  createdAt : String
  deriving DecidableEq

/-- An order with the sales order line that it is made for. -/
structure FulfilmentRow where
  order : String
  source : String
  line : String
  deriving DecidableEq, Repr

/-- An order that another one waits for. -/
structure PrecedenceRow where
  first : String
  second : String
  start : String
  deriving DecidableEq, Repr

/-- A setting of a scope. -/
structure SettingRow where
  scope : String
  key : String
  value : String
  deriving DecidableEq, Repr

/-- When a version of the tables has been set up. The version is the number of the row. -/
structure VersionRow where
  appliedAt : String
  deriving DecidableEq, Repr

/-- The tables. -/
structure Tables where
  versions : Table VersionRow
  settings : Table SettingRow
  products : Table ProductRow
  associations : Table AssociationRow
  /-- the greatest number that an association ever had, 0 if none was positive -/
  lastAssociation : Int
  rules : Table RuleRow
  features : Table FeatureRow
  featureUses : Table FeatureUseRow
  suppliers : Table SupplierRow
  facilities : Table FacilityRow
  orders : Table OrderRow
  fulfilments : Table FulfilmentRow
  precedences : Table PrecedenceRow

/-- The tables without a row. -/
def Tables.empty : Tables :=
  ⟨.empty, .empty, .empty, .empty, 0, .empty, .empty, .empty, .empty, .empty, .empty, .empty,
    .empty⟩

/-- A database, which has tables once they have been set up. -/
structure Database where
  tables : Option Tables

namespace Database

/-- A database in which no table has been set up. -/
def empty : Database := ⟨none⟩

/-- The version of the tables that `setUp` sets up. -/
def currentVersion : Int := 1

/-- The tables with the current version noted down, unless it was before. -/
def noteVersion (t : Tables) (now : String) : Tables :=
  if t.versions.hasNumber currentVersion then t
  else { t with versions := t.versions.insertAt currentVersion ⟨now⟩ }

/-- Sets up the tables that are missing, at the given time. -/
def setUp (db : Database) (now : String) : Database :=
  ⟨some (noteVersion (db.tables.getD Tables.empty) now)⟩

/-- The greatest version that has been set up, none without tables or versions. -/
def version (db : Database) : Option Int :=
  db.tables.bind fun t => t.versions.last?

end Database

end Bom
