import Bom.Tables.Rows

/-!
# Tables and columns by name

Each table has a name and a list of columns. A column has a name, an affinity, the value that it
takes when none is given, and the demand, or not, that it be filled. The number of a row can be
given like a column, under one of three names and in two tables under a name that says what it
counts. All names may be given in any case of their ASCII letters.

* `TableName`: the tables.
* `TableName.columns`: their columns, in order.
* `TableName.numberColumn`: the name of the number of a row.
* `TableName.keyColumns`: the columns of the key.
-/

namespace Bom

/-- Two names are the same but for the case of their ASCII letters. -/
def sameName (a b : String) : Bool :=
  a.toList.map Char.toLower == b.toList.map Char.toLower

/-- A table. -/
inductive TableName where
  | versions
  | settings
  | products
  | associations
  | rules
  | features
  | featureUses
  | suppliers
  | facilities
  | orders
  | fulfilments
  | precedences
  deriving DecidableEq, Repr

/-- A column of a table. -/
structure Column where
  name : String
  affinity : Affinity
  /-- the column has to be filled -/
  filled : Bool
  /-- the value when none is given -/
  standard : Cell

namespace Column

/-- The name is that of the column. -/
def isNamed (c : Column) (name : String) : Bool := sameName c.name name

/-- A column of texts that has to be filled. -/
def text (name : String) : Column := ⟨name, .text, true, .null⟩

/-- A column of texts that may be empty. -/
def text? (name : String) : Column := ⟨name, .text, false, .null⟩

/-- A column of doubles that may be empty. -/
def real? (name : String) : Column := ⟨name, .real, false, .null⟩

/-- A column of whole numbers that has to be filled and has a standard value. -/
def integer (name : String) (standard : Int) : Column := ⟨name, .integer, true, .integer standard⟩

/-- A column of texts that has to be filled and has a standard value. -/
def textOr (name standard : String) : Column := ⟨name, .text, true, .text standard⟩

end Column

namespace TableName

/-- The name of a table. -/
def label : TableName → String
  | versions => "schema_version"
  | settings => "config_kv"
  | products => "product"
  | associations => "product_assoc"
  | rules => "manufacturing_rule"
  | features => "product_feature"
  | featureUses => "product_feature_appl"
  | suppliers => "supplier_product"
  | facilities => "product_facility"
  | orders => "production_order"
  | fulfilments => "order_fulfillment"
  | precedences => "order_precedence"

/-- All tables. -/
def all : List TableName :=
  [versions, settings, products, associations, rules, features, featureUses, suppliers, facilities,
   orders, fulfilments, precedences]

/-- The table with the given name. -/
def ofLabel? (s : String) : Option TableName :=
  all.find? fun t => sameName t.label s

/-- The columns of a table, in order. -/
def columns : TableName → List Column
  | versions => [.text "applied_at"]
  | settings => [.text "scope_id", .text "key", .text "value"]
  | products =>
    [.text? "product_id", .text? "product_name", .textOr "product_type" "GOOD",
     .integer "is_virtual" 0, .text? "facility_id", .real? "width", .real? "height", .real? "depth"]
  | associations =>
    [.text "product_id", .text "product_id_to", .text "assoc_type", .text? "quantity",
     .real? "scrap_factor", .integer "sequence_num" 0, .text? "routing_id", .text "from_date",
     .text? "thru_date", .text? "estimate_calc_method"]
  | rules =>
    [.text? "rule_id", .text? "context_product_id", .text? "for_product_id", .text "in_product_id",
     .text? "substitute_product_id", .text? "feature_condition", .text? "rule_operator",
     .real? "quantity", .integer "rule_seq" 0, .text "from_date", .text? "thru_date"]
  | features => [.text? "feature_id", .text "feature_type", .text? "description"]
  | featureUses =>
    [.text "product_id", .text "feature_id", .text "appl_type", .text "from_date",
     .text? "thru_date"]
  | suppliers =>
    [.text "product_id", .text "party_id", .integer "supplier_pref_order" 1,
     .text "available_from_date", .text? "available_thru_date"]
  | facilities =>
    [.text "product_id", .text "facility_id", .real? "lead_time_days", .real? "minimum_stock"]
  | orders =>
    [.text? "order_id", .text "product_id", .text? "facility_id", ⟨"quantity", .real, true, .null⟩,
     .text "start_date", .text "estimated_completion", .text? "routing_id", .text? "order_name",
     .text? "description", .textOr "status" "CREATED", .text "created_at"]
  | fulfilments => [.text "order_id", .text "source_order_id", .text "source_line_id"]
  | precedences => [.text "from_order_id", .text "to_order_id", .text "from_date"]

/-- The name of the number of a row. -/
def numberColumn : TableName → String
  | versions => "version"
  | associations => "assoc_id"
  | _ => "rowid"

/-- The name is one of those of the number of a row. -/
def isNumberName (t : TableName) (name : String) : Bool :=
  [t.numberColumn, "rowid", "oid", "_rowid_"].any (sameName name)

/-- The columns of the key of a table, apart from the number of a row. -/
def keyColumns : TableName → List String
  | versions => []
  | settings => ["scope_id", "key"]
  | products => ["product_id"]
  | associations => []
  | rules => ["rule_id"]
  | features => ["feature_id"]
  | featureUses => ["product_id", "feature_id", "from_date"]
  | suppliers => ["product_id", "party_id", "available_from_date"]
  | facilities => ["product_id", "facility_id"]
  | orders => ["order_id"]
  | fulfilments => ["order_id", "source_order_id", "source_line_id"]
  | precedences => ["from_order_id", "to_order_id"]

end TableName

end Bom
