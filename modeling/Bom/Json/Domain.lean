import Bom.Calendar.Format
import Bom.Json.Record
import Bom.Service

/-!
# Records of the domain

How products, edges, rules, settings, requests and orders are read from structured texts. Instants
are texts with the letter T, kinds and modes are their keywords in capitals.
-/

namespace Bom

namespace Json

/-- An instant. -/
def instant? (j : Json) : Option DateTime := j.text?.bind readIso?

/-- A kind of product. -/
def productKind? : Json → Option ProductKind :=
  keyword? fun s => ProductKind.all.find? (·.keyword = s)

/-- An operator of a rule. -/
def ruleOperator? : Json → Option RuleOperator :=
  keyword? fun s => [RuleOperator.or, RuleOperator.and].find? (·.keyword = s)

/-- A mode. -/
def mode? : Json → Option Mode := keyword? Mode.ofKeyword?

/-- A product. -/
def product? (j : Json) : Option Product := do
  let f ← j.fields? ["product_id", "product_name", "product_type", "is_virtual", "facility_id",
    "width", "height", "depth"]
  pure {
    id := ← f.required "product_id" text?
    name := ← f.optional "product_name" text?
    kind := ← f.required "product_type" productKind?
    isVirtual := ← f.required "is_virtual" bool?
    facility := ← f.optional "facility_id" text?
    width := ← f.optional "width" float?
    height := ← f.optional "height" float?
    depth := ← f.optional "depth" float? }

/-- A feature. -/
def feature? (j : Json) : Option Feature := do
  let f ← j.fields? ["feature_id", "feature_type"]
  pure ⟨← f.required "feature_id" text?, ← f.required "feature_type" text?⟩

/-- An edge. -/
def edge? (j : Json) : Option Edge := do
  let f ← j.fields? ["parent_product_id", "child_product_id", "bom_type", "quantity",
    "scrap_factor", "sequence_num", "routing_id", "from_date", "thru_date", "estimate_calc_method"]
  pure {
    parent := ← f.required "parent_product_id" text?
    child := ← f.required "child_product_id" text?
    bomType := ← f.required "bom_type" text?
    quantity := ← f.optional "quantity" float?
    scrap := ← f.optional "scrap_factor" float?
    sequence := ← f.required "sequence_num" integer?
    routing := ← f.optional "routing_id" text?
    window := ⟨← f.optional "from_date" instant?, ← f.optional "thru_date" instant?⟩
    calcMethod := ← f.optional "estimate_calc_method" text? }

/-- A rule. -/
def rule? (j : Json) : Option Rule := do
  let f ← j.fields? ["rule_id", "context_product_id", "for_product_id", "in_product_id",
    "substitute_product_id", "feature_condition", "operator", "quantity", "rule_seq", "from_date",
    "thru_date"]
  pure {
    id := ← f.required "rule_id" text?
    context := ← f.optional "context_product_id" text?
    parent := ← f.optional "for_product_id" text?
    component := ← f.required "in_product_id" text?
    substitute := ← f.optional "substitute_product_id" text?
    condition := ← f.optional "feature_condition" text?
    operator := ← f.optional "operator" ruleOperator?
    quantity := ← f.optional "quantity" float?
    sequence := ← f.required "rule_seq" integer?
    window := ⟨← f.optional "from_date" instant?, ← f.optional "thru_date" instant?⟩ }

/-- Settings. What is left out has its standard value. -/
def settings? (j : Json) : Option Settings := do
  let f ← j.fields? ["default_bom_type", "default_facility_id", "default_lead_time_days",
    "max_depth", "exclude_wip_by_default"]
  let s := Settings.standard
  pure {
    bomType := ← f.defaulted "default_bom_type" s.bomType text?
    facility := ← f.defaulted "default_facility_id" s.facility (nullable? text?)
    leadTime := ← f.defaulted "default_lead_time_days" s.leadTime float?
    maxDepth := ← f.defaulted "max_depth" s.maxDepth count?
    excludesWip := ← f.defaulted "exclude_wip_by_default" s.excludesWip bool? }

/-- The request for an order. -/
def orderRequest? (j : Json) : Option OrderRequest := do
  let f ← j.fields? ["product_id", "facility_id", "quantity", "start_date", "routing_id",
    "order_name", "description"]
  pure {
    product := ← f.required "product_id" text?
    facility := ← f.optional "facility_id" text?
    quantity := ← f.required "quantity" float?
    start := ← f.required "start_date" instant?
    routing := ← f.optional "routing_id" text?
    name := ← f.optional "order_name" text?
    description := ← f.optional "description" text? }

/-- An order as it is kept. -/
def storedOrder? (j : Json) : Option StoredOrder := do
  let f ← j.fields? ["order_id", "product_id", "facility_id", "quantity", "start_date",
    "estimated_completion", "routing_id", "order_name", "description", "status"]
  pure {
    id := ← f.required "order_id" text?
    product := ← f.required "product_id" text?
    facility := ← f.optional "facility_id" text?
    quantity := ← f.required "quantity" float?
    start := ← f.required "start_date" instant?
    completion := ← f.required "estimated_completion" instant?
    routing := ← f.optional "routing_id" text?
    name := ← f.optional "order_name" text?
    description := ← f.optional "description" text?
    status := ← f.required "status" text? }

/-- A precedence of two orders. -/
def precedence? (j : Json) : Option Precedence := do
  let f ← j.fields? ["from_order_id", "to_order_id", "from_date"]
  pure ⟨← f.required "from_order_id" text?, ← f.required "to_order_id" text?,
    ← f.required "from_date" instant?⟩

/-- An order with its sales order line. -/
def fulfilment? (j : Json) : Option Fulfilment := do
  let f ← j.fields? ["order_id", "source_order_id", "source_line_id"]
  pure ⟨← f.required "order_id" text?,
    ← f.required "source_order_id" text?, ← f.required "source_line_id" text?⟩

/-- The order that has been made, by its number and its completion, either of which may be missing.
-/
def outcome? (j : Json) : Option (Option String × Option DateTime) := do
  let f ← j.fields? ["order_id", "estimated_completion"]
  pure (← f.optional "order_id" text?, ← f.optional "estimated_completion" instant?)

/-- The line of a sales order. -/
def sourceLine? (j : Json) : Option SourceLine := do
  let f ← j.fields? ["order_id", "line_id"]
  pure ⟨← f.required "order_id" text?, ← f.required "line_id" text?⟩

/-- What the orders of a cascade have in common. -/
def cascadeRequest? (j : Json) : Option CascadeRequest := do
  let f ← j.fields? ["facility_id", "start_date", "order_name", "description", "routing_id",
    "source_order", "shipment_id"]
  pure {
    facility := ← f.optional "facility_id" text?
    start := ← f.required "start_date" instant?
    name := ← f.optional "order_name" text?
    description := ← f.optional "description" text?
    routing := ← f.optional "routing_id" text?
    source := ← f.optional "source_order" sourceLine?
    shipment := ← f.optional "shipment_id" text? }

/-- The production orders that are asked for. An amount that is left out is 0. -/
def makeRequest? (j : Json) : Option MakeRequest := do
  let f ← j.fields? ["product_id", "quantity", "amount", "start_date", "facility_id", "routing_id",
    "order_name", "description", "source_order", "shipment_id"]
  pure {
    product := ← f.required "product_id" text?
    quantity := ← f.required "quantity" float?
    amount := ← f.defaulted "amount" 0.0 float?
    start := ← f.required "start_date" instant?
    facility := ← f.optional "facility_id" text?
    routing := ← f.optional "routing_id" text?
    name := ← f.optional "order_name" text?
    description := ← f.optional "description" text?
    source := ← f.optional "source_order" sourceLine?
    shipment := ← f.optional "shipment_id" text? }

end Json

end Bom
