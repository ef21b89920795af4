import Bom.Calendar.DateTime
import Bom.Edge
import Bom.Product
import Bom.Text.Keyword

/-!
# Substitution rules

A rule says that a virtual component gives way to another product, or is left out. It holds for the
component everywhere, for the component of one parent, or for that only while one product is being
configured; it may ask for a selected feature, and it is valid for a while.

* `Rule`: a rule, with the product that takes the component's place and the quantity that goes with
  it.
* `RuleScope.covers`: which rules one search of the catalogue is about.
* `Rule.fires`: only an OR rule whose condition is met fires.
-/

namespace Bom

/-- How the conditions of a rule combine. Only OR rules ever fire. -/
inductive RuleOperator where
  | or
  | and
  deriving DecidableEq, Repr

namespace RuleOperator

/-- The keyword of an operator. -/
def keyword : RuleOperator → String
  | or => "OR"
  | and => "AND"

/-- The operator that a text names, with blanks around it and in any case. -/
def ofKeyword? (s : String) : Option RuleOperator :=
  [or, and].find? (·.keyword == Text.capitals s)

end RuleOperator

/-- A substitution rule. -/
structure Rule where
  id : String
  /-- the product whose configuration the rule belongs to, if it belongs to one -/
  context : Option String
  /-- the parent of the component, if the rule is about one parent -/
  parent : Option String
  /-- the virtual component that gives way -/
  component : String
  /-- the product that takes its place; none or a blank text leaves the component out -/
  substitute : Option String
  /-- the feature that has to be selected; none or a blank text asks for nothing -/
  condition : Option String
  operator : Option RuleOperator
  /-- the units per parent, if they differ from those of the edge -/
  quantity : Option Float
  sequence : Int
  window : Window
  deriving DecidableEq

namespace Rule

/-- The rule is valid at the given time. -/
def validAt (r : Rule) (t : DateTime) : Bool := r.window.contains t

/-- The rule asks for no feature. -/
def isUnconditional (r : Rule) : Bool := Text.isBlankOption r.condition

/-- The rule leaves the component out. -/
def removesComponent (r : Rule) : Bool := Text.isBlankOption r.substitute

/-- The condition is met: there is none, or it is one of the selected features. -/
def isMetBy (r : Rule) (selected : List Feature) : Bool :=
  r.isUnconditional || selected.any fun f => some f.id = r.condition

/-- The rule takes effect under the selected features. -/
def fires (r : Rule) (selected : List Feature) : Bool :=
  r.isMetBy selected && r.operator = some .or

/-- The units per parent of the product that takes the component's place: those of the rule when
they are positive, else those of the component. -/
def quantityOr (r : Rule) (componentQuantity : Float) : Float :=
  match r.quantity with
  | some q => if q > 0.0 then q else componentQuantity
  | none => componentQuantity

end Rule

/-- What one search for rules is about. -/
inductive RuleScope where
  /-- rules for a component of a parent, while one product is being configured -/
  | context (context parent component : String)
  /-- rules for a component of a parent, whatever is being configured -/
  | link (parent component : String)
  /-- rules for a component wherever it occurs -/
  | node (component : String)
  deriving DecidableEq, Repr

/-- The rule is one that a search of this scope is about. -/
def RuleScope.covers : RuleScope → Rule → Bool
  | .context top above part, r =>
    r.context = some top && r.parent = some above && r.component = part
  | .link above part, r => r.context = none && r.parent = some above && r.component = part
  | .node part, r => r.context = none && r.parent = none && r.component = part

end Bom
