import Bom.Catalogue.Basic
import Bom.Sorting

/-!
# Resolving virtual components

A virtual component gives way to a product, is left out, or stays. Four strategies are tried in a
fixed order: the rules of the configured product for this parent, the rules for this parent, the
rules for the component anywhere, and last the selected features, which decide when they leave
exactly one variant. The first strategy with a result decides, and within a strategy the first rule
that fires.

* `Surroundings`: where the component stands.
* `Resolution`: what becomes of it.
* `resolve`: tries the strategies.
-/

namespace Bom

/-- A way to resolve a virtual component. -/
inductive Strategy where
  | contextRules
  | linkRules
  | nodeRules
  | featureVariant
  deriving DecidableEq, Repr

namespace Strategy

/-- The name of a strategy. -/
def keyword : Strategy → String
  | contextRules => "CONTEXT_RULES"
  | linkRules => "LINK_RULES"
  | nodeRules => "NODE_RULES"
  | featureVariant => "FEATURE_VARIANT"

/-- The order in which strategies are tried. -/
def precedence : List Strategy := [contextRules, linkRules, nodeRules, featureVariant]

end Strategy

/-- Where a virtual component stands. -/
structure Surroundings where
  /-- the product that is being configured -/
  top : String
  parent : String
  /-- the virtual product whose place the parent has taken -/
  replacedParent : Option String
  selected : List Feature
  asOf : DateTime
  deriving DecidableEq

/-- What becomes of a component. -/
inductive Resolution where
  /-- it stays: it is not virtual, or no strategy has a result -/
  | unchanged
  /-- a rule leaves it out -/
  | removed (rule : Rule) (strategy : Strategy)
  /-- a product takes its place, with its units per parent -/
  | substituted (product : Product) (rule : Option Rule) (multiplier : Float) (strategy : Strategy)
  deriving DecidableEq

/-- An answer of a catalogue, its error taken as one of the engine. -/
def ask {α : Type} (answer : Except StoreError α) : Except EngineError α :=
  answer.mapError .store

/-- The product with the given id, which has to exist. -/
def Catalogue.productOf (c : Catalogue) (id : String) : Except EngineError Product := do
  match ← ask (c.product id) with
  | some p => .ok p
  | none => .error (.productNotFound id)

namespace Surroundings

/-- The parents whose rules count: the parent, and the virtual product whose place it has taken. -/
def parents (s : Surroundings) : List String :=
  s.parent :: (s.replacedParent.filter (· ≠ s.parent)).toList

/-- The rules of the parents, those of the parent first. -/
def rulesOfParents (s : Surroundings) (c : Catalogue) (scope : String → RuleScope) :
    Except EngineError (List Rule) := do
  let found ← s.parents.mapM fun parent => ask (c.rules (scope parent) s.asOf)
  pure found.flatten

/-- The rules that a strategy considers, in the order in which it considers them. Features decide
without any rule. -/
def rulesFor (s : Surroundings) (c : Catalogue) (component : String) :
    Strategy → Except EngineError (List Rule)
  | .contextRules => s.rulesOfParents c fun parent => .context s.top parent component
  | .linkRules => s.rulesOfParents c fun parent => .link parent component
  | .nodeRules => do
    let found ← ask (c.rules (.node component) s.asOf)
    pure (sortBy Rule.sequence found)
  | .featureVariant => pure []

/-- What a rule that fires makes of a component. -/
def applyRule (c : Catalogue) (strategy : Strategy) (multiplier : Float) (r : Rule) :
    Except EngineError Resolution :=
  if r.removesComponent then pure (.removed r strategy)
  else do
    let product ← c.productOf (r.substitute.getD "")
    pure (.substituted product (some r) (r.quantityOr multiplier) strategy)

/-- The variant that the selected features leave, if they leave exactly one. -/
def applyFeatures (s : Surroundings) (c : Catalogue) (component : String) (multiplier : Float) :
    Except EngineError (Option Resolution) :=
  if s.selected.isEmpty then pure none
  else do
    match ← ask (c.variants component s.selected) with
    | [product] => pure (some (.substituted product none multiplier .featureVariant))
    | _ => pure none

/-- The result of one strategy, if it has one. -/
def attempt (s : Surroundings) (c : Catalogue) (component : String) (multiplier : Float)
    (strategy : Strategy) : Except EngineError (Option Resolution) :=
  match strategy with
  | .featureVariant => s.applyFeatures c component multiplier
  | strategy => do
    let rules ← s.rulesFor c component strategy
    match rules.find? (·.fires s.selected) with
    | some r => some <$> applyRule c strategy multiplier r
    | none => pure none

/-- The result of the first strategy that has one. -/
def firstResult (s : Surroundings) (c : Catalogue) (component : String) (multiplier : Float) :
    List Strategy → Except EngineError Resolution
  | [] => pure .unchanged
  | strategy :: rest => do
    match ← s.attempt c component multiplier strategy with
    | some result => pure result
    | none => s.firstResult c component multiplier rest

end Surroundings

/-- What becomes of a component with the given units per parent. -/
def resolve (c : Catalogue) (s : Surroundings) (component : Product) (multiplier : Float) :
    Except EngineError Resolution :=
  if component.isVirtual then s.firstResult c component.id multiplier Strategy.precedence
  else pure .unchanged

end Bom
