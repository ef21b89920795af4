import Bom.Proofs.Lookup
import Bom.Proofs.Tree.Run

/-!
# Resolution by the first rule

The strategies that go by rules search for their rules one after another, and each search may be
two, one for each parent whose rules count. A catalogue in memory answers every search, so all of
them together are one list of rules, and the first rule of it that applies decides
(`MemoryCatalogue.resolve_by_first_rule`). What comes after that rule has no part in the result, not
even when the substitute of the rule cannot be had.

* `MemoryCatalogue.considered`: the list of rules, each with its strategy.
* `Rule.Applies`: the rule is one for OR, and its condition is met.
* `MemoryCatalogue.verdict`: what the deciding rule makes of the component.
* `MemoryCatalogue.verdictOfFeatures`: what becomes of a component that no rule decides on.
-/

namespace Bom

/-! ## The deciding rule -/

/-- The operator of the rule is OR, and the rule asks for no feature or for a selected one. -/
def Rule.Applies (selected : List Feature) (r : Rule) : Prop :=
  r.operator = some .or ∧
    (Text.isBlankOption r.condition = true ∨ ∃ f ∈ selected, r.condition = some f.id)

theorem Rule.fires_iff_applies {r : Rule} {selected : List Feature} :
    r.fires selected = true ↔ r.Applies selected := by
  unfold Rule.fires Rule.isMetBy Rule.isUnconditional Rule.Applies
  simp only [Bool.and_eq_true, Bool.or_eq_true, List.any_eq_true, decide_eq_true_eq,
    eq_comm (b := r.condition)]
  exact and_comm

instance (selected : List Feature) (r : Rule) : Decidable (r.Applies selected) :=
  decidable_of_iff _ Rule.fires_iff_applies

namespace Surroundings

variable (s : Surroundings) (c : Catalogue) (component : String) (multiplier : Float)

/-- A strategy that goes by rules ends the search with the first of its rules that applies, and else
leaves it to the strategies that follow. -/
theorem firstResult_cons {strategy : Strategy} {rules : List Rule} (rest : List Strategy)
    (hstrategy : strategy ≠ .featureVariant) (hrules : s.rulesFor c component strategy = .ok rules) :
    s.firstResult c component multiplier (strategy :: rest) =
      match rules.find? (·.Applies s.selected) with
      | some r => applyRule c strategy multiplier r
      | none => s.firstResult c component multiplier rest := by
  have hfires : (fun r : Rule => r.fires s.selected) = (fun r => decide (r.Applies s.selected)) :=
    funext fun r => Bool.eq_iff_iff.2 (Rule.fires_iff_applies.trans decide_eq_true_iff.symm)
  have hattempt : s.attempt c component multiplier strategy =
      match rules.find? (·.Applies s.selected) with
      | some r => some <$> applyRule c strategy multiplier r
      | none => pure none := by
    unfold attempt
    cases strategy with
    | featureVariant => exact absurd rfl hstrategy
    | contextRules | linkRules | nodeRules =>
      simp only [hrules, hfires]
      rfl
  rw [firstResult, hattempt]
  cases rules.find? (·.Applies s.selected) with
  | none => rfl
  | some r =>
    change (some <$> applyRule c strategy multiplier r >>= _) = applyRule c strategy multiplier r
    cases applyRule c strategy multiplier r <;> rfl

/-- Several strategies that go by rules end the search with the first rule that applies among all of
theirs. -/
theorem firstResult_append (rulesOf : Strategy → List Rule) (rest : List Strategy) :
    ∀ strategies : List Strategy,
      (∀ strategy ∈ strategies, strategy ≠ .featureVariant ∧
        s.rulesFor c component strategy = .ok (rulesOf strategy)) →
      s.firstResult c component multiplier (strategies ++ rest) =
        match (strategies.flatMap fun strategy => (rulesOf strategy).map (strategy, ·)).find?
            (·.2.Applies s.selected) with
        | some (strategy, r) => applyRule c strategy multiplier r
        | none => s.firstResult c component multiplier rest
  | [], _ => rfl
  | strategy :: strategies, h => by
    obtain ⟨hstrategy, hrules⟩ := h strategy List.mem_cons_self
    have htail := firstResult_append rulesOf rest strategies fun st hst =>
      h st (List.mem_cons_of_mem _ hst)
    rw [List.cons_append, s.firstResult_cons c component multiplier _ hstrategy hrules, htail,
      List.flatMap_cons, List.find?_append, List.find?_map]
    change _ = match ((rulesOf strategy).find? (·.Applies s.selected)).map (strategy, ·) |>.or _ with
      | some (strategy, r) => _
      | none => _
    cases (rulesOf strategy).find? (·.Applies s.selected) <;> rfl

end Surroundings

/-! ## In memory -/

namespace MemoryCatalogue

/-- The rules in a scope that are valid at a time, in the order in which they were added. -/
def rulesIn (c : MemoryCatalogue) (scope : RuleScope) (asOf : DateTime) : List Rule :=
  c.rules.filter fun r => scope.covers r && r.validAt asOf

/-- The rules that a strategy goes by: those about the parents, the rules of the parent first, or
those of the component alone by ascending sequence. -/
def rulesOf (c : MemoryCatalogue) (s : Surroundings) (component : String) : Strategy → List Rule
  | .contextRules => s.parents.flatMap fun parent => c.rulesIn (.context s.top parent component) s.asOf
  | .linkRules => s.parents.flatMap fun parent => c.rulesIn (.link parent component) s.asOf
  | .nodeRules => sortBy Rule.sequence (c.rulesIn (.node component) s.asOf)
  | .featureVariant => []

/-- All rules that are considered for a component, with their strategies, in the order in which they
are considered. -/
def considered (c : MemoryCatalogue) (s : Surroundings) (component : String) :
    List (Strategy × Rule) :=
  [Strategy.contextRules, .linkRules, .nodeRules].flatMap fun strategy =>
    (c.rulesOf s component strategy).map (strategy, ·)

/-- What a rule that decides makes of a component: it is left out when the substitute is blank, and
gives way to the substitute otherwise, provided that this is to be had. A quantity of the rule
counts when it is positive. -/
def verdict (c : MemoryCatalogue) (multiplier : Float) (strategy : Strategy) (r : Rule) :
    Except EngineError Resolution :=
  match r.substitute.filter (!Text.isBlankText ·) with
  | none => .ok (.removed r strategy)
  | some id =>
    if id ∈ c.failing then .error (.store (failure id))
    else
      match c.product? id with
      | none => .error (.productNotFound id)
      | some p => .ok <| .substituted p r ((r.quantity.filter (· > 0.0)).getD multiplier) strategy

/-- What becomes of a component that no rule decides on: the selected features, if there are any,
put the variant in its place that they leave, if they leave exactly one. -/
def verdictOfFeatures (c : MemoryCatalogue) (selected : List Feature) (component : String)
    (multiplier : Float) : Except EngineError Resolution :=
  if selected = [] then .ok .unchanged
  else if component ∈ c.failing then .error (.store (failure component))
  else
    match c.selectedVariants component selected with
    | [p] => .ok (.substituted p none multiplier .featureVariant)
    | _ => .ok .unchanged

variable (c : MemoryCatalogue) (s : Surroundings)

/-- Every search for rules has an answer. -/
theorem rulesFor_eq (component : String) (strategy : Strategy) :
    s.rulesFor c.catalogue component strategy = .ok (c.rulesOf s component strategy) := by
  have hparents (scope : String → RuleScope) :
      s.rulesOfParents c.catalogue scope =
        .ok (s.parents.flatMap fun parent => c.rulesIn (scope parent) s.asOf) := by
    have hall : s.parents.mapM (fun parent => ask (c.catalogue.rules (scope parent) s.asOf)) =
        .ok (s.parents.map fun parent => c.rulesIn (scope parent) s.asOf) := List.mapM_pure
    unfold Surroundings.rulesOfParents
    rw [hall]
    rfl
  cases strategy with
  | contextRules => exact hparents _
  | linkRules => exact hparents _
  | nodeRules => rfl
  | featureVariant => rfl

/-- The engine takes over an answer of the lists, or the failure of the product. -/
theorem ask_answer {α : Type} (product : String) (a : α) :
    ask (c.answer product a) =
      if product ∈ c.failing then .error (.store (failure product)) else .ok a := by
  unfold answer
  split <;> rfl

/-- A product is found when it is registered and not failing. -/
theorem productOf_eq (id : String) :
    c.catalogue.productOf id =
      if id ∈ c.failing then .error (.store (failure id))
      else
        match c.product? id with
        | none => .error (.productNotFound id)
        | some p => .ok p := by
  unfold Catalogue.productOf
  change (ask (c.answer id (c.product? id)) >>= _) = _
  rw [ask_answer]
  split
  · rfl
  · cases c.product? id <;> rfl

/-- The rule that decides is applied as `verdict` says. -/
theorem applyRule_eq (strategy : Strategy) (multiplier : Float) (r : Rule) :
    Surroundings.applyRule c.catalogue strategy multiplier r = c.verdict multiplier strategy r := by
  unfold Surroundings.applyRule verdict Rule.removesComponent Text.isBlankOption
  rw [Rule.quantityOr_eq]
  cases r.substitute with
  | none => rfl
  | some id =>
    cases hblank : Text.isBlankText id with
    | true =>
      simp only [Option.all_some, hblank, Option.filter_some]
      rfl
    | false =>
      simp only [Option.all_some, hblank, Option.filter_some, Option.getD_some, productOf_eq]
      change ((if id ∈ c.failing then _ else _) >>= _) = if id ∈ c.failing then _ else _
      split
      · rfl
      · cases c.product? id <;> rfl

/-- The selected features decide as `verdictOfFeatures` says. -/
theorem firstResult_featureVariant (component : String) (multiplier : Float) :
    s.firstResult c.catalogue component multiplier [.featureVariant] =
      c.verdictOfFeatures s.selected component multiplier := by
  unfold Surroundings.firstResult Surroundings.attempt Surroundings.applyFeatures verdictOfFeatures
  by_cases hselected : s.selected = []
  · rw [hselected]
    rfl
  · change ((if s.selected.isEmpty = true then _ else
      ask (c.answer component (c.selectedVariants component s.selected)) >>= _) >>= _) = _
    rw [ask_answer, if_neg hselected, if_neg (by simpa using hselected)]
    split
    · rfl
    · rcases c.selectedVariants component s.selected with _ | ⟨p, _ | ⟨q, ps⟩⟩ <;> rfl

/-- A component that is not virtual stays. On a virtual one the first of all considered rules that
applies decides, and the selected features when there is none. -/
theorem resolve_by_first_rule (component : Product) (multiplier : Float) :
    resolve c.catalogue s component multiplier =
      if component.isVirtual then
        match (c.considered s component.id).find? (·.2.Applies s.selected) with
        | some (strategy, r) => c.verdict multiplier strategy r
        | none => c.verdictOfFeatures s.selected component.id multiplier
      else .ok .unchanged := by
  unfold resolve
  split
  · have hrules := s.firstResult_append c.catalogue component.id multiplier
      (c.rulesOf s component.id) [.featureVariant] [.contextRules, .linkRules, .nodeRules]
      fun strategy hstrategy =>
        ⟨by rintro rfl; simp at hstrategy, c.rulesFor_eq s component.id strategy⟩
    refine hrules.trans ?_
    simp only [applyRule_eq, firstResult_featureVariant]
    rfl
  · rfl

/-- The rule for the frame of a bicycle decides and its substitute is registered, but as long as the
questions about the substitute fail, there is an error in its place. -/
theorem resolve_failing_substitute :
    let c := bicycles.failFor "steel frame"
    let s : Surroundings := ⟨"bicycle", "bicycle", none, [], .epoch⟩
    let rule := sampleRule "frame" (some "steel frame")
    let steel := sampleProduct "steel frame" false
    (c.considered s "frame").find? (·.2.Applies s.selected) = some (.nodeRules, rule) ∧
      c.product? "steel frame" = some steel ∧
      resolve c.catalogue s (sampleProduct "frame" true) 1.0 ≠
        .ok (.substituted steel (some rule) 1.0 .nodeRules) ∧
      resolve c.catalogue s (sampleProduct "frame" true) 1.0 =
        .error (.store (failure "steel frame")) := by
  intro c s rule steel
  have herror : resolve c.catalogue s (sampleProduct "frame" true) 1.0 =
      .error (.store (failure "steel frame")) := rfl
  refine ⟨by decide +kernel, by decide +kernel, ?_, herror⟩
  rw [herror]
  exact fun h => nomatch h

end MemoryCatalogue

end Bom
