import Bom.Proofs.Catalogue
import Bom.Stock

/-!
# Looking things up

Resolving a component, asking the warehouse and naming the product to be made are questions to the
catalogue and nothing else. So they fail only where the catalogue fails or lacks a product
(`OnlyAsks`), and every product that a resolution brings in is one that the catalogue has given
(`Catalogue.Supplies`).

* `resolve_onlyAsks`, `isWarehouseManaged_onlyAsks`: how the questions can fail.
* `resolve_brings`: where a substitute comes from.
-/

namespace Bom

/-! ## How lookups fail -/

/-- The error is one of the catalogue: an answer that failed, or a product that is not there. -/
def EngineError.IsOfCatalogue : EngineError → Prop
  | .store _ => True
  | .productNotFound _ => True
  | _ => False

variable {α β : Type}

/-- Every error of the work is one of the catalogue. -/
def OnlyAsks (x : Except EngineError α) : Prop :=
  ∀ e, x = .error e → e.IsOfCatalogue

theorem onlyAsks_ok (a : α) : OnlyAsks (.ok a) := by
  intro e h
  cases h

theorem onlyAsks_pure (a : α) : OnlyAsks (pure a) := onlyAsks_ok a

theorem onlyAsks_ask (answer : Except StoreError α) : OnlyAsks (ask answer) := by
  intro e h
  cases answer with
  | error fault =>
    cases h
    trivial
  | ok a => cases h

/-- Work that is composed of lookups is a lookup. -/
theorem OnlyAsks.bind {x : Except EngineError α} {f : α → Except EngineError β} (hx : OnlyAsks x)
    (hf : ∀ a, OnlyAsks (f a)) : OnlyAsks (x >>= f) := by
  intro e h
  cases x with
  | error e' =>
    cases h
    exact hx e rfl
  | ok a => exact hf a e h

/-- A list of lookups is a lookup. -/
theorem OnlyAsks.mapM {f : α → Except EngineError β} (hf : ∀ a, OnlyAsks (f a)) (xs : List α) :
    OnlyAsks (xs.mapM f) := by
  induction xs with
  | nil => exact onlyAsks_pure []
  | cons a xs ih =>
    rw [List.mapM_cons]
    exact (hf a).bind fun _ => ih.bind fun _ => onlyAsks_pure _

theorem Catalogue.productOf_onlyAsks (c : Catalogue) (id : String) : OnlyAsks (c.productOf id) := by
  refine (onlyAsks_ask _).bind fun found => ?_
  cases found with
  | some p => exact onlyAsks_ok p
  | none =>
    intro e h
    cases h
    trivial

namespace Surroundings

variable (s : Surroundings) (c : Catalogue) (component : String) (multiplier : Float)

theorem rulesFor_onlyAsks (strategy : Strategy) : OnlyAsks (s.rulesFor c component strategy) := by
  have hparents (scope : String → RuleScope) : OnlyAsks (s.rulesOfParents c scope) :=
    (OnlyAsks.mapM (fun _ => onlyAsks_ask _) s.parents).bind fun _ => onlyAsks_pure _
  cases strategy with
  | contextRules => exact hparents _
  | linkRules => exact hparents _
  | nodeRules => exact (onlyAsks_ask _).bind fun _ => onlyAsks_pure _
  | featureVariant => exact onlyAsks_pure _

theorem applyRule_onlyAsks (strategy : Strategy) (r : Rule) :
    OnlyAsks (applyRule c strategy multiplier r) := by
  unfold applyRule
  split
  · exact onlyAsks_pure _
  · exact (c.productOf_onlyAsks _).bind fun _ => onlyAsks_pure _

theorem applyFeatures_onlyAsks : OnlyAsks (s.applyFeatures c component multiplier) := by
  unfold applyFeatures
  split
  · exact onlyAsks_pure _
  · refine (onlyAsks_ask _).bind fun found => ?_
    split <;> exact onlyAsks_pure _

theorem attempt_onlyAsks (strategy : Strategy) :
    OnlyAsks (s.attempt c component multiplier strategy) := by
  unfold attempt
  split
  · exact s.applyFeatures_onlyAsks c component multiplier
  · refine (s.rulesFor_onlyAsks c component _).bind fun rules => ?_
    split
    · rw [map_eq_pure_bind]
      exact (applyRule_onlyAsks c multiplier _ _).bind fun _ => onlyAsks_pure _
    · exact onlyAsks_pure _

theorem firstResult_onlyAsks (strategies : List Strategy) :
    OnlyAsks (s.firstResult c component multiplier strategies) := by
  induction strategies with
  | nil => exact onlyAsks_pure _
  | cons strategy rest ih =>
    refine (s.attempt_onlyAsks c component multiplier strategy).bind fun result => ?_
    cases result with
    | some result => exact onlyAsks_pure _
    | none => exact ih

end Surroundings

/-- Resolving a component fails only as the catalogue does. -/
theorem resolve_onlyAsks (c : Catalogue) (s : Surroundings) (component : Product)
    (multiplier : Float) : OnlyAsks (resolve c s component multiplier) := by
  unfold resolve
  split
  · exact s.firstResult_onlyAsks c component.id multiplier _
  · exact onlyAsks_pure _

/-- Asking for the warehouse fails only as the catalogue does. -/
theorem isWarehouseManaged_onlyAsks (c : Catalogue) (product : Product) (replaced : Option Product)
    (facility : Option String) : OnlyAsks (isWarehouseManaged c product replaced facility) := by
  unfold isWarehouseManaged
  split
  · exact onlyAsks_pure _
  · refine (onlyAsks_ask _).bind fun stocked => ?_
    split
    · exact onlyAsks_pure _
    · cases replaced with
      | some v => exact onlyAsks_ask _
      | none => exact onlyAsks_pure _

/-! ## Where substitutes come from -/

/-- Every product that the catalogue gives has the property. -/
structure Catalogue.Supplies (c : Catalogue) (P : Product → Prop) : Prop where
  product : ∀ {id p}, c.product id = .ok (some p) → P p
  variants : ∀ {family selected ps}, c.variants family selected = .ok ps → ∀ p ∈ ps, P p

/-- A property that follows from one of all products is one of all products. -/
theorem Catalogue.Supplies.mono {c : Catalogue} {P Q : Product → Prop} (h : c.Supplies P)
    (hPQ : ∀ p, P p → Q p) : c.Supplies Q where
  product hp := hPQ _ (h.product hp)
  variants hps p hp := hPQ p (h.variants hps p hp)

/-- A catalogue in memory gives the products that are registered in it. -/
theorem MemoryCatalogue.supplies (c : MemoryCatalogue) : c.catalogue.Supplies (· ∈ c.products) where
  product h := (mem_products_of_product? (answer_eq_ok.1 h).2).1
  variants h p hp := by
    obtain ⟨-, rfl⟩ := answer_eq_ok.1 h
    obtain ⟨i, -, hi⟩ := List.mem_filterMap.1 hp
    obtain ⟨v, -, hv⟩ := Option.bind_eq_some_iff.1 hi
    exact (mem_products_of_product? hv).1

/-- A product that a resolution puts in the place of the component has the property. -/
def Resolution.Brings (P : Product → Prop) : Resolution → Prop
  | .substituted product _ _ _ => P product
  | _ => True

/-- The quantity of a rule counts when it is positive. -/
theorem Rule.quantityOr_eq (r : Rule) (q : Float) :
    r.quantityOr q = (r.quantity.filter (· > 0.0)).getD q := by
  unfold quantityOr
  cases r.quantity with
  | none => rfl
  | some own =>
    rw [Option.filter_some]
    by_cases h : own > 0.0 <;> simp [h]

namespace Surroundings

variable {s : Surroundings} {c : Catalogue} {P : Product → Prop} {component : String}
  {multiplier : Float}

theorem applyRule_brings (hc : c.Supplies P) {strategy : Strategy} {r : Rule} {result : Resolution}
    (h : applyRule c strategy multiplier r = .ok result) : result.Brings P := by
  unfold applyRule at h
  split at h
  · cases h
    trivial
  · obtain ⟨product, hproduct, h⟩ := bind_eq_ok.1 h
    cases h
    exact hc.product (Catalogue.productOf_eq_ok.1 hproduct)

theorem applyFeatures_brings (hc : c.Supplies P) {result : Resolution}
    (h : s.applyFeatures c component multiplier = .ok (some result)) : result.Brings P := by
  unfold applyFeatures at h
  split at h
  · cases h
  · obtain ⟨found, hask, h⟩ := bind_eq_ok.1 h
    split at h
    · cases h
      exact hc.variants (ask_eq_ok.1 hask) _ List.mem_cons_self
    · cases h

theorem attempt_brings (hc : c.Supplies P) {strategy : Strategy} {result : Resolution}
    (h : s.attempt c component multiplier strategy = .ok (some result)) : result.Brings P := by
  unfold attempt at h
  split at h
  · exact applyFeatures_brings hc h
  · obtain ⟨rules, -, h⟩ := bind_eq_ok.1 h
    split at h
    · rw [map_eq_pure_bind] at h
      obtain ⟨applied, happlied, h⟩ := bind_eq_ok.1 h
      cases h
      exact applyRule_brings hc happlied
    · cases h

theorem firstResult_brings (hc : c.Supplies P) {result : Resolution} :
    ∀ {strategies : List Strategy},
      s.firstResult c component multiplier strategies = .ok result → result.Brings P
  | [], h => by
    cases h
    trivial
  | strategy :: rest, h => by
    obtain ⟨found, hfound, h⟩ := bind_eq_ok.1 h
    cases found with
    | some found =>
      cases h
      exact attempt_brings hc hfound
    | none => exact firstResult_brings hc h

end Surroundings

/-- What takes the place of a component comes from the catalogue. -/
theorem resolve_brings {s : Surroundings} {c : Catalogue} {P : Product → Prop} (hc : c.Supplies P)
    {component : Product} {multiplier : Float} {result : Resolution}
    (h : resolve c s component multiplier = .ok result) : result.Brings P := by
  unfold resolve at h
  split at h
  · exact Surroundings.firstResult_brings hc h
  · cases h
    trivial

end Bom
