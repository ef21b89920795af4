import Bom.Proofs.Tree.Run

/-!
# Trees and the answers of a catalogue

While a tree is built, the catalogue is asked about products at will, but about edges only for the
type of bill, the time and the routings of the request, about rules only for its time, and about
variants only for the features that are selected for the whole tree, and never if there are none.
So two catalogues that answer these questions alike give rise to the same tree, and to the same
error and the same notices (`buildTree_congr`).

Below the root this comes down to three questions, since `Unfolding.expand` does nothing else with
what it builds on: which edges a place has, what an edge leads to, and whether to go on
(`Unfolding.Alike`).

* `Catalogue.SameAnswers`: two catalogues answer the questions of a request alike, but for variants.
* `Catalogue.SameVariants`: the variants are the same ones for a selection.
* `Catalogue.SameDecisions`: two selections of features, each with its catalogue, decide alike.
-/

namespace Bom

/-- But for variants, two catalogues answer all questions alike that a request leads to. -/
structure Catalogue.SameAnswers (c c' : Catalogue) (r : TreeRequest) : Prop where
  product : ∀ id, c'.product id = c.product id
  edges : ∀ d product routing, routing = none ∨ routing = r.routing →
    c'.edges d product r.bomType routing r.asOf = c.edges d product r.bomType routing r.asOf
  manufacturedAs : ∀ product, c'.manufacturedAs product r.asOf = c.manufacturedAs product r.asOf
  virtualParent : ∀ product, c'.virtualParent product r.asOf = c.virtualParent product r.asOf
  rules : ∀ scope, c'.rules scope r.asOf = c.rules scope r.asOf
  features : ∀ product, c'.features product r.asOf = c.features product r.asOf
  isStocked : ∀ product, c'.isStocked product none = c.isStocked product none

/-- The catalogue with other variants. -/
def Catalogue.withVariants (c : Catalogue)
    (variants : String → List Feature → Except StoreError (List Product)) : Catalogue :=
  { c with variants }

/-- For a selection of features the given variants are those of the catalogue. For no features
variants do not count. -/
def Catalogue.SameVariants (c : Catalogue)
    (variants : String → List Feature → Except StoreError (List Product))
    (selected : List Feature) : Prop :=
  selected ≠ [] → ∀ family, variants family selected = c.variants family selected

/-- Two selections of features come to the same decisions, each with its catalogue: the same rules
take effect, and the same variants are left, if anything is selected. -/
structure Catalogue.SameDecisions (c c' : Catalogue) (selected selected' : List Feature) :
    Prop where
  fires : ∀ r : Rule, r.fires selected' = r.fires selected
  isEmpty : selected'.isEmpty = selected.isEmpty
  variants : selected ≠ [] → ∀ family, c'.variants family selected' = c.variants family selected

variable {c c' : Catalogue}

theorem Catalogue.SameVariants.sameDecisions {selected : List Feature}
    (h : c.SameVariants c'.variants selected) : c.SameDecisions c' selected selected :=
  ⟨fun _ => rfl, rfl, h⟩

theorem Catalogue.productOf_congr (h : ∀ id, c'.product id = c.product id) (id : String) :
    c'.productOf id = c.productOf id := by
  rw [Catalogue.productOf, Catalogue.productOf, h]

/-! ## Resolving -/

/-- The same place with another selection of features. -/
def Surroundings.select (s : Surroundings) (selected : List Feature) : Surroundings :=
  { s with selected }

section

variable {s : Surroundings} {selected : List Feature}
  (hproduct : ∀ id, c'.product id = c.product id)
  (hrules : ∀ scope, c'.rules scope s.asOf = c.rules scope s.asOf)
  (hdecisions : c.SameDecisions c' s.selected selected)

namespace Surroundings

include hrules in
theorem rulesFor_congr (component : String) (strategy : Strategy) :
    (s.select selected).rulesFor c' component strategy = s.rulesFor c component strategy := by
  have hparents (scope : String → RuleScope) :
      (s.select selected).rulesOfParents c' scope = s.rulesOfParents c scope := by
    change s.rulesOfParents c' scope = _
    unfold rulesOfParents
    simp only [hrules]
  cases strategy with
  | contextRules => exact hparents _
  | linkRules => exact hparents _
  | nodeRules =>
    change s.rulesFor c' component .nodeRules = _
    rw [rulesFor, rulesFor, hrules]
  | featureVariant => rfl

include hproduct in
theorem applyRule_congr (strategy : Strategy) (multiplier : Float) (r : Rule) :
    applyRule c' strategy multiplier r = applyRule c strategy multiplier r := by
  rw [applyRule, applyRule, Catalogue.productOf_congr hproduct]

include hdecisions in
theorem applyFeatures_congr (component : String) (multiplier : Float) :
    (s.select selected).applyFeatures c' component multiplier =
      s.applyFeatures c component multiplier := by
  unfold applyFeatures select
  dsimp only
  rw [hdecisions.isEmpty]
  by_cases hempty : s.selected = []
  · rw [hempty]
    rfl
  · rw [hdecisions.variants hempty]

include hproduct hrules hdecisions

theorem attempt_congr (component : String) (multiplier : Float) (strategy : Strategy) :
    (s.select selected).attempt c' component multiplier strategy =
      s.attempt c component multiplier strategy := by
  have hfires : (fun r : Rule => r.fires (s.select selected).selected) =
      fun r => r.fires s.selected := funext hdecisions.fires
  cases strategy with
  | featureVariant => exact applyFeatures_congr hdecisions component multiplier
  | _ => simp only [attempt, rulesFor_congr hrules, applyRule_congr hproduct, hfires]

theorem firstResult_congr (component : String) (multiplier : Float) (strategies : List Strategy) :
    (s.select selected).firstResult c' component multiplier strategies =
      s.firstResult c component multiplier strategies := by
  induction strategies with
  | nil => rfl
  | cons strategy rest ih =>
    rw [firstResult, firstResult, attempt_congr hproduct hrules hdecisions, ih]

end Surroundings

include hproduct hrules hdecisions

/-- A component is resolved in the same way. -/
theorem resolve_congr (component : Product) (multiplier : Float) :
    resolve c' (s.select selected) component multiplier = resolve c s component multiplier := by
  rw [resolve, resolve, Surroundings.firstResult_congr hproduct hrules hdecisions]

end

/-! ## Unfolding -/

namespace Unfolding

/-- Two unfoldings find the same edges at each place, have each edge lead to the same, and go on at
the same places. -/
structure Alike (u u' : Unfolding) : Prop where
  bomType : u'.bomType = u.bomType
  maxDepth : u'.maxDepth = u.maxDepth
  edgesOf : ∀ self replaced, u'.edgesOf self replaced = u.edgesOf self replaced
  attach : ∀ self replaced edge,
    u'.attach (u'.surroundings self replaced) edge = u.attach (u.surroundings self replaced) edge
  descends : ∀ self replaced, u'.descends self replaced = u.descends self replaced

namespace Alike

variable {u u' : Unfolding} (h : u.Alike u')
  (grow : Occurrence → Option Occurrence → Nat → Noted EngineError (Node × Nat))

include h

theorem settle_eq (self : Occurrence) (replaced : Option Occurrence) (next : Nat) :
    u'.settle grow self replaced next = u.settle grow self replaced next := by
  rw [settle, settle, h.descends]

theorem fill_eq (self : Occurrence) (replaced : Option Occurrence) (edges : List Edge)
    (next : Nat) :
    u'.fill grow (u'.surroundings self replaced) edges next =
      u.fill grow (u.surroundings self replaced) edges next := by
  induction edges generalizing next with
  | nil => rfl
  | cons edge edges ih => simp only [fill, h.attach, h.settle_eq, ih]

/-- A place is unfolded in the same way. -/
theorem expand_eq (room : Nat) (above : List String) (self : Occurrence)
    (replaced : Option Occurrence) (next : Nat) :
    u'.expand room above self replaced next = u.expand room above self replaced next := by
  induction room generalizing above self replaced next with
  | zero => rw [expand, expand, h.maxDepth]
  | succ room ih => simp only [expand, h.edgesOf, h.fill_eq, h.bomType, ih]

end Alike

end Unfolding

/-! ## Building -/

namespace Catalogue.SameAnswers

variable {r : TreeRequest} (h : c.SameAnswers c' r)

include h

/-- Unfoldings of both catalogues for the request are alike, if the selections of features come to
the same decisions. -/
theorem alike {selected selected' : List Feature}
    (hdecisions : c.SameDecisions c' selected selected') (maxDepth : Nat) :
    (⟨c, r.bomType, r.routing, r.asOf, r.mode, selected, r.product, maxDepth⟩ : Unfolding).Alike
      ⟨c', r.bomType, r.routing, r.asOf, r.mode, selected', r.product, maxDepth⟩ where
  bomType := rfl
  maxDepth := rfl
  edgesOf self replaced := by
    apply Unfolding.edgesOf_congr
    · exact fun product routing hrouting =>
        h.edges _ product routing (Unfolding.mem_routings.1 hrouting)
    · rfl
    · rfl
    · rfl
  attach self replaced edge := by
    let s : Surroundings :=
      ⟨r.product, self.product.id, replaced.map (·.product.id), selected, r.asOf⟩
    have hresolve (component : Product) (multiplier : Float) :
        resolve c' (s.select selected') component multiplier = resolve c s component multiplier :=
      resolve_congr h.product h.rules hdecisions component multiplier
    change Unfolding.attach _ (s.select selected') edge = Unfolding.attach _ s edge
    unfold Unfolding.attach Unfolding.attachComponent Unfolding.attachUser
    simp only [Catalogue.productOf_congr h.product, hresolve]
  descends self replaced := by
    unfold Unfolding.descends isWarehouseManaged
    simp only [h.isStocked]

theorem madeAs_eq (product : String) : r.madeAs c' product = r.madeAs c product := by
  rw [TreeRequest.madeAs, TreeRequest.madeAs, h.manufacturedAs]

theorem hasBom_eq (product : String) : r.hasBom c' product = r.hasBom c product := by
  unfold TreeRequest.hasBom
  rw [h.edges _ product r.routing (.inr rfl), h.edges _ product none (.inl rfl)]

theorem manufactured_eq (product : String) :
    r.manufactured c' product = r.manufactured c product := by
  unfold TreeRequest.manufactured
  simp only [h.madeAs_eq, h.hasBom_eq, h.virtualParent]

theorem selected_eq (product : String) : r.selected c' product = r.selected c product := by
  unfold TreeRequest.selected
  rw [h.features]

end Catalogue.SameAnswers

/-- Two catalogues that answer the questions of a request alike give rise to the same tree, and to
the same error if there is none, as long as the variants are the same for the features that are
selected. -/
theorem buildTree_congr {r : TreeRequest} (h : c.SameAnswers c' r)
    (hvariants : ∀ product features, c.productOf r.product = .ok product →
      r.selected c product.id = .ok features → c.SameVariants c'.variants features)
    (maxDepth : Nat) : buildTree c' maxDepth r = buildTree c maxDepth r := by
  unfold buildTree
  rw [Catalogue.productOf_congr h.product]
  refine Noted.bind_congr fun product hproduct => ?_
  rw [h.manufactured_eq]
  refine Noted.bind_congr fun target _ => ?_
  rw [Catalogue.productOf_congr h.product]
  refine Noted.bind_congr fun made _ => ?_
  rw [h.selected_eq]
  refine Noted.bind_congr fun selected hselected => ?_
  rw [Noted.outcome_lift] at hproduct hselected
  have halike := h.alike (hvariants product selected hproduct hselected).sameDecisions maxDepth
  dsimp only
  rw [halike.expand_eq]

/-- Catalogues that differ in nothing but variants give rise to the same tree, and to the same error
if there is none, as long as the variants are the same for the features that are selected. -/
theorem buildTree_withVariants {variants : String → List Feature → Except StoreError (List Product)}
    {r : TreeRequest}
    (h : ∀ product features, c.productOf r.product = .ok product →
      r.selected c product.id = .ok features → c.SameVariants variants features) (maxDepth : Nat) :
    buildTree (c.withVariants variants) maxDepth r = buildTree c maxDepth r := by
  refine buildTree_congr ?_ h maxDepth
  constructor <;> intros <;> rfl

end Bom
