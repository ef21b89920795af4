import Bom.Proofs.Tree.Change

/-!
# Catalogues that keep the same data differently

Two catalogues may keep the same products, edges and rules and yet answer with different records:
one leaves out a number that is of no use, or gives a window of validity back in another form. A
`Rendition` says how the records of the second catalogue come from those of the first. As long as
the engine sees nothing of it (`Rendition.IsFaithful`), the second catalogue gives rise to the
rendition of the tree, and to the same errors (`buildTree_rendered`). The rendition of a tree has
its shape, its numbers, its multipliers and its factors for scrap.
-/

namespace Bom

/-- How products, edges and rules change by being kept somewhere else. -/
structure Rendition where
  product : Product → Product
  edge : Edge → Edge
  rule : Rule → Rule

namespace Rendition

/-- The engine sees nothing of the change: what it looks at stays, and the numbers that it uses in
place of the stored ones do. -/
structure IsFaithful (x : Rendition) : Prop where
  id p : (x.product p).id = p.id
  kind p : (x.product p).kind = p.kind
  isVirtual p : (x.product p).isVirtual = p.isVirtual
  parent e : (x.edge e).parent = e.parent
  child e : (x.edge e).child = e.child
  sequence e : (x.edge e).sequence = e.sequence
  multiplier e : quantityMultiplier (x.edge e).quantity = quantityMultiplier e.quantity
  scrap e : scrapMultiplier (x.edge e).scrap = scrapMultiplier e.scrap
  substitute r : (x.rule r).substitute = r.substitute
  condition r : (x.rule r).condition = r.condition
  operator r : (x.rule r).operator = r.operator
  priority r : (x.rule r).sequence = r.sequence
  quantityOr r : (x.rule r).quantityOr = r.quantityOr

end Rendition

variable (x : Rendition)

/-- The occurrence of what the product, the edge and the rule have become. -/
def Occurrence.render (o : Occurrence) : Occurrence :=
  { o with
    product := x.product o.product
    edge := o.edge.map x.edge
    rule := o.rule.map x.rule }

mutual

/-- The subtree of what its products, edges and rules have become. -/
def Node.render : Node → Node
  | .mk self replaced slots =>
    .mk (self.render x) (replaced.map (Occurrence.render x)) slots.render

/-- The slots of what their edges and nodes have become. -/
def Slots.render : Slots → Slots
  | .nil => .nil
  | .vacant edge rest => .vacant (x.edge edge) rest.render
  | .filled edge child rest => .filled (x.edge edge) child.render rest.render

end

/-- The tree of what its products, edges and rules have become. -/
def Tree.render (t : Tree) : Tree :=
  { t with root := t.root.render x, requested := t.requested.render x }

/-- The resolution with what the product and the rule have become. -/
def Resolution.render : Resolution → Resolution
  | .unchanged => .unchanged
  | .removed rule strategy => .removed (x.rule rule) strategy
  | .substituted product rule multiplier strategy =>
    .substituted (x.product product) (rule.map x.rule) multiplier strategy

/-- The attachment of what its occurrences have become. -/
def Attachment.render : Attachment → Attachment
  | .vacant => .vacant
  | .plain o => .plain (o.render x)
  | .replacing component o => .replacing (component.render x) (o.render x)

/-- A rendition as a change of occurrences and edges. -/
def Rendition.change : Change := ⟨Occurrence.render x, x.edge⟩

mutual

theorem Node.change_rendition : ∀ n : Node, n.change x.change = n.render x
  | .mk self replaced slots => by
    rw [Node.change, Node.render, slots.change_rendition]
    rfl

theorem Slots.change_rendition : ∀ s : Slots, s.change x.change = s.render x
  | .nil => rfl
  | .vacant edge rest => by
    rw [Slots.change, Slots.render, rest.change_rendition]
    rfl
  | .filled edge child rest => by
    rw [Slots.change, Slots.render, child.change_rendition, rest.change_rendition]
    rfl

end

/-- The rendition of a tree is the tree changed place by place. -/
theorem Tree.change_rendition : Tree.change x.change = Tree.render x := by
  funext t
  rw [Tree.change, Tree.render, Node.change_rendition]
  rfl

theorem Attachment.change_rendition : Attachment.change x.change = Attachment.render x := by
  funext a
  cases a <;> rfl

/-- The second catalogue answers with the renditions of what the first one answers, to every
question about the given time that is asked while a tree is built for selected features. -/
structure Catalogue.Renders (c d : Catalogue) (asOf : DateTime) : Prop where
  product id : d.product id = (c.product id).map (Option.map x.product)
  edges direction product bomType routing :
    d.edges direction product bomType routing asOf =
      (c.edges direction product bomType routing asOf).map (List.map x.edge)
  manufacturedAs product : d.manufacturedAs product asOf = c.manufacturedAs product asOf
  virtualParent product : d.virtualParent product asOf = c.virtualParent product asOf
  rules scope : d.rules scope asOf = (c.rules scope asOf).map (List.map x.rule)
  variants family selected :
    d.variants family selected = (c.variants family selected).map (List.map x.product)
  isStocked product facility : d.isStocked product facility = c.isStocked product facility

/-- The same unfolding of another catalogue. -/
def Unfolding.withCatalogue (u : Unfolding) (d : Catalogue) : Unfolding :=
  { u with catalogue := d }

variable {x} {c d : Catalogue} {asOf : DateTime}

namespace Rendition.IsFaithful

variable (hx : x.IsFaithful)

include hx

/-- A rule fires just when its rendition does. -/
theorem fires (r : Rule) (selected : List Feature) :
    (x.rule r).fires selected = r.fires selected := by
  unfold Rule.fires Rule.isMetBy Rule.isUnconditional
  rw [hx.condition, hx.operator]

theorem replacedId (replaced : Option Occurrence) :
    (replaced.map (Occurrence.render x)).map (·.product.id) = replaced.map (·.product.id) := by
  rw [Option.map_map]
  exact congrArg (replaced.map ·) (funext fun o => hx.id o.product)

/-- A component is rendered with the numbers that it had. -/
theorem component (edge : Edge) (product : Product) :
    Unfolding.component (x.edge edge) (x.product product) =
      (Unfolding.component edge product).render x := by
  unfold Unfolding.component
  rw [hx.multiplier, hx.scrap]
  rfl

theorem surroundings (u : Unfolding) (d : Catalogue) (self : Occurrence)
    (replaced : Option Occurrence) :
    (u.withCatalogue d).surroundings (self.render x) (replaced.map (Occurrence.render x)) =
      u.surroundings self replaced := by
  unfold Unfolding.surroundings
  rw [hx.replacedId, show (self.render x).product.id = self.product.id from hx.id self.product]
  rfl

end Rendition.IsFaithful

/-! ## Looking things up -/

theorem ask_map {α β : Type} (answer : Except StoreError α) (f : α → β) :
    ask (answer.map f) = (ask answer).map f := by
  cases answer <;> rfl

section

variable (h : c.Renders x d asOf)

include h

theorem Catalogue.Renders.productOf (id : String) :
    d.productOf id = (c.productOf id).map x.product := by
  unfold Catalogue.productOf
  rw [h.product, ask_map]
  refine bind_of_map fun found => ?_
  cases found <;> rfl

variable (hx : x.IsFaithful) {s : Surroundings} (hs : s.asOf = asOf)

include hs in
theorem Surroundings.rulesOfParents_rendered (scope : String → RuleScope) :
    s.rulesOfParents d scope = (s.rulesOfParents c scope).map (List.map x.rule) := by
  unfold Surroundings.rulesOfParents
  have hasked (parent : String) : ask (d.rules (scope parent) s.asOf) =
      (ask (c.rules (scope parent) s.asOf)).map (List.map x.rule) := by
    rw [hs, h.rules, ask_map]
  rw [mapM_of_map hasked]
  refine bind_of_map fun found => ?_
  rw [← List.map_flatten]
  rfl

include hx hs in
theorem Surroundings.rulesFor_rendered (component : String) (strategy : Strategy) :
    s.rulesFor d component strategy = (s.rulesFor c component strategy).map (List.map x.rule) := by
  cases strategy with
  | contextRules => exact Surroundings.rulesOfParents_rendered h hs _
  | linkRules => exact Surroundings.rulesOfParents_rendered h hs _
  | nodeRules =>
    unfold Surroundings.rulesFor
    dsimp only
    rw [hs, h.rules, ask_map]
    refine bind_of_map fun found => ?_
    rw [sortBy_map hx.priority]
    rfl
  | featureVariant => rfl

include hx in
theorem Surroundings.applyRule_rendered (strategy : Strategy) (multiplier : Float) (r : Rule) :
    applyRule d strategy multiplier (x.rule r) =
      (applyRule c strategy multiplier r).map (Resolution.render x) := by
  unfold applyRule Rule.removesComponent
  rw [hx.substitute, hx.quantityOr, h.productOf]
  split
  · rfl
  · exact bind_of_map fun _ => rfl

theorem Surroundings.applyFeatures_rendered (component : String) (multiplier : Float) :
    s.applyFeatures d component multiplier =
      (s.applyFeatures c component multiplier).map (Option.map (Resolution.render x)) := by
  unfold applyFeatures
  rw [h.variants, ask_map]
  split
  · rfl
  · refine bind_of_map fun found => ?_
    rcases found with _ | ⟨product, _ | ⟨second, rest⟩⟩ <;> rfl

include hx hs in
theorem Surroundings.attempt_rendered (component : String) (multiplier : Float)
    (strategy : Strategy) :
    s.attempt d component multiplier strategy =
      (s.attempt c component multiplier strategy).map (Option.map (Resolution.render x)) := by
  unfold Surroundings.attempt
  split
  · exact Surroundings.applyFeatures_rendered h component multiplier
  · rw [Surroundings.rulesFor_rendered h hx hs]
    refine bind_of_map fun rules => ?_
    have hfires : (fun r => Rule.fires r s.selected) ∘ x.rule = (·.fires s.selected) :=
      funext fun r => hx.fires r s.selected
    rw [List.find?_map, hfires]
    cases rules.find? (·.fires s.selected) with
    | none => rfl
    | some r =>
      dsimp only [Option.map_some]
      rw [Surroundings.applyRule_rendered h hx, map_eq_pure_bind, map_eq_pure_bind]
      exact bind_of_map fun _ => rfl

include hx hs in
theorem Surroundings.firstResult_rendered (component : String) (multiplier : Float)
    (strategies : List Strategy) :
    s.firstResult d component multiplier strategies =
      (s.firstResult c component multiplier strategies).map (Resolution.render x) := by
  induction strategies with
  | nil => rfl
  | cons strategy rest ih =>
    unfold Surroundings.firstResult
    rw [Surroundings.attempt_rendered h hx hs]
    refine bind_of_map fun result => ?_
    cases result with
    | some result => rfl
    | none => exact ih

include hx hs in
/-- A component is resolved in the same way. -/
theorem resolve_rendered (component : Product) (multiplier : Float) :
    resolve d s (x.product component) multiplier =
      (resolve c s component multiplier).map (Resolution.render x) := by
  unfold resolve
  rw [hx.isVirtual, hx.id]
  split
  · exact Surroundings.firstResult_rendered h hx hs _ _ _
  · rfl

include hx in
/-- The same products are managed by a warehouse. -/
theorem isWarehouseManaged_rendered (product : Product) (replaced : Option Product)
    (facility : Option String) :
    isWarehouseManaged d (x.product product) (replaced.map x.product) facility =
      isWarehouseManaged c product replaced facility := by
  unfold isWarehouseManaged Product.isWip
  rw [hx.kind, hx.id, h.isStocked]
  cases replaced with
  | none => rfl
  | some r =>
    dsimp only [Option.map_some]
    rw [hx.id, h.isStocked]

end

/-! ## Unfolding -/

namespace Unfolding

variable {u : Unfolding}

variable (h : u.catalogue.Renders x d u.asOf)

include h

theorem firstEdges_rendered (places : List (Option String × String)) :
    (u.withCatalogue d).firstEdges places = (u.firstEdges places).map (List.map x.edge) := by
  induction places with
  | nil => rfl
  | cons place rest ih =>
    obtain ⟨routing, product⟩ := place
    unfold firstEdges
    change (ask (d.edges u.direction product u.bomType routing u.asOf) >>= _) = _
    rw [h.edges, ask_map]
    refine bind_of_map fun found => ?_
    cases found with
    | nil => exact ih
    | cons edge edges => rfl

variable (hx : x.IsFaithful)

include hx

theorem edgesOf_rendered (self : Occurrence) (replaced : Option Occurrence) :
    (u.withCatalogue d).edgesOf (self.render x) (replaced.map (Occurrence.render x)) =
      (u.edgesOf self replaced).map (List.map x.edge) := by
  unfold edgesOf
  rw [hx.replacedId]
  change ((u.withCatalogue d).firstEdges (u.sources (x.product self.product).id _) >>= _) = _
  rw [hx.id, firstEdges_rendered h]
  refine bind_of_map fun found => ?_
  rw [sortBy_map hx.sequence]
  rfl

theorem attachComponent_rendered {s : Surroundings} (hs : s.asOf = u.asOf) (edge : Edge) :
    ((u.withCatalogue d).attachComponent s (x.edge edge)).outcome =
      (u.attachComponent s edge).outcome.map (Attachment.render x) := by
  unfold attachComponent
  change (Noted.lift (d.productOf (x.edge edge).child) >>= _).outcome = _
  rw [hx.child, h.productOf]
  -- a catalogue may give notices that the other does not give, so only the outcomes agree
  refine Noted.outcome_bind_of_map rfl fun product => ?_
  refine Noted.outcome_bind_of_map (k := id) rfl fun _ => ?_
  refine Noted.outcome_bind_of_map (k := id) rfl fun _ => ?_
  rw [hx.component]
  refine Noted.outcome_bind_of_map (resolve_rendered h hx hs product _) fun resolution => ?_
  cases resolution <;> rfl

/-- The rendition of an edge leads to the rendition of what the edge leads to. -/
theorem attach_rendered {s : Surroundings} (hs : s.asOf = u.asOf) (edge : Edge) :
    ((u.withCatalogue d).attach s (x.edge edge)).outcome =
      (u.attach s edge).outcome.map (Attachment.render x) := by
  unfold attach
  change (if u.mode.isExplosion then _ else _ : Noted EngineError Attachment).outcome = _
  split
  · exact attachComponent_rendered h hx hs edge
  · unfold attachUser
    change (Noted.lift (d.productOf (x.edge edge).parent) >>= _).outcome = _
    rw [hx.parent, h.productOf]
    exact Noted.outcome_bind_of_map rfl fun product => rfl

theorem descends_rendered (self : Occurrence) (replaced : Option Occurrence) :
    (u.withCatalogue d).descends (self.render x) (replaced.map (Occurrence.render x)) =
      u.descends self replaced := by
  have hreplaced : (replaced.map (Occurrence.render x)).map (·.product) =
      (replaced.map (·.product)).map x.product := by
    rw [Option.map_map, Option.map_map]
    rfl
  unfold descends
  rw [show (u.withCatalogue d).mode = u.mode from rfl]
  cases u.mode with
  | manufacturing =>
    change (isWarehouseManaged d (x.product self.product) _ none >>= _) = _
    rw [hreplaced, isWarehouseManaged_rendered h hx]
  | _ => rfl

/-- The unfolding goes side by side with the one of the first catalogue. -/
theorem follows_rendered : u.Follows x.change (u.withCatalogue d) where
  keeps := ⟨fun o => hx.id o.product, fun _ _ => rfl, fun _ _ => rfl⟩
  bomType := rfl
  maxDepth := rfl
  edgesOf := edgesOf_rendered h hx
  attach self replaced edge := by
    have hsame : (u.withCatalogue d).surroundings (x.change.occurrence self)
        (replaced.map x.change.occurrence) = u.surroundings self replaced :=
      hx.surroundings u d self replaced
    rw [hsame, Attachment.change_rendition]
    exact attach_rendered h hx rfl edge
  descends := descends_rendered h hx

end Unfolding

/-! ## Building -/

namespace TreeRequest

variable {r : TreeRequest} (h : c.Renders x d r.asOf)

include h

theorem hasBom_rendered (product : String) : r.hasBom d product = r.hasBom c product := by
  have hempty (found : List Edge) : (found.map x.edge).isEmpty = found.isEmpty := List.isEmpty_map
  have hgeneric : (do
      let generic ← ask (d.edges .components product r.bomType none r.asOf)
      pure !generic.isEmpty : Except EngineError Bool) = (do
      let generic ← ask (c.edges .components product r.bomType none r.asOf)
      pure !generic.isEmpty) := by
    rw [h.edges, ask_map]
    cases ask (c.edges .components product r.bomType none r.asOf) with
    | error e => rfl
    | ok found => exact congrArg (fun b => Except.ok !b) (hempty found)
  unfold hasBom
  rw [hgeneric, h.edges, ask_map]
  cases r.routing with
  | none => rfl
  | some routing =>
    cases ask (c.edges .components product r.bomType (some routing) r.asOf) with
    | error e => rfl
    | ok found =>
      change (if (found.map x.edge).isEmpty then _ else _) = if found.isEmpty then _ else _
      rw [hempty]

theorem madeAs_rendered (product : String) : r.madeAs d product = r.madeAs c product := by
  unfold madeAs
  rw [h.manufacturedAs]

theorem manufactured_rendered (product : String) :
    r.manufactured d product = r.manufactured c product := by
  unfold manufactured
  simp only [madeAs_rendered h, hasBom_rendered h, h.virtualParent]

end TreeRequest

/-- A catalogue that answers with renditions gives rise to the rendition of the tree, and to the
same errors, for a request with the same selected features. -/
theorem buildTree_rendered {r : TreeRequest} (hx : x.IsFaithful) (h : c.Renders x d r.asOf)
    (hselected : ∀ product, r.selected d product = r.selected c product) (maxDepth : Nat) :
    (buildTree d maxDepth r).outcome = (buildTree c maxDepth r).outcome.map (Tree.render x) := by
  rw [← Tree.change_rendition]
  exact buildTree_changed (fun _ _ => rfl) h.productOf (TreeRequest.manufactured_rendered h)
    hselected fun selected => Unfolding.follows_rendered (u :=
      ⟨c, r.bomType, r.routing, r.asOf, r.mode, selected, r.product, maxDepth⟩) h hx

end Bom
