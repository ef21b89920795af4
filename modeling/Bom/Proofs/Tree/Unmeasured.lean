import Bom.Proofs.Tree.Rendition
import Bom.Proofs.Tree.Units

/-!
# Trees without the numbers of edges

The quantities and scraps of edges decide nothing while a tree is built: they pass through the
resolution of a component into its factors, and nothing asks for them again. So a catalogue whose
edges have lost their numbers gives rise to the same tree, but for the factors, and to the same
errors (`buildTree_unmeasured`). Catalogues that differ in nothing but these numbers then agree on
which trees there are (`buildTree_eq_of_unmeasured`).
-/

namespace Bom

/-- The edge without its quantity and its scrap. -/
def Edge.unmeasured (e : Edge) : Edge := { e with quantity := none, scrap := none }

/-- The occurrence as it would be if its edge had no numbers. -/
def Occurrence.unmeasured (o : Occurrence) : Occurrence :=
  { o with edge := o.edge.map Edge.unmeasured, multiplier := unitsBy o.rule 1.0, scrap := 1.0 }

/-- The loss of the numbers of edges, as a change of occurrences and edges. -/
def Change.unmeasured : Change := ⟨Occurrence.unmeasured, Edge.unmeasured⟩

/-- The tree as it would be if edges had no numbers. -/
def Tree.unmeasured (t : Tree) : Tree := t.change .unmeasured

/-- The catalogue with edges that have lost their numbers. -/
def Catalogue.unmeasured (c : Catalogue) : Catalogue :=
  { c with
    edges d product bomType routing asOf :=
      (c.edges d product bomType routing asOf).map (List.map Edge.unmeasured) }

/-- Edges that have lost their numbers are a rendition of the edges, though not a faithful one. -/
def Rendition.unmeasured : Rendition := ⟨id, Edge.unmeasured, id⟩

theorem Catalogue.renders_unmeasured (c : Catalogue) (asOf : DateTime) :
    c.Renders .unmeasured c.unmeasured asOf where
  product key := by
    change c.product key = (c.product key).map (Option.map id)
    rw [Option.map_id, Except.map_id]
    rfl
  edges _ _ _ _ := rfl
  manufacturedAs _ := rfl
  virtualParent _ := rfl
  rules scope := by
    change c.rules scope asOf = (c.rules scope asOf).map (List.map id)
    rw [List.map_id_fun, Except.map_id]
    rfl
  variants family selected := by
    change c.variants family selected = (c.variants family selected).map (List.map id)
    rw [List.map_id_fun, Except.map_id]
    rfl
  isStocked _ _ := rfl

namespace Unfolding

variable (u : Unfolding)

theorem edgesOf_unmeasured (self : Occurrence) (replaced : Option Occurrence) :
    (u.withCatalogue u.catalogue.unmeasured).edgesOf self.unmeasured
        (replaced.map Occurrence.unmeasured) =
      (u.edgesOf self replaced).map (List.map Edge.unmeasured) := by
  have hreplaced : (replaced.map Occurrence.unmeasured).map (·.product.id) =
      replaced.map (·.product.id) := by
    rw [Option.map_map]
    rfl
  unfold edgesOf
  rw [hreplaced]
  change ((u.withCatalogue u.catalogue.unmeasured).firstEdges (u.sources self.product.id _) >>= _) =
    _
  rw [firstEdges_rendered (u.catalogue.renders_unmeasured u.asOf)]
  refine bind_of_map fun found => ?_
  rw [sortBy_map fun _ => rfl]
  rfl

theorem attach_unmeasured (s : Surroundings) (edge : Edge) :
    ((u.withCatalogue u.catalogue.unmeasured).attach s edge.unmeasured).outcome =
      (u.attach s edge).outcome.map (Attachment.change .unmeasured) := by
  unfold attach
  change (if u.mode.isExplosion then _ else _ : Noted EngineError Attachment).outcome = _
  split
  · unfold attachComponent
    change (Noted.lift (u.catalogue.productOf edge.child) >>= _).outcome = _
    refine Noted.outcome_bind_of_forall fun product => ?_
    -- without numbers there are other notices, so only the outcomes agree
    refine Noted.outcome_bind_of_map (k := id) rfl fun _ => ?_
    refine Noted.outcome_bind_of_map (k := id) rfl fun _ => ?_
    have hresolve : resolve u.catalogue.unmeasured s product 1.0 =
        (resolve u.catalogue s product (quantityMultiplier edge.quantity)).map
          (Resolution.withUnits 1.0) :=
      resolve_withUnits u.catalogue s product _ 1.0
    refine Noted.outcome_bind_of_map hresolve fun resolution => ?_
    cases resolution <;> rfl
  · unfold attachUser
    change (Noted.lift (u.catalogue.productOf edge.parent) >>= _).outcome = _
    exact Noted.outcome_bind_of_forall fun _ => rfl

/-- The unfolding goes side by side with the one without the numbers of edges. -/
theorem follows_unmeasured :
    u.Follows .unmeasured (u.withCatalogue u.catalogue.unmeasured) where
  keeps := ⟨fun _ => rfl, fun _ _ => rfl, fun _ _ => rfl⟩
  bomType := rfl
  maxDepth := rfl
  edgesOf := u.edgesOf_unmeasured
  attach self replaced edge := by
    have hsame : (u.withCatalogue u.catalogue.unmeasured).surroundings self.unmeasured
        (replaced.map Occurrence.unmeasured) = u.surroundings self replaced := by
      unfold surroundings
      rw [Option.map_map]
      rfl
    change (attach _ ((u.withCatalogue u.catalogue.unmeasured).surroundings self.unmeasured
      (replaced.map Occurrence.unmeasured)) edge.unmeasured).outcome = _
    rw [hsame]
    exact u.attach_unmeasured _ edge
  descends self replaced := by
    have hsame : (replaced.map Occurrence.unmeasured).map (·.product) =
        replaced.map (·.product) := by
      rw [Option.map_map]
      rfl
    change descends _ self.unmeasured (replaced.map Occurrence.unmeasured) = _
    unfold descends
    rw [hsame]
    rfl

end Unfolding

/-- Without the numbers of its edges a catalogue gives rise to the same tree, but for the factors,
and to the same errors. -/
theorem buildTree_unmeasured (c : Catalogue) (maxDepth : Nat) (r : TreeRequest) :
    (buildTree c.unmeasured maxDepth r).outcome =
      (buildTree c maxDepth r).outcome.map Tree.unmeasured := by
  refine buildTree_changed (fun _ _ => rfl) (f := id) (fun key => ?_)
    (TreeRequest.manufactured_rendered (c.renders_unmeasured r.asOf)) (fun _ => rfl)
    fun selected => Unfolding.follows_unmeasured
      ⟨c, r.bomType, r.routing, r.asOf, r.mode, selected, r.product, maxDepth⟩
  rw [Except.map_id]
  rfl

/-- Catalogues that differ in nothing but the numbers of edges give rise to trees that differ in
nothing but their factors, and to the same errors. -/
theorem buildTree_eq_of_unmeasured {c d : Catalogue} (h : c.unmeasured = d.unmeasured)
    (maxDepth : Nat) (r : TreeRequest) :
    (buildTree c maxDepth r).outcome.map Tree.unmeasured =
      (buildTree d maxDepth r).outcome.map Tree.unmeasured := by
  rw [← buildTree_unmeasured, h, buildTree_unmeasured]

end Bom
