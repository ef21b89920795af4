import Bom.Proofs.Outcome
import Bom.Tree.Build

/-!
# Unfoldings side by side

One tree is unfolded beside another one, and what stands at a place of the second tree is what its
counterpart in the first tree has been changed into. While a place is unfolded, three questions are
asked about it: which edges it has, what an edge leads to, and whether to go on. Where the answers
of both sides correspond (`Unfolding.Follows`), so do all that is built on them: the places with
everything below them (`Unfolding.Follows.expand_eq`), the trees for a request, and the errors where
there is none (`buildTree_changed`). Notices may differ.
-/

namespace Bom

/-- What occurrences and edges are changed into. -/
structure Change where
  occurrence : Occurrence → Occurrence
  edge : Edge → Edge

/-- The change leaves alone what an unfolding looks at and what it writes. -/
structure Change.Keeps (x : Change) : Prop where
  id o : (x.occurrence o).product.id = o.product.id
  number o number : x.occurrence { o with number } = { x.occurrence o with number }
  bomType o bomType : x.occurrence { o with bomType } = { x.occurrence o with bomType }

variable (x : Change)

mutual

/-- The subtree with its occurrences and edges changed. -/
def Node.change : Node → Node
  | .mk self replaced slots =>
    .mk (x.occurrence self) (replaced.map x.occurrence) slots.change

/-- The slots with their edges and nodes changed. -/
def Slots.change : Slots → Slots
  | .nil => .nil
  | .vacant edge rest => .vacant (x.edge edge) rest.change
  | .filled edge child rest => .filled (x.edge edge) child.change rest.change

end

/-- The tree with its occurrences and edges changed. -/
def Tree.change (t : Tree) : Tree :=
  { t with root := t.root.change x, requested := x.occurrence t.requested }

/-- What an edge leads to, with its occurrences changed. -/
def Attachment.change : Attachment → Attachment
  | .vacant => .vacant
  | .plain o => .plain (x.occurrence o)
  | .replacing component o => .replacing (x.occurrence component) (x.occurrence o)

namespace Unfolding

/-- The second unfolding finds the changed edges at a changed place, has them lead to what the edges
of the first one lead to, and goes on where the first one does. -/
structure Follows (u u' : Unfolding) : Prop where
  keeps : x.Keeps
  bomType : u'.bomType = u.bomType
  maxDepth : u'.maxDepth = u.maxDepth
  edgesOf self replaced :
    u'.edgesOf (x.occurrence self) (replaced.map x.occurrence) =
      (u.edgesOf self replaced).map (List.map x.edge)
  attach self replaced edge :
    (u'.attach (u'.surroundings (x.occurrence self) (replaced.map x.occurrence))
        (x.edge edge)).outcome =
      (u.attach (u.surroundings self replaced) edge).outcome.map (Attachment.change x)
  descends self replaced :
    u'.descends (x.occurrence self) (replaced.map x.occurrence) = u.descends self replaced

namespace Follows

variable {x} {u u' : Unfolding} (h : u.Follows x u')
  {grow grow' : Occurrence → Option Occurrence → Nat → Noted EngineError (Node × Nat)}
  (hgrow : ∀ self replaced next,
    (grow' (x.occurrence self) (replaced.map x.occurrence) next).outcome =
      (grow self replaced next).outcome.map (Prod.map (Node.change x) id))

include h hgrow

theorem settle_eq (self : Occurrence) (replaced : Option Occurrence) (next : Nat) :
    (u'.settle grow' (x.occurrence self) (replaced.map x.occurrence) next).outcome =
      (u.settle grow self replaced next).outcome.map (Prod.map (Node.change x) id) := by
  unfold settle
  rw [h.descends]
  refine Noted.outcome_bind_of_forall fun descends => ?_
  cases descends with
  | true => exact hgrow self replaced next
  | false => rfl

theorem fill_eq (self : Occurrence) (replaced : Option Occurrence) (edges : List Edge)
    (next : Nat) :
    (u'.fill grow' (u'.surroundings (x.occurrence self) (replaced.map x.occurrence))
        (edges.map x.edge) next).outcome =
      (u.fill grow (u.surroundings self replaced) edges next).outcome.map
        (Prod.map (Slots.change x) id) := by
  induction edges generalizing next with
  | nil => rfl
  | cons edge edges ih =>
    unfold fill
    refine Noted.outcome_bind_of_map (h.attach self replaced edge) fun attached => ?_
    cases attached with
    | vacant => exact Noted.outcome_bind_of_map (ih next) fun _ => rfl
    | plain o =>
      have hsettle := h.settle_eq hgrow { o with number := next } none (next + 1)
      rw [h.keeps.number o] at hsettle
      refine Noted.outcome_bind_of_map hsettle fun settled => ?_
      obtain ⟨child, mid⟩ := settled
      exact Noted.outcome_bind_of_map (ih mid) fun _ => rfl
    | replacing component o =>
      have hsettle := h.settle_eq hgrow { o with number := next + 1 }
        (some { component with number := next }) (next + 2)
      rw [h.keeps.number o, Option.map_some, h.keeps.number component] at hsettle
      refine Noted.outcome_bind_of_map hsettle fun settled => ?_
      obtain ⟨child, mid⟩ := settled
      exact Noted.outcome_bind_of_map (ih mid) fun _ => rfl

omit hgrow in
/-- A changed place is unfolded to what is below the place, changed. -/
theorem expand_eq (room : Nat) (above : List String) (self : Occurrence)
    (replaced : Option Occurrence) (next : Nat) :
    (u'.expand room above (x.occurrence self) (replaced.map x.occurrence) next).outcome =
      (u.expand room above self replaced next).outcome.map (Prod.map (Node.change x) id) := by
  induction room generalizing above self replaced next with
  | zero =>
    unfold expand
    rw [h.keeps.id, h.maxDepth]
    rfl
  | succ room ih =>
    unfold expand
    rw [h.keeps.id, h.edgesOf]
    split
    · rfl
    · refine Noted.outcome_bind_of_map rfl fun edges => ?_
      have hgrow := ih (self.product.id :: above)
      refine Noted.outcome_bind_of_map (h.fill_eq hgrow self replaced edges next) fun built => ?_
      rw [← h.keeps.bomType, h.bomType]
      rfl

end Follows

end Unfolding

/-- Two catalogues whose unfoldings go side by side for a request give rise to trees of which the
second one is the first one changed, and to the same errors, if they answer alike to all that is
asked before. -/
theorem buildTree_changed {x : Change} {f : Product → Product} {c d : Catalogue}
    {r : TreeRequest} {maxDepth : Nat}
    (hdetached : ∀ number p, x.occurrence (.detached number p) = .detached number (f p))
    (hproduct : ∀ id, d.productOf id = (c.productOf id).map f)
    (hmanufactured : ∀ id, r.manufactured d id = r.manufactured c id)
    (hselected : ∀ id, r.selected d id = r.selected c id)
    (hfollows : ∀ selected,
      (⟨c, r.bomType, r.routing, r.asOf, r.mode, selected, r.product, maxDepth⟩ : Unfolding).Follows
        x ⟨d, r.bomType, r.routing, r.asOf, r.mode, selected, r.product, maxDepth⟩) :
    (buildTree d maxDepth r).outcome = (buildTree c maxDepth r).outcome.map (Tree.change x) := by
  have hid (p : Product) : (f p).id = p.id := by
    have hkept := (hfollows []).keeps.id (.detached 0 p)
    rw [hdetached] at hkept
    exact hkept
  unfold buildTree
  rw [hproduct]
  refine Noted.outcome_bind_of_map rfl fun requested => ?_
  rw [hid, hmanufactured]
  refine Noted.outcome_bind_of_forall fun target => ?_
  refine Noted.outcome_bind_of_map (k := f) ?_ fun made => ?_
  · rw [Noted.outcome_lift, Noted.outcome_lift, hproduct]
    split <;> rfl
  rw [hselected]
  refine Noted.outcome_bind_of_forall fun selected => ?_
  have hredirected : (if target = requested.id then none
      else some (Occurrence.detached 0 (f requested))) =
      (if target = requested.id then none else some (.detached 0 requested)).map x.occurrence := by
    split
    · rfl
    · exact congrArg some (hdetached 0 requested).symm
  have hroot := (hfollows selected).expand_eq maxDepth [] (.detached 1 made)
  dsimp only
  rw [hredirected, ← hdetached, ← hdetached]
  exact Noted.outcome_bind_of_map (hroot _ 2) fun _ => rfl

end Bom
