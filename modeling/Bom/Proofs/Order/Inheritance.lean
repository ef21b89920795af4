import Bom.Proofs.Order.Calls
import Bom.Proofs.Order.Log

/-!
# What orders take over from a request

The request of a cascade is handed down from node to node, and on the way loses what is meant for
the root alone (`CascadeRequest.below`). `OrderRequest.Inherits` says what is left of it in the
order for a node: all of it at the root, and elsewhere only the facility and the shipment. The
sales order line is not part of an order but linked to it, and is handed down like the rest, so it
is linked to the order of the root or to none (`Node.Cascades.fulfilments`).

Both are read off the calls of a cascade: the last of them is for the root, unless there is none,
and all others are for nodes below it (`Node.Cascades.root_inv`).
-/

namespace Bom

/-! ## What is handed down -/

theorem CascadeRequest.under_below {above : List Node} (h : above ≠ []) (r : CascadeRequest) :
    r.under above = r.below := by
  cases above with
  | nil => exact absurd rfl h
  | cons n above => rfl

@[simp] theorem CascadeRequest.under_facility (r : CascadeRequest) (above : List Node) :
    (r.under above).facility = r.facility := by
  cases above <;> rfl

/-- An order for a node is for the product under which the node is ordered, at the facility of the
request or else that of the product. The root has the name, the description and the routing of the
request. Without a name, and everywhere else, an order is named after the shipment, if there is
one. -/
structure OrderRequest.Inherits (q : OrderRequest) (r : CascadeRequest) (l : Lineage) : Prop where
  product : q.product = l.ordered.id
  facility : q.facility = r.facility.or l.ordered.facility
  root_name : l.above = [] →
    q.name = r.name.or (r.shipment.map fun shipment => s!"SP_{shipment}_{q.product}")
  root_description : l.above = [] → q.description = r.description
  root_routing : l.above = [] → q.routing = r.routing
  below_name : l.above ≠ [] →
    q.name = r.shipment.map fun shipment => s!"SP_{shipment}_{q.product}"
  below_description : l.above ≠ [] → q.description = none
  below_routing : l.above ≠ [] → q.routing = none

namespace Placing

variable (r : CascadeRequest) (p : Placing)

/-- What is asked for a node is what its order takes over. -/
theorem request_inherits : (p.request r).Inherits r p.way := by
  have hbelow (h : p.way.above ≠ []) : p.request r =
      Workshop.orderRequest r.below p.way.ordered p.way.node.self.quantity p.below := by
    unfold request
    rw [r.under_below h]
  have hroot (h : p.way.above = []) : p.request r =
      Workshop.orderRequest r p.way.ordered p.way.node.self.quantity p.below := by
    unfold request
    rw [h]
    rfl
  exact {
    product := rfl
    facility := congrArg (Option.or · p.way.ordered.facility) (r.under_facility p.way.above)
    root_name := fun h => by rw [hroot h]; rfl
    root_description := fun h => by rw [hroot h]; rfl
    root_routing := fun h => by rw [hroot h]; rfl
    below_name := fun h => by rw [hbelow h]; exact Option.none_or
    below_description := fun h => by rw [hbelow h]; rfl
    below_routing := fun h => by rw [hbelow h]; rfl }

/-- The sales order line is not handed down. -/
theorem fulfilment?_below {p : Placing} (h : p.way.above ≠ []) : p.fulfilment? r = none := by
  unfold fulfilment?
  rw [r.under_below h]
  cases p.order <;> rfl

end Placing

/-! ## The call for the root -/

theorem Slots.above_ne_of_mem_postorder {above : List Node} (habove : above ≠ []) {s : Slots}
    {l : Lineage} (hl : l ∈ s.postorder above) : l.above ≠ [] := by
  rcases Slots.slot_of_mem_lineages ((s.postorder_perm above).mem_iff.1 hl) with
    ⟨_, -, hsame⟩ | ⟨up, -, _, -, hchild⟩
  · exact hsame ▸ habove
  · rw [hchild]
    exact List.cons_ne_nil _ _

section

variable {c : Catalogue} {now : DateTime} {n : Node} {ps : List Placing} {out : Option OrderRef}

/-- A cascade that succeeds makes no call, or a last one for the root, and all others for nodes
below. -/
theorem Node.Cascades.root_inv (h : n.Cascades c now [] ps (.ok out)) :
    (ps = [] ∧ out = none) ∨ ∃ qs below answer, ps = qs ++ [⟨⟨n, []⟩, below, answer⟩] ∧
      settle answer = .ok out ∧ ∀ p ∈ qs, p.way.above ≠ [] := by
  generalize hout : (Except.ok out : Except EngineError (Option OrderRef)) = result at h
  cases h with
  | unknown _ => cases hout
  | bought _ =>
    cases hout
    exact .inl ⟨rfl, rfl⟩
  | halted _ _ => cases hout
  | @placed _ _ qs below answer hmade hslots =>
    refine .inr ⟨qs, below, answer, rfl, rfl, fun p hp => ?_⟩
    have hself : c.makesAll now [n] = true := Node.makesAll_of_isMade hmade rfl
    have hway := (hslots.ways hself).1.subset (List.mem_map_of_mem hp)
    exact Slots.above_ne_of_mem_postorder (List.cons_ne_nil _ _) (List.mem_of_mem_filter hway)

/-- The order that a cascade ends with is that of the call for the root. -/
theorem Node.Cascades.root_order_iff (h : n.Cascades c now [] ps (.ok out)) {o : OrderRef} :
    out = some o ↔ ∃ p ∈ ps, p.way.above = [] ∧ p.answer = .ok o := by
  rcases h.root_inv with ⟨rfl, rfl⟩ | ⟨qs, below, answer, rfl, hanswer, hqs⟩
  · exact iff_of_false nofun fun ⟨_, hp, _⟩ => nomatch hp
  · have horder : (⟨⟨n, []⟩, below, answer⟩ : Placing).order = out := settle_eq_ok hanswer
    rw [← horder, Placing.order_eq_some]
    constructor
    · intro ho
      exact ⟨_, List.mem_append_right _ (List.mem_singleton_self _), rfl, ho⟩
    · rintro ⟨p, hp, habove, ho⟩
      rcases List.mem_append.1 hp with hp | hp
      · exact absurd habove (hqs p hp)
      · obtain rfl := List.mem_singleton.1 hp
        exact ho

/-- The sales order line goes to the order of the root, and to no other. -/
theorem Node.Cascades.fulfilments (h : n.Cascades c now [] ps (.ok out)) (r : CascadeRequest) :
    (ps.flatMap fun p => (p.fulfilment? r).toList) =
      (out.bind fun o => r.source.map fun source => ⟨o.id, source⟩).toList := by
  rcases h.root_inv with ⟨rfl, rfl⟩ | ⟨qs, below, answer, rfl, hanswer, hqs⟩
  · rfl
  · have hbelow : (qs.flatMap fun p => (p.fulfilment? r).toList) = [] :=
      List.flatMap_eq_nil_iff.2 fun p hp => by rw [Placing.fulfilment?_below r (hqs p hp)]; rfl
    have horder : (⟨⟨n, []⟩, below, answer⟩ : Placing).order = out := settle_eq_ok hanswer
    rw [List.flatMap_append, hbelow, List.nil_append, List.flatMap_singleton]
    unfold Placing.fulfilment?
    rw [horder]
    rfl

end

/-! ## What a run asks for -/

namespace Workshop

variable {σ : Type}

theorem run_tree (w : Workshop σ) (calculator : Option Calculator) (r : CascadeRequest) (t : Tree)
    (s : σ) : (w.run calculator r t s).2.1 = (t.flatten 0 false calculator).1 := by
  unfold run
  dsimp only
  cases (t.flatten 0 false calculator).2.outcome <;> rfl

end Workshop

open DeskCall in
/-- A run that succeeds asks for an order for each node that is due, in post-order, and each order
takes over what is meant for its node. The run returns the order of the root, if the desk has
placed it. A sales order line is linked just when it was given and the root has an order, once, and
to that order. -/
theorem run_inherits {σ : Type} (w : Workshop σ) (calculator : Option Calculator)
    (r : CascadeRequest) (t : Tree) (s : σ) {out : Option OrderRef}
    (h : (w.run calculator r t s).2.2.outcome = .ok out) :
    let due := (w.run calculator r t s).2.1.due w.catalogue w.now
    let log := w.log calculator r t s
    List.Forall₂ (fun l call => call.1.Inherits r l) due (placings log) ∧
    (∀ o, out = some o ↔ ∃ l request, (l, request, .ok o) ∈ due.zip (placings log) ∧
      l.above = []) ∧
    ((links log).map Prod.fst).filterMap DeskLink.fulfilment? =
      (out.bind fun o => r.source.map fun source => ⟨o.id, source⟩).toList := by
  intro due log
  cases hpass : (t.flatten 0 false calculator).2.outcome with
  | error e =>
    rw [(Workshop.run_of_error s hpass).2] at h
    cases h
  | ok numbers =>
    obtain ⟨ps, hcascades, -, hplacings, hlinks⟩ := w.exists_log r s hpass
    rw [h] at hcascades
    have hdue : due = ps.map (·.way) := by
      rw [(hcascades.ways rfl).2 out rfl]
      exact congrArg (Tree.due · w.catalogue w.now) (w.run_tree calculator r t s)
    refine ⟨?_, fun o => ?_, ?_⟩
    · rw [hdue, hplacings, List.forall₂_map_left_iff, List.forall₂_map_right_iff,
        List.forall₂_same]
      exact fun p _ => p.request_inherits r
    · rw [hdue, hplacings, List.zip_map', hcascades.root_order_iff]
      constructor
      · rintro ⟨p, hp, habove, ho⟩
        exact ⟨p.way, p.request r, List.mem_map.2 ⟨p, hp, by rw [ho]⟩, habove⟩
      · rintro ⟨l, request, hmem, habove⟩
        obtain ⟨p, hp, hcall⟩ := List.mem_map.1 hmem
        simp only [Prod.mk.injEq] at hcall
        obtain ⟨rfl, -, ho⟩ := hcall
        exact ⟨p, hp, habove, ho⟩
    · rw [hlinks, List.filterMap_flatMap, ← hcascades.fulfilments r]
      exact congrArg (ps.flatMap ·) (funext (Placing.filterMap_deskLinks r))

/-- Only the bicycle has the name of the request and is linked to the sales order line, although the
frame is ordered for the same shipment. -/
theorem bicycle_inherits :
    let w := Workshop.bicycles .standard
    let r : CascadeRequest := { CascadeRequest.sample with
      name := "spring", routing := "line 2", source := some ⟨"sale", "1"⟩, shipment := "S7" }
    ∃ t, (buildTree MemoryCatalogue.bicycles.catalogue 3 (.sample "bicycle")).outcome = .ok t ∧
      let log := w.log none r t .empty
      ((DeskCall.placings log).map fun call => (call.1.product, call.1.name, call.1.routing)) =
        [("steel frame", some "SP_S7_steel frame", none),
          ("bicycle", some "spring", some "line 2")] ∧
      ((DeskCall.links log).map Prod.fst).filterMap DeskLink.fulfilment? =
        [⟨"PO-0002", ⟨"sale", "1"⟩⟩] ∧
      List.Forall₂ (fun l call => call.1.Inherits r l)
        ((w.run none r t .empty).2.1.due w.catalogue w.now) (DeskCall.placings log) := by
  intro w r
  refine ⟨_, rfl, ?_⟩
  intro log
  have hinherits (t : Tree)
      (h : (w.run none r t .empty).2.2.outcome = .ok (some ⟨"PO-0002", .epoch⟩)) :=
    run_inherits w none r t .empty h
  exact ⟨by decide +kernel, by decide +kernel, (hinherits _ (by decide +kernel)).1⟩

end Bom
