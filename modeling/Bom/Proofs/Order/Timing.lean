import Bom.Proofs.Order.Precedence

/-!
# The dates of a run

An order starts when the orders just below it are complete, or as requested if there are none. Where
no lead time is negative and nothing is refused, this is enough for the whole tree: an order starts
no earlier than requested (`Slots.Cascades.start_le`), and no order below a node is complete after
the node's own order starts (`Slots.Cascades.completion_le`), for the latest completion is handed on
from level to level. `run_timed` says so of all orders of a run, whether it succeeds or fails, and
that a run which succeeds answers with the latest completion of all.
-/

namespace Bom

namespace Placing

variable {r : CascadeRequest} {p : Placing}

/-- An order starts no earlier than those below it are complete. -/
theorem completion_le_start {o : OrderRef} (ho : o ∈ p.below) : o.completion ≤ p.start r := by
  rcases p.start_cases r with ⟨hnil, -⟩ | ⟨-, hall⟩
  · rw [hnil] at ho
    cases ho
  · exact hall o ho

/-- An order starts no earlier than requested, if those below it are complete no earlier. -/
theorem le_start (h : ∀ o ∈ p.below, r.start ≤ o.completion) : r.start ≤ p.start r := by
  rcases p.start_cases r with ⟨-, hstart⟩ | ⟨⟨o, ho, hlast⟩, -⟩
  · rw [hstart]
  · rw [← hlast]
    exact h o ho

/-- An order that comes of the call is complete no earlier than it starts. -/
def Lasts (r : CascadeRequest) (p : Placing) : Prop :=
  ∀ o, p.order = some o → p.start r ≤ o.completion

/-- Where no lead time is negative, no order is complete before it starts. -/
theorem Answered.lasts {d : DeskSettings} (hlead : ∀ product, ¬ d.leadTime product < 0.0)
    (h : p.Answered d r) : p.Lasts r := by
  intro o ho
  unfold Answered at h
  rw [order_eq_some.1 ho] at h
  rw [← p.request_start]
  exact DateTime.le_after (hlead _) h.2

end Placing

section

variable {c : Catalogue} {now : DateTime} {r : CascadeRequest}

mutual

/-- The order at the top of a subtree is complete no earlier than requested. -/
theorem Node.Cascades.start_le {above : List Node} {n : Node} {ps : List Placing}
    {out : Except EngineError (Option OrderRef)} : Node.Cascades c now above n ps out →
      (∀ p ∈ ps, p.Lasts r) → ∀ o, out = .ok (some o) → r.start ≤ o.completion
  | .unknown _, _, _, h => nomatch h
  | .bought _, _, _, h => nomatch h
  | .halted _ _, _, _, h => nomatch h
  | .placed answer _ hslots, hlasts, o, h => by
    obtain ⟨hbelow, htop⟩ := List.forall_mem_append.1 hlasts
    have hstart := Placing.le_start (hslots.start_le hbelow _ rfl)
      (p := ⟨⟨n, above⟩, _, answer⟩)
    exact hstart.trans (List.forall_mem_singleton.1 htop o (settle_eq_ok h))

/-- The orders of the nodes in slots are complete no earlier than requested. -/
theorem Slots.Cascades.start_le {above : List Node} {s : Slots} {ps : List Placing}
    {out : Except EngineError (List OrderRef)} : Slots.Cascades c now above s ps out →
      (∀ p ∈ ps, p.Lasts r) → ∀ os, out = .ok os → ∀ o ∈ os, r.start ≤ o.completion
  | .nil, _, _, h => by
    cases h
    exact List.forall_mem_nil _
  | .vacant hrest, hlasts, _, h => hrest.start_le hlasts _ h
  | .halted _, _, _, h => nomatch h
  | .filled hchild hrest, hlasts, _, h => by
    obtain ⟨hfirst, hsecond⟩ := List.forall_mem_append.1 hlasts
    obtain ⟨os, hos, rfl⟩ := map_eq_ok.1 h
    refine List.forall_mem_append.2 ⟨fun o ho => ?_, hrest.start_le hsecond os hos⟩
    exact hchild.start_le hfirst o (congrArg _ (Option.mem_toList.1 ho))

end

mutual

/-- If no call is refused, the order at the top of a subtree is the last one of the subtree to be
complete. -/
theorem Node.Cascades.completion_le {above : List Node} {n : Node} {ps : List Placing}
    {out : Except EngineError (Option OrderRef)} : Node.Cascades c now above n ps out →
      (∀ p ∈ ps, p.Lasts r ∧ p.order.isSome = true) → ∀ top, out = .ok top →
        ∀ p ∈ ps, ∀ o, p.order = some o → ∃ last, top = some last ∧ o.completion ≤ last.completion
  | .unknown _, _, _, h => nomatch h
  | .bought _, _, _, _ => List.forall_mem_nil _
  | .halted _ _, _, _, h => nomatch h
  | .placed answer _ hslots, hall, top, h => by
    obtain ⟨hbelow, htop⟩ := List.forall_mem_append.1 hall
    obtain ⟨hlasts, hsome⟩ := List.forall_mem_singleton.1 htop
    obtain ⟨last, hlast⟩ := Option.isSome_iff_exists.1 hsome
    obtain rfl : top = some last := (settle_eq_ok h).symm.trans hlast
    refine List.forall_mem_append.2 ⟨fun p hp o ho => ⟨last, rfl, ?_⟩, ?_⟩
    · obtain ⟨o', ho', hle⟩ := hslots.completion_le hbelow _ rfl p hp o ho
      calc o.completion
        _ ≤ o'.completion := hle
        _ ≤ Placing.start r ⟨⟨n, above⟩, _, answer⟩ := Placing.completion_le_start ho'
        _ ≤ last.completion := hlasts last hlast
    · refine List.forall_mem_singleton.2 fun o ho => ⟨last, rfl, ?_⟩
      rw [hlast] at ho
      cases ho
      exact le_rfl

/-- If no call is refused, each order below slots is complete no later than the order of one of the
nodes in the slots. -/
theorem Slots.Cascades.completion_le {above : List Node} {s : Slots} {ps : List Placing}
    {out : Except EngineError (List OrderRef)} : Slots.Cascades c now above s ps out →
      (∀ p ∈ ps, p.Lasts r ∧ p.order.isSome = true) → ∀ os, out = .ok os →
        ∀ p ∈ ps, ∀ o, p.order = some o → ∃ last ∈ os, o.completion ≤ last.completion
  | .nil, _, _, _ => List.forall_mem_nil _
  | .vacant hrest, hall, _, h => hrest.completion_le hall _ h
  | .halted _, _, _, h => nomatch h
  | .filled hchild hrest, hall, _, h => by
    obtain ⟨hfirst, hsecond⟩ := List.forall_mem_append.1 hall
    obtain ⟨os, hos, rfl⟩ := map_eq_ok.1 h
    refine List.forall_mem_append.2 ⟨fun p hp o ho => ?_, fun p hp o ho => ?_⟩
    · obtain ⟨last, rfl, hle⟩ := hchild.completion_le hfirst _ rfl p hp o ho
      exact ⟨last, List.mem_append_left _ (List.mem_singleton_self _), hle⟩
    · obtain ⟨last, hlast, hle⟩ := hrest.completion_le hsecond os hos p hp o ho
      exact ⟨last, List.mem_append_right _ hlast, hle⟩

end

end

/-! ## All orders of a run -/

/-- How the dates of the orders lie that a run with the given result has added to the book `b`,
where `due` are the nodes to be made. -/
structure OrderBook.Timed (r : CascadeRequest) (due : List Lineage) (b b' : OrderBook)
    (result : Except EngineError (Option OrderRef)) (entries : List NodeOrder) : Prop where
  orders : b'.orders = b.orders ++ entries.map (·.order)
  /-- each order is for a node that is due, and no node has two -/
  ways : (entries.map (·.way)).Sublist due
  requested : ∀ e ∈ entries, e.order.request.product = e.way.ordered.id ∧
    e.order.request.quantity = e.way.node.self.quantity
  /-- no order starts earlier than requested -/
  start : ∀ e ∈ entries, r.start ≤ e.order.request.start
  /-- no order starts before everything below its node is complete -/
  below : ∀ e ∈ entries, ∀ e' ∈ entries, e.way.node ∈ e'.way.above →
    e'.order.ref.completion ≤ e.order.request.start
  /-- a run that succeeds answers with the order that is the last to be complete, if there is one -/
  latest : ∀ outcome, result = .ok outcome →
    (∀ e ∈ entries, ∃ o, outcome = some o ∧ e.order.ref.completion ≤ o.completion) ∧
    ∀ o, outcome = some o → ∃ e ∈ entries, e.order.ref = o

section

variable {c : Catalogue} {maxDepth : Nat} {q : TreeRequest} {t u : Tree}

/-- Before the call for a node, the calls for all that is due below it have been made. -/
theorem Built.exists_within (h : Built c maxDepth q t) (hu : t.Agrees u) {c' : Catalogue}
    {now : DateTime} {ps : List Placing} {out : Except EngineError (Option OrderRef)}
    (hcascades : u.root.Cascades c' now [] ps out) {p : Placing} (hp : p ∈ ps) :
    ∃ within, within.Sublist ps ∧
      Slots.Cascades c' now (p.way.node :: p.way.above) p.way.node.slots within (.ok p.below) ∧
      ∀ p' ∈ ps, p.way.node ∈ p'.way.above → p' ∈ within := by
  obtain ⟨xs, ys, hsplit⟩ := List.append_of_mem hp
  obtain ⟨before, within, hxs, hwithin⟩ := hcascades.split hsplit
  have hsub : within.Sublist ps := by
    rw [hsplit, hxs]
    exact (List.sublist_append_right _ _).trans (List.sublist_append_left _ _)
  refine ⟨within, hsub, hwithin, fun p' hp' hm => ?_⟩
  have hdue := hcascades.way_mem_due hp
  have hdue' := hcascades.way_mem_due hp'
  have hmem := Tree.mem_lineages_of_due hdue'
  rcases Node.below_of_mem_above hm hmem with hnil | ⟨up, hup, hbelow⟩
  · cases hnil
  · have hway : p.way.above = up :=
      congrArg Lineage.above (h.eq_of_node hu (Tree.mem_lineages_of_due hdue) hup rfl)
    have hall := (hwithin.ways (List.mem_filter.1 hdue).2).2 _ rfl
    have hpost : p'.way ∈ p.way.node.slots.postorder (p.way.node :: p.way.above) := by
      rw [hway]
      exact (Slots.postorder_perm _ _).mem_iff.2 hbelow
    have hmap : p'.way ∈ within.map (·.way) := by
      rw [hall]
      exact List.mem_filter.2 ⟨hpost, (List.mem_filter.1 hdue').2⟩
    obtain ⟨p₁, hp₁, hsame⟩ := List.mem_map.1 hmap
    rw [← Placing.eq_of_node (h.calls_nodup hu hcascades) (hsub.subset hp₁) hp' (by rw [hsame])]
    exact hp₁

/-- The dates of the orders of a cascade in which nothing is refused. -/
theorem Workshop.Replays.timed {w : Workshop OrderBook} {d : DeskSettings} {r : CascadeRequest}
    {b b' : OrderBook} {ps : List Placing} {out : Except EngineError (Option OrderRef)}
    (hd : w.desk = OrderBook.desk d) (hlead : ∀ product, ¬ d.leadTime product < 0.0)
    (hopen : ∀ p ∈ ps, (p.request r).product ∉ d.refused) (h : Built c maxDepth q t)
    (hu : t.Agrees u) (hcascades : u.root.Cascades w.catalogue w.now [] ps out)
    (hreplays : w.Replays r b ps b') :
    OrderBook.Timed r (u.due w.catalogue w.now) b b' out (ps.filterMap (Placing.entry r)) := by
  have hanswered := hreplays.answered hd
  have hlasts {p : Placing} (hp : p ∈ ps) : p.Lasts r := (hanswered p hp).lasts hlead
  -- calls after which the cascade has gone on have come to an order
  have hgood {qs : List Placing} (hsub : qs ⊆ ps)
      (hsettled : ∀ p ∈ qs, ∃ o, settle p.answer = .ok o) :
      ∀ p ∈ qs, p.Lasts r ∧ p.order.isSome = true := by
    intro p hp
    obtain ⟨o, ho⟩ := hsettled p hp
    rw [(hanswered p (hsub hp)).isSome ho]
    exact ⟨hlasts (hsub hp), decide_eq_true (hopen p (hsub hp))⟩
  constructor
  case orders =>
    rw [map_entry_order]
    exact hreplays.orders hd
  case ways => exact entries_sublist.trans (hcascades.ways rfl).1.sublist
  case requested => exact entries_requested
  case start =>
    intro e he
    obtain ⟨p, hp, -, -, hrequest⟩ := mem_entries.1 he
    obtain ⟨within, hsub, hwithin, -⟩ := h.exists_within hu hcascades hp
    rw [hrequest, p.request_start]
    exact Placing.le_start (hwithin.start_le (fun p' hp' => hlasts (hsub.subset hp')) _ rfl)
  case below =>
    intro e he e' he' hm
    obtain ⟨p, hp, -, hway, hrequest⟩ := mem_entries.1 he
    obtain ⟨p', hp', ho', hway', -⟩ := mem_entries.1 he'
    obtain ⟨within, hsub, hwithin, hall⟩ := h.exists_within hu hcascades hp
    rw [hway, hway'] at hm
    have hpast := hgood hsub.subset (hwithin.settled ending_ok_ne)
    obtain ⟨last, hlast, hle⟩ := hwithin.completion_le hpast _ rfl p' (hall p' hp' hm) _ ho'
    rw [hrequest, p.request_start]
    exact hle.trans (Placing.completion_le_start hlast)
  case latest =>
    rintro outcome rfl
    have hpast := hgood (List.Subset.refl ps) (hcascades.settled ending_ok_ne)
    refine ⟨fun e he => ?_, fun o ho => ?_⟩
    · obtain ⟨p, hp, ho, -, -⟩ := mem_entries.1 he
      exact hcascades.completion_le hpast _ rfl p hp _ ho
    · obtain ⟨p, hp, -, horder⟩ := (hcascades.order_top_iff (h.calls_nodup hu hcascades)).1 ho
      exact ⟨⟨p.way, o, p.request r⟩, mem_entries.2 ⟨p, hp, horder, rfl, rfl⟩, rfl⟩

end

/-- In every run at a desk in memory without negative lead times, whether it succeeds or fails,
whatever has happened to the tree before and whatever is in the book: if the desk refuses nothing
that it is asked for, no order starts earlier than requested or before everything below its node is
complete, and a run that succeeds answers with the latest completion. -/
theorem run_timed (c : Catalogue) (maxDepth : Nat) (q : TreeRequest) (t : Tree)
    (h : (buildTree c maxDepth q).outcome = .ok t) (uses : List TreeUse) (c' : Catalogue)
    (d : DeskSettings) (hlead : ∀ product, ¬ d.leadTime product < 0.0) (now : DateTime)
    (b : OrderBook) (calculator : Option Calculator) (r : CascadeRequest) :
    let w : Workshop OrderBook := ⟨c', OrderBook.desk d, now⟩
    let u := t.after uses
    let counted := (u.flatten 0 false calculator).1
    (∀ call ∈ w.calls calculator r u b, call.product ∉ d.refused) →
      ∃ entries, OrderBook.Timed r (counted.due c' now) b (w.run calculator r u b).1
        (w.run calculator r u b).2.2.outcome entries := by
  intro w u counted hopen
  cases hpass : (u.flatten 0 false calculator).2.outcome with
  | error e =>
    obtain ⟨hstate, hfailed⟩ := w.run_of_error b hpass
    rw [hstate, hfailed]
    exact ⟨[], (List.append_nil _).symm, List.nil_sublist _, List.forall_mem_nil _,
      List.forall_mem_nil _, List.forall_mem_nil _, fun _ h => nomatch h⟩
  | ok numbers =>
    obtain ⟨ps, hcascades, hreplays, hcalls⟩ := w.exists_calls r b hpass
    have hcounted : t.Agrees counted :=
      (t.agrees_after uses).trans (u.agrees_flatten 0 false calculator)
    rw [hcalls, List.forall_mem_map] at hopen
    exact ⟨_, hreplays.timed rfl hlead hopen (built_of_buildTree h) hcounted hcascades⟩

/-- The steel frame takes two days, and the bicycle is begun when it is complete. -/
theorem bicycle_timed :
    ∃ t, (buildTree MemoryCatalogue.bicycles.catalogue 3 (.sample "bicycle")).outcome = .ok t ∧
      let d := DeskSettings.standard.withLeadTime "steel frame" 2.0
      let w : Workshop OrderBook :=
        ⟨MemoryCatalogue.bicycles.catalogue, OrderBook.desk d, .epoch⟩
      let u := t.after [.setQuantity 2.0]
      (∀ product, ¬ d.leadTime product < 0.0) ∧
      (∀ call ∈ w.calls none .sample u .empty, call.product ∉ d.refused) ∧
      (w.run none .sample u .empty).2.2.outcome =
        .ok (some ⟨"PO-0002", { day := 2, second := 0, nano := 0 }⟩) ∧
      ∃ entries, OrderBook.Timed .sample ((u.flatten 0 false none).1.due w.catalogue w.now) .empty
        (w.run none .sample u .empty).1 (w.run none .sample u .empty).2.2.outcome entries := by
  have hlead (product : String) :
      ¬ (DeskSettings.standard.withLeadTime "steel frame" 2.0).leadTime product < 0.0 := by
    change ¬ (([("steel frame", 2.0)].find? (·.1 = product)).map Prod.snd).getD 0.0 < 0.0
    rw [List.find?_cons, List.find?_nil]
    split <;> decide +kernel
  have hbuilt : (buildTree MemoryCatalogue.bicycles.catalogue 3 (.sample "bicycle")).outcome =
    .ok _ := rfl
  refine ⟨_, hbuilt, hlead, fun _ _ => List.not_mem_nil, by decide +kernel, ?_⟩
  exact run_timed MemoryCatalogue.bicycles.catalogue 3 (.sample "bicycle") _ hbuilt
    [.setQuantity 2.0] MemoryCatalogue.bicycles.catalogue
    (DeskSettings.standard.withLeadTime "steel frame" 2.0) hlead .epoch .empty none .sample
    fun _ _ => List.not_mem_nil

end Bom
