import Mathlib.Data.List.Pairwise
import Bom.Proofs.Calendar
import Bom.Proofs.Order.Book
import Bom.Proofs.Order.Calls

/-!
# The precedences of a run

A run at a desk in memory that succeeds leaves its orders and precedences in the book as a picture
of the tree: an order for each node that is due and not refused, in post-order, and a precedence
from the order of a node to that of the node above it, if both have one. `OrderBook.Pictures` says
so in detail, and `run_pictures` that each run that succeeds leaves such a book, whatever earlier
runs have left in it.

Which orders a call finds below it is settled without the book first
(`Node.Cascades.mem_below_iff`): an order handed on to a call comes from just below it
(`Node.Cascades.exists_below`), each order is handed on once (`Node.Cascades.orders_perm`), and an
order is known by its id.
-/

namespace Bom

/-! ## The latest completion -/

/-- The latest completion of a list of orders, once one is at hand. -/
theorem foldl_latest (os : List OrderRef) (t : DateTime) :
    ∃ m, os.foldl (fun latest o =>
        if latest.all (· < o.completion) then some o.completion else latest) (some t) = some m ∧
      t ≤ m ∧ (∀ o ∈ os, o.completion ≤ m) ∧ (m = t ∨ ∃ o ∈ os, o.completion = m) := by
  induction os generalizing t with
  | nil => exact ⟨t, rfl, le_rfl, List.forall_mem_nil _, .inl rfl⟩
  | cons o os ih =>
    rw [List.foldl_cons, Option.all_some]
    by_cases hlt : t < o.completion
    · obtain ⟨m, hm, hle, hall, hmem⟩ := ih o.completion
      rw [if_pos (decide_eq_true hlt)]
      refine ⟨m, hm, hlt.le.trans hle, List.forall_mem_cons.2 ⟨hle, hall⟩, .inr ?_⟩
      rcases hmem with rfl | ⟨o', ho', rfl⟩
      · exact ⟨o, List.mem_cons_self, rfl⟩
      · exact ⟨o', List.mem_cons_of_mem _ ho', rfl⟩
    · obtain ⟨m, hm, hle, hall, hmem⟩ := ih t
      rw [if_neg (by simpa using hlt)]
      refine ⟨m, hm, hle, List.forall_mem_cons.2 ⟨(DateTime.le_of_not_lt hlt).trans hle, hall⟩, ?_⟩
      rcases hmem with rfl | ⟨o', ho', rfl⟩
      · exact .inl rfl
      · exact .inr ⟨o', List.mem_cons_of_mem _ ho', rfl⟩

/-- The latest completion is that of one of the orders, and no order is complete later. -/
theorem latestCompletion_cases (os : List OrderRef) :
    (os = [] ∧ latestCompletion os = none) ∨ ∃ m, latestCompletion os = some m ∧
      (∃ o ∈ os, o.completion = m) ∧ ∀ o ∈ os, o.completion ≤ m := by
  cases os with
  | nil => exact .inl ⟨rfl, rfl⟩
  | cons o os =>
    obtain ⟨m, hm, hle, hall, hmem⟩ := foldl_latest os o.completion
    refine .inr ⟨m, hm, ?_, List.forall_mem_cons.2 ⟨hle, hall⟩⟩
    rcases hmem with rfl | ⟨o', ho', rfl⟩
    · exact ⟨o, List.mem_cons_self, rfl⟩
    · exact ⟨o', List.mem_cons_of_mem _ ho', rfl⟩

namespace Placing

/-- When the order of the call is to start. -/
def start (r : CascadeRequest) (p : Placing) : DateTime := (latestCompletion p.below).getD r.start

theorem request_start (r : CascadeRequest) (p : Placing) : (p.request r).start = p.start r :=
  congrArg (latestCompletion p.below).getD (r.under_start _)

/-- An order starts when the last of those below it is complete, or as requested if there are
none. -/
theorem start_cases (r : CascadeRequest) (p : Placing) :
    (p.below = [] ∧ p.start r = r.start) ∨
      (∃ o ∈ p.below, o.completion = p.start r) ∧ ∀ o ∈ p.below, o.completion ≤ p.start r := by
  unfold start
  rcases latestCompletion_cases p.below with ⟨hnil, hnone⟩ | ⟨m, hsome, hlast, hall⟩
  · rw [hnone]
    exact .inl ⟨hnil, rfl⟩
  · rw [hsome]
    exact .inr ⟨hlast, hall⟩

end Placing

/-! ## The orders below a call -/

/-- Where no value is taken twice, it is known what it is the value of. -/
theorem eq_of_nodup_filterMap {α β : Type} {f : α → Option β} {xs : List α}
    (h : (xs.filterMap f).Nodup) {a b : α} {y : β} (ha : a ∈ xs) (hb : b ∈ xs) (hya : f a = some y)
    (hyb : f b = some y) : a = b := by
  have hsymm : Std.Symm fun a b => ∀ y, f a = some y → ∀ z, f b = some z → y ≠ z :=
    ⟨fun _ _ h z hz y hy => (h y hy z hz).symm⟩
  by_contra hne
  exact (List.pairwise_filterMap.1 h).forall ha hb hne y hya y hyb rfl

section

variable {c : Catalogue} {now : DateTime} {n : Node} {ps : List Placing} {out : Option OrderRef}

/-- A call is known by the id of its order. -/
theorem Placing.eq_of_id (hids : (orderIds ps).Nodup) {p p' : Placing} {o o' : OrderRef}
    (hp : p ∈ ps) (hp' : p' ∈ ps) (ho : p.order = some o) (ho' : p'.order = some o')
    (hid : o.id = o'.id) : p = p' := by
  have hmap : orderIds ps = ps.filterMap fun p => p.order.map (·.id) := List.map_filterMap ..
  rw [hmap] at hids
  refine eq_of_nodup_filterMap hids hp hp' (y := o.id) ?_ ?_
  · rw [ho]
    rfl
  · rw [ho', hid]
    rfl

/-- A call is known by the node that it is for. -/
theorem Placing.eq_of_node (hways : (ps.map (·.way.node.self.number)).Nodup) {p p' : Placing}
    (hp : p ∈ ps) (hp' : p' ∈ ps) (hnode : p.way.node = p'.way.node) : p = p' :=
  List.inj_on_of_nodup_map hways hp hp' (by rw [hnode])

/-- The order of the top is that of the call for it. -/
theorem Node.Cascades.order_top_iff (hways : (ps.map (·.way.node.self.number)).Nodup)
    {above : List Node} (h : Node.Cascades c now above n ps (.ok out)) {o : OrderRef} :
    out = some o ↔ ∃ p ∈ ps, p.way = ⟨n, above⟩ ∧ p.order = some o := by
  rcases h.last_call with ⟨rfl, rfl⟩ | ⟨qs, below, answer, rfl, hanswer⟩
  · constructor
    · intro ho
      cases ho
    · rintro ⟨p, hp, -⟩
      cases hp
  · have hlast := List.mem_append_right qs (List.mem_singleton_self
      (⟨⟨n, above⟩, below, answer⟩ : Placing))
    have horder : (⟨⟨n, above⟩, below, answer⟩ : Placing).order = out := settle_eq_ok hanswer
    rw [← horder]
    constructor
    · intro ho
      exact ⟨_, hlast, rfl, ho⟩
    · rintro ⟨p, hp, hway, ho⟩
      rw [← Placing.eq_of_node hways hp hlast (by rw [hway])]
      exact ho

/-- An order below a call is the answer to a call for a node just below. -/
theorem Node.Cascades.exists_below (h : n.Cascades c now [] ps (.ok out)) {p' : Placing}
    (hp' : p' ∈ ps) {o : OrderRef} (ho : o ∈ p'.below) :
    ∃ p ∈ ps, p.order = some o ∧ p.way.above = p'.way.node :: p'.way.above := by
  obtain ⟨xs, ys, hsplit⟩ := List.append_of_mem hp'
  obtain ⟨p, hp, hway, horder⟩ := h.below_before hsplit ho
  rw [hsplit]
  exact ⟨p, List.mem_append_left _ hp, horder, hway⟩

/-- The orders below a call are those of the calls for the nodes just below it. -/
theorem Node.Cascades.mem_below_iff (hways : (ps.map (·.way.node.self.number)).Nodup)
    (hids : (orderIds ps).Nodup) (h : n.Cascades c now [] ps (.ok out)) {p' : Placing}
    (hp' : p' ∈ ps) {o : OrderRef} :
    o ∈ p'.below ↔ ∃ p ∈ ps, p.order = some o ∧ p.way.above = p'.way.node :: p'.way.above := by
  refine ⟨h.exists_below hp', ?_⟩
  rintro ⟨p, hp, horder, hway⟩
  have hmem : o ∈ ps.flatMap (·.below) ++ out.toList :=
    (h.orders_perm _ rfl).mem_iff.2 (List.mem_filterMap.2 ⟨p, hp, horder⟩)
  rw [List.mem_append, List.mem_flatMap, Option.mem_toList] at hmem
  rcases hmem with ⟨q, hq, ho⟩ | ho
  · -- the call to which the order is handed on is that for the node above
    obtain ⟨p₁, hp₁, horder₁, hway₁⟩ := h.exists_below hq ho
    cases Placing.eq_of_id hids hp hp₁ horder horder₁ rfl
    rw [hway] at hway₁
    cases Placing.eq_of_node hways hp' hq (List.cons_eq_cons.1 hway₁).1
    exact ho
  · -- the order of the root has nothing above it
    obtain ⟨p₁, hp₁, hway₁, horder₁⟩ := (h.order_top_iff hways).1 ho
    cases Placing.eq_of_id hids hp hp₁ horder horder₁ rfl
    rw [hway₁] at hway
    cases hway

/-- No order is handed on twice. -/
theorem Node.Cascades.below_nodup (hids : (orderIds ps).Nodup)
    (h : n.Cascades c now [] ps (.ok out)) : ((ps.flatMap (·.below)).map (·.id)).Nodup := by
  have hperm := (h.orders_perm _ rfl).map (·.id)
  rw [List.map_append] at hperm
  exact (List.nodup_append.1 (hperm.nodup_iff.2 hids)).1

/-- Where no call is refused, all orders but the last are handed on. -/
theorem Node.Cascades.length_below (h : n.Cascades c now [] ps (.ok out))
    (hall : ∀ p ∈ ps, p.order.isSome = true) :
    (ps.flatMap (·.below)).length = (ps.filterMap Placing.order).length - 1 := by
  have hlength := (h.orders_perm _ rfl).length_eq
  rw [List.length_append] at hlength
  rcases h.last_call with ⟨rfl, -⟩ | ⟨qs, below, answer, rfl, hanswer⟩
  · rfl
  · have hlast := hall _ (List.mem_append_right qs (List.mem_singleton_self _))
    rw [Placing.order, settle_eq_ok hanswer, Option.isSome_iff_exists] at hlast
    obtain ⟨o, rfl⟩ := hlast
    rw [← hlength]
    rfl

end

/-! ## Orders of nodes -/

/-- An order of a run with the way to the node that it is for. -/
structure NodeOrder where
  way : Lineage
  order : RecordedOrder

/-- The order that has come of a call. -/
def Placing.entry (r : CascadeRequest) (p : Placing) : Option NodeOrder :=
  p.order.map fun order => ⟨p.way, order, p.request r⟩

section

variable {d : DeskSettings} {r : CascadeRequest} {ps : List Placing}

theorem mem_entries {e : NodeOrder} : e ∈ ps.filterMap (Placing.entry r) ↔
    ∃ p ∈ ps, p.order = some e.order.ref ∧ e.way = p.way ∧ e.order.request = p.request r := by
  rw [List.mem_filterMap]
  constructor
  · rintro ⟨p, hp, he⟩
    obtain ⟨o, ho, rfl⟩ := Option.map_eq_some_iff.1 he
    exact ⟨p, hp, ho, rfl, rfl⟩
  · rintro ⟨p, hp, ho, hway, hrequest⟩
    obtain ⟨way, ref, request⟩ := e
    cases hway
    cases hrequest
    exact ⟨p, hp, Option.map_eq_some_iff.2 ⟨ref, ho, rfl⟩⟩

/-- An order asks for the product and the quantity of its node. -/
theorem entries_requested : ∀ e ∈ ps.filterMap (Placing.entry r),
    e.order.request.product = e.way.ordered.id ∧
      e.order.request.quantity = e.way.node.self.quantity := by
  intro e he
  obtain ⟨p, -, -, hp, hrequest⟩ := mem_entries.1 he
  rw [hrequest, hp]
  exact ⟨rfl, rfl⟩

theorem map_entry_order : (ps.filterMap (Placing.entry r)).map (·.order) =
    ps.filterMap (Placing.recorded r) := by
  rw [List.map_filterMap]
  congr 1
  funext p
  rw [Placing.entry, Option.map_map]
  rfl

theorem map_entry_id (r : CascadeRequest) (ps : List Placing) :
    (ps.filterMap (Placing.entry r)).map (·.order.ref.id) = orderIds ps := by
  rw [← map_recorded_id r, ← map_entry_order, List.map_map]
  rfl

/-- A call that does not end the cascade is answered by an order, unless the desk refuses the
product. -/
theorem Placing.Answered.isSome {p : Placing} (h : p.Answered d r) {o : Option OrderRef}
    (ho : settle p.answer = .ok o) : p.order.isSome = decide (p.way.ordered.id ∉ d.refused) := by
  have hproduct : (p.request r).product = p.way.ordered.id := rfl
  unfold Placing.Answered at h
  rw [hproduct] at h
  unfold Placing.order
  rcases hanswer : p.answer with (_ | _) | order
  · rw [hanswer] at h
    exact (decide_eq_false (not_not_intro h)).symm
  · rw [hanswer] at ho
    cases ho
  · rw [hanswer] at h
    exact (decide_eq_true h.1).symm

/-- The nodes that have an order are those of the calls that the desk does not refuse. -/
theorem map_entry_way {f : Lineage → Bool} (h : ∀ p ∈ ps, p.order.isSome = f p.way) :
    (ps.filterMap (Placing.entry r)).map (·.way) = (ps.map (·.way)).filter f := by
  induction ps with
  | nil => rfl
  | cons p ps ih =>
    obtain ⟨hp, hps⟩ := List.forall_mem_cons.1 h
    rw [List.map_cons, List.filter_cons, ← hp, ← ih hps, List.filterMap_cons, Placing.entry]
    cases p.order <;> rfl

/-- Each order is for the node of its call. -/
theorem entries_sublist :
    ((ps.filterMap (Placing.entry r)).map (·.way)).Sublist (ps.map (·.way)) := by
  induction ps with
  | nil => exact .slnil
  | cons p ps ih =>
    rw [List.map_cons, List.filterMap_cons, Placing.entry]
    cases p.order with
    | none => exact ih.cons _
    | some order => exact ih.cons_cons _

/-- The earlier ends of the precedences are orders that are handed on. -/
theorem links_first_sublist : ((ps.flatMap (Placing.links r)).map (·.first)).Sublist
    ((ps.flatMap (·.below)).map (·.id)) := by
  rw [List.map_flatMap, List.map_flatMap]
  induction ps with
  | nil => exact .slnil
  | cons p ps ih =>
    rw [List.flatMap_cons, List.flatMap_cons]
    refine List.Sublist.append ?_ ih
    unfold Placing.links
    cases p.order with
    | none => exact List.nil_sublist _
    | some order =>
      rw [List.map_map]
      exact List.Sublist.refl _

/-- Where no call is refused, there is a precedence for each order that is handed on. -/
theorem length_flatMap_links (h : ∀ p ∈ ps, p.order.isSome = true) :
    (ps.flatMap (Placing.links r)).length = (ps.flatMap (·.below)).length := by
  induction ps with
  | nil => rfl
  | cons p ps ih =>
    obtain ⟨hp, hps⟩ := List.forall_mem_cons.1 h
    obtain ⟨order, horder⟩ := Option.isSome_iff_exists.1 hp
    rw [List.flatMap_cons, List.flatMap_cons, List.length_append, List.length_append, ih hps,
      Placing.links, horder, List.length_map]

end

/-! ## The picture of a tree in a book -/

/-- How the book `b'` has come of the book `b` in a run that succeeds: with the orders of the
entries and the given precedences, where `due` are the nodes to be made in post-order. -/
structure OrderBook.Pictures (d : DeskSettings) (r : CascadeRequest) (due : List Lineage)
    (b b' : OrderBook) (entries : List NodeOrder) (links : List Precedence)
    (outcome : Option OrderRef) : Prop where
  orders : b'.orders = b.orders ++ entries.map (·.order)
  precedences : b'.precedences = b.precedences ++ links
  /-- each node that is due has an order, unless the desk refuses the product -/
  ways : entries.map (·.way) = due.filter fun l => l.ordered.id ∉ d.refused
  requested : ∀ e ∈ entries, e.order.request.product = e.way.ordered.id ∧
    e.order.request.quantity = e.way.node.self.quantity
  /-- no id occurs twice in the book, whatever earlier runs have left in it -/
  ids_nodup : b'.ids.Nodup
  /-- a precedence leads from an order of the run to a later one, as of the start of the request -/
  ordered : ∀ link ∈ links, [link.first, link.second].Sublist (entries.map (·.order.ref.id)) ∧
    link.asOf = r.start
  /-- no order in the book waits for itself -/
  acyclic : ∀ id, ¬ Relation.TransGen (OrderBook.Waits b'.precedences) id id
  /-- at most one order waits for an order of the run -/
  forest : (links.map (·.first)).Nodup
  /-- the order of a node waits for those of the nodes in its slots, and for no other one -/
  linked : ∀ e ∈ entries, ∀ e' ∈ entries,
    OrderBook.Waits links e.order.ref.id e'.order.ref.id ↔ e.way.node ∈ e'.way.node.slots.nodes
  /-- an order starts when the last order that it waits for is complete, else as requested -/
  start : ∀ e' ∈ entries,
    (∀ e ∈ entries, OrderBook.Waits links e.order.ref.id e'.order.ref.id →
      e.order.ref.completion ≤ e'.order.request.start) ∧
    ((∃ e ∈ entries, OrderBook.Waits links e.order.ref.id e'.order.ref.id ∧
      e.order.ref.completion = e'.order.request.start) ∨
    (∀ e ∈ entries, ¬ OrderBook.Waits links e.order.ref.id e'.order.ref.id) ∧
      e'.order.request.start = r.start)
  /-- if nothing is refused, all orders but one have one that waits for them -/
  count : (∀ l ∈ due, l.ordered.id ∉ d.refused) → links.length = entries.length - 1
  /-- the run answers with the order of the root, if it has one -/
  outcome : ∀ o, outcome = some o ↔ ∃ e ∈ entries, e.way.above = [] ∧ e.order.ref = o

section

variable {c : Catalogue} {now : DateTime} {n : Node} {ps : List Placing} {out : Option OrderRef}
  {r : CascadeRequest}

/-- The order of a call waits for those below the call. -/
theorem Node.Cascades.waits_iff (hids : (orderIds ps).Nodup) (h : n.Cascades c now [] ps (.ok out))
    {p p' : Placing} {o o' : OrderRef} (hp : p ∈ ps) (hp' : p' ∈ ps) (ho : p.order = some o)
    (ho' : p'.order = some o') :
    OrderBook.Waits (ps.flatMap (Placing.links r)) o.id o'.id ↔ o ∈ p'.below := by
  constructor
  · rintro ⟨link, hlink, hfirst, hsecond⟩
    obtain ⟨q', hq', hlink⟩ := List.mem_flatMap.1 hlink
    obtain ⟨order, hqo', child, hchild, rfl⟩ := Placing.mem_links.1 hlink
    -- both ends are known by their ids
    cases Placing.eq_of_id hids hq' hp' hqo' ho' hsecond
    obtain ⟨q, hq, hqo, -⟩ := h.exists_below hp' hchild
    cases Placing.eq_of_id hids hq hp hqo ho hfirst
    rw [hqo] at ho
    cases ho
    exact hchild
  · intro hbelow
    refine ⟨⟨o.id, o'.id, r.start⟩, List.mem_flatMap.2 ⟨p', hp', ?_⟩, rfl, rfl⟩
    exact Placing.mem_links.2 ⟨o', ho', o, hbelow, rfl⟩

/-- An order waits for those of the nodes just below its node. -/
theorem Node.Cascades.entry_waits_iff (hways : (ps.map (·.way.node.self.number)).Nodup)
    (hids : (orderIds ps).Nodup) (h : n.Cascades c now [] ps (.ok out)) {e e' : NodeOrder}
    (he : e ∈ ps.filterMap (Placing.entry r)) (he' : e' ∈ ps.filterMap (Placing.entry r)) :
    OrderBook.Waits (ps.flatMap (Placing.links r)) e.order.ref.id e'.order.ref.id ↔
      e.way.above = e'.way.node :: e'.way.above := by
  obtain ⟨p, hp, ho, hway, -⟩ := mem_entries.1 he
  obtain ⟨p', hp', ho', hway', -⟩ := mem_entries.1 he'
  rw [h.waits_iff hids hp hp' ho ho', h.mem_below_iff hways hids hp', hway, hway']
  constructor
  · rintro ⟨q, hq, hqo, habove⟩
    cases Placing.eq_of_id hids hp hq ho hqo rfl
    exact habove
  · intro habove
    exact ⟨p, hp, ho, habove⟩

/-- An order starts when the last of those that it waits for is complete, or as requested if there
are none. -/
theorem Node.Cascades.entry_start (hways : (ps.map (·.way.node.self.number)).Nodup)
    (hids : (orderIds ps).Nodup) (h : n.Cascades c now [] ps (.ok out)) {e' : NodeOrder}
    (he' : e' ∈ ps.filterMap (Placing.entry r)) :
    let waits (e : NodeOrder) : Prop :=
      OrderBook.Waits (ps.flatMap (Placing.links r)) e.order.ref.id e'.order.ref.id
    (∀ e ∈ ps.filterMap (Placing.entry r), waits e →
      e.order.ref.completion ≤ e'.order.request.start) ∧
    ((∃ e ∈ ps.filterMap (Placing.entry r), waits e ∧
      e.order.ref.completion = e'.order.request.start) ∨
    (∀ e ∈ ps.filterMap (Placing.entry r), ¬ waits e) ∧ e'.order.request.start = r.start) := by
  intro waits
  obtain ⟨p', hp', ho', -, hrequest⟩ := mem_entries.1 he'
  have hbelow {e : NodeOrder} (he : e ∈ ps.filterMap (Placing.entry r)) (hw : waits e) :
      e.order.ref ∈ p'.below := by
    obtain ⟨p, hp, ho, -, -⟩ := mem_entries.1 he
    exact (h.waits_iff hids hp hp' ho ho').1 hw
  rw [hrequest, p'.request_start]
  rcases p'.start_cases r with ⟨hnil, hstart⟩ | ⟨⟨o, ho, hlast⟩, hall⟩
  · have hnone : ∀ e ∈ ps.filterMap (Placing.entry r), ¬ waits e := fun e he hw =>
      List.not_mem_nil (hnil ▸ hbelow he hw)
    exact ⟨fun e he hw => absurd hw (hnone e he), .inr ⟨hnone, hstart⟩⟩
  · refine ⟨fun e he hw => hall _ (hbelow he hw), .inl ?_⟩
    obtain ⟨p, hp, hpo, -⟩ := (h.mem_below_iff hways hids hp').1 ho
    refine ⟨⟨p.way, o, p.request r⟩, mem_entries.2 ⟨p, hp, hpo, rfl, rfl⟩, ?_, hlast⟩
    exact (h.waits_iff hids hp hp' hpo ho').2 ho

/-- Where no call is refused, all orders but one have one that waits for them. -/
theorem Node.Cascades.length_links (h : n.Cascades c now [] ps (.ok out))
    (hall : ∀ p ∈ ps, p.order.isSome = true) :
    (ps.flatMap (Placing.links r)).length = (ps.filterMap (Placing.entry r)).length - 1 := by
  have hentries := congrArg List.length (map_entry_id r ps)
  rw [orderIds, List.length_map, List.length_map] at hentries
  rw [length_flatMap_links hall, h.length_below hall, hentries]

end

section

variable {c : Catalogue} {maxDepth : Nat} {q : TreeRequest} {t u : Tree}

theorem Slots.mem_nodes {s : Slots} {n : Node} :
    n ∈ s.nodes ↔ ∃ i : Nat, s.contents[i]? = some (some n) := by
  rw [← s.filterMap_contents, List.mem_filterMap, ← List.mem_iff_getElem?]
  constructor
  · rintro ⟨content, hmem, rfl⟩
    exact hmem
  · intro hmem
    exact ⟨some n, hmem, rfl⟩

/-- In a finished tree, a way is known by the node at its end. -/
theorem Built.eq_of_node (h : Built c maxDepth q t) (hu : t.Agrees u) {l l' : Lineage}
    (hl : l ∈ u.lineages) (hl' : l' ∈ u.lineages) (hnode : l.node = l'.node) : l = l' :=
  List.inj_on_of_nodup_map (h.lineages_nodup hu) hl hl' (by rw [hnode])

/-- In a finished tree, the nodes just below a node are those in its slots. -/
theorem Built.above_eq_iff (h : Built c maxDepth q t) (hu : t.Agrees u) {l l' : Lineage}
    (hl : l ∈ u.lineages) (hl' : l' ∈ u.lineages) :
    l.above = l'.node :: l'.above ↔ l.node ∈ l'.node.slots.nodes := by
  rw [Slots.mem_nodes]
  constructor
  · intro habove
    rcases Node.eq_or_slot_of_mem_lineages hl with rfl | ⟨up, -, i, hi, hchild⟩
    · cases habove
    · rw [hchild] at habove
      obtain ⟨hnode, -⟩ := List.cons_eq_cons.1 habove
      exact ⟨i, hnode ▸ hi⟩
  · rintro ⟨i, hi⟩
    have hchild : l'.child l.node ∈ u.lineages :=
      Tree.mem_lineages_of_mem_lower (Node.mem_lineages_of_slot hi hl')
    rw [h.eq_of_node hu hl hchild rfl]
    rfl

/-- The book after a cascade that succeeds is a picture of the tree. -/
theorem Workshop.Replays.pictures {w : Workshop OrderBook} {d : DeskSettings} {r : CascadeRequest}
    {b b' : OrderBook} {ps : List Placing} {out : Option OrderRef} (hd : w.desk = OrderBook.desk d)
    (hnumbered : b.Numbered) (hordered : b.Ordered) (h : Built c maxDepth q t) (hu : t.Agrees u)
    (hcascades : u.root.Cascades w.catalogue w.now [] ps (.ok out))
    (hreplays : w.Replays r b ps b') :
    OrderBook.Pictures d r (u.due w.catalogue w.now) b b' (ps.filterMap (Placing.entry r))
      (ps.flatMap (Placing.links r)) out := by
  have hdue : ps.map (·.way) = u.due w.catalogue w.now := (hcascades.ways rfl).2 _ rfl
  have hnodes := h.calls_nodup hu hcascades
  have hway {p : Placing} (hp : p ∈ ps) : p.way ∈ u.lineages :=
    Tree.mem_lineages_of_due (hcascades.way_mem_due hp)
  have horders : b'.orders = b.orders ++ (ps.filterMap (Placing.entry r)).map (·.order) := by
    rw [map_entry_order]
    exact hreplays.orders hd
  have hnodup : b'.ids.Nodup := (hreplays.numbered hd hnumbered).ids_nodup
  have hids : (orderIds ps).Nodup := by
    rw [OrderBook.ids, horders, List.map_append, List.map_map] at hnodup
    rw [← map_entry_id r]
    exact (List.nodup_append.1 hnodup).2.1
  have hopen : ∀ p ∈ ps, p.order.isSome = decide (p.way.ordered.id ∉ d.refused) := by
    intro p hp
    obtain ⟨_, ho⟩ := hcascades.settled ending_ok_ne p hp
    exact (hreplays.answered hd p hp).isSome ho
  constructor
  case orders => exact horders
  case precedences => exact hreplays.precedences hd
  case ways =>
    rw [map_entry_way (f := fun l => decide (l.ordered.id ∉ d.refused)) hopen, hdue]
  case requested => exact entries_requested
  case ids_nodup => exact hnodup
  case ordered =>
    intro link hlink
    rw [map_entry_id]
    exact hcascades.links_ordered r hlink
  case acyclic =>
    have hlater := hordered.replays hd hcascades hreplays
    exact OrderBook.acyclic (hreplays.numbered hd hnumbered) hlater
  case forest => exact (hcascades.below_nodup hids).sublist links_first_sublist
  case linked =>
    intro e he e' he'
    obtain ⟨p, hp, -, hpway, -⟩ := mem_entries.1 he
    obtain ⟨p', hp', -, hpway', -⟩ := mem_entries.1 he'
    rw [hcascades.entry_waits_iff hnodes hids he he', hpway, hpway']
    exact h.above_eq_iff hu (hway hp) (hway hp')
  case start => exact fun e' he' => hcascades.entry_start hnodes hids he'
  case count =>
    intro hnone
    refine hcascades.length_links fun p hp => ?_
    rw [hopen p hp, decide_eq_true_iff]
    exact hnone _ (hcascades.way_mem_due hp)
  case outcome =>
    intro o
    rw [hcascades.order_top_iff hnodes]
    constructor
    · rintro ⟨p, hp, hroot, ho⟩
      exact ⟨⟨p.way, o, p.request r⟩, mem_entries.2 ⟨p, hp, ho, rfl, rfl⟩, by rw [hroot], rfl⟩
    · rintro ⟨e, he, habove, rfl⟩
      obtain ⟨p, hp, ho, hpway, -⟩ := mem_entries.1 he
      rw [hpway] at habove
      exact ⟨p, hp, Tree.eq_root_of_mem_lineages (hway hp) habove, ho⟩

end

/-- A run at a desk in memory that succeeds pictures the tree in the book, whatever earlier runs
have left in it, whatever has happened to the tree before, and whatever the desk refuses. -/
theorem run_pictures (c : Catalogue) (maxDepth : Nat) (q : TreeRequest) (t : Tree)
    (h : (buildTree c maxDepth q).outcome = .ok t) (uses : List TreeUse) (c' : Catalogue)
    (d : DeskSettings) (now : DateTime) (b : OrderBook) (hb : b.Left)
    (calculator : Option Calculator) (r : CascadeRequest) (outcome : Option OrderRef) :
    let w : Workshop OrderBook := ⟨c', OrderBook.desk d, now⟩
    let u := t.after uses
    let counted := (u.flatten 0 false calculator).1
    (w.run calculator r u b).2.2.outcome = .ok outcome →
      ∃ entries links, OrderBook.Pictures d r (counted.due c' now) b (w.run calculator r u b).1
        entries links outcome := by
  intro w u counted hrun
  cases hpass : (u.flatten 0 false calculator).2.outcome with
  | error e =>
    rw [(Workshop.run_of_error b hpass).2] at hrun
    cases hrun
  | ok numbers =>
    obtain ⟨ps, hcascades, hreplays⟩ := w.run_cascades r b hpass
    rw [hrun] at hcascades
    have hcounted : t.Agrees counted :=
      (t.agrees_after uses).trans (u.agrees_flatten 0 false calculator)
    exact ⟨_, _, hreplays.pictures rfl hb.numbered hb.ordered (built_of_buildTree h) hcounted
      hcascades⟩

/-- The bicycle and its frame are ordered in a book that an earlier run has left. -/
theorem bicycle_pictures :
    ∃ t, (buildTree MemoryCatalogue.bicycles.catalogue 3 (.sample "bicycle")).outcome = .ok t ∧
      let w := Workshop.bicycles .standard
      let b := (w.run none .sample t .empty).1
      b.Left ∧ b.ids = ["PO-0001", "PO-0002"] ∧
        (w.run none .sample t b).2.2.outcome = .ok (some ⟨"PO-0004", .epoch⟩) ∧
        ∃ entries links, OrderBook.Pictures .standard .sample
          ((t.flatten 0 false none).1.due w.catalogue w.now) b (w.run none .sample t b).1 entries
          links (some ⟨"PO-0004", .epoch⟩) := by
  refine ⟨_, rfl, .run _ _ _ _ _ _ .empty, by decide +kernel, by decide +kernel, ?_⟩
  refine run_pictures MemoryCatalogue.bicycles.catalogue 3 (.sample "bicycle") _ rfl []
    MemoryCatalogue.bicycles.catalogue .standard .epoch _ (.run _ _ _ _ _ _ .empty) none .sample
    (some ⟨"PO-0004", .epoch⟩) ?_
  decide +kernel

end Bom
