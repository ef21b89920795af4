import Bom.Proofs.Order.Precedence

/-!
# Refusals stay where they are

A desk that refuses some products and one that refuses nothing are asked for the same nodes in the
same order, unless a date leaves the calendar: which calls a cascade makes depends on the catalogue
and the tree alone (`Node.same_ways`), and so does what a call asks for, apart from its start
(`Placing.content_eq`). So the orders that a refusing desk records are those of the other desk
without the refused ones, and nothing else has changed in them but dates, ids and links
(`run_isolated`).
-/

namespace Bom

/-! ## What an order asks for, apart from its start -/

/-- What an order asks for, apart from when it is to start. -/
structure OrderContent where
  product : String
  quantity : Float
  facility : Option String
  routing : Option String
  name : Option String
  description : Option String
  deriving DecidableEq

/-- What is asked for, apart from the start. -/
def OrderRequest.content (q : OrderRequest) : OrderContent :=
  ⟨q.product, q.quantity, q.facility, q.routing, q.name, q.description⟩

/-- What the order for a node asks for, apart from its start. -/
def Lineage.content (r : CascadeRequest) (l : Lineage) : OrderContent :=
  (Workshop.orderRequest (r.under l.above) l.ordered l.node.self.quantity []).content

/-- The orders below a node have a part in the start of its order only. -/
theorem Placing.content_eq (r : CascadeRequest) (p : Placing) :
    (p.request r).content = p.way.content r := rfl

/-! ## The same calls -/

section

variable {c : Catalogue} {now : DateTime}

/-- What becomes of a node depends on whether it is made: the call for it comes after those below
it, if the cascade has not ended there. -/
theorem Node.Cascades.inv {above : List Node} {n : Node} {ps : List Placing}
    {out : Except EngineError (Option OrderRef)} (h : n.Cascades c now above ps out) :
    match n.isMade c now above.isEmpty with
    | .error e => ps = [] ∧ out = .error (.store e)
    | .ok false => ps = [] ∧ out = .ok none
    | .ok true =>
      (∃ e, n.slots.Cascades c now (n :: above) ps (.error e) ∧ out = .error e) ∨
      ∃ qs below answer, n.slots.Cascades c now (n :: above) qs (.ok below) ∧
        ps = qs ++ [⟨⟨n, above⟩, below, answer⟩] ∧ out = settle answer := by
  cases h with
  | unknown hmade =>
    rw [hmade]
    exact ⟨rfl, rfl⟩
  | bought hmade =>
    rw [hmade]
    exact ⟨rfl, rfl⟩
  | halted hmade hslots =>
    rw [hmade]
    exact .inl ⟨_, hslots, rfl⟩
  | placed answer hmade hslots =>
    rw [hmade]
    exact .inr ⟨_, _, answer, hslots, rfl, rfl⟩

theorem ending_settle {answer : Except PlacingError OrderRef}
    (h : ending (settle answer) ≠ .error .outOfCalendar) : ending (settle answer) = .ok () := by
  obtain ⟨o, ho⟩ := settle_of_ne h
  rw [ho]
  rfl

mutual

/-- Whatever the answers are, the calls for a subtree are for the same nodes and end alike, unless a
date leaves the calendar. -/
theorem Node.same_ways {above : List Node} : ∀ {n : Node} {ps ps' : List Placing}
    {out out' : Except EngineError (Option OrderRef)},
    n.Cascades c now above ps out → n.Cascades c now above ps' out' →
    ending out ≠ .error .outOfCalendar → ending out' ≠ .error .outOfCalendar →
      ps.map (·.way) = ps'.map (·.way) ∧ ending out = ending out'
  | .mk self replaced slots, ps, ps', out, out', h, h', hout, hout' => by
    have hinv := h.inv
    have hinv' := h'.inv
    split at hinv
    · next hmade =>
      obtain ⟨rfl, rfl⟩ := hinv
      rw [hmade] at hinv'
      obtain ⟨rfl, rfl⟩ := hinv'
      exact ⟨rfl, rfl⟩
    · next hmade =>
      obtain ⟨rfl, rfl⟩ := hinv
      rw [hmade] at hinv'
      obtain ⟨rfl, rfl⟩ := hinv'
      exact ⟨rfl, rfl⟩
    · next hmade =>
      rw [hmade] at hinv'
      rcases hinv with ⟨e, hslots, rfl⟩ | ⟨qs, below, answer, hslots, rfl, rfl⟩ <;>
        rcases hinv' with ⟨e', hslots', rfl⟩ | ⟨qs', below', answer', hslots', rfl, rfl⟩
      · exact Slots.same_ways (s := slots) hslots hslots' hout hout'
      · cases (Slots.same_ways (s := slots) hslots hslots' hout ending_ok_ne).2
      · cases (Slots.same_ways (s := slots) hslots hslots' ending_ok_ne hout').2
      · have hways := (Slots.same_ways (s := slots) hslots hslots' ending_ok_ne ending_ok_ne).1
        rw [List.map_append, List.map_append, hways, ending_settle hout, ending_settle hout']
        exact ⟨rfl, rfl⟩

/-- Whatever the answers are, the calls below slots are for the same nodes and end alike, unless a
date leaves the calendar. -/
theorem Slots.same_ways {above : List Node} : ∀ {s : Slots} {ps ps' : List Placing}
    {out out' : Except EngineError (List OrderRef)},
    s.Cascades c now above ps out → s.Cascades c now above ps' out' →
    ending out ≠ .error .outOfCalendar → ending out' ≠ .error .outOfCalendar →
      ps.map (·.way) = ps'.map (·.way) ∧ ending out = ending out'
  | .nil, _, _, _, _, .nil, .nil, _, _ => ⟨rfl, rfl⟩
  | .vacant _ rest, _, _, _, _, .vacant h, .vacant h', hout, hout' =>
    Slots.same_ways (s := rest) h h' hout hout'
  | .filled _ child rest, ps, ps', out, out', h, h', hout, hout' => by
    cases h with
    | halted hchild =>
      cases h' with
      | halted hchild' => exact Node.same_ways hchild hchild' hout hout'
      | filled hchild' _ => cases (Node.same_ways hchild hchild' hout ending_ok_ne).2
    | @filled _ _ _ _ ps qs order rest hchild hrest =>
      cases h' with
      | halted hchild' => cases (Node.same_ways hchild hchild' ending_ok_ne hout').2
      | @filled _ _ _ _ ps' qs' order' rest' hchild' hrest' =>
        rw [ending_map] at hout hout'
        have hfirst := (Node.same_ways hchild hchild' ending_ok_ne ending_ok_ne).1
        obtain ⟨hsecond, hend⟩ := Slots.same_ways hrest hrest' hout hout'
        rw [List.map_append, List.map_append, hfirst, hsecond, ending_map, ending_map, hend]
        exact ⟨rfl, rfl⟩

end

end

/-! ## The orders that are recorded -/

/-- The node that an order of a run is for, and what it asks for. -/
def NodeOrder.asked (e : NodeOrder) : Lineage × OrderContent := (e.way, e.order.request.content)

/-- The orders of a run are for the nodes that are asked for, less those whose products the desk
refuses, and ask for what the nodes tell. -/
theorem Workshop.Replays.asked {w : Workshop OrderBook} {d : DeskSettings} {r : CascadeRequest}
    (hd : w.desk = OrderBook.desk d) {b b' : OrderBook} {ps : List Placing}
    (hsettled : ∀ p ∈ ps, ∃ o, settle p.answer = .ok o) (h : w.Replays r b ps b') :
    (ps.filterMap (Placing.entry r)).map NodeOrder.asked =
      ((ps.map (·.way)).map fun l => (l, l.content r)).filter fun e =>
        e.2.product ∉ d.refused := by
  have hopen : ∀ p ∈ ps, p.order.isSome = decide (p.way.ordered.id ∉ d.refused) := by
    intro p hp
    obtain ⟨_, ho⟩ := hsettled p hp
    exact (h.answered hd p hp).isSome ho
  have hasked : (ps.filterMap (Placing.entry r)).map NodeOrder.asked =
      ((ps.filterMap (Placing.entry r)).map (·.way)).map fun l => (l, l.content r) := by
    rw [List.map_map]
    refine List.map_congr_left fun e he => ?_
    obtain ⟨p, -, -, hway, hrequest⟩ := mem_entries.1 he
    change (e.way, e.order.request.content) = (e.way, e.way.content r)
    rw [hrequest, p.content_eq, hway]
  rw [hasked, map_entry_way (f := fun l => decide (l.ordered.id ∉ d.refused)) hopen]
  symm
  exact List.filter_map

/-- A desk in memory that refuses some products records the same orders as one that refuses nothing,
less those for the products that it refuses: for the same nodes, in the same order, with the same
content. Both runs end alike. This is so for every tree and whatever is in the books before, as long
as no date leaves the calendar. -/
theorem run_isolated (t : Tree) (c : Catalogue) (d : DeskSettings) (now : DateTime)
    (calculator : Option Calculator) (r : CascadeRequest) (b b' : OrderBook) :
    let refusing : Workshop OrderBook := ⟨c, OrderBook.desk d, now⟩
    let willing : Workshop OrderBook := ⟨c, OrderBook.desk { d with refused := [] }, now⟩
    let out := (refusing.run calculator r t b).2.2.outcome
    let out' := (willing.run calculator r t b').2.2.outcome
    out ≠ .error .outOfCalendar → out' ≠ .error .outOfCalendar →
      ending out = ending out' ∧ ∃ entries entries' : List NodeOrder,
        (refusing.run calculator r t b).1.orders = b.orders ++ entries.map (·.order) ∧
        (willing.run calculator r t b').1.orders = b'.orders ++ entries'.map (·.order) ∧
        entries'.map (·.way) <+: (t.flatten 0 false calculator).1.due c now ∧
        entries.map NodeOrder.asked =
          (entries'.map NodeOrder.asked).filter fun e => e.2.product ∉ d.refused := by
  intro refusing willing out out' hout hout'
  cases hpass : (t.flatten 0 false calculator).2.outcome with
  | error e =>
    obtain ⟨hstate, hfailed⟩ := refusing.run_of_error b hpass
    obtain ⟨hstate', hfailed'⟩ := willing.run_of_error b' hpass
    rw [hstate, hstate']
    refine ⟨congrArg ending (hfailed.trans hfailed'.symm), [], [], ?_⟩
    exact ⟨(List.append_nil _).symm, (List.append_nil _).symm, List.nil_prefix, rfl⟩
  | ok numbers =>
    obtain ⟨ps, hcascades, hreplays⟩ := refusing.run_cascades r b hpass
    obtain ⟨ps', hcascades', hreplays'⟩ := willing.run_cascades r b' hpass
    have hend := ending_eq_error.not.2 hout
    have hend' := ending_eq_error.not.2 hout'
    obtain ⟨hways, hsame⟩ := Node.same_ways hcascades hcascades' hend hend'
    have hasked := hreplays.asked rfl (hcascades.settled hend)
    have hasked' := hreplays'.asked rfl (hcascades'.settled hend')
    rw [List.filter_eq_self.2 fun _ _ => decide_eq_true List.not_mem_nil] at hasked'
    refine ⟨hsame, ps.filterMap (Placing.entry r), ps'.filterMap (Placing.entry r), ?_, ?_, ?_, ?_⟩
    · rw [map_entry_order]
      exact hreplays.orders rfl
    · rw [map_entry_order]
      exact hreplays'.orders rfl
    · have hall := congrArg (List.map Prod.fst) hasked'
      rw [List.map_map, List.map_map, Function.comp_def, Function.comp_def, List.map_id'] at hall
      rw [show (ps'.filterMap (Placing.entry r)).map (·.way) = ps'.map (·.way) from hall]
      exact (hcascades'.ways rfl).1
    · rw [hasked, hasked', hways]

/-- The bicycle is ordered though the desk refuses its frame, in a book that an earlier run has
left. -/
theorem bicycle_isolated :
    ∃ t, (buildTree MemoryCatalogue.bicycles.catalogue 3 (.sample "bicycle")).outcome = .ok t ∧
      let d := DeskSettings.standard.refusing "steel frame"
      let refusing := Workshop.bicycles d
      let willing := Workshop.bicycles { d with refused := [] }
      let b := (willing.run none .sample t .empty).1
      (refusing.run none .sample t b).2.2.outcome = .ok (some ⟨"PO-0003", .epoch⟩) ∧
      (willing.run none .sample t .empty).2.2.outcome = .ok (some ⟨"PO-0002", .epoch⟩) ∧
      ∃ entries entries' : List NodeOrder,
        (refusing.run none .sample t b).1.orders = b.orders ++ entries.map (·.order) ∧
        b.orders = [] ++ entries'.map (·.order) ∧
        entries'.map (·.way) <+: (t.flatten 0 false none).1.due refusing.catalogue .epoch ∧
        entries.map NodeOrder.asked =
          (entries'.map NodeOrder.asked).filter fun e => e.2.product ∉ d.refused := by
  obtain ⟨t, ht⟩ :
    ∃ t, (buildTree MemoryCatalogue.bicycles.catalogue 3 (.sample "bicycle")).outcome = .ok t :=
      ⟨_, rfl⟩
  refine ⟨t, ht, ?_⟩
  intro d refusing willing b
  have hout : (refusing.run none .sample t b).2.2.outcome = .ok (some ⟨"PO-0003", .epoch⟩) := by
    cases ht
    decide +kernel
  have hout' : (willing.run none .sample t .empty).2.2.outcome =
      .ok (some ⟨"PO-0002", .epoch⟩) := by
    cases ht
    decide +kernel
  refine ⟨hout, hout', ?_⟩
  refine (run_isolated t MemoryCatalogue.bicycles.catalogue d .epoch none .sample b .empty ?_ ?_).2
  · exact hout ▸ nofun
  · exact hout' ▸ nofun

end Bom
