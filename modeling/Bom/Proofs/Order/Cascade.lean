import Bom.Proofs.Order.Work
import Bom.Proofs.Outcome
import Bom.Proofs.Tree.Lineage

/-!
# The calls of a cascade

A cascade asks the desk for one order after the other, and each answer has a part in the requests
after it. What it asks is told here apart from the desk: `Node.Cascades` relates a subtree to the
calls for its orders and to the outcome at its node, whatever the answers are, and
`Workshop.Replays` makes a desk give these answers. `Node.order_cascades` finds both in what
`Node.order` does, so all that is to be known about a run follows by induction on `Node.Cascades`:

* `Node.Cascades.ways`: the calls are for the nodes that are to be made, in post-order.
* `Node.Cascades.split`: before the call for a node, all below the node has been ordered.
* `Node.Cascades.orders_perm`: each order but that of the root is handed on to one call.

Desks that mirror each other give the same answers to the same calls (`Workshop.Replays.mirrored`).
-/

namespace Bom

/-! ## The nodes that are to be made -/

mutual

/-- The lineages of the nodes of a subtree in post-order: a node comes after the nodes in its slots,
which come in the order of the slots. -/
def Node.postorder (above : List Node) : Node → List Lineage
  | .mk self replaced slots =>
    slots.postorder (.mk self replaced slots :: above) ++ [⟨.mk self replaced slots, above⟩]

/-- The lineages of the nodes in and below slots in post-order. -/
def Slots.postorder (above : List Node) : Slots → List Lineage
  | .nil => []
  | .vacant _ rest => rest.postorder above
  | .filled _ child rest => child.postorder above ++ rest.postorder above

end

theorem Node.postorder_eq (n : Node) (above : List Node) :
    n.postorder above = n.slots.postorder (n :: above) ++ [⟨n, above⟩] := by
  cases n
  rfl

mutual

/-- The post-order has the nodes of the subtree, each as often as the pre-order. -/
theorem Node.postorder_perm (above : List Node) :
    ∀ n : Node, (n.postorder above).Perm (n.lineages above)
  | .mk self replaced slots => by
    rw [Node.postorder, Node.lineages]
    exact List.perm_append_comm.trans ((slots.postorder_perm _).cons _)

/-- The post-order has the nodes in and below the slots, each as often as the pre-order. -/
theorem Slots.postorder_perm (above : List Node) :
    ∀ s : Slots, (s.postorder above).Perm (s.lineages above)
  | .nil => .nil
  | .vacant _ rest => rest.postorder_perm above
  | .filled _ child rest => (child.postorder_perm above).append (rest.postorder_perm above)

end

/-- No preferred supplier delivers the product, and the catalogue can tell. -/
def Catalogue.isUnsupplied (c : Catalogue) (now : DateTime) (product : String) : Bool :=
  match c.isSupplied product now with
  | .ok supplied => !supplied
  | .error _ => false

/-- Everything on a way from the root, read upwards, is to be made: something goes into it, and
unless it is the root, no preferred supplier delivers it. -/
def Catalogue.makesAll (c : Catalogue) (now : DateTime) : List Node → Bool
  | [] => true
  | n :: above => c.makesAll now above && n.slots.hasNode &&
      (above.isEmpty || c.isUnsupplied now n.self.product.id)

/-- The node at the end of the way is to be made, with all nodes above it. -/
def Lineage.isEligible (c : Catalogue) (now : DateTime) (l : Lineage) : Bool :=
  c.makesAll now (l.node :: l.above)

/-- The nodes of a tree that are to be made, in post-order. -/
def Tree.due (t : Tree) (c : Catalogue) (now : DateTime) : List Lineage :=
  (t.root.postorder []).filter (Lineage.isEligible c now)

section

variable {c : Catalogue} {now : DateTime}

/-- Where the catalogue can tell whether a node is made, this is what makes a way go on. -/
theorem Node.makesAll_of_isMade {n : Node} {above : List Node} {made : Bool}
    (h : n.isMade c now above.isEmpty = .ok made) (habove : c.makesAll now above = true) :
    c.makesAll now (n :: above) = made := by
  rw [Catalogue.makesAll, habove, Bool.true_and]
  unfold Node.isMade at h
  cases hnode : n.slots.hasNode with
  | false =>
    rw [hnode] at h
    cases h
    rfl
  | true =>
    rw [hnode] at h
    cases hroot : above.isEmpty with
    | true =>
      rw [hroot] at h
      cases h
      rfl
    | false =>
      rw [hroot] at h
      obtain ⟨supplied, hsupplied, rfl⟩ := map_eq_ok.1 h
      simp [Catalogue.isUnsupplied, hsupplied]

/-- What lies above on a way that is to be made is to be made. -/
theorem Catalogue.makesAll_of_append {ms : List Node} :
    ∀ {below : List Node}, c.makesAll now (below ++ ms) = true → c.makesAll now ms = true
  | [], h => h
  | _ :: _, h => by
    rw [List.cons_append, Catalogue.makesAll, Bool.and_eq_true, Bool.and_eq_true] at h
    exact Catalogue.makesAll_of_append h.1.1

/-- A node below the root that is to be made has something in its slots, and no supplier delivers
it. -/
theorem Catalogue.makesAll_cons {n : Node} {above : List Node} (habove : above ≠ [])
    (h : c.makesAll now (n :: above) = true) :
    n.slots.hasNode = true ∧ c.isUnsupplied now n.self.product.id = true := by
  rw [Catalogue.makesAll, Bool.and_eq_true, Bool.and_eq_true, Bool.or_eq_true,
    List.isEmpty_iff] at h
  exact ⟨h.1.2, h.2.resolve_left habove⟩

/-- A node that is to be made comes after all that is to be made below it. -/
theorem Node.filter_postorder (n : Node) (above : List Node) :
    (n.postorder above).filter (Lineage.isEligible c now) =
      (n.slots.postorder (n :: above)).filter (Lineage.isEligible c now) ++
        if c.makesAll now (n :: above) then [⟨n, above⟩] else [] := by
  rw [n.postorder_eq, List.filter_append, List.filter_cons, List.filter_nil]
  rfl

mutual

/-- Nothing is made below a node that is not. -/
theorem Node.not_isEligible_of_above {above : List Node} (h : c.makesAll now above = false) :
    ∀ n : Node, (n.postorder above).filter (Lineage.isEligible c now) = []
  | .mk self replaced slots => by
    have hself : c.makesAll now (.mk self replaced slots :: above) = false := by
      rw [Catalogue.makesAll, h, Bool.false_and, Bool.false_and]
    rw [Node.filter_postorder, hself, Node.slots, slots.not_isEligible_of_above hself]
    rfl

/-- Nothing is made in and below the slots of a node that is not made. -/
theorem Slots.not_isEligible_of_above {above : List Node} (h : c.makesAll now above = false) :
    ∀ s : Slots, (s.postorder above).filter (Lineage.isEligible c now) = []
  | .nil => rfl
  | .vacant _ rest => rest.not_isEligible_of_above h
  | .filled _ child rest => by
    rw [Slots.postorder, List.filter_append, child.not_isEligible_of_above h,
      rest.not_isEligible_of_above h, List.append_nil]

end

end

/-! ## Calls and their answers -/

/-- A call for an order: the way to the node that it is for, the orders of the nodes in its slots,
and the answer of the desk. -/
structure Placing where
  way : Lineage
  below : List OrderRef
  answer : Except PlacingError OrderRef

namespace Placing

/-- The order that has come of the call. -/
def order (p : Placing) : Option OrderRef := p.answer.toOption

theorem order_eq_some {p : Placing} {o : OrderRef} : p.order = some o ↔ p.answer = .ok o := by
  obtain ⟨way, below, answer⟩ := p
  cases answer with
  | error e => exact ⟨nofun, nofun⟩
  | ok o' => exact ⟨fun h => congrArg _ (Option.some.inj h), fun h => congrArg _ (Except.ok.inj h)⟩

end Placing

/-- What an answer means for the nodes above: a refusal is passed over, but a completion outside of
the calendar ends the cascade. -/
def settle : Except PlacingError OrderRef → Except EngineError (Option OrderRef)
  | .ok order => .ok (some order)
  | .error (.refused _) => .ok none
  | .error .outOfCalendar => .error .outOfCalendar

/-- How a cascade ends, without the orders that it ends with. -/
def ending {α : Type} (out : Except EngineError α) : Except EngineError Unit := out.map fun _ => ()

theorem ending_map {α β : Type} (f : α → β) (out : Except EngineError α) :
    ending (out.map f) = ending out := by
  cases out <;> rfl

theorem ending_ok_ne {α : Type} {a : α} {e : EngineError} :
    ending (.ok a : Except EngineError α) ≠ .error e := by
  intro h
  cases h

theorem ending_eq_error {α : Type} {out : Except EngineError α} {e : EngineError} :
    ending out = .error e ↔ out = .error e := by
  constructor
  · intro h
    cases out with
    | error e' => exact congrArg _ (Except.error.inj h)
    | ok a => cases h
  · rintro rfl
    rfl

theorem settle_eq_ok {answer : Except PlacingError OrderRef} {o : Option OrderRef}
    (h : settle answer = .ok o) : answer.toOption = o := by
  rcases answer with (_ | _) | order <;> cases h <;> rfl

mutual

/-- What is asked of a desk for the orders of a subtree, and the outcome at its node. -/
inductive Node.Cascades (c : Catalogue) (now : DateTime) :
    List Node → Node → List Placing → Except EngineError (Option OrderRef) → Prop
  /-- the catalogue cannot tell whether the node is made -/
  | unknown {above n e} : n.isMade c now above.isEmpty = .error e →
      Node.Cascades c now above n [] (.error (.store e))
  | bought {above n} : n.isMade c now above.isEmpty = .ok false →
      Node.Cascades c now above n [] (.ok none)
  /-- the cascade has ended below the node -/
  | halted {above n ps e} : n.isMade c now above.isEmpty = .ok true →
      Slots.Cascades c now (n :: above) n.slots ps (.error e) →
      Node.Cascades c now above n ps (.error e)
  | placed {above n ps below} (answer : Except PlacingError OrderRef) :
      n.isMade c now above.isEmpty = .ok true →
      Slots.Cascades c now (n :: above) n.slots ps (.ok below) →
      Node.Cascades c now above n (ps ++ [⟨⟨n, above⟩, below, answer⟩]) (settle answer)

/-- What is asked of a desk for the orders below slots, and the orders of the nodes in the slots. -/
inductive Slots.Cascades (c : Catalogue) (now : DateTime) :
    List Node → Slots → List Placing → Except EngineError (List OrderRef) → Prop
  | nil {above} : Slots.Cascades c now above .nil [] (.ok [])
  | vacant {above edge rest ps out} : Slots.Cascades c now above rest ps out →
      Slots.Cascades c now above (.vacant edge rest) ps out
  /-- the cascade has ended in the slot -/
  | halted {above edge child rest ps e} : Node.Cascades c now above child ps (.error e) →
      Slots.Cascades c now above (.filled edge child rest) ps (.error e)
  | filled {above edge child rest ps qs order out} :
      Node.Cascades c now above child ps (.ok order) →
      Slots.Cascades c now above rest qs out →
      Slots.Cascades c now above (.filled edge child rest) (ps ++ qs)
        (out.map (order.toList ++ ·))

end

section

variable {c : Catalogue} {now : DateTime}

mutual

/-- The calls for a subtree are for the nodes that are to be made, in post-order, and for all of
them if the cascade does not end in the subtree. -/
theorem Node.Cascades.ways {above : List Node} {n : Node} {ps : List Placing}
    {out : Except EngineError (Option OrderRef)} (habove : c.makesAll now above = true) :
    Node.Cascades c now above n ps out →
      ps.map (·.way) <+: (n.postorder above).filter (Lineage.isEligible c now) ∧
        ∀ o, out = .ok o →
          ps.map (·.way) = (n.postorder above).filter (Lineage.isEligible c now)
  | .unknown _ => ⟨List.nil_prefix, fun _ h => nomatch h⟩
  | .bought hmade => by
    have hself : c.makesAll now (n :: above) = false := Node.makesAll_of_isMade hmade habove
    rw [n.filter_postorder, hself, n.slots.not_isEligible_of_above hself]
    exact ⟨List.nil_prefix, fun _ _ => rfl⟩
  | .halted hmade hslots => by
    have hself : c.makesAll now (n :: above) = true := Node.makesAll_of_isMade hmade habove
    rw [n.filter_postorder]
    exact ⟨(hslots.ways hself).1.trans (List.prefix_append _ _), fun _ h => nomatch h⟩
  | .placed answer hmade hslots => by
    have hself : c.makesAll now (n :: above) = true := Node.makesAll_of_isMade hmade habove
    have hall := (hslots.ways hself).2 _ rfl
    rw [n.filter_postorder, hself, if_pos rfl, List.map_append, hall]
    exact ⟨List.prefix_rfl, fun _ _ => rfl⟩

/-- The calls below slots are for the nodes that are to be made, in post-order, and for all of them
if the cascade does not end below the slots. -/
theorem Slots.Cascades.ways {above : List Node} {s : Slots} {ps : List Placing}
    {out : Except EngineError (List OrderRef)} (habove : c.makesAll now above = true) :
    Slots.Cascades c now above s ps out →
      ps.map (·.way) <+: (s.postorder above).filter (Lineage.isEligible c now) ∧
        ∀ os, out = .ok os →
          ps.map (·.way) = (s.postorder above).filter (Lineage.isEligible c now)
  | .nil => ⟨List.nil_prefix, fun _ _ => rfl⟩
  | .vacant hrest => by
    rw [Slots.postorder]
    exact hrest.ways habove
  | .halted hchild => by
    rw [Slots.postorder, List.filter_append]
    exact ⟨(hchild.ways habove).1.trans (List.prefix_append _ _), fun _ h => nomatch h⟩
  | .filled hchild hrest => by
    have hfirst := (hchild.ways habove).2 _ rfl
    obtain ⟨hsome, hall⟩ := hrest.ways habove
    rw [Slots.postorder, List.filter_append, List.map_append, hfirst]
    refine ⟨(List.prefix_append_right_inj _).2 hsome, fun os h => ?_⟩
    obtain ⟨os', hos', -⟩ := map_eq_ok.1 h
    rw [hall os' hos']

end

mutual

/-- Each order of a subtree is handed on to one call, as one of the orders below it, or is the order
of the node at the top. -/
theorem Node.Cascades.orders_perm {above : List Node} {n : Node} {ps : List Placing}
    {out : Except EngineError (Option OrderRef)} : Node.Cascades c now above n ps out →
      ∀ o, out = .ok o → (ps.flatMap (·.below) ++ o.toList).Perm (ps.filterMap Placing.order)
  | .unknown _, _, h => nomatch h
  | .bought _, _, h => by
    cases h
    exact .nil
  | .halted _ _, _, h => nomatch h
  | .placed answer _ hslots, o, h => by
    have hbelow := hslots.orders_perm _ rfl
    have horder := settle_eq_ok h
    rw [List.flatMap_append, List.filterMap_append, List.flatMap_singleton, List.filterMap_cons,
      Placing.order, horder, List.filterMap_nil]
    cases o with
    | none => simpa using hbelow
    | some o => exact hbelow.append_right [o]

/-- Each order below slots is handed on to one call, as one of the orders below it, or is the order
of a node in the slots. -/
theorem Slots.Cascades.orders_perm {above : List Node} {s : Slots} {ps : List Placing}
    {out : Except EngineError (List OrderRef)} : Slots.Cascades c now above s ps out →
      ∀ os, out = .ok os → (ps.flatMap (·.below) ++ os).Perm (ps.filterMap Placing.order)
  | .nil, _, h => by
    cases h
    exact .nil
  | .vacant hrest, _, h => hrest.orders_perm _ h
  | .halted _, _, h => nomatch h
  | @Slots.Cascades.filled _ _ _ _ _ _ ps qs order out hchild hrest, _, h => by
    obtain ⟨os, hos, rfl⟩ := map_eq_ok.1 h
    have hfirst := hchild.orders_perm _ rfl
    have hsecond := hrest.orders_perm _ hos
    rw [List.flatMap_append, List.filterMap_append]
    refine List.Perm.trans ?_ (hfirst.append hsecond)
    -- the orders of the slot and the calls after it change places
    rw [List.append_assoc, List.append_assoc]
    refine List.Perm.append_left _ ?_
    rw [← List.append_assoc, ← List.append_assoc]
    exact List.perm_append_comm.append_right os

end

mutual

/-- A cascade whose questions are answered ends early for no reason but a date outside of the
calendar. -/
theorem Node.Cascades.eq_outOfCalendar {above : List Node} {n : Node} {ps : List Placing}
    {out : Except EngineError (Option OrderRef)} : Node.Cascades c now above n ps out →
      (∀ l ∈ n.lineages above, ∃ made, l.node.isMade c now l.above.isEmpty = .ok made) →
      ∀ e, out = .error e → e = .outOfCalendar
  | .unknown hmade, hanswered, _, _ => by
    obtain ⟨made, hanswer⟩ := hanswered _ (n.mem_lineages_self above)
    cases hmade.symm.trans hanswer
  | .bought _, _, _, h => nomatch h
  | .halted _ hslots, hanswered, _, h => by
    rw [n.lineages_eq] at hanswered
    cases h
    exact hslots.eq_outOfCalendar (fun l hl => hanswered l (List.mem_cons_of_mem _ hl)) _ rfl
  | .placed (.error (.refused _)) _ _, _, _, h => nomatch h
  | .placed (.error .outOfCalendar) _ _, _, _, h => (Except.error.inj h).symm
  | .placed (.ok _) _ _, _, _, h => nomatch h

/-- The same for a cascade below slots. -/
theorem Slots.Cascades.eq_outOfCalendar {above : List Node} {s : Slots} {ps : List Placing}
    {out : Except EngineError (List OrderRef)} : Slots.Cascades c now above s ps out →
      (∀ l ∈ s.lineages above, ∃ made, l.node.isMade c now l.above.isEmpty = .ok made) →
      ∀ e, out = .error e → e = .outOfCalendar
  | .nil, _, _, h => nomatch h
  | .vacant hrest, hanswered, e, h => hrest.eq_outOfCalendar hanswered e h
  | .halted hchild, hanswered, _, h => by
    cases h
    exact hchild.eq_outOfCalendar (fun l hl => hanswered l (List.mem_append_left _ hl)) _ rfl
  | @Slots.Cascades.filled _ _ _ _ _ _ _ _ _ out hchild hrest, hanswered, e, h => by
    have hout : out = .error e := ending_eq_error.1 ((ending_map _ out).symm.trans
      (ending_eq_error.2 h))
    exact hrest.eq_outOfCalendar (fun l hl => hanswered l (List.mem_append_right _ hl)) e hout

end

/-- Only a completion outside of the calendar ends a cascade. -/
theorem settle_of_ne {answer : Except PlacingError OrderRef}
    (h : ending (settle answer) ≠ .error .outOfCalendar) : ∃ o, settle answer = .ok o := by
  rcases answer with (_ | _) | order
  · exact ⟨none, rfl⟩
  · exact absurd rfl h
  · exact ⟨some order, rfl⟩

mutual

/-- Unless a date has left the calendar, the cascade has gone on after all calls for a subtree. -/
theorem Node.Cascades.settled {above : List Node} {n : Node} {ps : List Placing}
    {out : Except EngineError (Option OrderRef)} : Node.Cascades c now above n ps out →
      ending out ≠ .error .outOfCalendar → ∀ p ∈ ps, ∃ o, settle p.answer = .ok o
  | .unknown _, _ => List.forall_mem_nil _
  | .bought _, _ => List.forall_mem_nil _
  | .halted _ hslots, h => hslots.settled h
  | .placed _ _ hslots, h =>
    List.forall_mem_append.2
      ⟨hslots.settled ending_ok_ne, List.forall_mem_singleton.2 (settle_of_ne h)⟩

/-- Unless a date has left the calendar, the cascade has gone on after all calls below slots. -/
theorem Slots.Cascades.settled {above : List Node} {s : Slots} {ps : List Placing}
    {out : Except EngineError (List OrderRef)} : Slots.Cascades c now above s ps out →
      ending out ≠ .error .outOfCalendar → ∀ p ∈ ps, ∃ o, settle p.answer = .ok o
  | .nil, _ => List.forall_mem_nil _
  | .vacant hrest, h => hrest.settled h
  | .halted hchild, h => hchild.settled h
  | .filled hchild hrest, h => by
    rw [ending_map] at h
    exact List.forall_mem_append.2 ⟨hchild.settled ending_ok_ne, hrest.settled h⟩

end

/-- The last call is for the top of the subtree, unless no call is made. -/
theorem Node.Cascades.last_call {above : List Node} {n : Node} {ps : List Placing}
    {top : Option OrderRef} (h : Node.Cascades c now above n ps (.ok top)) :
    (ps = [] ∧ top = none) ∨
      ∃ qs below answer, ps = qs ++ [⟨⟨n, above⟩, below, answer⟩] ∧ settle answer = .ok top := by
  generalize hout : (Except.ok top : Except EngineError (Option OrderRef)) = out at h
  cases h with
  | unknown _ => cases hout
  | bought _ =>
    cases hout
    exact .inl ⟨rfl, rfl⟩
  | halted _ _ => cases hout
  | placed answer _ _ => exact .inr ⟨_, _, answer, rfl, rfl⟩

/-- The orders of the nodes in slots are answers to calls for nodes there. -/
theorem Slots.Cascades.exists_call {above : List Node} {s : Slots} {ps : List Placing}
    {out : Except EngineError (List OrderRef)} : Slots.Cascades c now above s ps out →
      ∀ os, out = .ok os → ∀ o ∈ os, ∃ p ∈ ps, p.way.above = above ∧ p.order = some o
  | .nil, _, h, _, ho => by
    cases h
    cases ho
  | .vacant hrest, _, h, _, ho => hrest.exists_call _ h _ ho
  | .halted _, _, h, _, _ => nomatch h
  | .filled hchild hrest, _, h, o, ho => by
    obtain ⟨os, hos, rfl⟩ := map_eq_ok.1 h
    rcases List.mem_append.1 ho with ho | ho
    · rw [Option.mem_toList] at ho
      cases ho
      rcases hchild.last_call with ⟨-, hnone⟩ | ⟨qs, below, answer, rfl, hanswer⟩
      · cases hnone
      · refine ⟨_, List.mem_append_left _ (List.mem_append_right _ List.mem_cons_self), rfl, ?_⟩
        exact settle_eq_ok hanswer
    · obtain ⟨p, hp, hway⟩ := hrest.exists_call _ hos o ho
      exact ⟨p, List.mem_append_right _ hp, hway⟩

mutual

/-- The calls just before the call for a node are those for all that lies below the node. -/
theorem Node.Cascades.split {above : List Node} {n : Node} {ps : List Placing}
    {out : Except EngineError (Option OrderRef)} : Node.Cascades c now above n ps out →
      ∀ {xs : List Placing} {p : Placing} {ys : List Placing}, ps = xs ++ p :: ys →
        ∃ before within, xs = before ++ within ∧
          Slots.Cascades c now (p.way.node :: p.way.above) p.way.node.slots within (.ok p.below)
  | .unknown _, xs, _, _, h => by simp at h
  | .bought _, xs, _, _, h => by simp at h
  | .halted _ hslots, _, _, _, h => hslots.split h
  | .placed answer _ hslots, xs, p, ys, h => by
    rcases List.eq_nil_or_concat ys with rfl | ⟨ys, last, rfl⟩
    · obtain ⟨rfl, hp⟩ := List.append_inj' h rfl
      cases hp
      exact ⟨[], _, rfl, hslots⟩
    · rw [List.concat_eq_append, ← List.cons_append, ← List.append_assoc] at h
      exact hslots.split (List.append_inj' h rfl).1

/-- The calls just before the call for a node are those for all that lies below the node. -/
theorem Slots.Cascades.split {above : List Node} {s : Slots} {ps : List Placing}
    {out : Except EngineError (List OrderRef)} : Slots.Cascades c now above s ps out →
      ∀ {xs : List Placing} {p : Placing} {ys : List Placing}, ps = xs ++ p :: ys →
        ∃ before within, xs = before ++ within ∧
          Slots.Cascades c now (p.way.node :: p.way.above) p.way.node.slots within (.ok p.below)
  | .nil, xs, _, _, h => by simp at h
  | .vacant hrest, _, _, _, h => hrest.split h
  | .halted hchild, _, _, _, h => hchild.split h
  | @Slots.Cascades.filled _ _ _ _ _ _ ps qs _ _ hchild hrest, xs, p, ys, h => by
    rcases List.append_eq_append_iff.1 h with ⟨xs', rfl, hqs⟩ | ⟨_ | ⟨q, zs⟩, hps, h⟩
    · obtain ⟨before, within, rfl, hbelow⟩ := hrest.split hqs
      exact ⟨ps ++ before, within, (List.append_assoc ..).symm, hbelow⟩
    · have hqs : qs = [] ++ p :: ys := h.symm
      obtain ⟨before, within, hxs, hbelow⟩ := hrest.split hqs
      rw [List.append_nil] at hps
      obtain ⟨rfl, rfl⟩ := List.append_eq_nil_iff.1 hxs.symm
      exact ⟨xs, [], (List.append_nil _).symm, hbelow⟩
    · cases h
      exact hchild.split hps

end

end

/-! ## What a run asks, and what the desk answers -/

/-- What an order takes over from the request of its cascade: the root all of it, the other nodes
what orders below take over. -/
def CascadeRequest.under (r : CascadeRequest) (above : List Node) : CascadeRequest :=
  if above.isEmpty then r else r.below

theorem CascadeRequest.under_cons (r : CascadeRequest) (n : Node) (above : List Node) :
    r.under (n :: above) = (r.under above).below := by
  cases above <;> rfl

@[simp] theorem CascadeRequest.under_start (r : CascadeRequest) (above : List Node) :
    (r.under above).start = r.start := by
  unfold under
  split <;> rfl

/-- The product under which the node is ordered. -/
def Lineage.ordered (l : Lineage) : Product :=
  orderedProduct l.above.isEmpty l.node.self l.node.replaced

/-- What is asked of the desk. -/
def Placing.request (r : CascadeRequest) (p : Placing) : OrderRequest :=
  Workshop.orderRequest (r.under p.way.above) p.way.ordered p.way.node.self.quantity p.below

namespace Workshop

variable {σ : Type} {w : Workshop σ} {r : CascadeRequest}

/-- The desk after the links of the order, if there is one, that has come of a call. -/
def linked (w : Workshop σ) (r : CascadeRequest) (below : List OrderRef) (s : σ) :
    Except PlacingError OrderRef → σ
  | .ok order => ((w.linkBelow r order below).result ((w.linkSource r order).result s).1).1
  | .error _ => s

/-- From one state to another, the desk gives the answers of the calls. -/
inductive Replays (w : Workshop σ) (r : CascadeRequest) : σ → List Placing → σ → Prop
  | nil {s} : Replays w r s [] s
  | cons {s s' s'' p ps} : w.desk.place (p.request r) s = (s', p.answer) →
      Replays w r (w.linked (r.under p.way.above) p.below s' p.answer) ps s'' →
      Replays w r s (p :: ps) s''

theorem Replays.append {s s' s'' : σ} {ps qs : List Placing} (h : w.Replays r s ps s')
    (h' : w.Replays r s' qs s'') : w.Replays r s (ps ++ qs) s'' := by
  induction h with
  | nil => exact h'
  | cons hplace _ ih => exact .cons hplace (ih h')

section

variable {τ : Type} {d : OrderDesk τ} {φ : σ → τ}

/-- An order is linked alike at desks that mirror each other. -/
theorem linked_mirrors (h : w.desk.Mirrors φ d) (r : CascadeRequest) (below : List OrderRef)
    (s : σ) (answer : Except PlacingError OrderRef) :
    (w.withDesk d).linked r below (φ s) answer = φ (w.linked r below s answer) := by
  cases answer with
  | error e => rfl
  | ok order =>
    have hsource := (linkSource_relates h.relates r order s (φ s) rfl).1
    exact (linkBelow_relates h.relates r order below _ _ hsource).1

/-- A desk gives the answers that a desk gives which mirrors it. -/
theorem Replays.mirrored (h : w.desk.Mirrors φ d) {s s' : σ} {ps : List Placing}
    (hreplays : w.Replays r s ps s') : (w.withDesk d).Replays r (φ s) ps (φ s') := by
  induction hreplays with
  | nil => exact .nil
  | @cons s _ _ p _ hplace _ ih =>
    have hplaced := h.place (p.request r) s
    rw [hplace] at hplaced
    rw [← linked_mirrors h] at ih
    exact .cons hplaced ih

end

/-- A link that is refused stops nothing. -/
theorem linkSource_result (w : Workshop σ) (r : CascadeRequest) (order : OrderRef) (s : σ) :
    ∃ s', (w.linkSource r order).result s = (s', .ok ()) := by
  unfold linkSource
  cases r.source with
  | none => exact ⟨s, rfl⟩
  | some source => exact ⟨_, Work.result_attempt ..⟩

/-- Links that are refused stop nothing. -/
theorem linkBelow_result (w : Workshop σ) (r : CascadeRequest) (order : OrderRef) :
    ∀ (below : List OrderRef) (s : σ), ∃ s', (w.linkBelow r order below).result s = (s', .ok ())
  | [], s => ⟨s, rfl⟩
  | _ :: below, s => by
    obtain ⟨s', h⟩ := linkBelow_result w r order below _
    exact ⟨s', (Work.result_bind_of_ok (Work.result_attempt ..)).trans h⟩

theorem place_result (w : Workshop σ) (request : OrderRequest) (s : σ) :
    (w.place request).result s =
      ((w.desk.place request s).1, settle (w.desk.place request s).2) := by
  unfold place Work.result
  dsimp only
  rcases w.desk.place request s with ⟨s', (_ | _) | order⟩ <;> rfl

/-- A call is made and its order is linked. -/
theorem placeAndLink_result (w : Workshop σ) (r : CascadeRequest) (product : Product)
    (quantity : Float) (below : List OrderRef) {s s' : σ} {answer : Except PlacingError OrderRef}
    (h : w.desk.place (orderRequest r product quantity below) s = (s', answer)) :
    (w.placeAndLink r product quantity below).result s =
      (w.linked r below s' answer, settle answer) := by
  have hplace := w.place_result (orderRequest r product quantity below) s
  rw [h] at hplace
  unfold placeAndLink
  rcases answer with (_ | _) | order
  · exact Work.result_bind_of_ok hplace
  · exact Work.result_bind_of_error hplace
  · obtain ⟨s₁, hsource⟩ := w.linkSource_result r order s'
    obtain ⟨s₂, hbelow⟩ := w.linkBelow_result r order below s₁
    have hlinked : w.linked r below s' (.ok order) = s₂ := by
      unfold linked
      dsimp only
      rw [hsource, hbelow]
    rw [hlinked]
    exact (Work.result_bind_of_ok hplace).trans
      ((Work.result_bind_of_ok hsource).trans (Work.result_bind_of_ok hbelow))

/-- The call for a node, as the desk answers it. -/
theorem exists_answer (w : Workshop σ) (r : CascadeRequest) (way : Lineage) (below : List OrderRef)
    (s : σ) : ∃ answer s', w.Replays r s [⟨way, below, answer⟩] s' ∧
      (w.placeAndLink (r.under way.above) way.ordered way.node.self.quantity below).result s =
        (s', settle answer) := by
  rcases h : w.desk.place
    (orderRequest (r.under way.above) way.ordered way.node.self.quantity below) s with ⟨s₁, answer⟩
  exact ⟨answer, _, .cons h .nil, w.placeAndLink_result _ _ _ _ h⟩

mutual

/-- The orders of a subtree are placed by calls that the desk answers. -/
theorem order_cascades (w : Workshop σ) (r : CascadeRequest) (above : List Node) :
    ∀ (n : Node) (s : σ), ∃ ps s' out,
      (n.order w (r.under above) above.isEmpty above.isEmpty).result s = (s', out) ∧
        n.Cascades w.catalogue w.now above ps out ∧ w.Replays r s ps s'
  | .mk self replaced slots, s => by
    unfold Node.order
    cases hmade : (Node.mk self replaced slots).isMade w.catalogue w.now above.isEmpty with
    | error e =>
      exact ⟨[], s, _, Work.result_bind_of_error (Work.result_ofNoted _ _), .unknown hmade, .nil⟩
    | ok made =>
      cases made with
      | false =>
        exact ⟨[], s, _, (Work.result_bind_of_ok (Work.result_ofNoted _ _)).trans rfl,
          .bought hmade, .nil⟩
      | true =>
        obtain ⟨ps, s₁, out, hresult, hslots, hreplays⟩ :=
          slotsOrder_cascades w r (.mk self replaced slots) above slots s
        cases out with
        | error e =>
          exact ⟨ps, s₁, _, (Work.result_bind_of_ok (Work.result_ofNoted _ _)).trans
            (Work.result_bind_of_error hresult), .halted hmade hslots, hreplays⟩
        | ok below =>
          obtain ⟨answer, s₂, hanswer, hplaced⟩ :=
            w.exists_answer r ⟨.mk self replaced slots, above⟩ below s₁
          refine ⟨_, s₂, _, ?_, .placed answer hmade hslots, hreplays.append hanswer⟩
          exact (Work.result_bind_of_ok (a := true) (Work.result_ofNoted _ _)).trans
            ((Work.result_bind_of_ok hresult).trans hplaced)

/-- The orders below the slots of a node are placed by calls that the desk answers. -/
theorem slotsOrder_cascades (w : Workshop σ) (r : CascadeRequest) (n : Node) (above : List Node) :
    ∀ (slots : Slots) (s : σ), ∃ ps s' out,
      (slots.order w (r.under above).below).result s = (s', out) ∧
        slots.Cascades w.catalogue w.now (n :: above) ps out ∧ w.Replays r s ps s'
  | .nil, s => ⟨[], s, _, rfl, .nil, .nil⟩
  | .vacant _ rest, s => by
    obtain ⟨ps, s', out, hresult, hrest, hreplays⟩ := slotsOrder_cascades w r n above rest s
    exact ⟨ps, s', out, hresult, .vacant hrest, hreplays⟩
  | .filled _ child rest, s => by
    obtain ⟨ps, s₁, first, hfirst, hchild, hreplays⟩ := order_cascades w r (n :: above) child s
    rw [r.under_cons] at hfirst
    cases first with
    | error e => exact ⟨ps, s₁, _, Work.result_bind_of_error hfirst, .halted hchild, hreplays⟩
    | ok order =>
      obtain ⟨qs, s₂, second, hsecond, hrest, hreplays'⟩ := slotsOrder_cascades w r n above rest s₁
      refine ⟨ps ++ qs, s₂, second.map (order.toList ++ ·), ?_, .filled hchild hrest,
        hreplays.append hreplays'⟩
      refine (Work.result_bind_of_ok hfirst).trans ?_
      cases second with
      | error e => exact Work.result_bind_of_error hsecond
      | ok orders => exact (Work.result_bind_of_ok hsecond).trans (Work.result_pure _ _)

end

/-- A quantity pass that fails places no order. -/
theorem run_of_error (s : σ) {calculator : Option Calculator} {t : Tree} {e : EngineError}
    (h : (t.flatten 0 false calculator).2.outcome = .error e) :
    (w.run calculator r t s).1 = s ∧ (w.run calculator r t s).2.2.outcome = .error e := by
  unfold run
  dsimp only
  rw [h]
  exact ⟨rfl, rfl⟩

/-- After a quantity pass the orders are placed by calls that the desk answers. -/
theorem run_cascades (w : Workshop σ) (r : CascadeRequest) (s : σ) {calculator : Option Calculator}
    {t : Tree} {numbers : List Nat} (h : (t.flatten 0 false calculator).2.outcome = .ok numbers) :
    ∃ ps, (t.flatten 0 false calculator).1.root.Cascades w.catalogue w.now [] ps
        (w.run calculator r t s).2.2.outcome ∧
      w.Replays r s ps (w.run calculator r t s).1 := by
  obtain ⟨ps, s', out, hresult, hcascades, hreplays⟩ :=
    w.order_cascades r [] (t.flatten 0 false calculator).1.root s
  have hstate := congrArg Prod.fst hresult
  have hout := congrArg Prod.snd hresult
  change ((t.flatten 0 false calculator).1.root.order w r true true s).1 = s' at hstate
  change ((t.flatten 0 false calculator).1.root.order w r true true s).2.outcome = out at hout
  subst hstate hout
  refine ⟨ps, ?_⟩
  unfold run
  dsimp only
  rw [h]
  exact ⟨hcascades, hreplays⟩

end Workshop

end Bom
