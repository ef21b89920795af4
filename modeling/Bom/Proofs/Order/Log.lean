import Bom.Proofs.Order.Book

/-!
# The log of a run

A desk may be made to keep a log of all that it is asked, orders and links alike, with its answers
(`OrderDesk.logging`). A run at this desk does the same as one at the desk itself
(`Workshop.run_logging`), so the log that it ends with (`Workshop.log`) tells what has happened in
the run. Its orders are those of the calls of the cascade, and after the order of each call come the
links of that order (`Workshop.exists_log`).
-/

namespace Bom

variable {σ : Type}

/-! ## Logs -/

/-- What an order is linked to: a sales order line, or an order that waits for it. -/
inductive DeskLink where
  | fulfilment (link : Fulfilment)
  | precedence (link : Precedence)
  deriving DecidableEq

/-- The sales order line that the link is to. -/
def DeskLink.fulfilment? : DeskLink → Option Fulfilment
  | fulfilment link => some link
  | precedence _ => none

/-- The precedence that the link is. -/
def DeskLink.precedence? : DeskLink → Option Precedence
  | fulfilment _ => none
  | precedence link => some link

/-- A call at a desk with the answer to it. -/
inductive DeskCall where
  | placed (request : OrderRequest) (answer : Except PlacingError OrderRef)
  | linked (link : DeskLink) (answer : Except StoreError Unit)

namespace DeskCall

/-- The order that is asked for, with the answer. -/
def placing? : DeskCall → Option (OrderRequest × Except PlacingError OrderRef)
  | placed request answer => some (request, answer)
  | linked _ _ => none

/-- The link that is asked for, with the answer. -/
def link? : DeskCall → Option (DeskLink × Except StoreError Unit)
  | placed _ _ => none
  | linked link answer => some (link, answer)

/-- The orders that a log tells of, the earliest first. -/
def placings (log : List DeskCall) : List (OrderRequest × Except PlacingError OrderRef) :=
  log.filterMap placing?

/-- The links that a log tells of, the earliest first. -/
def links (log : List DeskCall) : List (DeskLink × Except StoreError Unit) := log.filterMap link?

section

variable (log : List DeskCall) (request : OrderRequest) (answer : Except PlacingError OrderRef)
  (link : DeskLink) (response : Except StoreError Unit)

@[simp] theorem placings_placed :
    placings (log ++ [placed request answer]) = placings log ++ [(request, answer)] :=
  List.filterMap_append ..

@[simp] theorem placings_linked : placings (log ++ [linked link response]) = placings log :=
  (List.filterMap_append ..).trans (List.append_nil _)

@[simp] theorem links_placed : links (log ++ [placed request answer]) = links log :=
  (List.filterMap_append ..).trans (List.append_nil _)

@[simp] theorem links_linked :
    links (log ++ [linked link response]) = links log ++ [(link, response)] :=
  List.filterMap_append ..

end

end DeskCall

/-! ## A desk with a log -/

namespace OrderDesk

/-- Links an order. -/
def link (desk : OrderDesk σ) : DeskLink → σ → σ × Except StoreError Unit
  | .fulfilment l => desk.fulfil l.order l.source
  | .precedence l => desk.precede l.first l.second l.asOf

/-- A desk that orders are placed and linked at in the given ways. -/
def ofLink (place : OrderRequest → σ → σ × Except PlacingError OrderRef)
    (link : DeskLink → σ → σ × Except StoreError Unit) : OrderDesk σ where
  place := place
  fulfil order source := link (.fulfilment ⟨order, source⟩)
  precede first second asOf := link (.precedence ⟨first, second, asOf⟩)

/-- The desk that keeps a log of its calls, the earliest first, and leaves them to the desk behind
it. -/
def logging (desk : OrderDesk σ) : OrderDesk (σ × List DeskCall) :=
  ofLink
    (fun request s =>
      let (behind, answer) := desk.place request s.1
      ((behind, s.2 ++ [.placed request answer]), answer))
    (fun link s =>
      let (behind, answer) := desk.link link s.1
      ((behind, s.2 ++ [.linked link answer]), answer))

theorem logging_mirrors (desk : OrderDesk σ) : desk.logging.Mirrors Prod.fst desk where
  place _ _ := rfl
  fulfil _ _ _ := rfl
  precede _ _ _ _ := rfl

end OrderDesk

/-! ## The links of a call -/

namespace Placing

/-- The sales order line that comes with the order of the call. -/
def fulfilment? (r : CascadeRequest) (p : Placing) : Option Fulfilment :=
  p.order.bind fun order => (r.under p.way.above).source.map fun source => ⟨order.id, source⟩

/-- The links that come of the call: the order goes to its sales order line, and then waits for the
orders below it. -/
def deskLinks (r : CascadeRequest) (p : Placing) : List DeskLink :=
  (p.fulfilment? r).toList.map .fulfilment ++ (p.links r).map .precedence

theorem filterMap_deskLinks (r : CascadeRequest) (p : Placing) :
    (p.deskLinks r).filterMap DeskLink.fulfilment? = (p.fulfilment? r).toList := by
  unfold deskLinks
  rw [List.filterMap_append, List.filterMap_map, List.filterMap_map]
  have hnone : (p.links r).filterMap (DeskLink.fulfilment? ∘ .precedence) = [] :=
    List.filterMap_eq_nil_iff.2 fun _ _ => rfl
  rw [hnone, List.append_nil]
  exact List.filterMap_some ..

end Placing

namespace Workshop

variable {w : Workshop σ} {r : CascadeRequest}

open DeskCall

/-- What a run asks its desk, with the answers, the first call first. -/
def log (w : Workshop σ) (calculator : Option Calculator) (r : CascadeRequest) (t : Tree) (s : σ) :
    List DeskCall :=
  ((w.withDesk w.desk.logging).run calculator r t (s, [])).1.2

/-- A run does not depend on whether the desk keeps a log. -/
theorem run_logging (w : Workshop σ) (calculator : Option Calculator) (r : CascadeRequest)
    (t : Tree) (s : σ) (log : List DeskCall) :
    w.run calculator r t s =
      (((w.withDesk w.desk.logging).run calculator r t (s, log)).1.1,
        ((w.withDesk w.desk.logging).run calculator r t (s, log)).2) :=
  (w.withDesk w.desk.logging).run_mirrors w.desk.logging_mirrors calculator r t (s, log)

/-- The log of the links to a sales order line. -/
theorem linkSource_logging (w : Workshop σ) (r : CascadeRequest) (order : OrderRef)
    (s : σ × List DeskCall) :
    let after := (((w.withDesk w.desk.logging).linkSource r order).result s).1.2
    placings after = placings s.2 ∧
      (links after).map Prod.fst = (links s.2).map Prod.fst ++
        (r.source.map fun source => DeskLink.fulfilment ⟨order.id, source⟩).toList := by
  unfold linkSource
  cases r.source with
  | none => exact ⟨rfl, (List.append_nil _).symm⟩
  | some source =>
    dsimp only
    rw [Work.result_attempt]
    refine ⟨placings_linked .., ?_⟩
    exact (congrArg (List.map Prod.fst) (links_linked ..)).trans (List.map_append ..)

/-- The log of the links to the orders below. -/
theorem linkBelow_logging (w : Workshop σ) (r : CascadeRequest) (order : OrderRef)
    (below : List OrderRef) (s : σ × List DeskCall) :
    let after := (((w.withDesk w.desk.logging).linkBelow r order below).result s).1.2
    placings after = placings s.2 ∧
      (links after).map Prod.fst = (links s.2).map Prod.fst ++
        below.map fun child => DeskLink.precedence ⟨child.id, order.id, r.start⟩ := by
  induction below generalizing s with
  | nil => exact ⟨rfl, (List.append_nil _).symm⟩
  | cons child below ih =>
    obtain ⟨hplacings, hlinks⟩ := ih
      ((w.withDesk w.desk.logging).desk.precede child.id order.id r.start s).1
    unfold linkBelow
    dsimp only at hplacings hlinks ⊢
    rw [Work.result_bind_of_ok (Work.result_attempt ..)]
    refine ⟨hplacings.trans (placings_linked ..), hlinks.trans ?_⟩
    rw [List.map_cons, List.append_cons]
    congr 1
    exact (congrArg (List.map Prod.fst) (links_linked ..)).trans (List.map_append ..)

/-- The log of the links of a call. -/
theorem linked_logging (w : Workshop σ) (r : CascadeRequest) (p : Placing)
    (s : σ × List DeskCall) :
    let after := (w.withDesk w.desk.logging).linked (r.under p.way.above) p.below s p.answer
    placings after.2 = placings s.2 ∧
      (links after.2).map Prod.fst = (links s.2).map Prod.fst ++ p.deskLinks r := by
  obtain ⟨way, below, e | order⟩ := p
  · exact ⟨rfl, (List.append_nil _).symm⟩
  · obtain ⟨hplacings, hlinks⟩ := w.linkSource_logging (r.under way.above) order s
    obtain ⟨hplacings', hlinks'⟩ := w.linkBelow_logging (r.under way.above) order below
      (((w.withDesk w.desk.logging).linkSource (r.under way.above) order).result s).1
    refine ⟨hplacings'.trans hplacings, hlinks'.trans ?_⟩
    rw [hlinks, List.append_assoc, r.under_start]
    unfold Placing.deskLinks Placing.links Placing.fulfilment? Placing.order
    dsimp only [Except.toOption, Option.bind_some]
    rw [List.map_map]
    cases (r.under way.above).source <;> rfl

/-- The log has the orders of the calls, and the links that come of them. -/
theorem Replays.logged {s s' : σ × List DeskCall} {ps : List Placing}
    (h : (w.withDesk w.desk.logging).Replays r s ps s') :
    placings s'.2 = placings s.2 ++ ps.map (fun p => (p.request r, p.answer)) ∧
      (links s'.2).map Prod.fst = (links s.2).map Prod.fst ++ ps.flatMap (Placing.deskLinks r) := by
  induction h with
  | nil => exact ⟨(List.append_nil _).symm, (List.append_nil _).symm⟩
  | @cons s s₁ s₂ p ps hplace _ ih =>
    obtain ⟨hplacings, hlinks⟩ := w.linked_logging r p s₁
    obtain ⟨ihplacings, ihlinks⟩ := ih
    have hanswer : (w.desk.place (p.request r) s.1).2 = p.answer := congrArg Prod.snd hplace
    have hlog : s₁.2 = s.2 ++ [.placed (p.request r) p.answer] := by
      rw [← hanswer]
      exact (congrArg (·.1.2) hplace).symm
    rw [ihplacings, ihlinks, hplacings, hlinks, hlog, placings_placed, links_placed,
      List.append_assoc, List.append_assoc, List.flatMap_cons]
    exact ⟨rfl, rfl⟩

/-- After a quantity pass the desk answers the calls of a cascade, and a run logs them and the links
that come of them. -/
theorem exists_log (w : Workshop σ) (r : CascadeRequest) (s : σ) {calculator : Option Calculator}
    {t : Tree} {numbers : List Nat} (h : (t.flatten 0 false calculator).2.outcome = .ok numbers) :
    ∃ ps, (t.flatten 0 false calculator).1.root.Cascades w.catalogue w.now [] ps
        (w.run calculator r t s).2.2.outcome ∧
      w.Replays r s ps (w.run calculator r t s).1 ∧
      placings (w.log calculator r t s) = ps.map (fun p => (p.request r, p.answer)) ∧
      (links (w.log calculator r t s)).map Prod.fst = ps.flatMap (Placing.deskLinks r) := by
  obtain ⟨ps, hcascades, hreplays⟩ := (w.withDesk w.desk.logging).run_cascades r (s, []) h
  have hmirrors : (w.withDesk w.desk.logging).desk.Mirrors Prod.fst w.desk :=
    w.desk.logging_mirrors
  rw [w.run_logging calculator r t s []]
  exact ⟨ps, hcascades, hreplays.mirrored hmirrors, hreplays.logged⟩

end Workshop

end Bom
