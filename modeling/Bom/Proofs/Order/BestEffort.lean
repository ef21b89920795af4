import Bom.Proofs.Order.Calls
import Bom.Proofs.Order.Log
import Bom.Proofs.Tables.Orders

/-!
# Links are made at best effort

A link that is refused stops nothing: the cascade goes on with the next one. So a desk that refuses
some of its links leaves the orders and the outcome of a run as they are, as long as the links of
earlier orders have no part in the answers to later ones (`OrderDesk.OrdersIgnoreLinks`), and of the
links it loses those that it has refused, and no others (`run_bestEffort`).

The two runs are compared by their logs (`Follows`): that of the desk itself, and that of the desk
behind the one that refuses. Each call for an order is in both, with the same answer, and each call
for a link is in the second unless it has been refused before (`Follows.place`, `Follows.link`). The
desks in memory and in tables are both of the kind that the comparison asks for.
-/

namespace Bom

open DeskCall

variable {σ : Type}

/-! ## Desks that take orders as they come -/

namespace OrderDesk

/-- From a state on, the desk answers the calls of a log and gets to another state. -/
inductive Logs (d : OrderDesk σ) (s : σ) : List DeskCall → σ → Prop
  | start : Logs d s [] s
  | placed {log s'} (request : OrderRequest) : Logs d s log s' →
      Logs d s (log ++ [.placed request (d.place request s').2]) (d.place request s').1
  | linked {log s'} (link : DeskLink) : Logs d s log s' →
      Logs d s (log ++ [.linked link (d.link link s').2]) (d.link link s').1

/-- From a state on, what the desk answers to a call for an order does not depend on earlier calls
for links. -/
def OrdersIgnoreLinks (d : OrderDesk σ) (s : σ) : Prop :=
  ∀ log log' s₁ s₂, d.Logs s log s₁ → d.Logs s log' s₂ →
    (placings log).map Prod.fst = (placings log').map Prod.fst →
      ∀ request, (d.place request s₁).2 = (d.place request s₂).2

/-- From a state on, what the desk answers to a call for a link does not depend on earlier calls for
links. -/
def LinksIgnoreLinks (d : OrderDesk σ) (s : σ) : Prop :=
  ∀ log log' s₁ s₂, d.Logs s log s₁ → d.Logs s log' s₂ →
    (placings log).map Prod.fst = (placings log').map Prod.fst →
      ∀ link, (d.link link s₁).2 = (d.link link s₂).2

section

variable {d : OrderDesk σ} {view : σ → σ}

/-- A view of the state that links leave alone, and by which orders are placed, is known by the
orders. -/
theorem Logs.view_eq
    (hplace : ∀ request s, d.place request (view s) =
      (view (d.place request s).1, (d.place request s).2))
    (hlink : ∀ link s, view (d.link link s).1 = view s) {s s' : σ} {log : List DeskCall}
    (h : d.Logs s log s') :
    view s' = ((placings log).map Prod.fst).foldl (fun v request => (d.place request v).1)
      (view s) := by
  induction h with
  | start => rfl
  | placed request _ ih =>
    rw [placings_placed, List.map_append, List.foldl_append, ← ih]
    exact (congrArg Prod.fst (hplace request _)).symm
  | linked link _ ih => rw [hlink, ih, placings_linked]

/-- A desk that places orders by such a view of its state answers to orders whatever has been
linked. -/
theorem ordersIgnoreLinks_of_view
    (hplace : ∀ request s, d.place request (view s) =
      (view (d.place request s).1, (d.place request s).2))
    (hlink : ∀ link s, view (d.link link s).1 = view s) (s : σ) : d.OrdersIgnoreLinks s := by
  intro log log' s₁ s₂ h₁ h₂ hsame request
  have hanswer (s : σ) : (d.place request s).2 = (d.place request (view s)).2 :=
    (congrArg Prod.snd (hplace request s)).symm
  rw [hanswer, hanswer s₂, h₁.view_eq hplace hlink, h₂.view_eq hplace hlink, hsame]

end

end OrderDesk

/-! ## The desks in memory and in tables -/

namespace OrderBook

/-- The orders of a book. -/
def withoutLinks (b : OrderBook) : OrderBook :=
  { b with precedences := [], fulfilments := [] }

/-- The desk in memory answers to orders by the orders in the book. -/
theorem desk_ordersIgnoreLinks (d : DeskSettings) (b : OrderBook) :
    (desk d).OrdersIgnoreLinks b := by
  have hplace (request : OrderRequest) (b : OrderBook) :
      (desk d).place request b.withoutLinks =
        (((desk d).place request b).1.withoutLinks, ((desk d).place request b).2) := by
    dsimp only [desk]
    unfold place withoutLinks
    dsimp only
    split
    · rfl
    · split <;> rfl
  have hlink (link : DeskLink) (b : OrderBook) :
      ((desk d).link link b).1.withoutLinks = b.withoutLinks := by
    cases link <;> rfl
  exact OrderDesk.ordersIgnoreLinks_of_view hplace hlink b

end OrderBook

namespace Tables

/-- The tables without links of orders. -/
def withoutLinks (t : Tables) : Tables := { t with fulfilments := .empty, precedences := .empty }

end Tables

namespace Database

/-- The database without links of orders. -/
def withoutLinks (db : Database) : Database := ⟨db.tables.map Tables.withoutLinks⟩

/-- An order does not depend on links, and leaves them as they are. -/
theorem place_withoutLinks (supply : IdSupply) (defaultLeadTime : Float) (now : DateTime)
    (request : OrderRequest) (db : Database) :
    place supply defaultLeadTime now request db.withoutLinks =
      ((place supply defaultLeadTime now request db).1.withoutLinks,
        (place supply defaultLeadTime now request db).2) := by
  obtain ⟨_ | t⟩ := db
  · unfold place
    split <;> rfl
  · have hlead :
        (withoutLinks ⟨some t⟩).leadTimeOr defaultLeadTime request.product request.facility =
          leadTimeOr ⟨some t⟩ defaultLeadTime request.product request.facility := rfl
    unfold place
    rw [hlead]
    split
    · rfl
    · cases leadTimeOr ⟨some t⟩ defaultLeadTime request.product request.facility with
      | error e => rfl
      | ok days =>
        dsimp only
        cases request.start.after? days with
        | none => rfl
        | some completion =>
          have hids : t.withoutLinks.orderIds = t.orderIds := rfl
          have hwithout : withoutLinks ⟨some t⟩ = ⟨some t.withoutLinks⟩ := rfl
          dsimp only
          rw [hwithout, write_addOrder, write_addOrder, hids]
          split <;> rfl

/-- A link leaves all but the links as it is. -/
theorem link_withoutLinks (supply : IdSupply) (defaultLeadTime : Float) (now : DateTime)
    (link : DeskLink) (db : Database) :
    ((desk supply defaultLeadTime now).link link db).1.withoutLinks = db.withoutLinks := by
  obtain ⟨_ | t⟩ := db
  · cases link <;> rfl
  · cases link with
    | fulfilment l =>
      change ((desk supply defaultLeadTime now).fulfil l.order l.source ⟨some t⟩).1.withoutLinks = _
      rcases fulfil_cases supply defaultLeadTime now t l.order l.source with
        ⟨-, h⟩ | ⟨-, -, h⟩ | ⟨-, -, h⟩ <;>
          exact congrArg (fun done => withoutLinks done.1) h
    | precedence l =>
      change ((desk supply defaultLeadTime now).precede l.first l.second l.asOf
        ⟨some t⟩).1.withoutLinks = _
      rcases precede_cases supply defaultLeadTime now t l.first l.second l.asOf with
        ⟨-, h⟩ | ⟨-, h⟩ <;> exact congrArg (fun done => withoutLinks done.1) h

/-- The desk in tables answers to orders by the tables without their links. -/
theorem desk_ordersIgnoreLinks (supply : IdSupply) (defaultLeadTime : Float) (now : DateTime)
    (db : Database) : (desk supply defaultLeadTime now).OrdersIgnoreLinks db :=
  OrderDesk.ordersIgnoreLinks_of_view (place_withoutLinks supply defaultLeadTime now)
    (link_withoutLinks supply defaultLeadTime now) db

end Database

/-! ## Desks that refuse links -/

namespace LinkPolicy

variable (policy : LinkPolicy)

/-- Why a link is refused that was asked for after so many others. -/
def refusal (count : Nat) : DeskLink → Option StoreError
  | .fulfilment _ => policy.fulfil count
  | .precedence _ => policy.precede count

/-- The links that are not refused. -/
def passed {α : Type} (links : List (DeskLink × α)) : List (DeskLink × α) :=
  (links.zipIdx.filter fun entry => (policy.refusal entry.2 entry.1.1).isNone).map Prod.fst

theorem passed_concat {α : Type} (links : List (DeskLink × α)) (link : DeskLink × α) :
    policy.passed (links ++ [link]) = policy.passed links ++
      if (policy.refusal links.length link.1).isNone then [link] else [] := by
  unfold passed
  rw [List.zipIdx_append, List.filter_append, List.map_append, List.zipIdx_singleton,
    List.filter_singleton, Nat.zero_add]
  dsimp only
  cases (policy.refusal links.length link.1).isNone <;> rfl

end LinkPolicy

namespace OrderDesk

variable (policy : LinkPolicy) (d : OrderDesk σ)

/-- A link is refused, or left to the desk behind, and counted in any case. -/
theorem link_refusing (link : DeskLink) (s : σ × Nat) :
    (d.refusing policy).link link s =
      match policy.refusal s.2 link with
      | some e => ((s.1, s.2 + 1), .error e)
      | none => (((d.link link s.1).1, s.2 + 1), (d.link link s.1).2) := by
  cases link <;> rfl

/-- A desk that refuses links does so whether or not the desk behind it keeps a log. -/
theorem refusing_logging_mirrors :
    (d.logging.refusing policy).Mirrors (fun s => (s.1.1, s.2)) (d.refusing policy) where
  place _ _ := rfl
  fulfil _ _ s := by
    dsimp only [refusing]
    cases policy.fulfil s.2 <;> rfl
  precede _ _ _ s := by
    dsimp only [refusing]
    cases policy.precede s.2 <;> rfl

end OrderDesk

/-! ## Two runs -/

/-- What is left of a log when some links have been refused: the same orders with the same answers,
and the links that have not been refused. If links do not depend on one another, they have the same
answers as well. -/
structure Follows (d : OrderDesk σ) (policy : LinkPolicy) (start : σ)
    (refused : (σ × List DeskCall) × Nat) (free : σ × List DeskCall) : Prop where
  logs : d.Logs start refused.1.2 refused.1.1
  logs_free : d.Logs start free.2 free.1
  placings : placings refused.1.2 = placings free.2
  count : refused.2 = (links free.2).length
  passed : (links refused.1.2).map Prod.fst = (policy.passed (links free.2)).map Prod.fst
  answers : d.LinksIgnoreLinks start → links refused.1.2 = policy.passed (links free.2)

namespace Follows

variable {d : OrderDesk σ} {policy : LinkPolicy} {start : σ} {refused : (σ × List DeskCall) × Nat}
  {free : σ × List DeskCall}

theorem nil : Follows d policy start ((start, []), 0) (start, []) :=
  ⟨.start, .start, rfl, rfl, rfl, fun _ => rfl⟩

/-- An order has the same answer in both runs. -/
theorem answer_eq (h : Follows d policy start refused free) (hd : d.OrdersIgnoreLinks start)
    (request : OrderRequest) :
    (d.place request refused.1.1).2 = (d.place request free.1).2 :=
  hd _ _ _ _ h.logs h.logs_free (congrArg _ h.placings) request

/-- An order is placed in both runs. -/
theorem place (h : Follows d policy start refused free) (hd : d.OrdersIgnoreLinks start)
    (request : OrderRequest) :
    Follows d policy start ((d.logging.refusing policy).place request refused).1
      (d.logging.place request free).1 where
  logs := .placed request h.logs
  logs_free := .placed request h.logs_free
  placings := by
    have hanswer := h.answer_eq hd request
    change DeskCall.placings (_ ++ [_]) = DeskCall.placings (_ ++ [_])
    rw [placings_placed, placings_placed, h.placings, hanswer]
  count := by
    change _ = (links (_ ++ [_])).length
    rw [links_placed]
    exact h.count
  passed := by
    change (links (_ ++ [_])).map _ = (policy.passed (links (_ ++ [_]))).map _
    rw [links_placed, links_placed]
    exact h.passed
  answers hlinks := by
    change links (_ ++ [_]) = policy.passed (links (_ ++ [_]))
    rw [links_placed, links_placed]
    exact h.answers hlinks

/-- A link is made in the second run, and in the first one unless it is refused. -/
theorem link (h : Follows d policy start refused free) (l : DeskLink) :
    Follows d policy start ((d.logging.refusing policy).link l refused).1
      (d.logging.link l free).1 := by
  have hfree : (d.logging.link l free).1 =
      ((d.link l free.1).1, free.2 ++ [.linked l (d.link l free.1).2]) := by cases l <;> rfl
  have hbehind : (d.logging.link l refused.1).1 =
      ((d.link l refused.1.1).1, refused.1.2 ++ [.linked l (d.link l refused.1.1).2]) := by
    cases l <;> rfl
  have hlogs : d.Logs start (d.logging.link l free).1.2 (d.logging.link l free).1.1 := by
    rw [hfree]
    exact .linked l h.logs_free
  have hcount : refused.2 + 1 = (links (d.logging.link l free).1.2).length := by
    rw [hfree, links_linked, List.length_append, h.count]
    rfl
  have hpassed := policy.passed_concat (links free.2) (l, (d.link l free.1).2)
  rw [← h.count] at hpassed
  rw [OrderDesk.link_refusing]
  cases hrefusal : policy.refusal refused.2 l with
  | some e =>
    rw [hrefusal] at hpassed
    have hsame : policy.passed (links (d.logging.link l free).1.2) =
        policy.passed (links free.2) := by
      rw [hfree, links_linked, hpassed]
      exact List.append_nil _
    exact {
      logs := h.logs
      logs_free := hlogs
      placings := by
        rw [hfree, placings_linked]
        exact h.placings
      count := hcount
      passed := by
        rw [hsame]
        exact h.passed
      answers := fun hlinks => by
        rw [hsame]
        exact h.answers hlinks }
  | none =>
    rw [hrefusal] at hpassed
    have hmore : policy.passed (links (d.logging.link l free).1.2) =
        policy.passed (links free.2) ++ [(l, (d.link l free.1).2)] := by
      rw [hfree, links_linked, hpassed]
      rfl
    dsimp only
    exact {
      logs := by
        rw [hbehind]
        exact .linked l h.logs
      logs_free := hlogs
      placings := by
        rw [hfree, hbehind, placings_linked, placings_linked]
        exact h.placings
      count := hcount
      passed := by
        rw [hmore, hbehind, links_linked, List.map_append, List.map_append, h.passed]
        rfl
      answers := fun hlinks => by
        have hanswer := hlinks _ _ _ _ h.logs h.logs_free (congrArg _ h.placings) l
        rw [hmore, hbehind, links_linked, h.answers hlinks, hanswer] }

end Follows

/-- The notice is about a link that was refused. -/
def Notice.isOfLink : Notice → Bool
  | fulfillmentRefused => true
  | precedenceRefused => true
  | _ => false

/-- A desk that refuses links does what the desk itself does, but for the links. -/
theorem OrderDesk.refusing_relates {d : OrderDesk σ} {start : σ} (hd : d.OrdersIgnoreLinks start)
    (policy : LinkPolicy) :
    (d.logging.refusing policy).Relates (Follows d policy start) (fun n => !n.isOfLink)
      d.logging where
  place request _ _ h := h.place hd request
  place_answer request _ _ h := h.answer_eq hd request
  fulfil order source _ _ h := h.link (.fulfilment ⟨order, source⟩)
  fulfil_answer hmatters := nomatch hmatters
  precede first second asOf _ _ h := h.link (.precedence ⟨first, second, asOf⟩)
  precede_answer hmatters := nomatch hmatters

namespace Workshop

/-- What gets through to the desk in a run when some links are refused, with the answers. -/
def logBehind (w : Workshop σ) (policy : LinkPolicy) (calculator : Option Calculator)
    (r : CascadeRequest) (t : Tree) (s : σ) : List DeskCall :=
  ((w.withDesk (w.desk.logging.refusing policy)).run calculator r t ((s, []), 0)).1.1.2

theorem run_refusing_logging (w : Workshop σ) (policy : LinkPolicy)
    (calculator : Option Calculator) (r : CascadeRequest) (t : Tree) (s : σ) :
    (w.withDesk (w.desk.refusing policy)).run calculator r t (s, 0) =
      let run := (w.withDesk (w.desk.logging.refusing policy)).run calculator r t ((s, []), 0)
      ((run.1.1.1, run.1.2), run.2) :=
  (w.withDesk (w.desk.logging.refusing policy)).run_mirrors
    (w.desk.refusing_logging_mirrors policy) calculator r t ((s, []), 0)

end Workshop

section

variable (w : Workshop σ) (policy : LinkPolicy) (calculator : Option Calculator)
  (r : CascadeRequest) (t : Tree) (s : σ)

/-- The run at a desk that refuses links follows the run at the desk itself. -/
theorem Workshop.run_follows (h : w.desk.OrdersIgnoreLinks s) :
    let free := (w.withDesk w.desk.logging).run calculator r t (s, [])
    let refused := (w.withDesk (w.desk.logging.refusing policy)).run calculator r t ((s, []), 0)
    Follows w.desk policy s refused.1 free.1 ∧ refused.2.1 = free.2.1 ∧
      refused.2.2.outcome = free.2.2.outcome ∧
      refused.2.2.notices.filter (fun n => !n.isOfLink) =
        free.2.2.notices.filter (fun n => !n.isOfLink) :=
  (w.withDesk (w.desk.logging.refusing policy)).run_relates
    (OrderDesk.refusing_relates h policy) calculator r t .nil

/-- When some links are refused before they get to a desk at which links have no part in orders, a
run has the same outcome and leaves the same tree, and gives the same notices but for those of
refused links. It asks for the same links, and the desk gets to see the same orders, which it
answers alike, and of the links those that were not refused, in the same order. If at this desk
links have no part in links either, it answers these alike as well. -/
theorem run_bestEffort (h : w.desk.OrdersIgnoreLinks s) :
    let free := w.run calculator r t s
    let refused := (w.withDesk (w.desk.refusing policy)).run calculator r t (s, 0)
    let log := w.log calculator r t s
    let behind := w.logBehind policy calculator r t s
    refused.2.2.outcome = free.2.2.outcome ∧ refused.2.1 = free.2.1 ∧
    refused.2.2.notices.filter (fun n => !n.isOfLink) =
      free.2.2.notices.filter (fun n => !n.isOfLink) ∧
    refused.1.2 = (links log).length ∧
    placings behind = placings log ∧
    (links behind).map Prod.fst = (policy.passed (links log)).map Prod.fst ∧
    (w.desk.LinksIgnoreLinks s → links behind = policy.passed (links log)) := by
  intro free refused log behind
  obtain ⟨hfollows, htree, houtcome, hnotices⟩ := w.run_follows policy calculator r t s h
  have hfree : free.2 = ((w.withDesk w.desk.logging).run calculator r t (s, [])).2 :=
    congrArg Prod.snd (w.run_logging calculator r t s [])
  have hrefused := w.run_refusing_logging policy calculator r t s
  change refused = _ at hrefused
  rw [hrefused, hfree]
  exact ⟨houtcome, htree, hnotices, hfollows.count, hfollows.placings, hfollows.passed,
    hfollows.answers⟩

end

/-- The bicycle is ordered although its link to the sales order line is refused, and waits for the
frame all the same. -/
theorem bicycle_bestEffort :
    let w := Workshop.bicycles .standard
    let r : CascadeRequest := { CascadeRequest.sample with source := some ⟨"sale", "1"⟩ }
    let policy : LinkPolicy :=
      ⟨fun count => if count = 0 then some (.internal "offline") else none, fun _ => none⟩
    w.desk.OrdersIgnoreLinks .empty ∧
    ∃ t, (buildTree MemoryCatalogue.bicycles.catalogue 3 (.sample "bicycle")).outcome = .ok t ∧
      let behind := w.logBehind policy none r t .empty
      ((w.withDesk (w.desk.refusing policy)).run none r t (.empty, 0)).2.2.outcome =
        .ok (some ⟨"PO-0002", .epoch⟩) ∧
      placings behind = placings (w.log none r t .empty) ∧
      (links (w.log none r t .empty)).map Prod.fst =
        [.fulfilment ⟨"PO-0002", ⟨"sale", "1"⟩⟩, .precedence ⟨"PO-0001", "PO-0002", .epoch⟩] ∧
      (links behind).map Prod.fst = [.precedence ⟨"PO-0001", "PO-0002", .epoch⟩] := by
  intro w r policy
  have hd := OrderBook.desk_ordersIgnoreLinks .standard .empty
  refine ⟨hd, _, rfl, ?_⟩
  intro behind
  have h := fun t => run_bestEffort w policy none r t .empty hd
  exact ⟨(h _).1.trans (by decide +kernel), (h _).2.2.2.2.1, by decide +kernel, by decide +kernel⟩

/-! ## What the book has of it -/

/-- An order at a desk in memory is added to the orders of the book, or refused. -/
theorem OrderBook.place_eq (d : DeskSettings) (request : OrderRequest) (b : OrderBook) :
    (place d request b).1 = { b with
      orders := b.orders ++
        ((place d request b).2.toOption.map fun ref => ⟨ref, request⟩).toList } := by
  unfold place
  split
  · exact congrArg (fun orders => { b with orders := orders }) (List.append_nil b.orders).symm
  · split
    · exact congrArg (fun orders => { b with orders := orders }) (List.append_nil b.orders).symm
    · rfl

/-- The log of calls at a desk in memory tells what has been added to the book. -/
theorem OrderDesk.Logs.book {d : DeskSettings} {b b' : OrderBook} {log : List DeskCall}
    (h : (OrderBook.desk d).Logs b log b') :
    b'.orders = b.orders ++ (placings log).flatMap (fun call =>
      (call.2.toOption.map fun ref => ⟨ref, call.1⟩).toList) ∧
    b'.fulfilments = b.fulfilments ++
      ((links log).map Prod.fst).filterMap DeskLink.fulfilment? ∧
    b'.precedences = b.precedences ++
      ((links log).map Prod.fst).filterMap DeskLink.precedence? := by
  induction h with
  | start => exact ⟨(List.append_nil _).symm, (List.append_nil _).symm, (List.append_nil _).symm⟩
  | @placed log b₁ request _ ih =>
    obtain ⟨horders, hfulfilments, hprecedences⟩ := ih
    rw [placings_placed, links_placed, List.flatMap_append, List.flatMap_singleton,
      ← List.append_assoc, ← horders, ← hfulfilments, ← hprecedences]
    have hplace := OrderBook.place_eq d request b₁
    change ((OrderBook.desk d).place request b₁).1 = _ at hplace
    rw [hplace]
    exact ⟨rfl, rfl, rfl⟩
  | linked link _ ih =>
    obtain ⟨horders, hfulfilments, hprecedences⟩ := ih
    rw [placings_linked, links_linked, List.map_append, List.filterMap_append,
      List.filterMap_append, ← List.append_assoc, ← List.append_assoc, ← horders, ← hfulfilments,
      ← hprecedences]
    cases link with
    | fulfilment f => exact ⟨rfl, rfl, (List.append_nil _).symm⟩
    | precedence p => exact ⟨rfl, (List.append_nil _).symm, rfl⟩

/-- In memory, a run with refused links leaves the orders of the run without, and the links that it
has, but for those that were refused. -/
theorem OrderBook.run_refusing (c : Catalogue) (d : DeskSettings) (now : DateTime)
    (policy : LinkPolicy) (calculator : Option Calculator) (r : CascadeRequest) (t : Tree)
    (b : OrderBook) :
    let w : Workshop OrderBook := ⟨c, desk d, now⟩
    let free := (w.run calculator r t b).1
    let refused := ((w.withDesk ((desk d).refusing policy)).run calculator r t (b, 0)).1.1
    let asked := links (w.log calculator r t b)
    let passed := policy.passed asked
    refused.orders = free.orders ∧
    free.fulfilments = b.fulfilments ++ (asked.map Prod.fst).filterMap DeskLink.fulfilment? ∧
    refused.fulfilments = b.fulfilments ++ (passed.map Prod.fst).filterMap DeskLink.fulfilment? ∧
    free.precedences = b.precedences ++ (asked.map Prod.fst).filterMap DeskLink.precedence? ∧
    refused.precedences =
      b.precedences ++ (passed.map Prod.fst).filterMap DeskLink.precedence? := by
  intro w free refused asked passed
  obtain ⟨hfollows, -⟩ :=
    w.run_follows policy calculator r t b (OrderBook.desk_ordersIgnoreLinks d b)
  have hfree : free = ((w.withDesk w.desk.logging).run calculator r t (b, [])).1.1 :=
    congrArg Prod.fst (w.run_logging calculator r t b [])
  have hrefused : refused =
      ((w.withDesk (w.desk.logging.refusing policy)).run calculator r t ((b, []), 0)).1.1.1 :=
    congrArg (·.1.1) (w.run_refusing_logging policy calculator r t b)
  obtain ⟨horders, hfulfilments, hprecedences⟩ := hfollows.logs.book
  obtain ⟨horders', hfulfilments', hprecedences'⟩ := hfollows.logs_free.book
  rw [hfollows.passed] at hfulfilments hprecedences
  rw [hfollows.placings] at horders
  rw [hfree, hrefused]
  exact ⟨horders.trans horders'.symm, hfulfilments', hfulfilments, hprecedences', hprecedences⟩

end Bom
