import Mathlib.Data.List.Nodup
import Mathlib.Logic.Relation
import Bom.Order.Memory
import Bom.Proofs.Order.Cascade
import Bom.Proofs.Text

/-!
# What a run writes into an order book

An order book only grows. A run at a desk in memory appends an order for each call that is not
refused, and a precedence for each of the orders below it (`Workshop.Replays.orders`,
`Workshop.Replays.precedences`), and the desk answers by its settings alone
(`Placing.Answered`). Orders are numbered in turn, and no two numbers are written alike
(`OrderBook.orderId_injective`), so in the books that runs leave behind no id occurs twice
(`OrderBook.Left.numbered`). Each precedence in such a book leads from an order to a later one
(`OrderBook.Left.ordered`), and none of them can close a circle (`OrderBook.acyclic`).
-/

namespace Bom

namespace OrderBook

/-! ## Numbers of orders -/

/-- No two numbers are written alike, however many digits they have. -/
theorem orderId_injective : Function.Injective orderId := by
  intro i j h
  have hlist := String.ofList_injective h
  simp only [List.cons.injEq, true_and] at hlist
  have := congrArg Text.ofDigits hlist
  rw [Text.ofDigits_padded, Text.ofDigits_padded] at this
  exact Nat.succ.inj this

/-- The ids of the orders, the earliest first. -/
def ids (b : OrderBook) : List String := b.orders.map (·.ref.id)

/-- The orders are numbered in turn. -/
def Numbered (b : OrderBook) : Prop := b.ids = (List.range b.orders.length).map orderId

theorem Numbered.ids_nodup {b : OrderBook} (h : b.Numbered) : b.ids.Nodup := by
  rw [h]
  exact List.nodup_range.map orderId_injective

/-- One order of a numbered book comes before another just when it has the smaller number. -/
theorem Numbered.exists_lt {b : OrderBook} (h : b.Numbered) {first second : String}
    (hsub : [first, second].Sublist b.ids) :
    ∃ i j, i < j ∧ first = orderId i ∧ second = orderId j := by
  rw [h] at hsub
  obtain ⟨numbers, hnumbers, hids⟩ := List.sublist_map_iff.1 hsub
  match numbers, hids with
  | [i, j], hids =>
    cases hids
    have hlt := List.pairwise_lt_range.sublist hnumbers
    rw [List.pairwise_pair] at hlt
    exact ⟨i, j, hlt, rfl, rfl⟩

/-- Each precedence leads from an order of the book to a later one. -/
def Ordered (b : OrderBook) : Prop :=
  ∀ link ∈ b.precedences, [link.first, link.second].Sublist b.ids

/-- An order waits for another one. -/
def Waits (links : List Precedence) (first second : String) : Prop :=
  ∃ link ∈ links, link.first = first ∧ link.second = second

/-- No order waits for itself, directly or through others. -/
theorem acyclic {b : OrderBook} (hn : b.Numbered) (ho : b.Ordered) (id : String) :
    ¬ Relation.TransGen (Waits b.precedences) id id := by
  have hstep {first second : String} (h : Waits b.precedences first second) :
      ∃ i j, i < j ∧ first = orderId i ∧ second = orderId j := by
    obtain ⟨link, hlink, rfl, rfl⟩ := h
    exact hn.exists_lt (ho link hlink)
  -- the numbers ascend along a chain of precedences
  have hchain {first last : String} (h : Relation.TransGen (Waits b.precedences) first last) :
      ∃ i j, i < j ∧ first = orderId i ∧ last = orderId j := by
    induction h with
    | single h => exact hstep h
    | tail _ h ih =>
      obtain ⟨i, j, hij, hfirst, hmid⟩ := ih
      obtain ⟨j', k, hjk, hmid', hlast⟩ := hstep h
      have hsame := orderId_injective (hmid.symm.trans hmid')
      exact ⟨i, k, by omega, hfirst, hlast⟩
  intro h
  obtain ⟨i, j, hij, hi, hj⟩ := hchain h
  exact absurd (orderId_injective (hi.symm.trans hj)) (by omega)

end OrderBook

/-! ## The answers of a desk in memory -/

namespace Placing

/-- The answer is what a desk in memory with these settings gives: the desk refuses by product, and
an order is complete its lead time after its start. -/
def Answered (d : DeskSettings) (r : CascadeRequest) (p : Placing) : Prop :=
  match p.answer with
  | .ok order => (p.request r).product ∉ d.refused ∧
      (p.request r).start.after? (d.leadTime (p.request r).product) = some order.completion
  | .error (.refused _) => (p.request r).product ∈ d.refused
  | .error .outOfCalendar => (p.request r).product ∉ d.refused

/-- What is recorded of the call. -/
def recorded (r : CascadeRequest) (p : Placing) : Option RecordedOrder :=
  p.order.map fun order => ⟨order, p.request r⟩

/-- The precedences that come of the call: the new order waits for those below it. -/
def links (r : CascadeRequest) (p : Placing) : List Precedence :=
  match p.order with
  | some order => p.below.map fun child => ⟨child.id, order.id, r.start⟩
  | none => []

theorem mem_links {r : CascadeRequest} {p : Placing} {link : Precedence} :
    link ∈ p.links r ↔ ∃ order, p.order = some order ∧
      ∃ child ∈ p.below, ⟨child.id, order.id, r.start⟩ = link := by
  unfold links
  cases p.order with
  | none =>
    constructor
    · intro h
      cases h
    · rintro ⟨_, ho, -⟩
      cases ho
  | some order =>
    rw [List.mem_map]
    constructor
    · intro h
      exact ⟨order, rfl, h⟩
    · rintro ⟨_, ho, h⟩
      cases ho
      exact h

end Placing

/-- What one call at a desk in memory does. -/
theorem OrderBook.place_cases {d : DeskSettings} {r : CascadeRequest} {p : Placing}
    {b b' : OrderBook} (h : OrderBook.place d (p.request r) b = (b', p.answer)) :
    p.Answered d r ∧ b'.orders = b.orders ++ (p.recorded r).toList ∧
      b'.precedences = b.precedences ∧
      ∀ order, p.order = some order → order.id = OrderBook.orderId b.orders.length := by
  unfold Placing.Answered Placing.recorded Placing.order
  generalize p.request r = request at h
  generalize p.answer = answer at h
  unfold OrderBook.place at h
  split at h
  · next hrefused =>
    cases h
    refine ⟨hrefused, (List.append_nil _).symm, rfl, fun order horder => ?_⟩
    cases horder
  · next hopen =>
    split at h
    · cases h
      refine ⟨hopen, (List.append_nil _).symm, rfl, fun order horder => ?_⟩
      cases horder
    · next completion hcompletion =>
      cases h
      refine ⟨⟨hopen, hcompletion⟩, rfl, rfl, fun order horder => ?_⟩
      rw [← Option.some.inj horder]

namespace Workshop

variable {w : Workshop OrderBook} {d : DeskSettings} {r : CascadeRequest}

/-- The source line of an order is no precedence. -/
theorem linkSource_desk (hd : w.desk = OrderBook.desk d) (r : CascadeRequest) (order : OrderRef)
    (b : OrderBook) : ((w.linkSource r order).result b).1.orders = b.orders ∧
      ((w.linkSource r order).result b).1.precedences = b.precedences := by
  unfold linkSource
  cases r.source with
  | none => exact ⟨rfl, rfl⟩
  | some source =>
    dsimp only
    rw [Work.result_attempt, hd]
    exact ⟨rfl, rfl⟩

/-- Each order below becomes a precedence. -/
theorem linkBelow_desk (hd : w.desk = OrderBook.desk d) (r : CascadeRequest) (order : OrderRef)
    (below : List OrderRef) (b : OrderBook) :
    ((w.linkBelow r order below).result b).1.orders = b.orders ∧
      ((w.linkBelow r order below).result b).1.precedences =
        b.precedences ++ below.map fun child => ⟨child.id, order.id, r.start⟩ := by
  induction below generalizing b with
  | nil => exact ⟨rfl, (List.append_nil _).symm⟩
  | cons child below ih =>
    unfold linkBelow
    rw [Work.result_bind_of_ok (Work.result_attempt ..), (ih _).1, (ih _).2, hd, List.map_cons,
      List.append_cons]
    exact ⟨rfl, rfl⟩

/-- The links of a call at a desk in memory. -/
theorem linked_desk (hd : w.desk = OrderBook.desk d) (r : CascadeRequest) (p : Placing)
    (b : OrderBook) : (w.linked (r.under p.way.above) p.below b p.answer).orders = b.orders ∧
      (w.linked (r.under p.way.above) p.below b p.answer).precedences =
        b.precedences ++ p.links r := by
  obtain ⟨way, below, e | order⟩ := p
  · exact ⟨rfl, (List.append_nil _).symm⟩
  · unfold linked
    dsimp only
    rw [(linkBelow_desk hd ..).1, (linkBelow_desk hd ..).2, (linkSource_desk hd ..).1,
      (linkSource_desk hd ..).2, r.under_start]
    exact ⟨rfl, rfl⟩

section

variable {b b' : OrderBook} {ps : List Placing}

/-- The desk gives the answers that its settings tell. -/
theorem Replays.answered (hd : w.desk = OrderBook.desk d) (h : w.Replays r b ps b') :
    ∀ p ∈ ps, p.Answered d r := by
  induction h with
  | nil => exact fun _ hp => nomatch hp
  | cons hplace _ ih =>
    rw [hd] at hplace
    exact List.forall_mem_cons.2 ⟨(OrderBook.place_cases hplace).1, ih⟩

/-- The calls that are not refused are recorded in turn. -/
theorem Replays.orders (hd : w.desk = OrderBook.desk d) (h : w.Replays r b ps b') :
    b'.orders = b.orders ++ ps.filterMap (Placing.recorded r) := by
  induction h with
  | nil => exact (List.append_nil _).symm
  | @cons b b₁ b₂ p ps hplace _ ih =>
    rw [hd] at hplace
    rw [ih, (linked_desk hd ..).1, (OrderBook.place_cases hplace).2.1, List.append_assoc,
      List.filterMap_cons]
    cases p.recorded r <;> rfl

/-- The precedences of the calls are recorded in turn. -/
theorem Replays.precedences (hd : w.desk = OrderBook.desk d) (h : w.Replays r b ps b') :
    b'.precedences = b.precedences ++ ps.flatMap (Placing.links r) := by
  induction h with
  | nil => exact (List.append_nil _).symm
  | cons hplace _ ih =>
    rw [hd] at hplace
    rw [ih, (linked_desk hd ..).2, (OrderBook.place_cases hplace).2.2.1, List.append_assoc,
      List.flatMap_cons]

/-- A run numbers its orders on. -/
theorem Replays.numbered (hd : w.desk = OrderBook.desk d) (h : w.Replays r b ps b')
    (hb : b.Numbered) : b'.Numbered := by
  induction h with
  | nil => exact hb
  | @cons b b₁ b₂ p ps hplace _ ih =>
    rw [hd] at hplace
    obtain ⟨-, horders, -, hid⟩ := OrderBook.place_cases hplace
    refine ih ?_
    unfold OrderBook.Numbered OrderBook.ids at hb ⊢
    rw [(linked_desk hd ..).1, horders]
    cases horder : p.order with
    | none => simpa [Placing.recorded, horder] using hb
    | some order => simp [Placing.recorded, horder, hid order horder, hb, List.range_succ]

end

end Workshop

/-! ## Books that runs leave behind -/

/-- The orders below a call are answers to calls before it. -/
theorem Node.Cascades.below_before {c : Catalogue} {now : DateTime} {above : List Node} {n : Node}
    {ps xs ys : List Placing} {p : Placing} {out : Except EngineError (Option OrderRef)}
    (h : Node.Cascades c now above n ps out) (hsplit : ps = xs ++ p :: ys) {o : OrderRef}
    (ho : o ∈ p.below) :
    ∃ p' ∈ xs, p'.way.above = p.way.node :: p.way.above ∧ p'.order = some o := by
  obtain ⟨before, within, rfl, hbelow⟩ := h.split hsplit
  obtain ⟨p', hp', hway⟩ := hbelow.exists_call _ rfl o ho
  exact ⟨p', List.mem_append_right _ hp', hway⟩

/-- The ids of the orders that come of calls, in turn. -/
def orderIds (ps : List Placing) : List String := (ps.filterMap Placing.order).map (·.id)

/-- A precedence of a cascade leads from an order to a later one. -/
theorem Node.Cascades.links_ordered {c : Catalogue} {now : DateTime} {above : List Node} {n : Node}
    {ps : List Placing} {out : Except EngineError (Option OrderRef)}
    (h : Node.Cascades c now above n ps out) (r : CascadeRequest) {link : Precedence}
    (hlink : link ∈ ps.flatMap (Placing.links r)) :
    [link.first, link.second].Sublist (orderIds ps) ∧ link.asOf = r.start := by
  obtain ⟨p, hp, hlink⟩ := List.mem_flatMap.1 hlink
  obtain ⟨xs, ys, hsplit⟩ := List.append_of_mem hp
  obtain ⟨order, horder, child, hchild, rfl⟩ := Placing.mem_links.1 hlink
  obtain ⟨p', hp', -, hfirst⟩ := h.below_before hsplit hchild
  refine ⟨?_, rfl⟩
  have hbefore : [child.id].Sublist (orderIds xs) := by
    rw [List.singleton_sublist]
    exact List.mem_map_of_mem (List.mem_filterMap.2 ⟨p', hp', hfirst⟩)
  have hafter : [order.id].Sublist (orderIds (p :: ys)) := by
    rw [List.singleton_sublist]
    exact List.mem_map_of_mem (List.mem_filterMap.2 ⟨p, List.mem_cons_self, horder⟩)
  rw [hsplit, orderIds, List.filterMap_append, List.map_append]
  exact hbefore.append hafter

theorem map_recorded_id (r : CascadeRequest) (ps : List Placing) :
    (ps.filterMap (Placing.recorded r)).map (·.ref.id) = orderIds ps := by
  rw [orderIds, List.map_filterMap, List.map_filterMap]
  congr 1
  funext p
  rw [Placing.recorded, Option.map_map]
  rfl

namespace OrderBook

/-- The books that runs leave behind, whatever their trees, catalogues and settings, and whether
they succeed or fail. -/
inductive Left : OrderBook → Prop
  | empty : Left .empty
  | run {b} (c : Catalogue) (d : DeskSettings) (now : DateTime) (calculator : Option Calculator)
      (r : CascadeRequest) (t : Tree) :
      Left b → Left ((⟨c, desk d, now⟩ : Workshop OrderBook).run calculator r t b).1

/-- A run adds orders and precedences to a book, unless the quantity pass fails. -/
theorem run_cases (c : Catalogue) (d : DeskSettings) (now : DateTime)
    (calculator : Option Calculator) (r : CascadeRequest) (t : Tree) (b : OrderBook) :
    let w : Workshop OrderBook := ⟨c, desk d, now⟩
    (w.run calculator r t b).1 = b ∨ ∃ ps out,
      (t.flatten 0 false calculator).1.root.Cascades c now [] ps out ∧
        w.Replays r b ps (w.run calculator r t b).1 := by
  intro w
  cases h : (t.flatten 0 false calculator).2.outcome with
  | error e => exact .inl (Workshop.run_of_error b h).1
  | ok numbers =>
    obtain ⟨ps, hcascades, hreplays⟩ := w.run_cascades r b h
    exact .inr ⟨ps, _, hcascades, hreplays⟩

/-- Runs number all orders in turn. -/
theorem Left.numbered {b : OrderBook} (h : b.Left) : b.Numbered := by
  induction h with
  | empty => rfl
  | @run b c d now calculator r t _ ih =>
    rcases run_cases c d now calculator r t b with hsame | ⟨ps, out, -, hreplays⟩
    · rw [hsame]
      exact ih
    · exact hreplays.numbered rfl ih

/-- Precedences that lead to later orders do so in a book that has been added to. -/
theorem Ordered.replays {w : Workshop OrderBook} {d : DeskSettings} {r : CascadeRequest}
    (hd : w.desk = desk d) {b b' : OrderBook} (h : b.Ordered) {n : Node} {ps : List Placing}
    {out : Except EngineError (Option OrderRef)}
    (hcascades : n.Cascades w.catalogue w.now [] ps out) (hreplays : w.Replays r b ps b') :
    b'.Ordered := by
  have hids : b'.ids = b.ids ++ orderIds ps := by
    rw [ids, hreplays.orders hd, List.map_append, map_recorded_id, ids]
  intro link hlink
  rw [hreplays.precedences hd, List.mem_append] at hlink
  rw [hids]
  rcases hlink with hlink | hlink
  · exact (h link hlink).trans (List.sublist_append_left _ _)
  · exact (hcascades.links_ordered r hlink).1.trans (List.sublist_append_right _ _)

/-- In the books that runs leave behind, each precedence leads to a later order. -/
theorem Left.ordered {b : OrderBook} (h : b.Left) : b.Ordered := by
  induction h with
  | empty => exact fun link hlink => nomatch hlink
  | @run b c d now calculator r t _ ih =>
    rcases run_cases c d now calculator r t b with hsame | ⟨ps, out, hcascades, hreplays⟩
    · rw [hsame]
      exact ih
    · exact ih.replays rfl hcascades hreplays

end OrderBook

end Bom
