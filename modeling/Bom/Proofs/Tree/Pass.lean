import Bom.Proofs.Outcome
import Bom.Proofs.Tree.Lineage
import Bom.Tree.Quantity

/-!
# What a quantity pass does to a tree

A pass gives each node that it visits a quantity that depends on nothing but the way down to the
node: the quantity above, the units and the scrap of the edge, and what the calculator says.
`Pass.quantityOn` tells it along the way, and `Pass.visits` which nodes are visited. So a pass that
succeeds is a relabelling of the tree (`Node.pass_eq`), it succeeds unless a calculation fails at a
node that it visits (`Node.pass_ok_iff`), and what an earlier pass has left counts for nothing
(`Node.pass_uncounted`).

* `Node.relabel`: the same tree with other occurrences at its nodes.
* `Pass.call?`, `Pass.share?`, `Pass.quantityOn`: the quantity of a node, told along its way.
* `Pass.visits`, `Pass.FailsAt`: which nodes a pass goes through, and where it would fail.
* `Node.uncounted`: the tree without the quantities and levels of its nodes.
-/

namespace Bom

/-! ## Other occurrences at the same places -/

mutual

/-- The subtree with another occurrence at each node, told by the way to the node. What a node has
replaced stays as it is. -/
def Node.relabel (f : Lineage → Occurrence) (above : List Node) : Node → Node
  | .mk self replaced slots =>
    .mk (f ⟨.mk self replaced slots, above⟩) replaced
      (slots.relabel f (.mk self replaced slots :: above))

/-- The slots with other occurrences at the nodes in and below them. -/
def Slots.relabel (f : Lineage → Occurrence) (above : List Node) : Slots → Slots
  | .nil => .nil
  | .vacant edge rest => .vacant edge (rest.relabel f above)
  | .filled edge child rest => .filled edge (child.relabel f above) (rest.relabel f above)

end

section

variable {f : Lineage → Occurrence}

@[simp] theorem Node.relabel_self (above : List Node) (n : Node) :
    (n.relabel f above).self = f ⟨n, above⟩ := by
  cases n
  rfl

@[simp] theorem Node.relabel_replaced (above : List Node) (n : Node) :
    (n.relabel f above).replaced = n.replaced := by
  cases n
  rfl

@[simp] theorem Node.relabel_slots (above : List Node) (n : Node) :
    (n.relabel f above).slots = n.slots.relabel f (n :: above) := by
  cases n
  rfl

@[simp] theorem Slots.relabel_edges (above : List Node) (s : Slots) :
    (s.relabel f above).edges = s.edges := by
  induction s using Slots.edges.induct with
  | case1 => rfl
  | case2 edge _ ih => exact congrArg (edge :: ·) ih
  | case3 edge _ _ ih => exact congrArg (edge :: ·) ih

@[simp] theorem Slots.relabel_contents (above : List Node) (s : Slots) :
    (s.relabel f above).contents = s.contents.map fun c => c.map (Node.relabel f above) := by
  induction s using Slots.contents.induct with
  | case1 => rfl
  | case2 _ _ ih => exact congrArg (none :: ·) ih
  | case3 _ child _ ih => exact congrArg (some (child.relabel f above) :: ·) ih

mutual

/-- A subtree stays as it is where each node is given its own occurrence. -/
theorem Node.relabel_eq_self {above : List Node} :
    ∀ {n : Node}, (∀ l ∈ n.lineages above, f l = l.node.self) → n.relabel f above = n
  | .mk self replaced slots, h => by
    have hself := h _ List.mem_cons_self
    have hslots : slots.relabel f _ = slots :=
      Slots.relabel_eq_self fun l hl => h l (List.mem_cons_of_mem _ hl)
    rw [Node.relabel, hself, hslots]
    rfl

/-- Slots stay as they are where each node is given its own occurrence. -/
theorem Slots.relabel_eq_self {above : List Node} :
    ∀ {s : Slots}, (∀ l ∈ s.lineages above, f l = l.node.self) → s.relabel f above = s
  | .nil, _ => rfl
  | .vacant edge rest, h => congrArg (Slots.vacant edge) (rest.relabel_eq_self h)
  | .filled edge child rest, h => by
    have hchild : child.relabel f above = child :=
      Node.relabel_eq_self fun l hl => h l (List.mem_append_left _ hl)
    have hrest : rest.relabel f above = rest :=
      Slots.relabel_eq_self fun l hl => h l (List.mem_append_right _ hl)
    rw [Slots.relabel, hchild, hrest]

end

end

/-! ## Quantities along a way -/

namespace Pass

variable (p : Pass)

/-- The call of the calculator for an occurrence below the given quantity, with its answer. None is
made outside of explosions, without a calculator, and where the edge names no calculation. -/
def call? (o : Occurrence) (above : Float) : Option (Except String (Option Float)) :=
  match p.calculates, p.calculator, o.edge.bind Edge.calculation with
  | true, some calculate, some method =>
    some <| calculate method {
      product := o.product.id
      needed := above * o.multiplier
      amount := p.amount
      width := o.product.width.getD 0.0
      height := o.product.height.getD 0.0
      depth := o.product.depth.getD 0.0 }
  | _, _, _ => none

/-- The quantity of an occurrence below the given one: what the calculator says, if it is called and
gives a value, else the quantity above times the units times the factor for scrap. There is none
where the call fails. -/
def share? (o : Occurrence) (above : Float) : Option Float :=
  match p.call? o above with
  | some (.error _) => none
  | some (.ok (some quantity)) => some quantity
  | _ => some (above * o.multiplier * o.scrap)

/-- The quantity at the lower end of a way, which is given from the node upwards, if `start` is the
quantity above the root. There is none where a call on the way fails. -/
def quantityOn (start : Float) : List Node → Option Float
  | [] => some start
  | n :: above => (quantityOn start above).bind (p.share? n.self)

/-- The pass goes through the node: unless work in process is passed over, and the node or one
between it and the root is work in process. -/
def visits (l : Lineage) : Bool :=
  !(p.excludesWip && (l.node :: l.above).dropLast.any (·.self.product.isWip))

/-- The calculator is called for the node and the call fails. -/
def FailsAt (start : Float) (l : Lineage) : Prop :=
  ∃ above text, p.quantityOn start l.above = some above ∧
    p.call? l.node.self above = some (.error text)

/-- The occurrence at a node after the pass. -/
def counted (start : Float) (depth : UInt64) (l : Lineage) : Occurrence :=
  match p.visits l, p.quantityOn start (l.node :: l.above) with
  | true, some quantity => { l.node.self with quantity, depth := depth + .ofNat l.depth }
  | _, _ => l.node.self

variable {p}

/-- The call is that of the calculation which counts for the occurrence. -/
theorem call?_eq (o : Occurrence) (above : Float) : p.call? o above =
    (p.calculation o).bind fun method => p.calculator.map fun calculate =>
      calculate method (p.input o above) := by
  unfold call? calculation Occurrence.calculation
  cases p.calculates <;> cases p.calculator <;> cases o.edge.bind Edge.calculation <;> rfl

/-- The pass takes the share as quantity. -/
theorem quantityOf_eq_ok {o : Occurrence} {above q : Float} :
    (p.quantityOf o above).outcome = .ok q ↔ p.share? o above = some q := by
  unfold quantityOf share?
  rw [call?_eq]
  cases p.calculation o with
  | none => simp [formula]
  | some method =>
    cases p.calculator with
    | none => simp [formula]
    | some calculate =>
      dsimp only [Option.bind_some, Option.map_some]
      cases calculate method (p.input o above) with
      | error text => simp
      | ok value => cases value <;> simp [formula]

/-- There is no share just where the call fails. -/
theorem share?_eq_none {o : Occurrence} {above : Float} :
    p.share? o above = none ↔ ∃ text, p.call? o above = some (.error text) := by
  unfold share?
  cases p.call? o above with
  | none => simp
  | some answer =>
    cases answer with
    | error text => simp
    | ok value => cases value <;> simp

/-- The pass fails at an occurrence just where the call does. -/
theorem quantityOf_eq_error {o : Occurrence} {above : Float} {e : EngineError}
    (h : (p.quantityOf o above).outcome = .error e) : p.share? o above = none := by
  cases hs : p.share? o above with
  | none => rfl
  | some q =>
    rw [quantityOf_eq_ok.2 hs] at h
    cases h

/-- A node in a slot is gone through unless it is skipped, if the node above it is gone through. -/
theorem visits_child (l : Lineage) (n : Node) :
    p.visits (l.child n) = (!p.skips n && p.visits l) := by
  unfold visits skips Lineage.child
  rw [List.dropLast_cons_of_ne_nil (List.cons_ne_nil _ _), List.any_cons]
  cases p.excludesWip <;> simp

end Pass

section

variable {p : Pass}

mutual

/-- A pass that goes through a node goes through the node at the top of the subtree. -/
theorem Node.visits_of_mem_lineages {l : Lineage} {above : List Node} :
    ∀ {n : Node}, l ∈ n.lineages above → p.visits l = true → p.visits ⟨n, above⟩ = true
  | .mk self replaced slots, hl, hv => by
    rw [Node.lineages, List.mem_cons] at hl
    rcases hl with rfl | hl
    · exact hv
    · exact Slots.visits_of_mem_lineages hl hv

/-- A pass that goes through a node below slots goes through the node that has the slots. -/
theorem Slots.visits_of_mem_lineages {l : Lineage} {n : Node} {above : List Node} :
    ∀ {s : Slots}, l ∈ s.lineages (n :: above) → p.visits l = true → p.visits ⟨n, above⟩ = true
  | .nil, hl, _ => nomatch hl
  | .vacant _ rest, hl, hv => Slots.visits_of_mem_lineages (s := rest) hl hv
  | .filled _ child rest, hl, hv => by
    rw [Slots.lineages, List.mem_append] at hl
    rcases hl with hl | hl
    · have hchild : p.visits (Lineage.child ⟨n, above⟩ child) = true :=
        Node.visits_of_mem_lineages hl hv
      rw [Pass.visits_child, Bool.and_eq_true] at hchild
      exact hchild.2
    · exact Slots.visits_of_mem_lineages hl hv

end

/-- A pass goes through nothing at and below a node that it skips. -/
theorem Pass.not_visits_of_skips (n : Node) (above : List Node) {child : Node}
    (h : p.skips child = true) :
    ∀ l ∈ child.lineages (n :: above), p.visits l = false := by
  intro l hl
  rw [Bool.eq_false_iff]
  intro hv
  have hchild : p.visits (Lineage.child ⟨n, above⟩ child) = true :=
    Node.visits_of_mem_lineages hl hv
  rw [Pass.visits_child, h] at hchild
  cases hchild

/-! ## One pass -/

variable {start : Float}

/-- A pass fails at a node where the quantity of its occurrence does. -/
theorem Node.pass_of_error {self : Occurrence} {replaced : Option Occurrence} {slots : Slots}
    {above : Float} {depth : UInt64} {e : EngineError}
    (h : (p.quantityOf self above).outcome = .error e) :
    ((Node.mk self replaced slots).pass p above depth).1 = .mk self replaced slots ∧
      ((Node.mk self replaced slots).pass p above depth).2.outcome = .error e := by
  rw [Node.pass]
  dsimp only
  rw [h]
  exact ⟨rfl, rfl⟩

/-- A pass counts a node and goes on with its slots. -/
theorem Node.pass_of_ok {self : Occurrence} {replaced : Option Occurrence} {slots : Slots}
    {above quantity : Float} {depth : UInt64}
    (h : (p.quantityOf self above).outcome = .ok quantity) :
    ((Node.mk self replaced slots).pass p above depth).1 =
        .mk { self with quantity, depth } replaced (slots.pass p quantity (depth + 1)).1 ∧
      ((Node.mk self replaced slots).pass p above depth).2.outcome =
        (slots.pass p quantity (depth + 1)).2.outcome.map (self.number :: ·) := by
  rw [Node.pass]
  dsimp only
  rw [h]
  exact ⟨rfl, rfl⟩

/-- A pass leaves a node that it skips as it is. -/
theorem Slots.pass_of_skips {edge : Edge} {child : Node} {rest : Slots} {above : Float}
    {depth : UInt64} (h : p.skips child = true) :
    ((Slots.filled edge child rest).pass p above depth).1 =
        .filled edge child (rest.pass p above depth).1 ∧
      ((Slots.filled edge child rest).pass p above depth).2 = (rest.pass p above depth).2 := by
  rw [Slots.pass, if_pos h]
  exact ⟨rfl, rfl⟩

/-- A pass that fails in a slot leaves the slots after it as they are. -/
theorem Slots.pass_of_error {edge : Edge} {child : Node} {rest : Slots} {above : Float}
    {depth : UInt64} {e : EngineError} (hskips : p.skips child = false)
    (h : (child.pass p above depth).2.outcome = .error e) :
    ((Slots.filled edge child rest).pass p above depth).1 =
        .filled edge (child.pass p above depth).1 rest ∧
      ((Slots.filled edge child rest).pass p above depth).2.outcome = .error e := by
  rw [Slots.pass, if_neg (Bool.eq_false_iff.1 hskips)]
  dsimp only
  rw [h]
  exact ⟨rfl, rfl⟩

/-- A pass goes through a slot and then through the slots after it. -/
theorem Slots.pass_of_ok {edge : Edge} {child : Node} {rest : Slots} {above : Float}
    {depth : UInt64} {numbers : List Nat} (hskips : p.skips child = false)
    (h : (child.pass p above depth).2.outcome = .ok numbers) :
    ((Slots.filled edge child rest).pass p above depth).1 =
        .filled edge (child.pass p above depth).1 (rest.pass p above depth).1 ∧
      ((Slots.filled edge child rest).pass p above depth).2.outcome =
        (rest.pass p above depth).2.outcome.map (numbers ++ ·) := by
  rw [Slots.pass, if_neg (Bool.eq_false_iff.1 hskips)]
  dsimp only
  rw [h]
  exact ⟨rfl, rfl⟩

/-- The level below that of a node. -/
theorem Pass.level_succ (depth : UInt64) (n : Node) (above : List Node) :
    depth + .ofNat above.length + 1 = depth + .ofNat (n :: above).length := by
  rw [List.length_cons, UInt64.ofNat_add, UInt64.add_assoc]
  rfl

/-- The quantity of a node that has been counted. -/
theorem Pass.quantityOn_of_ok {n : Node} {above : List Node} {q quantity : Float}
    (hq : p.quantityOn start above = some q) (h : (p.quantityOf n.self q).outcome = .ok quantity) :
    p.quantityOn start (n :: above) = some quantity := by
  rw [quantityOn, hq]
  exact quantityOf_eq_ok.1 h

mutual

/-- A pass that succeeds below a node gives each node that it goes through the quantity told along
its way, and lists these nodes in pre-order. -/
theorem Node.pass_eq {above : List Node} {q : Float} (depth : UInt64)
    (hq : p.quantityOn start above = some q) :
    ∀ {n : Node} {numbers : List Nat}, p.visits ⟨n, above⟩ = true →
      (n.pass p q (depth + .ofNat above.length)).2.outcome = .ok numbers →
      (n.pass p q (depth + .ofNat above.length)).1 = n.relabel (p.counted start depth) above ∧
        numbers = ((n.lineages above).filter p.visits).map (·.node.self.number) ∧
        ∀ l ∈ n.lineages above, p.visits l = true →
          ∃ quantity, p.quantityOn start (l.node :: l.above) = some quantity
  | .mk self replaced slots, numbers, hv, h => by
    cases hself : (p.quantityOf self q).outcome with
    | error e =>
      rw [(Node.pass_of_error hself).2] at h
      cases h
    | ok quantity =>
      obtain ⟨hnode, hresult⟩ :=
        @Node.pass_of_ok p self replaced slots q quantity (depth + .ofNat above.length) hself
      rw [Pass.level_succ depth (.mk self replaced slots)] at hnode hresult
      rw [hresult] at h
      obtain ⟨below, hbelow, rfl⟩ := map_eq_ok.1 h
      have hquantity : p.quantityOn start (.mk self replaced slots :: above) = some quantity :=
        Pass.quantityOn_of_ok hq hself
      obtain ⟨hslots, rfl, hall⟩ := Slots.pass_eq depth hquantity hv hbelow
      rw [Node.lineages]
      refine ⟨?_, ?_, List.forall_mem_cons.2 ⟨fun _ => ⟨quantity, hquantity⟩, hall⟩⟩
      · rw [hnode, hslots, Node.relabel, Pass.counted, hv, hquantity]
        rfl
      · rw [List.filter_cons_of_pos hv]
        rfl

/-- A pass that succeeds below slots gives each node that it goes through the quantity told along
its way, and lists these nodes in pre-order. -/
theorem Slots.pass_eq {n : Node} {above : List Node} {q : Float} (depth : UInt64)
    (hq : p.quantityOn start (n :: above) = some q) (hv : p.visits ⟨n, above⟩ = true) :
    ∀ {s : Slots} {numbers : List Nat},
      (s.pass p q (depth + .ofNat (n :: above).length)).2.outcome = .ok numbers →
      (s.pass p q (depth + .ofNat (n :: above).length)).1 =
          s.relabel (p.counted start depth) (n :: above) ∧
        numbers = ((s.lineages (n :: above)).filter p.visits).map (·.node.self.number) ∧
        ∀ l ∈ s.lineages (n :: above), p.visits l = true →
          ∃ quantity, p.quantityOn start (l.node :: l.above) = some quantity
  | .nil, _, h => by
    cases h
    exact ⟨rfl, rfl, fun l hl => nomatch hl⟩
  | .vacant edge rest, _, h => by
    obtain ⟨hrest, rfl, hall⟩ := Slots.pass_eq depth hq hv (s := rest) h
    exact ⟨congrArg (Slots.vacant edge) hrest, rfl, hall⟩
  | .filled edge child rest, numbers, h => by
    rw [Slots.relabel, Slots.lineages, List.filter_append, List.map_append, List.forall_mem_append]
    cases hskips : p.skips child with
    | true =>
      -- nothing at and below the child is counted, so it stays as it is
      obtain ⟨hslots, hresult⟩ :=
        @Slots.pass_of_skips p edge child rest q (depth + .ofNat (n :: above).length) hskips
      rw [hresult] at h
      obtain ⟨hrest, rfl, hall⟩ := Slots.pass_eq depth hq hv h
      have hout := Pass.not_visits_of_skips n above hskips
      have hchild : child.relabel (p.counted start depth) (n :: above) = child :=
        Node.relabel_eq_self fun l hl => by rw [Pass.counted, hout l hl]
      have hnone : (child.lineages (n :: above)).filter p.visits = [] :=
        List.filter_eq_nil_iff.2 fun l hl => by simp [hout l hl]
      rw [hslots, hrest, hchild, hnone]
      refine ⟨rfl, rfl, fun l hl hlv => ?_, hall⟩
      rw [hout l hl] at hlv
      cases hlv
    | false =>
      have hchild : p.visits ⟨child, n :: above⟩ = true := by
        have := Pass.visits_child (p := p) ⟨n, above⟩ child
        rwa [hskips, hv] at this
      cases hfirst : (child.pass p q (depth + .ofNat (n :: above).length)).2.outcome with
      | error e =>
        rw [(Slots.pass_of_error hskips hfirst).2] at h
        cases h
      | ok first =>
        obtain ⟨hslots, hresult⟩ :=
          @Slots.pass_of_ok p edge child rest q (depth + .ofNat (n :: above).length) first hskips
            hfirst
        rw [hresult] at h
        obtain ⟨second, hsecond, rfl⟩ := map_eq_ok.1 h
        obtain ⟨hrest, rfl, hallRest⟩ := Slots.pass_eq depth hq hv hsecond
        obtain ⟨htop, rfl, hallChild⟩ := Node.pass_eq depth hq hchild hfirst
        rw [hslots, hrest, ← htop]
        exact ⟨rfl, rfl, hallChild, hallRest⟩

end

/-- A node fails just where its occurrence has no quantity. -/
theorem Pass.failsAt_iff {n : Node} {above : List Node} {q : Float}
    (hq : p.quantityOn start above = some q) :
    p.FailsAt start ⟨n, above⟩ ↔ p.share? n.self q = none := by
  rw [Pass.share?_eq_none]
  constructor
  · rintro ⟨_, text, habove, hcall⟩
    rw [hq] at habove
    cases habove
    exact ⟨text, hcall⟩
  · rintro ⟨text, hcall⟩
    exact ⟨q, text, hq, hcall⟩

mutual

/-- A pass succeeds below a node just when no calculation fails at a node that it goes through. -/
theorem Node.pass_ok_iff {above : List Node} {q : Float} (depth : UInt64)
    (hq : p.quantityOn start above = some q) : ∀ {n : Node}, p.visits ⟨n, above⟩ = true →
      ((∃ numbers, (n.pass p q depth).2.outcome = .ok numbers) ↔
        ∀ l ∈ n.lineages above, p.visits l = true → ¬ p.FailsAt start l)
  | .mk self replaced slots, hv => by
    rw [Node.lineages, List.forall_mem_cons, Pass.failsAt_iff hq]
    cases hself : (p.quantityOf self q).outcome with
    | error e =>
      have hnone : p.share? self q = none := Pass.quantityOf_eq_error hself
      constructor
      · rintro ⟨numbers, h⟩
        rw [(Node.pass_of_error hself).2] at h
        cases h
      · rintro ⟨hshare, -⟩
        exact absurd hnone (hshare hv)
    | ok quantity =>
      have hsome : p.share? self q = some quantity := Pass.quantityOf_eq_ok.1 hself
      have hquantity : p.quantityOn start (.mk self replaced slots :: above) = some quantity :=
        Pass.quantityOn_of_ok hq hself
      have hslots := Slots.pass_ok_iff (depth + 1) hquantity hv (s := slots)
      rw [(Node.pass_of_ok hself).2]
      constructor
      · rintro ⟨numbers, h⟩
        obtain ⟨below, hbelow, -⟩ := map_eq_ok.1 h
        refine ⟨fun _ hnone => ?_, hslots.1 ⟨below, hbelow⟩⟩
        change p.share? self q = none at hnone
        rw [hsome] at hnone
        cases hnone
      · rintro ⟨-, hbelow⟩
        obtain ⟨below, h⟩ := hslots.2 hbelow
        exact ⟨self.number :: below, map_eq_ok.2 ⟨below, h, rfl⟩⟩

/-- A pass succeeds below slots just when no calculation fails at a node that it goes through. -/
theorem Slots.pass_ok_iff {n : Node} {above : List Node} {q : Float} (depth : UInt64)
    (hq : p.quantityOn start (n :: above) = some q) (hv : p.visits ⟨n, above⟩ = true) :
    ∀ {s : Slots}, (∃ numbers, (s.pass p q depth).2.outcome = .ok numbers) ↔
      ∀ l ∈ s.lineages (n :: above), p.visits l = true → ¬ p.FailsAt start l
  | .nil => by
    constructor
    · intro _ l hl
      cases hl
    · intro _
      exact ⟨[], rfl⟩
  | .vacant _ rest => Slots.pass_ok_iff depth hq hv (s := rest)
  | .filled edge child rest => by
    have hrest := Slots.pass_ok_iff depth hq hv (s := rest)
    rw [Slots.lineages, List.forall_mem_append]
    cases hskips : p.skips child with
    | true =>
      rw [(Slots.pass_of_skips hskips).2, hrest]
      have hout := Pass.not_visits_of_skips n above hskips
      refine ⟨fun h => ⟨fun l hl hlv => ?_, h⟩, fun h => h.2⟩
      rw [hout l hl] at hlv
      cases hlv
    | false =>
      have hchild : p.visits ⟨child, n :: above⟩ = true := by
        have := Pass.visits_child (p := p) ⟨n, above⟩ child
        rwa [hskips, hv] at this
      have hfirst := Node.pass_ok_iff depth hq hchild
      rw [← hrest, ← hfirst]
      constructor
      · rintro ⟨numbers, h⟩
        cases hresult : (child.pass p q depth).2.outcome with
        | error e =>
          rw [(Slots.pass_of_error hskips hresult).2] at h
          cases h
        | ok first =>
          rw [(Slots.pass_of_ok hskips hresult).2] at h
          obtain ⟨second, hsecond, -⟩ := map_eq_ok.1 h
          exact ⟨⟨first, rfl⟩, second, hsecond⟩
      · rintro ⟨⟨first, hresult⟩, second, hsecond⟩
        refine ⟨first ++ second, ?_⟩
        rw [(Slots.pass_of_ok hskips hresult).2]
        exact map_eq_ok.2 ⟨second, hsecond, rfl⟩

end

/-! ## Quantities that are left over -/

/-- The occurrence without what passes have left at it. -/
def Occurrence.uncounted (o : Occurrence) : Occurrence := { o with quantity := 0.0, depth := 0 }

mutual

/-- The subtree without what passes have left at its nodes. -/
def Node.uncounted : Node → Node
  | .mk self replaced slots => .mk self.uncounted replaced slots.uncounted

/-- The slots without what passes have left at the nodes in and below them. -/
def Slots.uncounted : Slots → Slots
  | .nil => .nil
  | .vacant edge rest => .vacant edge rest.uncounted
  | .filled edge child rest => .filled edge child.uncounted rest.uncounted

end

mutual

/-- A pass changes nothing but quantities and levels, whether it succeeds or fails. -/
theorem Node.uncounted_pass {above : Float} {depth : UInt64} :
    ∀ n : Node, (n.pass p above depth).1.uncounted = n.uncounted
  | .mk self replaced slots => by
    cases hself : (p.quantityOf self above).outcome with
    | error e => rw [(Node.pass_of_error hself).1]
    | ok quantity =>
      rw [(Node.pass_of_ok hself).1, Node.uncounted, slots.uncounted_pass]
      rfl

/-- A pass changes nothing below slots but quantities and levels. -/
theorem Slots.uncounted_pass {above : Float} {depth : UInt64} :
    ∀ s : Slots, (s.pass p above depth).1.uncounted = s.uncounted
  | .nil => rfl
  | .vacant edge rest => congrArg (Slots.vacant edge) rest.uncounted_pass
  | .filled edge child rest => by
    cases hskips : p.skips child with
    | true =>
      rw [(Slots.pass_of_skips hskips).1, Slots.uncounted, rest.uncounted_pass]
      rfl
    | false =>
      cases hfirst : (child.pass p above depth).2.outcome with
      | error e =>
        rw [(Slots.pass_of_error hskips hfirst).1, Slots.uncounted, child.uncounted_pass]
        rfl
      | ok first =>
        rw [(Slots.pass_of_ok hskips hfirst).1, Slots.uncounted, child.uncounted_pass,
          rest.uncounted_pass]
        rfl

end

/-- A pass that does not pass over work in process passes over nothing. -/
theorem Pass.skips_eq_false (hwip : p.excludesWip = false) (n : Node) : p.skips n = false := by
  rw [skips, hwip, Bool.false_and]

mutual

/-- What is left over from earlier passes does not count for the outcome, and where nothing is
passed over, a pass that succeeds leaves nothing of it. -/
theorem Node.pass_uncounted (hwip : p.excludesWip = false) (above : Float) (depth : UInt64) :
    ∀ n : Node, (n.uncounted.pass p above depth).2.outcome = (n.pass p above depth).2.outcome ∧
      ∀ numbers, (n.pass p above depth).2.outcome = .ok numbers →
        (n.uncounted.pass p above depth).1 = (n.pass p above depth).1
  | .mk self replaced slots => by
    rw [Node.uncounted]
    cases hself : (p.quantityOf self above).outcome with
    | error e =>
      have hblank : (p.quantityOf self.uncounted above).outcome = .error e := hself
      rw [(Node.pass_of_error hself).2, (Node.pass_of_error hblank).2]
      refine ⟨rfl, fun numbers h => ?_⟩
      cases h
    | ok quantity =>
      have hblank : (p.quantityOf self.uncounted above).outcome = .ok quantity := hself
      obtain ⟨hout, htree⟩ :=
        Slots.pass_uncounted hwip quantity (depth + 1) slots
      rw [(Node.pass_of_ok hself).2, (Node.pass_of_ok hblank).2, (Node.pass_of_ok hself).1,
        (Node.pass_of_ok hblank).1, hout]
      refine ⟨rfl, fun numbers h => ?_⟩
      obtain ⟨below, hbelow, -⟩ := map_eq_ok.1 h
      rw [htree below hbelow]
      rfl

/-- What is left over below slots does not count for the outcome, and where nothing is passed over,
a pass that succeeds leaves nothing of it. -/
theorem Slots.pass_uncounted (hwip : p.excludesWip = false) (above : Float) (depth : UInt64) :
    ∀ s : Slots, (s.uncounted.pass p above depth).2.outcome = (s.pass p above depth).2.outcome ∧
      ∀ numbers, (s.pass p above depth).2.outcome = .ok numbers →
        (s.uncounted.pass p above depth).1 = (s.pass p above depth).1
  | .nil => ⟨rfl, fun _ _ => rfl⟩
  | .vacant edge rest => by
    obtain ⟨hout, htree⟩ := Slots.pass_uncounted hwip above depth rest
    exact ⟨hout, fun numbers h => congrArg (Slots.vacant edge) (htree numbers h)⟩
  | .filled edge child rest => by
    have hskips := Pass.skips_eq_false hwip
    obtain ⟨houtChild, htreeChild⟩ :=
      Node.pass_uncounted hwip above depth child
    obtain ⟨hout, htree⟩ := Slots.pass_uncounted hwip above depth rest
    rw [Slots.uncounted]
    cases hfirst : (child.pass p above depth).2.outcome with
    | error e =>
      rw [(Slots.pass_of_error (hskips _) hfirst).2,
        (Slots.pass_of_error (hskips _) (houtChild.trans hfirst)).2]
      refine ⟨rfl, fun numbers h => ?_⟩
      cases h
    | ok first =>
      rw [(Slots.pass_of_ok (hskips _) hfirst).2, (Slots.pass_of_ok (hskips _) hfirst).1,
        (Slots.pass_of_ok (hskips _) (houtChild.trans hfirst)).2,
        (Slots.pass_of_ok (hskips _) (houtChild.trans hfirst)).1, hout]
      refine ⟨rfl, fun numbers h => ?_⟩
      obtain ⟨second, hsecond, -⟩ := map_eq_ok.1 h
      rw [htreeChild first hfirst, htree second hsecond]

end

end

end Bom
