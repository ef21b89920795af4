import Mathlib.Data.List.Nodup
import Bom.Proofs.Service.Build
import Bom.Proofs.Tree.Table

/-!
# What is still virtual in a tree

The search for what has still to be chosen goes down the tree and stops at each virtual node. What
it lists is a selection from the pre-order all the same: the nodes below the root that are virtual
and have no virtual node above them but possibly the root (`Lineage.IsFirstVirtual`,
`Tree.unconfigured_eq`). Above every virtual node there is such a node or it is one itself
(`Tree.exists_first_virtual`), so the search that stops early finds nothing only where a search of
the whole pre-order would.

The pre-order is the order in which a walk with a stack comes to the nodes
(`Tree.preorder_eq_walk`). `buildTree_unconfigured` says all this of a finished tree, and
`Service.unconfiguredParts_eq_ok` what the service makes of it.
-/

namespace Bom

/-! ## The pre-order as a walk with a stack -/

mutual

/-- The nodes of a subtree are the node itself and then those of the subtrees in its slots. -/
theorem Node.map_node_placed (parent : Option Occurrence) :
    ∀ n : Node, (n.placed parent).map (·.node) = n :: n.slots.nodes.flatMap Node.preorder
  | .mk self replaced slots => by
    rw [Node.placed, List.map_cons, slots.map_node_placed]
    rfl

theorem Slots.map_node_placed (parent : Occurrence) :
    ∀ s : Slots, (s.placed parent).map (·.node) = s.nodes.flatMap Node.preorder
  | .nil => rfl
  | .vacant _ rest => rest.map_node_placed parent
  | .filled _ child rest => by
    rw [Slots.placed, List.map_append, child.map_node_placed, rest.map_node_placed, Slots.nodes,
      List.flatMap_cons, Node.preorder, child.map_node_placed]

end

theorem Node.preorder_eq (n : Node) : n.preorder = n :: n.slots.nodes.flatMap Node.preorder :=
  n.map_node_placed none

/-- The nodes that a walk comes to which takes the node on top of the stack and puts the nodes in
its slots there, the first of them on top. -/
def walk : List Node → List Node
  | [] => []
  | n :: stack => n :: walk (n.slots.nodes ++ stack)
termination_by stack => (stack.flatMap Node.preorder).length
decreasing_by
  rw [List.flatMap_append, List.flatMap_cons, n.preorder_eq, List.cons_append, List.length_cons]
  exact Nat.lt_succ_self _

/-- The walk comes to the subtrees on the stack one after the other, each in pre-order. -/
theorem walk_eq (stack : List Node) : walk stack = stack.flatMap Node.preorder := by
  fun_induction walk stack with
  | case1 => rfl
  | case2 n stack ih =>
    rw [ih, List.flatMap_append, List.flatMap_cons, n.preorder_eq, List.cons_append]

theorem Tree.preorder_eq_walk (t : Tree) : t.preorder = walk [t.root] := by
  rw [walk_eq, List.flatMap_singleton, Tree.preorder]

/-! ## The first virtual nodes -/

namespace Lineage

/-- The node is virtual, and no node above it is but possibly the root. -/
def IsFirstVirtual (l : Lineage) : Prop :=
  l.node.self.product.isVirtual = true ∧ ∀ n ∈ l.above.dropLast, n.self.product.isVirtual = false

instance : DecidablePred IsFirstVirtual := fun _ => inferInstanceAs (Decidable (_ ∧ _))

/-- Below a virtual node that is not the root no node is a first one. -/
theorem not_isFirstVirtual_of_suffix {l : Lineage} {n : Node} {above : List Node}
    (hl : n :: above <:+ l.above) (habove : above ≠ [])
    (hn : n.self.product.isVirtual = true) : ¬ l.IsFirstVirtual := by
  rintro ⟨-, hnone⟩
  obtain ⟨below, hbelow⟩ := hl
  have hmem : n ∈ l.above.dropLast := by
    rw [← hbelow, List.dropLast_append_of_ne_nil (List.cons_ne_nil _ _),
      List.dropLast_cons_of_ne_nil habove]
    exact List.mem_append_right _ List.mem_cons_self
  rw [hnone n hmem] at hn
  cases hn

end Lineage

mutual

/-- Below a node that is not virtual, and with no virtual node above it but possibly the root, the
search lists the first virtual nodes. -/
theorem Node.unconfigured_eq {above : List Node} : ∀ {n : Node},
    (∀ a ∈ (n :: above).dropLast, a.self.product.isVirtual = false) →
      n.unconfigured =
        ((n.slots.lineages (n :: above)).filter (·.IsFirstVirtual)).map Lineage.placed
  | .mk _ _ slots, habove => slots.unconfigured_eq habove

/-- What the search lists in and below slots. -/
theorem Slots.unconfigured_eq {n : Node} {above : List Node}
    (habove : ∀ a ∈ (n :: above).dropLast, a.self.product.isVirtual = false) :
    ∀ s : Slots, s.unconfigured n.self =
      ((s.lineages (n :: above)).filter (·.IsFirstVirtual)).map Lineage.placed
  | .nil => rfl
  | .vacant _ rest => rest.unconfigured_eq habove
  | .filled _ child rest => by
    rw [Slots.unconfigured, Slots.lineages, List.filter_append, List.map_append,
      rest.unconfigured_eq habove, child.lineages_eq]
    congr 1
    cases hchild : child.self.product.isVirtual with
    | true =>
      have hfirst : Lineage.IsFirstVirtual ⟨child, n :: above⟩ := ⟨hchild, habove⟩
      have hbelow : (child.slots.lineages (child :: n :: above)).filter (·.IsFirstVirtual) = [] :=
        List.filter_eq_nil_iff.2 fun l hl hfirst =>
          Lineage.not_isFirstVirtual_of_suffix (Slots.suffix_of_mem_lineages hl)
            (List.cons_ne_nil _ _) hchild (of_decide_eq_true hfirst)
      rw [List.filter_cons_of_pos (by simpa using hfirst), hbelow]
      rfl
    | false =>
      have hnot : ¬ Lineage.IsFirstVirtual ⟨child, n :: above⟩ := by
        rintro ⟨hvirtual, -⟩
        rw [hchild] at hvirtual
        cases hvirtual
      rw [List.filter_cons_of_neg (by simpa using hnot)]
      refine Node.unconfigured_eq fun a ha => ?_
      rw [List.dropLast_cons_of_ne_nil (List.cons_ne_nil _ _)] at ha
      rcases List.mem_cons.1 ha with rfl | ha
      · exact hchild
      · exact habove a ha

end

namespace Tree

variable {t : Tree}

/-- The search lists the first virtual nodes below the root. -/
theorem unconfigured_eq (t : Tree) :
    t.unconfigured = (t.lower.filter (·.IsFirstVirtual)).map Lineage.placed :=
  Node.unconfigured_eq fun _ ha => nomatch ha

/-- The ways below the root lead over it. -/
theorem above_ne_nil_of_mem_lower {l : Lineage} (hl : l ∈ t.lower) : l.above ≠ [] := by
  intro hnil
  have h := Slots.suffix_of_mem_lineages hl
  rw [hnil] at h
  cases List.suffix_nil.1 h

/-- Each way but that to the root itself leads below the root. -/
theorem mem_lower_of_above_ne_nil {l : Lineage} (hl : l ∈ t.lineages) (habove : l.above ≠ []) :
    l ∈ t.lower := by
  rw [t.lineages_eq] at hl
  rcases List.mem_cons.1 hl with rfl | hl
  · exact absurd rfl habove
  · exact hl

theorem map_node_lower (t : Tree) : t.lower.map (·.node) = t.preorder.tail := by
  rw [← t.lineages_map_node, t.lineages_eq]
  rfl

/-- A virtual node below the root is a first one or lies below a first one. -/
theorem exists_first_virtual {l : Lineage} (hl : l ∈ t.lower)
    (hvirtual : l.node.self.product.isVirtual = true) :
    ∃ first ∈ t.lower, first.IsFirstVirtual := by
  -- the induction is on the number of nodes above
  induction hn : l.above.length using Nat.strongRecOn generalizing l with
  | ind n ih =>
    by_cases hfirst : l.IsFirstVirtual
    · exact ⟨l, hl, hfirst⟩
    · have hexists : ∃ a ∈ l.above.dropLast, a.self.product.isVirtual = true := by
        by_contra hnone
        refine hfirst ⟨hvirtual, fun a ha => ?_⟩
        exact Bool.eq_false_iff.2 fun htrue => hnone ⟨a, ha, htrue⟩
      obtain ⟨a, ha, havirtual⟩ := hexists
      obtain ⟨below, up, hsplit, hup⟩ := exists_above_of_mem_dropLast ha
      have hway : l.node :: l.above = (l.node :: below) ++ a :: up := by
        rw [hsplit, List.cons_append]
      have hmem : ⟨a, up⟩ ∈ t.lineages :=
        mem_lineages_of_append (mem_lineages_of_mem_lower hl) hway
      refine ih up.length ?_ (mem_lower_of_above_ne_nil hmem hup) havirtual rfl
      rw [← hn, hsplit, List.length_append, List.length_cons]
      omega

end Tree

namespace Built

variable {c : Catalogue} {maxDepth : Nat} {r : TreeRequest} {t : Tree}

/-- In a finished tree a way is known by the number at its end. -/
theorem lineage_inj (h : Built c maxDepth r t) {l l' : Lineage} (hl : l ∈ t.lineages)
    (hl' : l' ∈ t.lineages) (hnumber : l.node.self.number = l'.node.self.number) : l = l' :=
  List.inj_on_of_nodup_map h.nodup_numbers hl hl' hnumber

/-- The listed numbers are those of the first virtual nodes. -/
theorem mem_unconfigured (h : Built c maxDepth r t) {l : Lineage} (hl : l ∈ t.lineages) :
    l.node.self.number ∈ t.unconfigured.map (·.node.self.number) ↔
      l ∈ t.lower ∧ l.IsFirstVirtual := by
  rw [t.unconfigured_eq, List.map_map, List.mem_map]
  constructor
  · rintro ⟨l', hl', hnumber⟩
    obtain ⟨hlower, hfirst⟩ := List.mem_filter.1 hl'
    obtain rfl := h.lineage_inj (Tree.mem_lineages_of_mem_lower hlower) hl hnumber
    exact ⟨hlower, of_decide_eq_true hfirst⟩
  · rintro ⟨hlower, hfirst⟩
    exact ⟨l, List.mem_filter.2 ⟨hlower, decide_eq_true hfirst⟩, rfl⟩

theorem unconfigured_nodup (h : Built c maxDepth r t) :
    (t.unconfigured.map (·.node.self.number)).Nodup := by
  have hlower : (t.lower.map (·.node.self.number)).Nodup := by
    have := h.nodup_numbers
    rw [t.lineages_eq] at this
    exact this.of_cons
  rw [t.unconfigured_eq, List.map_map]
  exact hlower.sublist (List.filter_sublist.map _)

/-- Above a node that is listed no other one is. -/
theorem not_mem_unconfigured_of_mem_above (h : Built c maxDepth r t) {l : Lineage}
    (hl : l ∈ t.lineages) (hlisted : l.node.self.number ∈ t.unconfigured.map (·.node.self.number))
    {a : Node} (ha : a ∈ l.above) :
    a.self.number ∉ t.unconfigured.map (·.node.self.number) := by
  intro halisted
  obtain habove | ⟨up, hup, hbelow⟩ := Node.below_of_mem_above ha hl
  · cases habove
  · obtain ⟨hlower, hvirtual, -⟩ := (h.mem_unconfigured hup).1 halisted
    exact Lineage.not_isFirstVirtual_of_suffix (Slots.suffix_of_mem_lineages hbelow)
      (Tree.above_ne_nil_of_mem_lower hlower) hvirtual ((h.mem_unconfigured hl).1 hlisted).2

end Built

/-- Nothing is listed just when no node below the root is virtual. -/
theorem Tree.isConfigured_iff (t : Tree) :
    t.isConfigured = true ↔ ∀ n ∈ t.preorder.tail, n.self.product.isVirtual = false := by
  have hnone : t.isConfigured = true ↔ ∀ l ∈ t.lower, ¬ l.IsFirstVirtual := by
    unfold isConfigured
    rw [List.isEmpty_iff, t.unconfigured_eq, List.map_eq_nil_iff, List.filter_eq_nil_iff]
    simp only [decide_eq_true_eq]
  rw [hnone, ← t.map_node_lower, List.forall_mem_map]
  constructor
  · intro hfirst l hl
    refine Bool.eq_false_iff.2 fun hvirtual => ?_
    obtain ⟨first, hmem, h⟩ := exists_first_virtual hl hvirtual
    exact hfirst first hmem h
  · rintro hvirtual l hl ⟨h, -⟩
    rw [hvirtual l hl] at h
    cases h

/-- In a finished tree the search for what has still to be chosen lists, in pre-order, just the
nodes below the root that are virtual and have no virtual node above them but possibly the root. It
lists none of them twice, and none below another one. It finds nothing just when no node but the
root is virtual, although it does not look below a virtual node. The pre-order is that of a walk
with a stack. -/
theorem buildTree_unconfigured (c : Catalogue) (maxDepth : Nat) (r : TreeRequest) (t : Tree)
    (h : (buildTree c maxDepth r).outcome = .ok t) :
    t.preorder = walk [t.root] ∧
    t.unconfigured = (t.lower.filter (·.IsFirstVirtual)).map Lineage.placed ∧
    (t.unconfigured.map (·.node.self.number)).Nodup ∧
    (∀ l ∈ t.lineages, l.node.self.number ∈ t.unconfigured.map (·.node.self.number) →
      ∀ a ∈ l.above, a.self.number ∉ t.unconfigured.map (·.node.self.number)) ∧
    (t.isConfigured = true ↔ ∀ n ∈ t.preorder.tail, n.self.product.isVirtual = false) := by
  have hbuilt := built_of_buildTree h
  exact ⟨t.preorder_eq_walk, t.unconfigured_eq, hbuilt.unconfigured_nodup,
    fun l hl hlisted a ha => hbuilt.not_mem_unconfigured_of_mem_above hl hlisted ha,
    t.isConfigured_iff⟩

/-- The service names the first virtual nodes of an explosion, each with the product above it. -/
theorem Service.unconfiguredParts_eq_ok {σ : Type} {v : Service σ} {product : String}
    {asOf : Option DateTime} {features : Option (List Feature)} {parts : List UnconfiguredPart} :
    (v.unconfiguredParts product asOf features).outcome = .ok parts ↔
      checkProduct product = .ok () ∧ ∃ t, (buildTree v.catalogue v.settings.maxDepth
        ⟨product, v.billType v.settings.bomType, asOf.getD v.now, .explosion, none,
          features⟩).outcome = .ok t ∧
        (t.lower.filter (·.IsFirstVirtual)).map (fun l =>
          ⟨l.node.self.product.id, l.above.head?.map (·.self.product.id)⟩) = parts := by
  have hlisted (t : Tree) : (t.unconfigured.map fun p =>
      (⟨p.node.self.product.id, p.parent.map (·.product.id)⟩ : UnconfiguredPart)) =
        (t.lower.filter (·.IsFirstVirtual)).map fun l =>
          ⟨l.node.self.product.id, l.above.head?.map (·.self.product.id)⟩ := by
    rw [t.unconfigured_eq, List.map_map]
    refine List.map_congr_left fun l _ => ?_
    rw [Function.comp_apply, Lineage.placed, Option.map_map]
    rfl
  unfold unconfiguredParts
  rw [Noted.outcome_bind_eq_ok]
  simp only [Noted.outcome_pure, Except.ok.injEq, hlisted]
  constructor
  · rintro ⟨t, ht, hparts⟩
    obtain ⟨hproduct, ht⟩ := build_eq_ok.1 ht
    exact ⟨hproduct, t, ht, hparts⟩
  · rintro ⟨hproduct, t, ht, hparts⟩
    exact ⟨t, build_eq_ok.2 ⟨hproduct, ht⟩, hparts⟩

/-- A catalogue with a table that nothing is chosen for: a virtual top with a virtual veneer, and
a stand that has a virtual foot. -/
def MemoryCatalogue.tables : MemoryCatalogue :=
  { empty with
    products := [sampleProduct "table" true, sampleProduct "top" true, sampleProduct "veneer" true,
      sampleProduct "stand" false, sampleProduct "foot" true]
    edges := [sampleEdge "table" "top" 1, sampleEdge "top" "veneer" 1, sampleEdge "table" "stand" 2,
      sampleEdge "stand" "foot" 1] }

/-- Of the table the top and the foot are listed, and the veneer is not. -/
theorem table_unconfigured :
    ∃ t, (buildTree MemoryCatalogue.tables.catalogue 3 (.sample "table")).outcome = .ok t ∧
      t.preorder.map (·.self.product.id) = ["table", "top", "veneer", "stand", "foot"] ∧
      t.unconfigured.map (·.node.self.product.id) = ["top", "foot"] ∧
      (t.unconfigured.map (·.node.self.number)).Nodup ∧
      ∃ n ∈ t.preorder.tail, n.self.product.isVirtual = true := by
  refine ⟨_, rfl, by decide +kernel, by decide +kernel, ?_⟩
  obtain ⟨-, -, hnodup, -, hconfigured⟩ :=
    buildTree_unconfigured MemoryCatalogue.tables.catalogue 3 (.sample "table") _ rfl
  refine ⟨hnodup, ?_⟩
  by_contra hnone
  have := hconfigured.2 fun n hn => Bool.eq_false_iff.2 fun hvirtual => hnone ⟨n, hn, hvirtual⟩
  revert this
  decide +kernel

end Bom
