import Mathlib.Data.List.Nodup
import Bom.Proofs.Service.Build
import Bom.Proofs.Service.Make
import Bom.Proofs.Tree.Cut

/-!
# What goes directly into a product

The service lists the components of a product from the explosion of a single level: the numbers that
the quantity pass has gone through, less the root, and for each of them the node that has it. No two
nodes of a finished tree have one number, so these are the nodes in the slots of the root; and that
explosion is the full one cut at its first level. So what is listed is the first level of the full
explosion, with the quantities that it has there (`explosions_agree`).
-/

namespace Bom

/-! ## Lines of a tree -/

namespace Tree

/-- Where no two nodes have one number, a node is found by its number. -/
theorem node?_eq_some {t : Tree} (h : t.numbers.Nodup) {n : Node} (hn : n ∈ t.preorder) :
    t.node? n.self.number = some n := by
  unfold node?
  exact (find?_key_eq_some h).2 ⟨hn, rfl⟩

/-- The numbers of the nodes below the root lead to these nodes. -/
theorem filterMap_node? {t : Tree} (h : t.numbers.Nodup) {β : Type} (f : Node → β) :
    (t.numbers.drop 1).filterMap (fun number => (t.node? number).map f) =
      (t.preorder.drop 1).map f := by
  rw [numbers, ← List.map_drop, List.filterMap_map, ← List.filterMap_eq_map]
  refine List.filterMap_congr fun n hn => ?_
  rw [Function.comp_apply, node?_eq_some h (List.mem_of_mem_drop hn)]
  rfl

/-- Trees with the same places have the same numbers. -/
theorem Agrees.numbers {t u : Tree} (h : t.Agrees u) : u.numbers = t.numbers := by
  rw [u.numbers_eq_map, t.numbers_eq_map]
  exact h.map_lineages Lineage.uncounted_number

/-- Where nothing is passed over, a pass that succeeds goes through all nodes. -/
theorem numbers_of_flatten {t : Tree} {depth : UInt64} {calculator : Option Calculator}
    {numbers : List Nat} (h : (t.flatten depth false calculator).2.outcome = .ok numbers) :
    numbers = (t.flatten depth false calculator).1.numbers := by
  have hvisits : (t.passOf calculator false).visits = fun _ => true := rfl
  rw [numbers_eq_map, numbers_of_pass h, hvisits, List.filter_true]

end Tree

mutual

/-- What can be told of a node without its number is told of the nodes of a subtree without theirs.
-/
theorem Node.map_placed_unnumbered {β : Type} {f : Node → β} (hf : ∀ n, f n.unnumbered = f n) :
    ∀ (n : Node) (parent parent' : Option Occurrence),
      (n.unnumbered.placed parent).map (f ·.node) = (n.placed parent').map (f ·.node)
  | .mk self replaced slots, parent, parent' => by
    have hself := hf (.mk self replaced slots)
    rw [Node.unnumbered, Node.placed, Node.placed, List.map_cons, List.map_cons,
      slots.map_placed_unnumbered hf]
    exact congrArg (· :: _) hself

/-- What can be told of a node without its number is told of the nodes below slots without theirs.
-/
theorem Slots.map_placed_unnumbered {β : Type} {f : Node → β} (hf : ∀ n, f n.unnumbered = f n) :
    ∀ (s : Slots) (parent parent' : Occurrence),
      (s.unnumbered.placed parent).map (f ·.node) = (s.placed parent').map (f ·.node)
  | .nil, _, _ => rfl
  | .vacant _ rest, parent, parent' => rest.map_placed_unnumbered hf parent parent'
  | .filled _ child rest, parent, parent' => by
    rw [Slots.unnumbered, Slots.placed, Slots.placed, List.map_append, List.map_append,
      child.map_placed_unnumbered hf, rest.map_placed_unnumbered hf]

end

/-- Below slots that are cut at once stand the places in them. -/
theorem Slots.placed_cut (parent : Occurrence) (s : Slots) :
    ((s.cut fun _ _ => true).placed parent).map (·.node) = s.nodes.map Node.stub := by
  cases s with
  | nil => rfl
  | vacant _ rest => exact rest.placed_cut parent
  | filled _ child rest =>
    rw [Slots.cut_filled, Slots.placed, List.map_append, rest.placed_cut]
    cases child
    rfl

/-- The lines of the nodes below the root of a tree that is cut at its first level are those of the
nodes in the slots of the root. -/
theorem Tree.lines_of_cut {t u : Tree}
    (h : u.root.unnumbered = (t.root.cut fun _ _ => true).unnumbered) :
    (u.preorder.drop 1).map ComponentLine.ofNode = t.root.slots.nodes.map ComponentLine.ofNode := by
  have hunnumbered (n : Node) : ComponentLine.ofNode n.unnumbered = ComponentLine.ofNode n := by
    obtain ⟨self, replaced, slots⟩ := n
    cases replaced <;> rfl
  have hstub : ComponentLine.ofNode ∘ Node.stub = ComponentLine.ofNode := by
    funext n
    cases n
    rfl
  have hcut : (u.root.placed none).map (ComponentLine.ofNode ·.node) =
      ((t.root.cut fun _ _ => true).placed none).map (ComponentLine.ofNode ·.node) := by
    rw [← u.root.map_placed_unnumbered hunnumbered none, h, Node.map_placed_unnumbered hunnumbered]
  have hlines : u.preorder.map ComponentLine.ofNode =
      (u.root.placed none).map (ComponentLine.ofNode ·.node) := List.map_map
  have hslots := congrArg (List.map ComponentLine.ofNode)
    (Slots.placed_cut t.root.self t.root.slots)
  rw [List.map_map, List.map_map, hstub] at hslots
  rw [List.map_drop, hlines, hcut, ← hslots]
  cases t.root
  rfl

/-! ## What the service lists -/

namespace Service

variable {σ : Type} {v : Service σ}

/-- The service lists the nodes below the root of the explosion of a single level. -/
theorem components_eq_ok {product : String} {quantity amount : Float} {asOf : Option DateTime}
    {routing : Option String} {t u : Tree} {numbers : List Nat}
    (hquantity : checkQuantity "quantity" quantity = .ok ())
    (hamount : checkQuantity "amount" amount = .ok ())
    (ht : (v.explode product .singleLevel asOf routing).outcome = .ok t)
    (hu : (v.count { t with rootQuantity := quantity, rootAmount := amount } false).outcome =
      .ok (u, numbers)) :
    (v.components product quantity amount asOf routing).outcome =
      .ok ((u.preorder.drop 1).map ComponentLine.ofNode) := by
  obtain ⟨hpass, htree⟩ := count_eq_ok.1 hu
  -- the numbers gone through are those of all nodes, which the pass has left as they were
  have hnumbers := Tree.numbers_of_flatten hpass
  have hnodup : u.numbers.Nodup := by
    obtain ⟨-, hbuilt⟩ := explode_eq_ok.1 ht
    have hsame := (Tree.agrees_flatten { t with rootQuantity := quantity, rootAmount := amount } 0
      false v.calculator).numbers
    rw [← htree, hsame]
    exact (List.pairwise_cons.1 (built_of_buildTree hbuilt).numbers_sorted).2.imp Nat.ne_of_lt
  rw [htree] at hnumbers
  unfold components
  refine Noted.outcome_bind_eq_ok.2 ⟨(), hquantity, ?_⟩
  refine Noted.outcome_bind_eq_ok.2 ⟨(), hamount, ?_⟩
  refine Noted.outcome_bind_eq_ok.2 ⟨t, ht, ?_⟩
  refine Noted.outcome_bind_eq_ok.2 ⟨(u, numbers), hu, ?_⟩
  rw [hnumbers, ← Tree.filterMap_node? hnodup]
  rfl

end Service

/-- Where the full explosion of a product succeeds in a catalogue in memory, so do the others. That
of a single level has its tree cut at the first level, and that for manufacturing has it cut where a
warehouse manages the product. So the service lists as components of a product the first level of
its full explosion, with the quantities there, whenever that can be built and counted. -/
theorem explosions_agree (c : MemoryCatalogue) :
    (∀ maxDepth r t, r.mode = .explosion →
      (buildTree c.catalogue maxDepth r).outcome = .ok t →
      (∃ u, (buildTree c.catalogue maxDepth { r with mode := .singleLevel }).outcome = .ok u ∧
        t.IsCut (fun _ _ => true) u) ∧
      ∃ u, (buildTree c.catalogue maxDepth { r with mode := .manufacturing }).outcome = .ok u ∧
        t.IsCut c.catalogue.manages u) ∧
    ∀ {σ : Type} (v : Service σ) (product : String) (quantity amount : Float)
      (asOf : Option DateTime) (routing : Option String) (t u : Tree) (numbers : List Nat),
      v.catalogue = c.catalogue →
      checkQuantity "quantity" quantity = .ok () → checkQuantity "amount" amount = .ok () →
      (v.explode product .explosion asOf routing).outcome = .ok t →
      (v.count { t with rootQuantity := quantity, rootAmount := amount } false).outcome =
        .ok (u, numbers) →
      (v.components product quantity amount asOf routing).outcome =
        .ok (u.root.slots.nodes.map ComponentLine.ofNode) := by
  refine ⟨fun maxDepth r t hr h => buildTree_cuts hr h, ?_⟩
  intro σ v product quantity amount asOf routing t u numbers hv hquantity hamount ht hu
  obtain ⟨hproduct, ht⟩ := Service.explode_eq_ok.1 ht
  rw [hv] at ht
  obtain ⟨⟨t', ht', hcut⟩, -⟩ := buildTree_cuts rfl ht
  rw [← hv] at ht'
  have hsingle := Service.explode_eq_ok.2 ⟨hproduct, ht'⟩
  obtain ⟨hpass, htree⟩ := Service.count_eq_ok.1 hu
  obtain ⟨⟨left, hleft⟩, hroot⟩ := hcut.counted [.setQuantity quantity, .setAmount amount]
    [.setQuantity quantity, .setAmount amount] 0 v.calculator rfl rfl numbers hpass
  have hcount := Service.count_eq_ok.2 ⟨hleft, rfl⟩
  rw [Service.components_eq_ok hquantity hamount hsingle hcount, ← htree]
  exact congrArg Except.ok (Tree.lines_of_cut hroot)

/-- A facility keeps the steel frame of the bicycle in stock. The explosion for manufacturing is the
full one, which has two levels, cut at the frame; and what the service lists for two bicycles is the
first level of the full one. -/
theorem bicycle_explosions :
    let c := MemoryCatalogue.bicycles.addStocking "steel frame" "store" none
    let v := Service.sample c
    (∃ t, (buildTree c.catalogue 3 (.sample "bicycle")).outcome = .ok t ∧ t.maxDepth = 2 ∧
      ∃ u, (buildTree c.catalogue 3
          { TreeRequest.sample "bicycle" with mode := .manufacturing }).outcome = .ok u ∧
        t.IsCut c.catalogue.manages u) ∧
    ∃ t u numbers, (v.explode "bicycle" .explosion none none).outcome = .ok t ∧
      (v.count { t with rootQuantity := 2.0, rootAmount := 0.0 } false).outcome =
        .ok (u, numbers) ∧
      (v.components "bicycle" 2.0 0.0 none none).outcome =
        .ok (u.root.slots.nodes.map ComponentLine.ofNode) := by
  intro c v
  constructor
  · exact ⟨_, rfl, rfl, ((explosions_agree c).1 3 (.sample "bicycle") _ rfl rfl).2⟩
  · have hcounted : (v.explode "bicycle" .explosion none none).outcome.toOption.any (fun t =>
        (v.count { t with rootQuantity := 2.0, rootAmount := 0.0 } false).outcome.isOk) = true := by
      decide +kernel
    obtain ⟨t, ht, hisOk⟩ := exists_of_any hcounted
    obtain ⟨counted, hu⟩ := exists_of_isOk hisOk
    refine ⟨t, counted.1, counted.2, ht, hu, ?_⟩
    exact (explosions_agree c).2 v "bicycle" 2.0 0.0 none none t counted.1 counted.2 rfl
      (by decide +kernel) (by decide +kernel) ht hu

end Bom
