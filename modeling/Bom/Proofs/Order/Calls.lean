import Bom.Order.Memory
import Bom.Proofs.Order.Log
import Bom.Proofs.Tree.Quantity

/-!
# What a run asks of its desk

A desk may be made to keep a list of the orders that it is asked for (`OrderDesk.recording`), and a
run at this desk does the same as one at the desk itself (`Workshop.run_recording`). The list that
it ends with (`Workshop.calls`) has the orders of the log of the run (`Workshop.calls_eq`).
`run_calls` says what is in it: the nodes that are to be made, in post-order, with the quantities of
a pass through the tree as it was built.
-/

namespace Bom

variable {σ : Type}

/-- The desk that keeps a list of the orders that it is asked for, the earliest first, and leaves
the rest to the desk behind it. -/
def OrderDesk.recording (desk : OrderDesk σ) : OrderDesk (σ × List OrderRequest) where
  place request s :=
    let (behind, answer) := desk.place request s.1
    ((behind, s.2 ++ [request]), answer)
  fulfil order source s :=
    let (behind, result) := desk.fulfil order source s.1
    ((behind, s.2), result)
  precede first second asOf s :=
    let (behind, result) := desk.precede first second asOf s.1
    ((behind, s.2), result)

theorem OrderDesk.recording_mirrors (desk : OrderDesk σ) :
    desk.recording.Mirrors Prod.fst desk where
  place _ _ := rfl
  fulfil _ _ _ := rfl
  precede _ _ _ _ := rfl

/-- The list has the orders of a log. -/
theorem OrderDesk.logging_mirrors_recording (desk : OrderDesk σ) :
    desk.logging.Mirrors (fun s => (s.1, (DeskCall.placings s.2).map Prod.fst)) desk.recording where
  place request s := by
    have hasked := congrArg (List.map Prod.fst)
      (DeskCall.placings_placed s.2 request (desk.place request s.1).2)
    rw [List.map_append] at hasked
    exact Prod.ext (Prod.ext rfl hasked.symm) rfl
  fulfil order source s := by
    have hasked := congrArg (List.map Prod.fst)
      (DeskCall.placings_linked s.2 (.fulfilment ⟨order, source⟩) (desk.fulfil order source s.1).2)
    exact Prod.ext (Prod.ext rfl hasked.symm) rfl
  precede first second asOf s := by
    have hasked := congrArg (List.map Prod.fst) (DeskCall.placings_linked s.2
      (.precedence ⟨first, second, asOf⟩) (desk.precede first second asOf s.1).2)
    exact Prod.ext (Prod.ext rfl hasked.symm) rfl

namespace Workshop

/-- What a run asks the desk for, the first call first. -/
def calls (w : Workshop σ) (calculator : Option Calculator) (r : CascadeRequest) (t : Tree)
    (s : σ) : List OrderRequest :=
  ((w.withDesk w.desk.recording).run calculator r t (s, [])).1.2

/-- A run does not depend on whether the desk keeps a list. -/
theorem run_recording (w : Workshop σ) (calculator : Option Calculator) (r : CascadeRequest)
    (t : Tree) (s : σ) (asked : List OrderRequest) :
    w.run calculator r t s =
      (((w.withDesk w.desk.recording).run calculator r t (s, asked)).1.1,
        ((w.withDesk w.desk.recording).run calculator r t (s, asked)).2) :=
  (w.withDesk w.desk.recording).run_mirrors w.desk.recording_mirrors calculator r t (s, asked)

/-- The calls of a run are the orders of its log. -/
theorem calls_eq (w : Workshop σ) (calculator : Option Calculator) (r : CascadeRequest) (t : Tree)
    (s : σ) : w.calls calculator r t s =
      (DeskCall.placings (w.log calculator r t s)).map Prod.fst :=
  congrArg (·.1.2) ((w.withDesk w.desk.logging).run_mirrors w.desk.logging_mirrors_recording
    calculator r t (s, []))

/-- A quantity pass that fails leaves the desk in peace. -/
theorem calls_of_error (w : Workshop σ) (r : CascadeRequest) (s : σ)
    {calculator : Option Calculator} {t : Tree} {e : EngineError}
    (h : (t.flatten 0 false calculator).2.outcome = .error e) : w.calls calculator r t s = [] :=
  congrArg Prod.snd (run_of_error (s, []) h).1

/-- After a quantity pass a run asks for what the calls of a cascade are for. -/
theorem exists_calls (w : Workshop σ) (r : CascadeRequest) (s : σ) {calculator : Option Calculator}
    {t : Tree} {numbers : List Nat} (h : (t.flatten 0 false calculator).2.outcome = .ok numbers) :
    ∃ ps, (t.flatten 0 false calculator).1.root.Cascades w.catalogue w.now [] ps
        (w.run calculator r t s).2.2.outcome ∧
      w.Replays r s ps (w.run calculator r t s).1 ∧
      w.calls calculator r t s = ps.map (Placing.request r) := by
  obtain ⟨ps, hcascades, hreplays, hplacings, -⟩ := w.exists_log r s h
  refine ⟨ps, hcascades, hreplays, ?_⟩
  rw [calls_eq, hplacings, List.map_map]
  rfl

end Workshop

/-! ## The nodes of a finished tree -/

section

variable {c : Catalogue} {maxDepth : Nat} {q : TreeRequest} {t u : Tree}

/-- No two nodes of a tree with the places of a finished one have the same number. -/
theorem Built.lineages_nodup (h : Built c maxDepth q t) (hu : t.Agrees u) :
    (u.lineages.map (·.node.self.number)).Nodup := by
  rw [hu.map_lineages (g := (·.node.self.number)) Lineage.uncounted_number]
  exact h.nodup_numbers

/-- No node is due twice. -/
theorem Built.due_nodup (h : Built c maxDepth q t) (hu : t.Agrees u) (c' : Catalogue)
    (now : DateTime) : ((u.due c' now).map (·.node.self.number)).Nodup := by
  have hperm := (u.root.postorder_perm []).map (·.node.self.number)
  exact (hperm.nodup_iff.2 (h.lineages_nodup hu)).sublist (List.filter_sublist.map _)

theorem Tree.mem_lineages_of_due {c : Catalogue} {now : DateTime} {l : Lineage}
    (hl : l ∈ u.due c now) : l ∈ u.lineages :=
  (u.root.postorder_perm []).mem_iff.1 (List.mem_of_mem_filter hl)

/-- The calls of a run are for nodes that are due. -/
theorem Node.Cascades.way_mem_due {c : Catalogue} {now : DateTime} {ps : List Placing}
    {out : Except EngineError (Option OrderRef)} (h : u.root.Cascades c now [] ps out) {p : Placing}
    (hp : p ∈ ps) : p.way ∈ u.due c now :=
  (h.ways rfl).1.subset (List.mem_map_of_mem hp)

/-- No two calls of a run are for the same node. -/
theorem Built.calls_nodup (h : Built c maxDepth q t) (hu : t.Agrees u) {c' : Catalogue}
    {now : DateTime} {ps : List Placing} {out : Except EngineError (Option OrderRef)}
    (hcascades : u.root.Cascades c' now [] ps out) :
    (ps.map (·.way.node.self.number)).Nodup := by
  have hprefix := (hcascades.ways rfl).1.map (·.node.self.number)
  rw [List.map_map] at hprefix
  exact (h.due_nodup hu c' now).sublist hprefix.sublist

/-- What the root of a tree with the places of a finished one has replaced is the product that was
asked for. -/
theorem Built.root_replaced (h : Built c maxDepth q t) (hu : t.Agrees u) {o : Occurrence}
    (ho : u.root.replaced = some o) : o = t.requested := by
  have hsame := congrArg Node.replaced hu.root
  rw [u.root.uncounted_replaced, t.root.uncounted_replaced, ho, h.root_replaced_eq,
    Tree.redirected] at hsame
  split at hsame
  · cases hsame
  · exact Option.some.inj hsame

/-- The id of the product under which a node is ordered: a root that has replaced something is
ordered as the product that was asked for, all other nodes as their own. -/
theorem Built.ordered_id (h : Built c maxDepth q t) (hu : t.Agrees u) {l : Lineage}
    (hl : l ∈ u.lineages) : l.ordered.id =
      if l.above.isEmpty && l.node.replaced.isSome then t.requested.product.id
      else l.node.self.product.id := by
  unfold Lineage.ordered orderedProduct
  cases habove : l.above with
  | cons m above => rfl
  | nil =>
    cases hreplaced : l.node.replaced with
    | none => rfl
    | some o =>
      rw [Tree.eq_root_of_mem_lineages hl habove] at hreplaced
      rw [h.root_replaced hu hreplaced]
      rfl

end

/-- A run first counts the tree, whatever has happened to it before. If that fails, the desk is
asked for nothing. If the run succeeds, whatever the desk has answered, it has been asked for each
node that is due, once and in post-order: for the quantity that a pass through the tree as it was
built gives the node, and for the product of the node, or if the root has replaced something, at the
root for the product that the tree was asked for. -/
theorem run_calls (c : Catalogue) (maxDepth : Nat) (q : TreeRequest) (t : Tree)
    (h : (buildTree c maxDepth q).outcome = .ok t) (uses : List TreeUse) (w : Workshop σ)
    (calculator : Option Calculator) (r : CascadeRequest) (s : σ) :
    let u := t.after uses
    let built := { t with rootQuantity := u.rootQuantity, rootAmount := u.rootAmount }
    let counted := built.flatten 0 false calculator
    let due := counted.1.due w.catalogue w.now
    (∀ e, counted.2.outcome = .error e → w.calls calculator r u s = []) ∧
    ∀ order, (w.run calculator r u s).2.2.outcome = .ok order →
      (w.calls calculator r u s).map (fun call => (call.product, call.quantity)) =
        due.map (fun l =>
          (if l.above.isEmpty && l.node.replaced.isSome then t.requested.product.id
            else l.node.self.product.id, l.node.self.quantity)) ∧
      (due.map (·.node.self.number)).Nodup := by
  intro u built counted due
  have hbuilt := built_of_buildTree h
  have hagrees := t.agrees_after uses
  obtain ⟨houtcome, htree⟩ := hagrees.flatten_fresh 0 calculator
  refine ⟨fun e he => w.calls_of_error r s (houtcome.symm.trans he), fun order horder => ?_⟩
  cases hpass : (u.flatten 0 false calculator).2.outcome with
  | error e =>
    rw [(Workshop.run_of_error s hpass).2] at horder
    cases horder
  | ok numbers =>
    obtain ⟨ps, hcascades, -, hcalls⟩ := w.exists_calls r s hpass
    have hways := (hcascades.ways rfl).2 order horder
    rw [htree numbers hpass] at hways
    have hcounted : t.Agrees counted.1 :=
      Tree.Agrees.trans (u := built) ⟨rfl, rfl⟩ (built.agrees_flatten 0 false calculator)
    refine ⟨?_, hbuilt.due_nodup hcounted _ _⟩
    calc (w.calls calculator r u s).map (fun call => (call.product, call.quantity))
      _ = (ps.map (·.way)).map (fun l => (l.ordered.id, l.node.self.quantity)) := by
        rw [hcalls, List.map_map, List.map_map]
        rfl
      _ = due.map (fun l => (l.ordered.id, l.node.self.quantity)) := congrArg _ hways
      _ = _ := List.map_congr_left fun l hl => by
        rw [hbuilt.ordered_id hcounted (Tree.mem_lineages_of_due hl)]

/-- What the cascades of samples have in common: they start at the epoch. -/
def CascadeRequest.sample : CascadeRequest := ⟨none, .epoch, none, none, none, none, none⟩

/-- Where the bicycle is ordered, at a desk in memory. -/
def Workshop.bicycles (d : DeskSettings) : Workshop OrderBook :=
  ⟨MemoryCatalogue.bicycles.catalogue, OrderBook.desk d, .epoch⟩

/-- The frame of the bicycle is ordered before the bicycle, though the desk refuses the frame. -/
theorem bicycle_calls :
    ∃ t, (buildTree MemoryCatalogue.bicycles.catalogue 3 (.sample "bicycle")).outcome = .ok t ∧
      (((Workshop.bicycles (.refusing .standard "steel frame")).calls none .sample
        (t.after [.setQuantity 2.0]) .empty).map fun call => (call.product, call.quantity)) =
          [("steel frame", 2.0), ("bicycle", 2.0)] := by
  refine ⟨_, rfl, ?_⟩
  have h := (run_calls MemoryCatalogue.bicycles.catalogue 3 (.sample "bicycle") _ rfl
    [.setQuantity 2.0] (Workshop.bicycles (.refusing .standard "steel frame")) none .sample
    .empty).2 _ rfl
  exact h.1.trans rfl

end Bom
