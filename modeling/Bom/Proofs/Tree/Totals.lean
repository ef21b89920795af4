import Mathlib.Data.List.Induction
import Mathlib.Data.String.Basic
import Bom.Proofs.Tree.Quantity
import Bom.Proofs.Tree.Schedule

/-!
# Quantities by product

Totals list their products in ascending order, each product once
(`Totals.ascending_ofOccurrences`), so they are known by what is looked up in them
(`Totals.Ascending.ext`): for a product that occurs, the quantities of its occurrences, added from
left to right from 0 (`Totals.lookup_ofOccurrences`).

A tree can be asked for the totals over some of its nodes, or over all of them. After a pass the
first are what the pass has counted. The second take in the nodes that the pass has passed over,
with what an earlier pass has left there, or 0 if none has; so the two agree just where that makes
no difference (`sum_eq_sumOver_iff`).
-/

namespace Bom

/-! ## Looking up a total -/

namespace Totals

/-- What quantities come to, added from left to right from 0. No quantities come to nothing. -/
def entry : List Float → Option Float
  | [] => none
  | quantities => some (quantities.foldl (· + ·) 0.0)

theorem entry_append_singleton (qs : List Float) (q : Float) :
    entry (qs ++ [q]) = some ((entry qs).getD 0.0 + q) := by
  cases qs with
  | nil => rfl
  | cons first rest =>
    change some (List.foldl (· + ·) 0.0 (first :: rest ++ [q])) = _
    rw [List.foldl_append]
    rfl

@[simp] theorem entry_eq_none {qs : List Float} : entry qs = none ↔ qs = [] := by
  cases qs <;> simp [entry]

/-- The products ascend, so each is there once. -/
def Ascending (totals : Totals) : Prop := totals.Pairwise (·.1 < ·.1)

section

variable {product id : String} {quantity : Float} {totals : Totals}

theorem lookup_cons (p : String) (q : Float) :
    List.lookup id ((p, q) :: totals) = if id = p then some q else totals.lookup id := by
  rw [List.lookup_cons]
  by_cases h : id = p
  · simp [h]
  · rw [if_neg h, beq_eq_false_iff_ne.2 h]

/-- A product is there unless nothing is looked up for it. -/
theorem lookup_eq_none : totals.lookup id = none ↔ id ∉ totals.map Prod.fst := by
  induction totals with
  | nil => simp
  | cons e rest ih =>
    rw [lookup_cons, List.map_cons, List.mem_cons, not_or, ← ih]
    by_cases h : id = e.1 <;> simp [h]

/-- Adding to a product adds no product but this one. -/
theorem mem_map_fst_add :
    id ∈ (totals.add product quantity).map Prod.fst ↔ id = product ∨ id ∈ totals.map Prod.fst := by
  induction totals with
  | nil => simp [add]
  | cons e rest ih =>
    rw [add]
    split
    · next heq =>
      subst heq
      simp
    · split
      · simp
      · rw [List.map_cons, List.mem_cons, ih, List.map_cons, List.mem_cons]
        exact or_left_comm

/-- Adding to a product keeps the products in order. -/
theorem Ascending.add (h : totals.Ascending) : (totals.add product quantity).Ascending := by
  induction totals with
  | nil => exact List.pairwise_singleton _ _
  | cons e rest ih =>
    obtain ⟨hhead, hrest⟩ := List.pairwise_cons.1 h
    rw [Totals.add]
    split
    · exact List.pairwise_cons.2 ⟨hhead, hrest⟩
    · next hne =>
      split
      · next hlt =>
        refine List.pairwise_cons.2 ⟨?_, h⟩
        exact List.forall_mem_cons.2 ⟨hlt, fun e' he' => lt_trans hlt (hhead e' he')⟩
      · next hnlt =>
        refine List.pairwise_cons.2 ⟨fun e' he' => ?_, ih hrest⟩
        rcases mem_map_fst_add.1 (List.mem_map_of_mem he') with heq | hmem
        · rw [heq]
          exact lt_of_le_of_ne (not_lt.1 hnlt) (Ne.symm hne)
        · obtain ⟨e'', he'', heq⟩ := List.mem_map.1 hmem
          rw [← heq]
          exact hhead e'' he''

/-- A product before the first one is not there. -/
theorem Ascending.lookup_of_lt {p : String} {q : Float} (h : Ascending ((p, q) :: totals))
    (hlt : id < p) : List.lookup id ((p, q) :: totals) = none := by
  rw [lookup_eq_none, List.map_cons, List.mem_cons, not_or]
  refine ⟨ne_of_lt hlt, fun hmem => ?_⟩
  obtain ⟨e, he, rfl⟩ := List.mem_map.1 hmem
  exact lt_asymm hlt ((List.pairwise_cons.1 h).1 e he)

/-- Adding to a product changes its total and no other. -/
theorem Ascending.lookup_add (h : totals.Ascending) : (totals.add product quantity).lookup id =
    if id = product then some ((totals.lookup product).getD 0.0 + quantity)
    else totals.lookup id := by
  induction totals with
  | nil => exact lookup_cons product (0.0 + quantity)
  | cons e rest ih =>
    rw [Totals.add]
    split
    · next heq =>
      subst heq
      rw [lookup_cons, lookup_cons, lookup_cons, if_pos rfl]
      split <;> rfl
    · next hne =>
      split
      · next hlt => rw [lookup_cons, h.lookup_of_lt hlt, Option.getD_none]
      · rw [lookup_cons, lookup_cons, lookup_cons, if_neg hne, ih (List.pairwise_cons.1 h).2]
        by_cases hid : id = product
        · rw [if_pos hid, if_pos hid, if_neg (hid ▸ hne)]
        · rw [if_neg hid, if_neg hid]

/-- Below the first product it is not there again. -/
theorem Ascending.lookup_tail {p : String} {q : Float} (h : Ascending ((p, q) :: totals)) :
    totals.lookup p = none := by
  rw [lookup_eq_none]
  intro hmem
  obtain ⟨e, he, heq⟩ := List.mem_map.1 hmem
  exact lt_irrefl p (heq ▸ (List.pairwise_cons.1 h).1 e he)

/-- Totals in order are known by what is looked up in them. -/
theorem Ascending.ext : ∀ {totals totals' : Totals}, totals.Ascending → totals'.Ascending →
    (∀ id, totals.lookup id = totals'.lookup id) → totals = totals'
  | [], [], _, _, _ => rfl
  | [], (p, q) :: _, _, _, heq => by
    have := heq p
    rw [lookup_cons, if_pos rfl] at this
    cases this
  | (p, q) :: _, [], _, _, heq => by
    have := heq p
    rw [lookup_cons, if_pos rfl] at this
    cases this
  | (p, q) :: rest, (p', q') :: rest', h, h', heq => by
    -- neither of the first products comes before the other, as it would then be there only once
    have hge : ¬ p' < p := fun hlt => by
      have := heq p'
      rw [h.lookup_of_lt hlt, lookup_cons, if_pos rfl] at this
      cases this
    have hle : ¬ p < p' := fun hlt => by
      have := heq p
      rw [h'.lookup_of_lt hlt, lookup_cons, if_pos rfl] at this
      cases this
    obtain rfl : p = p' := le_antisymm (not_lt.1 hge) (not_lt.1 hle)
    have hq := heq p
    rw [lookup_cons, lookup_cons, if_pos rfl, if_pos rfl] at hq
    have hrest : rest = rest' := by
      refine ext (List.pairwise_cons.1 h).2 (List.pairwise_cons.1 h').2 fun id => ?_
      by_cases hid : id = p
      · rw [hid, h.lookup_tail, h'.lookup_tail]
      · have := heq id
        rwa [lookup_cons, lookup_cons, if_neg hid, if_neg hid] at this
    rw [Option.some.inj hq, hrest]

end

/-! ## Totals of occurrences -/

/-- The quantities of the occurrences of a product. -/
def quantitiesOf (id : String) (os : List Occurrence) : List Float :=
  (os.filter (·.product.id = id)).map (·.quantity)

theorem ofOccurrences_append_singleton (os : List Occurrence) (o : Occurrence) :
    ofOccurrences (os ++ [o]) = (ofOccurrences os).add o.product.id o.quantity :=
  List.foldl_append

theorem ascending_ofOccurrences (os : List Occurrence) : (ofOccurrences os).Ascending := by
  induction os using List.reverseRec with
  | nil => exact List.Pairwise.nil
  | append_singleton os o ih =>
    rw [ofOccurrences_append_singleton]
    exact ih.add

/-- The total of a product is what the quantities of its occurrences come to. -/
theorem lookup_ofOccurrences (id : String) (os : List Occurrence) :
    (ofOccurrences os).lookup id = entry (quantitiesOf id os) := by
  induction os using List.reverseRec with
  | nil => rfl
  | append_singleton os o ih =>
    rw [ofOccurrences_append_singleton, (ascending_ofOccurrences os).lookup_add, quantitiesOf,
      List.filter_append, List.map_append]
    split
    · next heq =>
      subst heq
      rw [ih]
      simp [entry_append_singleton, quantitiesOf]
    · next hne =>
      rw [ih]
      simp [Ne.symm hne, quantitiesOf]

/-- Totals are told for the products that occur. -/
theorem mem_map_fst_ofOccurrences {id : String} {os : List Occurrence} :
    id ∈ (ofOccurrences os).map Prod.fst ↔ id ∈ os.map (·.product.id) := by
  rw [← not_iff_not, ← lookup_eq_none, lookup_ofOccurrences, entry_eq_none, quantitiesOf,
    List.map_eq_nil_iff, List.filter_eq_nil_iff]
  simp

/-- Leaving out some occurrences makes a difference just where it does so for the product of one
that is left out. -/
theorem ofOccurrences_filter_iff {α : Type} {f : α → Occurrence} {keeps : α → Bool} {xs : List α} :
    ofOccurrences (xs.map f) = ofOccurrences ((xs.filter keeps).map f) ↔
      ∀ x ∈ xs, keeps x = false → (ofOccurrences (xs.map f)).lookup (f x).product.id =
        (ofOccurrences ((xs.filter keeps).map f)).lookup (f x).product.id := by
  constructor
  · intro heq x _ _
    rw [heq]
  · intro hleft
    refine (ascending_ofOccurrences _).ext (ascending_ofOccurrences _) fun id => ?_
    by_cases hid : ∃ x ∈ xs, keeps x = false ∧ (f x).product.id = id
    · obtain ⟨x, hx, hout, rfl⟩ := hid
      exact hleft x hx hout
    · -- all occurrences of the product are kept
      have hkept : (xs.filter keeps).filter (fun x => (f x).product.id = id) =
          xs.filter fun x => (f x).product.id = id := by
        rw [List.filter_filter]
        refine List.filter_congr fun x hx => ?_
        by_cases hproduct : (f x).product.id = id
        · have hin : keeps x = true := by
            rw [← Bool.not_eq_false]
            exact fun hout => hid ⟨x, hx, hout, hproduct⟩
          rw [hin, Bool.and_true]
        · rw [decide_eq_false hproduct, Bool.false_and]
      have hcomp : (fun o : Occurrence => decide (o.product.id = id)) ∘ f =
          fun x => decide ((f x).product.id = id) := rfl
      rw [lookup_ofOccurrences, lookup_ofOccurrences, quantitiesOf, quantitiesOf, List.filter_map,
        List.filter_map, hcomp, hkept]

end Totals

/-! ## Totals of a tree -/

namespace Tree

variable {v : Tree}

/-- The totals over the numbers of some nodes are those of what occurs at these nodes. -/
theorem Numbered.sumOver_map (hv : v.Numbered) {ls : List Lineage}
    (hls : ∀ l ∈ ls, l ∈ v.lineages) :
    v.sumOver (ls.map (·.node.self.number)) = Totals.ofOccurrences (ls.map (·.node.self)) := by
  unfold sumOver
  dsimp only
  rw [List.filterMap_map, ← List.filterMap_eq_map]
  refine congrArg Totals.ofOccurrences (List.filterMap_congr fun l hl => ?_)
  rw [Function.comp_apply, occurrences, List.getElem?_map, hv.getElem?_lineage (hls l hl)]
  rfl

/-- The totals over all nodes are those of what occurs at the nodes. -/
theorem Numbered.sum_eq (hv : v.Numbered) :
    v.sum = Totals.ofOccurrences (v.lineages.map (·.node.self)) := by
  rw [sum, numbers_eq_map, hv.sumOver_map fun _ hl => hl]

end Tree

/-- What the totals of a finished tree take in after a pass. Those over the nodes that the pass has
gone through have the quantities that it gave them. Those over all nodes take in the others as well,
and these have what they had before the pass. So the two agree just where that makes no difference
to any product that was passed over somewhere, as when nothing was passed over. -/
theorem sum_eq_sumOver_iff (c : Catalogue) (maxDepth : Nat) (r : TreeRequest) (t : Tree)
    (h : (buildTree c maxDepth r).outcome = .ok t) (uses : List TreeUse) (depth : UInt64)
    (excludesWip : Bool) (calculator : Option Calculator) (numbers : List Nat)
    (hpass : ((t.after uses).flatten depth excludesWip calculator).2.outcome = .ok numbers) :
    let u := t.after uses
    let p := u.passOf calculator excludesWip
    let v := (u.flatten depth excludesWip calculator).1
    (∀ id, (v.sumOver numbers).lookup id = Totals.entry
      (Totals.quantitiesOf id ((v.lineages.filter p.visits).map (·.node.self)))) ∧
    (∀ id, v.sum.lookup id =
      Totals.entry (Totals.quantitiesOf id (v.lineages.map (·.node.self)))) ∧
    (∀ n, n ∉ numbers → v.occurrences[n]? = u.occurrences[n]?) ∧
    (v.sum = v.sumOver numbers ↔ ∀ l ∈ v.lineages, p.visits l = false →
      v.sum.lookup l.node.self.product.id =
        (v.sumOver numbers).lookup l.node.self.product.id) := by
  intro u p v
  have hagrees := t.agrees_after uses
  have hbuilt : t.Numbered := (built_of_buildTree h).numbers_table
  have hv : v.Numbered :=
    (hagrees.trans (u.agrees_flatten depth excludesWip calculator)).numbered hbuilt
  have hnumbers : numbers = (v.lineages.filter p.visits).map (·.node.self.number) :=
    Tree.numbers_of_pass hpass
  have hover : v.sumOver numbers =
      Totals.ofOccurrences ((v.lineages.filter p.visits).map (·.node.self)) := by
    rw [hnumbers, hv.sumOver_map fun l hl => (List.mem_filter.1 hl).1]
  refine ⟨fun id => ?_, fun id => ?_, fun n hn => ?_, ?_⟩
  · rw [hover, Totals.lookup_ofOccurrences]
  · rw [hv.sum_eq, Totals.lookup_ofOccurrences]
  · rw [Tree.occurrences, Tree.occurrences, List.getElem?_map, List.getElem?_map,
      (hagrees.counted hbuilt hpass).kept n hn]
  · rw [hover, hv.sum_eq]
    exact Totals.ofOccurrences_filter_iff

/-- Two tables are counted with all that goes into them, and then one table alone. -/
theorem table_totals :
    ∃ t, (buildTree MemoryCatalogue.joinery.catalogue 3 (.sample "table")).outcome = .ok t ∧
      let u := t.after [.setQuantity 2.0, .flatten 0 false none, .setQuantity 1.0]
      let p := u.passOf none true
      let v := (u.flatten 0 true none).1
      (u.flatten 0 true none).2.outcome = .ok [1] ∧
      (∀ id, v.sum.lookup id =
        Totals.entry (Totals.quantitiesOf id (v.lineages.map (·.node.self)))) ∧
      (v.sum = v.sumOver [1] ↔ ∀ l ∈ v.lineages, p.visits l = false →
        v.sum.lookup l.node.self.product.id =
          (v.sumOver [1]).lookup l.node.self.product.id) := by
  refine ⟨_, rfl, rfl, ?_⟩
  obtain ⟨-, hsum, -, hiff⟩ := sum_eq_sumOver_iff MemoryCatalogue.joinery.catalogue 3
    (.sample "table") _ rfl [.setQuantity 2.0, .flatten 0 false none, .setQuantity 1.0] 0 true none
    [1] rfl
  exact ⟨hsum, hiff⟩

/-- Two tables are counted with all that goes into them, and then one table alone. The totals over
the node that the second pass has gone through are those of the table, but the totals over all nodes
still have what the first pass has left at the top, the board and the frame. -/
theorem table_leftovers :
    ∃ t, (buildTree MemoryCatalogue.joinery.catalogue 3 (.sample "table")).outcome = .ok t ∧
      let u := t.after [.setQuantity 2.0, .flatten 0 false none, .setQuantity 1.0]
      let v := (u.flatten 0 true none).1
      (u.flatten 0 true none).2.outcome = .ok [1] ∧ v.sumOver [1] = [("table", 1.0)] ∧
        v.sum = [("board", 2.0), ("frame", 2.0), ("table", 1.0), ("top", 2.0)] := by
  have htotals : (buildTree MemoryCatalogue.joinery.catalogue 3
      (.sample "table")).outcome.toOption.any (fun t =>
        let u := t.after [.setQuantity 2.0, .flatten 0 false none, .setQuantity 1.0]
        let v := (u.flatten 0 true none).1
        (u.flatten 0 true none).2.outcome = .ok [1] ∧ v.sumOver [1] = [("table", 1.0)] ∧
          v.sum = [("board", 2.0), ("frame", 2.0), ("table", 1.0), ("top", 2.0)]) = true := by
    decide +kernel
  obtain ⟨t, ht, htotals⟩ := exists_of_any htotals
  exact ⟨t, ht, of_decide_eq_true htotals⟩

end Bom
