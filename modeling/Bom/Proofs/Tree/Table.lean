import Mathlib.Data.List.Flatten
import Mathlib.Data.List.Perm.Basic
import Bom.Proofs.Catalogue
import Bom.Proofs.Tree.Reach
import Bom.Tree.Table

/-!
# The table of a finished tree

Numbers are given out in turn: the requested product has 0, the root 1, a replaced component comes
just before its replacement, and a subtree is complete before the next slot is begun. So the rows of
a finished tree stand at the places that their numbers name (`Built.numbers_table`), and a number in
a row may be followed by looking up the place. `Tree.Arranged` puts together what such a table is
like, and `buildTree_arranged` says that every finished tree has one.

The rows below the root are listed along the lineages (`Tree.table_eq`). What a row says is then
read off what the unfolding did at the node, which `Built.reaches` tells.
-/

namespace Bom

/-! ## The rows along the lineages -/

/-- The number of the node above the end of a way. -/
def Lineage.parent (l : Lineage) : Option Nat := l.above.head?.map (·.self.number)

/-- The rows of a node: that of the component which it has replaced, if it has, and its own. -/
def Lineage.rows (l : Lineage) : List Row :=
  (l.node.replaced.map (Row.bare l.parent)).toList ++ [l.node.row l.parent]

@[simp] theorem Node.row_number (parent : Option Nat) (n : Node) :
    (n.row parent).self.number = n.self.number := rfl

theorem Node.rows_eq (n : Node) (parent : Option Nat) :
    n.rows parent = n.row parent :: n.slots.rows n.self.number := by
  cases n
  rfl

mutual

/-- The rows of a subtree are those along its lineages, once the component that the node has
replaced is put in front. -/
theorem Node.replaced_append_rows (above : List Node) :
    ∀ n : Node, (n.replaced.map (Row.bare (above.head?.map (·.self.number)))).toList ++
      n.rows (above.head?.map (·.self.number)) = (n.lineages above).flatMap Lineage.rows
  | .mk self replaced slots => by
    have := Slots.rows_eq_flatMap (.mk self replaced slots) above slots
    rw [Node.rows_eq, Node.lineages_eq, List.flatMap_cons, Node.slots, ← this, Lineage.rows,
      List.append_assoc]
    rfl

/-- The rows below the slots of a node are those along the lineages below it. -/
theorem Slots.rows_eq_flatMap (n : Node) (above : List Node) :
    ∀ s : Slots, s.rows n.self.number = (s.lineages (n :: above)).flatMap Lineage.rows
  | .nil => rfl
  | .vacant _ rest => rest.rows_eq_flatMap n above
  | .filled _ child rest => by
    have := child.replaced_append_rows (n :: above)
    rw [Slots.rows, Slots.lineages, List.flatMap_append, ← this, ← rest.rows_eq_flatMap n above]
    rfl

end

namespace Tree

/-- The lineages that go on below the root. -/
def lower (t : Tree) : List Lineage := t.root.slots.lineages [t.root]

theorem lineages_eq (t : Tree) : t.lineages = ⟨t.root, []⟩ :: t.lower := t.root.lineages_eq []

theorem mem_lineages_of_mem_lower {t : Tree} {l : Lineage} (hl : l ∈ t.lower) : l ∈ t.lineages := by
  rw [t.lineages_eq]
  exact List.mem_cons_of_mem _ hl

/-- A node below the root stands in a slot. -/
theorem slot_of_mem_lower {t : Tree} {l : Lineage} (hl : l ∈ t.lower) :
    ∃ up ∈ t.lineages, ∃ i : Nat, up.node.slots.contents[i]? = some (some l.node) := by
  rw [t.lineages_eq]
  rcases Slots.slot_of_mem_lineages hl with ⟨i, hi, -⟩ | ⟨up, hup, i, hi, -⟩
  · exact ⟨⟨t.root, []⟩, List.mem_cons_self, i, hi⟩
  · exact ⟨up, List.mem_cons_of_mem _ hup, i, hi⟩

/-- The rows of a tree: the requested product, the root, and those along the lineages below it. -/
theorem table_eq (t : Tree) :
    t.table = Row.bare none t.requested :: t.root.row none :: t.lower.flatMap Lineage.rows := by
  rw [table, Node.rows_eq, t.root.slots.rows_eq_flatMap t.root []]
  rfl

/-- The numbers in pre-order are those at the ends of the lineages. -/
theorem numbers_eq_map (t : Tree) : t.numbers = t.lineages.map (·.node.self.number) := by
  rw [numbers, ← t.lineages_map_node, List.map_map]
  rfl

theorem numbers_eq (t : Tree) :
    t.numbers = t.root.self.number :: t.lower.map (·.node.self.number) := by
  rw [t.numbers_eq_map, t.lineages_eq, List.map_cons]

/-- The numbers of the components that were replaced below the root. -/
def replacedNumbers (t : Tree) : List Nat :=
  t.lower.flatMap fun l => (l.node.replaced.map (·.number)).toList

end Tree

/-! ## Numbers are given out in turn -/

namespace Unfolding

variable {u : Unfolding}

mutual

/-- What lies below a node is numbered from the next number on. -/
theorem Expands.numbers {room : Nat} {ids : List String} {self : Occurrence}
    {replaced : Option Occurrence} {next last : Nat} {node : Node} :
    u.Expands room ids self replaced next node last → ∃ k, last = next + k ∧
      (node.slots.rows node.self.number).map (·.self.number) = List.range' next k
  | .mk _ _ hfill => hfill.numbers _

/-- What lies below a place is numbered from the next number on. -/
theorem Settles.numbers {room : Nat} {ids : List String} {self : Occurrence}
    {replaced : Option Occurrence} {next last : Nat} {node : Node} :
    u.Settles room ids self replaced next node last → ∃ k, last = next + k ∧
      (node.slots.rows node.self.number).map (·.self.number) = List.range' next k
  | .deep _ hexpand => hexpand.numbers
  | .flat _ => ⟨0, rfl, rfl⟩

/-- What lies in and below slots is numbered from the next number on. -/
theorem Fills.numbers {room : Nat} {ids : List String} {s : Surroundings} {edges : List Edge}
    {next last : Nat} {slots : Slots} (parent : Nat) :
    u.Fills room ids s edges next slots last → ∃ k, last = next + k ∧
      (slots.rows parent).map (·.self.number) = List.range' next k
  | .nil => ⟨0, rfl, rfl⟩
  | .vacant _ hrest => hrest.numbers parent
  | .plain _ hchild hrest => by
    -- the child's number, then those below it, then those of the other slots
    obtain ⟨k, rfl, hk⟩ := hchild.numbers
    obtain ⟨m, rfl, hm⟩ := hrest.numbers parent
    obtain ⟨-, hnumber, hreplaced⟩ := hchild.self_eq
    refine ⟨k + m + 1, by omega, ?_⟩
    rw [Slots.rows, hreplaced, Node.rows_eq, List.map_append, List.map_append, List.map_cons, hk,
      hm, List.range'_succ, ← List.range'_append_1, Node.row_number, hnumber]
    rfl
  | .replacing _ hchild hrest => by
    obtain ⟨k, rfl, hk⟩ := hchild.numbers
    obtain ⟨m, rfl, hm⟩ := hrest.numbers parent
    obtain ⟨-, hnumber, hreplaced⟩ := hchild.self_eq
    refine ⟨k + m + 2, by omega, ?_⟩
    rw [Slots.rows, hreplaced, Node.rows_eq, List.map_append, List.map_append, List.map_cons, hk,
      hm, List.range'_succ, List.range'_succ, ← List.range'_append_1, Node.row_number, hnumber]
    rfl

end

end Unfolding

/-! ## The rows of a finished tree -/

/-- The rows of the tree have the numbers from 0 on, in order. -/
def Tree.Numbered (t : Tree) : Prop :=
  t.table.map (·.self.number) = List.range t.table.length

/-- Where rows have the numbers from 0 on, each stands at the place that its number names. -/
theorem Row.getElem?_of_numbers {rows : List Row}
    (h : rows.map (·.self.number) = List.range rows.length) {n : Nat} {row : Row} :
    rows[n]? = some row ↔ row ∈ rows ∧ row.self.number = n := by
  have hplace : ∀ {m : Nat} {row : Row}, rows[m]? = some row → row.self.number = m := by
    intro m row hrow
    have hm : m < rows.length := (List.getElem?_eq_some_iff.1 hrow).1
    have := congrArg (fun numbers => numbers[m]?) h
    rw [List.getElem?_map, hrow, List.getElem?_range hm] at this
    exact Option.some.inj this
  constructor
  · intro hrow
    exact ⟨List.mem_of_getElem? hrow, hplace hrow⟩
  · rintro ⟨hmem, rfl⟩
    obtain ⟨m, hm⟩ := List.getElem?_of_mem hmem
    rwa [hplace hm]

theorem Tree.Numbered.getElem?_table {t : Tree} (h : t.Numbered) {n : Nat} {row : Row} :
    t.table[n]? = some row ↔ row ∈ t.table ∧ row.self.number = n :=
  Row.getElem?_of_numbers h

section

variable {c : Catalogue} {maxDepth : Nat} {r : TreeRequest} {t : Tree}

theorem Built.root_number (h : Built c maxDepth r t) : t.root.self.number = 1 := by
  obtain ⟨last, hrun⟩ := h.run
  obtain ⟨_, _, -, -, -, hself, -⟩ := hrun.inv
  rw [hself]
  rfl

/-- The rows of a finished tree have the numbers from 0 on, in order. -/
theorem Built.numbers_table (h : Built c maxDepth r t) :
    t.table.map (·.self.number) = List.range t.table.length := by
  obtain ⟨last, hrun⟩ := h.run
  obtain ⟨k, -, hk⟩ := hrun.numbers
  rw [t.root.slots.rows_eq_flatMap t.root []] at hk
  have hlength : t.table.length = k + 2 := by
    have := congrArg List.length hk
    rw [List.length_map, List.length_range'] at this
    rw [t.table_eq, List.length_cons, List.length_cons, ← this]
    rfl
  rw [hlength, List.range_eq_range', List.range'_succ, List.range'_succ, t.table_eq, List.map_cons,
    List.map_cons]
  change t.requested.number :: t.root.self.number :: (List.flatMap _ t.lower).map _ = _
  rw [h.root_number, h.requested]
  exact congrArg (fun rest => 0 :: 1 :: rest) hk

/-- A row stands at the place that its number names. -/
theorem Built.getElem?_table (h : Built c maxDepth r t) {n : Nat} {row : Row} :
    t.table[n]? = some row ↔ row ∈ t.table ∧ row.self.number = n :=
  Tree.Numbered.getElem?_table h.numbers_table

/-- The rows of a node are its own and that of the component which it has replaced. -/
theorem Lineage.mem_rows {l : Lineage} {row : Row} : row ∈ l.rows ↔
    (∃ v, l.node.replaced = some v ∧ row = Row.bare l.parent v) ∨ row = l.node.row l.parent := by
  rw [rows, List.mem_append, List.mem_singleton, Option.mem_toList, Option.map_eq_some_iff]
  constructor
  · rintro (⟨v, hv, rfl⟩ | hrow)
    · exact .inl ⟨v, hv, rfl⟩
    · exact .inr hrow
  · rintro (⟨v, hv, rfl⟩ | hrow)
    · exact .inl ⟨v, hv, rfl⟩
    · exact .inr hrow

theorem Lineage.rows_map_number (l : Lineage) : l.rows.map (·.self.number) =
    (l.node.replaced.map (·.number)).toList ++ [l.node.self.number] := by
  rw [rows, List.map_append]
  cases l.node.replaced <;> rfl

theorem Tree.table_map_number (t : Tree) : t.table.map (·.self.number) =
    t.requested.number :: t.root.self.number :: t.lower.flatMap fun l =>
      (l.node.replaced.map (·.number)).toList ++ [l.node.self.number] := by
  rw [t.table_eq, List.map_cons, List.map_cons, List.map_flatMap]
  simp only [Lineage.rows_map_number]
  rfl

/-- The rows of the nodes below the root are rows of the tree. -/
theorem Tree.mem_table_of_mem_lower {l : Lineage} {row : Row} (hl : l ∈ t.lower)
    (hrow : row ∈ l.rows) : row ∈ t.table := by
  rw [t.table_eq]
  exact List.mem_cons_of_mem _ (List.mem_cons_of_mem _ (List.mem_flatMap.2 ⟨l, hl, hrow⟩))

/-- A row is that of a node, or says only what occurs there. -/
theorem Tree.eq_row_of_mem_table {row : Row} (hrow : row ∈ t.table) :
    (∃ l ∈ t.lineages, row = l.node.row l.parent) ∨ ∃ parent o, row = Row.bare parent o := by
  rw [t.table_eq, List.mem_cons, List.mem_cons, List.mem_flatMap] at hrow
  rw [t.lineages_eq]
  rcases hrow with rfl | rfl | ⟨l, hl, hrow⟩
  · exact .inr ⟨none, t.requested, rfl⟩
  · exact .inl ⟨⟨t.root, []⟩, List.mem_cons_self, rfl⟩
  · rcases Lineage.mem_rows.1 hrow with ⟨v, -, rfl⟩ | rfl
    · exact .inr ⟨l.parent, v, rfl⟩
    · exact .inl ⟨l, List.mem_cons_of_mem _ hl, rfl⟩

/-! ## Which numbers are in the pre-order -/

/-- The rows number the requested product, the nodes, and the components that were replaced. -/
theorem Tree.table_map_number_perm (t : Tree) : (t.table.map (·.self.number)).Perm
    (t.requested.number :: (t.numbers ++ t.replacedNumbers)) := by
  rw [t.table_map_number, t.numbers_eq, List.map_eq_flatMap, List.cons_append]
  refine (List.Perm.trans ?_ List.perm_append_comm).cons _ |>.cons _
  exact (List.flatMap_append_perm _ _ _).symm

/-- The numbers of the nodes ascend from 1. -/
theorem Built.numbers_sorted (h : Built c maxDepth r t) : (0 :: t.numbers).Pairwise (· < ·) := by
  have hsub : (t.requested.number :: t.numbers).Sublist (t.table.map (·.self.number)) := by
    rw [t.table_map_number, t.numbers_eq, List.map_eq_flatMap]
    refine ((List.Sublist.flatMap_right _ fun l _ => ?_).cons_cons _).cons_cons _
    exact List.sublist_append_right _ _
  rw [h.numbers_table, h.requested] at hsub
  exact List.pairwise_lt_range.sublist hsub

/-- No two nodes of a finished tree have the same number. -/
theorem Built.nodup_numbers (h : Built c maxDepth r t) :
    (t.lineages.map (·.node.self.number)).Nodup := by
  rw [← t.numbers_eq_map]
  exact h.numbers_sorted.of_cons.imp Nat.ne_of_lt

/-- The numbers of the nodes are those of the rows, but for the requested product and for the
components that were replaced. -/
theorem Built.mem_numbers (h : Built c maxDepth r t) {n : Nat} :
    n ∈ t.numbers ↔ n < t.table.length ∧ n ≠ 0 ∧ n ∉ t.replacedNumbers := by
  have hperm := t.table_map_number_perm
  rw [h.numbers_table, h.requested] at hperm
  change List.Perm _ (0 :: (t.numbers ++ t.replacedNumbers)) at hperm
  -- no number is given out twice, so a node has none that a replaced component has
  have hnodup := hperm.nodup_iff.1 List.nodup_range
  rw [List.nodup_cons, List.mem_append, List.nodup_append] at hnodup
  obtain ⟨hzero, -, -, hdisjoint⟩ := hnodup
  have hmem : n < t.table.length ↔ n = 0 ∨ n ∈ t.numbers ∨ n ∈ t.replacedNumbers := by
    rw [← List.mem_range, hperm.mem_iff, List.mem_cons, List.mem_append]
  rw [hmem]
  constructor
  · intro hn
    refine ⟨.inr (.inl hn), ?_, fun hreplaced => hdisjoint n hn n hreplaced rfl⟩
    rintro rfl
    exact hzero (.inl hn)
  · rintro ⟨hn | hn | hn, hpos, hreplaced⟩
    · exact absurd hn hpos
    · exact hn
    · exact absurd hn hreplaced

/-! ## Links between rows -/

/-- A node comes before the nodes in its slots. -/
theorem Unfolding.Reaches.number_lt {u : Unfolding} {limit : Nat} {l : Lineage}
    (h : u.Reaches limit l) {i : Nat} {child : Node}
    (hi : l.node.slots.contents[i]? = some (some child)) :
    l.node.self.number < child.self.number := by
  cases h with
  | left _ _ => simp [Node.slots, Slots.contents] at hi
  | @expanded _ _ self _ next _ _ hexpand _ _ _ hnext =>
    obtain ⟨k, -, hnumbers⟩ := hexpand.numbers
    obtain ⟨_, _, -, -, -, hself, -, -⟩ := hexpand.inv
    have hrow : child.row (some l.node.self.number) ∈ l.node.slots.rows l.node.self.number := by
      rw [l.node.slots.rows_eq_flatMap l.node l.above]
      exact List.mem_flatMap.2
        ⟨l.child child, Slots.mem_lineages_of_slot hi, Lineage.mem_rows.2 (.inr rfl)⟩
    have hmem : child.self.number ∈ List.range' next k := by
      rw [← hnumbers]
      exact List.mem_map_of_mem hrow
    have hnode : l.node.self.number = self.number := by rw [hself]
    have := (List.mem_range'_1.1 hmem).1
    omega

/-- A node below the root stands in the slot of an edge. -/
theorem Built.seats (h : Built c maxDepth r t) {l : Lineage} (hl : l ∈ t.lower) :
    ∃ edge, (t.unfolding c maxDepth).Seats edge l.node := by
  obtain ⟨up, hmem, i, hi⟩ := Tree.slot_of_mem_lower hl
  obtain ⟨edge, -, hseats⟩ := (h.reaches up hmem).slot hi
  exact ⟨edge, hseats⟩

/-- A slot of a node names the row of a later node, which is reached by the edge of the slot. -/
theorem Built.child_row (h : Built c maxDepth r t) {l : Lineage} (hl : l ∈ t.lineages) {i m : Nat}
    (hi : (l.node.row l.parent).children[i]? = some (some m)) :
    l.node.self.number < m ∧ ∃ below edge, t.table[m]? = some below ∧
      below.parent = some l.node.self.number ∧
      (l.node.row l.parent).edges[i]? = some edge ∧ below.self.edge = some edge := by
  rw [Node.row, List.getElem?_map, Option.map_eq_some_iff] at hi
  obtain ⟨content, hcontent, hm⟩ := hi
  obtain ⟨child, rfl, rfl⟩ := Option.map_eq_some_iff.1 hm
  obtain ⟨edge, hedge, hseats⟩ := (h.reaches l hl).slot hcontent
  refine ⟨(h.reaches l hl).number_lt hcontent, child.row (some l.node.self.number), edge, ?_, rfl,
    hedge, hseats.reached⟩
  have hlower : l.child child ∈ t.lower := Node.mem_lineages_of_slot hcontent hl
  exact h.getElem?_table.2
    ⟨Tree.mem_table_of_mem_lower hlower (Lineage.mem_rows.2 (.inr rfl)), rfl⟩

/-- A row that is not the root's and has replaced something is that of a node below the root. -/
theorem Built.lower_of_replaced (h : Built c maxDepth r t) {n v : Nat} {row : Row} (hn : n ≠ 1)
    (hrow : t.table[n]? = some row) (hv : row.replaced = some v) :
    ∃ l ∈ t.lower, ∃ o, row = l.node.row l.parent ∧ l.node.replaced = some o ∧ o.number = v := by
  obtain ⟨hmem, hnumber⟩ := h.getElem?_table.1 hrow
  rcases t.eq_row_of_mem_table hmem with ⟨l, hl, rfl⟩ | ⟨parent, o, rfl⟩
  · obtain ⟨o, ho, hov⟩ := Option.map_eq_some_iff.1 hv
    rw [t.lineages_eq, List.mem_cons] at hl
    rcases hl with rfl | hl
    · exact absurd (hnumber.symm.trans h.root_number) hn
    · exact ⟨l, hl, o, rfl, ho, hov⟩
  · cases hv

/-- The numbers of replaced components are those that rows name, the root's aside. -/
theorem Built.mem_replacedNumbers (h : Built c maxDepth r t) {v : Nat} : v ∈ t.replacedNumbers ↔
    ∃ n row, n ≠ 1 ∧ t.table[n]? = some row ∧ row.replaced = some v := by
  constructor
  · intro hv
    obtain ⟨l, hl, hv⟩ := List.mem_flatMap.1 hv
    rw [Option.mem_toList] at hv
    refine ⟨l.node.self.number, l.node.row l.parent, ?_, ?_, hv⟩
    · have hsorted := h.numbers_sorted.of_cons
      rw [t.numbers_eq, h.root_number, List.pairwise_cons] at hsorted
      have := hsorted.1 _ (List.mem_map_of_mem hl)
      omega
    · exact h.getElem?_table.2
        ⟨Tree.mem_table_of_mem_lower hl (Lineage.mem_rows.2 (.inr rfl)), rfl⟩
  · rintro ⟨n, row, hn, hrow, hv⟩
    obtain ⟨l, hl, o, -, ho, rfl⟩ := h.lower_of_replaced hn hrow hv
    refine List.mem_flatMap.2 ⟨l, hl, ?_⟩
    rw [ho]
    exact List.mem_singleton_self _

end

/-! ## The arrangement -/

/-- How the table of a finished tree is arranged. Rows name each other by their places. -/
structure Tree.Arranged (t : Tree) : Prop where
  /-- a row stands at the place that its number names -/
  numbered : ∀ n (row : Row), t.table[n]? = some row → row.self.number = n
  /-- the root has number 1 -/
  root : t.table[1]? = some (t.root.row none)
  /-- there is one slot for each edge -/
  slots : ∀ row ∈ t.table, row.edges.length = row.children.length
  /-- edges ascend -/
  ascending : ∀ row ∈ t.table, row.edges.Pairwise fun a b => a.sequence ≤ b.sequence
  /-- a slot names a later row, which names the row of the slot and the edge of the slot -/
  child : ∀ n (row : Row) (i m : Nat), t.table[n]? = some row →
    row.children[i]? = some (some m) → n < m ∧ ∃ (below : Row) (edge : Edge),
      t.table[m]? = some below ∧ below.parent = some n ∧ row.edges[i]? = some edge ∧
        below.self.edge = some edge
  /-- the numbers ascend in pre-order -/
  preorder_sorted : t.numbers.Pairwise (· < ·)
  /-- the pre-order has all rows, but for the first one and those that a row other than the root
  has replaced -/
  mem_preorder : ∀ n, n ∈ t.numbers ↔ n < t.table.length ∧ n ≠ 0 ∧
    ¬ ∃ (m : Nat) (row : Row), m ≠ 1 ∧ t.table[m]? = some row ∧ row.replaced = some n
  /-- below the root only explosions replace anything, and they replace a virtual component, whose
  row comes just before, stands in the same place and has nothing below it -/
  replaced : ∀ n (row : Row) v, n ≠ 1 → t.table[n]? = some row → row.replaced = some v →
    t.mode.isExplosion = true ∧ n = v + 1 ∧ ∃ component : Row, t.table[v]? = some component ∧
      component.self.product.isVirtual = true ∧ component.parent = row.parent ∧
      component.self.edge = row.self.edge ∧ component.edges = [] ∧ component.children = [] ∧
      component.replaced = none
  /-- the root has replaced the requested product just when another one is made in its place -/
  redirected : (t.root.row none).replaced = some 0 ↔ t.manufacturedId ≠ t.requested.product.id

section

variable {c : Catalogue} {maxDepth : Nat} {r : TreeRequest} {t : Tree}

/-- The root has replaced the requested product just when another one is made in its place. -/
theorem Built.redirected (h : Built c maxDepth r t) :
    (t.root.row none).replaced = some 0 ↔ t.manufacturedId ≠ t.requested.product.id := by
  rw [Node.row, h.root_replaced_eq, Tree.redirected]
  by_cases hsame : t.manufacturedId = t.requested.product.id
  · rw [if_pos hsame]
    simp [hsame]
  · rw [if_neg hsame, h.requested]
    simp [hsame, Occurrence.detached]

/-- Where the catalogue answers by id, another product is made just when the product at the root is
another one. -/
theorem Built.manufactured_ne_iff (h : Built c maxDepth r t) (hc : c.AnswersById) :
    t.manufacturedId ≠ t.requested.product.id ↔ t.root.self.product ≠ t.requested.product := by
  constructor
  · intro hother hroot
    have hid := hc _ _ (h.other hother)
    rw [hroot] at hid
    exact hother hid.symm
  · intro hroot hsame
    exact hroot (h.own hsame)

/-- The edges in a row ascend. -/
theorem Built.edges_sorted (h : Built c maxDepth r t) {row : Row} (hrow : row ∈ t.table) :
    row.edges.Pairwise fun a b => a.sequence ≤ b.sequence := by
  rcases t.eq_row_of_mem_table hrow with ⟨l, hl, rfl⟩ | ⟨parent, o, rfl⟩
  · exact (h.reaches l hl).edges_sorted
  · exact .nil

/-- A slot in a row names a later row, which names the row of the slot and the edge of the slot. -/
theorem Built.child (h : Built c maxDepth r t) {n i m : Nat} {row : Row}
    (hrow : t.table[n]? = some row) (hi : row.children[i]? = some (some m)) :
    n < m ∧ ∃ (below : Row) (edge : Edge), t.table[m]? = some below ∧ below.parent = some n ∧
      row.edges[i]? = some edge ∧ below.self.edge = some edge := by
  obtain ⟨hmem, rfl⟩ := h.getElem?_table.1 hrow
  rcases t.eq_row_of_mem_table hmem with ⟨l, hl, rfl⟩ | ⟨parent, o, rfl⟩
  · exact h.child_row hl hi
  · cases hi

/-- A row other than the root's that has replaced something comes just after the row of a virtual
component, which stands in the same place and has nothing below it. -/
theorem Built.replaced (h : Built c maxDepth r t) {n v : Nat} {row : Row} (hn : n ≠ 1)
    (hrow : t.table[n]? = some row) (hv : row.replaced = some v) :
    t.mode.isExplosion = true ∧ n = v + 1 ∧ ∃ component : Row, t.table[v]? = some component ∧
      component.self.product.isVirtual = true ∧ component.parent = row.parent ∧
      component.self.edge = row.self.edge ∧ component.edges = [] ∧ component.children = [] ∧
      component.replaced = none := by
  obtain ⟨l, hl, o, rfl, ho, rfl⟩ := h.lower_of_replaced hn hrow hv
  obtain ⟨-, hnumber⟩ := h.getElem?_table.1 hrow
  obtain ⟨edge, hseats⟩ := h.seats hl
  obtain ⟨hmode, hvirtual, hedge, hnext⟩ := hseats.replaced o ho
  refine ⟨hmode, hnumber.symm.trans hnext, Row.bare l.parent o, ?_, hvirtual, rfl,
    hedge.trans hseats.reached.symm, rfl, rfl, rfl⟩
  exact h.getElem?_table.2
    ⟨Tree.mem_table_of_mem_lower hl (Lineage.mem_rows.2 (.inl ⟨o, ho, rfl⟩)), rfl⟩

/-- The table of a finished tree is arranged. -/
theorem Built.arranged (h : Built c maxDepth r t) : t.Arranged where
  numbered _ _ hrow := (h.getElem?_table.1 hrow).2
  root := by
    refine h.getElem?_table.2 ⟨?_, h.root_number⟩
    rw [t.table_eq]
    exact List.mem_cons_of_mem _ List.mem_cons_self
  slots row hrow := by
    rcases t.eq_row_of_mem_table hrow with ⟨l, -, rfl⟩ | ⟨parent, o, rfl⟩
    · simp [Node.row]
    · rfl
  ascending _ hrow := h.edges_sorted hrow
  child _ _ _ _ hrow hi := h.child hrow hi
  preorder_sorted := h.numbers_sorted.of_cons
  mem_preorder n := by rw [h.mem_numbers, h.mem_replacedNumbers]
  replaced _ _ _ hn hrow hv := h.replaced hn hrow hv
  redirected := h.redirected

end

/-- The table of a finished tree is arranged, and where the catalogue answers by id, as every
backend does, the root has replaced the requested product just when it is another product. -/
theorem buildTree_arranged (c : Catalogue) (maxDepth : Nat) (r : TreeRequest) (t : Tree)
    (h : (buildTree c maxDepth r).outcome = .ok t) :
    t.Arranged ∧ (c.AnswersById →
      ((t.root.row none).replaced = some 0 ↔ t.root.self.product ≠ t.requested.product)) := by
  have hbuilt := built_of_buildTree h
  refine ⟨hbuilt.arranged, fun hc => ?_⟩
  rw [hbuilt.redirected, hbuilt.manufactured_ne_iff hc]

/-- The table of the bicycle is arranged. -/
theorem bicycle_arranged :
    ∃ t, (buildTree MemoryCatalogue.bicycles.catalogue 3 (.sample "bicycle")).outcome = .ok t ∧
      t.Arranged ∧
        ((t.root.row none).replaced = some 0 ↔ t.root.self.product ≠ t.requested.product) := by
  refine ⟨_, rfl, ?_⟩
  have h := buildTree_arranged MemoryCatalogue.bicycles.catalogue 3 (.sample "bicycle") _ rfl
  exact ⟨h.1, h.2 MemoryCatalogue.bicycles.answersById⟩

end Bom
