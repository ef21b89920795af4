import Bom.Proofs.Tree.Table

/-!
# Reading a tree off its table

A table describes a tree: a row tells the occurrence at a place, and names by their numbers what is
in its slots and what it has replaced. `Node.read` follows the numbers down from a row. For a
finished tree this gives the tree back (`Built.readOff`), because each row stands at the place that
its number names and a table has more rows than its tree has levels.
-/

namespace Bom

/-- The slots that edges and numbers stand for, if `node` tells which node has a number. -/
def Slots.read (node : Nat → Option Node) : List Edge → List (Option Nat) → Option Slots
  | [], [] => some .nil
  | edge :: edges, none :: children => do
    let rest ← Slots.read node edges children
    some (.vacant edge rest)
  | edge :: edges, some n :: children => do
    let child ← node n
    let rest ← Slots.read node edges children
    some (.filled edge child rest)
  | _, _ => none

/-- The node with a number and what lies below it, no more than the given number of levels. -/
def Node.read (rows : List Row) : Nat → Nat → Option Node
  | 0, _ => none
  | levels + 1, n => do
    let row ← rows[n]?
    let replaced ← match row.replaced with
      | none => some none
      | some v => (rows[v]?).map fun component => some component.self
    let slots ← Slots.read (Node.read rows levels) row.edges row.children
    some (.mk row.self replaced slots)

/-- The tree below the root, read off the table. -/
def Tree.readOff (t : Tree) : Option Node := Node.read t.table t.table.length 1

/-! ## Reading gives the tree back -/

mutual

/-- A subtree can be read off rows that hold its own at their places. -/
theorem Node.read_rows {rows : List Row} (parent : Option Nat) :
    ∀ {n : Node} {levels : Nat}, n.height < levels →
      (∀ row ∈ n.rows parent, rows[row.self.number]? = some row) →
      (∀ v, n.replaced = some v → (rows[v.number]?).map (·.self) = some v) →
      Node.read rows levels n.self.number = some n
  | .mk self replaced slots, levels + 1, hheight, hrows, hreplaced => by
    rw [Node.rows] at hrows
    have hself := hrows _ List.mem_cons_self
    have hslots := Slots.read_rows self.number (Nat.lt_succ_iff.1 hheight)
      fun row hrow => hrows row (List.mem_cons_of_mem _ hrow)
    change rows[self.number]? = some ⟨self, parent, replaced.map (·.number), slots.edges,
      slots.contents.map fun c => c.map (·.self.number)⟩ at hself
    change Node.read rows (levels + 1) self.number = _
    cases replaced with
    | none => simp only [Node.read, hself, hslots, Option.bind_eq_bind, Option.bind_some,
        Option.map_none]
    | some v =>
      obtain ⟨component, hcomponent, hv⟩ := Option.map_eq_some_iff.1 (hreplaced v rfl)
      simp only [Node.read, hself, hslots, Option.bind_eq_bind, Option.bind_some, Option.map_some,
        hcomponent, hv]

/-- Slots can be read off rows that hold those of their nodes at their places. -/
theorem Slots.read_rows {rows : List Row} (parent : Nat) :
    ∀ {s : Slots} {levels : Nat}, s.height ≤ levels →
      (∀ row ∈ s.rows parent, rows[row.self.number]? = some row) →
      Slots.read (Node.read rows levels) s.edges (s.contents.map fun c => c.map (·.self.number)) =
        some s
  | .nil, _, _, _ => rfl
  | .vacant edge rest, levels, hheight, hrows => by
    have := Slots.read_rows (s := rest) parent hheight hrows
    simp only [Slots.edges, Slots.contents, List.map_cons, Option.map_none, Slots.read, this]
    rfl
  | .filled edge child rest, levels, hheight, hrows => by
    rw [Slots.rows] at hrows
    rw [Slots.height] at hheight
    have hchild : Node.read rows levels child.self.number = some child := by
      refine Node.read_rows (some parent) (by omega) (fun row hrow => ?_) fun v hv => ?_
      · exact hrows row (List.mem_append_left _ (List.mem_append_right _ hrow))
      · have hmem : Row.bare (some parent) v ∈
            (child.replaced.map (Row.bare (some parent))).toList := by
          rw [hv]
          exact List.mem_singleton_self _
        have := hrows _ (List.mem_append_left _ (List.mem_append_left _ hmem))
        change rows[v.number]? = _ at this
        rw [this]
        rfl
    have hrest : Slots.read (Node.read rows levels) rest.edges _ = some rest :=
      Slots.read_rows parent (by omega) fun row hrow => hrows row (List.mem_append_right _ hrow)
    simp only [Slots.edges, Slots.contents, List.map_cons, Option.map_some, Slots.read, hchild,
      hrest]
    rfl

end

mutual

/-- A subtree has more rows than levels below its node. -/
theorem Node.height_lt_length_rows (parent : Option Nat) :
    ∀ n : Node, n.height < (n.rows parent).length
  | .mk self replaced slots => by
    rw [Node.height, Node.rows, List.length_cons]
    exact Nat.lt_succ_of_le (slots.height_le_length_rows self.number)

/-- Slots reach down no more levels than they have rows. -/
theorem Slots.height_le_length_rows (parent : Nat) : ∀ s : Slots, s.height ≤ (s.rows parent).length
  | .nil => Nat.le_refl _
  | .vacant _ rest => rest.height_le_length_rows parent
  | .filled _ child rest => by
    have hchild := child.height_lt_length_rows (some parent)
    have hrest := rest.height_le_length_rows parent
    rw [Slots.height, Slots.rows, List.length_append, List.length_append]
    omega

end

/-- Reading the table of a finished tree gives the tree back. -/
theorem Built.readOff {c : Catalogue} {maxDepth : Nat} {r : TreeRequest} {t : Tree}
    (h : Built c maxDepth r t) : t.readOff = some t.root := by
  unfold Tree.readOff
  rw [← h.root_number]
  -- each level has a row of its own, so as many levels as rows are enough
  have hheight : t.root.height < t.table.length := by
    have := t.root.height_lt_length_rows none
    rw [Tree.table, List.length_cons]
    omega
  refine Node.read_rows none hheight (fun row hrow => ?_) fun v hv => ?_
  · exact h.getElem?_table.2 ⟨List.mem_cons_of_mem _ hrow, rfl⟩
  · -- what the root has replaced, if anything, is the requested product, whose row is the first
    obtain ⟨last, hrun⟩ := h.run
    obtain ⟨_, _, -, -, -, -, hreplaced, -⟩ := hrun.inv
    rw [hreplaced, Tree.redirected] at hv
    split at hv
    · cases hv
    · cases hv
      have hrow : t.table[t.requested.number]? = some (Row.bare none t.requested) :=
        h.getElem?_table.2 ⟨List.mem_cons_self, rfl⟩
      rw [hrow]
      rfl

end Bom
