import Bom.Tree.Basic

/-!
# Lineages

A lineage is a node of a tree with the nodes above it, the nearest first: the way from the root down
to the node, read upwards. The lineages of a tree, in pre-order, have the nodes of the tree as their
ends (`Tree.lineages_map_node`), they are closed under the step into a slot
(`Node.mem_lineages_of_slot`), and each but the first comes about by such a step
(`Node.eq_or_slot_of_mem_lineages`). So a property of all nodes may be proved along the slots, and
one of all ways along the lineages.
-/

namespace Bom

/-- A node with the nodes above it, the nearest first. -/
structure Lineage where
  node : Node
  above : List Node

namespace Lineage

/-- How many nodes lie above the node. -/
def depth (l : Lineage) : Nat := l.above.length

/-- The products on the way, from the node upwards. -/
def productIds (l : Lineage) : List String := (l.node :: l.above).map (·.self.product.id)

/-- The node with the occurrence above it. -/
def placed (l : Lineage) : Placed := ⟨l.node, l.above.head?.map Node.self⟩

/-- The way continued into a node that a slot holds. -/
def child (l : Lineage) (n : Node) : Lineage := ⟨n, l.node :: l.above⟩

end Lineage

mutual

/-- The lineages of the nodes of a subtree, in pre-order. -/
def Node.lineages (above : List Node) : Node → List Lineage
  | .mk self replaced slots =>
    ⟨.mk self replaced slots, above⟩ :: slots.lineages (.mk self replaced slots :: above)

/-- The lineages of the nodes in and below slots. -/
def Slots.lineages (above : List Node) : Slots → List Lineage
  | .nil => []
  | .vacant _ rest => rest.lineages above
  | .filled _ child rest => child.lineages above ++ rest.lineages above

end

/-- The lineages of the nodes of a tree, in pre-order. -/
def Tree.lineages (t : Tree) : List Lineage := t.root.lineages []

theorem Node.lineages_eq (n : Node) (above : List Node) :
    n.lineages above = ⟨n, above⟩ :: n.slots.lineages (n :: above) := by
  cases n
  rfl

theorem Node.mem_lineages_self (n : Node) (above : List Node) : ⟨n, above⟩ ∈ n.lineages above := by
  rw [n.lineages_eq]
  exact List.mem_cons_self

/-- Slots that hold some node hold one. -/
theorem Slots.exists_of_hasNode {s : Slots} (h : s.hasNode = true) :
    ∃ child, some child ∈ s.contents := by
  obtain ⟨child, hchild⟩ := List.exists_mem_of_ne_nil _ (s.hasNode_iff.1 h)
  rw [← s.filterMap_contents, List.mem_filterMap] at hchild
  obtain ⟨content, hcontent, rfl⟩ := hchild
  exact ⟨child, hcontent⟩

/-! ## The nodes at the ends -/

mutual

/-- The lineages of a subtree end in its nodes. -/
theorem Node.lineages_map_placed (above : List Node) :
    ∀ n : Node, (n.lineages above).map Lineage.placed = n.placed (above.head?.map Node.self)
  | .mk self replaced slots => by
    rw [Node.lineages, Node.placed, List.map_cons]
    have := Slots.lineages_map_placed (.mk self replaced slots) above slots
    rw [this]
    rfl

/-- The lineages below a node end in the nodes in and below its slots. -/
theorem Slots.lineages_map_placed (n : Node) (above : List Node) :
    ∀ s : Slots, (s.lineages (n :: above)).map Lineage.placed = s.placed n.self
  | .nil => rfl
  | .vacant _ rest => rest.lineages_map_placed n above
  | .filled _ child rest => by
    rw [Slots.lineages, Slots.placed, List.map_append, child.lineages_map_placed,
      rest.lineages_map_placed]
    rfl

end

/-- The lineages of a tree end in its nodes. -/
theorem Tree.lineages_map_node (t : Tree) : t.lineages.map (·.node) = t.preorder := by
  unfold Tree.lineages Tree.preorder Node.preorder
  have := t.root.lineages_map_placed []
  change _ = t.root.placed none at this
  rw [← this, List.map_map]
  rfl

/-! ## Steps into slots -/

/-- The node of a filled slot heads lineages below the slots. -/
theorem Slots.mem_lineages_of_slot {above : List Node} {child : Node} :
    ∀ {s : Slots} {i : Nat}, s.contents[i]? = some (some child) →
      ⟨child, above⟩ ∈ s.lineages above
  | .nil, _, h => by simp [contents] at h
  | .vacant _ rest, 0, h => by simp [contents] at h
  | .vacant _ rest, i + 1, h => rest.mem_lineages_of_slot (i := i) h
  | .filled _ n rest, 0, h => by
    cases h
    exact List.mem_append_left _ (child.mem_lineages_self above)
  | .filled _ n rest, i + 1, h => List.mem_append_right _ (rest.mem_lineages_of_slot (i := i) h)

mutual

/-- A lineage of a subtree continues into the slots of its node, and stays in the subtree. -/
theorem Node.mem_lineages_of_slot {above : List Node} {l : Lineage} {i : Nat} {child : Node}
    (h : l.node.slots.contents[i]? = some (some child)) :
    ∀ {n : Node}, l ∈ n.lineages above → l.child child ∈ n.slots.lineages (n :: above)
  | .mk self replaced slots, hl => by
    rw [Node.lineages, List.mem_cons] at hl
    rcases hl with rfl | hl
    · exact Slots.mem_lineages_of_slot h
    · exact Slots.mem_lineages_of_mem h hl

/-- A lineage below slots continues into the slots of its node, and stays below them. -/
theorem Slots.mem_lineages_of_mem {above : List Node} {l : Lineage} {i : Nat} {child : Node}
    (h : l.node.slots.contents[i]? = some (some child)) :
    ∀ {s : Slots}, l ∈ s.lineages above → l.child child ∈ s.lineages above
  | .nil, hl => nomatch hl
  | .vacant _ rest, hl => Slots.mem_lineages_of_mem (s := rest) h hl
  | .filled _ n rest, hl => by
    rw [Slots.lineages, List.mem_append] at hl ⊢
    rcases hl with hl | hl
    · left
      rw [n.lineages_eq]
      exact List.mem_cons_of_mem _ (Node.mem_lineages_of_slot h hl)
    · exact .inr (Slots.mem_lineages_of_mem h hl)

end

mutual

/-- Each lineage of a subtree but the first continues another one into a slot. -/
theorem Node.eq_or_slot_of_mem_lineages {above : List Node} {l : Lineage} :
    ∀ {n : Node}, l ∈ n.lineages above →
      l = ⟨n, above⟩ ∨ ∃ up ∈ n.lineages above, ∃ i : Nat,
        up.node.slots.contents[i]? = some (some l.node) ∧ l = up.child l.node
  | .mk self replaced slots, hl => by
    rw [Node.lineages, List.mem_cons] at hl
    rcases hl with rfl | hl
    · exact .inl rfl
    · right
      rw [Node.lineages]
      rcases Slots.slot_of_mem_lineages hl with ⟨i, hi, habove⟩ | ⟨up, hup, i, hi, hl⟩
      · refine ⟨_, List.mem_cons_self, i, hi, ?_⟩
        cases l
        cases habove
        rfl
      · exact ⟨up, List.mem_cons_of_mem _ hup, i, hi, hl⟩

/-- A lineage below slots starts in one of them, or continues another one into a slot. -/
theorem Slots.slot_of_mem_lineages {above : List Node} {l : Lineage} :
    ∀ {s : Slots}, l ∈ s.lineages above →
      (∃ i : Nat, s.contents[i]? = some (some l.node) ∧ l.above = above) ∨
        ∃ up ∈ s.lineages above, ∃ i : Nat,
          up.node.slots.contents[i]? = some (some l.node) ∧ l = up.child l.node
  | .nil, hl => nomatch hl
  | .vacant _ rest, hl => by
    rcases Slots.slot_of_mem_lineages (s := rest) hl with ⟨i, hi⟩ | h
    · exact .inl ⟨i + 1, hi⟩
    · exact .inr h
  | .filled _ child rest, hl => by
    rw [Slots.lineages, List.mem_append] at hl
    rcases hl with hl | hl
    · rcases Node.eq_or_slot_of_mem_lineages hl with rfl | ⟨up, hup, h⟩
      · exact .inl ⟨0, rfl, rfl⟩
      · exact .inr ⟨up, List.mem_append_left _ hup, h⟩
    · rcases Slots.slot_of_mem_lineages hl with ⟨i, hi⟩ | ⟨up, hup, h⟩
      · exact .inl ⟨i + 1, hi⟩
      · exact .inr ⟨up, List.mem_append_right _ hup, h⟩

end

/-! ## What lies below a node -/

mutual

/-- A way in a subtree leads on from what is above the subtree. -/
theorem Node.suffix_of_mem_lineages {above : List Node} {l : Lineage} :
    ∀ {n : Node}, l ∈ n.lineages above → above <:+ l.above
  | .mk self replaced slots, hl => by
    rw [Node.lineages, List.mem_cons] at hl
    rcases hl with rfl | hl
    · exact List.suffix_refl _
    · exact (List.suffix_cons _ _).trans (Slots.suffix_of_mem_lineages hl)

/-- A way in and below slots leads on from what is above the slots. -/
theorem Slots.suffix_of_mem_lineages {above : List Node} {l : Lineage} :
    ∀ {s : Slots}, l ∈ s.lineages above → above <:+ l.above
  | .nil, hl => nomatch hl
  | .vacant _ rest, hl => Slots.suffix_of_mem_lineages (s := rest) hl
  | .filled _ child rest, hl => by
    rw [Slots.lineages, List.mem_append] at hl
    rcases hl with hl | hl
    · exact Node.suffix_of_mem_lineages hl
    · exact Slots.suffix_of_mem_lineages hl

end

mutual

/-- A node on a way in a subtree lies above the subtree, or the way leads on below it. -/
theorem Node.below_of_mem_above {above : List Node} {l : Lineage} {m : Node} (hm : m ∈ l.above) :
    ∀ {n : Node}, l ∈ n.lineages above → m ∈ above ∨
      ∃ up, ⟨m, up⟩ ∈ n.lineages above ∧ l ∈ m.slots.lineages (m :: up)
  | .mk self replaced slots, hl => by
    rw [Node.lineages, List.mem_cons] at hl
    rcases hl with rfl | hl
    · exact .inl hm
    · rw [Node.lineages]
      rcases Slots.below_of_mem_above hm hl with habove | ⟨up, hup, hbelow⟩
      · rcases List.mem_cons.1 habove with rfl | habove
        · exact .inr ⟨above, List.mem_cons_self, hl⟩
        · exact .inl habove
      · exact .inr ⟨up, List.mem_cons_of_mem _ hup, hbelow⟩

/-- A node on a way in and below slots lies above the slots, or the way leads on below it. -/
theorem Slots.below_of_mem_above {above : List Node} {l : Lineage} {m : Node} (hm : m ∈ l.above) :
    ∀ {s : Slots}, l ∈ s.lineages above → m ∈ above ∨
      ∃ up, ⟨m, up⟩ ∈ s.lineages above ∧ l ∈ m.slots.lineages (m :: up)
  | .nil, hl => nomatch hl
  | .vacant _ rest, hl => Slots.below_of_mem_above (s := rest) hm hl
  | .filled _ child rest, hl => by
    rw [Slots.lineages, List.mem_append] at hl
    rw [Slots.lineages]
    rcases hl with hl | hl
    · rcases Node.below_of_mem_above hm hl with habove | ⟨up, hup, hbelow⟩
      · exact .inl habove
      · exact .inr ⟨up, List.mem_append_left _ hup, hbelow⟩
    · rcases Slots.below_of_mem_above hm hl with habove | ⟨up, hup, hbelow⟩
      · exact .inl habove
      · exact .inr ⟨up, List.mem_append_right _ hup, hbelow⟩

end

/-! ## Parts of a way -/

/-- A node on a way other than its first one has nodes above it. -/
theorem exists_above_of_mem_dropLast {way : List Node} {n : Node} (h : n ∈ way.dropLast) :
    ∃ below above, way = below ++ n :: above ∧ above ≠ [] := by
  obtain ⟨below, rest, hsplit⟩ := List.append_of_mem h
  have hne : way ≠ [] := by
    rintro rfl
    cases h
  refine ⟨below, rest ++ [way.getLast hne], ?_, List.append_ne_nil_of_right_ne_nil _ nofun⟩
  have hway := List.dropLast_concat_getLast hne
  rw [hsplit, List.append_assoc] at hway
  exact hway.symm

/-- A way to a node leads over ways to the nodes above it. -/
theorem Tree.mem_lineages_of_append {t : Tree} {n : Node} {above : List Node} :
    ∀ {below : List Node} {l : Lineage}, l ∈ t.lineages → l.node :: l.above = below ++ n :: above →
      ⟨n, above⟩ ∈ t.lineages
  | [], ⟨_, _⟩, hl, h => by
    cases h
    exact hl
  | _ :: below, ⟨_, _⟩, hl, h => by
    obtain ⟨-, habove⟩ := List.cons_eq_cons.1 h
    rcases Node.eq_or_slot_of_mem_lineages hl with hroot | ⟨up, hup, -, -, hchild⟩
    · cases hroot
      cases below <;> cases habove
    · have hsame : up.node :: up.above = below ++ n :: above :=
        (congrArg Lineage.above hchild).symm.trans habove
      exact mem_lineages_of_append hup hsame

/-! ## The longest way -/

theorem Node.height_eq (n : Node) : n.height = n.slots.height := by
  cases n
  rfl

mutual

/-- The ways in a subtree lead on from above it and end on one of its levels. -/
theorem Node.depth_bounds {above : List Node} {l : Lineage} : ∀ {n : Node}, l ∈ n.lineages above →
    above.length ≤ l.depth ∧ l.depth ≤ above.length + n.height
  | .mk self replaced slots, hl => by
    rw [Node.lineages, List.mem_cons] at hl
    rw [Node.height]
    rcases hl with rfl | hl
    · exact ⟨Nat.le_refl _, Nat.le_add_right _ _⟩
    · have h := Slots.depth_bounds hl
      rw [List.length_cons] at h
      omega

/-- The ways in and below slots end on one of the levels that the slots reach down. -/
theorem Slots.depth_bounds {above : List Node} {l : Lineage} : ∀ {s : Slots}, l ∈ s.lineages above →
    above.length ≤ l.depth ∧ l.depth + 1 ≤ above.length + s.height
  | .nil, hl => nomatch hl
  | .vacant _ rest, hl => Slots.depth_bounds (s := rest) hl
  | .filled _ child rest, hl => by
    rw [Slots.lineages, List.mem_append] at hl
    rw [Slots.height]
    rcases hl with hl | hl
    · have h := Node.depth_bounds hl
      omega
    · have h := Slots.depth_bounds hl
      omega

end

mutual

/-- Some way in a subtree goes down all its levels. -/
theorem Node.exists_lineage_height (above : List Node) :
    ∀ n : Node, ∃ l ∈ n.lineages above, l.depth = above.length + n.height
  | .mk self replaced slots => by
    rw [Node.lineages, Node.height]
    rcases Slots.exists_lineage_height (.mk self replaced slots :: above) slots with hnil | h
    · exact ⟨_, List.mem_cons_self, by rw [hnil]; rfl⟩
    · obtain ⟨l, hl, hdepth⟩ := h
      refine ⟨l, List.mem_cons_of_mem _ hl, ?_⟩
      rw [List.length_cons] at hdepth
      omega

/-- Unless slots reach no level down, some way goes down all the levels that they reach. -/
theorem Slots.exists_lineage_height (above : List Node) :
    ∀ s : Slots, s.height = 0 ∨ ∃ l ∈ s.lineages above, l.depth + 1 = above.length + s.height
  | .nil => .inl rfl
  | .vacant _ rest => rest.exists_lineage_height above
  | .filled _ child rest => by
    right
    rw [Slots.lineages, Slots.height]
    obtain ⟨l, hl, hdepth⟩ := child.exists_lineage_height above
    by_cases hle : rest.height ≤ child.height + 1
    · refine ⟨l, List.mem_append_left _ hl, ?_⟩
      rw [Nat.max_eq_left hle]
      omega
    · rcases rest.exists_lineage_height above with hnil | ⟨l', hl', hdepth'⟩
      · omega
      · refine ⟨l', List.mem_append_right _ hl', ?_⟩
        rw [Nat.max_eq_right (by omega)]
        exact hdepth'

end

end Bom
