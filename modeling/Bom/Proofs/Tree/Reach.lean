import Bom.Proofs.Tree.Limit
import Bom.Proofs.Tree.Lineage

/-!
# What holds of every node that an unfolding comes to

`Unfolding.Reaches` says how an unfolding came to a node: it expanded the node, or left it as it was
because the mode does not descend to it, and either way the room that was left and the products that
it kept in mind are those of the way down to the node. `Expands.reaches` carries this through a
whole run. What a finished tree is like at each of its nodes follows from it, without another
induction:

* `Unfolding.Reaches.edges_sorted`, `Unfolding.Reaches.slot`: edges ascend, and each slot holds what
  its edge leads to.
* `buildTree_lineages_nodup`: no product occurs below itself, and no node lies too deep.
-/

namespace Bom

namespace Unfolding

/-- How an unfolding with the given room at the root came to a node. -/
inductive Reaches (u : Unfolding) (limit : Nat) : Lineage → Prop
  | expanded {room above self replaced next last} {l : Lineage} :
      u.Expands room above self replaced next l.node last →
      above = l.above.map (·.self.product.id) → above.Nodup → room + l.depth = limit →
      self.number < next → u.Reaches limit l
  | left {room self replaced above} :
      u.descends self replaced = .ok false → room + above.length = limit →
      u.Reaches limit ⟨.mk self replaced .nil, above⟩

variable {u : Unfolding}

/-! ## Along a run -/

mutual

/-- An unfolding comes to every node that it makes. -/
theorem Expands.reaches {room : Nat} {ids : List String} {self : Occurrence}
    {replaced : Option Occurrence} {next last : Nat} {node : Node} {above : List Node} :
    u.Expands room ids self replaced next node last →
      ids = above.map (·.self.product.id) → ids.Nodup → self.number < next →
      ∀ l ∈ node.lineages above, u.Reaches (room + above.length) l
  | .mk hfresh hedges hfill, hids, hnodup, hnext => by
    intro l hl
    rw [Node.lineages, List.mem_cons] at hl
    rcases hl with rfl | hl
    · exact .expanded (.mk hfresh hedges hfill) hids hnodup rfl hnext
    · -- the products kept in mind below the node are those of the nodes above
      have hids (slots : Slots) : self.product.id :: ids =
          (.mk { self with bomType := some u.bomType } replaced slots :: above).map
            (·.self.product.id) := by
        rw [hids]
        rfl
      have := hfill.reaches (hids _) (List.nodup_cons.2 ⟨hfresh, hnodup⟩) l hl
      rw [List.length_cons] at this
      rwa [Nat.add_right_comm, Nat.add_assoc]

/-- An unfolding comes to every node at and below a place that it settles. -/
theorem Settles.reaches {room : Nat} {ids : List String} {self : Occurrence}
    {replaced : Option Occurrence} {next last : Nat} {node : Node} {above : List Node} :
    u.Settles room ids self replaced next node last →
      ids = above.map (·.self.product.id) → ids.Nodup → self.number < next →
      ∀ l ∈ node.lineages above, u.Reaches (room + above.length) l
  | .deep _ hexpand, hids, hnodup, hnext => hexpand.reaches hids hnodup hnext
  | .flat hdescends, _, _, _ => by
    intro l hl
    rw [Node.lineages, Slots.lineages, List.mem_singleton] at hl
    subst hl
    exact .left hdescends rfl

/-- An unfolding comes to every node in and below the slots that it fills. -/
theorem Fills.reaches {room : Nat} {ids : List String} {s : Surroundings} {edges : List Edge}
    {next last : Nat} {slots : Slots} {above : List Node} :
    u.Fills room ids s edges next slots last →
      ids = above.map (·.self.product.id) → ids.Nodup →
      ∀ l ∈ slots.lineages above, u.Reaches (room + above.length) l
  | .nil, _, _ => by
    intro l hl
    cases hl
  | .vacant _ hrest, hids, hnodup => hrest.reaches hids hnodup
  | .plain _ hchild hrest, hids, hnodup => by
    intro l hl
    rw [Slots.lineages, List.mem_append] at hl
    rcases hl with hl | hl
    · exact hchild.reaches hids hnodup (Nat.lt_succ_self _) l hl
    · exact hrest.reaches hids hnodup l hl
  | .replacing _ hchild hrest, hids, hnodup => by
    intro l hl
    rw [Slots.lineages, List.mem_append] at hl
    rcases hl with hl | hl
    · exact hchild.reaches hids hnodup (Nat.lt_succ_self _) l hl
    · exact hrest.reaches hids hnodup l hl

end

/-! ## At a node -/

/-- What holds of the node in the slot of an edge. -/
structure Seats (u : Unfolding) (edge : Edge) (n : Node) : Prop where
  reached : n.self.edge = some edge
  replaced : ∀ v, n.replaced = some v → u.mode.isExplosion = true ∧ v.product.isVirtual = true ∧
    v.edge = some edge ∧ n.self.number = v.number + 1

/-- A place keeps its occurrence, but for the type of bill, and what it has replaced. -/
theorem Settles.self_eq {room : Nat} {ids : List String} {self : Occurrence}
    {replaced : Option Occurrence} {next last : Nat} {node : Node}
    (h : u.Settles room ids self replaced next node last) :
    node.self.edge = self.edge ∧ node.self.number = self.number ∧ node.replaced = replaced := by
  cases h with
  | deep _ hexpand =>
    cases hexpand
    exact ⟨rfl, rfl, rfl⟩
  | flat _ => exact ⟨rfl, rfl, rfl⟩

/-- A place keeps its product. -/
theorem Settles.product_eq {room : Nat} {ids : List String} {self : Occurrence}
    {replaced : Option Occurrence} {next last : Nat} {node : Node}
    (h : u.Settles room ids self replaced next node last) : node.self.product = self.product := by
  cases h with
  | deep _ hexpand =>
    cases hexpand
    rfl
  | flat _ => rfl

/-- There is one slot for each edge. -/
theorem Fills.edges_eq {room : Nat} {ids : List String} {s : Surroundings} {edges : List Edge}
    {next last : Nat} {slots : Slots} (h : u.Fills room ids s edges next slots last) :
    slots.edges = edges := by
  induction edges generalizing next slots with
  | nil =>
    cases h
    rfl
  | cons edge edges ih =>
    cases h with
    | vacant _ hrest => rw [Slots.edges, ih hrest]
    | plain _ _ hrest => rw [Slots.edges, ih hrest]
    | replacing _ _ hrest => rw [Slots.edges, ih hrest]

/-- What the slot of an edge holds has been settled where the edge leads. -/
theorem Fills.seat {room : Nat} {ids : List String} {s : Surroundings} {edges : List Edge}
    {next last : Nat} {slots : Slots} (h : u.Fills room ids s edges next slots last) {i : Nat}
    {child : Node} (hi : slots.contents[i]? = some (some child)) :
    ∃ edge first stop, edges[i]? = some edge ∧
      ((∃ o, (u.attach s edge).outcome = .ok (.plain o) ∧
        u.Settles room ids { o with number := first } none (first + 1) child stop) ∨
      ∃ found o, (u.attach s edge).outcome = .ok (.replacing found o) ∧
        u.Settles room ids { o with number := first + 1 } (some { found with number := first })
          (first + 2) child stop) := by
  induction edges generalizing next slots i with
  | nil =>
    cases h
    simp [Slots.contents] at hi
  | cons edge edges ih =>
    cases h with
    | vacant _ hrest =>
      cases i with
      | zero => simp [Slots.contents] at hi
      | succ i => exact ih hrest hi
    | plain hattach hchild hrest =>
      cases i with
      | zero =>
        cases hi
        exact ⟨edge, _, _, rfl, .inl ⟨_, hattach, hchild⟩⟩
      | succ i => exact ih hrest hi
    | replacing hattach hchild hrest =>
      cases i with
      | zero =>
        cases hi
        exact ⟨edge, _, _, rfl, .inr ⟨_, _, hattach, hchild⟩⟩
      | succ i => exact ih hrest hi

/-- The slot of an edge holds what the edge leads to. -/
theorem Fills.slot {room : Nat} {ids : List String} {s : Surroundings} {edges : List Edge}
    {next last : Nat} {slots : Slots} (h : u.Fills room ids s edges next slots last) {i : Nat}
    {child : Node} (hi : slots.contents[i]? = some (some child)) :
    ∃ edge, edges[i]? = some edge ∧ u.Seats edge child := by
  obtain ⟨edge, first, stop, hedge, ⟨o, hattach, hchild⟩ | ⟨found, o, hattach, hchild⟩⟩ :=
    h.seat hi
  · obtain ⟨hreached, -, hreplaced⟩ := hchild.self_eq
    have ho := attach_plain hattach
    refine ⟨edge, hedge, hreached.trans ho, ?_⟩
    intro v hv
    rw [hreplaced] at hv
    cases hv
  · obtain ⟨hreached, hnumber, hreplaced⟩ := hchild.self_eq
    obtain ⟨hmode, hvirtual, hfound, ho⟩ := attach_replacing hattach
    refine ⟨edge, hedge, hreached.trans ho, ?_⟩
    intro v hv
    rw [hreplaced] at hv
    cases hv
    exact ⟨hmode, hvirtual, hfound, hnumber⟩

/-- A node that was settled and has something in its slots was unfolded, because the mode descends
to it. -/
theorem Settles.descends {room : Nat} {ids : List String} {self : Occurrence}
    {replaced : Option Occurrence} {next last : Nat} {node : Node}
    (h : u.Settles room ids self replaced next node last) (hnode : node.slots.hasNode = true) :
    u.descends node.self node.replaced = .ok true := by
  cases h with
  | deep hdescends hexpand =>
    obtain ⟨_, _, -, -, -, hself, hreplaced, -⟩ := hexpand.inv
    rw [hself, hreplaced]
    exact hdescends
  | flat _ => cases hnode

variable {limit : Nat} {l : Lineage}

/-- The edges of a node ascend. -/
theorem Reaches.edges_sorted (h : u.Reaches limit l) :
    l.node.slots.edges.Pairwise fun a b => a.sequence ≤ b.sequence := by
  cases h with
  | left _ _ => exact .nil
  | expanded hexpand =>
    obtain ⟨_, edges, -, -, hedges, -, -, hfill⟩ := hexpand.inv
    rw [hfill.edges_eq]
    exact edgesOf_sorted hedges

/-- A slot of a node holds what its edge leads to. -/
theorem Reaches.slot (h : u.Reaches limit l) {i : Nat} {child : Node}
    (hi : l.node.slots.contents[i]? = some (some child)) :
    ∃ edge, l.node.slots.edges[i]? = some edge ∧ u.Seats edge child := by
  cases h with
  | left _ _ => simp [Node.slots, Slots.contents] at hi
  | expanded hexpand =>
    obtain ⟨_, edges, -, -, -, -, -, hfill⟩ := hexpand.inv
    rw [hfill.edges_eq]
    exact hfill.slot hi

/-- What stands in a slot comes from the catalogue. -/
theorem Reaches.brings {P : Product → Prop} (hc : u.catalogue.Supplies P) (h : u.Reaches limit l)
    {i : Nat} {child : Node} (hi : l.node.slots.contents[i]? = some (some child)) :
    P child.self.product := by
  cases h with
  | left _ _ => simp [Node.slots, Slots.contents] at hi
  | expanded hexpand =>
    obtain ⟨_, _, -, -, -, -, -, hfill⟩ := hexpand.inv
    obtain ⟨_, _, _, -, ⟨_, hattach, hchild⟩ | ⟨_, _, hattach, hchild⟩⟩ := hfill.seat hi
    · rw [hchild.product_eq]
      exact attach_brings hc hattach
    · rw [hchild.product_eq]
      exact attach_brings hc hattach

/-- A node with something in its slots was asked for its edges. -/
theorem Reaches.asked (h : u.Reaches limit l) (hnode : l.node.slots.hasNode = true) :
    ∃ self replaced edges, u.edgesOf self replaced = .ok edges ∧
      self.product = l.node.self.product := by
  cases h with
  | left _ _ => cases hnode
  | expanded hexpand =>
    obtain ⟨_, edges, -, -, hedges, hself, -, -⟩ := hexpand.inv
    refine ⟨_, _, edges, hedges, ?_⟩
    rw [hself]

/-- A node in a slot that has something in its own slots was unfolded, because the mode descends to
it. -/
theorem Reaches.descends (h : u.Reaches limit l) {i : Nat} {child : Node}
    (hi : l.node.slots.contents[i]? = some (some child)) (hnode : child.slots.hasNode = true) :
    u.descends child.self child.replaced = .ok true := by
  cases h with
  | left _ _ => simp [Node.slots, Slots.contents] at hi
  | expanded hexpand =>
    obtain ⟨_, _, -, -, -, -, -, hfill⟩ := hexpand.inv
    obtain ⟨_, _, _, -, ⟨_, -, hchild⟩ | ⟨_, _, -, hchild⟩⟩ := hfill.seat hi
    · exact hchild.descends hnode
    · exact hchild.descends hnode

/-- No node lies deeper than the limit. -/
theorem Reaches.depth_le (h : u.Reaches limit l) : l.depth ≤ limit := by
  cases h with
  | expanded _ _ _ hroom _ => omega
  | @left room self replaced above _ hroom =>
    have : above.length ≤ limit := by omega
    exact this

/-- A node that was expanded has room below it, and its product does not occur above it. -/
theorem Expands.productIds_nodup {room : Nat} {above : List String} {self : Occurrence}
    {replaced : Option Occurrence} {next last : Nat}
    (h : u.Expands room above self replaced next l.node last)
    (hids : above = l.above.map (·.self.product.id)) (hnodup : above.Nodup)
    (hroom : room + l.depth = limit) : l.productIds.Nodup ∧ l.depth < limit := by
  obtain ⟨_, _, rfl, hfresh, -, hself, -, -⟩ := h.inv
  refine ⟨?_, by omega⟩
  subst hids
  rw [Lineage.productIds, List.map_cons, hself]
  exact List.nodup_cons.2 ⟨hfresh, hnodup⟩

end Unfolding

/-! ## In a finished tree -/

/-- The unfolding of a finished tree has come to each of its nodes. -/
theorem Built.reaches {c : Catalogue} {maxDepth : Nat} {r : TreeRequest} {t : Tree}
    (h : Built c maxDepth r t) : ∀ l ∈ t.lineages, (t.unfolding c maxDepth).Reaches maxDepth l := by
  obtain ⟨last, hrun⟩ := h.run
  have hids : [] = ([] : List Node).map (·.self.product.id) := rfl
  exact hrun.reaches hids .nil Nat.one_lt_two

/-- Every product of a finished tree comes from the catalogue. -/
theorem Built.supplied {c : Catalogue} {maxDepth : Nat} {r : TreeRequest} {t : Tree}
    (h : Built c maxDepth r t) {P : Product → Prop} (hc : c.Supplies P) {l : Lineage}
    (hl : l ∈ t.lineages) : P l.node.self.product := by
  rcases Node.eq_or_slot_of_mem_lineages hl with rfl | ⟨up, hup, i, hi, -⟩
  · by_cases hsame : t.manufacturedId = t.requested.product.id
    · rw [h.own hsame]
      exact hc.product h.found
    · exact hc.product (h.other hsame)
  · exact (h.reaches up hup).brings hc hi

/-- Only the root has nothing above it. -/
theorem Tree.eq_root_of_mem_lineages {t : Tree} {l : Lineage} (hl : l ∈ t.lineages)
    (habove : l.above = []) : l = ⟨t.root, []⟩ := by
  rcases Node.eq_or_slot_of_mem_lineages hl with hroot | ⟨up, -, _, -, hchild⟩
  · exact hroot
  · rw [hchild] at habove
    cases habove

/-- A node below the root with something in its slots was unfolded, because the mode descends to
it. -/
theorem Built.descends {c : Catalogue} {maxDepth : Nat} {r : TreeRequest} {t : Tree}
    (h : Built c maxDepth r t) {l : Lineage} (hl : l ∈ t.lineages) (habove : l.above ≠ [])
    (hnode : l.node.slots.hasNode = true) :
    (t.unfolding c maxDepth).descends l.node.self l.node.replaced = .ok true := by
  rcases Node.eq_or_slot_of_mem_lineages hl with rfl | ⟨up, hup, i, hi, -⟩
  · exact absurd rfl habove
  · exact (h.reaches up hup).descends hi hnode

/-- The root of a finished tree was expanded. -/
theorem Built.root_productIds_nodup {c : Catalogue} {maxDepth : Nat} {r : TreeRequest} {t : Tree}
    (h : Built c maxDepth r t) {l : Lineage} (hl : l ∈ t.lineages) (habove : l.above = []) :
    l.productIds.Nodup ∧ l.depth < maxDepth := by
  cases t.eq_root_of_mem_lineages hl habove
  obtain ⟨last, hrun⟩ := h.run
  exact Unfolding.Expands.productIds_nodup (l := ⟨t.root, []⟩) hrun rfl .nil rfl

namespace Lineage

/-- The mode unfolds the node at the end of the way. The root is always unfolded, and otherwise it
depends on whether a warehouse manages the product. -/
def IsUnfolded (c : Catalogue) (l : Lineage) : Mode → Prop
  | .explosion => True
  | .implosion => True
  | .singleLevel => l.above = []
  | .manufacturing => l.above = [] ∨
      isWarehouseManaged c l.node.self.product (l.node.replaced.map (·.product)) none = .ok false

/-- The unfolding of a tree descends to the nodes below the root that the mode unfolds. -/
theorem IsUnfolded.descends_ne {c : Catalogue} {l : Lineage} {mode : Mode}
    (h : l.IsUnfolded c mode) (habove : l.above ≠ []) {u : Unfolding} (hmode : u.mode = mode)
    (hc : u.catalogue = c) : u.descends l.node.self l.node.replaced ≠ .ok false := by
  subst hmode hc
  unfold Unfolding.descends
  intro hfalse
  cases hm : u.mode <;> rw [hm] at h hfalse
  case explosion => cases hfalse
  case implosion => cases hfalse
  case singleLevel => exact habove h
  case manufacturing =>
    obtain ⟨stocked, hstocked, hnot⟩ := bind_eq_ok.1 hfalse
    rw [h.resolve_left habove] at hstocked
    cases hstocked
    cases hnot

end Lineage

/-- In a finished tree no product occurs twice on the way to a node that was unfolded, and the node
lies above the limit. The tree goes down at most as many levels as the limit says. -/
theorem buildTree_lineages_nodup (c : Catalogue) (maxDepth : Nat) (r : TreeRequest) (t : Tree)
    (h : (buildTree c maxDepth r).outcome = .ok t) :
    (∀ l ∈ t.lineages, l.IsUnfolded c r.mode → l.productIds.Nodup ∧ l.depth < maxDepth) ∧
      t.maxDepth ≤ maxDepth := by
  have hbuilt := built_of_buildTree h
  refine ⟨fun l hl hunfolded => ?_, ?_⟩
  · by_cases habove : l.above = []
    · exact hbuilt.root_productIds_nodup hl habove
    · have hdescends : (t.unfolding c maxDepth).descends l.node.self l.node.replaced ≠ .ok false :=
        hunfolded.descends_ne habove hbuilt.mode rfl
      cases hbuilt.reaches l hl with
      | left hleft _ => exact absurd hleft hdescends
      | expanded hexpand hids hnodup hroom _ => exact hexpand.productIds_nodup hids hnodup hroom
  · obtain ⟨l, hl, hdepth⟩ := t.root.exists_lineage_height []
    have hle := (hbuilt.reaches l hl).depth_le
    rw [List.length_nil, Nat.zero_add] at hdepth
    rwa [hdepth] at hle

/-- The tree of the bicycle has no product twice on any way. -/
theorem bicycle_lineages_nodup :
    ∃ t, (buildTree MemoryCatalogue.bicycles.catalogue 3 (.sample "bicycle")).outcome = .ok t ∧
      (∀ l ∈ t.lineages, l.productIds.Nodup ∧ l.depth < 3) ∧ t.maxDepth ≤ 3 := by
  refine ⟨_, rfl, ?_⟩
  have h := buildTree_lineages_nodup MemoryCatalogue.bicycles.catalogue 3 (.sample "bicycle") _ rfl
  exact ⟨fun l hl => h.1 l hl trivial, h.2⟩

end Bom
