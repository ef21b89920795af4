import Bom.Proofs.Tree.Loop

/-!
# The quantities of a finished tree

Between two passes a tree may be given another root quantity or amount, and earlier passes, finished
or not, have left quantities and levels at its nodes. None of this changes the places of the tree
(`Tree.agrees_after`), so what a pass does to it can be told from the tree as it was built:
`Tree.Counted` says what a pass that succeeds has done to each row of the table, and
`flatten_counted` that this is what each pass does, as a loop over the table, and when it succeeds.
Levels are added as machine words, so this holds of every level that the root can be given.

* `TreeUse`, `Tree.after`: what may happen to a tree between its building and a pass.
* `Tree.Agrees`: two trees with the same places.
-/

namespace Bom

/-! ## What does not depend on what is left over -/

namespace Lineage

/-- The way without what passes have left at its nodes. -/
def uncounted (l : Lineage) : Lineage := ⟨l.node.uncounted, l.above.map Node.uncounted⟩

@[simp] theorem uncounted_depth (l : Lineage) : l.uncounted.depth = l.depth :=
  List.length_map _

end Lineage

@[simp] theorem Node.uncounted_self (n : Node) : n.uncounted.self = n.self.uncounted := by
  cases n
  rfl

@[simp] theorem Lineage.uncounted_number (l : Lineage) :
    l.uncounted.node.self.number = l.node.self.number := by
  change l.node.uncounted.self.number = _
  rw [l.node.uncounted_self]
  rfl

@[simp] theorem Node.uncounted_replaced (n : Node) : n.uncounted.replaced = n.replaced := by
  cases n
  rfl

@[simp] theorem Node.uncounted_slots (n : Node) : n.uncounted.slots = n.slots.uncounted := by
  cases n
  rfl

@[simp] theorem Slots.uncounted_hasNode (s : Slots) : s.uncounted.hasNode = s.hasNode := by
  induction s using Slots.hasNode.induct with
  | case1 => rfl
  | case2 _ _ ih => exact ih
  | case3 => rfl

mutual

/-- The ways in a tree without what is left over are those of the tree. -/
theorem Node.lineages_uncounted (above : List Node) : ∀ n : Node,
    n.uncounted.lineages (above.map Node.uncounted) = (n.lineages above).map Lineage.uncounted
  | .mk self replaced slots => by
    have := Slots.lineages_uncounted (.mk self replaced slots :: above) slots
    rw [Node.lineages, List.map_cons, ← this]
    rfl

/-- The ways below slots without what is left over are those below the slots. -/
theorem Slots.lineages_uncounted (above : List Node) : ∀ s : Slots,
    s.uncounted.lineages (above.map Node.uncounted) = (s.lineages above).map Lineage.uncounted
  | .nil => rfl
  | .vacant _ rest => rest.lineages_uncounted above
  | .filled _ child rest => by
    rw [Slots.lineages, List.map_append, ← child.lineages_uncounted, ← rest.lineages_uncounted]
    rfl

end

namespace Pass

variable {p : Pass}

theorem quantityOn_uncounted (start : Float) :
    ∀ above : List Node, p.quantityOn start (above.map Node.uncounted) = p.quantityOn start above
  | [] => rfl
  | n :: above => by
    rw [List.map_cons, quantityOn, quantityOn, quantityOn_uncounted start above, n.uncounted_self]
    rfl

theorem visits_uncounted (l : Lineage) : p.visits l.uncounted = p.visits l := by
  change (!(p.excludesWip && ((l.node :: l.above).map Node.uncounted).dropLast.any
    (·.self.product.isWip))) = _
  rw [← List.map_dropLast, List.any_map]
  have hwip : (fun n : Node => n.self.product.isWip) ∘ Node.uncounted =
      fun n => n.self.product.isWip := by
    funext n
    rw [Function.comp_apply, n.uncounted_self]
    rfl
  rw [hwip, visits]

theorem failsAt_uncounted (start : Float) (l : Lineage) :
    p.FailsAt start l.uncounted ↔ p.FailsAt start l := by
  unfold FailsAt Lineage.uncounted
  rw [quantityOn_uncounted, l.node.uncounted_self]
  rfl

end Pass

/-! ## The places of a tree stay -/

/-- What may happen to a tree between its building and a pass. -/
inductive TreeUse where
  | setQuantity (quantity : Float)
  | setAmount (amount : Float)
  | flatten (depth : UInt64) (excludesWip : Bool) (calculator : Option Calculator)

namespace Tree

/-- The tree after a use. A pass that fails leaves what it has counted so far. -/
def use (t : Tree) : TreeUse → Tree
  | .setQuantity quantity => { t with rootQuantity := quantity }
  | .setAmount amount => { t with rootAmount := amount }
  | .flatten depth excludesWip calculator => (t.flatten depth excludesWip calculator).1

/-- The tree after some uses, the first one first. -/
def after (t : Tree) (uses : List TreeUse) : Tree := uses.foldl use t

/-- The trees have the same places: they differ in nothing but the quantities and levels of their
nodes, the root quantity and the root amount. -/
structure Agrees (t u : Tree) : Prop where
  root : u.root.uncounted = t.root.uncounted
  rest : u = { t with root := u.root, rootQuantity := u.rootQuantity, rootAmount := u.rootAmount }

theorem Agrees.refl (t : Tree) : t.Agrees t := ⟨rfl, rfl⟩

theorem Agrees.trans {t u v : Tree} (h : t.Agrees u) (h' : u.Agrees v) : t.Agrees v where
  root := h'.root.trans h.root
  rest := by
    rw [h'.rest, h.rest]

theorem Agrees.symm {t u : Tree} (h : t.Agrees u) : u.Agrees t where
  root := h.root.symm
  rest := by
    rw [h.rest]

theorem agrees_flatten (t : Tree) (depth : UInt64) (excludesWip : Bool)
    (calculator : Option Calculator) :
    t.Agrees (t.flatten depth excludesWip calculator).1 :=
  ⟨t.root.uncounted_pass, rfl⟩

/-- No use changes the places of a tree. -/
theorem agrees_after (t : Tree) (uses : List TreeUse) : t.Agrees (t.after uses) := by
  induction uses generalizing t with
  | nil => exact .refl t
  | cons use uses ih =>
    refine Agrees.trans ?_ (ih (t.use use))
    cases use with
    | setQuantity quantity => exact ⟨rfl, rfl⟩
    | setAmount amount => exact ⟨rfl, rfl⟩
    | flatten depth excludesWip calculator => exact t.agrees_flatten depth excludesWip calculator

section

variable {t u : Tree}

/-- Trees with the same places have the same ways, but for what is left over. -/
theorem Agrees.lineages (h : t.Agrees u) :
    u.lineages.map Lineage.uncounted = t.lineages.map Lineage.uncounted := by
  unfold Tree.lineages
  rw [← u.root.lineages_uncounted, ← t.root.lineages_uncounted, h.root]

/-- A way in one of the trees is one in the other, but for what is left over. -/
theorem Agrees.exists_lineage (h : t.Agrees u) {l : Lineage} (hl : l ∈ t.lineages) :
    ∃ l' ∈ u.lineages, l'.uncounted = l.uncounted := by
  have hmem : l.uncounted ∈ u.lineages.map Lineage.uncounted := by
    rw [h.lineages]
    exact List.mem_map_of_mem hl
  exact List.mem_map.1 hmem

/-- The nodes of a tree with the places of a finished one are, but for what passes have left, those
of the finished one. -/
theorem Agrees.exists_same (h : t.Agrees u) {l : Lineage} (hl : l ∈ u.lineages) :
    ∃ l' ∈ t.lineages, (l'.above = [] ↔ l.above = []) ∧
      l'.node.self.product = l.node.self.product ∧ l'.node.replaced = l.node.replaced ∧
      l'.node.slots.hasNode = l.node.slots.hasNode := by
  obtain ⟨l', hl', hsame⟩ := h.symm.exists_lineage hl
  refine ⟨l', hl', ?_, ?_, ?_, ?_⟩
  · have habove := congrArg Lineage.above hsame
    change l'.above.map Node.uncounted = l.above.map Node.uncounted at habove
    rw [← List.map_eq_nil_iff (f := Node.uncounted), habove, List.map_eq_nil_iff]
  · have hself := congrArg (fun l => l.node.self.product) hsame
    change l'.node.uncounted.self.product = l.node.uncounted.self.product at hself
    rwa [l'.node.uncounted_self, l.node.uncounted_self] at hself
  · have hreplaced := congrArg (fun l => l.node.replaced) hsame
    change l'.node.uncounted.replaced = l.node.uncounted.replaced at hreplaced
    rwa [l'.node.uncounted_replaced, l.node.uncounted_replaced] at hreplaced
  · have hslots := congrArg (fun l => l.node.slots.hasNode) hsame
    change l'.node.uncounted.slots.hasNode = l.node.uncounted.slots.hasNode at hslots
    rwa [l'.node.uncounted_slots, l.node.uncounted_slots, l'.node.slots.uncounted_hasNode,
      l.node.slots.uncounted_hasNode] at hslots

/-- What can be told of a way without what is left over is the same in both trees. -/
theorem Agrees.map_lineages (h : t.Agrees u) {β : Type} {g : Lineage → β}
    (hg : ∀ l, g l.uncounted = g l) : u.lineages.map g = t.lineages.map g := by
  have hcomp : g ∘ Lineage.uncounted = g := funext hg
  have := congrArg (List.map g) h.lineages
  rwa [List.map_map, List.map_map, hcomp] at this

/-- What can be told of a way without what is left over picks out the same ways in both trees. -/
theorem Agrees.filter_lineages (h : t.Agrees u) {β : Type} {v : Lineage → Bool} {g : Lineage → β}
    (hv : ∀ l, v l.uncounted = v l) (hg : ∀ l, g l.uncounted = g l) :
    (u.lineages.filter v).map g = (t.lineages.filter v).map g := by
  have hcomp : g ∘ Lineage.uncounted = g := funext hg
  have hfilter : v ∘ Lineage.uncounted = v := funext hv
  have := congrArg (fun ls => (ls.filter v).map g) h.lineages
  simpa only [List.filter_map, hfilter, List.map_map, hcomp] using this

theorem Agrees.requested (h : t.Agrees u) : u.requested = t.requested := by
  rw [h.rest]

/-- The rows of both trees have the same numbers. -/
theorem Agrees.table_map_number (h : t.Agrees u) :
    u.table.map (·.self.number) = t.table.map (·.self.number) := by
  let g (l : Lineage) : List Nat := (l.node.replaced.map (·.number)).toList ++ [l.node.self.number]
  have hg (l : Lineage) : g l.uncounted = g l := by
    change (l.node.uncounted.replaced.map (·.number)).toList ++ [l.uncounted.node.self.number] = _
    rw [l.node.uncounted_replaced, l.uncounted_number]
  have hrows := h.map_lineages hg
  have hroot := h.map_lineages (g := (·.node.self.number)) Lineage.uncounted_number
  rw [u.lineages_eq, t.lineages_eq, List.map_cons, List.map_cons, List.cons_eq_cons] at hrows hroot
  rw [u.table_map_number, t.table_map_number, h.requested, List.flatMap_def, List.flatMap_def]
  rw [hroot.1]
  exact congrArg (fun rest => _ :: _ :: List.flatten rest) hrows.2

/-- A tree is numbered if one with the same places is. -/
theorem Agrees.numbered (h : t.Agrees u) (ht : t.Numbered) : u.Numbered := by
  have hlength := congrArg List.length h.table_map_number
  rw [List.length_map, List.length_map] at hlength
  unfold Numbered
  rw [h.table_map_number, hlength]
  exact ht

end

end Tree

/-! ## The rows of a tree with other occurrences -/

section

variable {f : Lineage → Occurrence}

/-- The rows of a node, if another occurrence takes the place of its own. -/
def Lineage.rowsWith (f : Lineage → Occurrence) (l : Lineage) : List Row :=
  (l.node.replaced.map (Row.bare l.parent)).toList ++ [{ l.node.row l.parent with self := f l }]

/-- The row of a node with another occurrence of the same number. -/
theorem Node.row_relabel (hf : ∀ l, (f l).number = l.node.self.number) (parent : Option Nat)
    (above : List Node) (n : Node) :
    (n.relabel f above).row parent = { n.row parent with self := f ⟨n, above⟩ } := by
  have hchild (child : Node) : (child.relabel f (n :: above)).self.number = child.self.number := by
    rw [child.relabel_self, hf]
  have hcontent (content : Option Node) :
      (content.map (Node.relabel f (n :: above))).map (·.self.number) =
        content.map (·.self.number) := by
    cases content with
    | none => rfl
    | some child => exact congrArg some (hchild child)
  simp only [Node.row, Node.relabel_self, Node.relabel_replaced, Node.relabel_slots,
    Slots.relabel_edges, Slots.relabel_contents, List.map_map, Function.comp_def, hcontent]

mutual

/-- The rows of a relabelled subtree are those along the lineages of the subtree, once the component
that the node has replaced is put in front. -/
theorem Node.replaced_append_rows_relabel (hf : ∀ l, (f l).number = l.node.self.number)
    (above : List Node) :
    ∀ n : Node, (n.replaced.map (Row.bare (above.head?.map (·.self.number)))).toList ++
      (n.relabel f above).rows (above.head?.map (·.self.number)) =
        (n.lineages above).flatMap (Lineage.rowsWith f)
  | .mk self replaced slots => by
    have hslots := Slots.rows_relabel hf (.mk self replaced slots) above slots
    rw [Node.rows_eq, Node.row_relabel hf, Node.relabel_slots, Node.relabel_self, hf,
      Node.lineages_eq, List.flatMap_cons, Node.slots, ← hslots, Lineage.rowsWith,
      List.append_assoc]
    rfl

/-- The rows below relabelled slots of a node are those along the lineages below the slots. -/
theorem Slots.rows_relabel (hf : ∀ l, (f l).number = l.node.self.number) (n : Node)
    (above : List Node) : ∀ s : Slots, (s.relabel f (n :: above)).rows n.self.number =
      (s.lineages (n :: above)).flatMap (Lineage.rowsWith f)
  | .nil => rfl
  | .vacant _ rest => rest.rows_relabel hf n above
  | .filled _ child rest => by
    have hchild := child.replaced_append_rows_relabel hf (n :: above)
    rw [Slots.relabel, Slots.rows, Node.relabel_replaced, Slots.lineages, List.flatMap_append,
      ← hchild, ← rest.rows_relabel hf n above]
    rfl

end

/-- The tree with other occurrences at its nodes. -/
def Tree.relabel (f : Lineage → Occurrence) (t : Tree) : Tree :=
  { t with root := t.root.relabel f [] }

/-- The rows of a tree with other occurrences at its nodes. -/
theorem Tree.table_relabel (hf : ∀ l, (f l).number = l.node.self.number) (t : Tree) :
    (t.relabel f).table = Row.bare none t.requested ::
      { t.root.row none with self := f ⟨t.root, []⟩ } :: t.lower.flatMap (Lineage.rowsWith f) := by
  have hslots := Slots.rows_relabel hf t.root [] t.root.slots
  rw [Tree.table, Tree.relabel, Node.rows_eq, Node.row_relabel hf, Node.relabel_slots,
    Node.relabel_self, hf, hslots]
  rfl

end

/-! ## A pass through a tree -/

@[simp] theorem Pass.counted_number (p : Pass) (start : Float) (depth : UInt64) (l : Lineage) :
    (p.counted start depth l).number = l.node.self.number := by
  unfold counted
  split <;> rfl

/-- Every pass goes through the root. -/
theorem Pass.visits_root (p : Pass) (n : Node) : p.visits ⟨n, []⟩ = true := by
  simp [visits]

namespace Tree

/-- What a pass that succeeds has done to a tree `u` with the places of `t`: the tree `v` has come
of it, and `numbers` are those of the nodes that it went through. -/
structure Counted (t u v : Tree) (p : Pass) (depth : UInt64) (numbers : List Nat) : Prop where
  /-- the pass has gone through the nodes in pre-order, less those that it passes over -/
  preorder : numbers = (t.lineages.filter p.visits).map (·.node.self.number)
  /-- the row of each of them has the quantity that is told along its way and the given level plus
  that of the node below the root, and says the same as before in everything else -/
  counted : ∀ l ∈ t.lineages, p.visits l = true → ∃ row quantity,
    u.table[l.node.self.number]? = some row ∧
    p.quantityOn u.rootQuantity (l.node :: l.above) = some quantity ∧
    v.table[l.node.self.number]? = some (row.count quantity (depth + .ofNat l.depth))
  /-- all other rows are as before -/
  kept : ∀ n, n ∉ numbers → v.table[n]? = u.table[n]?
  /-- nothing but the rows has changed -/
  rest : v = { u with root := v.root }

section

variable {u : Tree} {f : Lineage → Occurrence}

/-- Other occurrences of the same numbers leave the numbers of the rows as they are. -/
theorem table_relabel_map_number (hf : ∀ l, (f l).number = l.node.self.number) :
    (u.relabel f).table.map (·.self.number) =
      u.table.map (·.self.number) := by
  have hrows (l : Lineage) :
      (l.rowsWith f).map (·.self.number) = l.rows.map (·.self.number) := by
    rw [Lineage.rowsWith, Lineage.rows, List.map_append, List.map_append]
    exact congrArg (_ ++ [·]) (hf l)
  rw [table_relabel hf, u.table_eq, List.map_cons, List.map_cons, List.map_cons, List.map_cons,
    List.map_flatMap, List.map_flatMap, hf]
  simp only [hrows]
  rfl

theorem length_table_relabel (hf : ∀ l, (f l).number = l.node.self.number) :
    (u.relabel f).table.length = u.table.length := by
  have := congrArg List.length (table_relabel_map_number (u := u) hf)
  rwa [List.length_map, List.length_map] at this

theorem Numbered.relabel (hf : ∀ l, (f l).number = l.node.self.number) (hu : u.Numbered) :
    (u.relabel f).Numbered := by
  unfold Numbered
  rw [table_relabel_map_number hf, length_table_relabel hf]
  exact hu

/-- The row of a node stands at the place that its number names. -/
theorem Numbered.getElem?_lineage (hu : u.Numbered) {l : Lineage} (hl : l ∈ u.lineages) :
    u.table[l.node.self.number]? = some (l.node.row l.parent) := by
  refine hu.getElem?_table.2 ⟨?_, rfl⟩
  rw [u.lineages_eq, List.mem_cons] at hl
  rcases hl with rfl | hl
  · rw [u.table_eq]
    exact List.mem_cons_of_mem _ List.mem_cons_self
  · exact mem_table_of_mem_lower hl (Lineage.mem_rows.2 (.inr rfl))

/-- The row of a node, in the tree with other occurrences, has the other occurrence. -/
theorem Numbered.getElem?_relabel (hf : ∀ l, (f l).number = l.node.self.number) (hu : u.Numbered)
    {l : Lineage} (hl : l ∈ u.lineages) :
    (u.relabel f).table[l.node.self.number]? =
      some { l.node.row l.parent with self := f l } := by
  refine (hu.relabel hf).getElem?_table.2 ⟨?_, hf l⟩
  rw [table_relabel hf]
  rw [u.lineages_eq, List.mem_cons] at hl
  rcases hl with rfl | hl
  · exact List.mem_cons_of_mem _ List.mem_cons_self
  · refine List.mem_cons_of_mem _ (List.mem_cons_of_mem _ (List.mem_flatMap.2 ⟨l, hl, ?_⟩))
    exact List.mem_append_right _ List.mem_cons_self

/-- A row stays where no node of its number is given another occurrence. -/
theorem Numbered.getElem?_relabel_of_eq (hf : ∀ l, (f l).number = l.node.self.number)
    (hu : u.Numbered) {n : Nat}
    (hsame : ∀ l ∈ u.lineages, l.node.self.number = n → f l = l.node.self) :
    (u.relabel f).table[n]? = u.table[n]? := by
  cases hrow : u.table[n]? with
  | none =>
    rw [List.getElem?_eq_none_iff] at hrow ⊢
    rwa [length_table_relabel hf]
  | some row =>
    obtain ⟨hmem, rfl⟩ := hu.getElem?_table.1 hrow
    refine (hu.relabel hf).getElem?_table.2 ⟨?_, rfl⟩
    rw [u.lineages_eq] at hsame
    rw [u.table_eq, List.mem_cons, List.mem_cons, List.mem_flatMap] at hmem
    rw [table_relabel hf, List.mem_cons, List.mem_cons, List.mem_flatMap]
    rcases hmem with rfl | rfl | ⟨l, hl, hmem⟩
    · exact .inl rfl
    · rw [hsame _ List.mem_cons_self rfl]
      exact .inr (.inl rfl)
    · refine .inr (.inr ⟨l, hl, ?_⟩)
      rcases Lineage.mem_rows.1 hmem with ⟨v, hv, rfl⟩ | rfl
      · refine List.mem_append_left _ ?_
        rw [hv]
        exact List.mem_singleton_self _
      · rw [Lineage.rowsWith, hsame l (List.mem_cons_of_mem _ hl) rfl]
        exact List.mem_append_right _ (List.mem_singleton_self _)

end

variable {t u : Tree} {depth : UInt64} {excludesWip : Bool} {calculator : Option Calculator}

/-- A pass that succeeds relabels the tree with the quantities that are told along the ways. -/
theorem flatten_eq {numbers : List Nat} {p : Pass} (hp : u.passOf calculator excludesWip = p)
    (h : (u.flatten depth excludesWip calculator).2.outcome = .ok numbers) :
    (u.flatten depth excludesWip calculator).1 = u.relabel (p.counted u.rootQuantity depth) ∧
      numbers = (u.lineages.filter p.visits).map (·.node.self.number) ∧
      ∀ l ∈ u.lineages, p.visits l = true →
        ∃ quantity, p.quantityOn u.rootQuantity (l.node :: l.above) = some quantity := by
  subst hp
  have hroot := Pass.visits_root (u.passOf calculator excludesWip) u.root
  have hlevel : depth + .ofNat ([] : List Node).length = depth := UInt64.add_zero depth
  have hpass := @Node.pass_eq (u.passOf calculator excludesWip) u.rootQuantity [] u.rootQuantity
    depth rfl u.root numbers hroot
  rw [hlevel] at hpass
  obtain ⟨htree, hnumbers, hall⟩ := hpass h
  refine ⟨?_, hnumbers, hall⟩
  exact congrArg (fun root => { u with root }) htree

/-- A pass that succeeds gives the numbers of the nodes that it goes through. -/
theorem numbers_of_pass {depth : UInt64} {excludesWip : Bool} {calculator : Option Calculator}
    {numbers : List Nat} (h : (u.flatten depth excludesWip calculator).2.outcome = .ok numbers) :
    numbers = ((u.flatten depth excludesWip calculator).1.lineages.filter
      (u.passOf calculator excludesWip).visits).map (·.node.self.number) := by
  obtain ⟨-, hnumbers, -⟩ := flatten_eq rfl h
  rw [hnumbers, (u.agrees_flatten depth excludesWip calculator).filter_lineages
    Pass.visits_uncounted Lineage.uncounted_number]

/-- A pass through a tree with the places of a numbered one counts it. -/
theorem Agrees.counted (h : t.Agrees u) (ht : t.Numbered) {numbers : List Nat}
    (hnumbers : (u.flatten depth excludesWip calculator).2.outcome = .ok numbers) :
    t.Counted u (u.flatten depth excludesWip calculator).1
      ⟨calculator, u.rootAmount, t.mode.isExplosion, excludesWip⟩ depth numbers := by
  generalize hp : (⟨calculator, u.rootAmount, t.mode.isExplosion, excludesWip⟩ : Pass) = p
  have hpass : u.passOf calculator excludesWip = p := by
    rw [← hp, passOf, h.rest]
  obtain ⟨htree, hvisited, hall⟩ := flatten_eq hpass hnumbers
  rw [htree]
  have hf := Pass.counted_number p u.rootQuantity depth
  have hu := h.numbered ht
  constructor
  case preorder =>
    rw [hvisited]
    exact h.filter_lineages Pass.visits_uncounted Lineage.uncounted_number
  case counted =>
    intro l hl hv
    -- the node of the way in the tree that the pass has gone through
    obtain ⟨l', hl', hsame⟩ := h.exists_lineage hl
    have hplace : l.node.self.number = l'.node.self.number := by
      rw [← l.uncounted_number, ← l'.uncounted_number, hsame]
    have hdepth : l.depth = l'.depth := by
      rw [← l.uncounted_depth, ← l'.uncounted_depth, hsame]
    have hv' : p.visits l' = true := by
      rw [← Pass.visits_uncounted l', hsame, Pass.visits_uncounted, hv]
    obtain ⟨quantity, hquantity⟩ := hall l' hl' hv'
    refine ⟨l'.node.row l'.parent, quantity, ?_, ?_, ?_⟩
    · rw [hplace]
      exact hu.getElem?_lineage hl'
    · have hway := Pass.quantityOn_uncounted (p := p) u.rootQuantity (l'.node :: l'.above)
      rw [← hquantity, ← hway, ← Pass.quantityOn_uncounted]
      exact congrArg (fun l : Lineage => p.quantityOn u.rootQuantity (l.node :: l.above)) hsame.symm
    · rw [hplace, hdepth, hu.getElem?_relabel hf hl', Pass.counted, hv', hquantity]
      rfl
  case kept =>
    intro n hn
    refine hu.getElem?_relabel_of_eq hf fun l hl hl' => ?_
    cases hv : p.visits l with
    | false => rw [Pass.counted, hv]
    | true =>
      -- a node that the pass goes through has its number among those listed
      have hmem : n ∈ numbers := by
        rw [hvisited, ← hl']
        exact List.mem_map_of_mem (List.mem_filter.2 ⟨hl, hv⟩)
      exact absurd hmem hn
  case rest => rfl

/-- A pass succeeds just when no calculation fails at a node that it goes through. -/
theorem Agrees.flatten_ok_iff (h : t.Agrees u) :
    (∃ numbers, (u.flatten depth excludesWip calculator).2.outcome = .ok numbers) ↔
      ∀ l ∈ t.lineages,
        (⟨calculator, u.rootAmount, t.mode.isExplosion, excludesWip⟩ : Pass).visits l = true →
        ¬ (⟨calculator, u.rootAmount, t.mode.isExplosion, excludesWip⟩ : Pass).FailsAt
          u.rootQuantity l := by
  generalize hp : (⟨calculator, u.rootAmount, t.mode.isExplosion, excludesWip⟩ : Pass) = p
  have hpass : u.passOf calculator excludesWip = p := by
    rw [← hp, passOf, h.rest]
  have hiff : (∃ numbers, (u.flatten depth excludesWip calculator).2.outcome = .ok numbers) ↔
      ∀ l ∈ u.lineages, p.visits l = true → ¬ p.FailsAt u.rootQuantity l := by
    rw [← hpass]
    exact Node.pass_ok_iff depth rfl (Pass.visits_root _ u.root)
  rw [hiff]
  -- both sides say the same of ways that differ in nothing but what is left over
  have hforall (v : Tree) : (∀ l ∈ v.lineages, p.visits l = true → ¬ p.FailsAt u.rootQuantity l) ↔
      ∀ l ∈ v.lineages.map Lineage.uncounted, p.visits l = true →
        ¬ p.FailsAt u.rootQuantity l := by
    simp only [List.forall_mem_map, Pass.visits_uncounted, Pass.failsAt_uncounted]
  rw [hforall u, hforall t, h.lineages]

/-- Where nothing is passed over, a pass does the same to a tree as to one with the same places and
other quantities at its nodes. -/
theorem Agrees.flatten_fresh (h : t.Agrees u) (depth : UInt64) (calculator : Option Calculator) :
    let v := { t with rootQuantity := u.rootQuantity, rootAmount := u.rootAmount }
    (v.flatten depth false calculator).2.outcome = (u.flatten depth false calculator).2.outcome ∧
      ∀ numbers, (u.flatten depth false calculator).2.outcome = .ok numbers →
        (u.flatten depth false calculator).1 = (v.flatten depth false calculator).1 := by
  intro v
  have hpass : u.passOf calculator false = v.passOf calculator false := by
    rw [passOf, passOf, h.rest]
  have hu := Node.pass_uncounted (p := u.passOf calculator false) rfl u.rootQuantity depth u.root
  have hv := Node.pass_uncounted (p := u.passOf calculator false) rfl u.rootQuantity depth t.root
  rw [h.root] at hu
  have hout : (v.flatten depth false calculator).2.outcome =
      (u.flatten depth false calculator).2.outcome := by
    unfold flatten
    rw [← hpass]
    exact hv.1.symm.trans hu.1
  refine ⟨hout, fun numbers hok => ?_⟩
  have hroot := (hu.2 numbers hok).symm.trans (hv.2 numbers (hv.1.symm.trans (hu.1.trans hok)))
  unfold flatten
  rw [← hpass]
  dsimp only
  rw [hroot, h.rest]

end Tree

/-- Whatever has happened to a finished tree, a pass is what turns of the loop do to its table,
until the stack is empty. It succeeds just when no calculation fails at a node that it goes through,
and then it gives each of these nodes its level and the quantity that is told along its way, and
changes nothing else. -/
theorem flatten_counted (c : Catalogue) (maxDepth : Nat) (r : TreeRequest) (t : Tree)
    (h : (buildTree c maxDepth r).outcome = .ok t) (uses : List TreeUse) (depth : UInt64)
    (excludesWip : Bool) (calculator : Option Calculator) :
    let u := t.after uses
    let p : Pass := ⟨calculator, u.rootAmount, t.mode.isExplosion, excludesWip⟩
    let v := (u.flatten depth excludesWip calculator).1
    let outcome := (u.flatten depth excludesWip calculator).2.outcome
    p.Leads ⟨[⟨u.root.self.number, u.rootQuantity, depth⟩], u.table, pure []⟩
      ⟨[], v.table, (u.flatten depth excludesWip calculator).2⟩ ∧
    ((∃ numbers, outcome = .ok numbers) ↔
      ∀ l ∈ t.lineages, p.visits l = true → ¬ p.FailsAt u.rootQuantity l) ∧
    ∀ numbers, outcome = .ok numbers → t.Counted u v p depth numbers := by
  have hagrees := t.agrees_after uses
  have hnumbered := (built_of_buildTree h).numbers_table
  refine ⟨?_, hagrees.flatten_ok_iff, fun numbers hnumbers => hagrees.counted hnumbered hnumbers⟩
  have hloop := Tree.leads_flatten (hagrees.numbered hnumbered) depth excludesWip calculator
  have hmode : (t.after uses).mode = t.mode := by rw [hagrees.rest]
  rwa [Tree.passOf, hmode] at hloop

/-- The bicycle is counted anew after a pass that has left other quantities. -/
theorem bicycle_counted :
    ∃ t, (buildTree MemoryCatalogue.bicycles.catalogue 3 (.sample "bicycle")).outcome = .ok t ∧
      let u := t.after [.setQuantity 3.0, .flatten 2 true none, .setQuantity 4.0]
      (u.flatten 0 false none).2.outcome = .ok [1, 3, 4] ∧
        t.Counted u (u.flatten 0 false none).1 ⟨none, 0.0, true, false⟩ 0 [1, 3, 4] := by
  refine ⟨_, rfl, rfl, ?_⟩
  exact (flatten_counted MemoryCatalogue.bicycles.catalogue 3 (.sample "bicycle") _ rfl
    [.setQuantity 3.0, .flatten 2 true none, .setQuantity 4.0] 0 false none).2.2 _ rfl

end Bom
