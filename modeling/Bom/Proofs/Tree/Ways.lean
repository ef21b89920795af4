import Mathlib.Algebra.BigOperators.Group.Multiset.Basic
import Mathlib.Algebra.GroupWithZero.Nat
import Bom.Proofs.Tree.Lineage
import Bom.Proofs.Tree.Run

/-!
# Explosion and implosion count the same ways

Where nothing takes the place of a product, the nodes of a tree are the ways along the edges that
begin at the root: an explosion follows the edges from parent to child, an implosion from child to
parent, and a product stands at a depth as often as there are ways of that length to it
(`Unfolding.Expands.countAt`). A way read backwards is a way in the other direction, whichever of
parallel edges it takes, so there are as many of each length from `p` to `x` along the edges as from
`x` to `p` against them (`waysAlong_opposite`).

* `waysAlong`: how many ways of some length lead from one product to another.
* `Tree.countAt`: how often a product stands at some depth.
* `countAt_converse`: explosion and implosion count the same.
-/

namespace Bom

/-- Edges looked up from their other end. -/
def Direction.opposite : Direction → Direction
  | .components => .parents
  | .parents => .components

@[simp] theorem Direction.opposite_opposite (d : Direction) : d.opposite.opposite = d := by
  cases d <;> rfl

open MemoryCatalogue (endOf)

/-! ## Ways along edges -/

/-- The edges that lead on from a product. -/
def leadingFrom (d : Direction) (edges : List Edge) (p : String) : List Edge :=
  edges.filter (endOf d · = p)

/-- How many ways of the given length lead from one product to another. -/
def waysAlong (d : Direction) (edges : List Edge) : Nat → String → String → Nat
  | 0, p, q => if p = q then 1 else 0
  | n + 1, p, q =>
    ((leadingFrom d edges p).map fun e => waysAlong d edges n (endOf d.opposite e) q).sum

section

variable {d : Direction} {edges : List Edge}

/-- The edges from one product to another are the same from either end. -/
theorem waysAlong_one (p q : String) : waysAlong d edges 1 p q =
    ((leadingFrom d.opposite edges q).map fun e => waysAlong d edges 0 p (endOf d e)).sum := by
  simp only [waysAlong, leadingFrom]
  induction edges with
  | nil => rfl
  | cons e edges ih =>
    by_cases hp : endOf d e = p <;> by_cases hq : endOf d.opposite e = q <;>
      simp [hp, hq, Ne.symm, ih]

/-- A way ends in one of the edges that lead to its last product. -/
theorem waysAlong_succ_last (n : Nat) (p q : String) : waysAlong d edges (n + 1) p q =
    ((leadingFrom d.opposite edges q).map fun e => waysAlong d edges n p (endOf d e)).sum := by
  induction n generalizing p with
  | zero => exact waysAlong_one p q
  | succ n ih =>
    rw [waysAlong]
    simp only [ih]
    have := Multiset.sum_map_sum_map (leadingFrom d edges p : Multiset Edge)
      (leadingFrom d.opposite edges q : Multiset Edge)
      (f := fun e f => waysAlong d edges n (endOf d.opposite e) (endOf d f))
    simpa [waysAlong] using this

/-- There are as many ways against the edges as along them. -/
theorem waysAlong_opposite (n : Nat) (p q : String) :
    waysAlong d.opposite edges n q p = waysAlong d edges n p q := by
  induction n generalizing p with
  | zero => simp [waysAlong, eq_comm]
  | succ n ih =>
    rw [waysAlong_succ_last, waysAlong, Direction.opposite_opposite]
    simp only [ih]

end

/-! ## Catalogues in which nothing takes the place of a product -/

namespace MemoryCatalogue

/-- Nothing takes the place of a product: no rule, no variant, and nothing that it is made as. -/
structure NeverReplaces (c : MemoryCatalogue) : Prop where
  rules : c.rules = []
  variants : c.variants = []
  manufacturedAs : c.manufacturedAs = []

/-- The edges of a type of bill that are valid at a time, without those of a routing. -/
def genericEdges (c : MemoryCatalogue) (bomType : String) (asOf : DateTime) : List Edge :=
  c.edges.filter fun e => e.bomType = bomType && e.matchesRouting none && e.validAt asOf

/-- The generic edges of a product, in the order in which a catalogue tells them. -/
theorem edgesOf_perm (c : MemoryCatalogue) (d : Direction) (product bomType : String)
    (asOf : DateTime) : (c.edgesOf d product bomType none asOf).Perm
      (leadingFrom d (c.genericEdges bomType asOf) product) := by
  refine (sortBy_perm _ _).trans ?_
  rw [leadingFrom, genericEdges, List.filter_filter]
  simp only [Bool.and_assoc]
  exact .refl _

variable {c : MemoryCatalogue}

/-- No strategy considers a rule. -/
theorem NeverReplaces.rulesFor_eq (h : c.NeverReplaces) (s : Surroundings) (component : String)
    (strategy : Strategy) : s.rulesFor c.catalogue component strategy = .ok [] := by
  have hrules (scope : RuleScope) : c.catalogue.rules scope s.asOf = .ok [] := by
    simp [catalogue, h.rules]
  have hparents (scope : String → RuleScope) : s.rulesOfParents c.catalogue scope = .ok [] := by
    rw [Surroundings.rulesOfParents, Surroundings.parents]
    simp only [hrules]
    cases s.replacedParent.filter (· ≠ s.parent) <;> rfl
  cases strategy with
  | contextRules => exact hparents _
  | linkRules => exact hparents _
  | nodeRules =>
    rw [Surroundings.rulesFor, hrules]
    rfl
  | featureVariant => rfl

/-- No strategy has a result. -/
theorem NeverReplaces.attempt_eq (h : c.NeverReplaces) {s : Surroundings} {component : String}
    {multiplier : Float} {strategy : Strategy} {result : Option Resolution}
    (hr : s.attempt c.catalogue component multiplier strategy = .ok result) : result = none := by
  unfold Surroundings.attempt at hr
  split at hr
  · unfold Surroundings.applyFeatures at hr
    split at hr
    · exact (pure_eq_ok.1 hr).symm
    · obtain ⟨found, hask, hr⟩ := bind_eq_ok.1 hr
      obtain ⟨-, hfound⟩ := answer_eq_ok.1 (ask_eq_ok.1 hask)
      have hnone : c.selectedVariants component s.selected = [] := by
        simp [selectedVariants, variantsOf, h.variants]
      rw [hnone] at hfound
      subst hfound
      exact (pure_eq_ok.1 hr).symm
  · rw [h.rulesFor_eq] at hr
    exact (pure_eq_ok.1 hr).symm

/-- A component stays as it is. -/
theorem NeverReplaces.resolve_eq (h : c.NeverReplaces) {s : Surroundings} {component : Product}
    {multiplier : Float} {resolution : Resolution}
    (hr : resolve c.catalogue s component multiplier = .ok resolution) :
    resolution = .unchanged := by
  unfold resolve at hr
  split at hr
  · generalize Strategy.precedence = strategies at hr
    induction strategies with
    | nil => exact (pure_eq_ok.1 hr).symm
    | cons strategy rest ih =>
      obtain ⟨result, hresult, hr⟩ := bind_eq_ok.1 hr
      cases h.attempt_eq hresult
      exact ih hr
  · exact (pure_eq_ok.1 hr).symm

/-- A product is made as itself. -/
theorem NeverReplaces.manufactured_eq (h : c.NeverReplaces) {r : TreeRequest}
    {product target : String} (hr : r.manufactured c.catalogue product = .ok target) :
    target = product := by
  have hmade {p q : String} (hp : r.madeAs c.catalogue p = .ok q) : q = p := by
    obtain ⟨found, hask, hp⟩ := bind_eq_ok.1 hp
    obtain ⟨-, hfound⟩ := answer_eq_ok.1 (ask_eq_ok.1 hask)
    rw [h.manufacturedAs] at hfound
    subst hfound
    exact (pure_eq_ok.1 hp).symm
  obtain ⟨made, hfirst, hr⟩ := bind_eq_ok.1 hr
  obtain ⟨has, -, hr⟩ := bind_eq_ok.1 hr
  cases hmade hfirst
  cases has with
  | true => exact (pure_eq_ok.1 hr).symm
  | false =>
    obtain ⟨family, hask, hr⟩ := bind_eq_ok.1 hr
    obtain ⟨-, hfamily⟩ := answer_eq_ok.1 (ask_eq_ok.1 hask)
    rw [h.variants] at hfamily
    subst hfamily
    exact (pure_eq_ok.1 hr).symm

end MemoryCatalogue

/-! ## Nodes are ways -/

/-- How often a product stands at a depth of the tree, the root being at depth 0. -/
def Tree.countAt (t : Tree) (product : String) (depth : Nat) : Nat :=
  t.lineages.countP fun l => l.node.self.product.id = product ∧ l.depth = depth

/-- At depth 0 below a node stands its own product. -/
theorem Node.countP_zero (node : Node) (above : List Node) (x : String) :
    (node.lineages above).countP
        (fun l => l.node.self.product.id = x ∧ l.depth = above.length + 0) =
      if node.self.product.id = x then 1 else 0 := by
  have hbelow : (node.slots.lineages (node :: above)).countP
      (fun l => l.node.self.product.id = x ∧ l.depth = above.length + 0) = 0 := by
    refine List.countP_eq_zero.2 fun l hl => ?_
    have hdepth := (Slots.depth_bounds hl).1
    rw [List.length_cons] at hdepth
    rw [decide_eq_true_eq]
    omega
  rw [node.lineages_eq, List.countP_cons, hbelow]
  simp only [Lineage.depth, Nat.add_zero, and_true, decide_eq_true_eq, Nat.zero_add]

/-- What stands at a depth below a node stands one level less below the slots. -/
theorem Node.countP_succ (node : Node) (above : List Node) (x : String) (n : Nat) :
    (node.lineages above).countP
        (fun l => l.node.self.product.id = x ∧ l.depth = above.length + (n + 1)) =
      (node.slots.lineages (node :: above)).countP
        (fun l => l.node.self.product.id = x ∧ l.depth = (node :: above).length + n) := by
  have hlevel : above.length + (n + 1) = (node :: above).length + n := by
    rw [List.length_cons]
    omega
  rw [node.lineages_eq, List.countP_cons_of_neg, hlevel]
  rw [decide_eq_true_eq]
  change ¬ (_ ∧ above.length = above.length + (n + 1))
  omega

namespace Unfolding

/-- The unfolding follows the generic edges of a catalogue all the way, and nothing else. -/
structure FollowsEdges (u : Unfolding) (c : MemoryCatalogue) : Prop where
  catalogue : u.catalogue = c.catalogue
  routing : u.routing = none
  mode : u.mode = .explosion ∨ u.mode = .implosion
  neverReplaces : c.NeverReplaces

variable {u : Unfolding} {c : MemoryCatalogue}

theorem FollowsEdges.descends (h : u.FollowsEdges c) (self : Occurrence)
    (replaced : Option Occurrence) : u.descends self replaced = .ok true := by
  rw [Unfolding.descends]
  rcases h.mode with hmode | hmode <;> rw [hmode] <;> rfl

/-- The edges of a place are those that lead on from its product. -/
theorem FollowsEdges.edges_perm (h : u.FollowsEdges c) {self : Occurrence} {edges : List Edge}
    (hedges : u.edgesOf self none = .ok edges) :
    edges.Perm (leadingFrom u.direction (c.genericEdges u.bomType u.asOf) self.product.id) := by
  obtain ⟨found, hfirst, hsorted⟩ := bind_eq_ok.1 hedges
  rw [Option.map_none, sources_of_none h.routing, List.map_cons, firstEdges, h.catalogue] at hfirst
  obtain ⟨answer, hask, hfirst⟩ := bind_eq_ok.1 hfirst
  obtain ⟨-, hanswer⟩ := MemoryCatalogue.answer_eq_ok.1 (ask_eq_ok.1 hask)
  have hfound : answer = found := by
    cases answer with
    | nil => exact pure_eq_ok.1 hfirst
    | cons edge rest => exact pure_eq_ok.1 hfirst
  rw [← pure_eq_ok.1 hsorted, ← hfound, ← hanswer]
  exact (sortBy_perm _ _).trans (c.edgesOf_perm _ _ _ _)

/-- An edge leads to the product at its other end. -/
theorem FollowsEdges.attach_eq (h : u.FollowsEdges c) {s : Surroundings} {edge : Edge}
    {a : Attachment} (ha : (u.attach s edge).outcome = .ok a) :
    ∃ o, a = .plain o ∧ o.product.id = endOf u.direction.opposite edge := by
  unfold attach at ha
  unfold direction
  split at ha
  · next hmode =>
    obtain ⟨product, resolution, hproduct, hresolve, rfl⟩ := attachComponent_eq_ok.1 ha
    rw [h.catalogue] at hproduct hresolve
    cases h.neverReplaces.resolve_eq hresolve
    rw [if_pos hmode]
    exact ⟨_, rfl, c.answersById _ _ hproduct⟩
  · next hmode =>
    obtain ⟨product, hproduct, rfl⟩ := attachUser_eq_ok.1 ha
    rw [h.catalogue] at hproduct
    rw [if_neg hmode]
    exact ⟨_, rfl, c.answersById _ _ hproduct⟩

mutual

/-- A product stands at a depth below a place as often as there are ways to it of that length. -/
theorem Expands.countAt (h : u.FollowsEdges c) {room : Nat} {ids : List String} {self : Occurrence}
    {replaced : Option Occurrence} {next last : Nat} {node : Node} :
    u.Expands room ids self replaced next node last → replaced = none →
      ∀ (above : List Node) (x : String) (n : Nat),
        (node.lineages above).countP
            (fun l => l.node.self.product.id = x ∧ l.depth = above.length + n) =
          waysAlong u.direction (c.genericEdges u.bomType u.asOf) n self.product.id x
  | .mk _ _ _, _, above, x, 0 => Node.countP_zero _ above x
  | .mk _ hedges hfill, hreplaced, above, x, n + 1 => by
    rw [hreplaced] at hedges
    have hsum := ((h.edges_perm hedges).map fun e => waysAlong u.direction
      (c.genericEdges u.bomType u.asOf) n (endOf u.direction.opposite e) x).sum_eq
    rw [Node.countP_succ, waysAlong, ← hsum]
    exact hfill.countAt h (_ :: above) x n

/-- A product stands at a depth below a place that is settled as often as there are ways to it of
that length. -/
theorem Settles.countAt (h : u.FollowsEdges c) {room : Nat} {ids : List String} {self : Occurrence}
    {replaced : Option Occurrence} {next last : Nat} {node : Node} :
    u.Settles room ids self replaced next node last → replaced = none →
      ∀ (above : List Node) (x : String) (n : Nat),
        (node.lineages above).countP
            (fun l => l.node.self.product.id = x ∧ l.depth = above.length + n) =
          waysAlong u.direction (c.genericEdges u.bomType u.asOf) n self.product.id x
  | .deep _ hexpand, hreplaced, above, x, n => hexpand.countAt h hreplaced above x n
  | .flat hdescends, _, _, _, _ => by
    rw [h.descends] at hdescends
    cases hdescends

/-- A product stands at a depth below slots as often as there are ways to it of that length from the
ends of the edges. -/
theorem Fills.countAt (h : u.FollowsEdges c) {room : Nat} {ids : List String} {s : Surroundings}
    {edges : List Edge} {next last : Nat} {slots : Slots} :
    u.Fills room ids s edges next slots last → ∀ (above : List Node) (x : String) (n : Nat),
      (slots.lineages above).countP
          (fun l => l.node.self.product.id = x ∧ l.depth = above.length + n) =
        (edges.map fun e => waysAlong u.direction (c.genericEdges u.bomType u.asOf) n
          (endOf u.direction.opposite e) x).sum
  | .nil, _, _, _ => rfl
  | .vacant hattach _, _, _, _ => by
    obtain ⟨_, ha, _⟩ := h.attach_eq hattach
    cases ha
  | .plain hattach hchild hrest, above, x, n => by
    obtain ⟨_, ha, hend⟩ := h.attach_eq hattach
    cases ha
    rw [Slots.lineages, List.countP_append, hchild.countAt h rfl above x n,
      hrest.countAt h above x n, List.map_cons, List.sum_cons, ← hend]
  | .replacing hattach _ _, _, _, _ => by
    obtain ⟨_, ha, _⟩ := h.attach_eq hattach
    cases ha

end

end Unfolding

/-! ## Trees -/

section

variable {c : MemoryCatalogue} {limit : Nat} {r : TreeRequest} {t : Tree}

/-- The root is the product that was asked for, and has replaced nothing. -/
theorem Built.root_of_neverReplaces (h : Built c.catalogue limit r t) (hc : c.NeverReplaces) :
    t.root.self.product.id = r.product ∧ t.redirected = none := by
  have hsame := hc.manufactured_eq h.manufactured
  rw [h.own hsame, c.answersById _ _ h.found, Tree.redirected, if_pos hsame]
  exact ⟨rfl, rfl⟩

/-- A product stands at a depth of a tree as often as there are ways of that length to it from the
product that was asked for. -/
theorem Built.countAt_eq (h : Built c.catalogue limit r t) (hc : c.NeverReplaces)
    (hrouting : r.routing = none) (hmode : r.mode = .explosion ∨ r.mode = .implosion) (x : String)
    (n : Nat) : t.countAt x n = waysAlong (t.unfolding c.catalogue limit).direction
      (c.genericEdges r.bomType r.asOf) n r.product x := by
  obtain ⟨hroot, hredirected⟩ := h.root_of_neverReplaces hc
  obtain ⟨last, hrun⟩ := h.run
  rw [hredirected] at hrun
  have hfollows : (t.unfolding c.catalogue limit).FollowsEdges c :=
    ⟨rfl, h.routing.trans hrouting, by rwa [← h.mode] at hmode, hc⟩
  have hcount := hrun.countAt hfollows rfl [] x n
  rw [List.length_nil, Nat.zero_add] at hcount
  rw [Tree.countAt, Tree.lineages, hcount, ← hroot]
  exact congrArg₂ (fun b a => waysAlong _ (c.genericEdges b a) n _ x) h.bomType h.asOf

/-- A product stands at a depth of a tree just when some way ends in it there. -/
theorem Tree.countAt_pos {x : String} {n : Nat} :
    0 < t.countAt x n ↔ ∃ l ∈ t.lineages, l.node.self.product.id = x ∧ l.depth = n := by
  simp [countAt, List.countP_pos_iff]

end

/-- In a catalogue in which nothing takes the place of a product, a product stands at a depth in the
explosion of another as often as that one at the same depth in the implosion of the first. -/
theorem countAt_converse {c : MemoryCatalogue} (hc : c.NeverReplaces) {limit limit' : Nat}
    {p x bomType : String} {asOf : DateTime} {features features' : Option (List Feature)}
    {t u : Tree}
    (ht : (buildTree c.catalogue limit ⟨p, bomType, asOf, .explosion, none, features⟩).outcome =
      .ok t)
    (hu : (buildTree c.catalogue limit' ⟨x, bomType, asOf, .implosion, none, features'⟩).outcome =
      .ok u) (n : Nat) : t.countAt x n = u.countAt p n := by
  have ht := built_of_buildTree ht
  have hu := built_of_buildTree hu
  have hdown : (t.unfolding c.catalogue limit).direction = .components := by
    rw [Unfolding.direction, Tree.unfolding, ht.mode]
    rfl
  have hup : (u.unfolding c.catalogue limit').direction = .parents := by
    rw [Unfolding.direction, Tree.unfolding, hu.mode]
    rfl
  rw [ht.countAt_eq hc rfl (.inl rfl), hu.countAt_eq hc rfl (.inr rfl), hdown, hup]
  exact (waysAlong_opposite n p x).symm

end Bom
