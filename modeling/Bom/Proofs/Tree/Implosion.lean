import Bom.Proofs.Tree.Lineage
import Bom.Proofs.Tree.Run

/-!
# How high an implosion is

An implosion resolves nothing and replaces nothing but its root. So what lies below a place other
than the root depends on the product there and on nothing else, neither on the product that was
asked for nor on the limit (`Unfolding.Expands.height_eq`).

The root is another matter: it may be the product as which the requested one is made, and then its
edges are those of that product, if it has any. Where it has none, or is the requested product, the
root has the edges of the requested product (`TreeRequest.StartsAtOwn`), and each product that those
edges lead to has its own implosion below the root (`Built.height_lt`).
-/

namespace Bom

namespace Unfolding

/-! ## Places below the root -/

/-- Both unfoldings go towards the products that use a product, along the same edges. -/
structure SameUsers (u u' : Unfolding) : Prop where
  mode : u.mode = .implosion
  rest : u' = { u with selected := u'.selected, top := u'.top, maxDepth := u'.maxDepth }

variable {u u' : Unfolding}

theorem SameUsers.mode' (h : u.SameUsers u') : u'.mode = .implosion := by
  rw [h.rest]
  exact h.mode

/-- Both unfoldings find the same edges at a product. -/
theorem SameUsers.edgesOf_eq (h : u.SameUsers u') {self self' : Occurrence}
    (hid : self'.product.id = self.product.id) : u'.edgesOf self' none = u.edgesOf self none := by
  rw [h.rest]
  apply edgesOf_congr
  · intros
    rfl
  · rfl
  · exact hid
  · rfl

/-- An implosion attaches the user to an edge. -/
theorem attach_of_implosion (h : u.mode = .implosion) (s : Surroundings) (edge : Edge) :
    u.attach s edge = u.attachUser edge := by
  rw [attach, h]
  rfl

theorem SameUsers.attach_eq (h : u.SameUsers u') (s s' : Surroundings) (edge : Edge) :
    u'.attach s' edge = u.attach s edge := by
  rw [attach_of_implosion h.mode, attach_of_implosion h.mode', h.rest]
  rfl

theorem direction_of_implosion (u : Unfolding) (h : u.mode = .implosion) :
    u.direction = .parents := by
  rw [direction, h]
  rfl

/-- What an edge is attached in an implosion is the product that uses the one at hand. -/
theorem plain_of_implosion (h : u.mode = .implosion) {s : Surroundings} {edge : Edge}
    {a : Attachment} (ha : (u.attach s edge).outcome = .ok a) :
    ∃ o, a = .plain o ∧ u.catalogue.product edge.parent = .ok (some o.product) := by
  rw [attach_of_implosion h] at ha
  obtain ⟨product, hproduct, rfl⟩ := attachUser_eq_ok.1 ha
  exact ⟨_, rfl, hproduct⟩

/-- An implosion fills the slot of its first edge with the user there, unfolded. -/
theorem Fills.inv_of_implosion (hu : u.mode = .implosion) {room : Nat} {ids : List String}
    {s : Surroundings} {edge : Edge} {edges : List Edge} {next last : Nat} {slots : Slots}
    (h : u.Fills room ids s (edge :: edges) next slots last) :
    ∃ o child mid rest, slots = .filled edge child rest ∧
      (u.attach s edge).outcome = .ok (.plain o) ∧
      u.Expands room ids { o with number := next } none (next + 1) child mid ∧
      u.Fills room ids s edges mid rest last := by
  cases h with
  | vacant hattach _ =>
    obtain ⟨_, ha, -⟩ := plain_of_implosion hu hattach
    cases ha
  | replacing hattach _ _ =>
    obtain ⟨_, ha, -⟩ := plain_of_implosion hu hattach
    cases ha
  | plain hattach hchild hrest =>
    cases hchild with
    | deep _ hexpand => exact ⟨_, _, _, _, rfl, hattach, hexpand, hrest⟩
    | flat hdescends =>
      rw [descends, hu] at hdescends
      cases hdescends

/-- Below the same edges two implosions are as high as each other, if they are below each place that
they come to. -/
theorem Fills.height_eq (h : u.SameUsers u') {room room' : Nat} {ids ids' : List String}
    (hgrow : ∀ {self self' next next' node node' last last'},
      self'.product.id = self.product.id → u.Expands room ids self none next node last →
        u'.Expands room' ids' self' none next' node' last' → node'.height = node.height)
    {s s' : Surroundings} {edges : List Edge} {next next' last last' : Nat} {slots slots' : Slots}
    (hfill : u.Fills room ids s edges next slots last)
    (hfill' : u'.Fills room' ids' s' edges next' slots' last') :
    slots'.height = slots.height := by
  induction edges generalizing next next' slots slots' with
  | nil =>
    cases hfill
    cases hfill'
    rfl
  | cons edge edges ih =>
    obtain ⟨o, child, mid, rest, rfl, hattach, hchild, hrest⟩ := hfill.inv_of_implosion h.mode
    obtain ⟨o', child', mid', rest', rfl, hattach', hchild', hrest'⟩ :=
      hfill'.inv_of_implosion h.mode'
    rw [h.attach_eq s s', hattach] at hattach'
    cases hattach'
    rw [Slots.height, Slots.height, ih hrest hrest', hgrow (by rfl) hchild hchild']

/-- Below a product two implosions are as high as each other. -/
theorem Expands.height_eq (h : u.SameUsers u') {room room' : Nat} {ids ids' : List String}
    {self self' : Occurrence} {next next' last last' : Nat} {node node' : Node}
    (hid : self'.product.id = self.product.id)
    (hexpand : u.Expands room ids self none next node last)
    (hexpand' : u'.Expands room' ids' self' none next' node' last') :
    node'.height = node.height := by
  induction room generalizing room' ids ids' self self' next next' last last' node node' with
  | zero => cases hexpand
  | succ room ih =>
    cases hexpand with
    | mk _ hedges hfill =>
      cases hexpand' with
      | mk _ hedges' hfill' =>
        rw [h.edgesOf_eq hid, hedges] at hedges'
        cases hedges'
        exact hfill.height_eq h ih hfill'

/-- An implosion has a place below each of its edges, and is higher than what lies below that. -/
theorem Fills.exists_of_mem (hu : u.mode = .implosion) {room : Nat} {ids : List String}
    {s : Surroundings} {edges : List Edge} {next last : Nat} {slots : Slots} {edge : Edge}
    (h : u.Fills room ids s edges next slots last) (hedge : edge ∈ edges) :
    ∃ (self : Occurrence) (child : Node) (first stop : Nat),
      u.catalogue.product edge.parent = .ok (some self.product) ∧
      u.Expands room ids self none first child stop ∧ child.height < slots.height := by
  induction edges generalizing next slots with
  | nil => cases hedge
  | cons e edges ih =>
    obtain ⟨o, child, mid, rest, rfl, hattach, hchild, hrest⟩ := h.inv_of_implosion hu
    rw [Slots.height]
    rcases List.mem_cons.1 hedge with rfl | hedge
    · obtain ⟨_, ha, hproduct⟩ := plain_of_implosion hu hattach
      cases ha
      exact ⟨{ o with number := next }, child, _, _, hproduct, hchild, by omega⟩
    · obtain ⟨self, found, first, stop, hproduct, hexpand, hheight⟩ := ih hrest hedge
      exact ⟨self, found, first, stop, hproduct, hexpand, by omega⟩

end Unfolding

/-! ## The root -/

/-- The product that is made for the requested one is that product itself, or nothing uses it. -/
def TreeRequest.StartsAtOwn (r : TreeRequest) (c : Catalogue) : Prop :=
  ∀ target, r.manufactured c r.product = .ok target →
    target = r.product ∨ c.edges .parents target r.bomType none r.asOf = .ok []

namespace Built

variable {c : Catalogue} {limit limit' : Nat} {r : TreeRequest} {t u : Tree}

/-- Then the root has the edges of the requested product. -/
theorem edgesOf_root (h : Built c limit r t) (hc : c.AnswersById) (hmode : r.mode = .implosion)
    (hrouting : r.routing = none) (hown : r.StartsAtOwn c) {self : Occurrence}
    (hself : self.product.id = r.product) :
    (t.unfolding c limit).edgesOf (.detached 1 t.root.self.product) t.redirected =
      (t.unfolding c limit).edgesOf self none := by
  have hrequested : t.requested.product.id = r.product := hc _ _ h.found
  have hnone : (t.unfolding c limit).routing = none := h.routing.trans hrouting
  unfold Unfolding.edgesOf
  rw [Unfolding.sources_of_none hnone, Unfolding.sources_of_none hnone, hself]
  by_cases hsame : t.manufacturedId = t.requested.product.id
  · rw [Tree.redirected, if_pos hsame, h.own hsame, Occurrence.detached, hrequested]
  · -- the other product has no users, so those of the requested one are taken
    have hmanufactured := h.manufactured
    rw [hrequested] at hsame hmanufactured
    have hempty := (hown _ hmanufactured).resolve_left hsame
    rw [← h.root_id hc, ← h.bomType, ← h.asOf] at hempty
    rw [← (t.unfolding c limit).direction_of_implosion (h.mode.trans hmode)] at hempty
    have hfirst := Unfolding.firstEdges_of_nil (u := t.unfolding c limit) hempty [(none, r.product)]
    rw [Tree.redirected, hrequested, if_neg hsame, Occurrence.detached, Option.map_some,
      hrequested]
    exact congrArg (· >>= fun found => pure (sortBy Edge.sequence found)) hfirst

/-- Implosions for one type of bill and one time follow the same edges. -/
theorem sameUsers {p x bomType : String} {asOf : DateTime} {routing : Option String}
    {features features' : Option (List Feature)}
    (hu : Built c limit' ⟨x, bomType, asOf, .implosion, routing, features'⟩ u)
    (ht : Built c limit ⟨p, bomType, asOf, .implosion, routing, features⟩ t) :
    (u.unfolding c limit').SameUsers (t.unfolding c limit) where
  mode := hu.mode
  rest := by
    simp only [Tree.unfolding, hu.bomType, ht.bomType, hu.routing, ht.routing, hu.asOf, ht.asOf,
      hu.mode, ht.mode]

/-- An implosion is higher than that of each product which the edges of the requested one lead to.
-/
theorem height_lt (hc : c.AnswersById) {p x bomType : String} {asOf : DateTime}
    {features features' : Option (List Feature)}
    (ht : Built c limit ⟨p, bomType, asOf, .implosion, none, features⟩ t)
    (hu : Built c limit' ⟨x, bomType, asOf, .implosion, none, features'⟩ u)
    (hp : TreeRequest.StartsAtOwn ⟨p, bomType, asOf, .implosion, none, features⟩ c)
    (hx : TreeRequest.StartsAtOwn ⟨x, bomType, asOf, .implosion, none, features'⟩ c)
    {edges : List Edge} (hedges : c.edges .parents x bomType none asOf = .ok edges) {edge : Edge}
    (hedge : edge ∈ edges) (hparent : edge.parent = p) : t.root.height < u.root.height := by
  have hsame := hu.sameUsers ht
  obtain ⟨_, hrun⟩ := ht.run
  obtain ⟨_, hrun'⟩ := hu.run
  obtain ⟨_, own, -, -, hown, -, -, hfill⟩ := hrun.inv
  obtain ⟨_, users, -, -, husers, -, -, hfill'⟩ := hrun'.inv
  -- the edge is one of those at the root of the higher implosion, which has the parent below it
  have hmem : edge ∈ users := by
    have hanswer : c.edges (u.unfolding c limit').direction x u.bomType none u.asOf = .ok edges := by
      rw [Unfolding.direction_of_implosion _ hu.mode, hu.bomType, hu.asOf]
      exact hedges
    have hfirst := Unfolding.firstEdges_of_mem (u := u.unfolding c limit') hedge hanswer []
    have hself : (Occurrence.detached 0 u.requested.product).product.id = x := hc _ _ hu.found
    rw [hu.edgesOf_root hc rfl rfl hx hself, Unfolding.edgesOf,
      Unfolding.sources_of_none hu.routing, hself] at husers
    obtain ⟨found, hfound, hsorted⟩ := bind_eq_ok.1 husers
    cases hfirst.symm.trans hfound
    rw [← pure_eq_ok.1 hsorted]
    exact mem_sortBy.2 hedge
  obtain ⟨self, child, _, _, hproduct, hchild, hlt⟩ := hfill'.exists_of_mem hsame.mode hmem
  have hid : self.product.id = p := (hc _ _ hproduct).trans hparent
  -- there it is unfolded along the edges that it has at the root of its own implosion
  obtain ⟨_, below, -, -, hbelow, -, -, hfill''⟩ := hchild.inv
  rw [ht.edgesOf_root hc rfl rfl hp hid, hsame.edgesOf_eq rfl, hbelow] at hown
  cases hown
  have hheight : t.root.slots.height = child.slots.height :=
    hfill''.height_eq hsame (fun hid => Unfolding.Expands.height_eq hsame hid) hfill
  rw [t.root.height_eq, u.root.height_eq, hheight, ← child.height_eq]
  exact hlt

end Built

end Bom
