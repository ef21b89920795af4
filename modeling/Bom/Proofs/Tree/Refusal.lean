import Bom.Proofs.Tree.Reach
import Bom.Proofs.Tree.Root

/-!
# What a build is refused for

A build gives up at the first product that is missing, occurs below itself or lies too deep. The
search for a product above itself looks at nothing but the way to the place, so a product may occur
on many ways. In a catalogue where every product is taken as it is, the ways are chains of edges,
and these tell what becomes of a build: it succeeds unless some chain leads to a product that is not
registered or has as many edges as there may be levels, and if it fails then for what a chain leads
to (`buildTree_ok_iff_chains`).

* `MemoryCatalogue.edgesFrom`, `MemoryCatalogue.Chain`: the edges of a product, and chains of them.
* `MemoryCatalogue.Refuses`: the errors that chains account for.
* `Unfolding.Explodes.expand_failsOnly`: an unfolding fails with no others.
* `Unfolding.Explodes.chain_of_expands`: an unfolding that succeeds has followed every chain.
-/

namespace Bom

/-! ## Chains of edges -/

namespace MemoryCatalogue

/-- Every product is taken as it is: none is virtual, a variant, made as another one, or failing. -/
structure IsFixed (c : MemoryCatalogue) : Prop where
  concrete : ∀ p ∈ c.products, p.isVirtual = false
  variants : c.variants = []
  manufacturedAs : c.manufacturedAs = []
  failing : c.failing = []

variable (c : MemoryCatalogue) (r : TreeRequest)

/-- A product with the given id is registered. -/
def Registers (id : String) : Prop := ∃ p ∈ c.products, p.id = id

/-- The edges of a product that are valid for the request, for exactly the given routing. -/
def validEdges (routing : Option String) (product : String) : List Edge :=
  c.edges.filter fun e =>
    e.parent = product && e.bomType = r.bomType && e.routing = routing && e.validAt r.asOf

/-- The edges of a product: the valid ones for the routing of the request if there are any, and else
the generic ones. -/
def edgesFrom (product : String) : List Edge :=
  if (c.validEdges r r.routing product).isEmpty then c.validEdges r none product
  else c.validEdges r r.routing product

/-- A chain of so many edges leads from one product to another. -/
inductive Chain : String → Nat → String → Prop
  | nil (p) : Chain p 0 p
  | cons {p e n q} : e ∈ c.edgesFrom r p → Chain e.child n q → Chain p (n + 1) q

/-- The errors for which chains from the requested product account. -/
inductive Refuses (maxDepth : Nat) : EngineError → Prop
  | unregistered {n q} : Chain c r r.product n q → ¬ c.Registers q →
      Refuses maxDepth (.productNotFound q)
  | circle {m n q} : Chain c r r.product m q → Chain c r q (n + 1) q → Refuses maxDepth (.cycle q)
  | tooDeep {q} : Chain c r r.product maxDepth q → Refuses maxDepth (.maxDepth maxDepth q)

variable {c r} {p q : String} {m n : Nat}

theorem Chain.trans {x : String} (h : c.Chain r p m q) (h' : c.Chain r q n x) :
    c.Chain r p (m + n) x := by
  induction h with
  | nil => rwa [Nat.zero_add]
  | cons hedge _ ih =>
    rw [Nat.add_right_comm]
    exact .cons hedge (ih h')

theorem Chain.snoc {e : Edge} (h : c.Chain r p n q) (hedge : e ∈ c.edgesFrom r q) :
    c.Chain r p (n + 1) e.child :=
  h.trans (.cons hedge (.nil e.child))

/-- Where a chain comes back to its product, chains lead from it that are as long as one likes. -/
theorem Chain.exists_long (h : c.Chain r q (n + 1) q) (k : Nat) :
    ∃ j, k ≤ j ∧ c.Chain r q j q := by
  induction k with
  | zero => exact ⟨0, Nat.le_refl 0, .nil q⟩
  | succ k ih =>
    obtain ⟨j, hle, hchain⟩ := ih
    exact ⟨j + (n + 1), by omega, hchain.trans h⟩

/-- Where every product that chains lead to is registered and every chain is short enough, there is
nothing to refuse. -/
theorem not_refuses {maxDepth : Nat} {e : EngineError}
    (h : ∀ n q, c.Chain r r.product n q → c.Registers q ∧ n < maxDepth) :
    ¬ c.Refuses r maxDepth e := by
  rintro (⟨hchain, hnot⟩ | ⟨hchain, hback⟩ | hchain)
  · exact hnot (h _ _ hchain).1
  · obtain ⟨j, hle, hlong⟩ := hback.exists_long maxDepth
    have := (h _ _ (hchain.trans hlong)).2
    omega
  · exact Nat.lt_irrefl _ (h _ _ hchain).2

/-! ## What a fixed catalogue answers -/

theorem registers_iff {id : String} : c.Registers id ↔ ∃ p, c.product? id = some p := by
  constructor
  · rintro ⟨p, hp, hid⟩
    refine Option.isSome_iff_exists.1 (List.find?_isSome.2 ⟨p, hp, ?_⟩)
    exact decide_eq_true hid
  · rintro ⟨p, hp⟩
    exact ⟨p, mem_products_of_product? hp⟩

namespace IsFixed

theorem answer_eq (h : c.IsFixed) {α : Type} (product : String) (a : α) :
    c.answer product a = .ok a :=
  answer_eq_ok.2 ⟨by simp [h.failing], rfl⟩

/-- Every question for edges is answered with the valid ones. -/
theorem edges_eq (h : c.IsFixed) (routing : Option String) (product : String) :
    ∃ edges, c.catalogue.edges .components product r.bomType routing r.asOf = .ok edges ∧
      edges.Perm (c.validEdges r routing product) :=
  ⟨_, h.answer_eq product _, sortBy_perm _ _⟩

theorem madeAs_eq (h : c.IsFixed) (product : String) :
    r.madeAs c.catalogue product = .ok product := by
  refine TreeRequest.madeAs_eq_ok.2 ⟨none, ?_, rfl⟩
  refine (h.answer_eq product _).trans ?_
  rw [h.manufacturedAs]
  rfl

theorem exists_hasBom (h : c.IsFixed) (product : String) :
    ∃ found, r.hasBom c.catalogue product = .ok found := by
  obtain ⟨routed, hrouted, -⟩ := h.edges_eq (r := r) r.routing product
  obtain ⟨generic, hgeneric, -⟩ := h.edges_eq (r := r) none product
  have hrest (routed : List Edge) : ∃ found, (if routed.isEmpty then do
      let generic ← ask (c.catalogue.edges .components product r.bomType none r.asOf)
      pure !generic.isEmpty
    else pure true : Except EngineError Bool) = .ok found := by
    rw [hgeneric]
    split
    · exact ⟨_, rfl⟩
    · exact ⟨_, rfl⟩
  unfold TreeRequest.hasBom
  rw [hrouted]
  cases r.routing with
  | none => exact hrest []
  | some _ => exact hrest routed

/-- A product is made as itself. -/
theorem manufactured_eq (h : c.IsFixed) (product : String) :
    r.manufactured c.catalogue product = .ok product := by
  have hparent : c.catalogue.virtualParent product r.asOf = .ok none := by
    refine (h.answer_eq product _).trans ?_
    rw [h.variants]
    rfl
  obtain ⟨found, hfound⟩ := h.exists_hasBom (r := r) product
  unfold TreeRequest.manufactured
  rw [h.madeAs_eq]
  refine bind_eq_ok.2 ⟨product, rfl, bind_eq_ok.2 ⟨found, hfound, ?_⟩⟩
  cases found with
  | true => rfl
  | false => exact bind_eq_ok.2 ⟨none, ask_eq_ok.2 hparent, rfl⟩

end IsFixed

end MemoryCatalogue

/-! ## Explosions of a fixed catalogue -/

namespace Unfolding

open MemoryCatalogue Noted

/-- The unfolding explodes the fixed catalogue for the request. -/
structure Explodes (u : Unfolding) (c : MemoryCatalogue) (r : TreeRequest) : Prop where
  catalogue : u.catalogue = c.catalogue
  bomType : u.bomType = r.bomType
  routing : u.routing = r.routing
  asOf : u.asOf = r.asOf
  mode : u.mode = .explosion
  isFixed : c.IsFixed

variable {u : Unfolding} {c : MemoryCatalogue} {r : TreeRequest}

namespace Explodes

/-- A question for edges is answered with the valid ones. -/
theorem edges_eq (h : u.Explodes c r) (routing : Option String) (product : String) :
    ∃ edges, u.catalogue.edges u.direction product u.bomType routing u.asOf = .ok edges ∧
      edges.Perm (c.validEdges r routing product) := by
  have hdirection : u.direction = .components := by
    rw [Unfolding.direction, h.mode]
    rfl
  rw [hdirection, h.catalogue, h.bomType, h.asOf]
  exact h.isFixed.edges_eq routing product

/-- A place has the edges of its product. -/
theorem edgesOf_eq (h : u.Explodes c r) (self : Occurrence) :
    ∃ edges, u.edgesOf self none = .ok edges ∧
      edges.Perm (c.edgesFrom r self.product.id) := by
  obtain ⟨routed, hrouted, hroutedPerm⟩ := h.edges_eq r.routing self.product.id
  obtain ⟨generic, hgeneric, hgenericPerm⟩ := h.edges_eq none self.product.id
  have hlast : u.firstEdges [(none, self.product.id)] = .ok generic := by
    rw [firstEdges, hgeneric]
    cases generic <;> rfl
  have hfound : ∃ found, u.firstEdges (u.sources self.product.id none) = .ok found ∧
      found.Perm (c.edgesFrom r self.product.id) := by
    unfold sources routings edgesFrom
    rw [h.routing]
    cases hrouting : r.routing with
    | none =>
      refine ⟨generic, hlast, ?_⟩
      rwa [ite_self]
    | some routing =>
      rw [hrouting] at hrouted hroutedPerm
      rw [← hroutedPerm.isEmpty_eq]
      cases routed with
      | nil => exact ⟨generic, (firstEdges_of_nil hrouted _).trans hlast, hgenericPerm⟩
      | cons e rest => exact ⟨_, firstEdges_of_mem List.mem_cons_self hrouted _, hroutedPerm⟩
  obtain ⟨found, hfound, hperm⟩ := hfound
  exact ⟨_, bind_eq_ok.2 ⟨found, hfound, rfl⟩, (sortBy_perm _ _).trans hperm⟩

theorem descends_eq (h : u.Explodes c r) (self : Occurrence) (replaced : Option Occurrence) :
    u.descends self replaced = .ok true := by
  rw [Unfolding.descends, h.mode]
  rfl

/-- An edge leads to the product at its end, which is registered. -/
theorem attach_eq (h : u.Explodes c r) {s : Surroundings} {edge : Edge} {a : Attachment}
    (ha : (u.attach s edge).outcome = .ok a) :
    ∃ o, a = .plain o ∧ o.product.id = edge.child ∧ c.Registers edge.child := by
  rw [attach, h.mode] at ha
  obtain ⟨product, resolution, hproduct, hresolve, rfl⟩ := attachComponent_eq_ok.1 ha
  rw [h.catalogue] at hproduct
  obtain ⟨-, hfound⟩ := answer_eq_ok.1 hproduct
  obtain ⟨hmem, hid⟩ := mem_products_of_product? hfound
  -- a product that is not virtual is left unchanged
  rw [resolve, h.isFixed.concrete product hmem] at hresolve
  cases pure_eq_ok.1 hresolve
  exact ⟨_, rfl, hid, product, hmem, hid⟩

/-- An edge leads nowhere only if the product at its end is not registered. -/
theorem attach_failsOnly (h : u.Explodes c r) {P : EngineError → Prop} {s : Surroundings}
    {edge : Edge} (hmissing : ¬ c.Registers edge.child → P (.productNotFound edge.child)) :
    (u.attach s edge).FailsOnly P := by
  have hproduct : u.catalogue.product edge.child = .ok (c.product? edge.child) := by
    rw [h.catalogue]
    exact h.isFixed.answer_eq _ _
  rw [attach, h.mode]
  cases hfound : c.product? edge.child with
  | none =>
    rw [hfound] at hproduct
    refine FailsOnly.bind (fun e he => ?_) fun product ha => ?_
    · rw [outcome_lift, Catalogue.productOf, hproduct] at he
      cases he
      refine hmissing fun hregistered => ?_
      obtain ⟨p, hp⟩ := registers_iff.1 hregistered
      rw [hfound] at hp
      cases hp
    · have := Catalogue.productOf_eq_ok.1 ha
      rw [hproduct] at this
      cases this
  | some product =>
    rw [hfound] at hproduct
    have hconcrete := h.isFixed.concrete product (mem_products_of_product? hfound).1
    have hresolve : resolve u.catalogue s product (quantityMultiplier edge.quantity) =
        .ok .unchanged := by
      rw [resolve, hconcrete]
      rfl
    exact failsOnly_of_ok (attachComponent_eq_ok.2 ⟨product, _, hproduct, hresolve, rfl⟩)

/-! ### Failing -/

/-- Slots are filled unless the product at the end of an edge is not registered or cannot be
unfolded. -/
theorem fill_failsOnly (h : u.Explodes c r) {P : EngineError → Prop}
    {grow : Occurrence → Option Occurrence → Nat → Noted EngineError (Node × Nat)}
    (s : Surroundings) {edges : List Edge}
    (hmissing : ∀ e ∈ edges, ¬ c.Registers e.child → P (.productNotFound e.child))
    (hgrow : ∀ e ∈ edges, ∀ o next, o.product.id = e.child → (grow o none next).FailsOnly P)
    (next : Nat) : (u.fill grow s edges next).FailsOnly P := by
  induction edges generalizing next with
  | nil => exact failsOnly_of_ok rfl
  | cons edge edges ih =>
    obtain ⟨hmissing, hmissingRest⟩ := List.forall_mem_cons.1 hmissing
    obtain ⟨hgrow, hgrowRest⟩ := List.forall_mem_cons.1 hgrow
    refine (h.attach_failsOnly hmissing).bind fun a ha => ?_
    obtain ⟨o, rfl, hid, -⟩ := h.attach_eq ha
    have hsettle : (u.settle grow { o with number := next } none (next + 1)).FailsOnly P :=
      FailsOnly.bind_of_ok (h.descends_eq _ _) (hgrow _ _ hid)
    refine hsettle.bind fun (child, mid) _ => ?_
    exact (ih hmissingRest hgrowRest mid).bind fun _ _ => failsOnly_of_ok rfl

/-- An unfolding fails only for what chains account for, if the products above a place are on a
chain to the place, and the room that is left is what the chain from the root leaves. -/
theorem expand_failsOnly (h : u.Explodes c r) {room depth : Nat} {above : List String}
    {self : Occurrence} (hroom : depth + room = u.maxDepth)
    (hchain : c.Chain r r.product depth self.product.id)
    (habove : ∀ a ∈ above, ∃ n, c.Chain r a (n + 1) self.product.id) (next : Nat) :
    (u.expand room above self none next).FailsOnly (c.Refuses r u.maxDepth) := by
  induction room generalizing depth above self next with
  | zero =>
    intro e he
    cases he
    rw [Nat.add_zero] at hroom
    exact .tooDeep (hroom ▸ hchain)
  | succ room ih =>
    rw [expand]
    split
    · next hmem =>
      intro e he
      cases he
      obtain ⟨n, hback⟩ := habove _ hmem
      exact .circle hchain hback
    · obtain ⟨edges, hedges, hperm⟩ := h.edgesOf_eq self
      refine FailsOnly.bind_of_ok hedges ?_
      refine FailsOnly.bind (h.fill_failsOnly _ (fun e he hnot => ?_) (fun e he o next hid => ?_) _)
        fun _ _ => failsOnly_of_ok rfl
      · exact .unregistered (hchain.snoc (hperm.mem_iff.1 he)) hnot
      · -- one edge further along every chain
        have hedge := hperm.mem_iff.1 he
        have hroom' : depth + 1 + room = u.maxDepth := by omega
        refine ih hroom' ?_ ?_ next
        · rw [hid]
          exact hchain.snoc hedge
        · rw [hid]
          refine List.forall_mem_cons.2 ⟨⟨0, .cons hedge (.nil _)⟩, fun a ha => ?_⟩
          obtain ⟨n, hback⟩ := habove a ha
          exact ⟨n + 1, hback.snoc hedge⟩

/-! ### Succeeding -/

/-- Filled slots have an unfolded place for each edge. -/
theorem exists_of_mem (h : u.Explodes c r) {room : Nat} {ids : List String} {s : Surroundings}
    {edges : List Edge} {next last : Nat} {slots : Slots} {edge : Edge}
    (hfill : u.Fills room ids s edges next slots last) (hedge : edge ∈ edges) :
    c.Registers edge.child ∧ ∃ (o : Occurrence) (child : Node) (first stop : Nat),
      o.product.id = edge.child ∧ u.Expands room ids o none first child stop := by
  induction edges generalizing next slots with
  | nil => cases hedge
  | cons e edges ih =>
    cases hfill with
    | vacant hattach _ =>
      obtain ⟨_, ha, -⟩ := h.attach_eq hattach
      cases ha
    | replacing hattach _ _ =>
      obtain ⟨_, ha, -⟩ := h.attach_eq hattach
      cases ha
    | @plain _ _ _ _ _ _ o _ _ _ _ hattach hchild hrest =>
      rcases List.mem_cons.1 hedge with rfl | hedge
      · obtain ⟨_, ha, hid, hregistered⟩ := h.attach_eq hattach
        cases ha
        cases hchild with
        | deep _ hexpand =>
          exact ⟨hregistered, { o with number := next }, _, _, _, hid, hexpand⟩
        | flat hdescends =>
          rw [h.descends_eq] at hdescends
          cases hdescends
      · exact ih hrest hedge

/-- A place that has been unfolded has room for every chain from its product, and the chains lead to
registered products. -/
theorem chain_of_expands (h : u.Explodes c r) {p q : String} {n : Nat} (hchain : c.Chain r p n q)
    (hp : c.Registers p) {room : Nat} {above : List String} {self : Occurrence} {next last : Nat}
    {node : Node} (hself : self.product.id = p)
    (hexpand : u.Expands room above self none next node last) : c.Registers q ∧ n < room := by
  induction hchain generalizing room above self next last node with
  | nil =>
    obtain ⟨below, _, rfl, -⟩ := hexpand.inv
    exact ⟨hp, Nat.succ_pos below⟩
  | cons hedge _ ih =>
    obtain ⟨below, edges, rfl, -, hedges, -, -, hfill⟩ := hexpand.inv
    obtain ⟨edges', hedges', hperm⟩ := h.edgesOf_eq self
    cases hedges.symm.trans hedges'
    rw [← hself] at hedge
    obtain ⟨hregistered, o, child, first, stop, hid, hchild⟩ :=
      h.exists_of_mem hfill (hperm.mem_iff.2 hedge)
    obtain ⟨hq, hlt⟩ := ih hregistered hid hchild
    exact ⟨hq, Nat.succ_lt_succ hlt⟩

end Explodes

end Unfolding

/-! ## Trees of a fixed catalogue -/

namespace MemoryCatalogue

open Noted

variable {c : MemoryCatalogue} {r : TreeRequest} {maxDepth : Nat}

/-- A build fails only for what chains account for. -/
theorem IsFixed.buildTree_failsOnly (hc : c.IsFixed) (hmode : r.mode = .explosion)
    (hr : c.Registers r.product) :
    (buildTree c.catalogue maxDepth r).FailsOnly (c.Refuses r maxDepth) := by
  obtain ⟨product, hproduct⟩ := registers_iff.1 hr
  have hid := (mem_products_of_product? hproduct).2
  have hfound : c.catalogue.productOf r.product = .ok product :=
    Catalogue.productOf_eq_ok.2 (answer_eq_ok.2 ⟨by simp [hc.failing], hproduct⟩)
  have hselected : ∃ features, r.selected c.catalogue product.id = .ok features := by
    unfold TreeRequest.selected
    cases r.features with
    | some features => exact ⟨features, rfl⟩
    | none => exact ⟨_, ask_eq_ok.2 (hc.answer_eq _ _)⟩
  obtain ⟨features, hfeatures⟩ := hselected
  have hown : (if product.id = product.id then pure product else
      c.catalogue.productOf product.id : Except EngineError Product) = .ok product := if_pos rfl
  refine FailsOnly.bind_of_ok hfound ?_
  refine FailsOnly.bind_of_ok (hc.manufactured_eq product.id) ?_
  refine FailsOnly.bind_of_ok hown ?_
  refine FailsOnly.bind_of_ok hfeatures ?_
  refine FailsOnly.bind ?_ fun _ _ => failsOnly_of_ok rfl
  rw [if_pos rfl]
  have hexplodes : Unfolding.Explodes ⟨c.catalogue, r.bomType, r.routing, r.asOf, r.mode, features,
      r.product, maxDepth⟩ c r := ⟨rfl, rfl, rfl, rfl, hmode, hc⟩
  refine hexplodes.expand_failsOnly (Nat.zero_add maxDepth) ?_ (List.forall_mem_nil _) 2
  change c.Chain r r.product 0 product.id
  rw [hid]
  exact .nil r.product

/-- A tree has room for every chain from the requested product. -/
theorem IsFixed.chain_of_buildTree (hc : c.IsFixed) (hmode : r.mode = .explosion) {t : Tree}
    (ht : (buildTree c.catalogue maxDepth r).outcome = .ok t) {n : Nat} {q : String}
    (hchain : c.Chain r r.product n q) : c.Registers q ∧ n < maxDepth := by
  have hbuilt := built_of_buildTree ht
  obtain ⟨last, hrun⟩ := hbuilt.run
  have hmade : t.manufacturedId = t.requested.product.id :=
    Except.ok.inj (hbuilt.manufactured.symm.trans (hc.manufactured_eq _))
  obtain ⟨-, hfound⟩ := answer_eq_ok.1 hbuilt.found
  obtain ⟨hmem, hid⟩ := mem_products_of_product? hfound
  rw [Tree.redirected, if_pos hmade] at hrun
  have hexplodes : (t.unfolding c.catalogue maxDepth).Explodes c r :=
    ⟨rfl, hbuilt.bomType, hbuilt.routing, hbuilt.asOf, hbuilt.mode.trans hmode, hc⟩
  refine hexplodes.chain_of_expands hchain ⟨_, hmem, hid⟩ ?_ hrun
  exact (congrArg Product.id (hbuilt.own hmade)).trans hid

end MemoryCatalogue

/-- In a catalogue where every product is taken as it is, an explosion succeeds just when every
chain of edges from the requested product leads to a registered one and has fewer edges than there
may be levels. If it fails, then because a chain leads to a product that is not registered, or to
one from which a chain leads back to it, or has as many edges as there may be levels. -/
theorem buildTree_ok_iff_chains (c : MemoryCatalogue) (hc : c.IsFixed) (maxDepth : Nat)
    (r : TreeRequest) (hmode : r.mode = .explosion) (hr : c.Registers r.product) :
    ((∃ t, (buildTree c.catalogue maxDepth r).outcome = .ok t) ↔
      ∀ n q, c.Chain r r.product n q → c.Registers q ∧ n < maxDepth) ∧
    ∀ e, (buildTree c.catalogue maxDepth r).outcome = .error e → c.Refuses r maxDepth e := by
  have hfails : (buildTree c.catalogue maxDepth r).FailsOnly (c.Refuses r maxDepth) :=
    hc.buildTree_failsOnly hmode hr
  refine ⟨⟨?_, fun hchains => ?_⟩, hfails⟩
  · rintro ⟨t, ht⟩ n q hchain
    exact hc.chain_of_buildTree hmode ht hchain
  · cases houtcome : (buildTree c.catalogue maxDepth r).outcome with
    | ok t => exact ⟨t, rfl⟩
    | error e => exact absurd (hfails e houtcome) (MemoryCatalogue.not_refuses hchains)

/-- The catalogue of a cart with a wheel, and with an axle that has one as well. -/
def MemoryCatalogue.carts : MemoryCatalogue :=
  { empty with
    products := [sampleProduct "cart" false, sampleProduct "axle" false,
      sampleProduct "wheel" false]
    edges := [sampleEdge "cart" "wheel" 1, sampleEdge "cart" "axle" 2,
      sampleEdge "axle" "wheel" 1] }

/-- The cart can be built with three levels, though it has a wheel on two ways, and not with two. -/
theorem cart_chains :
    let c := MemoryCatalogue.carts
    let r := TreeRequest.sample "cart"
    (∃ t, (buildTree c.catalogue 3 r).outcome = .ok t) ∧
      (∀ n q, c.Chain r "cart" n q → c.Registers q ∧ n < 3) ∧
      (buildTree c.catalogue 2 r).outcome = .error (.maxDepth 2 "wheel") ∧
      c.Refuses r 2 (.maxDepth 2 "wheel") := by
  intro c r
  have hc : c.IsFixed := ⟨by decide, rfl, rfl, rfl⟩
  have hcart : c.Registers "cart" := ⟨_, List.mem_cons_self, rfl⟩
  have hbuilt : ∃ t, (buildTree c.catalogue 3 r).outcome = .ok t := ⟨_, rfl⟩
  exact ⟨hbuilt, (buildTree_ok_iff_chains c hc 3 r rfl hcart).1.1 hbuilt, rfl,
    (buildTree_ok_iff_chains c hc 2 r rfl hcart).2 _ rfl⟩

end Bom
