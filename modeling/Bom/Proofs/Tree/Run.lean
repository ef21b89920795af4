import Bom.Proofs.Catalogue
import Bom.Tree.Build

/-!
# What an unfolding that succeeds has done

A tree is built by `Unfolding.expand`, which looks up the edges of a place and hands them to
`Unfolding.fill`, which attaches something to each edge and settles it, which may expand it in turn.
`Expands`, `Settles` and `Fills` say what a successful call of each has done, guards included, as
relations between the arguments and the result. Facts about finished trees are proved by induction
on them and do not open the functions again.

* `Unfolding.attachComponent_eq_ok`, `Unfolding.attachUser_eq_ok`: what an edge leads to.
* `Unfolding.expands_of_expand`, `Unfolding.Expands.outcome`: the successful calls are the
  derivations.
* `Built`, `built_of_buildTree`: where the parts of a finished tree come from.
-/

namespace Bom

namespace Unfolding

/-! ## What an edge leads to -/

/-- What a resolution makes of a component that was found. -/
def attachment (found : Occurrence) : Resolution → Attachment
  | .unchanged => .plain found
  | .removed _ _ => .vacant
  | .substituted product rule multiplier _ =>
    .replacing found { found with product, rule, multiplier }

/-- The edge of a component leads to what the resolution makes of the component. -/
theorem attachComponent_eq_ok {u : Unfolding} {s : Surroundings} {edge : Edge} {a : Attachment} :
    (u.attachComponent s edge).outcome = .ok a ↔
      ∃ product resolution, u.catalogue.product edge.child = .ok (some product) ∧
        resolve u.catalogue s product (quantityMultiplier edge.quantity) = .ok resolution ∧
        a = attachment (component edge product) resolution := by
  unfold attachComponent
  simp only [Noted.outcome_bind_eq_ok, Noted.outcome_lift, Noted.outcome_give,
    Catalogue.productOf_eq_ok]
  constructor
  · rintro ⟨product, hp, _, _, _, _, resolution, hr, h⟩
    refine ⟨product, resolution, hp, hr, ?_⟩
    cases resolution <;> cases h <;> rfl
  · rintro ⟨product, resolution, hp, hr, rfl⟩
    refine ⟨product, hp, (), trivial, (), trivial, resolution, hr, ?_⟩
    cases resolution <;> rfl

/-- The edge of a user leads to the user. -/
theorem attachUser_eq_ok {u : Unfolding} {edge : Edge} {a : Attachment} :
    (u.attachUser edge).outcome = .ok a ↔
      ∃ product, u.catalogue.product edge.parent = .ok (some product) ∧
        a = .plain { Occurrence.detached 0 product with edge := some edge } := by
  unfold attachUser
  simp only [Noted.outcome_bind_eq_ok, Noted.outcome_lift, Noted.outcome_pure,
    Catalogue.productOf_eq_ok]
  constructor
  · rintro ⟨product, hp, h⟩
    cases h
    exact ⟨product, hp, rfl⟩
  · rintro ⟨product, hp, rfl⟩
    exact ⟨product, hp, rfl⟩

/-- What stands in a slot has been reached by the edge of the slot. -/
theorem attach_plain {u : Unfolding} {s : Surroundings} {edge : Edge} {o : Occurrence}
    (h : (u.attach s edge).outcome = .ok (.plain o)) : o.edge = some edge := by
  unfold attach at h
  split at h
  · obtain ⟨product, resolution, -, -, ha⟩ := attachComponent_eq_ok.1 h
    cases resolution <;> cases ha
    rfl
  · obtain ⟨product, -, ha⟩ := attachUser_eq_ok.1 h
    cases ha
    rfl

/-- A component that has been replaced is virtual, was reached by the edge of its replacement, and
is part of an explosion. -/
theorem attach_replacing {u : Unfolding} {s : Surroundings} {edge : Edge} {found o : Occurrence}
    (h : (u.attach s edge).outcome = .ok (.replacing found o)) :
    u.mode.isExplosion = true ∧ found.product.isVirtual = true ∧ found.edge = some edge ∧
      o.edge = some edge := by
  unfold attach at h
  split at h
  · next hmode =>
    obtain ⟨product, resolution, -, hr, ha⟩ := attachComponent_eq_ok.1 h
    cases resolution <;> cases ha
    refine ⟨hmode, ?_, rfl, rfl⟩
    -- a product that is not virtual is left unchanged
    unfold resolve at hr
    split at hr
    · assumption
    · cases hr
  · obtain ⟨product, -, ha⟩ := attachUser_eq_ok.1 h
    cases ha

/-- The edges of a place ascend. -/
theorem edgesOf_sorted {u : Unfolding} {self : Occurrence} {replaced : Option Occurrence}
    {edges : List Edge} (h : u.edgesOf self replaced = .ok edges) :
    edges.Pairwise fun a b => a.sequence ≤ b.sequence := by
  unfold edgesOf at h
  obtain ⟨found, -, h⟩ := bind_eq_ok.1 h
  rw [← pure_eq_ok.1 h]
  exact sortBy_sorted Edge.sequence found

theorem firstEdges_congr {u u' : Unfolding} {places : List (Option String × String)}
    (h : ∀ place ∈ places,
      u'.catalogue.edges u'.direction place.2 u'.bomType place.1 u'.asOf =
        u.catalogue.edges u.direction place.2 u.bomType place.1 u.asOf) :
    u'.firstEdges places = u.firstEdges places := by
  induction places with
  | nil => rfl
  | cons place rest ih =>
    obtain ⟨hplace, hrest⟩ := List.forall_mem_cons.1 h
    rw [firstEdges, firstEdges, hplace, ih hrest]

/-- Edges are looked for without a routing and for the given one. -/
theorem mem_routings {u : Unfolding} {routing : Option String} :
    routing ∈ u.routings ↔ routing = none ∨ routing = u.routing := by
  unfold routings
  cases u.routing with
  | none => simp
  | some given => simp [or_comm]

/-- The edges of a place depend on nothing but the products there and the answers to the questions
for edges, which are about the routings of the unfolding. -/
theorem edgesOf_congr {u u' : Unfolding}
    (h : ∀ product, ∀ routing ∈ u.routings,
      u'.catalogue.edges u'.direction product u'.bomType routing u'.asOf =
        u.catalogue.edges u.direction product u.bomType routing u.asOf)
    (hrouting : u'.routing = u.routing) {self self' : Occurrence}
    {replaced replaced' : Option Occurrence} (hself : self'.product.id = self.product.id)
    (hreplaced : replaced'.map (·.product.id) = replaced.map (·.product.id)) :
    u'.edgesOf self' replaced' = u.edgesOf self replaced := by
  have hroutings : u'.routings = u.routings := by rw [routings, routings, hrouting]
  unfold edgesOf sources
  rw [hself, hreplaced, hroutings, firstEdges_congr]
  intro place hplace
  obtain ⟨routing, hmem, hplace⟩ := List.mem_flatMap.1 hplace
  obtain ⟨product, -, rfl⟩ := List.mem_map.1 hplace
  exact h product routing hmem

/-- Without a routing edges are looked for at the product, and then at the one it replaced. -/
theorem sources_of_none {u : Unfolding} (h : u.routing = none) (product : String)
    (replaced : Option String) :
    u.sources product replaced = (product :: replaced.toList).map fun p => (none, p) := by
  rw [sources, routings, h]
  exact List.flatMap_singleton _ none

/-- A source with edges is the first that has any. -/
theorem firstEdges_of_mem {u : Unfolding} {routing : Option String} {product : String}
    {edges : List Edge} {edge : Edge} (hedge : edge ∈ edges)
    (h : u.catalogue.edges u.direction product u.bomType routing u.asOf = .ok edges)
    (rest : List (Option String × String)) :
    u.firstEdges ((routing, product) :: rest) = .ok edges := by
  rw [firstEdges, h]
  cases edges with
  | nil => cases hedge
  | cons _ _ => rfl

/-- A source without edges is passed over. -/
theorem firstEdges_of_nil {u : Unfolding} {routing : Option String} {product : String}
    (h : u.catalogue.edges u.direction product u.bomType routing u.asOf = .ok [])
    (rest : List (Option String × String)) :
    u.firstEdges ((routing, product) :: rest) = u.firstEdges rest := by
  rw [firstEdges, h]
  rfl

/-- The first question for the edges of a place is about the product at the place. -/
theorem exists_edges_of_edgesOf {u : Unfolding} {self : Occurrence} {replaced : Option Occurrence}
    {edges : List Edge} (h : u.edgesOf self replaced = .ok edges) :
    ∃ routing found,
      u.catalogue.edges u.direction self.product.id u.bomType routing u.asOf = .ok found := by
  unfold edgesOf at h
  obtain ⟨found, hfirst, -⟩ := bind_eq_ok.1 h
  obtain ⟨routing, rest, hsources⟩ : ∃ routing rest,
      u.sources self.product.id (replaced.map (·.product.id)) =
        (routing, self.product.id) :: rest := by
    unfold sources routings
    cases u.routing with
    | none => exact ⟨_, _, rfl⟩
    | some routing => exact ⟨_, _, rfl⟩
  rw [hsources, firstEdges] at hfirst
  obtain ⟨answer, hanswer, -⟩ := bind_eq_ok.1 hfirst
  exact ⟨routing, answer, ask_eq_ok.1 hanswer⟩

/-! ## Successful calls -/

mutual

/-- A successful `expand`: with room left and a product that does not occur above, the edges of the
place have been looked up and their slots filled. -/
inductive Expands (u : Unfolding) :
    Nat → List String → Occurrence → Option Occurrence → Nat → Node → Nat → Prop
  | mk {room above self replaced next edges slots last} :
      self.product.id ∉ above → u.edgesOf self replaced = .ok edges →
      Fills u room (self.product.id :: above) (u.surroundings self replaced) edges next slots
        last →
      Expands u (room + 1) above self replaced next
        (.mk { self with bomType := some u.bomType } replaced slots) last

/-- A successful `settle`: the place has been expanded if the mode descends to it. -/
inductive Settles (u : Unfolding) :
    Nat → List String → Occurrence → Option Occurrence → Nat → Node → Nat → Prop
  | deep {room above self replaced next node last} :
      u.descends self replaced = .ok true →
      Expands u room above self replaced next node last →
      Settles u room above self replaced next node last
  | flat {room above self replaced next} :
      u.descends self replaced = .ok false →
      Settles u room above self replaced next (.mk self replaced .nil) next

/-- A successful `fill`: each edge has been given a slot, numbered in turn. A replaced component
takes the number before that of its replacement. -/
inductive Fills (u : Unfolding) :
    Nat → List String → Surroundings → List Edge → Nat → Slots → Nat → Prop
  | nil {room above s next} : Fills u room above s [] next .nil next
  | vacant {room above s edge edges next rest last} :
      (u.attach s edge).outcome = .ok .vacant →
      Fills u room above s edges next rest last →
      Fills u room above s (edge :: edges) next (.vacant edge rest) last
  | plain {room above s edge edges next o child mid rest last} :
      (u.attach s edge).outcome = .ok (.plain o) →
      Settles u room above { o with number := next } none (next + 1) child mid →
      Fills u room above s edges mid rest last →
      Fills u room above s (edge :: edges) next (.filled edge child rest) last
  | replacing {room above s edge edges next component o child mid rest last} :
      (u.attach s edge).outcome = .ok (.replacing component o) →
      Settles u room above { o with number := next + 1 } (some { component with number := next })
        (next + 2) child mid →
      Fills u room above s edges mid rest last →
      Fills u room above s (edge :: edges) next (.filled edge child rest) last

end

variable {u : Unfolding} {room : Nat} {above : List String}

/-- What a successful `expand` has done. -/
theorem Expands.inv {self : Occurrence} {replaced : Option Occurrence} {next last : Nat}
    {node : Node} (h : u.Expands room above self replaced next node last) :
    ∃ below edges, room = below + 1 ∧ self.product.id ∉ above ∧
      u.edgesOf self replaced = .ok edges ∧
      node.self = { self with bomType := some u.bomType } ∧ node.replaced = replaced ∧
      u.Fills below (self.product.id :: above) (u.surroundings self replaced) edges next node.slots
        last := by
  cases h with
  | mk hfresh hedges hfill => exact ⟨_, _, rfl, hfresh, hedges, rfl, rfl, hfill⟩

/-- A successful `settle` is a derivation, if every successful call that it may make is one. -/
theorem settles_of_settle
    (hgrow : ∀ {self replaced next node last},
      (u.expand room above self replaced next).outcome = .ok (node, last) →
        u.Expands room above self replaced next node last)
    {self : Occurrence} {replaced : Option Occurrence} {next last : Nat} {node : Node}
    (h : (u.settle (u.expand room above) self replaced next).outcome = .ok (node, last)) :
    u.Settles room above self replaced next node last := by
  unfold settle at h
  obtain ⟨descends, hd, h⟩ := Noted.outcome_bind_eq_ok.1 h
  cases descends with
  | true => exact .deep hd (hgrow h)
  | false =>
    cases h
    exact .flat hd

/-- A successful `fill` is a derivation, if every successful call that it may make is one. -/
theorem fills_of_fill
    (hgrow : ∀ {self replaced next node last},
      (u.expand room above self replaced next).outcome = .ok (node, last) →
        u.Expands room above self replaced next node last)
    {s : Surroundings} {edges : List Edge} {next last : Nat} {slots : Slots}
    (h : (u.fill (u.expand room above) s edges next).outcome = .ok (slots, last)) :
    u.Fills room above s edges next slots last := by
  induction edges generalizing next last slots with
  | nil =>
    cases h
    exact .nil
  | cons edge edges ih =>
    unfold fill at h
    obtain ⟨attached, ha, h⟩ := Noted.outcome_bind_eq_ok.1 h
    cases attached with
    | vacant =>
      obtain ⟨⟨rest, _⟩, hrest, h⟩ := Noted.outcome_bind_eq_ok.1 h
      cases h
      exact .vacant ha (ih hrest)
    | plain o =>
      obtain ⟨⟨child, mid⟩, hchild, h⟩ := Noted.outcome_bind_eq_ok.1 h
      obtain ⟨⟨rest, _⟩, hrest, h⟩ := Noted.outcome_bind_eq_ok.1 h
      cases h
      exact .plain ha (settles_of_settle hgrow hchild) (ih hrest)
    | replacing component o =>
      obtain ⟨⟨child, mid⟩, hchild, h⟩ := Noted.outcome_bind_eq_ok.1 h
      obtain ⟨⟨rest, _⟩, hrest, h⟩ := Noted.outcome_bind_eq_ok.1 h
      cases h
      exact .replacing ha (settles_of_settle hgrow hchild) (ih hrest)

/-- A successful `expand` is a derivation. -/
theorem expands_of_expand {self : Occurrence} {replaced : Option Occurrence} {next last : Nat}
    {node : Node} (h : (u.expand room above self replaced next).outcome = .ok (node, last)) :
    u.Expands room above self replaced next node last := by
  induction room generalizing above self replaced next node last with
  | zero => cases h
  | succ room ih =>
    unfold expand at h
    split at h
    · cases h
    · next hfresh =>
      obtain ⟨edges, hedges, h⟩ := Noted.outcome_bind_eq_ok.1 h
      obtain ⟨⟨slots, _⟩, hslots, h⟩ := Noted.outcome_bind_eq_ok.1 h
      cases h
      exact .mk hfresh hedges (fills_of_fill ih hslots)

mutual

/-- A derivation is a successful `expand`. -/
theorem Expands.outcome {room : Nat} {above : List String} {self : Occurrence}
    {replaced : Option Occurrence} {next last : Nat} {node : Node} :
    u.Expands room above self replaced next node last →
      (u.expand room above self replaced next).outcome = .ok (node, last)
  | .mk hfresh hedges hfill => by
    rw [expand, if_neg hfresh]
    exact Noted.outcome_bind_eq_ok.2 ⟨_, hedges, Noted.outcome_bind_eq_ok.2 ⟨_, hfill.outcome, rfl⟩⟩

/-- A derivation is a successful `settle`. -/
theorem Settles.outcome {room : Nat} {above : List String} {self : Occurrence}
    {replaced : Option Occurrence} {next last : Nat} {node : Node} :
    u.Settles room above self replaced next node last →
      (u.settle (u.expand room above) self replaced next).outcome = .ok (node, last)
  | .deep hdescends hexpand => Noted.outcome_bind_eq_ok.2 ⟨true, hdescends, hexpand.outcome⟩
  | .flat hdescends => Noted.outcome_bind_eq_ok.2 ⟨false, hdescends, rfl⟩

/-- A derivation is a successful `fill`. -/
theorem Fills.outcome {room : Nat} {above : List String} {s : Surroundings} {edges : List Edge}
    {next last : Nat} {slots : Slots} :
    u.Fills room above s edges next slots last →
      (u.fill (u.expand room above) s edges next).outcome = .ok (slots, last)
  | .nil => rfl
  | .vacant hattach hrest =>
    Noted.outcome_bind_eq_ok.2 ⟨_, hattach, Noted.outcome_bind_eq_ok.2 ⟨_, hrest.outcome, rfl⟩⟩
  | .plain hattach hchild hrest =>
    Noted.outcome_bind_eq_ok.2 ⟨_, hattach, Noted.outcome_bind_eq_ok.2 ⟨_, hchild.outcome,
      Noted.outcome_bind_eq_ok.2 ⟨_, hrest.outcome, rfl⟩⟩⟩
  | .replacing hattach hchild hrest =>
    Noted.outcome_bind_eq_ok.2 ⟨_, hattach, Noted.outcome_bind_eq_ok.2 ⟨_, hchild.outcome,
      Noted.outcome_bind_eq_ok.2 ⟨_, hrest.outcome, rfl⟩⟩⟩

end

end Unfolding

/-- A catalogue in memory that has told the edges of a place is not failing for the product there.
-/
theorem MemoryCatalogue.not_mem_failing_of_edgesOf {products : MemoryCatalogue} {u : Unfolding}
    (hc : u.catalogue = products.catalogue) {self : Occurrence} {replaced : Option Occurrence}
    {edges : List Edge} (h : u.edgesOf self replaced = .ok edges) :
    self.product.id ∉ products.failing := by
  obtain ⟨_, _, hanswer⟩ := Unfolding.exists_edges_of_edgesOf h
  rw [hc] at hanswer
  exact (answer_eq_ok.1 hanswer).1

/-! ## Finished trees -/

namespace Tree

/-- What stayed the same while the tree was built. -/
def unfolding (t : Tree) (c : Catalogue) (maxDepth : Nat) : Unfolding :=
  ⟨c, t.bomType, t.routing, t.asOf, t.mode, t.features, t.requestedId, maxDepth⟩

/-- The product that was asked for, if another one is made in its place. -/
def redirected (t : Tree) : Option Occurrence :=
  if t.manufacturedId = t.requested.product.id then none else some t.requested

end Tree

/-- Where the parts of a tree for a request come from. -/
structure Built (c : Catalogue) (maxDepth : Nat) (r : TreeRequest) (t : Tree) : Prop where
  requestedId : t.requestedId = r.product
  bomType : t.bomType = r.bomType
  routing : t.routing = r.routing
  asOf : t.asOf = r.asOf
  mode : t.mode = r.mode
  requested : t.requested = .detached 0 t.requested.product
  found : c.product r.product = .ok (some t.requested.product)
  manufactured : r.manufactured c t.requested.product.id = .ok t.manufacturedId
  own : t.manufacturedId = t.requested.product.id → t.root.self.product = t.requested.product
  other : t.manufacturedId ≠ t.requested.product.id →
    c.product t.manufacturedId = .ok (some t.root.self.product)
  selected : r.selected c t.requested.product.id = .ok t.features
  run : ∃ last, (t.unfolding c maxDepth).Expands maxDepth [] (.detached 1 t.root.self.product)
    t.redirected 2 t.root last

/-- The parts of a finished tree. -/
theorem built_of_buildTree {c : Catalogue} {maxDepth : Nat} {r : TreeRequest} {t : Tree}
    (h : (buildTree c maxDepth r).outcome = .ok t) : Built c maxDepth r t := by
  unfold buildTree at h
  obtain ⟨product, hproduct, h⟩ := Noted.outcome_bind_eq_ok.1 h
  obtain ⟨target, htarget, h⟩ := Noted.outcome_bind_eq_ok.1 h
  obtain ⟨made, hmade, h⟩ := Noted.outcome_bind_eq_ok.1 h
  obtain ⟨selected, hselected, h⟩ := Noted.outcome_bind_eq_ok.1 h
  obtain ⟨⟨root, last⟩, hroot, h⟩ := Noted.outcome_bind_eq_ok.1 h
  cases h
  have hrun := Unfolding.expands_of_expand hroot
  have hself : root.self.product = made := by
    cases hrun
    rfl
  subst hself
  refine ⟨rfl, rfl, rfl, rfl, rfl, rfl, Catalogue.productOf_eq_ok.1 hproduct, htarget, ?_, ?_,
    hselected, last, hrun⟩
  · intro hsame
    change target = product.id at hsame
    rw [Noted.outcome_lift, if_pos hsame] at hmade
    exact (pure_eq_ok.1 hmade).symm
  · intro hother
    change target ≠ product.id at hother
    rw [Noted.outcome_lift, if_neg hother] at hmade
    exact Catalogue.productOf_eq_ok.1 hmade

section

variable {c : Catalogue} {maxDepth : Nat} {r : TreeRequest} {t : Tree}

/-- The product at the root is the one as which the requested product is made, if the catalogue
answers by id. -/
theorem Built.root_id (h : Built c maxDepth r t) (hc : c.AnswersById) :
    t.root.self.product.id = t.manufacturedId := by
  by_cases hsame : t.manufacturedId = t.requested.product.id
  · rw [h.own hsame, hsame]
  · exact hc _ _ (h.other hsame)

/-- The root remembers the requested product just when another one stands there. -/
theorem Built.root_replaced_eq (h : Built c maxDepth r t) : t.root.replaced = t.redirected := by
  obtain ⟨last, hrun⟩ := h.run
  obtain ⟨_, _, -, -, -, -, hreplaced, -⟩ := hrun.inv
  exact hreplaced

end

/-! ## A small bill

A bicycle has a frame and may have a bell. Both are virtual: a rule puts a steel frame in the place
of the one, which takes over its tube, and leaves the other out. -/

namespace MemoryCatalogue

/-- A product of which nothing but its id and whether it is virtual is known. -/
def sampleProduct (id : String) (isVirtual : Bool) : Product :=
  ⟨id, none, .good, isVirtual, none, none, none, none⟩

/-- An edge without a quantity, a routing or a bound on its validity. -/
def sampleEdge (parent child : String) (sequence : Int) : Edge :=
  ⟨parent, child, defaultBomType, none, none, sequence, none, ⟨none, none⟩, none⟩

/-- A rule for a component wherever it occurs. -/
def sampleRule (component : String) (substitute : Option String) : Rule :=
  ⟨component, none, none, component, substitute, none, some .or, none, 0, ⟨none, none⟩⟩

/-- The catalogue with the bill of a bicycle. -/
def bicycles : MemoryCatalogue :=
  { empty with
    products := [sampleProduct "bicycle" false, sampleProduct "frame" true,
      sampleProduct "steel frame" false, sampleProduct "tube" false, sampleProduct "bell" true]
    edges := [sampleEdge "bicycle" "frame" 2, sampleEdge "bicycle" "bell" 1,
      sampleEdge "frame" "tube" 1]
    rules := [sampleRule "frame" (some "steel frame"), sampleRule "bell" none] }

end MemoryCatalogue

/-- A request for the explosion of a product. -/
def TreeRequest.sample (product : String) : TreeRequest where
  product
  bomType := defaultBomType
  asOf := .epoch
  mode := .explosion
  routing := none
  features := none

end Bom
