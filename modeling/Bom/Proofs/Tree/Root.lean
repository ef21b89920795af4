import Bom.Proofs.Tree.Reach

/-!
# The product at the root

Before a tree is built, the requested product may be redirected: to the product as which it is made,
and from there, if that has no bill but is a variant, to the product as which its family is made.
The bill is looked for at one product at a time then, while the root is unfolded with the edges of
whichever of its product and the requested one has any (`Unfolding.edgesOf_ne_nil`). So a
redirection may lead away from a product with a bill, but never from the bill (`root_keeps_bill`).

* `Catalogue.MadeAs`, `TreeRequest.HasBill`: what a redirection depends on.
* `TreeRequest.manufactured_eq_ok`: where it leads.
-/

namespace Bom

/-! ## Redirection -/

/-- The catalogue has the product made as the given one, which is the product itself where no other
is named. -/
def Catalogue.MadeAs (c : Catalogue) (asOf : DateTime) (product made : String) : Prop :=
  ∃ target, c.manufacturedAs product asOf = .ok target ∧ target.getD product = made

namespace TreeRequest

/-- The product has an edge for the routing of the request or without a routing. -/
def HasBill (r : TreeRequest) (c : Catalogue) (product : String) : Prop :=
  ∃ routing edges, (routing = r.routing ∨ routing = none) ∧
    c.edges .components product r.bomType routing r.asOf = .ok edges ∧ edges ≠ []

variable {r : TreeRequest} {c : Catalogue} {product : String}

theorem madeAs_eq_ok {made : String} :
    r.madeAs c product = .ok made ↔ c.MadeAs r.asOf product made := by
  unfold madeAs Catalogue.MadeAs
  simp only [bind_eq_ok, ask_eq_ok, pure_eq_ok]

/-- Where both questions are answered, there is a bill if one of the answers is not empty. -/
theorem hasBill_iff {routed generic : List Edge}
    (hrouted : c.edges .components product r.bomType r.routing r.asOf = .ok routed)
    (hgeneric : c.edges .components product r.bomType none r.asOf = .ok generic) :
    r.HasBill c product ↔ routed ≠ [] ∨ generic ≠ [] := by
  constructor
  · rintro ⟨routing, edges, rfl | rfl, hedges, hne⟩
    · cases hrouted.symm.trans hedges
      exact .inl hne
    · cases hgeneric.symm.trans hedges
      exact .inr hne
  · rintro (hne | hne)
    · exact ⟨r.routing, routed, .inl rfl, hrouted, hne⟩
    · exact ⟨none, generic, .inr rfl, hgeneric, hne⟩

/-- The search for a bill finds one just when there is one. -/
theorem hasBom_eq_ok {found : Bool} (h : r.hasBom c product = .ok found) :
    found = true ↔ r.HasBill c product := by
  unfold hasBom at h
  cases hrouting : r.routing with
  | none =>
    rw [hrouting] at h
    obtain ⟨_, hnone, h⟩ := bind_eq_ok.1 h
    cases hnone
    obtain ⟨generic, hgeneric, h⟩ := bind_eq_ok.1 h
    rw [ask_eq_ok] at hgeneric
    rw [hasBill_iff (hrouting ▸ hgeneric) hgeneric, or_self, ← pure_eq_ok.1 h]
    simp
  | some routing =>
    rw [hrouting] at h
    obtain ⟨routed, hrouted, h⟩ := bind_eq_ok.1 h
    rw [ask_eq_ok, ← hrouting] at hrouted
    dsimp only at h
    split at h
    · next hempty =>
      obtain ⟨generic, hgeneric, h⟩ := bind_eq_ok.1 h
      rw [hasBill_iff hrouted (ask_eq_ok.1 hgeneric), ← pure_eq_ok.1 h, List.isEmpty_iff.1 hempty]
      simp
    · next hne =>
      -- the routing has edges, so no others are asked for
      have hbill : r.HasBill c product := ⟨r.routing, routed, .inl rfl, hrouted, by simpa using hne⟩
      cases pure_eq_ok.1 h
      exact ⟨fun _ => hbill, fun _ => rfl⟩

/-- A product with a bill is made as itself; one without is made as its family, if it has one. -/
theorem manufactured_eq_ok {target : String} (h : r.manufactured c product = .ok target) :
    ∃ made, c.MadeAs r.asOf product made ∧ (r.HasBill c made → target = made) ∧
      (¬ r.HasBill c made → ∃ parent, c.virtualParent made r.asOf = .ok parent ∧
        (parent = none → target = made) ∧
        ∀ family, parent = some family → c.MadeAs r.asOf family target) := by
  unfold manufactured at h
  obtain ⟨made, hmade, h⟩ := bind_eq_ok.1 h
  obtain ⟨found, hfound, h⟩ := bind_eq_ok.1 h
  refine ⟨made, madeAs_eq_ok.1 hmade, ?_⟩
  rw [← hasBom_eq_ok hfound]
  cases found with
  | true => exact ⟨fun _ => (pure_eq_ok.1 h).symm, fun hnot => absurd rfl hnot⟩
  | false =>
    refine ⟨nofun, fun _ => ?_⟩
    obtain ⟨parent, hparent, h⟩ := bind_eq_ok.1 h
    refine ⟨parent, ask_eq_ok.1 hparent, ?_⟩
    cases parent with
    | none => exact ⟨fun _ => (pure_eq_ok.1 h).symm, nofun⟩
    | some family =>
      refine ⟨nofun, fun _ hsame => ?_⟩
      cases hsame
      exact madeAs_eq_ok.1 h

end TreeRequest

/-! ## The edges at the root -/

namespace Unfolding

variable {u : Unfolding}

/-- Edges are looked for at the product and at the one it replaced, for the given routing and
without one. -/
theorem mem_sources {routing : Option String} {product id : String} {replaced : Option String}
    (hrouting : routing = u.routing ∨ routing = none) (hid : id = product ∨ replaced = some id) :
    (routing, id) ∈ u.sources product replaced := by
  refine List.mem_flatMap.2 ⟨routing, mem_routings.2 hrouting.symm, List.mem_map_of_mem ?_⟩
  rw [List.mem_cons, Option.mem_toList]
  exact hid

/-- A search that finds no edges has come to no place that has any. -/
theorem firstEdges_eq_nil {places : List (Option String × String)}
    (h : u.firstEdges places = .ok []) : ∀ place ∈ places,
      u.catalogue.edges u.direction place.2 u.bomType place.1 u.asOf = .ok [] := by
  induction places with
  | nil => simp
  | cons place rest ih =>
    rw [firstEdges] at h
    obtain ⟨edges, hedges, h⟩ := bind_eq_ok.1 h
    cases edges with
    | nil => exact List.forall_mem_cons.2 ⟨ask_eq_ok.1 hedges, ih h⟩
    | cons _ _ => cases h

/-- A place whose product has edges, or whose product has replaced one with edges, has edges. -/
theorem edgesOf_ne_nil {self : Occurrence} {replaced : Option Occurrence} {edges found : List Edge}
    {routing : Option String} {id : String} (h : u.edgesOf self replaced = .ok edges)
    (hrouting : routing = u.routing ∨ routing = none)
    (hid : id = self.product.id ∨ replaced.map (·.product.id) = some id)
    (hfound : u.catalogue.edges u.direction id u.bomType routing u.asOf = .ok found)
    (hne : found ≠ []) : edges ≠ [] := by
  rintro rfl
  unfold edgesOf at h
  obtain ⟨first, hfirst, hsorted⟩ := bind_eq_ok.1 h
  have hempty : first = [] := by
    rw [← List.length_eq_zero_iff, ← length_sortBy Edge.sequence first, pure_eq_ok.1 hsorted]
    rfl
  rw [hempty] at hfirst
  have hnil := firstEdges_eq_nil hfirst _ (mem_sources hrouting hid)
  cases hfound.symm.trans hnil
  exact hne rfl

end Unfolding

section

variable {c : Catalogue} {maxDepth : Nat} {r : TreeRequest} {t : Tree}

/-- The root of an explosion has edges if its product has a bill or the requested one, whose place
it has taken. -/
theorem Built.root_edges_ne_nil (h : Built c maxDepth r t) (hmode : r.mode.isExplosion = true)
    {id : String} (hid : id = t.root.self.product.id ∨
      t.root.replaced.map (·.product.id) = some id) (hbill : r.HasBill c id) :
    t.root.slots.edges ≠ [] := by
  obtain ⟨last, hrun⟩ := h.run
  obtain ⟨_, edges, -, -, hedges, -, -, hfill⟩ := hrun.inv
  obtain ⟨routing, found, hrouting, hfound, hne⟩ := hbill
  rw [hfill.edges_eq]
  rw [h.root_replaced_eq] at hid
  rw [← h.routing] at hrouting
  refine Unfolding.edgesOf_ne_nil hedges hrouting hid ?_ hne
  have hdirection : (t.unfolding c maxDepth).direction = .components := by
    rw [Unfolding.direction, if_pos]
    rwa [← h.mode] at hmode
  rw [hdirection]
  change c.edges .components id t.bomType routing t.asOf = _
  rwa [h.bomType, h.asOf]

end

/-- At the root of an explosion stands the product as which the requested one is made, if that has a
bill or is no variant, and else the product as which its family is made. The root remembers the
requested product just when it is another one. Wherever the redirection leads, the root has edges if
the requested product or the one as which it is made has a bill. The catalogue has to answer by id,
as that of every backend does (`Backend.answersById`). -/
theorem root_keeps_bill (c : Catalogue) (hc : c.AnswersById) (maxDepth : Nat) (r : TreeRequest)
    (hmode : r.mode.isExplosion = true) (t : Tree)
    (h : (buildTree c maxDepth r).outcome = .ok t) :
    ∃ made, c.MadeAs r.asOf r.product made ∧
      (r.HasBill c made → t.root.self.product.id = made) ∧
      (¬ r.HasBill c made → ∃ parent, c.virtualParent made r.asOf = .ok parent ∧
        (parent = none → t.root.self.product.id = made) ∧
        ∀ family, parent = some family → c.MadeAs r.asOf family t.root.self.product.id) ∧
      c.product r.product = .ok (some t.requested.product) ∧
      t.root.replaced =
        (if t.root.self.product.id = r.product then none else some t.requested) ∧
      (r.HasBill c made ∨ r.HasBill c r.product → t.root.slots.edges ≠ []) := by
  have hbuilt := built_of_buildTree h
  have hrequested : t.requested.product.id = r.product := hc _ _ hbuilt.found
  have hmanufactured := hbuilt.manufactured
  rw [hrequested, ← hbuilt.root_id hc] at hmanufactured
  obtain ⟨made, hmade, hbill, hnobill⟩ := TreeRequest.manufactured_eq_ok hmanufactured
  have hreplaced : t.root.replaced =
      (if t.root.self.product.id = r.product then none else some t.requested) := by
    rw [hbuilt.root_replaced_eq, Tree.redirected, hrequested, hbuilt.root_id hc]
  refine ⟨made, hmade, hbill, hnobill, hbuilt.found, hreplaced, ?_⟩
  rintro (hhas | hhas)
  · exact hbuilt.root_edges_ne_nil hmode (.inl (hbill hhas).symm) hhas
  · refine hbuilt.root_edges_ne_nil hmode ?_ hhas
    -- the requested product stands at the root, or the root remembers it
    by_cases hsame : t.root.self.product.id = r.product
    · exact .inl hsame.symm
    · rw [hreplaced, if_neg hsame, Option.map_some, hrequested]
      exact .inr rfl

/-- The catalogue of a gift chair, an oak chair with a bow, made as an oak chair. The oak chair has
no bill and is a variant of a virtual chair, which is made as a pine chair. -/
def MemoryCatalogue.gifts : MemoryCatalogue :=
  { empty with
    products := [sampleProduct "gift chair" false, sampleProduct "oak chair" false,
      sampleProduct "chair" true, sampleProduct "pine chair" false, sampleProduct "bow" false]
    edges := [sampleEdge "gift chair" "bow" 1]
    variants := [⟨"chair", ⟨"oak chair", []⟩⟩]
    manufacturedAs := [("gift chair", "oak chair"), ("chair", "pine chair")] }

/-- A pine chair stands at the root of the gift chair, whose bow it keeps. -/
theorem gift_root :
    let c := MemoryCatalogue.gifts.catalogue
    let r := TreeRequest.sample "gift chair"
    ∃ t, (buildTree c 3 r).outcome = .ok t ∧ t.root.self.product.id = "pine chair" ∧
      t.root.slots.edges ≠ [] ∧ ∃ made, c.MadeAs r.asOf "gift chair" made ∧
        (¬ r.HasBill c made → ∃ parent, c.virtualParent made r.asOf = .ok parent ∧
          (parent = none → t.root.self.product.id = made) ∧
          ∀ family, parent = some family → c.MadeAs r.asOf family t.root.self.product.id) := by
  intro c r
  obtain ⟨t, ht⟩ : ∃ t, (buildTree c 3 r).outcome = .ok t := ⟨_, rfl⟩
  have hroot : (buildTree c 3 r).outcome.toOption.any
      (·.root.self.product.id = "pine chair") = true := by
    decide +kernel
  rw [ht] at hroot
  obtain ⟨made, hmade, -, hfamily, -, -, hedges⟩ :=
    root_keeps_bill c MemoryCatalogue.gifts.answersById 3 r rfl t ht
  have hbow : r.HasBill c "gift chair" :=
    ⟨none, [MemoryCatalogue.sampleEdge "gift chair" "bow" 1], .inr rfl, rfl, by simp⟩
  exact ⟨t, ht, of_decide_eq_true hroot, hedges (.inr hbow), made, hmade, hfamily⟩

end Bom
