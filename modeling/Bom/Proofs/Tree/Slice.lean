import Mathlib.Data.List.Basic
import Bom.Proofs.Calendar
import Bom.Proofs.Tree.Answers

/-!
# The part of a catalogue that a tree is about

A request names a type of bill, a time and maybe a routing. Of the edges in a catalogue only those
of this type count that are valid at this time and belong to this routing or to none, and of the
rules only those that are valid at this time. So two catalogues in memory that are the same in these
edges and rules give rise to the same tree, or to the same error, whatever else they hold of edges
and rules (`buildTree_slice`).

* `Edge.countsFor`: the edges that count.
* `MemoryCatalogue.SameSlice`: two catalogues are the same in what counts.
-/

namespace Bom

/-- The edge is of the type of bill, valid at the time, and for the routing or for none. -/
def Edge.countsFor (bomType : String) (asOf : DateTime) (routing : Option String) (e : Edge) : Bool :=
  e.bomType = bomType && e.validAt asOf && (e.routing = none || e.routing = routing)

/-- Two catalogues are the same in the edges that count for a type of bill, a time and a routing, in
the rules that are valid at the time, and in everything else that trees depend on. -/
structure MemoryCatalogue.SameSlice (c c' : MemoryCatalogue) (bomType : String) (asOf : DateTime)
    (routing : Option String) : Prop where
  products : ∀ id, c'.product? id = c.product? id
  manufacturedAs : ∀ product, c'.manufacturedAs.find? (·.1 = product) =
    c.manufacturedAs.find? (·.1 = product)
  variants : c'.variants = c.variants
  features : ∀ product, c'.features.filter (·.1 = product) = c.features.filter (·.1 = product)
  facilities : c'.facilities = c.facilities
  failing : ∀ product, product ∈ c'.failing ↔ product ∈ c.failing
  edges : c'.edges.filter (·.countsFor bomType asOf routing) =
    c.edges.filter (·.countsFor bomType asOf routing)
  rules : c'.rules.filter (·.validAt asOf) = c.rules.filter (·.validAt asOf)

/-- Lists that are the same in elements of one kind are so in the elements of a narrower kind. -/
theorem filter_eq_of_imp {α : Type} {p q : α → Bool} (hpq : ∀ a, p a = true → q a = true)
    {xs ys : List α} (h : xs.filter q = ys.filter q) : xs.filter p = ys.filter p := by
  have hnarrow (zs : List α) : (zs.filter q).filter p = zs.filter p := by
    rw [List.filter_filter]
    refine List.filter_congr fun a _ => ?_
    cases hp : p a with
    | false => rfl
    | true => rw [hpq a hp, Bool.and_self]
  rw [← hnarrow xs, ← hnarrow ys, h]

namespace MemoryCatalogue.SameSlice

variable {c c' : MemoryCatalogue} {bomType : String} {asOf : DateTime} {routing : Option String}
  (h : c.SameSlice c' bomType asOf routing)

include h

/-- Both catalogues fail for the same products, and so answer the same to the same. -/
theorem answer_eq {α : Type} (product : String) (a : α) :
    c'.answer product a = c.answer product a := by
  unfold MemoryCatalogue.answer
  simp only [h.failing]

/-- At each product there are the same edges for the routing, and the same ones for none. -/
theorem edgesOf_eq (d : Direction) (product : String) {given : Option String}
    (hgiven : given = none ∨ given = routing) :
    c'.edgesOf d product bomType given asOf = c.edgesOf d product bomType given asOf := by
  unfold MemoryCatalogue.edgesOf
  refine congrArg (sortBy Edge.sequence) (filter_eq_of_imp (fun e he => ?_) h.edges)
  simp only [Bool.and_eq_true, decide_eq_true_eq] at he
  obtain ⟨⟨⟨-, htype⟩, hrouting⟩, hvalid⟩ := he
  have hrouting : e.routing = given := of_decide_eq_true hrouting
  unfold Edge.countsFor
  rw [htype, hvalid, hrouting]
  rcases hgiven with rfl | rfl <;> simp

/-- Each search finds the same rules. -/
theorem rules_eq (scope : RuleScope) :
    (c'.rules.filter fun r => scope.covers r && r.validAt asOf) =
      c.rules.filter fun r => scope.covers r && r.validAt asOf :=
  filter_eq_of_imp (fun _ hr => (Bool.and_eq_true_iff.1 hr).2) h.rules

theorem selectedVariants_eq (family : String) (selected : List Feature) :
    c'.selectedVariants family selected = c.selectedVariants family selected := by
  unfold MemoryCatalogue.selectedVariants MemoryCatalogue.variantsOf
  simp only [h.variants, h.products]

end MemoryCatalogue.SameSlice

/-- Two catalogues that are the same in what counts for a request answer its questions alike. -/
theorem MemoryCatalogue.SameSlice.sameAnswers {c c' : MemoryCatalogue} {r : TreeRequest}
    {routing : Option String} (h : c.SameSlice c' r.bomType r.asOf routing)
    (hrouting : r.routing = none ∨ r.routing = routing) :
    c.catalogue.SameAnswers c'.catalogue r where
  product id := by
    change c'.answer id _ = c.answer id _
    rw [h.answer_eq, h.products]
  edges d product given hgiven := by
    change c'.answer product _ = c.answer product _
    rw [h.answer_eq, h.edgesOf_eq d product]
    rcases hgiven with rfl | rfl
    · exact .inl rfl
    · exact hrouting
  manufacturedAs product := by
    change c'.answer product _ = c.answer product _
    rw [h.answer_eq, h.manufacturedAs]
  virtualParent product := by
    change c'.answer product _ = c.answer product _
    rw [h.answer_eq, h.variants]
  rules scope := congrArg Except.ok (h.rules_eq scope)
  features product := by
    change c'.answer product _ = c.answer product _
    rw [h.answer_eq, h.features]
  isStocked product := by
    change c'.answer product _ = c.answer product _
    rw [h.answer_eq, h.facilities]

/-- A tree, or the error in its place, depends on no edges of other types of bills, of other times
or of other routings, and on no rules of other times. -/
theorem buildTree_slice {c c' : MemoryCatalogue} {bomType : String} {asOf : DateTime}
    {routing : Option String} (h : c.SameSlice c' bomType asOf routing) (r : TreeRequest)
    (hbomType : r.bomType = bomType) (hasOf : r.asOf = asOf)
    (hrouting : r.routing = none ∨ r.routing = routing) (maxDepth : Nat) :
    buildTree c'.catalogue maxDepth r = buildTree c.catalogue maxDepth r := by
  subst hbomType hasOf
  refine buildTree_congr (h.sameAnswers hrouting) (fun _ features _ _ _ family => ?_) maxDepth
  change c'.answer family _ = c.answer family _
  rw [h.answer_eq, h.selectedVariants_eq]

/-- The catalogue of the bicycle with more edges and rules: a saddle of the past, a lamp that is
sold with it, a basket for a routing, and a carbon frame of the future. -/
def MemoryCatalogue.datedBicycles : MemoryCatalogue :=
  { bicycles with
    edges :=
      { sampleEdge "bicycle" "saddle" 0 with window := ⟨none, some .epoch⟩ } ::
      { sampleEdge "bicycle" "lamp" 0 with bomType := "SALES_PACKAGE" } ::
      bicycles.edges ++ [{ sampleEdge "bicycle" "basket" 3 with routing := some "courier" }]
    rules :=
      { sampleRule "frame" (some "carbon frame") with
        window := ⟨some .secondDay, none⟩ } :: bicycles.rules }

/-- The additions make no difference to a bicycle, though none of the products that they name is
registered. -/
theorem bicycle_slice :
    let c := MemoryCatalogue.bicycles
    let c' := MemoryCatalogue.datedBicycles
    let r : TreeRequest := { TreeRequest.sample "bicycle" with routing := some "racing" }
    (buildTree c.catalogue 3 r).outcome.map Tree.productIds =
        .ok ["bicycle", "steel frame", "tube"] ∧
      c.SameSlice c' defaultBomType .epoch (some "racing") ∧
      buildTree c'.catalogue 3 r = buildTree c.catalogue 3 r := by
  intro c c' r
  have hslice : c.SameSlice c' defaultBomType .epoch (some "racing") := {
    products := fun _ => rfl
    manufacturedAs := fun _ => rfl
    variants := rfl
    features := fun _ => rfl
    facilities := rfl
    failing := fun _ => Iff.rfl
    edges := by decide +kernel
    rules := by decide +kernel }
  exact ⟨by decide +kernel, hslice, buildTree_slice hslice r rfl rfl (.inr rfl) 3⟩

end Bom
