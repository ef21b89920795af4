import Bom.Backend
import Bom.Proofs.Tables.Present

/-!
# Selected features as a set

The features that a request selects are asked for in four ways: a rule asks whether its feature is
among them, the features of the kinds that set variants apart are picked out, a variant has to have
all of these, and a selection without features decides nothing. None of these answers depends on the
order of the features or on how often one is named (`SameFeatures.fires_eq`,
`SameFeatures.matchingVariants_eq`), so on every backend two lists of the same features come to the
same decisions (`SameFeatures.sameDecisions`), and the trees differ in nothing but the list that
they were built for (`buildTree_sameFeatures`).
-/

namespace Bom

/-- Two lists of features name the same features, in whatever order and however often. -/
def SameFeatures (features features' : List Feature) : Prop :=
  ∀ f, f ∈ features' ↔ f ∈ features

instance (features features' : List Feature) : Decidable (SameFeatures features features') :=
  decidable_of_iff ((∀ f ∈ features', f ∈ features) ∧ ∀ f ∈ features, f ∈ features')
    ⟨fun h f => ⟨h.1 f, h.2 f⟩, fun h => ⟨fun f => (h f).1, fun f => (h f).2⟩⟩

namespace SameFeatures

variable {features features' : List Feature} (h : SameFeatures features features')

include h

theorem any_eq (p : Feature → Bool) : features'.any p = features.any p := by
  rw [Bool.eq_iff_iff, List.any_eq_true, List.any_eq_true]
  simp only [h _]

theorem all_eq (p : Feature → Bool) : features'.all p = features.all p := by
  rw [Bool.eq_iff_iff, List.all_eq_true, List.all_eq_true]
  simp only [h _]

theorem isEmpty_eq : features'.isEmpty = features.isEmpty := by
  rw [Bool.eq_iff_iff, List.isEmpty_iff, List.isEmpty_iff, List.eq_nil_iff_forall_not_mem,
    List.eq_nil_iff_forall_not_mem]
  simp only [h _]

theorem filter (p : Feature → Bool) : SameFeatures (features.filter p) (features'.filter p) := by
  intro f
  rw [List.mem_filter, List.mem_filter, h]

/-- The same rules take effect. -/
theorem fires_eq (r : Rule) : r.fires features' = r.fires features := by
  rw [Rule.fires, Rule.fires, Rule.isMetBy, Rule.isMetBy, h.any_eq]

/-- The same variants are left, in the same order. -/
theorem matchingVariants_eq (variants : List Variant) :
    matchingVariants variants features' = matchingVariants variants features := by
  have hrelevant :
      SameFeatures (relevantFeatures variants features) (relevantFeatures variants features') :=
    h.filter _
  unfold matchingVariants Variant.hasAll
  dsimp only
  simp only [hrelevant.isEmpty_eq, hrelevant.all_eq]

/-- On every backend the lists come to the same decisions. -/
theorem sameDecisions (b : Backend) (now : DateTime) :
    (b.catalogue now).SameDecisions (b.catalogue now) features features' where
  fires := h.fires_eq
  isEmpty := h.isEmpty_eq
  variants _ family := by
    cases b with
    | memory products settings links book =>
      change products.answer family (products.selectedVariants family features') =
        products.answer family (products.selectedVariants family features)
      rw [MemoryCatalogue.selectedVariants, MemoryCatalogue.selectedVariants, h.matchingVariants_eq]
    | database db =>
      change db.read "product_assoc" (·.selectedVariants family features' now) =
        db.read "product_assoc" (·.selectedVariants family features now)
      unfold Tables.selectedVariants
      simp only [h.matchingVariants_eq]

end SameFeatures

/-- Selections that come to the same decisions give rise to trees that differ in nothing but the
selection, or to the same error. -/
theorem buildTree_select {c : Catalogue} {features features' : List Feature}
    (h : c.SameDecisions c features features') (maxDepth : Nat) (r : TreeRequest) :
    buildTree c maxDepth { r with features := some features' } =
      (buildTree c maxDepth { r with features := some features }).mapValue
        fun t => { t with features := features' } := by
  have hsame : c.SameAnswers c r := by constructor <;> intros <;> rfl
  have halike := hsame.alike h maxDepth
  unfold buildTree
  rw [Noted.mapValue_bind]
  refine Noted.bind_congr fun product _ => ?_
  rw [Noted.mapValue_bind]
  refine Noted.bind_congr fun target _ => ?_
  rw [Noted.mapValue_bind]
  refine Noted.bind_congr fun made _ => ?_
  change (Noted.lift (.ok features') >>= _ : Noted EngineError Tree) =
    Noted.mapValue _ (Noted.lift (.ok features) >>= _)
  rw [Noted.lift_ok_bind, Noted.lift_ok_bind, Noted.mapValue_bind]
  dsimp only
  rw [halike.expand_eq]
  exact Noted.bind_congr fun _ _ => rfl

/-- Two requests to a backend that select the same features, in whatever order and however often
they name them, have the same error and the same notices, or trees that differ in nothing but the
selection. In particular they leave the same variants, at the same places. -/
theorem buildTree_sameFeatures (b : Backend) (now : DateTime) (maxDepth : Nat) (r : TreeRequest)
    {features features' : List Feature} (h : SameFeatures features features') :
    (∀ variants, matchingVariants variants features' = matchingVariants variants features) ∧
      buildTree (b.catalogue now) maxDepth { r with features := some features' } =
        (buildTree (b.catalogue now) maxDepth { r with features := some features }).mapValue
          fun t => { t with features := features' } :=
  ⟨h.matchingVariants_eq, buildTree_select (h.sameDecisions b now) maxDepth r⟩

/-- A dining set that is to be oak and round is the same one when it is to be round, oak and oak.
The chair is of oak, and it is not when it is only to be round. -/
theorem dining_sameFeatures :
    let b : Backend := .database ⟨some (.dining .start2990)⟩
    let oak : Feature := ⟨"oak", "wood"⟩
    let round : Feature := ⟨"round", "shape"⟩
    let build (features : List Feature) := buildTree (b.catalogue .start2995) 3
      { TreeRequest.oakDining with features := some features }
    SameFeatures [oak, round] [round, oak, oak] ∧
      (build [oak, round]).outcome.map Tree.productIds = .ok ["dining set", "oak chair"] ∧
      build [round, oak, oak] =
        (build [oak, round]).mapValue (fun t => { t with features := [round, oak, oak] }) ∧
      (build [round]).outcome.map Tree.productIds = .ok ["dining set", "chair"] := by
  intro b oak round build
  have hsame : SameFeatures [oak, round] [round, oak, oak] := by decide
  exact ⟨hsame, by decide +kernel,
    (buildTree_sameFeatures b .start2995 3 .oakDining hsame).2, by decide +kernel⟩

end Bom
