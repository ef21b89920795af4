import Mathlib.Data.List.Basic
import Bom.Proofs.Catalogue
import Bom.Proofs.Tree.Answers

/-!
# Trees of a database at different presents

A database answers a request for the time of the request, with one exception: variants are those of
the present. The links to variants and the features that set them apart are looked up at the time at
which the tree is built, though the links are looked up at the time of the request where the family
of a variant is asked for.

So a tree can be built again at any other present as long as no features are selected, or the same
links and the same features count at both presents (`buildTree_present`). It cannot in general. A
chair of oak that is a variant from 2990 on does not take its place in a dining set of 2995 that is
built before (`dining_presents`).

* `Tables.SameVariantsAt`: what variants depend on counts at both times or at neither.
-/

namespace Bom

/-- The links to variants and the features that set variants apart each count at both times or at
neither. -/
structure Tables.SameVariantsAt (t : Tables) (now now' : DateTime) : Prop where
  links : ∀ r ∈ t.associations.rows, r.type = variantType →
    withinTexts r.start r.stop now.columnText = withinTexts r.start r.stop now'.columnText
  features : ∀ r ∈ t.featureUses.rows, r.use = distinguishingUse →
    withinTexts r.start r.stop now.columnText = withinTexts r.start r.stop now'.columnText

namespace Tables.SameVariantsAt

variable {t : Tables} {now now' : DateTime} (h : t.SameVariantsAt now now')

include h

theorem filter_links (family : String) :
    (t.associations.rows.filter fun r =>
        r.product = family && r.isValid variantType now.columnText) =
      t.associations.rows.filter fun r =>
        r.product = family && r.isValid variantType now'.columnText := by
  refine List.filter_congr fun r hr => ?_
  unfold AssociationRow.isValid
  by_cases htype : r.type = variantType
  · rw [h.links r hr htype]
  · rw [decide_eq_false htype, Bool.false_and, Bool.false_and]

theorem featuresOf (product : String) :
    t.featuresOf product distinguishingUse now = t.featuresOf product distinguishingUse now' := by
  have hfound : (t.featureUses.rows.filter fun r => r.product = product &&
        r.use = distinguishingUse && withinTexts r.start r.stop now.columnText) =
      t.featureUses.rows.filter fun r => r.product = product &&
        r.use = distinguishingUse && withinTexts r.start r.stop now'.columnText := by
    refine List.filter_congr fun r hr => ?_
    by_cases huse : r.use = distinguishingUse
    · rw [h.features r hr huse]
    · rw [decide_eq_false huse, Bool.and_false, Bool.false_and, Bool.false_and]
  unfold Tables.featuresOf
  rw [hfound]

theorem variantsOf (family : String) : t.variantsOf family now = t.variantsOf family now' := by
  unfold Tables.variantsOf
  simp only [h.filter_links, h.featuresOf]

/-- A selection leaves the same variants. -/
theorem selectedVariants (family : String) (selected : List Feature) :
    t.selectedVariants family selected now = t.selectedVariants family selected now' := by
  unfold Tables.selectedVariants
  rw [h.variantsOf]

end Tables.SameVariantsAt

namespace Database

/-- Of the answers of a database only variants are those of the present. -/
theorem catalogue_eq_withVariants (db : Database) (now now' : DateTime) :
    db.catalogue now' = (db.catalogue now).withVariants (db.catalogue now').variants :=
  rfl

theorem sameVariants {db : Database} {now now' : DateTime} {selected : List Feature}
    (h : selected ≠ [] → ∀ t, db.tables = some t → t.SameVariantsAt now now') :
    (db.catalogue now).SameVariants (db.catalogue now').variants selected := by
  intro hselected family
  change db.read _ _ = db.read _ _
  unfold read
  cases htables : db.tables with
  | none => rfl
  | some t =>
    dsimp only
    rw [(h hselected t htables).selectedVariants]

end Database

/-- A request to a database has the same result at two presents, notices and errors included, if no
features are selected for the product or if the same links to variants and the same features that
set them apart count at both. -/
theorem buildTree_present (db : Database) (now now' : DateTime) (maxDepth : Nat) (r : TreeRequest)
    (h : ∀ features, r.selected (db.catalogue now) r.product = .ok features → features ≠ [] →
      ∀ t, db.tables = some t → t.SameVariantsAt now now') :
    buildTree (db.catalogue now') maxDepth r = buildTree (db.catalogue now) maxDepth r := by
  rw [db.catalogue_eq_withVariants now now']
  refine buildTree_withVariants (fun product features hproduct hfeatures => ?_) maxDepth
  have hid : product.id = r.product :=
    db.answersById now _ _ (Catalogue.productOf_eq_ok.1 hproduct)
  rw [hid] at hfeatures
  exact Database.sameVariants (h features hfeatures)

open MemoryCatalogue in
/-- Tables with the bill of a dining set. Its chair is virtual and comes in oak, but only from the
given time on. -/
def Tables.dining (start : DateTime) : Tables :=
  let t := empty.putProduct (sampleProduct "dining set" false)
  let t := t.putProduct (sampleProduct "chair" true)
  let t := t.putProduct (sampleProduct "oak chair" false)
  let t := t.applyFeature "oak chair" ⟨"oak", "wood"⟩ distinguishingUse .epoch
  let links := Table.empty.add (.ofEdge (sampleEdge "dining set" "chair" 1))
  { t with associations := links.add (.link "chair" "oak chair" variantType start) }

/-- Midnight before the first of January 2990. -/
def DateTime.start2990 : DateTime :=
  { epoch with
    day := Civil.dayNumber ⟨2990, 1, 1⟩
    firstDay_le := by decide
    le_lastDay := by decide }

/-- Midnight before the first of January 2995. -/
def DateTime.start2995 : DateTime :=
  { epoch with
    day := Civil.dayNumber ⟨2995, 1, 1⟩
    firstDay_le := by decide
    le_lastDay := by decide }

/-- A request for an oak dining set of the year 2995. -/
def TreeRequest.oakDining : TreeRequest :=
  { sample "dining set" with asOf := .start2995, features := some [⟨"oak", "wood"⟩] }

/-- From 2990 on an oak dining set of the year 2995 is always the same. -/
theorem dining_reproduced :
    let db : Database := ⟨some (.dining .start2990)⟩
    (buildTree (db.catalogue .start2990) 3 .oakDining).outcome.map Tree.productIds =
        .ok ["dining set", "oak chair"] ∧
      buildTree (db.catalogue .start2995) 3 .oakDining =
        buildTree (db.catalogue .start2990) 3 .oakDining := by
  intro db
  refine ⟨by decide +kernel, buildTree_present db _ _ 3 _ fun _ _ _ t ht => ?_⟩
  cases ht
  constructor <;> decide +kernel

/-- In 2026 an oak dining set of the year 2995 gets a virtual chair, though the oak chair is a
variant in 2995 and takes the place of the chair if the set is built then. -/
theorem dining_presents :
    let db : Database := ⟨some (.dining .start2990)⟩
    let now : DateTime := { day := Civil.dayNumber ⟨2026, 6, 1⟩, second := 0, nano := 0 }
    (db.catalogue now).virtualParent "oak chair" .start2995 = .ok (some "chair") ∧
      (buildTree (db.catalogue now) 3 .oakDining).outcome.map Tree.productIds =
        .ok ["dining set", "chair"] ∧
      (buildTree (db.catalogue .start2995) 3 .oakDining).outcome.map Tree.productIds =
        .ok ["dining set", "oak chair"] := by
  refine ⟨?_, ?_, ?_⟩ <;> decide +kernel

end Bom
