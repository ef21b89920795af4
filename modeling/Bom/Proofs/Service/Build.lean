import Bom.Proofs.Outcome
import Bom.Service

/-!
# What a call to the service has built and counted

Each call to the service that asks about a bill builds a tree, and most of them count it. The errors
of both are reworded on the way, and nothing else is done to them.

* `Service.build_eq_ok`, `Service.explode_eq_ok`: a tree of the service is a tree of the engine.
* `Service.count_eq_ok`: a tree that is counted has been gone through by a quantity pass.
* `Service.lowLevelCode_eq_ok`: how deep a product occurs is the height of its implosion.
-/

namespace Bom

namespace Service

variable {σ : Type} {v : Service σ}

/-- The type of bill that a name stands for: a blank one for that of the settings. -/
def billType (v : Service σ) (name : String) : String :=
  if Text.isBlankText name then v.settings.bomType else name

/-- A tree is built just when the engine builds it for a product that is named. -/
theorem build_eq_ok {r : TreeRequest} {t : Tree} :
    (v.build r).outcome = .ok t ↔ checkProduct r.product = .ok () ∧
      (buildTree v.catalogue v.settings.maxDepth
        { r with bomType := v.billType r.bomType }).outcome = .ok t := by
  unfold build worded
  rw [Noted.outcome_bind_eq_ok]
  constructor
  · rintro ⟨_, hproduct, h⟩
    exact ⟨hproduct, mapError_eq_ok.1 h⟩
  · rintro ⟨hproduct, h⟩
    exact ⟨(), hproduct, mapError_eq_ok.2 h⟩

/-- A product is exploded in one mode as in another, but for what the engine builds. -/
theorem explode_eq_ok {product : String} {mode : Mode} {asOf : Option DateTime}
    {routing : Option String} {t : Tree} :
    (v.explode product mode asOf routing).outcome = .ok t ↔ checkProduct product = .ok () ∧
      (buildTree v.catalogue v.settings.maxDepth ⟨product, v.billType v.settings.bomType,
        asOf.getD v.now, mode, routing, none⟩).outcome = .ok t :=
  build_eq_ok

/-- A tree is counted just when a quantity pass from level 0 succeeds. -/
theorem count_eq_ok {t u : Tree} {excludesWip : Bool} {numbers : List Nat} :
    (v.count t excludesWip).outcome = .ok (u, numbers) ↔
      (t.flatten 0 excludesWip v.calculator).2.outcome = .ok numbers ∧
        (t.flatten 0 excludesWip v.calculator).1 = u := by
  unfold count worded Noted.mapError Noted.mapValue
  dsimp only
  rw [mapError_eq_ok, map_eq_ok]
  constructor
  · rintro ⟨numbers', h, hpair⟩
    cases hpair
    exact ⟨h, rfl⟩
  · rintro ⟨h, rfl⟩
    exact ⟨numbers, h, rfl⟩

/-- The type of bill for which the service tells how deep a product occurs: the given one, or that
of the settings if none is given or a blank one. -/
def levelType (v : Service σ) (bomType : Option String) : String :=
  v.billType ((bomType.filter fun t => !Text.isBlankText t).getD v.settings.bomType)

/-- The tree from which the service reads how deep a product occurs. -/
def levelRequest (v : Service σ) (product : String) (bomType : Option String)
    (asOf : Option DateTime) : TreeRequest :=
  ⟨product, v.levelType bomType, asOf.getD v.now, .implosion, none, none⟩

/-- The full explosion of a product for the same type of bill and time. -/
def explosionRequest (v : Service σ) (product : String) (bomType : Option String)
    (asOf : Option DateTime) (features : Option (List Feature)) : TreeRequest :=
  ⟨product, v.levelType bomType, asOf.getD v.now, .explosion, none, features⟩

/-- How deep a product occurs is the height of its implosion. -/
theorem lowLevelCode_eq_ok {product : String} {bomType : Option String} {asOf : Option DateTime}
    {level : Nat} : (v.lowLevelCode product bomType asOf).outcome = .ok level ↔
      checkProduct product = .ok () ∧ ∃ t, (buildTree v.catalogue v.settings.maxDepth
        (v.levelRequest product bomType asOf)).outcome = .ok t ∧ t.root.height = level := by
  unfold lowLevelCode
  rw [Noted.outcome_bind_eq_ok]
  constructor
  · rintro ⟨t, ht, hlevel⟩
    obtain ⟨hproduct, ht⟩ := build_eq_ok.1 ht
    exact ⟨hproduct, t, ht, pure_eq_ok.1 hlevel⟩
  · rintro ⟨hproduct, t, ht, rfl⟩
    exact ⟨t, build_eq_ok.2 ⟨hproduct, ht⟩, rfl⟩

end Service

end Bom
