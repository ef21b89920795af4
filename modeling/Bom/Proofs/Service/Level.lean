import Bom.Proofs.Service.Build
import Bom.Proofs.Service.Make
import Bom.Proofs.Tree.Implosion
import Bom.Proofs.Tree.Ways

/-!
# How deep a product occurs

The service answers how deep a product occurs with the height of its implosion. Where nothing takes
the place of a product this is its greatest depth in any explosion, since an explosion of a product
and an implosion of another count the same ways (`explosion_converse`).

Levels are there to plan a component after all that it goes into. An implosion begins at the product
that is made for the requested one, though, and below its root stand the products themselves. So a
component comes after a product that it goes into if both implosions begin at the product itself
(`lowLevelCode_lt`), and not in general: `chair_level` has a variant that is looked up as its family
and so has the level of a product that it goes into.
-/

namespace Bom

variable {σ : Type}

/-! ## Levels and explosions -/

/-- In a catalogue in which nothing takes the place of a product, a product stands at a depth in the
explosion of another as often as that one at the same depth in the implosion of the first. So the
level of a product is at least its depth in every explosion, and if all products can be exploded it
is its depth in one of them. -/
theorem explosion_converse (c : MemoryCatalogue) (hc : c.NeverReplaces) :
    (∀ (p x bomType : String) (asOf : DateTime) (limit limit' : Nat)
      (features features' : Option (List Feature)) (t u : Tree),
      (buildTree c.catalogue limit ⟨p, bomType, asOf, .explosion, none, features⟩).outcome =
        .ok t →
      (buildTree c.catalogue limit' ⟨x, bomType, asOf, .implosion, none, features'⟩).outcome =
        .ok u →
      ∀ depth, t.countAt x depth = u.countAt p depth) ∧
    ∀ {σ : Type} (v : Service σ) (x : String) (bomType : Option String) (asOf : Option DateTime)
      (level limit : Nat) (features : Option (List Feature)), v.catalogue = c.catalogue →
      (v.lowLevelCode x bomType asOf).outcome = .ok level →
      (∀ p t, (buildTree c.catalogue limit (v.explosionRequest p bomType asOf features)).outcome =
        .ok t → ∀ depth, 0 < t.countAt x depth → depth ≤ level) ∧
      ((∀ p ∈ c.products, ∃ t, (buildTree c.catalogue limit
          (v.explosionRequest p.id bomType asOf features)).outcome = .ok t) →
        ∃ p ∈ c.products, ∃ t, (buildTree c.catalogue limit
          (v.explosionRequest p.id bomType asOf features)).outcome = .ok t ∧
            0 < t.countAt x level) := by
  refine ⟨fun p x bomType asOf limit limit' features features' t u ht hu =>
    countAt_converse hc ht hu, ?_⟩
  intro σ v x bomType asOf level limit features hv hlevel
  obtain ⟨-, u, hu, rfl⟩ := Service.lowLevelCode_eq_ok.1 hlevel
  rw [hv] at hu
  constructor
  · intro p t ht depth hdepth
    rw [countAt_converse hc ht hu, Tree.countAt_pos] at hdepth
    obtain ⟨l, hl, -, rfl⟩ := hdepth
    simpa using (Node.depth_bounds hl).2
  · intro hall
    obtain ⟨l, hl, hdepth⟩ := u.root.exists_lineage_height []
    rw [List.length_nil, Nat.zero_add] at hdepth
    -- the product at the end of the longest way is one in whose explosion the way is found again
    have hmem : l.node.self.product ∈ c.products :=
      (built_of_buildTree hu).supplied c.supplies hl
    obtain ⟨t, ht⟩ := hall _ hmem
    refine ⟨_, hmem, t, ht, ?_⟩
    rw [countAt_converse hc ht hu, Tree.countAt_pos]
    exact ⟨l, hl, rfl, hdepth⟩

/-- The catalogue of a dresser with two drawers, each with a knob. There is one more knob on the
dresser itself. -/
def MemoryCatalogue.dressers : MemoryCatalogue :=
  { empty with
    products := [sampleProduct "dresser" false, sampleProduct "drawer" false,
      sampleProduct "knob" false]
    edges := [sampleEdge "dresser" "drawer" 1, sampleEdge "dresser" "drawer" 2,
      sampleEdge "drawer" "knob" 1, sampleEdge "dresser" "knob" 3] }

/-- A knob occurs three times in the dresser, twice in a drawer and once directly, and its level is
that of the drawers' knobs. -/
theorem knob_levels :
    let c := MemoryCatalogue.dressers
    let v := Service.sample c
    (∃ t u, (buildTree c.catalogue 3 (.sample "dresser")).outcome = .ok t ∧
      (buildTree c.catalogue 3 { TreeRequest.sample "knob" with mode := .implosion }).outcome =
        .ok u ∧ t.countAt "knob" 2 = 2 ∧ t.countAt "knob" 2 = u.countAt "dresser" 2) ∧
    (v.lowLevelCode "knob" none none).outcome = .ok 2 ∧
    ∃ p ∈ c.products, ∃ t, (buildTree c.catalogue 3
      (v.explosionRequest p.id none none none)).outcome = .ok t ∧ 0 < t.countAt "knob" 2 := by
  intro c v
  have hc : c.NeverReplaces := ⟨rfl, rfl, rfl⟩
  have hlevel : (v.lowLevelCode "knob" none none).outcome = .ok 2 := by decide +kernel
  refine ⟨?_, hlevel, ?_⟩
  · obtain ⟨t, ht, htwice⟩ : ∃ t, (buildTree c.catalogue 3 (.sample "dresser")).outcome = .ok t ∧
        t.countAt "knob" 2 = 2 := ⟨_, rfl, by decide +kernel⟩
    obtain ⟨u, hu⟩ : ∃ u, (buildTree c.catalogue 3
        { TreeRequest.sample "knob" with mode := .implosion }).outcome = .ok u := ⟨_, rfl⟩
    exact ⟨t, u, ht, hu, htwice, (explosion_converse c hc).1 "dresser" "knob" defaultBomType .epoch
      3 3 none none t u ht hu 2⟩
  · have hall : ∀ p ∈ c.products, (buildTree c.catalogue 3
        (v.explosionRequest p.id none none none)).outcome.isOk = true := by
      decide +kernel
    exact ((explosion_converse c hc).2 v "knob" none none 2 3 none rfl hlevel).2
      fun p hp => exists_of_isOk (hall p hp)

/-! ## Levels and edges -/

/-- A product goes into another one along an edge for the type of bill that is valid at the time. If
both implosions begin with the users of the product itself, the level of the component is above that
of what it goes into. -/
theorem lowLevelCode_lt (v : Service σ) (hv : v.catalogue.AnswersById) (parent child : String)
    (bomType : Option String) (asOf : Option DateTime) {edges : List Edge} {edge : Edge}
    {m n : Nat}
    (hedges : v.catalogue.edges .parents child (v.levelType bomType) none (asOf.getD v.now) =
      .ok edges)
    (hedge : edge ∈ edges) (hparent : edge.parent = parent)
    (hm : (v.lowLevelCode parent bomType asOf).outcome = .ok m)
    (hn : (v.lowLevelCode child bomType asOf).outcome = .ok n)
    (howns : (v.levelRequest parent bomType asOf).StartsAtOwn v.catalogue)
    (hown : (v.levelRequest child bomType asOf).StartsAtOwn v.catalogue) : m + 1 ≤ n := by
  obtain ⟨-, t, ht, rfl⟩ := Service.lowLevelCode_eq_ok.1 hm
  obtain ⟨-, u, hu, rfl⟩ := Service.lowLevelCode_eq_ok.1 hn
  exact (built_of_buildTree ht).height_lt hv (built_of_buildTree hu) howns hown hedges hedge hparent

/-- The catalogue of an oak chair and an oak stool, which are variants of a virtual chair and a
virtual stool. Both go into an oak set, and that into an oak suite. The virtual chair goes into a
dining set, the virtual stool into nothing. -/
def MemoryCatalogue.chairs : MemoryCatalogue :=
  { empty with
    products := [sampleProduct "chair" true, sampleProduct "oak chair" false,
      sampleProduct "stool" true, sampleProduct "oak stool" false, sampleProduct "oak set" false,
      sampleProduct "oak suite" false, sampleProduct "dining set" false]
    edges := [sampleEdge "oak set" "oak chair" 1, sampleEdge "oak set" "oak stool" 2,
      sampleEdge "oak suite" "oak set" 1, sampleEdge "dining set" "chair" 1]
    variants := [⟨"chair", ⟨"oak chair", []⟩⟩, ⟨"stool", ⟨"oak stool", []⟩⟩] }

/-- The oak stool is made as the virtual stool, which nothing uses, and its level is above that of
the oak set. -/
theorem stool_level :
    let v := Service.sample MemoryCatalogue.chairs
    (v.levelRequest "oak stool" none none).manufactured v.catalogue "oak stool" = .ok "stool" ∧
      (v.lowLevelCode "oak set" none none).outcome = .ok 1 ∧
      (v.lowLevelCode "oak stool" none none).outcome = .ok 2 ∧ 1 + 1 ≤ 2 := by
  intro v
  have hset : (v.lowLevelCode "oak set" none none).outcome = .ok 1 := by decide +kernel
  have hstool : (v.lowLevelCode "oak stool" none none).outcome = .ok 2 := by decide +kernel
  have hmade : (v.levelRequest "oak stool" none none).manufactured v.catalogue "oak stool" =
      .ok "stool" := by decide +kernel
  have hown : (v.levelRequest "oak set" none none).manufactured v.catalogue "oak set" =
      .ok "oak set" := by decide +kernel
  have hedges : v.catalogue.edges .parents "oak stool" (v.levelType none) none v.now =
      .ok [MemoryCatalogue.sampleEdge "oak set" "oak stool" 2] := by decide +kernel
  refine ⟨hmade, hset, hstool, ?_⟩
  refine lowLevelCode_lt v MemoryCatalogue.chairs.answersById "oak set" "oak stool" none none
    hedges
    List.mem_cons_self rfl hset hstool ?_ ?_
  · intro target htarget
    cases hown.symm.trans htarget
    exact .inl rfl
  · intro target htarget
    cases hmade.symm.trans htarget
    exact .inr (by decide +kernel)

/-- The oak chair is made as the virtual chair, which goes into a dining set. So its level is that
of the dining set's chair, and the same as that of the oak set which it goes into. -/
theorem chair_level :
    let v := Service.sample MemoryCatalogue.chairs
    v.catalogue.edges .parents "oak chair" (v.levelType none) none v.now =
        .ok [MemoryCatalogue.sampleEdge "oak set" "oak chair" 1] ∧
      (v.lowLevelCode "oak set" none none).outcome = .ok 1 ∧
      (v.lowLevelCode "oak chair" none none).outcome = .ok 1 := by
  decide +kernel

end Bom
