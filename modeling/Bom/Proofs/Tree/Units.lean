import Bom.Proofs.Decimal.Magnitude
import Bom.Proofs.Lookup
import Bom.Proofs.Tree.Table

/-!
# Where the units of a component come from

The units of a component pass through its resolution and change nothing else in it
(`resolve_withUnits`). So the factors of an occurrence are those of its edge, but for the units that
a rule states (`Occurrence.IsMeasured`, `Built.measured`). The factors of an edge are numbers
whatever the edge says. Of the units of a rule only those are taken that are positive, and infinity
is positive: `buildTree_factors` says that in a finished tree every factor for scrap is a number,
and the units are one except where a rule with infinitely many put the product there.
-/

namespace Bom

/-! ## Through a resolution -/

/-- The units of a product that a rule, or none, puts in the place of a component with the given
units. -/
def unitsBy (rule : Option Rule) (multiplier : Float) : Float :=
  rule.elim multiplier (·.quantityOr multiplier)

/-- The same resolution of a component with the given units. -/
def Resolution.withUnits (multiplier : Float) : Resolution → Resolution
  | .unchanged => .unchanged
  | .removed rule strategy => .removed rule strategy
  | .substituted product rule _ strategy =>
    .substituted product rule (unitsBy rule multiplier) strategy

namespace Surroundings

variable {c : Catalogue} {s : Surroundings} {component : String} (m m' : Float)

theorem applyRule_withUnits (strategy : Strategy) (r : Rule) :
    applyRule c strategy m' r = (applyRule c strategy m r).map (Resolution.withUnits m') := by
  unfold applyRule
  split
  · rfl
  · cases c.productOf (r.substitute.getD "") <;> rfl

theorem applyFeatures_withUnits :
    s.applyFeatures c component m' =
      (s.applyFeatures c component m).map (Option.map (Resolution.withUnits m')) := by
  unfold applyFeatures
  split
  · rfl
  · rcases ask (c.variants component s.selected) with _ | ⟨_ | ⟨product, _ | ⟨second, rest⟩⟩⟩ <;> rfl

theorem attempt_withUnits (strategy : Strategy) :
    s.attempt c component m' strategy =
      (s.attempt c component m strategy).map (Option.map (Resolution.withUnits m')) := by
  unfold attempt
  split
  · exact applyFeatures_withUnits m m'
  · cases s.rulesFor c component strategy with
    | error e => rfl
    | ok rules =>
      cases hfiring : rules.find? (·.fires s.selected) with
      | none =>
        simp only [bind, Except.bind, hfiring]
        rfl
      | some r =>
        simp only [bind, Except.bind, hfiring, applyRule_withUnits m m']
        cases applyRule c strategy m r <;> rfl

theorem firstResult_withUnits (strategies : List Strategy) :
    s.firstResult c component m' strategies =
      (s.firstResult c component m strategies).map (Resolution.withUnits m') := by
  induction strategies with
  | nil => rfl
  | cons strategy rest ih =>
    unfold firstResult
    rw [attempt_withUnits m m']
    refine bind_of_map fun result => ?_
    cases result with
    | some result => rfl
    | none => exact ih

end Surroundings

/-- The units of a component have no influence on what becomes of it, but for the units of what
takes its place. -/
theorem resolve_withUnits (c : Catalogue) (s : Surroundings) (component : Product) (m m' : Float) :
    resolve c s component m' = (resolve c s component m).map (Resolution.withUnits m') := by
  unfold resolve
  split
  · exact Surroundings.firstResult_withUnits m m' _
  · rfl

/-- The units of what takes the place of a component. -/
theorem multiplier_of_resolve {c : Catalogue} {s : Surroundings} {component product : Product}
    {m multiplier : Float} {rule : Option Rule} {strategy : Strategy}
    (h : resolve c s component m = .ok (.substituted product rule multiplier strategy)) :
    multiplier = unitsBy rule m := by
  have hsame := resolve_withUnits c s component m m
  rw [h] at hsame
  cases hsame
  rfl

/-! ## In a tree -/

/-- The factors of an occurrence are those of its edge, but for the units that a rule states, or 1
where nothing is counted. -/
inductive Occurrence.IsMeasured (o : Occurrence) : Prop
  | uncounted (rule : o.rule = none) (multiplier : o.multiplier = 1.0) (scrap : o.scrap = 1.0)
  | counted (edge : Edge) (reached : o.edge = some edge)
      (multiplier : o.multiplier = unitsBy o.rule (quantityMultiplier edge.quantity))
      (scrap : o.scrap = scrapMultiplier edge.scrap)

theorem Occurrence.IsMeasured.congr {o o' : Occurrence} (h : o.IsMeasured)
    (hedge : o'.edge = o.edge) (hrule : o'.rule = o.rule) (hmultiplier : o'.multiplier = o.multiplier)
    (hscrap : o'.scrap = o.scrap) : o'.IsMeasured := by
  cases h with
  | uncounted rule multiplier scrap =>
    exact .uncounted (hrule.trans rule) (hmultiplier.trans multiplier) (hscrap.trans scrap)
  | counted edge reached multiplier scrap =>
    refine .counted edge (hedge.trans reached) ?_ (hscrap.trans scrap)
    rw [hmultiplier, hrule, multiplier]

/-- Both occurrences that an edge leads to are measured. -/
def Attachment.IsMeasured : Attachment → Prop
  | .vacant => True
  | .plain o => o.IsMeasured
  | .replacing component o => component.IsMeasured ∧ o.IsMeasured

namespace Unfolding

variable {u : Unfolding}

theorem attach_measured {s : Surroundings} {edge : Edge} {a : Attachment}
    (h : (u.attach s edge).outcome = .ok a) : a.IsMeasured := by
  unfold attach at h
  split at h
  · obtain ⟨product, resolution, -, hresolve, rfl⟩ := attachComponent_eq_ok.1 h
    have hfound : (component edge product).IsMeasured := .counted edge rfl rfl rfl
    cases resolution with
    | unchanged => exact hfound
    | removed rule strategy => trivial
    | substituted substitute rule multiplier strategy =>
      exact ⟨hfound, .counted edge rfl (multiplier_of_resolve hresolve) rfl⟩
  · obtain ⟨product, -, rfl⟩ := attachUser_eq_ok.1 h
    exact .uncounted rfl rfl rfl

/-- A place keeps its factors. -/
theorem Settles.measured {room : Nat} {ids : List String} {self : Occurrence}
    {replaced : Option Occurrence} {next last : Nat} {node : Node}
    (h : u.Settles room ids self replaced next node last) (hself : self.IsMeasured) :
    node.self.IsMeasured := by
  cases h with
  | flat _ => exact hself
  | deep _ hexpand =>
    cases hexpand
    exact hself.congr rfl rfl rfl rfl

/-- What stands in a slot is measured, and so is the component that it has replaced. -/
theorem Reaches.measured {limit : Nat} {l : Lineage} (h : u.Reaches limit l) {i : Nat}
    {child : Node} (hi : l.node.slots.contents[i]? = some (some child)) :
    child.self.IsMeasured ∧ ∀ v, child.replaced = some v → v.IsMeasured := by
  cases h with
  | left _ _ => simp [Node.slots, Slots.contents] at hi
  | expanded hexpand =>
    obtain ⟨_, _, -, -, -, -, -, hfill⟩ := hexpand.inv
    obtain ⟨_, _, _, -, ⟨o, hattach, hchild⟩ | ⟨found, o, hattach, hchild⟩⟩ := hfill.seat hi
    · have ho : o.IsMeasured := attach_measured hattach
      obtain ⟨-, -, hreplaced⟩ := hchild.self_eq
      refine ⟨hchild.measured (ho.congr rfl rfl rfl rfl), fun v hv => ?_⟩
      rw [hreplaced] at hv
      cases hv
    · obtain ⟨hfound, ho⟩ : found.IsMeasured ∧ o.IsMeasured := attach_measured hattach
      obtain ⟨-, -, hreplaced⟩ := hchild.self_eq
      refine ⟨hchild.measured (ho.congr rfl rfl rfl rfl), fun v hv => ?_⟩
      rw [hreplaced] at hv
      cases hv
      exact hfound.congr rfl rfl rfl rfl

end Unfolding

/-- Every occurrence of a finished tree is measured. -/
theorem Built.measured {c : Catalogue} {maxDepth : Nat} {r : TreeRequest} {t : Tree}
    (h : Built c maxDepth r t) {o : Occurrence} (ho : o ∈ t.occurrences) : o.IsMeasured := by
  obtain ⟨row, hrow, rfl⟩ := List.mem_map.1 ho
  rw [t.table_eq, List.mem_cons, List.mem_cons, List.mem_flatMap] at hrow
  rcases hrow with rfl | rfl | ⟨l, hl, hrow⟩
  · change t.requested.IsMeasured
    rw [h.requested]
    exact .uncounted rfl rfl rfl
  · obtain ⟨last, hrun⟩ := h.run
    obtain ⟨_, _, -, -, -, hself, -⟩ := hrun.inv
    change t.root.self.IsMeasured
    rw [hself]
    exact .uncounted rfl rfl rfl
  · obtain ⟨up, hup, i, hi⟩ := Tree.slot_of_mem_lower hl
    obtain ⟨hself, hreplaced⟩ := (h.reaches up hup).measured hi
    rcases Lineage.mem_rows.1 hrow with ⟨v, hv, rfl⟩ | rfl
    · exact hreplaced v hv
    · exact hself

/-! ## Numbers and infinity -/

/-- A double that is positive is a number or infinity. -/
theorem eq_infinity_of_pos {x : Float} (hpos : x > 0.0) (h : x.isFinite = false) : x = infinity := by
  have hlt : (Float.toModel 0.0).unpack.lt x.toModel.unpack = true := (lt_iff_unpack _ _).1 hpos
  have hinfinity : infinity.toModel.unpack = .infinity .positive := rfl
  have hzero : (Float.toModel 0.0).unpack = .zero .positive := rfl
  change x.toModel.unpack.isFinite = false at h
  refine eq_of_unpack_eq ?_
  rw [hinfinity]
  rw [hzero] at hlt
  generalize x.toModel.unpack = f at h hlt
  rcases f with ⟨⟨⟩⟩ | _ | s | ⟨s, m, e, hm⟩
  · cases hlt
  · rfl
  · cases hlt
  · cases h
  · cases h

theorem infinity_pos : infinity > 0.0 := (lt_iff_unpack _ _).2 rfl

/-- The units are infinity where a rule with infinitely many applies, and else a number, if those of
the component are. -/
theorem unitsBy_cases {multiplier : Float} (h : multiplier.isFinite = true) (rule : Option Rule) :
    (rule.bind (·.quantity) ≠ some infinity ∧ (unitsBy rule multiplier).isFinite = true) ∨
      (rule.bind (·.quantity) = some infinity ∧ unitsBy rule multiplier = infinity) := by
  cases rule with
  | none => exact .inl ⟨nofun, h⟩
  | some r =>
    change (r.quantity ≠ some infinity ∧ (r.quantityOr multiplier).isFinite = true) ∨
      (r.quantity = some infinity ∧ r.quantityOr multiplier = infinity)
    rw [r.quantityOr_eq]
    cases hown : r.quantity with
    | none => exact .inl ⟨nofun, h⟩
    | some own =>
      rw [Option.filter_some]
      by_cases hpos : own > 0.0
      · rw [if_pos (decide_eq_true hpos)]
        cases hfinite : own.isFinite with
        | false => exact .inr ⟨congrArg some (eq_infinity_of_pos hpos hfinite),
            eq_infinity_of_pos hpos hfinite⟩
        | true =>
          refine .inl ⟨?_, hfinite⟩
          rintro ⟨⟩
          cases hfinite
      · rw [if_neg (by simpa using hpos)]
        refine .inl ⟨?_, h⟩
        rintro ⟨⟩
        exact hpos infinity_pos

/-- In a finished tree every factor for scrap is a number, whatever the edges say. The units are a
number except where a rule with infinitely many put the product in the place of a component: there
they are infinity. -/
theorem buildTree_factors (c : Catalogue) (maxDepth : Nat) (r : TreeRequest) (t : Tree)
    (h : (buildTree c maxDepth r).outcome = .ok t) :
    ∀ o ∈ t.occurrences, o.scrap.isFinite = true ∧
      (o.multiplier.isFinite = true ↔ o.rule.bind (·.quantity) ≠ some infinity) ∧
      (o.rule.bind (·.quantity) = some infinity → o.multiplier = infinity) := by
  intro o ho
  cases (built_of_buildTree h).measured ho with
  | uncounted hrule hmultiplier hscrap =>
    rw [hrule, hmultiplier, hscrap]
    exact ⟨rfl, ⟨fun _ => nofun, fun _ => rfl⟩, nofun⟩
  | counted edge hedge hmultiplier hscrap =>
    rw [hmultiplier, hscrap]
    refine ⟨isFinite_scrapMultiplier edge.scrap, ?_⟩
    rcases unitsBy_cases (isFinite_quantityMultiplier edge.quantity) o.rule with
      ⟨hrule, hunits⟩ | ⟨hrule, hunits⟩
    · exact ⟨⟨fun _ => hrule, fun _ => hunits⟩, fun h => absurd h hrule⟩
    · refine ⟨⟨fun hfinite => ?_, fun h => absurd hrule h⟩, fun _ => hunits⟩
      rw [hunits] at hfinite
      cases hfinite

/-- The bill of the bicycle with the same numbers in every edge and in every rule. -/
def MemoryCatalogue.measuredBicycles (quantity scrap own : Float) : MemoryCatalogue :=
  { bicycles with
    edges := bicycles.edges.map fun e => { e with quantity := some quantity, scrap := some scrap }
    rules := bicycles.rules.map fun r => { r with quantity := some own } }

/-- Edges and rules without a single usable number leave every factor of the bicycle a number. -/
theorem bicycle_factors :
    ∃ t, (buildTree (MemoryCatalogue.measuredBicycles infinity notANumber notANumber).catalogue 3
        (.sample "bicycle")).outcome = .ok t ∧
      ∀ o ∈ t.occurrences, o.scrap.isFinite = true ∧ o.multiplier.isFinite = true := by
  refine ⟨_, rfl, fun o ho => ?_⟩
  have hrule : o.rule.bind (·.quantity) ≠ some infinity := by
    revert o
    decide
  have h := buildTree_factors
    (MemoryCatalogue.measuredBicycles infinity notANumber notANumber).catalogue 3 (.sample "bicycle")
    _ rfl o ho
  exact ⟨h.1, h.2.1.2 hrule⟩

/-- A rule with infinitely many steel frames makes infinitely many of them part of the bicycle. -/
theorem bicycle_infinity :
    ∃ t o, (buildTree (MemoryCatalogue.measuredBicycles 1.0 0.0 infinity).catalogue 3
        (.sample "bicycle")).outcome = .ok t ∧
      o ∈ t.occurrences ∧ o.product.id = "steel frame" ∧ o.multiplier.isFinite = false := by
  refine ⟨_, _, rfl, List.mem_of_getElem? (i := 3) rfl, rfl, rfl⟩

end Bom
