import Bom.Proofs.Catalogue
import Bom.Proofs.Order.Calls
import Bom.Proofs.Service.Build

/-!
# Which orders the service has made

`Service.make` plans a tree, counts it and has it ordered. Orders are placed one by one and are not
taken back, so a failure after the first of them would leave some behind. There is none: the cascade
asks the catalogue only about products whose edges it was asked for while the tree was built, and a
catalogue in memory fails for a product always or never (`make_atomic`).

What is ordered is told in two places. While the tree is built, nothing is put into the slots of a
node that a warehouse manages; while it is ordered, a node is passed over that a supplier delivers,
or that has nothing in its slots. `make_madeToOrder` has both, for each node on the way to a node
that is ordered.
-/

namespace Bom

variable {σ : Type}

/-! ## What a catalogue in memory has answered -/

namespace MemoryCatalogue

variable {products : MemoryCatalogue}

/-- A product of which a question was answered has its suppliers known as well. -/
theorem isSupplied_eq {product : String} (h : product ∉ products.failing) (now : DateTime) :
    products.catalogue.isSupplied product now = .ok (decide (product ∈ products.supplied)) :=
  answer_eq_ok.2 ⟨h, rfl⟩

/-- A product that is not supplied, as far as the catalogue can tell, has no supplier. -/
theorem not_mem_supplied_of_isUnsupplied {product : String} {now : DateTime}
    (h : products.catalogue.isUnsupplied now product = true) : product ∉ products.supplied := by
  unfold Catalogue.isUnsupplied at h
  cases hanswer : products.catalogue.isSupplied product now with
  | error e =>
    rw [hanswer] at h
    cases h
  | ok supplied =>
    rw [hanswer] at h
    obtain ⟨-, rfl⟩ := answer_eq_ok.1 hanswer
    simpa using h

/-- A product that no facility keeps in stock has no facility with a minimum stock. -/
theorem minimumStock_of_isStocked {product : String}
    (h : products.catalogue.isStocked product none = .ok false) :
    ∀ record ∈ products.facilities, record.minimumStock.isSome = true →
      record.product ≠ product := by
  obtain ⟨-, hany⟩ := answer_eq_ok.1 h
  intro record hrecord hminimum hproduct
  have := List.any_eq_false.1 hany record hrecord
  simp [hproduct, hminimum, FacilityRecord.isAt] at this

/-- A product that no warehouse manages is work in process, or no facility keeps it or what it has
replaced in stock. -/
theorem unstocked_of_isWarehouseManaged {product : Product} {replaced : Option Product}
    (h : isWarehouseManaged products.catalogue product replaced none = .ok false) :
    product.isWip = true ∨ ∀ record ∈ products.facilities, record.minimumStock.isSome = true →
      record.product ≠ product.id ∧ ∀ v, replaced = some v → record.product ≠ v.id := by
  unfold isWarehouseManaged at h
  split at h
  · next hwip => exact .inl hwip
  · obtain ⟨stocked, hstocked, h⟩ := bind_eq_ok.1 h
    cases stocked with
    | true => cases h
    | false =>
      right
      intro record hrecord hminimum
      refine ⟨minimumStock_of_isStocked (ask_eq_ok.1 hstocked) record hrecord hminimum, ?_⟩
      rintro v rfl
      exact minimumStock_of_isStocked (ask_eq_ok.1 h) record hrecord hminimum

end MemoryCatalogue

/-! ## Why a node is made -/

/-- A node below the root that is made to order: something goes into it, no supplier delivers it,
and unless it is work in process, no facility keeps it in stock, or what it has replaced. -/
structure Node.MadeToOrder (products : MemoryCatalogue) (n : Node) : Prop where
  component : ∃ child, some child ∈ n.slots.contents
  unsupplied : n.self.product.id ∉ products.supplied
  unstocked : n.self.product.isWip = true ∨
    ∀ record ∈ products.facilities, record.minimumStock.isSome = true →
      record.product ≠ n.self.product.id ∧
        ∀ v, n.replaced = some v → record.product ≠ v.product.id

/-! ## The plan and its orders -/

namespace Service

variable {v : Service σ} {r : MakeRequest}

/-- What has been planned is a finished tree for manufacturing, with the quantity and the amount of
the request. -/
theorem plan_eq_ok {t : Tree} {request : CascadeRequest}
    (h : (v.plan r).outcome = .ok (t, request)) :
    ∃ q tree, q.mode = .manufacturing ∧
      (buildTree v.catalogue v.settings.maxDepth q).outcome = .ok tree ∧
      t = tree.after [.setQuantity r.quantity, .setAmount r.amount] := by
  unfold plan at h
  obtain ⟨_, -, h⟩ := Noted.outcome_bind_eq_ok.1 h
  obtain ⟨_, -, h⟩ := Noted.outcome_bind_eq_ok.1 h
  obtain ⟨tree, htree, h⟩ := Noted.outcome_bind_eq_ok.1 h
  obtain ⟨-, htree⟩ := explode_eq_ok.1 htree
  cases h
  exact ⟨_, tree, rfl, htree, rfl⟩

/-- A plan that fails has nothing ordered. -/
theorem make_of_error {e : ServiceError} (h : (v.plan r).outcome = .error e) (s : σ) :
    (v.make r s).1 = s := by
  unfold make
  dsimp only
  rw [h]

/-- What is ordered for a plan. -/
theorem make_of_ok {t : Tree} {request : CascadeRequest}
    (h : (v.plan r).outcome = .ok (t, request)) (s : σ) :
    (v.make r s).1 = (v.toWorkshop.run v.calculator request t s).1 ∧
      (v.make r s).2.outcome =
        (v.toWorkshop.run v.calculator request t s).2.2.outcome.mapError .ofEngine := by
  unfold make
  dsimp only
  rw [h]
  exact ⟨rfl, rfl⟩

/-- The service at another desk. -/
def withDesk {τ : Type} (v : Service σ) (d : OrderDesk τ) : Service τ :=
  ⟨v.toWorkshop.withDesk d, v.calculator, v.settings⟩

/-- What the service asks its desk for, the first call first. -/
def calls (v : Service σ) (r : MakeRequest) (s : σ) : List OrderRequest :=
  ((v.withDesk v.desk.recording).make r (s, [])).1.2

/-- The service does not depend on whether the desk keeps a list. -/
theorem make_recording (v : Service σ) (r : MakeRequest) (s : σ) (asked : List OrderRequest) :
    v.make r s =
      (((v.withDesk v.desk.recording).make r (s, asked)).1.1,
        ((v.withDesk v.desk.recording).make r (s, asked)).2) := by
  have hplan : (v.withDesk v.desk.recording).plan r = v.plan r := rfl
  unfold make
  dsimp only
  rw [hplan]
  split
  · rfl
  · next t request _ =>
    rw [v.toWorkshop.run_recording v.calculator request t s asked]
    rfl

/-- A plan that fails asks the desk for nothing. -/
theorem calls_of_error {e : ServiceError} (h : (v.plan r).outcome = .error e) (s : σ) :
    v.calls r s = [] := by
  have hplan : ((v.withDesk v.desk.recording).plan r).outcome = .error e := h
  unfold calls
  rw [make_of_error hplan]

/-- What the service asks for is what a run for its plan asks for. -/
theorem calls_of_ok {t : Tree} {request : CascadeRequest}
    (h : (v.plan r).outcome = .ok (t, request)) (s : σ) :
    v.calls r s = v.toWorkshop.calls v.calculator request t s := by
  have hplan : ((v.withDesk v.desk.recording).plan r).outcome = .ok (t, request) := h
  unfold calls
  rw [(make_of_ok hplan (s, [])).1]
  rfl

end Service

/-! ## At the nodes of a planned tree -/

section

variable {products : MemoryCatalogue} {maxDepth : Nat} {q : TreeRequest} {t u : Tree}

/-- The catalogue can tell of each node of a counted tree whether the node is made. -/
theorem Built.exists_isMade (h : Built products.catalogue maxDepth q t) (hu : t.Agrees u)
    (now : DateTime) {l : Lineage} (hl : l ∈ u.lineages) :
    ∃ made, l.node.isMade products.catalogue now l.above.isEmpty = .ok made := by
  unfold Node.isMade
  cases hnode : l.node.slots.hasNode with
  | false => exact ⟨_, rfl⟩
  | true =>
    cases l.above.isEmpty with
    | true => exact ⟨_, rfl⟩
    | false =>
      obtain ⟨l', hl', -, hproduct, -, hsame⟩ := hu.exists_same hl
      obtain ⟨self, replaced, edges, hedges, hself⟩ := (h.reaches l' hl').asked (hsame.trans hnode)
      have hfailing : l.node.self.product.id ∉ products.failing := by
        rw [← hproduct, ← hself]
        exact MemoryCatalogue.not_mem_failing_of_edgesOf rfl hedges
      exact ⟨_, map_eq_ok.2 ⟨_, MemoryCatalogue.isSupplied_eq hfailing now, rfl⟩⟩

/-- A node below the root of a counted tree for manufacturing that is to be made is made to order.
-/
theorem Built.madeToOrder (h : Built products.catalogue maxDepth q t)
    (hmode : q.mode = .manufacturing) (hu : t.Agrees u) {now : DateTime} {n : Node}
    {above : List Node} (hl : ⟨n, above⟩ ∈ u.lineages) (habove : above ≠ [])
    (hmakes : products.catalogue.makesAll now (n :: above) = true) : n.MadeToOrder products := by
  obtain ⟨hnode, hunsupplied⟩ := Catalogue.makesAll_cons habove hmakes
  obtain ⟨l', hl', hroot, hproduct, hreplaced, hsame⟩ := hu.exists_same hl
  have hdescends := h.descends hl' (mt hroot.1 habove) (hsame.trans hnode)
  rw [Unfolding.descends, show (t.unfolding products.catalogue maxDepth).mode = .manufacturing from
    h.mode.trans hmode] at hdescends
  obtain ⟨stocked, hstocked, hnot⟩ := bind_eq_ok.1 hdescends
  rw [pure_eq_ok, Bool.not_eq_true'] at hnot
  subst hnot
  have hmanaged := MemoryCatalogue.unstocked_of_isWarehouseManaged hstocked
  rw [hproduct, hreplaced] at hmanaged
  refine ⟨Slots.exists_of_hasNode hnode,
    MemoryCatalogue.not_mem_supplied_of_isUnsupplied hunsupplied, ?_⟩
  refine hmanaged.imp_right fun hall record hrecord hminimum => ?_
  obtain ⟨hown, hother⟩ := hall record hrecord hminimum
  exact ⟨hown, fun v hv => hother v.product (congrArg (Option.map (·.product)) hv)⟩

end

section

variable {products : MemoryCatalogue} {v : Service σ} {r : MakeRequest} {t : Tree}
  {request : CascadeRequest}

/-- Once a tree has been planned and counted, the catalogue can tell of each of its nodes whether
the node is made. -/
theorem Service.exists_isMade (hv : v.catalogue = products.catalogue)
    (hplan : (v.plan r).outcome = .ok (t, request)) :
    ∀ l ∈ (t.flatten 0 false v.calculator).1.lineages,
      ∃ made, l.node.isMade v.catalogue v.now l.above.isEmpty = .ok made := by
  obtain ⟨q, tree, -, htree, hafter⟩ := plan_eq_ok hplan
  have hagrees : tree.Agrees t := hafter ▸ tree.agrees_after _
  have hcounted := hagrees.trans (t.agrees_flatten 0 false v.calculator)
  rw [hv] at htree ⊢
  exact fun l hl => (built_of_buildTree htree).exists_isMade hcounted v.now hl

/-- Once a tree has been planned and counted, only a date outside of the calendar ends the call. -/
theorem Service.eq_outOfCalendar (hv : v.catalogue = products.catalogue)
    (hplan : (v.plan r).outcome = .ok (t, request)) {numbers : List Nat}
    (hpass : (t.flatten 0 false v.calculator).2.outcome = .ok numbers) {s : σ} {e : ServiceError}
    (h : (v.make r s).2.outcome = .error e) : e = .outOfCalendar := by
  obtain ⟨ps, hcascades, -⟩ := v.toWorkshop.run_cascades request s hpass
  rw [(make_of_ok hplan s).2] at h
  cases hrun : (v.toWorkshop.run v.calculator request t s).2.2.outcome with
  | ok order =>
    rw [hrun] at h
    cases h
  | error e' =>
    rw [hrun] at h hcascades
    cases hcascades.eq_outOfCalendar (exists_isMade hv hplan) e' rfl
    cases h
    rfl

end

/-- A call of the service that fails leaves the books as they were, whatever is in them and whatever
fails: the numbers and the product of the request, a question to the catalogue, the tree or a
calculation. A date outside of the calendar does not count as a failure here, since it breaks the
call off and nothing is returned. The reason is that once a tree has been planned and counted, the
catalogue can tell of each of its nodes whether it is made, so that nothing fails between two
orders. -/
theorem make_atomic (products : MemoryCatalogue) (v : Service σ)
    (hv : v.catalogue = products.catalogue) (r : MakeRequest) (s : σ) :
    (∀ e, (v.make r s).2.outcome = .error e → e ≠ .outOfCalendar → (v.make r s).1 = s) ∧
    ∀ t request numbers, (v.plan r).outcome = .ok (t, request) →
      (t.flatten 0 false v.calculator).2.outcome = .ok numbers →
        (∀ l ∈ (t.flatten 0 false v.calculator).1.lineages,
          ∃ made, l.node.isMade v.catalogue v.now l.above.isEmpty = .ok made) ∧
        ∀ e, (v.make r s).2.outcome = .error e → e = .outOfCalendar := by
  refine ⟨fun e he hne => ?_, fun t request numbers hplan hpass => ?_⟩
  · cases hplan : (v.plan r).outcome with
    | error e' => exact Service.make_of_error hplan s
    | ok planned =>
      obtain ⟨t, request⟩ := planned
      cases hpass : (t.flatten 0 false v.calculator).2.outcome with
      | error e' =>
        rw [(Service.make_of_ok hplan s).1]
        exact (Workshop.run_of_error s hpass).1
      | ok numbers => exact absurd (Service.eq_outOfCalendar hv hplan hpass he) hne
  · exact ⟨Service.exists_isMade hv hplan, fun e he => Service.eq_outOfCalendar hv hplan hpass he⟩

/-- The service of a sample: a desk without lead times, and the standard settings. -/
def Service.sample (products : MemoryCatalogue) : Service OrderBook :=
  ⟨⟨products.catalogue, OrderBook.desk .standard, .epoch⟩, none, .standard⟩

/-- A request for two of a product. -/
def MakeRequest.sample (product : String) : MakeRequest :=
  ⟨product, 2.0, 0.0, .epoch, none, none, none, none, none, none⟩

/-- The tree of the bicycle is planned and counted. -/
theorem bicycle_planned : ∃ t request numbers,
    ((Service.sample MemoryCatalogue.bicycles).plan (.sample "bicycle")).outcome =
      .ok (t, request) ∧ (t.flatten 0 false none).2.outcome = .ok numbers := by
  have hplanned : ((Service.sample MemoryCatalogue.bicycles).plan
      (.sample "bicycle")).outcome.toOption.any (fun planned =>
        (planned.1.flatten 0 false none).2.outcome.isOk) = true := by
    decide +kernel
  obtain ⟨planned, hplan, hcounted⟩ := exists_of_any hplanned
  obtain ⟨numbers, hpass⟩ := exists_of_isOk hcounted
  exact ⟨planned.1, planned.2, numbers, hplan, hpass⟩

/-- When the tube of the frame cannot be looked up, nothing is added to the orders that an earlier
call has left. When it can, the call is sure to succeed. -/
theorem bicycle_atomic :
    let v := Service.sample MemoryCatalogue.bicycles
    let failing := Service.sample (MemoryCatalogue.bicycles.failFor "tube")
    let b := (v.make (.sample "bicycle") .empty).1
    b.orders.map (·.ref.id) = ["PO-0001", "PO-0002"] ∧
    (failing.make (.sample "bicycle") b).2.outcome =
      .error (.ofEngine (.store (MemoryCatalogue.failure "tube"))) ∧
    (failing.make (.sample "bicycle") b).1 = b ∧
    ∀ e, (v.make (.sample "bicycle") b).2.outcome = .error e → e = .outOfCalendar := by
  intro v failing b
  have hfails : (failing.make (.sample "bicycle") b).2.outcome =
      .error (.ofEngine (.store (MemoryCatalogue.failure "tube"))) := by
    decide +kernel
  refine ⟨by decide +kernel, hfails, ?_, ?_⟩
  · exact (make_atomic _ failing rfl (.sample "bicycle") b).1 _ hfails nofun
  · obtain ⟨t, request, numbers, hplan, hpass⟩ := bicycle_planned
    exact ((make_atomic _ v rfl (.sample "bicycle") b).2 t request numbers hplan hpass).2

/-- What the service asks its desk for are orders for nodes that are to be made, in post-order. Each
node on the way to such a node, other than the root, is made to order: something goes into it, no
supplier delivers it, and it is work in process, or no facility keeps it in stock, or what it has
replaced. So a node below the root that is bought or kept in stock has no order, and neither has
anything below it. -/
theorem make_madeToOrder (products : MemoryCatalogue) (v : Service σ)
    (hv : v.catalogue = products.catalogue) (r : MakeRequest) (s : σ) :
    (∀ e, (v.plan r).outcome = .error e → v.calls r s = []) ∧
    ∀ t request, (v.plan r).outcome = .ok (t, request) →
      ∃ ps : List Placing, v.calls r s = ps.map (Placing.request request) ∧
        ps.map (·.way) <+: (t.flatten 0 false v.calculator).1.due v.catalogue v.now ∧
        ∀ p ∈ ps, ∀ n ∈ (p.way.node :: p.way.above).dropLast, n.MadeToOrder products := by
  refine ⟨fun e he => Service.calls_of_error he s, fun t request hplan => ?_⟩
  rw [Service.calls_of_ok hplan]
  obtain ⟨q, tree, hmode, htree, hafter⟩ := Service.plan_eq_ok hplan
  cases hpass : (t.flatten 0 false v.calculator).2.outcome with
  | error e =>
    refine ⟨[], v.toWorkshop.calls_of_error request s hpass, List.nil_prefix, ?_⟩
    exact fun p hp => absurd hp List.not_mem_nil
  | ok numbers =>
    obtain ⟨ps, hcascades, -, hcalls⟩ := v.toWorkshop.exists_calls request s hpass
    refine ⟨ps, hcalls, (hcascades.ways rfl).1, fun p hp n hn => ?_⟩
    have hagrees : tree.Agrees t := hafter ▸ tree.agrees_after _
    have hcounted := hagrees.trans (t.agrees_flatten 0 false v.calculator)
    have hdue := hcascades.way_mem_due hp
    obtain ⟨below, above, hway, habove⟩ := exists_above_of_mem_dropLast hn
    have hl := Tree.mem_lineages_of_append (Tree.mem_lineages_of_due hdue) hway
    have hmakes : v.catalogue.makesAll v.now (p.way.node :: p.way.above) = true :=
      (List.mem_filter.1 hdue).2
    rw [hway, hv] at hmakes
    rw [hv] at htree
    exact (built_of_buildTree htree).madeToOrder hmode hcounted hl habove
      (Catalogue.makesAll_of_append hmakes)

/-- The frame of the bicycle is made to order, unless a facility keeps it in stock. -/
theorem bicycle_madeToOrder :
    let v := Service.sample MemoryCatalogue.bicycles
    let stocking := Service.sample (MemoryCatalogue.bicycles.addStocking "steel frame" "store" none)
    (v.calls (.sample "bicycle") .empty).map (·.product) = ["steel frame", "bicycle"] ∧
    (stocking.calls (.sample "bicycle") .empty).map (·.product) = ["bicycle"] ∧
    ∃ (request : CascadeRequest) (ps : List Placing),
      v.calls (.sample "bicycle") .empty = ps.map (Placing.request request) ∧
      ∀ p ∈ ps, ∀ n ∈ (p.way.node :: p.way.above).dropLast,
        n.MadeToOrder MemoryCatalogue.bicycles := by
  intro v stocking
  refine ⟨by decide +kernel, by decide +kernel, ?_⟩
  obtain ⟨t, request, -, hplan, -⟩ := bicycle_planned
  obtain ⟨ps, hcalls, -, hmade⟩ :=
    (make_madeToOrder MemoryCatalogue.bicycles v rfl (.sample "bicycle") .empty).2 t request hplan
  exact ⟨request, ps, hcalls, hmade⟩

end Bom
