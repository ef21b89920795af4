import Bom.Proofs.Order.Inheritance
import Bom.Proofs.Service.Make

/-!
# At which facility the service has orders made

A facility for an order may be named by the request, by the product that is ordered, and by the
settings. The settings promise theirs as the last resort (`MakeRequest.promisedFacility`). The
service, though, has it stand in for that of the request before the cascade gets to see a product,
so it goes before that of the product (`MakeRequest.facilityFor`). `make_facility` says for each
order at which facility it is made, and when this is the promised one.
-/

namespace Bom

namespace MakeRequest

/-- What the service asks of the cascade. -/
def cascade (r : MakeRequest) (settings : Settings) : CascadeRequest where
  facility := r.facility.or settings.facility
  start := r.start
  name := r.name
  description := r.description
  routing := r.routing
  source := r.source
  shipment := r.shipment

/-- Where an order for the product is made: as the request says, or else the settings, or else the
product. -/
def facilityFor (r : MakeRequest) (settings : Settings) (p : Product) : Option String :=
  (r.facility.or settings.facility).or p.facility

/-- Where an order for the product is promised to be made: as the request says, or else the product,
or else the settings. -/
def promisedFacility (r : MakeRequest) (settings : Settings) (p : Product) : Option String :=
  r.facility.or (p.facility.or settings.facility)

/-- The settings go before a product only where both name a facility, and not the same. -/
theorem facilityFor_eq_promised_iff (r : MakeRequest) (settings : Settings) (p : Product) :
    r.facilityFor settings p = r.promisedFacility settings p ↔
      r.facility.isSome ∨ settings.facility = none ∨ p.facility = none ∨
        p.facility = settings.facility := by
  unfold facilityFor promisedFacility
  cases r.facility with
  | some facility => simp
  | none =>
    cases settings.facility <;> cases p.facility <;> simp [eq_comm]

end MakeRequest

namespace Service

variable {σ : Type} {v : Service σ} {r : MakeRequest} {t : Tree} {request : CascadeRequest}

/-- What is planned for the cascade does not depend on the tree. -/
theorem plan_request (h : (v.plan r).outcome = .ok (t, request)) :
    request = r.cascade v.settings := by
  unfold plan at h
  obtain ⟨_, -, h⟩ := Noted.outcome_bind_eq_ok.1 h
  obtain ⟨_, -, h⟩ := Noted.outcome_bind_eq_ok.1 h
  obtain ⟨_, -, h⟩ := Noted.outcome_bind_eq_ok.1 h
  cases h
  rfl

/-- What the service asks for is what a cascade calls for, each time for a node that is due. -/
theorem exists_placings (h : (v.plan r).outcome = .ok (t, request)) (s : σ) :
    ∃ ps : List Placing, v.calls r s = ps.map (Placing.request request) ∧
      ps.map (·.way) <+: (t.flatten 0 false v.calculator).1.due v.catalogue v.now := by
  rw [calls_of_ok h]
  cases hpass : (t.flatten 0 false v.calculator).2.outcome with
  | error e =>
    exact ⟨[], v.toWorkshop.calls_of_error request s hpass, List.nil_prefix⟩
  | ok numbers =>
    obtain ⟨ps, hcascades, -, hcalls⟩ := v.toWorkshop.exists_calls request s hpass
    exact ⟨ps, hcalls, (hcascades.ways rfl).1⟩

end Service

/-- The orders that the service asks for are for nodes that are due, and each is made as the request
says, or else the settings, or else the product under which the node is ordered. This is the
facility that the settings promise just where the request names one, or the settings or the product
name none, or these two name the same. -/
theorem make_facility {σ : Type} (v : Service σ) (r : MakeRequest) (s : σ) :
    (∀ e, (v.plan r).outcome = .error e → v.calls r s = []) ∧
    ∀ t request, (v.plan r).outcome = .ok (t, request) →
      ∃ ways, ways <+: (t.flatten 0 false v.calculator).1.due v.catalogue v.now ∧
        List.Forall₂ (fun l call => call.product = l.ordered.id ∧
          call.facility = r.facilityFor v.settings l.ordered ∧
          (call.facility = r.promisedFacility v.settings l.ordered ↔
            r.facility.isSome ∨ v.settings.facility = none ∨ l.ordered.facility = none ∨
              l.ordered.facility = v.settings.facility)) ways (v.calls r s) := by
  refine ⟨fun e he => Service.calls_of_error he s, fun t request hplan => ?_⟩
  obtain ⟨ps, hcalls, hdue⟩ := Service.exists_placings hplan s
  refine ⟨ps.map (·.way), hdue, ?_⟩
  rw [hcalls, List.forall₂_map_left_iff, List.forall₂_map_right_iff, List.forall₂_same]
  intro p _
  have hfacility : (p.request request).facility = r.facilityFor v.settings p.way.ordered := by
    rw [(p.request_inherits request).facility, Service.plan_request hplan]
    rfl
  refine ⟨rfl, hfacility, ?_⟩
  rw [hfacility]
  exact r.facilityFor_eq_promised_iff v.settings p.way.ordered

/-- A cabinet that is made in a shop, out of a board. -/
def MemoryCatalogue.cabinets : MemoryCatalogue :=
  { empty with
    products := [{ sampleProduct "cabinet" false with facility := some "shop" },
      sampleProduct "board" false]
    edges := [sampleEdge "cabinet" "board" 1] }

/-- As long as the settings name no facility, the cabinet is made in the shop. -/
theorem cabinet_facility :
    let v := Service.sample MemoryCatalogue.cabinets
    (v.calls (.sample "cabinet") .empty).map (fun call => (call.product, call.facility)) =
      [("cabinet", some "shop")] ∧
    ∃ t request ways, (v.plan (.sample "cabinet")).outcome = .ok (t, request) ∧
      ways <+: (t.flatten 0 false none).1.due v.catalogue v.now ∧
      List.Forall₂ (fun l call => call.facility =
          MakeRequest.promisedFacility (.sample "cabinet") v.settings l.ordered)
        ways (v.calls (.sample "cabinet") .empty) := by
  intro v
  refine ⟨by decide +kernel, ?_⟩
  have hplanned : (v.plan (.sample "cabinet")).outcome.isOk = true := by decide +kernel
  obtain ⟨⟨t, request⟩, hplan⟩ := exists_of_isOk hplanned
  obtain ⟨ways, hdue, hcalls⟩ :=
    (make_facility v (.sample "cabinet") .empty).2 t request hplan
  exact ⟨t, request, ways, hplan, hdue, hcalls.imp fun l call h => h.2.2.2 (.inr (.inl rfl))⟩

/-- When the settings name another facility, the cabinet is made there, although it is promised to
be made in the shop. -/
theorem cabinet_elsewhere :
    let v : Service OrderBook := { Service.sample MemoryCatalogue.cabinets with
      settings := { Settings.standard with facility := some "main" } }
    ∃ call ∈ v.calls (.sample "cabinet") .empty, ∃ p,
      v.catalogue.product call.product = .ok (some p) ∧ call.facility = some "main" ∧
      MakeRequest.promisedFacility (.sample "cabinet") v.settings p = some "shop" := by
  intro v
  have hcalls : (v.calls (.sample "cabinet") .empty).map
      (fun call => (call.product, call.facility)) = [("cabinet", some "main")] := by
    decide +kernel
  have hmem : ("cabinet", some "main") ∈ (v.calls (.sample "cabinet") .empty).map
      (fun call => (call.product, call.facility)) := by
    rw [hcalls]
    exact List.mem_singleton_self _
  obtain ⟨call, hcall, hsame⟩ := List.mem_map.1 hmem
  obtain ⟨hproduct, hfacility⟩ := Prod.mk.inj hsame
  refine ⟨call, hcall, { MemoryCatalogue.sampleProduct "cabinet" false with
    facility := some "shop" }, ?_, hfacility, rfl⟩
  rw [hproduct]
  rfl

end Bom
