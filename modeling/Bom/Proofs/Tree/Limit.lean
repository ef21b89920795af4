import Bom.Proofs.Lookup
import Bom.Proofs.Tree.Run

/-!
# The limit on the depth of a tree

An unfolding is told how many levels it may go down. The limit can stop it, and that is all that a
limit does: two unfoldings that differ in nothing but the limit do the same until the lower limit
stops one of them (`Noted.WithinLimit`). A limit that is greater than the number of products never
stops an unfolding at all. The products above a place are all different and all come from the
catalogue, so before the room is used up one of them occurs below itself.

* `Unfolding.expand_withinLimit`: what a greater limit changes.
* `Unfolding.expand_unlimited`: a limit above the number of products is none.
* `buildTree_limit`: both, for trees of a catalogue in memory.
-/

namespace Bom

/-! ## Work and the limit -/

namespace Noted

variable {α β : Type}

/-- The limit on the depth does not stop the work. -/
def Unlimited (x : Noted EngineError α) : Prop :=
  ∀ limit product, x.outcome ≠ .error (.maxDepth limit product)

theorem unlimited_pure (a : α) : (pure a : Noted EngineError α).Unlimited := by
  intro limit product h
  cases h

theorem unlimited_give (notices : List Notice) :
    (give notices : Noted EngineError Unit).Unlimited := by
  intro limit product h
  cases h

theorem unlimited_lift {x : Except EngineError α} (h : OnlyAsks x) : (lift x).Unlimited := by
  intro limit product hx
  exact h _ hx

theorem unlimited_iff {x : Noted EngineError α} :
    x.Unlimited ↔ x.FailsOnly fun e => ∀ limit product, e ≠ .maxDepth limit product := by
  constructor
  · rintro h e he limit product rfl
    exact h limit product he
  · intro h limit product he
    exact h _ he limit product rfl

/-- Composed work is not stopped if none of its parts is. -/
theorem Unlimited.bind {x : Noted EngineError α} {f : α → Noted EngineError β} (hx : x.Unlimited)
    (hf : ∀ a, x.outcome = .ok a → (f a).Unlimited) : (x >>= f).Unlimited :=
  unlimited_iff.2 ((unlimited_iff.1 hx).bind fun a ha => unlimited_iff.1 (hf a ha))

/-- One piece of work is another one, unless the given limit stops it. -/
def WithinLimit (limit : Nat) (x y : Noted EngineError α) : Prop :=
  (∃ product, x.outcome = .error (.maxDepth limit product)) ∨ x = y

theorem withinLimit_refl (limit : Nat) (x : Noted EngineError α) : WithinLimit limit x x := .inr rfl

/-- Composed work is other composed work, unless the limit stops one of its parts. -/
theorem WithinLimit.bind {limit : Nat} {x y : Noted EngineError α} {f g : α → Noted EngineError β}
    (hxy : WithinLimit limit x y) (hfg : ∀ a, WithinLimit limit (f a) (g a)) :
    WithinLimit limit (x >>= f) (y >>= g) := by
  rcases hxy with ⟨product, hproduct⟩ | rfl
  · left
    exact ⟨product, by rw [outcome_bind, hproduct]; rfl⟩
  -- the first parts are the same, so what counts is whether the rest stops where they lead
  · by_cases hstop : ∃ a product,
        x.outcome = .ok a ∧ (f a).outcome = .error (.maxDepth limit product)
    · obtain ⟨a, product, ha, hproduct⟩ := hstop
      left
      exact ⟨product, by rw [outcome_bind, ha]; exact hproduct⟩
    · right
      refine bind_congr fun a ha => (hfg a).resolve_left ?_
      rintro ⟨product, hproduct⟩
      exact hstop ⟨a, product, ha, hproduct⟩

end Noted

open Noted

/-! ## A greater limit -/

namespace Unfolding

/-- The same unfolding with another limit. -/
def withLimit (u : Unfolding) (limit : Nat) : Unfolding := { u with maxDepth := limit }

variable {u : Unfolding} {limit : Nat}
  {grow grow' : Occurrence → Option Occurrence → Nat → Noted EngineError (Node × Nat)}

theorem edgesOf_withLimit (self : Occurrence) (replaced : Option Occurrence) :
    (u.withLimit limit).edgesOf self replaced = u.edgesOf self replaced := by
  apply edgesOf_congr <;> intros <;> rfl

theorem settle_withinLimit
    (hgrow : ∀ self replaced next,
      WithinLimit u.maxDepth (grow self replaced next) (grow' self replaced next))
    (self : Occurrence) (replaced : Option Occurrence) (next : Nat) :
    WithinLimit u.maxDepth (u.settle grow self replaced next)
      ((u.withLimit limit).settle grow' self replaced next) := by
  refine (withinLimit_refl _ (Noted.lift (u.descends self replaced))).bind fun descends => ?_
  cases descends with
  | true => exact hgrow self replaced next
  | false => exact withinLimit_refl _ _

/-- Slots are filled the same under another limit, unless what is expanded changes. -/
theorem fill_withinLimit
    (hgrow : ∀ self replaced next,
      WithinLimit u.maxDepth (grow self replaced next) (grow' self replaced next))
    (s : Surroundings) (edges : List Edge) (next : Nat) :
    WithinLimit u.maxDepth (u.fill grow s edges next)
      ((u.withLimit limit).fill grow' s edges next) := by
  -- the limit has no part in what an edge leads to, only in what is expanded there
  induction edges generalizing next with
  | nil => exact withinLimit_refl _ _
  | cons edge edges ih =>
    refine (withinLimit_refl _ (u.attach s edge)).bind fun attached => ?_
    cases attached with
    | vacant => exact (ih next).bind fun _ => withinLimit_refl _ _
    | plain o =>
      refine (settle_withinLimit hgrow _ _ _).bind fun (child, mid) => ?_
      exact (ih mid).bind fun _ => withinLimit_refl _ _
    | replacing component o =>
      refine (settle_withinLimit hgrow _ _ _).bind fun (child, mid) => ?_
      exact (ih mid).bind fun _ => withinLimit_refl _ _

/-- With more room and another limit a place is unfolded the same, unless the limit stops it. -/
theorem expand_withinLimit {room room' : Nat} (hroom : room ≤ room') (above : List String)
    (self : Occurrence) (replaced : Option Occurrence) (next : Nat) :
    WithinLimit u.maxDepth (u.expand room above self replaced next)
      ((u.withLimit limit).expand room' above self replaced next) := by
  induction room generalizing room' above self replaced next with
  | zero => exact .inl ⟨self.product.id, rfl⟩
  | succ room ih =>
    cases room' with
    | zero => omega
    | succ room' =>
      unfold expand
      by_cases hcycle : self.product.id ∈ above
      · rw [if_pos hcycle, if_pos hcycle]
        exact withinLimit_refl _ _
      · rw [if_neg hcycle, if_neg hcycle, edgesOf_withLimit]
        refine (withinLimit_refl _ (Noted.lift (u.edgesOf self replaced))).bind fun edges => ?_
        refine (fill_withinLimit (fun self replaced next => ?_) _ edges next).bind fun _ =>
          withinLimit_refl _ _
        exact ih (Nat.le_of_succ_le_succ hroom) _ self replaced next

end Unfolding

/-- A tree is built the same under a greater limit, unless the lower one stops it. -/
theorem buildTree_withinLimit (c : Catalogue) {limit limit' : Nat} (hle : limit ≤ limit')
    (r : TreeRequest) : WithinLimit limit (buildTree c limit r) (buildTree c limit' r) := by
  unfold buildTree
  refine (withinLimit_refl _ _).bind fun product => ?_
  refine (withinLimit_refl _ _).bind fun target => ?_
  refine (withinLimit_refl _ _).bind fun made => ?_
  refine (withinLimit_refl _ _).bind fun selected => ?_
  refine Noted.WithinLimit.bind ?_ fun _ => withinLimit_refl _ _
  exact Unfolding.expand_withinLimit hle _ _ _ _

/-! ## A limit above the number of products

Only `expand` itself is stopped by the limit. Everything else that an unfolding does is a lookup. -/

/-- The product that an attachment puts into a slot has the property. -/
def Attachment.Brings (P : Product → Prop) : Attachment → Prop
  | .vacant => True
  | .plain o => P o.product
  | .replacing _ o => P o.product

namespace Unfolding

variable {u : Unfolding}
  {grow : Occurrence → Option Occurrence → Nat → Noted EngineError (Node × Nat)}

theorem firstEdges_onlyAsks (places : List (Option String × String)) :
    OnlyAsks (u.firstEdges places) := by
  induction places with
  | nil => exact onlyAsks_pure _
  | cons place rest ih =>
    refine (onlyAsks_ask _).bind fun found => ?_
    cases found with
    | nil => exact ih
    | cons edge edges => exact onlyAsks_pure _

theorem edgesOf_onlyAsks (self : Occurrence) (replaced : Option Occurrence) :
    OnlyAsks (u.edgesOf self replaced) :=
  (firstEdges_onlyAsks _).bind fun _ => onlyAsks_pure _

theorem descends_onlyAsks (self : Occurrence) (replaced : Option Occurrence) :
    OnlyAsks (u.descends self replaced) := by
  unfold descends
  split
  · exact onlyAsks_pure _
  · exact onlyAsks_pure _
  · exact onlyAsks_pure _
  · exact (isWarehouseManaged_onlyAsks _ _ _ _).bind fun _ => onlyAsks_pure _

theorem attach_unlimited (s : Surroundings) (edge : Edge) : (u.attach s edge).Unlimited := by
  unfold attach
  split
  · refine (unlimited_lift (u.catalogue.productOf_onlyAsks _)).bind fun product _ => ?_
    refine (unlimited_give _).bind fun _ _ => ?_
    refine (unlimited_give _).bind fun _ _ => ?_
    refine (unlimited_lift (resolve_onlyAsks _ _ _ _)).bind fun resolution _ => ?_
    cases resolution <;> exact unlimited_pure _
  · exact (unlimited_lift (u.catalogue.productOf_onlyAsks _)).bind fun _ _ => unlimited_pure _

variable {P : Product → Prop}

/-- What stands in a slot comes from the catalogue. -/
theorem attach_brings (hc : u.catalogue.Supplies P) {s : Surroundings} {edge : Edge}
    {a : Attachment} (h : (u.attach s edge).outcome = .ok a) : a.Brings P := by
  unfold attach at h
  split at h
  · obtain ⟨product, resolution, hproduct, hresolve, rfl⟩ := attachComponent_eq_ok.1 h
    have hbrings := resolve_brings hc hresolve
    cases resolution with
    | unchanged => exact hc.product hproduct
    | removed _ _ => trivial
    | substituted _ _ _ _ => exact hbrings
  · obtain ⟨product, hproduct, rfl⟩ := attachUser_eq_ok.1 h
    exact hc.product hproduct

theorem settle_unlimited {self : Occurrence} {replaced : Option Occurrence} {next : Nat}
    (hgrow : (grow self replaced next).Unlimited) :
    (u.settle grow self replaced next).Unlimited := by
  refine (unlimited_lift (descends_onlyAsks self replaced)).bind fun descends _ => ?_
  cases descends with
  | true => exact hgrow
  | false => exact unlimited_pure _

/-- The limit does not stop the filling of slots, unless it stops what is expanded. -/
theorem fill_unlimited (hc : u.catalogue.Supplies P)
    (hgrow : ∀ {self replaced next}, P self.product → (grow self replaced next).Unlimited)
    (s : Surroundings) (edges : List Edge) (next : Nat) : (u.fill grow s edges next).Unlimited := by
  induction edges generalizing next with
  | nil => exact unlimited_pure _
  | cons edge edges ih =>
    refine (attach_unlimited s edge).bind fun attached hattach => ?_
    have hbrings := attach_brings hc hattach
    cases attached with
    | vacant => exact (ih next).bind fun _ _ => unlimited_pure _
    | plain o =>
      refine Unlimited.bind (settle_unlimited ?_) fun (child, mid) _ => ?_
      · exact hgrow hbrings
      · exact (ih mid).bind fun _ _ => unlimited_pure _
    | replacing component o =>
      refine Unlimited.bind (settle_unlimited ?_) fun (child, mid) _ => ?_
      · exact hgrow hbrings
      · exact (ih mid).bind fun _ _ => unlimited_pure _

/-- The limit does not stop an unfolding that has more room than the catalogue has products left. -/
theorem expand_unlimited {ids : List String} (hc : u.catalogue.Supplies (·.id ∈ ids)) {room : Nat}
    {above : List String} (hnodup : above.Nodup) (hsub : above ⊆ ids)
    (hroom : ids.length < room + above.length) {self : Occurrence} (hself : self.product.id ∈ ids)
    (replaced : Option Occurrence) (next : Nat) :
    (u.expand room above self replaced next).Unlimited := by
  induction room generalizing above self replaced next with
  | zero =>
    -- without room there would be more products above than the catalogue has
    have := hnodup.length_le_of_subset hsub
    omega
  | succ room ih =>
    unfold expand
    by_cases hcycle : self.product.id ∈ above
    · rw [if_pos hcycle]
      intro limit product h
      cases h
    · -- one level further down there is one product more above and one level less of room
      rw [if_neg hcycle]
      refine (unlimited_lift (edgesOf_onlyAsks self replaced)).bind fun edges _ => ?_
      refine (fill_unlimited hc (fun {child childReplaced childNext} hchild => ?_) _ edges
        next).bind fun _ _ => unlimited_pure _
      refine ih (List.nodup_cons.2 ⟨hcycle, hnodup⟩) (List.cons_subset.2 ⟨hself, hsub⟩) ?_ hchild
        childReplaced childNext
      rw [List.length_cons]
      omega

end Unfolding

namespace TreeRequest

variable (r : TreeRequest) (c : Catalogue) (product : String)

theorem hasBom_onlyAsks : OnlyAsks (r.hasBom c product) := by
  have hgeneric (routed : List Edge) :
      OnlyAsks (if routed.isEmpty then do
        let generic ← ask (c.edges .components product r.bomType none r.asOf)
        pure !generic.isEmpty
      else pure true) := by
    split
    · exact (onlyAsks_ask _).bind fun _ => onlyAsks_pure _
    · exact onlyAsks_pure _
  unfold hasBom
  cases r.routing with
  | none => exact (onlyAsks_pure []).bind hgeneric
  | some routing => exact (onlyAsks_ask _).bind hgeneric

theorem madeAs_onlyAsks : OnlyAsks (r.madeAs c product) :=
  (onlyAsks_ask _).bind fun _ => onlyAsks_pure _

theorem manufactured_onlyAsks : OnlyAsks (r.manufactured c product) := by
  refine (r.madeAs_onlyAsks c product).bind fun target => ?_
  refine (r.hasBom_onlyAsks c target).bind fun has => ?_
  cases has with
  | true => exact onlyAsks_pure _
  | false =>
    refine (onlyAsks_ask _).bind fun family => ?_
    cases family with
    | none => exact onlyAsks_pure _
    | some family => exact r.madeAs_onlyAsks c family

theorem selected_onlyAsks : OnlyAsks (r.selected c product) := by
  unfold selected
  split
  · exact onlyAsks_pure _
  · exact onlyAsks_ask _

end TreeRequest

/-- A limit above the number of products in the catalogue does not stop the building of a tree. -/
theorem buildTree_unlimited {c : Catalogue} {ids : List String} (hc : c.Supplies (·.id ∈ ids))
    {limit : Nat} (hlimit : ids.length < limit) (r : TreeRequest) :
    (buildTree c limit r).Unlimited := by
  unfold buildTree
  refine (unlimited_lift (c.productOf_onlyAsks _)).bind fun product hproduct => ?_
  have hproduct : product.id ∈ ids := hc.product (Catalogue.productOf_eq_ok.1 hproduct)
  refine (unlimited_lift (r.manufactured_onlyAsks c _)).bind fun target _ => ?_
  have hlookup : OnlyAsks (if target = product.id then pure product else c.productOf target) := by
    split
    · exact onlyAsks_pure _
    · exact c.productOf_onlyAsks _
  refine (unlimited_lift hlookup).bind fun made hmade => ?_
  have hmade : made.id ∈ ids := by
    rw [outcome_lift] at hmade
    split at hmade
    · cases hmade
      exact hproduct
    · exact hc.product (Catalogue.productOf_eq_ok.1 hmade)
  refine (unlimited_lift (r.selected_onlyAsks c _)).bind fun selected _ => ?_
  refine Unlimited.bind ?_ fun _ _ => unlimited_pure _
  exact Unfolding.expand_unlimited hc .nil (List.nil_subset ids) (by simpa using hlimit) hmade _ _

/-- The catalogue of a hen and an egg, each a component of the other. -/
def MemoryCatalogue.poultry : MemoryCatalogue :=
  { empty with
    products := [sampleProduct "hen" false, sampleProduct "egg" false]
    edges := [sampleEdge "hen" "egg" 1, sampleEdge "egg" "hen" 1] }

/-- A limit above the number of registered products never stops the building of a tree, and all such
limits give the same result. A tree that was built under some limit is built under every greater
one, and a lower limit either gives the same tree or stops the building. -/
theorem buildTree_limit (c : MemoryCatalogue) (r : TreeRequest) :
    (∀ limit, c.products.length < limit →
      (∀ l product, (buildTree c.catalogue limit r).outcome ≠ .error (.maxDepth l product)) ∧
      ∀ limit', c.products.length < limit' →
        buildTree c.catalogue limit r = buildTree c.catalogue limit' r) ∧
    ∀ limit t, (buildTree c.catalogue limit r).outcome = .ok t →
      (∀ limit', limit ≤ limit' → (buildTree c.catalogue limit' r).outcome = .ok t) ∧
      ∀ limit', limit' ≤ limit →
        (buildTree c.catalogue limit' r).outcome = .ok t ∨
          ∃ product,
            (buildTree c.catalogue limit' r).outcome = .error (.maxDepth limit' product) := by
  have hsupplies : c.catalogue.Supplies (·.id ∈ c.products.map (·.id)) :=
    c.supplies.mono fun _ => List.mem_map_of_mem
  have hunlimited {limit : Nat} (hlimit : c.products.length < limit) :
      (buildTree c.catalogue limit r).Unlimited :=
    buildTree_unlimited hsupplies (by rwa [List.length_map]) r
  have hsame {limit limit' : Nat} (hlimit : c.products.length < limit) (hle : limit ≤ limit') :
      buildTree c.catalogue limit r = buildTree c.catalogue limit' r :=
    (buildTree_withinLimit c.catalogue hle r).resolve_left fun ⟨product, h⟩ =>
      hunlimited hlimit limit product h
  constructor
  · intro limit hlimit
    refine ⟨hunlimited hlimit, fun limit' hlimit' => ?_⟩
    rcases Nat.le_total limit limit' with hle | hle
    · exact hsame hlimit hle
    · exact (hsame hlimit' hle).symm
  · intro limit t ht
    constructor
    · intro limit' hle
      rcases buildTree_withinLimit c.catalogue hle r with ⟨product, h⟩ | h
      · rw [ht] at h
        cases h
      · rw [← h]
        exact ht
    · intro limit' hle
      rcases buildTree_withinLimit c.catalogue hle r with hstop | h
      · exact .inr hstop
      · rw [h]
        exact .inl ht

/-- A bill that runs in a circle is refused for the circle, and not for the greatest limit that fits
into 64 bits. -/
theorem hen_cycle :
    (buildTree MemoryCatalogue.poultry.catalogue 18446744073709551615 (.sample "hen")).outcome =
      .error (.cycle "hen") := by
  have hsame := ((buildTree_limit .poultry (.sample "hen")).1 3 (by decide)).2
    18446744073709551615 (by decide)
  rw [← hsame]
  rfl

end Bom
