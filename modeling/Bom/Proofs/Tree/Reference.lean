import Bom.Proofs.Catalogue
import Bom.Proofs.Tree.Reading

/-!
# The tree that the lists of a catalogue describe

For a catalogue in memory the tree of an explosion can be told without numbers, notices, room or
errors: at each place stand the edges of the first source that has any, and in each slot what is
left of the component once it has been resolved. `Reference.unfold` is that recursion. It has no
guard against a product below itself, so it is told how many levels it may go down; where bills run
in circles it has no answer however many they are.

* `Reference`: a catalogue and a request, with what the lists say about the places of the tree.
* `Reference.tree`: the tree that is described.
* `buildTree_readOff`: a finished explosion is the tree that is described, read off its table.
-/

namespace Bom

/-! ## Places without numbers -/

/-- The occurrence with its number taken away. -/
def Occurrence.unnumbered (o : Occurrence) : Occurrence := { o with number := 0 }

mutual

/-- The subtree with all numbers taken away. -/
def Node.unnumbered : Node → Node
  | .mk self replaced slots =>
    .mk self.unnumbered (replaced.map Occurrence.unnumbered) slots.unnumbered

/-- The slots with all numbers taken away. -/
def Slots.unnumbered : Slots → Slots
  | .nil => .nil
  | .vacant edge rest => .vacant edge rest.unnumbered
  | .filled edge child rest => .filled edge child.unnumbered rest.unnumbered

end

/-! ## What the lists say -/

/-- A catalogue in memory and a request for an explosion of one of its products. -/
structure Reference where
  catalogue : MemoryCatalogue
  request : TreeRequest

namespace Reference

variable (x : Reference)

/-- The edges of a product for a routing, or without one. -/
def edgesAt : Option String × String → List Edge
  | (routing, product) =>
    x.catalogue.edgesOf .components product x.request.bomType routing x.request.asOf

/-- The sources of edges: the product and the one that it has replaced, for the routing if there is
one and then for none. -/
def places (product : String) (replaced : Option String) : List (Option String × String) :=
  match x.request.routing, replaced with
  | none, none => [(none, product)]
  | none, some v => [(none, product), (none, v)]
  | some routing, none => [(some routing, product), (none, product)]
  | some routing, some v =>
    [(some routing, product), (some routing, v), (none, product), (none, v)]

/-- The edges of a place: the first answer with any edge in it, in the order of the sequences. -/
def bill (self : Occurrence) (replaced : Option Occurrence) : List Edge :=
  let answers := (x.places self.product.id (replaced.map (·.product.id))).map x.edgesAt
  sortBy Edge.sequence ((answers.find? fun found => !found.isEmpty).getD [])

/-- The selected features: those of the request, or else the standard ones of its product. -/
def selected : List Feature :=
  x.request.features.getD ((x.catalogue.features.filter (·.1 = x.request.product)).map Prod.snd)

/-- Where the components of a place stand. -/
def surroundings (self : Occurrence) (replaced : Option Occurrence) : Surroundings where
  top := x.request.product
  parent := self.product.id
  replacedParent := replaced.map (·.product.id)
  selected := x.selected
  asOf := x.request.asOf

/-- What stands in the slot of an edge, with what it has replaced: nothing if the component is
removed, and the component itself if it is not virtual or stays as it is. There is no answer where
the component is not registered or cannot be resolved. -/
def occupant (s : Surroundings) (edge : Edge) :
    Option (Option (Occurrence × Option Occurrence)) := do
  let product ← x.catalogue.product? edge.child
  let found : Occurrence := {
    number := 0
    product
    edge := some edge
    rule := none
    multiplier := quantityMultiplier edge.quantity
    scrap := scrapMultiplier edge.scrap
    bomType := none
    depth := 0
    quantity := 0.0 }
  if product.isVirtual then
    match resolve x.catalogue.catalogue s product found.multiplier with
    | .ok .unchanged => some (some (found, none))
    | .ok (.removed _ _) => some none
    | .ok (.substituted substitute rule multiplier _) =>
      some (some ({ found with product := substitute, rule, multiplier }, some found))
    | .error _ => none
  else some (some (found, none))

/-- Some facility keeps the product in stock. -/
def isStocked (product : String) : Bool :=
  x.catalogue.facilities.any fun f => f.product = product && f.minimumStock.isSome

/-- The product, or the one that it has replaced, is kept in stock. Work in process never is. -/
def isManaged (product : Product) (replaced : Option Product) : Bool :=
  !product.isWip && (product :: replaced.toList).any fun p => x.isStocked p.id

/-- The explosion goes on below a place that is not the root. -/
def descends (self : Occurrence) (replaced : Option Occurrence) : Bool :=
  match x.request.mode with
  | .explosion => true
  | .manufacturing => !x.isManaged self.product (replaced.map (·.product))
  | .singleLevel => false
  | .implosion => false

/-- A place below the root, if `grow` tells what lies below it. Where the explosion does not go on,
nothing does. -/
def settle (grow : Occurrence → Option Occurrence → Option Node) (self : Occurrence)
    (replaced : Option Occurrence) : Option Node :=
  if x.descends self replaced then grow self replaced else some (.mk self replaced .nil)

/-- The slots of a place with the given edges, if `grow` tells what lies below those in them. -/
def fill (grow : Occurrence → Option Occurrence → Option Node) (s : Surroundings) :
    List Edge → Option Slots
  | [] => some .nil
  | edge :: edges => do
    let rest ← fill grow s edges
    match ← x.occupant s edge with
    | none => some (.vacant edge rest)
    | some (self, replaced) => do
      let child ← x.settle grow self replaced
      some (.filled edge child rest)

/-- A place with everything below it, if that is less than the given number of levels. -/
def unfold : Nat → Occurrence → Option Occurrence → Option Node
  | 0, _, _ => none
  | levels + 1, self, replaced => do
    let slots ← x.fill (unfold levels) (x.surroundings self replaced) (x.bill self replaced)
    some (.mk { self with bomType := some x.request.bomType } replaced slots)

/-- The product as which a product is made. -/
def madeAs (product : String) : String :=
  ((x.catalogue.manufacturedAs.find? (·.1 = product)).map Prod.snd).getD product

/-- The product has edges for the routing or without one. -/
def hasBill (product : String) : Bool :=
  (x.places product none).any fun place => !(x.edgesAt place).isEmpty

/-- The product that is made for `target`: itself, or the one as which its family is made, if it is
a variant and has no edges of its own. -/
def familyMadeAs (target : String) : String :=
  if x.hasBill target then target
  else
    match x.catalogue.variants.find? (·.variant.product = target) with
    | some record => x.madeAs record.family
    | none => target

/-- The product at the root. -/
def rootId : String := x.familyMadeAs (x.madeAs x.request.product)

/-- The tree for the request, if it has less than the given number of levels below its root. -/
def tree (levels : Nat) : Option Node := do
  let requested ← x.catalogue.product? x.request.product
  let made ← x.catalogue.product? x.rootId
  x.unfold levels (.detached 0 made)
    (if x.rootId = x.request.product then none else some (.detached 0 requested))

end Reference

/-! ## An unfolding makes what the lists say -/

/-- What an attachment puts into a slot, and what that has replaced, without numbers. -/
def Attachment.occupant : Attachment → Option (Occurrence × Option Occurrence)
  | .vacant => none
  | .plain o => some (o.unnumbered, none)
  | .replacing component o => some (o.unnumbered, some component.unnumbered)

namespace Reference

variable (x : Reference)

/-- The unfolding of the catalogue for the request. -/
def unfolding (maxDepth : Nat) : Unfolding where
  catalogue := x.catalogue.catalogue
  bomType := x.request.bomType
  routing := x.request.routing
  asOf := x.request.asOf
  mode := x.request.mode
  selected := x.selected
  top := x.request.product
  maxDepth := maxDepth

variable {x} {maxDepth : Nat}

/-! Nothing of what the lists say depends on numbers. -/

theorem bill_unnumbered (self : Occurrence) (replaced : Option Occurrence) :
    x.bill self.unnumbered (replaced.map Occurrence.unnumbered) = x.bill self replaced := by
  cases replaced <;> rfl

theorem surroundings_unnumbered (self : Occurrence) (replaced : Option Occurrence) :
    x.surroundings self.unnumbered (replaced.map Occurrence.unnumbered) =
      x.surroundings self replaced := by
  cases replaced <;> rfl

theorem descends_unnumbered (self : Occurrence) (replaced : Option Occurrence) :
    x.descends self.unnumbered (replaced.map Occurrence.unnumbered) = x.descends self replaced := by
  cases replaced <;> rfl

/-- The catalogue answers with the edges in its lists. -/
theorem edgesAt_eq {routing : Option String} {product : String} {found : List Edge}
    (h : ask (x.catalogue.catalogue.edges .components product x.request.bomType routing
      x.request.asOf) = .ok found) : x.edgesAt (routing, product) = found :=
  (MemoryCatalogue.answer_eq_ok.1 (ask_eq_ok.1 h)).2

/-- The first source with edges is the first with edges in the lists. -/
theorem firstEdges_eq (hmode : x.request.mode.isExplosion = true) {found : List Edge} :
    ∀ {places : List (Option String × String)},
      (x.unfolding maxDepth).firstEdges places = .ok found →
        ((places.map x.edgesAt).find? fun found => !found.isEmpty).getD [] = found
  | [], h => pure_eq_ok.1 h
  | (routing, product) :: rest, h => by
    obtain ⟨edges, hask, h⟩ := bind_eq_ok.1 h
    have hdirection : (x.unfolding maxDepth).direction = .components := if_pos hmode
    rw [hdirection] at hask
    rw [List.map_cons, edgesAt_eq hask]
    cases edges with
    | nil => exact firstEdges_eq hmode h
    | cons edge edges => exact pure_eq_ok.1 h

/-- The sources are tried in the order of `places`. -/
theorem sources_eq (product : String) (replaced : Option String) :
    (x.unfolding maxDepth).sources product replaced = x.places product replaced := by
  unfold Unfolding.sources Unfolding.routings places
  cases hrouting : x.request.routing <;> cases replaced <;> simp [unfolding, hrouting]

/-- A place gets the edges of its bill. -/
theorem edgesOf_eq (hmode : x.request.mode.isExplosion = true) {self : Occurrence}
    {replaced : Option Occurrence} {edges : List Edge}
    (h : (x.unfolding maxDepth).edgesOf self replaced = .ok edges) :
    x.bill self replaced = edges := by
  obtain ⟨found, hfirst, h⟩ := bind_eq_ok.1 h
  rw [sources_eq] at hfirst
  rw [← pure_eq_ok.1 h, bill, firstEdges_eq hmode hfirst]

/-- An edge leads to what the lists say. -/
theorem attach_eq (hmode : x.request.mode.isExplosion = true) {s : Surroundings} {edge : Edge}
    {a : Attachment} (h : ((x.unfolding maxDepth).attach s edge).outcome = .ok a) :
    x.occupant s edge = some a.occupant := by
  unfold Unfolding.attach at h
  rw [if_pos (show (x.unfolding maxDepth).mode.isExplosion = true from hmode)] at h
  obtain ⟨product, resolution, hproduct, hresolve, rfl⟩ := Unfolding.attachComponent_eq_ok.1 h
  obtain ⟨-, hproduct⟩ := MemoryCatalogue.answer_eq_ok.1 hproduct
  change resolve x.catalogue.catalogue s product _ = _ at hresolve
  unfold occupant
  rw [hproduct, Option.bind_eq_bind, Option.bind_some]
  split
  · simp only [hresolve]
    cases resolution <;> rfl
  · next hvirtual =>
    -- a product that is not virtual is left unchanged
    unfold resolve at hresolve
    rw [if_neg hvirtual] at hresolve
    cases hresolve
    rfl

theorem isStocked_eq {product : String} {stocked : Bool}
    (h : x.catalogue.catalogue.isStocked product none = .ok stocked) :
    x.isStocked product = stocked := by
  obtain ⟨-, h⟩ := MemoryCatalogue.answer_eq_ok.1 h
  simpa [isStocked, FacilityRecord.isAt] using h

theorem isWarehouseManaged_eq {product : Product} {replaced : Option Product} {managed : Bool}
    (h : isWarehouseManaged x.catalogue.catalogue product replaced none = .ok managed) :
    x.isManaged product replaced = managed := by
  unfold isWarehouseManaged at h
  unfold isManaged
  split at h
  · next hwip =>
    cases h
    simp [hwip]
  · next hwip =>
    obtain ⟨stocked, hstocked, h⟩ := bind_eq_ok.1 h
    have hown := isStocked_eq (ask_eq_ok.1 hstocked)
    cases stocked with
    | true =>
      cases h
      simp [hwip, hown]
    | false =>
      cases replaced with
      | none =>
        cases h
        simp [hwip, hown]
      | some v =>
        have hreplaced := isStocked_eq (ask_eq_ok.1 h)
        simp [hwip, hown, hreplaced]

/-- The unfolding goes on where the explosion does. -/
theorem descends_eq (hmode : x.request.mode.isExplosion = true) {self : Occurrence}
    {replaced : Option Occurrence} {descends : Bool}
    (h : (x.unfolding maxDepth).descends self replaced = .ok descends) :
    x.descends self replaced = descends := by
  unfold Unfolding.descends at h
  unfold Reference.descends
  cases hm : x.request.mode <;> rw [hm] at hmode <;> simp only [unfolding, hm] at h
  case explosion => exact pure_eq_ok.1 h
  case singleLevel => exact pure_eq_ok.1 h
  case implosion => cases hmode
  case manufacturing =>
    obtain ⟨managed, hmanaged, h⟩ := bind_eq_ok.1 h
    rw [← pure_eq_ok.1 h]
    exact congrArg (!·) (isWarehouseManaged_eq hmanaged)

end Reference

namespace Unfolding

variable {x : Reference} {maxDepth : Nat}

mutual

/-- An expanded place has below it what the lists say. -/
theorem Expands.unfold_eq (hmode : x.request.mode.isExplosion = true) {room : Nat}
    {ids : List String} {self : Occurrence} {replaced : Option Occurrence} {next last : Nat}
    {node : Node} : ∀ {levels : Nat},
      (x.unfolding maxDepth).Expands room ids self replaced next node last →
        node.height < levels →
        x.unfold levels self.unnumbered (replaced.map Occurrence.unnumbered) = some node.unnumbered
  | levels + 1, .mk _ hedges hfill, hlevels => by
    have hslots : x.fill (x.unfold levels) (x.surroundings self replaced) _ = _ :=
      hfill.fill_eq hmode (Nat.lt_succ_iff.1 hlevels)
    rw [Reference.unfold, Reference.bill_unnumbered, Reference.surroundings_unnumbered,
      Reference.edgesOf_eq hmode hedges, hslots]
    rfl

/-- A place that is settled is expanded where the explosion goes on, and left as it is elsewhere. -/
theorem Settles.settle_eq (hmode : x.request.mode.isExplosion = true) {room : Nat}
    {ids : List String} {self : Occurrence} {replaced : Option Occurrence} {next last : Nat}
    {node : Node} {levels : Nat} :
      (x.unfolding maxDepth).Settles room ids self replaced next node last →
        node.height < levels →
        x.settle (x.unfold levels) self.unnumbered (replaced.map Occurrence.unnumbered) =
          some node.unnumbered
  | .deep hdescends hexpand, hlevels => by
    rw [Reference.settle, Reference.descends_unnumbered,
      if_pos (Reference.descends_eq hmode hdescends)]
    exact hexpand.unfold_eq hmode hlevels
  | .flat hdescends, _ => by
    rw [Reference.settle, Reference.descends_unnumbered,
      if_neg (Bool.eq_false_iff.1 (Reference.descends_eq hmode hdescends))]
    rfl

/-- The slots of a place hold what the lists say. -/
theorem Fills.fill_eq (hmode : x.request.mode.isExplosion = true) {room : Nat}
    {ids : List String} {s : Surroundings} {edges : List Edge} {next last : Nat} {slots : Slots}
    {levels : Nat} :
      (x.unfolding maxDepth).Fills room ids s edges next slots last →
        slots.height ≤ levels →
        x.fill (x.unfold levels) s edges = some slots.unnumbered
  | .nil, _ => rfl
  | .vacant hattach hrest, hlevels => by
    rw [Reference.fill, hrest.fill_eq hmode hlevels, Reference.attach_eq hmode hattach]
    rfl
  | .plain hattach hchild hrest, hlevels => by
    -- the attachment and the child differ in nothing but the number that the child was given
    obtain ⟨hbelow, hbeside⟩ := Nat.max_le.1 hlevels
    have hchild := hchild.settle_eq hmode hbelow
    rw [Reference.fill, hrest.fill_eq hmode hbeside, Reference.attach_eq hmode hattach]
    exact congrArg (· >>= fun child => some (Slots.filled _ child _)) hchild
  | .replacing hattach hchild hrest, hlevels => by
    obtain ⟨hbelow, hbeside⟩ := Nat.max_le.1 hlevels
    have hchild := hchild.settle_eq hmode hbelow
    rw [Reference.fill, hrest.fill_eq hmode hbeside, Reference.attach_eq hmode hattach]
    exact congrArg (· >>= fun child => some (Slots.filled _ child _)) hchild

end

end Unfolding

/-! ## The root -/

namespace Reference

variable {x : Reference}

theorem selected_eq {features : List Feature}
    (h : x.request.selected x.catalogue.catalogue x.request.product = .ok features) :
    x.selected = features := by
  unfold TreeRequest.selected at h
  unfold selected
  split at h
  · next given hgiven =>
    rw [hgiven]
    exact pure_eq_ok.1 h
  · next hnone =>
    rw [hnone]
    exact (MemoryCatalogue.answer_eq_ok.1 (ask_eq_ok.1 h)).2

theorem madeAs_eq {product target : String}
    (h : x.request.madeAs x.catalogue.catalogue product = .ok target) :
    x.madeAs product = target := by
  obtain ⟨found, hask, h⟩ := bind_eq_ok.1 h
  obtain ⟨-, hfound⟩ := MemoryCatalogue.answer_eq_ok.1 (ask_eq_ok.1 hask)
  rw [madeAs, hfound]
  exact pure_eq_ok.1 h

theorem hasBom_eq {product : String} {has : Bool}
    (h : x.request.hasBom x.catalogue.catalogue product = .ok has) :
    x.hasBill product = has := by
  unfold TreeRequest.hasBom at h
  unfold hasBill places
  cases hrouting : x.request.routing with
  | none =>
    rw [hrouting] at h
    obtain ⟨_, hnone, h⟩ := bind_eq_ok.1 h
    cases hnone
    obtain ⟨generic, hask, h⟩ := bind_eq_ok.1 h
    have hhas : (!generic.isEmpty) = has := pure_eq_ok.1 h
    simp [edgesAt_eq hask, hhas]
  | some routing =>
    rw [hrouting] at h
    obtain ⟨routed, hask, h⟩ := bind_eq_ok.1 h
    have hrouted := edgesAt_eq hask
    dsimp only at h
    split at h
    · next hempty =>
      obtain ⟨generic, hask, h⟩ := bind_eq_ok.1 h
      have hhas : (!generic.isEmpty) = has := pure_eq_ok.1 h
      simp [hrouted, edgesAt_eq hask, hempty, hhas]
    · next hedges =>
      have hhas : true = has := pure_eq_ok.1 h
      simp [hrouted, hedges, ← hhas]

/-- The root is the product that the lists name. -/
theorem manufactured_eq {target : String}
    (h : x.request.manufactured x.catalogue.catalogue x.request.product = .ok target) :
    x.rootId = target := by
  obtain ⟨made, hmade, h⟩ := bind_eq_ok.1 h
  obtain ⟨has, hhas, h⟩ := bind_eq_ok.1 h
  rw [rootId, madeAs_eq hmade, familyMadeAs, hasBom_eq hhas]
  cases has with
  | true => exact pure_eq_ok.1 h
  | false =>
    obtain ⟨family, hask, h⟩ := bind_eq_ok.1 h
    obtain ⟨-, hfamily⟩ := MemoryCatalogue.answer_eq_ok.1 (ask_eq_ok.1 hask)
    rw [← hfamily] at h
    cases hvariant : x.catalogue.variants.find? (·.variant.product = made) with
    | none =>
      rw [hvariant] at h
      exact pure_eq_ok.1 h
    | some record =>
      rw [hvariant] at h
      exact madeAs_eq h

end Reference

/-! ## Finished explosions -/

namespace Built

variable {c : MemoryCatalogue} {maxDepth : Nat} {r : TreeRequest} {t : Tree}

theorem product?_requested (h : Built c.catalogue maxDepth r t) :
    c.product? r.product = some t.requested.product :=
  (MemoryCatalogue.answer_eq_ok.1 h.found).2

theorem requested_id (h : Built c.catalogue maxDepth r t) :
    t.requested.product.id = r.product :=
  (MemoryCatalogue.mem_products_of_product? h.product?_requested).2

theorem rootId_eq (h : Built c.catalogue maxDepth r t) :
    (Reference.mk c r).rootId = t.manufacturedId := by
  have hmanufactured := h.manufactured
  rw [h.requested_id] at hmanufactured
  exact Reference.manufactured_eq (x := ⟨c, r⟩) hmanufactured

theorem product?_root (h : Built c.catalogue maxDepth r t) :
    c.product? t.manufacturedId = some t.root.self.product := by
  by_cases hsame : t.manufacturedId = t.requested.product.id
  · rw [hsame, h.requested_id, h.product?_requested, h.own hsame]
  · exact (MemoryCatalogue.answer_eq_ok.1 (h.other hsame)).2

/-- What stayed the same is what the lists and the request say. -/
theorem unfolding_eq (h : Built c.catalogue maxDepth r t) :
    t.unfolding c.catalogue maxDepth = (Reference.mk c r).unfolding maxDepth := by
  have hselected := h.selected
  rw [h.requested_id] at hselected
  have hfeatures := Reference.selected_eq (x := ⟨c, r⟩) hselected
  unfold Tree.unfolding Reference.unfolding
  rw [hfeatures, h.bomType, h.routing, h.asOf, h.mode, h.requestedId]

/-- The root has replaced the product that was asked for, unless it is the same. -/
theorem redirected_unnumbered (h : Built c.catalogue maxDepth r t) :
    t.redirected.map Occurrence.unnumbered =
      if t.manufacturedId = r.product then none else some (.detached 0 t.requested.product) := by
  rw [Tree.redirected, h.requested_id, h.requested]
  split <;> rfl

/-- A finished explosion is the tree that the lists describe. -/
theorem tree_eq (h : Built c.catalogue maxDepth r t) (hmode : r.mode.isExplosion = true)
    {levels : Nat} (hlevels : t.root.height < levels) :
    (Reference.mk c r).tree levels = some t.root.unnumbered := by
  obtain ⟨last, hrun⟩ := h.run
  -- the run of the tree is one of the reference's unfolding, from the root that the lists name
  rw [h.unfolding_eq] at hrun
  rw [← hrun.unfold_eq hmode hlevels, h.redirected_unnumbered]
  unfold Reference.tree
  simp only [h.rootId_eq, h.product?_requested, h.product?_root, Option.bind_eq_bind,
    Option.bind_some]
  rfl

end Built

/-- A finished explosion of a catalogue in memory, read off its table, is the tree that the lists of
the catalogue describe. -/
theorem buildTree_readOff (c : MemoryCatalogue) (maxDepth : Nat) (r : TreeRequest) (t : Tree)
    (hmode : r.mode.isExplosion = true) (h : (buildTree c.catalogue maxDepth r).outcome = .ok t) :
    ∃ root, t.readOff = some root ∧
      ∀ levels, root.height < levels → (Reference.mk c r).tree levels = some root.unnumbered := by
  have hbuilt := built_of_buildTree h
  exact ⟨t.root, hbuilt.readOff, fun levels hlevels => hbuilt.tree_eq hmode hlevels⟩

/-- The tree of the bicycle, read off its table, is the one that the bill describes. -/
theorem bicycle_readOff :
    ∃ t, (buildTree MemoryCatalogue.bicycles.catalogue 3 (.sample "bicycle")).outcome = .ok t ∧
      ∃ root, t.readOff = some root ∧ ∀ levels, root.height < levels →
        (Reference.mk .bicycles (.sample "bicycle")).tree levels = some root.unnumbered :=
  ⟨_, rfl, buildTree_readOff .bicycles 3 (.sample "bicycle") _ rfl rfl⟩

end Bom
