import Bom.Proofs.Tables.Rules
import Bom.Proofs.Tree.Run

/-!
# Tables with the contents of a memory

The same products, edges and rules can be entered into a catalogue in memory and into a database.
Each entry leaves in the tables what it leaves in the lists (`Tables.Holds.enter`), so after any
number of entries the rows of the tables are those of the lists (`Tables.Holds.load`). Such tables
answer with what their rows give back of the lists (`Tables.Holds.renders`), for entries whose
windows fit a column and which are no links of another kind. Hence the database gives rise to the
same errors as the memory, and to the tree of the memory with what the rows give back of its
products, edges and rules (`load_rendered`).

A dimension that is not a number is not given back, and in a leap second that ends no minute the
database has what is valid from the second after it on (`shelf_loaded_apart`).
-/

namespace Bom

/-! ## Entries -/

/-- What is entered into a catalogue. -/
inductive CatalogueEntry where
  | product (p : Product)
  | edge (e : Edge)
  | rule (r : Rule)

namespace CatalogueEntry

/-- The id of a rule. -/
def ruleId? : CatalogueEntry → Option String
  | rule r => some r.id
  | _ => none

/-- The windows fit a column, and an edge is not taken for a link of another kind. -/
def IsPlain : CatalogueEntry → Prop
  | product _ => True
  | edge e => e.bomType ≠ madeAsType ∧ e.bomType ≠ variantType ∧ e.window.FitsColumn
  | rule r => r.window.FitsColumn

instance : DecidablePred IsPlain
  | product _ => inferInstanceAs (Decidable True)
  | edge _ => inferInstanceAs (Decidable (_ ∧ _ ∧ _))
  | rule r => inferInstanceAs (Decidable r.window.FitsColumn)

end CatalogueEntry

/-- Entries that a memory and a database keep alike: plain ones, rules of different ids, and not
more than there are numbers of rows. No memory has room for more. -/
structure Loadable (entries : List CatalogueEntry) : Prop where
  plain : ∀ entry ∈ entries, entry.IsPlain
  ruleIds : (entries.filterMap CatalogueEntry.ruleId?).Nodup
  fits : (entries.length : Int) ≤ maxWord

namespace MemoryCatalogue

/-- The catalogue with one more entry. -/
def enter (c : MemoryCatalogue) : CatalogueEntry → MemoryCatalogue
  | .product p => c.addProduct p
  | .edge e => c.addEdge e
  | .rule r => c.addRule r

/-- The catalogue with the given entries, the first one entered first. -/
def load (c : MemoryCatalogue) (entries : List CatalogueEntry) : MemoryCatalogue :=
  entries.foldl enter c

/-- Nothing has been entered, and the catalogue holds nothing else that counts while a tree is built
for selected features. -/
structure IsVacant (c : MemoryCatalogue) : Prop where
  products : c.products = []
  edges : c.edges = []
  rules : c.rules = []
  manufacturedAs : c.manufacturedAs = []
  variants : c.variants = []
  facilities : c.facilities = []
  failing : c.failing = []

theorem isVacant_empty : empty.IsVacant := by
  constructor <;> rfl

end MemoryCatalogue

/-- Nothing has been entered, and the tables hold nothing else that counts while a tree is built for
selected features. -/
structure Tables.IsVacant (t : Tables) : Prop where
  products : t.products.entries = []
  associations : t.associations.entries = []
  lastAssociation : t.lastAssociation = 0
  rules : t.rules.entries = []
  facilities : t.facilities.entries = []

/-- Tables that have just been set up are vacant. -/
theorem Database.isVacant_setUp (setUpAt : String) :
    ∃ t, empty.setUp setUpAt = ⟨some t⟩ ∧ t.IsVacant := by
  refine ⟨_, rfl, ?_⟩
  constructor <;> rfl

namespace Database

/-- The database with one more entry. -/
def enter (db : Database) : CatalogueEntry → Database × Except StoreError Unit
  | .product p => db.putProduct p
  | .edge e => ((db.addEdge e).1, (db.addEdge e).2.map fun _ => ())
  | .rule r => db.putRule r

/-- The database with the given entries, the first one entered first, up to one that is refused. -/
def load (db : Database) : List CatalogueEntry → Database × Except StoreError Unit
  | [] => (db, .ok ())
  | entry :: entries =>
    match db.enter entry with
    | (db, .ok ()) => db.load entries
    | (db, .error e) => (db, .error e)

end Database

/-! ## Entering -/

/-- The tables hold what the lists of a catalogue hold, under numbers up to the given one, and
nothing else that counts while a tree is built. -/
structure Tables.Holds (t : Tables) (c : MemoryCatalogue) (n : Int) : Prop where
  products : t.products.rows = c.products.map ProductRow.ofProduct
  edges : t.associations.rows = c.edges.map AssociationRow.ofEdge
  rules : t.rules.rows = c.rules.map RuleRow.ofRule
  facilities : t.facilities.rows = []
  productNumbers : ∀ e ∈ t.products.entries, e.1 ≤ n
  edgeNumbers : ∀ e ∈ t.associations.entries, e.1 ≤ t.lastAssociation
  lastNumber : t.lastAssociation ≤ n
  ruleNumbers : ∀ e ∈ t.rules.entries, e.1 ≤ n
  nonneg : 0 ≤ n

namespace Tables.Holds

variable {t : Tables} {c : MemoryCatalogue} {n : Int}

/-- Vacant tables hold what a vacant catalogue holds. -/
theorem vacant (ht : t.IsVacant) (hc : c.IsVacant) : t.Holds c 0 := by
  constructor <;> simp [Table.rows, ht.products, ht.associations, ht.lastAssociation, ht.rules,
    ht.facilities, hc.products, hc.edges, hc.rules]

/-- The bound on the numbers may be greater than it has to be. -/
theorem raise (h : t.Holds c n) : t.Holds c (n + 1) :=
  { h with
    productNumbers := fun e he => Int.le_add_one (h.productNumbers e he)
    ruleNumbers := fun e he => Int.le_add_one (h.ruleNumbers e he)
    lastNumber := Int.le_add_one h.lastNumber
    nonneg := Int.le_add_one h.nonneg }

/-- A product goes to the end, and the one with its id goes. -/
theorem putProduct (h : t.Holds c n) (hmax : n < maxWord) (p : Product) :
    (t.putProduct p).Holds (c.addProduct p) (n + 1) := by
  have hroom (e) (he : e ∈ t.products.entries) : e.1 < maxWord :=
    Int.lt_of_le_of_lt (h.productNumbers e he) hmax
  have hkeys (p q : Product) :
      (ProductRow.ofProduct p).id = (ProductRow.ofProduct q).id ↔ p.id = q.id :=
    Option.some_inj
  refine { h.raise with
    products := ?_
    productNumbers := Table.le_of_mem_put h.productNumbers h.nonneg hmax }
  change (t.products.put ProductRow.id (.ofProduct p)).rows = _
  rw [Table.rows_put _ _ hroom, h.products, putBy_map hkeys]
  rfl

/-- An edge goes to the end. -/
theorem addEdge (h : t.Holds c n) (hmax : n < maxWord) (e : Edge) :
    ∃ t', t.addAssociation (.ofEdge e) = .ok (t', t.lastAssociation + 1) ∧
      t'.Holds (c.addEdge e) (n + 1) := by
  have hlast := h.lastNumber
  have hadded := (⟨h.edges, h.edgeNumbers⟩ : t.HoldsEdges c.edges).add e
  exact ⟨_, Tables.addAssociation_of_lt (by omega) _, { h.raise with
    edges := hadded.rows
    edgeNumbers := hadded.numbers
    lastNumber := Int.add_le_add_right hlast 1 }⟩

/-- A rule of a new id goes to the end. -/
theorem putRule (h : t.Holds c n) (hmax : n < maxWord) {r : Rule}
    (hid : r.id ∉ c.rules.map Rule.id) : (t.putRule r).Holds (c.addRule r) (n + 1) := by
  have hroom (e) (he : e ∈ t.rules.entries) : e.1 < maxWord :=
    Int.lt_of_le_of_lt (h.ruleNumbers e he) hmax
  refine { h.raise with
    rules := ?_
    ruleNumbers := Table.le_of_mem_put h.ruleNumbers h.nonneg hmax }
  change (t.rules.put RuleRow.id (.ofRule r)).rows = _
  rw [Table.rows_put _ _ hroom, h.rules, putBy_ofRule, putBy_of_not_mem hid]
  rfl

/-- An entry leaves in the tables what it leaves in the lists. -/
theorem enter (h : t.Holds c n) (hmax : n < maxWord) {entry : CatalogueEntry}
    (hid : ∀ id ∈ entry.ruleId?, id ∉ c.rules.map Rule.id) :
    ∃ t', (⟨some t⟩ : Database).enter entry = (⟨some t'⟩, .ok ()) ∧
      t'.Holds (c.enter entry) (n + 1) := by
  cases entry with
  | product p => exact ⟨t.putProduct p, rfl, h.putProduct hmax p⟩
  | edge e =>
    obtain ⟨t', hadd, ht'⟩ := h.addEdge hmax e
    refine ⟨t', ?_, ht'⟩
    unfold Database.enter Database.addEdge Database.write Database.read
    simp only [hadd]
    rfl
  | rule r => exact ⟨t.putRule r, rfl, h.putRule hmax (hid r.id rfl)⟩

/-- Entries leave in the tables what they leave in the lists, and none of them is refused. -/
theorem load {entries : List CatalogueEntry} (h : t.Holds c n)
    (hmax : n + entries.length ≤ maxWord)
    (hids : (c.rules.map Rule.id ++ entries.filterMap CatalogueEntry.ruleId?).Nodup) :
    ∃ t', (⟨some t⟩ : Database).load entries = (⟨some t'⟩, .ok ()) ∧
      t'.Holds (c.load entries) (n + entries.length) := by
  induction entries generalizing t c n with
  | nil =>
    refine ⟨t, rfl, ?_⟩
    rw [List.length_nil, Int.natCast_zero, Int.add_zero]
    exact h
  | cons entry entries ih =>
    rw [List.length_cons] at hmax
    have hid : ∀ id ∈ entry.ruleId?, id ∉ c.rules.map Rule.id := by
      intro id hid hmem
      refine (List.nodup_append.1 hids).2.2 id hmem id ?_ rfl
      rw [List.filterMap_cons, hid]
      exact List.mem_cons_self
    have hrest : ((c.enter entry).rules.map Rule.id ++
        entries.filterMap CatalogueEntry.ruleId?).Nodup := by
      cases entry with
      | rule r =>
        change ((c.rules ++ [r]).map Rule.id ++ _).Nodup
        rw [List.map_append, List.append_assoc]
        exact hids
      | _ => exact hids
    obtain ⟨t₁, henter, h₁⟩ := h.enter (by omega) hid
    obtain ⟨t₂, hload, h₂⟩ := ih h₁ (by omega) hrest
    refine ⟨t₂, ?_, ?_⟩
    · unfold Database.load
      rw [henter]
      exact hload
    · rw [MemoryCatalogue.load, List.foldl_cons, List.length_cons]
      have : n + (entries.length + 1 : Nat) = n + 1 + entries.length := by omega
      rw [this]
      exact h₂

end Tables.Holds

/-! ## What is entered into a memory -/

/-- The catalogue holds plain entries and nothing else that counts. -/
structure MemoryCatalogue.IsPlain (c : MemoryCatalogue) : Prop where
  edges : ∀ e ∈ c.edges, (CatalogueEntry.edge e).IsPlain
  rules : ∀ r ∈ c.rules, (CatalogueEntry.rule r).IsPlain
  manufacturedAs : c.manufacturedAs = []
  variants : c.variants = []
  facilities : c.facilities = []
  failing : c.failing = []

namespace MemoryCatalogue

theorem IsVacant.isPlain {c : MemoryCatalogue} (h : c.IsVacant) : c.IsPlain where
  edges e he := by simp [h.edges] at he
  rules r hr := by simp [h.rules] at hr
  manufacturedAs := h.manufacturedAs
  variants := h.variants
  facilities := h.facilities
  failing := h.failing

theorem IsPlain.enter {c : MemoryCatalogue} (h : c.IsPlain) {entry : CatalogueEntry}
    (hentry : entry.IsPlain) : (c.enter entry).IsPlain := by
  cases entry with
  | product p => exact { h with }
  | edge e =>
    refine { h with edges := fun f hf => ?_ }
    rcases List.mem_append.1 hf with hf | hf
    · exact h.edges f hf
    · obtain rfl := List.mem_singleton.1 hf
      exact hentry
  | rule r =>
    refine { h with rules := fun s hs => ?_ }
    rcases List.mem_append.1 hs with hs | hs
    · exact h.rules s hs
    · obtain rfl := List.mem_singleton.1 hs
      exact hentry

theorem IsPlain.load {entries : List CatalogueEntry} (h : ∀ entry ∈ entries, entry.IsPlain)
    {c : MemoryCatalogue} (hc : c.IsPlain) : (c.load entries).IsPlain := by
  induction entries generalizing c with
  | nil => exact hc
  | cons entry entries ih =>
    exact ih (fun e he => h e (List.mem_cons_of_mem _ he)) (hc.enter (h entry List.mem_cons_self))

end MemoryCatalogue

/-! ## What the tables answer -/

/-- Without variants there is none to choose. -/
theorem matchingVariants_nil (selected : List Feature) : matchingVariants [] selected = [] := by
  unfold matchingVariants
  simp

namespace Tables.Holds

variable {t : Tables} {c : MemoryCatalogue} {n : Int} {asOf : DateTime}

theorem product_eq (h : t.Holds c n) (id : String) :
    t.product id = .ok ((c.product? id).map Product.stored) := by
  have hid : (fun row : ProductRow => decide (row.id = some id)) ∘ ProductRow.ofProduct =
      fun p => decide (p.id = id) :=
    funext fun p => decide_eq_decide.2 Option.some_inj
  unfold Tables.product
  rw [h.products, List.find?_map, hid]
  change _ = Except.ok ((c.products.find? (·.id = id)).map Product.stored)
  cases c.products.find? (·.id = id) with
  | none => rfl
  | some p =>
    dsimp only [Option.map_some]
    rw [ProductRow.read_ofProduct]
    rfl

/-- No edge is taken for a link of another kind. -/
theorem filter_isValid_link (h : t.Holds c n) (hc : c.IsPlain) {type : String}
    (htype : type = madeAsType ∨ type = variantType) (time : String) (p : AssociationRow → Bool) :
    t.associations.rows.filter (fun row => p row && row.isValid type time) = [] := by
  rw [h.edges]
  refine List.filter_eq_nil_iff.2 fun row hrow => ?_
  obtain ⟨e, he, rfl⟩ := List.mem_map.1 hrow
  obtain ⟨hmade, hvariant, -⟩ := hc.edges e he
  have hne : e.bomType ≠ type := by
    rcases htype with rfl | rfl
    · exact hmade
    · exact hvariant
  have hinvalid : (AssociationRow.ofEdge e).isValid type time = false :=
    Bool.and_eq_false_imp.2 fun heq => absurd (of_decide_eq_true heq) hne
  rw [hinvalid, Bool.and_false]
  exact Bool.false_ne_true

theorem edges_eq (h : t.Holds c n) (hc : c.IsPlain) (hfits : asOf.FitsColumn)
    (hepoch : .epoch ≤ asOf) (d : Direction) (product bomType : String)
    (routing : Option String) :
    t.edges d product bomType routing asOf =
      .ok ((c.edgesOf d product bomType routing asOf).map Edge.stored) := by
  have hfilter : c.edges.filter (fun e => MemoryCatalogue.endOf d e = product &&
      e.bomType = bomType && e.matchesRouting routing &&
        withinTexts e.window.startText e.window.stopText asOf.columnText) =
      c.edges.filter fun e => MemoryCatalogue.endOf d e = product && e.bomType = bomType &&
        e.matchesRouting routing && e.validAt asOf :=
    List.filter_congr fun e he => by
      rw [Window.withinTexts_eq (hc.edges e he).2.2 hfits hepoch]
      rfl
  rw [Tables.edges_of_rows h.edges, hfilter]
  rfl

theorem rules_eq (h : t.Holds c n) (hc : c.IsPlain) (hfits : asOf.FitsColumn)
    (hepoch : .epoch ≤ asOf) (scope : RuleScope) :
    t.rulesIn scope asOf =
      .ok ((c.rules.filter fun r => scope.covers r && r.validAt asOf).map Rule.stored) := by
  have hfilter : c.rules.filter (fun r => scope.covers r &&
      withinTexts r.window.startText r.window.stopText asOf.columnText) =
      c.rules.filter fun r => scope.covers r && r.validAt asOf :=
    List.filter_congr fun r hr => by
      rw [Window.withinTexts_eq (hc.rules r hr) hfits hepoch]
      rfl
  rw [Tables.rulesIn_of_rows h.rules, hfilter]

theorem manufacturedAs_eq (h : t.Holds c n) (hc : c.IsPlain) (product : String) :
    t.manufacturedAs product asOf = none := by
  unfold Tables.manufacturedAs
  rw [h.filter_isValid_link hc (.inl rfl)]
  rfl

theorem virtualParent_eq (h : t.Holds c n) (hc : c.IsPlain) (product : String) :
    t.virtualParent product asOf = none := by
  unfold Tables.virtualParent
  rw [← List.head?_filter, h.filter_isValid_link hc (.inr rfl)]
  rfl

theorem selectedVariants_eq (h : t.Holds c n) (hc : c.IsPlain) (family : String)
    (selected : List Feature) (now : DateTime) :
    t.selectedVariants family selected now = .ok [] := by
  have hnone : t.variantsOf family now = [] := by
    unfold Tables.variantsOf
    rw [h.filter_isValid_link hc (.inr rfl)]
    rfl
  unfold Tables.selectedVariants
  dsimp only
  rw [hnone, matchingVariants_nil]
  rfl

theorem isStocked_eq (h : t.Holds c n) (product : String) (facility : Option String) :
    t.isStocked product facility = false := by
  unfold Tables.isStocked
  rw [h.facilities]
  rfl

/-- Tables with the contents of a memory answer with what their rows give back of it. -/
theorem renders (h : t.Holds c n) (hc : c.IsPlain) (now : DateTime) (hfits : asOf.FitsColumn)
    (hepoch : .epoch ≤ asOf) :
    c.catalogue.Renders .stored ((⟨some t⟩ : Database).catalogue now) asOf := by
  have hanswer {α : Type} (product : String) (a : α) : c.answer product a = .ok a := by
    unfold MemoryCatalogue.answer
    rw [hc.failing]
    exact if_neg List.not_mem_nil
  constructor
  case product =>
    intro id
    change (t.product id).mapError _ = (c.answer id (c.product? id)).map _
    rw [h.product_eq, hanswer]
    rfl
  case edges =>
    intro d product bomType routing
    change (t.edges d product bomType routing asOf).mapError _ =
      (c.answer product (c.edgesOf d product bomType routing asOf)).map _
    rw [h.edges_eq hc hfits hepoch, hanswer]
    rfl
  case manufacturedAs =>
    intro product
    change Except.ok (t.manufacturedAs product asOf) = c.answer product _
    rw [h.manufacturedAs_eq hc, hanswer, hc.manufacturedAs]
    rfl
  case virtualParent =>
    intro product
    change Except.ok (t.virtualParent product asOf) = c.answer product _
    rw [h.virtualParent_eq hc, hanswer, hc.variants]
    rfl
  case rules =>
    intro scope
    change (t.rulesIn scope asOf).mapError _ = _
    rw [h.rules_eq hc hfits hepoch]
    rfl
  case variants =>
    intro family selected
    have hnone : c.selectedVariants family selected = [] := by
      unfold MemoryCatalogue.selectedVariants MemoryCatalogue.variantsOf
      rw [hc.variants, List.filter_nil, List.map_nil]
      dsimp only
      rw [matchingVariants_nil]
      rfl
    change (t.selectedVariants family selected now).mapError _ =
      (c.answer family (c.selectedVariants family selected)).map _
    rw [h.selectedVariants_eq hc, hanswer, hnone]
    rfl
  case isStocked =>
    intro product facility
    change Except.ok (t.isStocked product facility) = c.answer product _
    rw [h.isStocked_eq, hanswer, hc.facilities]
    rfl

end Tables.Holds

/-- The bill of the bicycle. The quantity of the frame is not a number and its scrap is infinite,
the tube has a date, and the bell has a width. -/
def bicycleEntries : List CatalogueEntry :=
  MemoryCatalogue.bicycles.products.map .product ++
    [.product { MemoryCatalogue.sampleProduct "steel frame" false with width := some 0.5 },
      .edge { MemoryCatalogue.sampleEdge "bicycle" "frame" 2 with
        quantity := some notANumber, scrap := some infinity },
      .edge (MemoryCatalogue.sampleEdge "bicycle" "bell" 1),
      .edge { MemoryCatalogue.sampleEdge "frame" "tube" 1 with
        quantity := some 2.5, window := ⟨some .epoch, none⟩ }] ++
    MemoryCatalogue.bicycles.rules.map .rule

theorem loadable_bicycleEntries : Loadable bicycleEntries where
  plain := by decide +kernel
  ruleIds := by decide
  fits := by decide

/-- A shelf whose width is not a number, and its board, which is there after a leap second that ends
no minute. -/
def datedShelf : List CatalogueEntry :=
  [.product { MemoryCatalogue.sampleProduct "shelf" false with width := some notANumber },
    .product (MemoryCatalogue.sampleProduct "board" false),
    .edge { MemoryCatalogue.sampleEdge "shelf" "board" 1 with
      window := ⟨some .afterOddLeap, none⟩ }]

end Bom
