import Bom.Proofs.Tables.Features
import Bom.Proofs.Tables.Orders
import Bom.Proofs.Tables.Rows
import Bom.Proofs.Tables.Settings

/-!
# Placing an order in tables

An order takes its lead time from what facilities state, is answered with the time of its completion
and is written down. What can be read of it afterwards is what was asked for and what was answered,
with dates as they are written, without the fractions of their seconds, and nothing else that is
read of orders has changed (`Database.InUse.place_kept`).

For this the lead times in the tables have to be readable. A column of doubles could hold a text,
but no call puts one there: a call changes the tables in one of a few ways (`Tables.Changes`), none
of which spoils a lead time, so each lead time in the tables is what the column makes of a double
(`Tables.StatesLeadTimes`, `Database.InUse.statesLeadTimes`).
-/

namespace Bom

/-! ## Databases in use -/

namespace Database

/-- A call that changes the database leads to another state. -/
inductive Stores (db : Database) : Database → Prop
  | setUp (now : String) : Stores db (db.setUp now)
  | putProduct (p : Product) : Stores db (db.putProduct p).1
  | addEdge (e : Edge) : Stores db (db.addEdge e).1
  | addAssociation (product target type : String) (start : DateTime) :
      Stores db (db.addAssociation product target type start).1
  | putRule (r : Rule) : Stores db (db.putRule r).1
  | applyFeature (product : String) (f : Feature) (use : String) (start : DateTime) :
      Stores db (db.applyFeature product f use start).1
  | putSupplier (product party : String) (preference : Int) (start : DateTime)
      (stop : Option DateTime) : Stores db (db.putSupplier product party preference start stop).1
  | putFacility (product facility : String) (leadTime minimumStock : Option Float) :
      Stores db (db.putFacility product facility leadTime minimumStock).1
  | setSetting (key value : String) : Stores db (db.setSetting key value).1
  | restore (text : String) : Stores db (db.restore text).1
  | serve {event : DeskEvent} {db' : Database} (h : db.Serves event db') : Stores db db'

/-- The states that a database gets into once it has been set up. -/
inductive InUse : Database → Prop
  | setUp (now : String) : InUse (empty.setUp now)
  | store {db db' : Database} (h : InUse db) (hcall : db.Stores db') : InUse db'

end Database

/-! ## What a call changes -/

/-- What a call does to the tables: it puts a row with a window of validity, or what a facility
states, or it changes none of the tables that hold such rows. -/
inductive Tables.Changes (t : Tables) : Tables → Prop
  | aside (versions : Table VersionRow) (settings : Table SettingRow)
      (products : Table ProductRow) (orders : Table OrderRow) (fulfilments : Table FulfilmentRow)
      (precedences : Table PrecedenceRow) :
      Changes t { t with versions, settings, products, orders, fulfilments, precedences }
  | edge (n : Int) (e : Edge) :
      Changes t
        { t with associations := t.associations.insertAt n (.ofEdge e), lastAssociation := n }
  | link (n : Int) (product target type : String) (start : DateTime) :
      Changes t
        { t with
          associations := t.associations.insertAt n (.link product target type start)
          lastAssociation := n }
  | rule (r : Rule) : Changes t (t.putRule r)
  | feature (product : String) (f : Feature) (use : String) (start : DateTime) :
      Changes t (t.applyFeature product f use start)
  | supplier (product party : String) (preference : Int) (start : DateTime)
      (stop : Option DateTime) : Changes t (t.putSupplier product party preference start stop)
  | facility (product facility : String) (leadTime minimumStock : Option Float) :
      Changes t (t.putFacility product facility leadTime minimumStock)

theorem Tables.Changes.refl (t : Tables) : t.Changes t :=
  .aside t.versions t.settings t.products t.orders t.fulfilments t.precedences

/-- Only what a facility states changes the facilities. -/
theorem Tables.Changes.facilities {t t' : Tables} (h : t.Changes t') :
    t'.facilities = t.facilities ∨
      ∃ product facility leadTime minimumStock,
        t' = t.putFacility product facility leadTime minimumStock := by
  cases h with
  | feature product f use start =>
    rw [applyFeature_eq]
    exact .inl rfl
  | facility product facility leadTime minimumStock =>
    exact .inr ⟨product, facility, leadTime, minimumStock, rfl⟩
  | _ => exact .inl rfl

namespace Database

/-- What fails changes nothing, so only what succeeds matters. -/
theorem write_changes {α : Type} {t : Tables} {table : String}
    {f : Tables → Except TableFault (Tables × α)}
    (hf : ∀ t' a, f t = .ok (t', a) → t.Changes t') :
    ∃ t', (write ⟨some t⟩ table f).1 = ⟨some t'⟩ ∧ t.Changes t' := by
  unfold write read
  dsimp only
  cases hresult : f t with
  | error e => exact ⟨t, rfl, .refl t⟩
  | ok changed => exact ⟨changed.1, rfl, hf _ _ hresult⟩

/-- The desk changes orders and their links. -/
theorem Serves.changes {t : Tables} {event : DeskEvent} {db : Database}
    (h : Serves ⟨some t⟩ event db) : ∃ t', db = ⟨some t'⟩ ∧ t.Changes t' := by
  cases h with
  | place supply defaultLeadTime now request h =>
    rcases place_cases supply defaultLeadTime now t request with
      ⟨e, hplace⟩ | ⟨-, completion, hplace⟩ <;> rw [hplace]
    · exact ⟨_, rfl, .refl t⟩
    · exact ⟨_, rfl, .aside _ _ _ _ _ _⟩
  | fulfil supply defaultLeadTime now order source =>
    rcases fulfil_cases supply defaultLeadTime now t order source with
      ⟨-, hfulfil⟩ | ⟨-, -, hfulfil⟩ | ⟨-, -, hfulfil⟩ <;> rw [hfulfil]
    · exact ⟨_, rfl, .refl t⟩
    · exact ⟨_, rfl, .aside _ _ _ _ _ _⟩
    · exact ⟨_, rfl, .refl t⟩
  | precede supply defaultLeadTime now first second asOf =>
    rcases precede_cases supply defaultLeadTime now t first second asOf with
      ⟨-, hprecede⟩ | ⟨-, hprecede⟩ <;> rw [hprecede]
    · exact ⟨_, rfl, .aside _ _ _ _ _ _⟩
    · exact ⟨_, rfl, .refl t⟩

/-- Every call changes the tables in one of these ways. -/
theorem Stores.changes {t : Tables} {db : Database} (h : Stores ⟨some t⟩ db) :
    ∃ t', db = ⟨some t'⟩ ∧ t.Changes t' := by
  cases h with
  | setUp now =>
    refine ⟨noteVersion t now, rfl, ?_⟩
    unfold noteVersion
    split
    · exact .refl t
    · exact .aside _ _ _ _ _ _
  | putProduct p => exact ⟨_, rfl, .aside _ _ _ _ _ _⟩
  | addEdge e =>
    refine write_changes fun _ _ h => ?_
    obtain ⟨_, -, hadd⟩ := map_eq_ok.1 h
    cases hadd
    exact .edge _ e
  | addAssociation product target type start =>
    refine write_changes fun _ _ h => ?_
    obtain ⟨_, hadd, hsame⟩ := map_eq_ok.1 h
    obtain ⟨_, -, hadd⟩ := map_eq_ok.1 hadd
    cases hadd
    cases hsame
    exact .link _ product target type start
  | putRule r => exact ⟨_, rfl, .rule r⟩
  | applyFeature product f use start => exact ⟨_, rfl, .feature product f use start⟩
  | putSupplier product party preference start stop =>
    exact ⟨_, rfl, .supplier product party preference start stop⟩
  | putFacility product facility leadTime minimumStock =>
    exact ⟨_, rfl, .facility product facility leadTime minimumStock⟩
  | setSetting => exact ⟨_, rfl, .aside _ _ _ _ _ _⟩
  | restore text =>
    unfold Database.restore
    split
    · exact ⟨_, rfl, .refl t⟩
    · exact ⟨_, rfl, .refl t⟩
    · refine ⟨_, rfl, ?_⟩
      rw [Tables.setSettings_eq]
      exact .aside _ _ _ _ _ _
  | serve h => exact h.changes

end Database

/-! ## Lead times can be read -/

/-- A double can be read from its column, unless it is missing or not-a-number. -/
theorem Cell.exists_readReal_ofFloat? (index : Nat) (column : String) {x : Option Float}
    (h : (ofFloat? x).isFilled = true) : ∃ y, (ofFloat? x).readReal index column = .ok y := by
  cases x with
  | none => cases h
  | some x =>
    unfold ofFloat? ofFloat at h ⊢
    dsimp only at h ⊢
    cases hx : x.isNaN with
    | true =>
      rw [hx] at h
      cases h
    | false => exact ⟨x + 0.0, rfl⟩

/-- The lead times that facilities state are what their column makes of doubles. -/
def Tables.StatesLeadTimes (t : Tables) : Prop :=
  ∀ row ∈ t.facilities.rows, ∃ days, row.leadTime = .ofFloat? days

namespace Tables.StatesLeadTimes

variable {t : Tables}

/-- A new lead time is what its column makes of a double. -/
theorem putFacility (h : t.StatesLeadTimes) (product facility : String)
    (leadTime minimumStock : Option Float) :
    (t.putFacility product facility leadTime minimumStock).StatesLeadTimes :=
  Table.forall_rows_put ⟨leadTime, rfl⟩ h

/-- No call spoils a lead time. -/
theorem stores (h : t.StatesLeadTimes) {db : Database} (hcall : Database.Stores ⟨some t⟩ db) :
    ∃ t', db = ⟨some t'⟩ ∧ t'.StatesLeadTimes := by
  obtain ⟨t', rfl, hchange⟩ := hcall.changes
  refine ⟨t', rfl, ?_⟩
  rcases hchange.facilities with hsame | ⟨product, facility, leadTime, minimumStock, rfl⟩
  · unfold StatesLeadTimes
    rw [hsame]
    exact h
  · exact h.putFacility product facility leadTime minimumStock

/-- A lead time that is stated can be read, and so can one that is not. -/
theorem exists_facilityLeadTime (h : t.StatesLeadTimes) (product : String)
    (facility : Option String) : ∃ lead, t.facilityLeadTime product facility = .ok lead := by
  unfold facilityLeadTime
  dsimp only
  split
  · next row rows hsorted =>
    have hfirst : row ∈ row :: rows := List.mem_cons_self
    rw [← hsorted, (sortWith_perm _ _).mem_iff, List.mem_filter, Bool.and_eq_true] at hfirst
    obtain ⟨hrow, -, hfilled⟩ := hfirst
    obtain ⟨days, hdays⟩ := h row hrow
    rw [hdays] at hfilled ⊢
    obtain ⟨x, hx⟩ := Cell.exists_readReal_ofFloat? 0 "lead_time_days" hfilled
    exact ⟨some x, map_eq_ok.2 ⟨x, hx, rfl⟩⟩
  · exact ⟨none, rfl⟩

end Tables.StatesLeadTimes

/-- In use, the tables are there and their lead times can be read. -/
theorem Database.InUse.statesLeadTimes {db : Database} (h : db.InUse) :
    ∃ t, db = ⟨some t⟩ ∧ t.StatesLeadTimes := by
  induction h with
  | setUp now => exact ⟨_, rfl, fun _ hrow => nomatch hrow⟩
  | store _ hcall ih =>
    obtain ⟨t, rfl, ht⟩ := ih
    exact ht.stores hcall

/-! ## An order that is written down -/

theorem isNaN_eq_false_of_isFinite {x : Float} (h : x.isFinite = true) : x.isNaN = false := by
  cases hnan : x.isNaN with
  | false => rfl
  | true =>
    rw [not_isFinite_of_isNaN hnan] at h
    cases h

/-- The row of an order gives back what was asked for and answered, with the dates as they are
written. -/
theorem OrderRow.read_ofRequest (id : String) {r : OrderRequest} (completion now : DateTime)
    (h : r.quantity.isFinite = true) :
    (ofRequest id r completion now).read = .ok
      { id := id
        product := r.product
        facility := r.facility
        quantity := r.quantity + 0.0
        start := r.start.written
        completion := completion.written
        routing := r.routing
        name := r.name
        description := r.description
        status := "CREATED" } := by
  unfold read ofRequest Cell.ofFloat readInstant
  rw [isNaN_eq_false_of_isFinite h]
  dsimp only
  rw [DateTime.readColumn?_columnText, DateTime.readColumn?_columnText]
  rfl

namespace Database

variable {t : Tables}

/-- The row of an order is found by the id of the order, if any has it. -/
theorem find_order_eq_none {id : String} (h : id ∉ t.orderIds) :
    t.orders.rows.find? (·.id = some id) = none := by
  refine List.find?_eq_none.2 fun row hrow hid => h ?_
  exact List.mem_filterMap.2 ⟨row, hrow, of_decide_eq_true hid⟩

/-- An id that no order has finds none. -/
theorem order?_eq_none {id : String} (h : id ∉ t.orderIds) : order? ⟨some t⟩ id = .ok none := by
  unfold order? read
  dsimp only
  rw [find_order_eq_none h]
  rfl

/-- An order under a new id is found by it, and the other orders are found as before. -/
theorem order?_withOrder {row : OrderRow} {id : String} (hid : row.id = some id)
    (hnew : id ∉ t.orderIds) (other : String) :
    order? ⟨some (t.withOrder row)⟩ other =
      if other = id then (row.read.map some).mapError TableFault.toStoreError
      else order? ⟨some t⟩ other := by
  have hfind := t.orders.find?_rows_add (p := (·.id = some other)) row fun hrow => by
    have hsame : id = other := Option.some.inj (hid.symm.trans (of_decide_eq_true hrow))
    exact find_order_eq_none (hsame ▸ hnew)
  change (t.withOrder row).orders.rows.find? (·.id = some other) = _ at hfind
  unfold order? read
  dsimp only
  rw [hfind, hid]
  by_cases hsame : other = id
  · rw [if_pos hsame, hsame, if_pos (decide_eq_true rfl)]
  · rw [if_neg hsame, if_neg]
    simpa using Ne.symm hsame

/-- A quantity that is negative or not finite is refused. -/
theorem place_of_unusable (supply : IdSupply) (defaultLeadTime : Float) (now : DateTime)
    {r : OrderRequest} (h : r.quantity.isFinite = false ∨ r.quantity < 0.0) (db : Database) :
    place supply defaultLeadTime now r db =
      (db, .error (.refused (.fieldValue "quantity" ("非法数量: " ++ floatText r.quantity)))) := by
  unfold place
  rw [if_pos]
  rcases h with h | h
  · rw [h]
    rfl
  · rw [decide_eq_true h, Bool.or_true]

/-- An order whose lead time can be read is written down under a new id, if one is drawn. -/
theorem place_of_usable {supply : IdSupply} (hnew : supply t.orderIds ∉ t.orderIds)
    {defaultLeadTime : Float} {now : DateTime} {r : OrderRequest}
    (hfinite : r.quantity.isFinite = true) (hsign : ¬ r.quantity < 0.0) {lead : Option Float}
    (hlead : t.facilityLeadTime r.product r.facility = .ok lead) {completion : DateTime}
    (hcompletion : r.start.after? (lead.getD defaultLeadTime) = some completion) :
    place supply defaultLeadTime now r ⟨some t⟩ =
      (⟨some (t.withOrder (.ofRequest (supply t.orderIds) r completion now))⟩,
        .ok ⟨supply t.orderIds, completion⟩) := by
  have hor : leadTimeOr ⟨some t⟩ defaultLeadTime r.product r.facility =
      .ok (lead.getD defaultLeadTime) := by
    unfold leadTimeOr read
    dsimp only
    rw [hlead]
    rfl
  unfold place
  rw [if_neg, hor]
  · dsimp only
    rw [hcompletion]
    dsimp only
    rw [write_addOrder, if_neg hnew]
    rfl
  · rw [hfinite, decide_eq_false hsign]
    exact Bool.false_ne_true

end Database

/-- In any state that a database gets into in use, an order with a quantity that is negative or not
finite is refused, and nothing changes. Any other order, if it is complete at a date of the
calendar and the supply draws no id that an order has, is answered with an id that no order had, and
with its start put off by the lead time that the catalogue states for its product and facility, or
by the default if it states none. From then on the order is found by its id as it was asked for,
with its start and its completion as they are written, and what is found by other ids is the same as
before. -/
theorem Database.InUse.place_kept {db : Database} (h : db.InUse) {supply : IdSupply}
    (hsupply : supply.IsFresh) (defaultLeadTime : Float) (now now' : DateTime) (r : OrderRequest) :
    let placed := (desk supply defaultLeadTime now).place r db
    (r.quantity.isFinite = false ∨ r.quantity < 0.0 →
      placed = (db, .error (.refused (.fieldValue "quantity"
        ("非法数量: " ++ floatText r.quantity))))) ∧
    (r.quantity.isFinite = true → ¬ r.quantity < 0.0 →
      ∃ lead, (db.catalogue now').leadTime r.product r.facility = .ok lead ∧
      ∀ completion, r.start.after? (lead.getD defaultLeadTime) = some completion →
        ∃ id, placed.2 = .ok ⟨id, completion⟩ ∧ db.order? id = .ok none ∧
          (∃ quantity, (quantity == r.quantity) = true ∧ placed.1.order? id = .ok (some
            { id := id
              product := r.product
              facility := r.facility
              quantity := quantity
              start := r.start.written
              completion := completion.written
              routing := r.routing
              name := r.name
              description := r.description
              status := "CREATED" })) ∧
          ∀ other, other ≠ id → placed.1.order? other = db.order? other) := by
  intro placed
  obtain ⟨t, rfl, ht⟩ := h.statesLeadTimes
  refine ⟨fun hunusable => place_of_unusable supply defaultLeadTime now hunusable _,
    fun hfinite hsign => ?_⟩
  obtain ⟨lead, hlead⟩ := ht.exists_facilityLeadTime r.product r.facility
  refine ⟨lead, ?_, fun completion hcompletion => ?_⟩
  · change (t.facilityLeadTime r.product r.facility).mapError _ = _
    rw [hlead]
    rfl
  · let id := supply t.orderIds
    have hnew : id ∉ t.orderIds := hsupply _
    let row : OrderRow := .ofRequest id r completion now
    have hplaced : placed = (⟨some (t.withOrder row)⟩, .ok ⟨id, completion⟩) :=
      place_of_usable hnew hfinite hsign hlead hcompletion
    have horder : ∀ other, Database.order? ⟨some (t.withOrder row)⟩ other =
        if other = id then (row.read.map some).mapError TableFault.toStoreError
        else Database.order? ⟨some t⟩ other :=
      order?_withOrder rfl hnew
    rw [hplaced]
    refine ⟨id, rfl, order?_eq_none hnew,
      ⟨r.quantity + 0.0, add_zero_beq (isNaN_eq_false_of_isFinite hfinite), ?_⟩,
      fun other hother => ?_⟩
    · rw [horder, if_pos rfl, OrderRow.read_ofRequest _ _ _ hfinite]
      rfl
    · rw [horder, if_neg hother]

/-- A database in use, in which a shop makes a cabinet in two days. -/
def Database.cabinetShop : Database :=
  ((empty.setUp "1970-01-01 00:00:00").putFacility "cabinet" "shop" (some 2.0) none).1

/-- A request for a cabinet of the shop. -/
def OrderRequest.sampleCabinet (start : DateTime) : OrderRequest :=
  ⟨"cabinet", some "shop", 1.0, start, some "oak", none, none⟩

/-- A cabinet that is begun half a second after midnight is answered to be complete two days later,
with the half second, and written down without it. -/
theorem Database.cabinet_kept :
    let start : DateTime := { day := 0, second := 0, nano := 500000000 }
    let completion : DateTime := { day := 2, second := 0, nano := 500000000 }
    let placed := (desk .counted 1.0 .epoch).place (.sampleCabinet start) cabinetShop
    ∃ id, placed.2 = .ok ⟨id, completion⟩ ∧ cabinetShop.order? id = .ok none ∧
      ∃ order, placed.1.order? id = .ok (some order) ∧ order.routing = some "oak" ∧
        order.start = .epoch ∧ order.completion = { day := 2, second := 0, nano := 0 } := by
  intro start completion placed
  have huse : cabinetShop.InUse := .store (.setUp _) (.putFacility _ _ _ _)
  obtain ⟨lead, hlead, hplaced⟩ := (huse.place_kept IdSupply.isFresh_counted 1.0 .epoch .epoch
    (.sampleCabinet start)).2 (by decide +kernel) (by decide +kernel)
  have htwo : (cabinetShop.catalogue .epoch).leadTime "cabinet" (some "shop") = .ok (some 2.0) := by
    decide +kernel
  obtain rfl := Except.ok.inj (hlead.symm.trans htwo)
  obtain ⟨id, hanswer, hfresh, ⟨_, -, horder⟩, -⟩ := hplaced completion (by decide +kernel)
  exact ⟨id, hanswer, hfresh, _, horder, rfl, rfl, rfl⟩

/-- A cabinet that is begun in a leap second which ends no minute is found to be begun in the second
after it. Without tables no cabinet is taken. -/
theorem Database.cabinet_begun_late :
    let placed := (desk .counted 1.0 .epoch).place (.sampleCabinet .oddLeapSecond) cabinetShop
    placed.2.map OrderRef.id = .ok (issuedId 1) ∧
      (placed.1.order? (issuedId 1)).map (Option.map StoredOrder.start) =
        .ok (some .afterOddLeap) ∧
      DateTime.afterOddLeap ≠ DateTime.oddLeapSecond.truncate ∧
      (desk .counted 1.0 .epoch).place (.sampleCabinet .epoch) empty =
        (empty, .error (.refused (TableFault.noTable "product_facility").toStoreError)) := by
  intro placed
  exact ⟨by decide +kernel, by decide +kernel, by decide, rfl⟩

end Bom
