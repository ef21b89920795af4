import Bom.Proofs.Calendar.Reading
import Bom.Proofs.Outcome
import Bom.Proofs.Tables.Numbers
import Bom.Tables.Orders

/-!
# What the tables keep of orders

Calls at the desk that writes into the tables place orders and link them. The events of a run, the
latest first, are its log (`DeskEvent`, `Database.Reaches`). The tables hold what the log says
(`Tables.Records`), and every call keeps it so (`Tables.Records.serve`): the orders that have been
placed, the links to sales order lines that have been made, and of the links between two orders the
latest one. Hence links never name an order that does not exist, a call for a link succeeds just
when its orders do exist, and all precedences can be read (`Database.Reaches.keepsOrders`). They are
read with their dates as these are written, without the fractions of their seconds.

Nothing is assumed of the ids that a supply draws: an order whose id is drawn a second time is
refused. The supply that counts draws no id twice (`IdSupply.isFresh_counted`).

A link to a sales order line that exists is passed over before its order is looked for, so that a
call for it succeeds only because the order of such a link exists.
-/

namespace Bom

/-! ## Ids of orders -/

theorem issuedId_injective : Function.Injective issuedId := by
  intro m n h
  have hdigits := congrArg String.toList h
  unfold issuedId at hdigits
  simp only [String.toList_append, String.toList_ofList] at hdigits
  have hnumbers := congrArg Text.ofDigits (List.append_cancel_left hdigits)
  rwa [Text.ofDigits_padded, Text.ofDigits_padded] at hnumbers

namespace Tables

variable {t : Tables}

theorem hasOrder_iff {id : String} : t.hasOrder id = true ↔ id ∈ t.orderIds := by
  unfold hasOrder orderIds
  simp only [List.any_eq_true, decide_eq_true_eq, List.mem_filterMap]

theorem hasOrder_eq_false {id : String} : t.hasOrder id = false ↔ id ∉ t.orderIds := by
  rw [← hasOrder_iff, Bool.not_eq_true]

/-- The refusal of an order whose id an order has already. -/
def idTaken : TableFault := .notUnique TableName.orders.label TableName.orders.keyColumns

/-- An order is added under an id that no order has. -/
theorem addOrder_of_not_mem {row : OrderRow} {id : String} (hid : row.id = some id)
    (hnew : id ∉ t.orderIds) : t.addOrder row = .ok (t.withOrder row) := by
  unfold addOrder
  rw [hid, Option.any_some, hasOrder_eq_false.2 hnew, if_neg Bool.false_ne_true]

/-- An order is refused whose id an order has. -/
theorem addOrder_of_mem {row : OrderRow} {id : String} (hid : row.id = some id)
    (htaken : id ∈ t.orderIds) : t.addOrder row = .error idTaken := by
  unfold addOrder
  rw [hid, Option.any_some, hasOrder_iff.2 htaken, if_pos rfl]
  rfl

end Tables

namespace IdSupply

/-- A search that comes to an id which is free ends with one. -/
theorem nextFree_not_mem {ids : List String} : ∀ {steps n : Nat},
    (∃ k ≤ steps, issuedId (n + k) ∉ ids) → nextFree ids steps n ∉ ids
  | 0, n, ⟨k, hk, hfree⟩ => by
    obtain rfl := Nat.le_zero.1 hk
    exact hfree
  | steps + 1, n, ⟨k, hk, hfree⟩ => by
    unfold nextFree
    split
    · next htaken =>
      refine nextFree_not_mem ?_
      cases k with
      | zero => exact absurd htaken hfree
      | succ k => exact ⟨k, Nat.le_of_succ_le_succ hk, by rwa [Nat.add_right_comm] ⟩
    · next hfree => exact hfree

/-- Counting passes over ids that are taken. -/
theorem isFresh_counted : counted.IsFresh := fun ids => by
  have hinj : Function.Injective fun k => issuedId (ids.length + 1 + k) :=
    fun _ _ h => Nat.add_left_cancel (issuedId_injective h)
  obtain ⟨k, hk, hfree⟩ := exists_not_mem_of_injective hinj ids
  exact nextFree_not_mem ⟨k, hk, hfree⟩

end IdSupply

/-! ## Runs and their logs -/

/-- A call at the desk and the answer to it. -/
inductive DeskEvent where
  | place (now : DateTime) (request : OrderRequest) (answer : Except StoreError OrderRef)
  | fulfil (order : String) (source : SourceLine) (answer : Except StoreError Unit)
  | precede (first second : String) (asOf : DateTime) (answer : Except StoreError Unit)

namespace DeskEvent

/-- The order that has been placed. -/
def order? : DeskEvent → Option OrderRow
  | place now r (.ok ref) => some (.ofRequest ref.id r ref.completion now)
  | _ => none

/-- The link to a sales order line that has been made, or was there already. -/
def fulfilment? : DeskEvent → Option FulfilmentRow
  | fulfil order source (.ok ()) => some ⟨order, source.order, source.line⟩
  | _ => none

/-- The link between two orders that has been made. -/
def precedence? : DeskEvent → Option Precedence
  | precede first second asOf (.ok ()) => some ⟨first, second, asOf⟩
  | _ => none

end DeskEvent

namespace Database

/-- The desk of a database answers a call, which leads to another state. Each call may draw from a
supply of its own. A call that would complete an order outside the calendar has no answer. -/
inductive Serves (db : Database) : DeskEvent → Database → Prop
  | place (supply : IdSupply) (defaultLeadTime : Float) (now : DateTime) (request : OrderRequest)
      {answer : Except StoreError OrderRef}
      (h : ((desk supply defaultLeadTime now).place request db).2 = answer.mapError .refused) :
      Serves db (.place now request answer) ((desk supply defaultLeadTime now).place request db).1
  | fulfil (supply : IdSupply) (defaultLeadTime : Float) (now : DateTime) (order : String)
      (source : SourceLine) :
      Serves db (.fulfil order source ((desk supply defaultLeadTime now).fulfil order source db).2)
        ((desk supply defaultLeadTime now).fulfil order source db).1
  | precede (supply : IdSupply) (defaultLeadTime : Float) (now : DateTime) (first second : String)
      (asOf : DateTime) :
      Serves db
        (.precede first second asOf
          ((desk supply defaultLeadTime now).precede first second asOf db).2)
        ((desk supply defaultLeadTime now).precede first second asOf db).1

/-- A run of calls that begins with tables without orders, by its log and the state that it leads
to. -/
inductive Reaches : List DeskEvent → Database → Prop
  | start {t : Tables} (horders : t.orders.rows = []) (hfulfilments : t.fulfilments.rows = [])
      (hprecedences : t.precedences.rows = []) : Reaches [] ⟨some t⟩
  | serve {log : List DeskEvent} {db db' : Database} {event : DeskEvent} (h : Reaches log db)
      (hevent : db.Serves event db') : Reaches (event :: log) db'

end Database

/-! ## What a call does -/

namespace Database

/-- A change that fails is no change. -/
theorem write_error {α : Type} {db : Database} {table : String}
    {f : Tables → Except TableFault (Tables × α)} {e : StoreError}
    (h : (db.write table f).2 = .error e) : (db.write table f).1 = db := by
  unfold write at h ⊢
  split at h
  · cases h
  · rfl

variable (supply : IdSupply) (defaultLeadTime : Float) (now : DateTime) (t : Tables)

/-- Once its completion is known, an order is written down under the id that is drawn for it, or
refused because an order has this id. -/
theorem write_addOrder (r : OrderRequest) (completion : DateTime) :
    (write ⟨some t⟩ "production_order" fun t =>
      let id := supply t.orderIds
      (t.addOrder (.ofRequest id r completion now)).map fun t =>
        (t, (⟨id, completion⟩ : OrderRef))) =
      if supply t.orderIds ∈ t.orderIds then (⟨some t⟩, .error Tables.idTaken.toStoreError)
      else (⟨some (t.withOrder (.ofRequest (supply t.orderIds) r completion now))⟩,
        .ok ⟨supply t.orderIds, completion⟩) := by
  unfold write read
  dsimp only
  by_cases htaken : supply t.orderIds ∈ t.orderIds
  · rw [if_pos htaken, Tables.addOrder_of_mem rfl htaken]
    rfl
  · rw [if_neg htaken, Tables.addOrder_of_not_mem rfl htaken]
    rfl

/-- An order is refused, or it is written down under a new id. -/
theorem place_cases (r : OrderRequest) :
    (∃ e, (desk supply defaultLeadTime now).place r ⟨some t⟩ = (⟨some t⟩, .error e)) ∨
      supply t.orderIds ∉ t.orderIds ∧
        ∃ completion, (desk supply defaultLeadTime now).place r ⟨some t⟩ =
          (⟨some (t.withOrder (.ofRequest (supply t.orderIds) r completion now))⟩,
            .ok ⟨supply t.orderIds, completion⟩) := by
  change (∃ e, place supply defaultLeadTime now r ⟨some t⟩ = _) ∨ _ ∧ ∃ completion,
    place supply defaultLeadTime now r ⟨some t⟩ = _
  unfold place
  split
  · exact .inl ⟨_, rfl⟩
  · split
    · exact .inl ⟨_, rfl⟩
    · split
      · exact .inl ⟨_, rfl⟩
      · dsimp only
        rw [write_addOrder]
        by_cases htaken : supply t.orderIds ∈ t.orderIds
        · rw [if_pos htaken]
          exact .inl ⟨_, rfl⟩
        · rw [if_neg htaken]
          exact .inr ⟨htaken, _, rfl⟩

/-- A link to a sales order line is there already, or is added if its order exists, or refused. -/
theorem fulfil_cases (order : String) (source : SourceLine) :
    let row : FulfilmentRow := ⟨order, source.order, source.line⟩
    row ∈ t.fulfilments.rows ∧
        (desk supply defaultLeadTime now).fulfil order source ⟨some t⟩ = (⟨some t⟩, .ok ()) ∨
      row ∉ t.fulfilments.rows ∧ order ∈ t.orderIds ∧
        (desk supply defaultLeadTime now).fulfil order source ⟨some t⟩ =
          (⟨some { t with fulfilments := t.fulfilments.add row }⟩, .ok ()) ∨
      row ∉ t.fulfilments.rows ∧ order ∉ t.orderIds ∧
        (desk supply defaultLeadTime now).fulfil order source ⟨some t⟩ =
          (⟨some t⟩, .error TableFault.noReference.toStoreError) := by
  intro row
  dsimp only [desk]
  unfold write read Tables.addFulfilment
  dsimp only
  by_cases hrow : row ∈ t.fulfilments.rows
  · rw [if_pos (List.contains_iff_mem.2 hrow)]
    exact .inl ⟨hrow, rfl⟩
  · rw [if_neg (mt List.contains_iff_mem.1 hrow)]
    cases horder : t.hasOrder order with
    | true => exact .inr (.inl ⟨hrow, Tables.hasOrder_iff.1 horder, rfl⟩)
    | false => exact .inr (.inr ⟨hrow, Tables.hasOrder_eq_false.1 horder, rfl⟩)

/-- A link between two orders takes the place of the one there was if both orders exist, or else is
refused. -/
theorem precede_cases (first second : String) (asOf : DateTime) :
    (first ∈ t.orderIds ∧ second ∈ t.orderIds) ∧
        (desk supply defaultLeadTime now).precede first second asOf ⟨some t⟩ =
          (⟨some { t with
            precedences := t.precedences.put (fun r => (r.first, r.second))
              ⟨first, second, asOf.columnText⟩ }⟩, .ok ()) ∨
      ¬ (first ∈ t.orderIds ∧ second ∈ t.orderIds) ∧
        (desk supply defaultLeadTime now).precede first second asOf ⟨some t⟩ =
          (⟨some t⟩, .error TableFault.noReference.toStoreError) := by
  dsimp only [desk]
  unfold write read Tables.putPrecedence
  dsimp only
  rw [← Tables.hasOrder_iff, ← Tables.hasOrder_iff, ← Bool.and_eq_true]
  cases t.hasOrder first && t.hasOrder second with
  | true => exact .inl ⟨rfl, rfl⟩
  | false => exact .inr ⟨Bool.false_ne_true, rfl⟩

end Database

/-! ## What the tables hold -/

/-- The two orders of a row. -/
def PrecedenceRow.orders (r : PrecedenceRow) : String × String := (r.first, r.second)

/-- The two orders of a link. -/
def Precedence.orders (l : Precedence) : String × String := (l.first, l.second)

/-- The latest link of two orders that a log tells of. -/
def latestLink? (log : List DeskEvent) (orders : String × String) : Option Precedence :=
  (log.filterMap DeskEvent.precedence?).find? (·.orders = orders)

/-- One more link is the latest of its orders. -/
theorem latestLink?_cons {event : DeskEvent} {link : Precedence} (h : event.precedence? = some link)
    (log : List DeskEvent) (orders : String × String) :
    latestLink? (event :: log) orders =
      if link.orders = orders then some link else latestLink? log orders := by
  unfold latestLink?
  rw [List.filterMap_cons_some h, List.find?_cons]
  by_cases horders : link.orders = orders <;> simp [horders]

/-- The tables hold what a log says: the orders that have been placed, each once, the links to sales
order lines that have been made, and the latest links between two orders. All links are between
orders that exist. -/
structure Tables.Records (t : Tables) (log : List DeskEvent) : Prop where
  orders : t.orders.rows.Perm (log.filterMap DeskEvent.order?)
  orderIds_nodup : t.orderIds.Nodup
  fulfilments : ∀ f, f ∈ t.fulfilments.rows ↔ f ∈ log.filterMap DeskEvent.fulfilment?
  fulfilments_nodup : t.fulfilments.rows.Nodup
  fulfilments_refer : ∀ f ∈ t.fulfilments.rows, f.order ∈ t.orderIds
  precedences : ∀ p, p ∈ t.precedences.rows ↔
    ∃ link, latestLink? log p.orders = some link ∧ p.start = link.asOf.columnText
  precedences_nodup : (t.precedences.rows.map PrecedenceRow.orders).Nodup
  precedences_refer : ∀ p ∈ t.precedences.rows, p.first ∈ t.orderIds ∧ p.second ∈ t.orderIds

namespace Tables.Records

variable {t : Tables} {log : List DeskEvent}

/-- Tables without orders hold what the empty log says. -/
theorem vacant (horders : t.orders.rows = []) (hfulfilments : t.fulfilments.rows = [])
    (hprecedences : t.precedences.rows = []) : t.Records [] := by
  constructor <;> simp [orderIds, horders, hfulfilments, hprecedences, latestLink?]

/-- A refused call is nothing to the tables. -/
theorem refused (h : t.Records log) {event : DeskEvent} (horder : event.order? = none)
    (hfulfilment : event.fulfilment? = none) (hprecedence : event.precedence? = none) :
    t.Records (event :: log) :=
  { h with
    orders := by
      rw [List.filterMap_cons_none horder]
      exact h.orders
    fulfilments := by
      rw [List.filterMap_cons_none hfulfilment]
      exact h.fulfilments
    precedences := by
      unfold latestLink?
      rw [List.filterMap_cons_none hprecedence]
      exact h.precedences }

/-- The ids are those of before and that of the new order. -/
theorem orderIds_withOrder_perm (t : Tables) {row : OrderRow} {id : String}
    (hid : row.id = some id) : (t.withOrder row).orderIds.Perm (id :: t.orderIds) := by
  have hperm := (t.orders.rows_add_perm row).filterMap OrderRow.id
  rwa [List.filterMap_cons_some hid] at hperm

/-- An order that is placed under a new id is there besides the others. -/
theorem withOrder (h : t.Records log) {id : String} (hnew : id ∉ t.orderIds)
    (now completion : DateTime) (r : OrderRequest) :
    (t.withOrder (.ofRequest id r completion now)).Records
      (.place now r (.ok ⟨id, completion⟩) :: log) := by
  have hids : (t.withOrder (.ofRequest id r completion now)).orderIds.Perm (id :: t.orderIds) :=
    orderIds_withOrder_perm t rfl
  have hkept {other : String} (hother : other ∈ t.orderIds) :
      other ∈ (t.withOrder (.ofRequest id r completion now)).orderIds :=
    hids.mem_iff.2 (List.mem_cons_of_mem _ hother)
  exact { h with
    orders := (t.orders.rows_add_perm _).trans (h.orders.cons _)
    orderIds_nodup := hids.nodup_iff.2 (List.nodup_cons.2 ⟨hnew, h.orderIds_nodup⟩)
    fulfilments_refer := fun f hf => hkept (h.fulfilments_refer f hf)
    precedences_refer := fun p hp => (h.precedences_refer p hp).imp hkept hkept }

/-- A link to a sales order line that is there already stays. -/
theorem repeatFulfilment (h : t.Records log) {order : String} {source : SourceLine}
    (hrow : ⟨order, source.order, source.line⟩ ∈ t.fulfilments.rows) :
    t.Records (.fulfil order source (.ok ()) :: log) :=
  { h with
    fulfilments := fun f => by
      change _ ↔ f ∈ ⟨order, source.order, source.line⟩ :: log.filterMap DeskEvent.fulfilment?
      rw [List.mem_cons, ← h.fulfilments f]
      exact ⟨.inr, fun hf => hf.elim (fun heq => heq ▸ hrow) id⟩ }

/-- A new link to a sales order line is there besides the others. -/
theorem addFulfilment (h : t.Records log) {order : String} {source : SourceLine}
    (hrow : ⟨order, source.order, source.line⟩ ∉ t.fulfilments.rows) (horder : order ∈ t.orderIds) :
    Records { t with
        fulfilments := t.fulfilments.add ⟨order, source.order, source.line⟩ }
      (.fulfil order source (.ok ()) :: log) := by
  have hperm := t.fulfilments.rows_add_perm ⟨order, source.order, source.line⟩
  exact { h with
    fulfilments := fun f => by
      change _ ↔ f ∈ ⟨order, source.order, source.line⟩ :: log.filterMap DeskEvent.fulfilment?
      rw [List.mem_cons, ← h.fulfilments f, ← List.mem_cons]
      exact hperm.mem_iff
    fulfilments_nodup := hperm.nodup_iff.2 (List.nodup_cons.2 ⟨hrow, h.fulfilments_nodup⟩)
    fulfilments_refer := fun f hf => by
      rcases List.mem_cons.1 (hperm.mem_iff.1 hf) with rfl | hf
      · exact horder
      · exact h.fulfilments_refer f hf }

/-- A link between two orders that exist is there instead of an earlier one between them. -/
theorem putPrecedence (h : t.Records log) {first second : String} (asOf : DateTime)
    (hfirst : first ∈ t.orderIds) (hsecond : second ∈ t.orderIds) :
    Records { t with
        precedences := t.precedences.put (fun r => (r.first, r.second))
          ⟨first, second, asOf.columnText⟩ }
      (.precede first second asOf (.ok ()) :: log) := by
  have hperm := t.precedences.rows_put_perm PrecedenceRow.orders ⟨first, second, asOf.columnText⟩
  have hmem (p : PrecedenceRow) : p ∈ (t.precedences.put PrecedenceRow.orders
      ⟨first, second, asOf.columnText⟩).rows ↔ p = ⟨first, second, asOf.columnText⟩ ∨
        p ∈ t.precedences.rows ∧ p.orders ≠ (first, second) := by
    rw [hperm.mem_iff, List.mem_cons, List.mem_filter, decide_eq_true_iff]
    rfl
  exact { h with
    precedences := fun p => by
      change p ∈ (t.precedences.put PrecedenceRow.orders _).rows ↔ _
      rw [hmem, h.precedences p, latestLink?_cons rfl]
      change _ ↔ ∃ link, (if (first, second) = p.orders then _ else _) = _ ∧ _
      by_cases hsame : (first, second) = p.orders
      · rw [if_pos hsame]
        constructor
        · rintro (rfl | ⟨-, hother⟩)
          · exact ⟨_, rfl, rfl⟩
          · exact absurd hsame.symm hother
        · rintro ⟨link, hlink, hstart⟩
          cases hlink
          obtain ⟨hfirst, hsecond⟩ := Prod.mk.inj hsame
          exact .inl (PrecedenceRow.mk.injEq .. ▸ ⟨hfirst.symm, hsecond.symm, hstart⟩)
      · rw [if_neg hsame]
        constructor
        · rintro (rfl | ⟨hlink, -⟩)
          · exact absurd rfl hsame
          · exact hlink
        · intro hlink
          exact .inr ⟨hlink, Ne.symm hsame⟩
    precedences_nodup := by
      refine (hperm.map PrecedenceRow.orders).nodup_iff.2 (List.nodup_cons.2 ⟨fun htwice => ?_, ?_⟩)
      · obtain ⟨p, hp, horders⟩ := List.mem_map.1 htwice
        exact of_decide_eq_true (List.mem_filter.1 hp).2 horders
      · exact h.precedences_nodup.sublist (List.filter_sublist.map _)
    precedences_refer := fun p hp => by
      rcases (hmem p).1 hp with rfl | ⟨hp, -⟩
      · exact ⟨hfirst, hsecond⟩
      · exact h.precedences_refer p hp }

/-- A call that is answered leaves the tables with what the log says from then on. -/
theorem serve (h : t.Records log) {event : DeskEvent} {db : Database}
    (hserves : Database.Serves ⟨some t⟩ event db) :
    ∃ t', db = ⟨some t'⟩ ∧ t'.Records (event :: log) := by
  cases hserves with
  | @place supply defaultLeadTime now request answer hanswer =>
    rcases Database.place_cases supply defaultLeadTime now t request with
      ⟨e, hplace⟩ | ⟨hnew, completion, hplace⟩
    · rw [hplace] at hanswer ⊢
      cases answer with
      | ok ref => cases hanswer
      | error e => exact ⟨t, rfl, h.refused rfl rfl rfl⟩
    · rw [hplace] at hanswer ⊢
      cases answer with
      | ok ref =>
        cases hanswer
        exact ⟨_, rfl, h.withOrder hnew now completion request⟩
      | error e => cases hanswer
  | fulfil supply defaultLeadTime now order source =>
    rcases Database.fulfil_cases supply defaultLeadTime now t order source with
      ⟨hrow, hfulfil⟩ | ⟨hrow, horder, hfulfil⟩ | ⟨-, -, hfulfil⟩
    · rw [hfulfil]
      exact ⟨t, rfl, h.repeatFulfilment hrow⟩
    · rw [hfulfil]
      exact ⟨_, rfl, h.addFulfilment hrow horder⟩
    · rw [hfulfil]
      exact ⟨t, rfl, h.refused rfl rfl rfl⟩
  | precede supply defaultLeadTime now first second asOf =>
    rcases Database.precede_cases supply defaultLeadTime now t first second asOf with
      ⟨⟨hfirst, hsecond⟩, hprecede⟩ | ⟨-, hprecede⟩
    · rw [hprecede]
      exact ⟨_, rfl, h.putPrecedence asOf hfirst hsecond⟩
    · rw [hprecede]
      exact ⟨t, rfl, h.refused rfl rfl rfl⟩

end Tables.Records

/-- A run leaves tables with what its log says. -/
theorem Database.Reaches.records {log : List DeskEvent} {db : Database} (h : Reaches log db) :
    ∃ t, db = ⟨some t⟩ ∧ t.Records log := by
  induction h with
  | start horders hfulfilments hprecedences =>
    exact ⟨_, rfl, .vacant horders hfulfilments hprecedences⟩
  | serve _ hserves ih =>
    obtain ⟨t, rfl, hrecords⟩ := ih
    exact hrecords.serve hserves

/-! ## What the desk answers -/

/-- The precedence of a row that has been written. -/
def PrecedenceRow.link (r : PrecedenceRow) : Precedence :=
  ⟨r.first, r.second, (readColumn? r.start).getD .epoch⟩

theorem PrecedenceRow.link_of_start {r : PrecedenceRow} {asOf : DateTime}
    (h : r.start = asOf.columnText) :
    r.link = ⟨r.first, r.second, asOf.written⟩ ∧ r.read = .ok r.link := by
  unfold link read
  rw [h, asOf.readColumn?_columnText]
  exact ⟨rfl, rfl⟩

/-- The tables hold what the log says, and the desk goes by it: the precedences are the latest links
with their dates as they are written, a link is made just when its orders exist, and a call that
fails changes nothing. -/
structure Tables.KeepsOrders (t : Tables) (log : List DeskEvent) : Prop extends t.Records log where
  listed : ∃ links, (Database.mk (some t)).precedences = .ok links ∧
    (links.map Precedence.orders).Nodup ∧
    ∀ link, link ∈ links ↔
      ∃ last, latestLink? log link.orders = some last ∧ link.asOf = last.asOf.written
  fulfil_ok_iff : ∀ supply defaultLeadTime now order source,
    ((Database.desk supply defaultLeadTime now).fulfil order source ⟨some t⟩).2 = .ok () ↔
      order ∈ t.orderIds
  precede_ok_iff : ∀ supply defaultLeadTime now first second asOf,
    ((Database.desk supply defaultLeadTime now).precede first second asOf ⟨some t⟩).2 = .ok () ↔
      first ∈ t.orderIds ∧ second ∈ t.orderIds
  place_error : ∀ supply defaultLeadTime now request e,
    ((Database.desk supply defaultLeadTime now).place request ⟨some t⟩).2 = .error e →
      ((Database.desk supply defaultLeadTime now).place request ⟨some t⟩).1 = ⟨some t⟩
  fulfil_error : ∀ supply defaultLeadTime now order source e,
    ((Database.desk supply defaultLeadTime now).fulfil order source ⟨some t⟩).2 = .error e →
      ((Database.desk supply defaultLeadTime now).fulfil order source ⟨some t⟩).1 = ⟨some t⟩
  precede_error : ∀ supply defaultLeadTime now first second asOf e,
    ((Database.desk supply defaultLeadTime now).precede first second asOf ⟨some t⟩).2 = .error e →
      ((Database.desk supply defaultLeadTime now).precede first second asOf ⟨some t⟩).1 = ⟨some t⟩

namespace Tables.Records

variable {t : Tables} {log : List DeskEvent}

/-- The rows of precedences can be read, and give the latest links. -/
theorem listed (h : t.Records log) : ∃ links, (Database.mk (some t)).precedences = .ok links ∧
    (links.map Precedence.orders).Nodup ∧
    ∀ link, link ∈ links ↔
      ∃ last, latestLink? log link.orders = some last ∧ link.asOf = last.asOf.written := by
  have hread (p : PrecedenceRow) (hp : p ∈ t.precedences.rows) : p.read = .ok p.link := by
    obtain ⟨last, -, hstart⟩ := (h.precedences p).1 hp
    exact (PrecedenceRow.link_of_start hstart).2
  refine ⟨t.precedences.rows.map PrecedenceRow.link, mapM_eq_ok_map hread, ?_, fun link => ?_⟩
  · rw [List.map_map]
    exact h.precedences_nodup
  · rw [List.mem_map]
    constructor
    · rintro ⟨p, hp, rfl⟩
      obtain ⟨last, hlast, hstart⟩ := (h.precedences p).1 hp
      exact ⟨last, hlast, congrArg Precedence.asOf (PrecedenceRow.link_of_start hstart).1⟩
    · rintro ⟨last, hlast, hasOf⟩
      refine ⟨⟨link.first, link.second, last.asOf.columnText⟩,
        (h.precedences _).2 ⟨last, hlast, rfl⟩, ?_⟩
      rw [(PrecedenceRow.link_of_start rfl).1, ← hasOf]

theorem keeps (h : t.Records log) : t.KeepsOrders log where
  toRecords := h
  listed := h.listed
  fulfil_ok_iff supply defaultLeadTime now order source := by
    rcases Database.fulfil_cases supply defaultLeadTime now t order source with
      ⟨hrow, hfulfil⟩ | ⟨-, horder, hfulfil⟩ | ⟨-, horder, hfulfil⟩
    · rw [hfulfil]
      exact iff_of_true rfl (h.fulfilments_refer _ hrow)
    · rw [hfulfil]
      exact iff_of_true rfl horder
    · rw [hfulfil]
      exact iff_of_false (fun hok => nomatch hok) horder
  precede_ok_iff supply defaultLeadTime now first second asOf := by
    rcases Database.precede_cases supply defaultLeadTime now t first second asOf with
      ⟨horders, hprecede⟩ | ⟨horders, hprecede⟩
    · rw [hprecede]
      exact iff_of_true rfl horders
    · rw [hprecede]
      exact iff_of_false (fun hok => nomatch hok) horders
  place_error supply defaultLeadTime now request e he := by
    rcases Database.place_cases supply defaultLeadTime now t request with
      ⟨e', hplace⟩ | ⟨-, c, hplace⟩
    · rw [hplace]
    · rw [hplace] at he
      cases he
  fulfil_error _ _ _ _ _ _ := Database.write_error
  precede_error _ _ _ _ _ _ _ := Database.write_error

end Tables.Records

/-- After any run the tables hold the orders that have been placed, unchanged, and the links that
have been made, and the desk goes by them. -/
theorem Database.Reaches.keepsOrders {log : List DeskEvent} {db : Database} (h : Reaches log db) :
    ∃ t, db = ⟨some t⟩ ∧ t.KeepsOrders log := by
  obtain ⟨t, rfl, hrecords⟩ := h.records
  exact ⟨t, rfl, hrecords.keeps⟩

namespace Database

/-- A request for one piece from the epoch on. -/
def samplePiece (product : String) : OrderRequest := ⟨product, none, 1.0, .epoch, none, none, none⟩

/-- A database in which a drawer and a dresser have been ordered. -/
def dresser : Database :=
  let db := ((desk .counted 1.0 .epoch).place (samplePiece "drawer")
    (empty.setUp "1970-01-01 00:00:00")).1
  ((desk .counted 1.0 .epoch).place (samplePiece "dresser") db).1

/-- What has happened to that database. -/
def dresserLog : List DeskEvent :=
  [.place .epoch (samplePiece "dresser") (.ok ⟨issuedId 2, .secondDay⟩),
    .place .epoch (samplePiece "drawer") (.ok ⟨issuedId 1, .secondDay⟩)]

theorem reaches_dresser : Reaches dresserLog dresser :=
  .serve (.serve (.start rfl rfl rfl) (.place .counted 1.0 .epoch _ rfl))
    (.place .counted 1.0 .epoch _ rfl)

/-- The drawer goes before the dresser as of the second date that is given, and a link of an order
that does not exist is refused. -/
theorem dresser_keepsOrders :
    let db := ((desk .counted 1.0 .epoch).precede (issuedId 1) (issuedId 2) .epoch dresser).1
    let db := ((desk .counted 1.0 .epoch).precede (issuedId 1) (issuedId 2) .secondDay db).1
    let db := ((desk .counted 1.0 .epoch).fulfil "chest" ⟨"sale", "1"⟩ db).1
    let log := .fulfil "chest" ⟨"sale", "1"⟩ (.error TableFault.noReference.toStoreError) ::
      .precede (issuedId 1) (issuedId 2) .secondDay (.ok ()) ::
      .precede (issuedId 1) (issuedId 2) .epoch (.ok ()) :: dresserLog
    db.precedences = .ok [⟨issuedId 1, issuedId 2, .secondDay⟩] ∧ Reaches log db ∧
      ∃ t, db = ⟨some t⟩ ∧ t.KeepsOrders log := by
  intro db₁ db₂ db₃ log
  have hreaches : Reaches log db₃ :=
    .serve (.serve (.serve reaches_dresser (.precede .counted 1.0 .epoch _ _ .epoch))
      (.precede .counted 1.0 .epoch _ _ .secondDay))
      (.fulfil .counted 1.0 .epoch "chest" ⟨"sale", "1"⟩)
  exact ⟨by decide +kernel, hreaches, hreaches.keepsOrders⟩

/-- The database after the drawer has been put before the dresser as of the given date, and what has
happened to it. -/
def dresserFrom (asOf : DateTime) : Database × List DeskEvent :=
  (((desk .counted 1.0 .epoch).precede (issuedId 1) (issuedId 2) asOf dresser).1,
    .precede (issuedId 1) (issuedId 2) asOf (.ok ()) :: dresserLog)

/-- A link as of half a second after the epoch is listed as of the epoch. A link as of a leap second
that ends no minute is not even listed as of the beginning of this leap second. -/
theorem half_second_lost :
    let half : DateTime := { day := 0, second := 0, nano := 500000000 }
    let listed (asOf : DateTime) := (dresserFrom asOf).1.precedences
    let latest (asOf : DateTime) :=
      latestLink? (dresserFrom asOf).2 (issuedId 1, issuedId 2)
    (Reaches (dresserFrom half).2 (dresserFrom half).1 ∧
      latest half = some ⟨issuedId 1, issuedId 2, half⟩ ∧
      listed half = .ok [⟨issuedId 1, issuedId 2, .epoch⟩] ∧ half ≠ .epoch) ∧
    Reaches (dresserFrom .oddLeapSecond).2 (dresserFrom .oddLeapSecond).1 ∧
      latest .oddLeapSecond = some ⟨issuedId 1, issuedId 2, .oddLeapSecond⟩ ∧
      listed .oddLeapSecond = .ok [⟨issuedId 1, issuedId 2, .afterOddLeap⟩] ∧
      DateTime.afterOddLeap ≠ DateTime.oddLeapSecond.truncate := by
  intro half listed latest
  have hreaches (asOf : DateTime)
      (hok : ((desk .counted 1.0 .epoch).precede (issuedId 1) (issuedId 2) asOf dresser).2 =
        .ok ()) : Reaches (dresserFrom asOf).2 (dresserFrom asOf).1 := by
    have hevent : dresser.Serves _ _ :=
      .precede .counted 1.0 .epoch (issuedId 1) (issuedId 2) asOf
    rw [hok] at hevent
    exact .serve reaches_dresser hevent
  exact ⟨⟨hreaches half (by decide +kernel), by decide +kernel, by decide +kernel, by decide⟩,
    hreaches .oddLeapSecond (by decide +kernel), by decide +kernel, by decide +kernel, by decide⟩

end Database

end Bom
