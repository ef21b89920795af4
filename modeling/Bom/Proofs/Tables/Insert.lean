import Mathlib.Data.List.Forall2
import Bom.Proofs.Outcome
import Bom.Proofs.Tables.Numbers
import Bom.Tables.Insert

/-!
# Putting an association into its table

A row of the table of associations is given by some of its columns. It is put there if its number is
whole and free and the columns that have to be filled are (`Tables.Admits`), and then the table has
the row that its columns make of the values, and no other change (`Database.insertRow_eq_ok`).
-/

namespace Bom

/-- The value that is given for a column, or its standard value. -/
def Column.value (c : Column) (given : List (String × Cell)) : Cell :=
  ((given.find? fun (name, _) => c.isNamed name).map Prod.snd).getD c.standard

/-- What a column makes of the value that is given for it. -/
def Column.stored (c : Column) (given : List (String × Cell)) : Cell :=
  c.affinity.store (c.value given)

/-- The columns that have to be filled are, just when none is found that is not. -/
theorem TableName.unfilled?_eq_none {t : TableName} {given : List (String × Cell)} :
    t.unfilled? (t.cells given) = none ↔
      ∀ c ∈ t.columns, c.filled = true → (c.stored given).isFilled = true := by
  have hcells : t.columns.zip (t.cells given) = t.columns.map fun c => (c, c.stored given) := by
    change List.zipWith Prod.mk t.columns (t.columns.map fun c => c.stored given) = _
    rw [List.zipWith_map_right, List.zipWith_self]
  unfold unfilled?
  rw [hcells, Option.map_eq_none_iff, List.find?_eq_none]
  simp

/-- The row that the columns of the table make of given values. -/
def AssociationRow.ofGiven (given : List (String × Cell)) : AssociationRow where
  product := ((Column.text "product_id").stored given).filledText
  target := ((Column.text "product_id_to").stored given).filledText
  type := ((Column.text "assoc_type").stored given).filledText
  quantity := ((Column.text? "quantity").stored given).text?
  scrap := (Column.real? "scrap_factor").stored given
  sequence := (Column.integer "sequence_num" 0).stored given
  routing := ((Column.text? "routing_id").stored given).text?
  start := ((Column.text "from_date").stored given).filledText
  stop := ((Column.text? "thru_date").stored given).text?
  calcMethod := ((Column.text? "estimate_calc_method").stored given).text?

namespace Tables

/-- The tables with an association under a number. -/
def withAssociation (t : Tables) (n : Int) (row : AssociationRow) : Tables :=
  { t with
    associations := t.associations.insertAt n row
    lastAssociation := max t.lastAssociation n }

/-- The table of associations takes a row of the given values, under the number `n`. -/
structure Admits (t : Tables) (given : List (String × Cell)) (n : Int) : Prop where
  given_ne_nil : given ≠ []
  known : TableName.associations.unknownColumn? given = none
  number : t.rowNumber .associations (TableName.associations.givenNumber given) = .ok n
  filled : ∀ c ∈ TableName.associations.columns, c.filled = true →
    (c.stored given).isFilled = true
  free : t.associations.hasNumber n = false

theorem append_associations_eq_ok {t t' : Tables} {n : Int} {given : List (String × Cell)} :
    t.append n .associations (TableName.associations.cells given) = .ok t' ↔
      t.associations.hasNumber n = false ∧ t' = t.withAssociation n (.ofGiven given) := by
  change (TableName.associations.extend t.associations n (.ofGiven given) (fun _ => false) >>=
    fun associations => pure { t with
      associations, lastAssociation := max t.lastAssociation n }) = .ok t' ↔ _
  unfold TableName.extend
  cases t.associations.hasNumber n with
  | true => exact ⟨nofun, fun h => nomatch h.1⟩
  | false =>
    have hnone : t.associations.rows.any (fun _ => false) = false :=
      List.any_eq_false.2 fun _ _ => Bool.false_ne_true
    rw [if_neg Bool.false_ne_true, hnone, if_neg Bool.false_ne_true]
    constructor
    · rintro ⟨⟩
      exact ⟨rfl, rfl⟩
    · rintro ⟨-, rfl⟩
      rfl

/-- Putting a row into the table of associations goes through all checks or fails at one. -/
theorem insert_associations_eq_ok {t t' : Tables} {given : List (String × Cell)} :
    t.insert .associations given = .ok t' ↔
      ∃ n, t.rowNumber .associations (TableName.associations.givenNumber given) = .ok n ∧
        (∀ c ∈ TableName.associations.columns, c.filled = true →
          (c.stored given).isFilled = true) ∧
        t.associations.hasNumber n = false ∧ t' = t.withAssociation n (.ofGiven given) := by
  unfold insert
  rw [bind_eq_ok]
  constructor
  · rintro ⟨n, hnumber, h⟩
    dsimp only at h
    split at h
    · cases h
    next hfilled =>
    obtain ⟨hfree, rfl⟩ := append_associations_eq_ok.1 h
    exact ⟨n, hnumber, TableName.unfilled?_eq_none.1 hfilled, hfree, rfl⟩
  · rintro ⟨n, hnumber, hfilled, hfree, rfl⟩
    refine ⟨n, hnumber, ?_⟩
    dsimp only
    rw [TableName.unfilled?_eq_none.2 hfilled]
    exact append_associations_eq_ok.2 ⟨hfree, rfl⟩

end Tables

namespace Database

/-- A change of the tables succeeds just when it gives new tables. -/
theorem write_eq_ok {α : Type} {t : Tables} {table : String}
    {f : Tables → Except TableFault (Tables × α)} {db : Database} {a : α} :
    write ⟨some t⟩ table f = (db, .ok a) ↔ ∃ t', f t = .ok (t', a) ∧ db = ⟨some t'⟩ := by
  unfold write read
  dsimp only
  cases f t with
  | error e => exact ⟨nofun, fun ⟨_, h, _⟩ => nomatch h⟩
  | ok changed =>
    constructor
    · rintro ⟨⟩
      exact ⟨changed.1, rfl, rfl⟩
    · rintro ⟨t', ⟨⟩, rfl⟩
      rfl

/-- A row is put into the table of associations just when the table takes it. -/
theorem insertRow_eq_ok {t : Tables} {given : List (String × Cell)} {db : Database} :
    insertRow ⟨some t⟩ "product_assoc" given = (db, .ok ()) ↔
      ∃ n, t.Admits given n ∧ db = ⟨some (t.withAssociation n (.ofGiven given))⟩ := by
  have hname : TableName.ofLabel? "product_assoc" = some .associations := by decide +kernel
  unfold insertRow
  rw [hname]
  constructor
  · intro h
    split at h
    · cases h
    next hgiven =>
    obtain ⟨t', hwrite, rfl⟩ := write_eq_ok.1 h
    dsimp only at hwrite
    split at hwrite
    · cases hwrite
    next hknown =>
    obtain ⟨_, hinsert, ⟨⟩⟩ := map_eq_ok.1 hwrite
    obtain ⟨n, hnumber, hfilled, hfree, rfl⟩ := Tables.insert_associations_eq_ok.1 hinsert
    exact ⟨n, ⟨fun hnil => hgiven (List.isEmpty_iff.2 hnil), hknown, hnumber, hfilled, hfree⟩, rfl⟩
  · rintro ⟨n, h, rfl⟩
    have hgiven : ¬ given.isEmpty = true := fun hnil => h.given_ne_nil (List.isEmpty_iff.1 hnil)
    have hinsert := Tables.insert_associations_eq_ok.2 ⟨n, h.number, h.filled, h.free, rfl⟩
    rw [if_neg hgiven, write_eq_ok]
    dsimp only
    rw [h.known]
    exact ⟨_, map_eq_ok.2 ⟨_, hinsert, rfl⟩, rfl⟩

end Database

end Bom
