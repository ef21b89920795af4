import Bom.Backend
import Bom.Proofs.Outcome

/-!
# What the catalogues answer

A catalogue is nothing but its answers, so a result about all catalogues can count on nothing in
them. `Catalogue.AnswersById` is what a question for a product promises; the catalogues in memory
and in a database keep the promise (`Backend.answersById`). A catalogue in memory gives every answer
out of its lists, or fails because the product is failing (`MemoryCatalogue.answer_eq_ok`).
-/

namespace Bom

/-- The catalogue answers a question for a product with the product that has the given id. -/
def Catalogue.AnswersById (c : Catalogue) : Prop :=
  ∀ id p, c.product id = .ok (some p) → p.id = id

/-! ## In memory -/

namespace MemoryCatalogue

/-- An answer is given just when the product is not failing. -/
theorem answer_eq_ok {α : Type} {c : MemoryCatalogue} {product : String} {a b : α} :
    c.answer product a = .ok b ↔ product ∉ c.failing ∧ a = b := by
  unfold answer
  split
  · next hfailing =>
    constructor
    · intro h
      cases h
    · intro h
      exact absurd hfailing h.1
  · next hanswers =>
    constructor
    · intro h
      cases h
      exact ⟨hanswers, rfl⟩
    · rintro ⟨-, rfl⟩
      rfl

/-- A product that is found is registered under its id. -/
theorem mem_products_of_product? {c : MemoryCatalogue} {id : String} {p : Product}
    (h : c.product? id = some p) : p ∈ c.products ∧ p.id = id := by
  unfold product? at h
  exact ⟨List.mem_of_find?_eq_some h, by simpa using List.find?_some h⟩

/-- A catalogue in memory answers by id. -/
theorem answersById (c : MemoryCatalogue) : c.catalogue.AnswersById := by
  intro id p h
  obtain ⟨-, hp⟩ := answer_eq_ok.1 h
  exact (mem_products_of_product? hp).2

end MemoryCatalogue

/-! ## In a database -/

/-- A row is read as the product that has its id. -/
theorem ProductRow.id_of_read {row : ProductRow} {p : Product} (h : row.read = .ok p) :
    row.id = some p.id := by
  unfold ProductRow.read at h
  obtain ⟨id, hid, h⟩ := bind_eq_ok.1 h
  obtain ⟨_, -, h⟩ := bind_eq_ok.1 h
  obtain ⟨_, -, h⟩ := bind_eq_ok.1 h
  obtain ⟨_, -, h⟩ := bind_eq_ok.1 h
  obtain ⟨_, -, h⟩ := bind_eq_ok.1 h
  cases h
  cases hrow : row.id with
  | none =>
    rw [hrow] at hid
    cases hid
  | some text =>
    rw [hrow] at hid
    cases hid
    rfl

/-- The tables answer by id. -/
theorem Tables.id_of_product {t : Tables} {id : String} {p : Product}
    (h : t.product id = .ok (some p)) : p.id = id := by
  unfold Tables.product at h
  split at h
  · next row hrow =>
    cases hread : row.read with
    | error fault =>
      rw [hread] at h
      cases h
    | ok q =>
      rw [hread] at h
      cases h
      have hid : row.id = some id := by simpa using List.find?_some hrow
      rw [ProductRow.id_of_read hread] at hid
      exact Option.some.inj hid
  · cases h

/-- A database answers by id. -/
theorem Database.answersById (db : Database) (now : DateTime) :
    (db.catalogue now).AnswersById := by
  intro id p h
  change db.read "product" (·.product id) = .ok (some p) at h
  unfold Database.read at h
  split at h
  · exact Tables.id_of_product (mapError_eq_ok.1 h)
  · cases h

/-- Every backend has a catalogue that answers by id. -/
theorem Backend.answersById (now : DateTime) (b : Backend) : (b.catalogue now).AnswersById := by
  cases b with
  | memory products _ _ _ => exact products.answersById
  | database db => exact db.answersById now

end Bom
