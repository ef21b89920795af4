import Bom.Resolution

/-!
# What a warehouse manages

A product that some facility keeps in stock is drawn from the warehouse and not made for the
occasion. Work in process is never kept in stock. A product in the place of a virtual one is also
managed when the virtual one is.
-/

namespace Bom

/-- A warehouse manages the product, or the virtual product whose place it has taken. With a
facility, only that one counts. -/
def isWarehouseManaged (c : Catalogue) (product : Product) (replaced : Option Product)
    (facility : Option String) : Except EngineError Bool := do
  if product.isWip then pure false
  else if ← ask (c.isStocked product.id facility) then pure true
  else
    match replaced with
    | some r => ask (c.isStocked r.id facility)
    | none => pure false

end Bom
