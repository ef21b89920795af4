import Bom.Error
import Bom.Order.Basic

/-!
# Order desks

Production orders are placed at a desk, which may refuse one. A desk also links an order to the
sales order line it is made for, and an order to the one that waits for it. What a desk does takes
effect at once: a refusal later on takes nothing back. A desk is a value of operations on its state.

* `OrderDesk`: the operations.
* `OrderDesk.refusing`: a desk that refuses some links of its own accord.
-/

namespace Bom

/-- Why an order is not placed. -/
inductive PlacingError where
  | refused (error : StoreError)
  /-- the order would be complete at no date of the calendar -/
  | outOfCalendar
  deriving DecidableEq, Repr

/-- The operations of a desk whose state is of type `σ`. -/
structure OrderDesk (σ : Type) where
  /-- places an order -/
  place : OrderRequest → σ → σ × Except PlacingError OrderRef
  /-- links an order to a sales order line -/
  fulfil : String → SourceLine → σ → σ × Except StoreError Unit
  /-- has the second order wait for the first, as of a date -/
  precede : String → String → DateTime → σ → σ × Except StoreError Unit

/-- The links that a desk refuses, by the number of links that it was asked for before. -/
structure LinkPolicy where
  fulfil : Nat → Option StoreError
  precede : Nat → Option StoreError

namespace OrderDesk

/-- The desk that counts the links it is asked for, refuses those that the policy names and leaves
the others to the desk behind it. -/
def refusing {σ : Type} (policy : LinkPolicy) (desk : OrderDesk σ) : OrderDesk (σ × Nat) where
  place request s :=
    let (behind, result) := desk.place request s.1
    ((behind, s.2), result)
  fulfil order source s :=
    match policy.fulfil s.2 with
    | some e => ((s.1, s.2 + 1), .error e)
    | none =>
      let (behind, result) := desk.fulfil order source s.1
      ((behind, s.2 + 1), result)
  precede first second asOf s :=
    match policy.precede s.2 with
    | some e => ((s.1, s.2 + 1), .error e)
    | none =>
      let (behind, result) := desk.precede first second asOf s.1
      ((behind, s.2 + 1), result)

end OrderDesk

end Bom
