import Bom.Error
import Bom.Notice

/-!
# Work at a desk

What is done at an order desk changes the desk's state at once and may give notices. When the work
fails, the state and the notices are those of the moment of failure.

* `Work`: a step from a state to a state, notices and an outcome.
-/

namespace Bom

/-- Work on a state of type `σ`. -/
def Work (σ α : Type) : Type := σ → σ × Noted EngineError α

namespace Work

variable {σ α β : Type}

/-- Work that leaves the state alone. -/
def ofNoted (x : Noted EngineError α) : Work σ α := fun s => (s, x)

/-- Work that goes on from the state and the value of other work, unless that has failed. -/
def andThen (x : Work σ α) (f : α → Work σ β) : Work σ β := fun s =>
  match x s with
  | (s, ⟨notices, .error e⟩) => (s, ⟨notices, .error e⟩)
  | (s, ⟨notices, .ok a⟩) =>
    let (s, rest) := f a s
    (s, ⟨notices ++ rest.notices, rest.outcome⟩)

instance : Monad (Work σ) where
  pure a := ofNoted (pure a)
  bind := andThen

/-- Work that fails. -/
def fail (e : EngineError) : Work σ α := ofNoted (Noted.fail e)

/-- Gives a notice. -/
def give (n : Notice) : Work σ Unit := ofNoted (Noted.give [n])

/-- Work that may be refused: a refusal is worth a notice and stops nothing. -/
def attempt {ε : Type} (notice : Notice) (step : σ → σ × Except ε Unit) : Work σ Unit := fun s =>
  match step s with
  | (s, .ok ()) => (s, pure ())
  | (s, .error _) => (s, Noted.give [notice])

end Work

end Bom
