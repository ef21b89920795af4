import Bom.Resolution

/-!
# Outcomes of composed work

Work on a catalogue is written with `bind`, in `Except` and in `Noted`. A composition succeeds when
its parts do, and fails when one of them does; the laws here take a composition apart without
unfolding either monad, and `Noted.FailsOnly` says which errors it can fail with. They come with the
two ways in which a catalogue is asked, `ask` and `Catalogue.productOf`.
-/

namespace Bom

variable {ε α β : Type}

/-! ## Plain outcomes -/

/-- A composition succeeds just when both parts do. -/
theorem bind_eq_ok {x : Except ε α} {f : α → Except ε β} {b : β} :
    (x >>= f) = .ok b ↔ ∃ a, x = .ok a ∧ f a = .ok b := by
  cases x with
  | error e =>
    constructor
    · intro h
      cases h
    · rintro ⟨_, ha, _⟩
      cases ha
  | ok a =>
    constructor
    · intro h
      exact ⟨a, rfl, h⟩
    · rintro ⟨_, ha, h⟩
      cases ha
      exact h

/-- A composition fails just when one of its parts does. -/
theorem bind_eq_error {x : Except ε α} {f : α → Except ε β} {e : ε} :
    (x >>= f) = .error e ↔ x = .error e ∨ ∃ a, x = .ok a ∧ f a = .error e := by
  cases x with
  | error e' =>
    constructor
    · intro h
      cases h
      exact .inl rfl
    · rintro (h | ⟨_, ⟨⟩, -⟩)
      cases h
      rfl
  | ok a =>
    constructor
    · intro h
      exact .inr ⟨a, rfl, h⟩
    · rintro (⟨⟨⟩⟩ | ⟨_, ha, h⟩)
      cases ha
      exact h

theorem pure_eq_ok {a b : α} : (pure a : Except ε α) = .ok b ↔ a = b := by
  constructor
  · intro h
    cases h
    rfl
  · rintro rfl
    rfl

/-- Another wording of the error leaves a success alone. -/
theorem mapError_eq_ok {ε' : Type} {f : ε → ε'} {x : Except ε α} {a : α} :
    x.mapError f = .ok a ↔ x = .ok a := by
  cases x with
  | error e =>
    constructor <;> intro h <;> cases h
  | ok b =>
    constructor <;> intro h <;> cases h <;> rfl

/-- A changed value is a success of the work before the change. -/
theorem map_eq_ok {f : α → β} {x : Except ε α} {b : β} :
    x.map f = .ok b ↔ ∃ a, x = .ok a ∧ f a = b := by
  cases x with
  | error e =>
    constructor
    · intro h
      cases h
    · rintro ⟨_, ha, _⟩
      cases ha
  | ok a =>
    constructor
    · intro h
      cases h
      exact ⟨a, rfl, rfl⟩
    · rintro ⟨_, ha, rfl⟩
      cases ha
      rfl

/-- Compositions whose second parts differ by a change of the value do so themselves, when the value
in between is changed accordingly. -/
theorem bind_of_map {α' β' : Type} {x : Except ε α} {k : α → α'} {f : α → Except ε β}
    {f' : α' → Except ε β'} {g : β → β'} (h : ∀ a, f' (k a) = (f a).map g) :
    (x.map k >>= f') = (x >>= f).map g := by
  cases x with
  | error e => rfl
  | ok a => exact h a

/-- A change of each value is a change of all of them. -/
theorem mapM_of_map {β' : Type} {f : α → Except ε β} {f' : α → Except ε β'} {g : β → β'}
    (h : ∀ a, f' a = (f a).map g) (xs : List α) : xs.mapM f' = (xs.mapM f).map (List.map g) := by
  induction xs with
  | nil => rfl
  | cons a xs ih =>
    rw [List.mapM_cons, List.mapM_cons, ih, h]
    exact bind_of_map fun b => bind_of_map fun bs => rfl

/-- Work that succeeds on each value succeeds on all of them. -/
theorem mapM_eq_ok_map {f : α → Except ε β} {g : α → β} {xs : List α}
    (h : ∀ a ∈ xs, f a = .ok (g a)) : xs.mapM f = .ok (xs.map g) := by
  induction xs with
  | nil => rfl
  | cons a xs ih =>
    rw [List.mapM_cons, h a List.mem_cons_self, ih fun b hb => h b (List.mem_cons_of_mem a hb)]
    rfl

/-- Work that succeeds has a value. -/
theorem exists_of_isOk {x : Except ε α} (h : x.isOk = true) : ∃ a, x = .ok a := by
  cases x with
  | error e => cases h
  | ok a => exact ⟨a, rfl⟩

/-- Work whose value passes a check has a value that does. -/
theorem exists_of_any {x : Except ε α} {p : α → Bool} (h : x.toOption.any p = true) :
    ∃ a, x = .ok a ∧ p a = true := by
  cases x with
  | error e => cases h
  | ok a => exact ⟨a, rfl, h⟩

/-- The engine takes over what the catalogue answers. -/
@[simp] theorem ask_eq_ok {answer : Except StoreError α} {a : α} :
    ask answer = .ok a ↔ answer = .ok a := mapError_eq_ok

/-- A product is found when the catalogue has it. -/
theorem Catalogue.productOf_eq_ok {c : Catalogue} {id : String} {p : Product} :
    c.productOf id = .ok p ↔ c.product id = .ok (some p) := by
  unfold Catalogue.productOf
  rw [bind_eq_ok]
  constructor
  · rintro ⟨found, hask, h⟩
    rw [ask_eq_ok] at hask
    cases found with
    | none => cases h
    | some q =>
      cases h
      exact hask
  · intro h
    exact ⟨some p, ask_eq_ok.2 h, rfl⟩

/-! ## Outcomes with notices -/

namespace Noted

/-- A composition succeeds just when both parts do. -/
theorem outcome_bind_eq_ok {x : Noted ε α} {f : α → Noted ε β} {b : β} :
    (x >>= f).outcome = .ok b ↔ ∃ a, x.outcome = .ok a ∧ (f a).outcome = .ok b := by
  rw [outcome_bind]
  exact bind_eq_ok

/-- Compositions whose second parts differ by a change of the value do so themselves, when the value
in between is changed accordingly. -/
theorem outcome_bind_of_map {α' β' : Type} {x : Noted ε α} {x' : Noted ε α'} {k : α → α'}
    {f : α → Noted ε β} {f' : α' → Noted ε β'} {g : β → β'} (hx : x'.outcome = x.outcome.map k)
    (hf : ∀ a, (f' (k a)).outcome = (f a).outcome.map g) :
    (x' >>= f').outcome = (x >>= f).outcome.map g := by
  rw [outcome_bind, outcome_bind, hx]
  exact bind_of_map hf

/-- Compositions with the same first part differ by a change of the value if their second parts do.
-/
theorem outcome_bind_of_forall {β' : Type} {x : Noted ε α} {f : α → Noted ε β}
    {f' : α → Noted ε β'} {g : β → β'} (hf : ∀ a, (f' a).outcome = (f a).outcome.map g) :
    (x >>= f').outcome = (x >>= f).outcome.map g := by
  rw [outcome_bind, outcome_bind]
  cases x.outcome with
  | error e => rfl
  | ok a => exact hf a

/-- A composition depends on the rest of the work only where the first part leads. -/
theorem bind_congr {x : Noted ε α} {f g : α → Noted ε β}
    (h : ∀ a, x.outcome = .ok a → f a = g a) : x >>= f = x >>= g := by
  show andThen x f = andThen x g
  unfold andThen
  cases hx : x.outcome with
  | error e => rfl
  | ok a => simp only [h a hx]

theorem lift_ok_bind (a : α) (f : α → Noted ε β) : (lift (.ok a) >>= f) = f a := rfl

/-- A change of the value at the end of a composition is one of its second part. -/
theorem mapValue_bind {γ : Type} (x : Noted ε α) (f : α → Noted ε β) (g : β → γ) :
    (x >>= f).mapValue g = x >>= fun a => (f a).mapValue g := by
  show (andThen x f).mapValue g = andThen x _
  unfold andThen
  cases x.outcome <;> rfl

section

variable {P : ε → Prop}

/-- If the work fails, then with one of the given errors. -/
def FailsOnly (P : ε → Prop) (x : Noted ε α) : Prop := ∀ e, x.outcome = .error e → P e

theorem failsOnly_of_ok {x : Noted ε α} {a : α} (h : x.outcome = .ok a) : x.FailsOnly P := by
  intro e he
  rw [h] at he
  cases he

/-- Composed work fails only with errors of its parts. -/
theorem FailsOnly.bind {x : Noted ε α} {f : α → Noted ε β} (hx : x.FailsOnly P)
    (hf : ∀ a, x.outcome = .ok a → (f a).FailsOnly P) : (x >>= f).FailsOnly P := by
  intro e he
  rw [outcome_bind] at he
  cases ha : x.outcome with
  | error e' =>
    rw [ha] at he
    cases he
    exact hx e ha
  | ok a =>
    rw [ha] at he
    exact hf a ha e he

/-- Work that always succeeds adds no errors. -/
theorem FailsOnly.bind_of_ok {x : Noted ε α} {a : α} {f : α → Noted ε β} (hx : x.outcome = .ok a)
    (hf : (f a).FailsOnly P) : (x >>= f).FailsOnly P := by
  refine (failsOnly_of_ok hx).bind fun b hb => ?_
  cases hx.symm.trans hb
  exact hf

end

end Noted

end Bom
