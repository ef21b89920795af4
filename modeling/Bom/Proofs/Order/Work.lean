import Bom.Order.Cascade

/-!
# Laws of work at a desk

Work is composed with `bind`, which goes on from the state that the first part has left. The laws
here tell the state and the outcome of a composition from those of its parts (`Work.result`), and
carry over to compositions that work at two desks is related (`Work.Relates`). So a cascade does the
same at desks that do the same with each single call: at related desks (`Workshop.run_relates`), and
in particular at a desk and its image (`Workshop.run_mirrors`).
-/

namespace Bom

attribute [ext] Noted

variable {σ τ α β : Type}

namespace Work

/-! ## State and outcome -/

/-- The state that the work leaves and its outcome, without the notices. -/
def result (x : Work σ α) (s : σ) : σ × Except EngineError α := ((x s).1, (x s).2.outcome)

@[simp] theorem result_pure (a : α) (s : σ) : (pure a : Work σ α).result s = (s, .ok a) := rfl

@[simp] theorem result_ofNoted (x : Noted EngineError α) (s : σ) :
    (ofNoted x).result s = (s, x.outcome) := rfl

/-- Work that is refused a step goes on all the same. -/
@[simp] theorem result_attempt {ε : Type} (notice : Notice) (step : σ → σ × Except ε Unit) (s : σ) :
    (attempt notice step).result s = ((step s).1, .ok ()) := by
  unfold attempt result
  dsimp only
  rcases step s with ⟨s', _ | _⟩ <;> rfl

/-- Nothing is done after work that has failed. -/
theorem result_bind_of_error {x : Work σ α} {f : α → Work σ β} {s s' : σ} {e : EngineError}
    (h : x.result s = (s', .error e)) : (x >>= f).result s = (s', .error e) := by
  unfold result at h ⊢
  change ((andThen x f s).1, (andThen x f s).2.outcome) = _
  unfold andThen
  rcases hx : x s with ⟨s₁, notices, _ | a⟩ <;> rw [hx] at h <;> cases h
  rfl

/-- Work goes on from the state and the value of the work before it. -/
theorem result_bind_of_ok {x : Work σ α} {f : α → Work σ β} {s s' : σ} {a : α}
    (h : x.result s = (s', .ok a)) : (x >>= f).result s = (f a).result s' := by
  unfold result at h ⊢
  change ((andThen x f s).1, (andThen x f s).2.outcome) = _
  unfold andThen
  rcases hx : x s with ⟨s₁, notices, _ | a⟩ <;> rw [hx] at h <;> cases h
  rfl

/-! ## Related work -/

/-- From related states the two lead to related states, and have the same outcome and the same
notices, as far as these matter. -/
def Relates (R : σ → τ → Prop) (matters : Notice → Bool) (x : Work σ α) (y : Work τ α) : Prop :=
  ∀ s t, R s t → R (x s).1 (y t).1 ∧ (x s).2.outcome = (y t).2.outcome ∧
    (x s).2.notices.filter matters = (y t).2.notices.filter matters

variable {R : σ → τ → Prop} {matters : Notice → Bool}

theorem relates_ofNoted (x : Noted EngineError α) :
    Relates R matters (ofNoted x) (ofNoted x) := fun _ _ h => ⟨h, rfl, rfl⟩

theorem relates_pure (a : α) : Relates R matters (pure a) (pure a) := relates_ofNoted _

/-- Compositions are related where their parts are. -/
theorem Relates.bind {x : Work σ α} {y : Work τ α} {f : α → Work σ β} {g : α → Work τ β}
    (hx : Relates R matters x y) (hf : ∀ a, Relates R matters (f a) (g a)) :
    Relates R matters (x >>= f) (y >>= g) := by
  intro s t h
  have hfirst := hx s t h
  change R (andThen x f s).1 (andThen y g t).1 ∧
    (andThen x f s).2.outcome = (andThen y g t).2.outcome ∧
    (andThen x f s).2.notices.filter matters = (andThen y g t).2.notices.filter matters
  unfold andThen
  generalize x s = first at hfirst ⊢
  generalize y t = first' at hfirst ⊢
  obtain ⟨s', notices, outcome⟩ := first
  obtain ⟨t', notices', outcome'⟩ := first'
  obtain ⟨hstate, houtcome, hnotices⟩ := hfirst
  cases houtcome
  cases outcome with
  | error e => exact ⟨hstate, rfl, hnotices⟩
  | ok a =>
    obtain ⟨hstate', houtcome', hnotices'⟩ := hf a s' t' hstate
    refine ⟨hstate', houtcome', ?_⟩
    dsimp only at hnotices ⊢
    rw [List.filter_append, List.filter_append, hnotices, hnotices']

/-- Attempts are related if they lead to related states. Whether they are refused is the same, if
the notice of a refusal matters. -/
theorem relates_attempt {ε : Type} (notice : Notice) {step : σ → σ × Except ε Unit}
    {step' : τ → τ × Except ε Unit} (hstate : ∀ s t, R s t → R (step s).1 (step' t).1)
    (hanswer : matters notice = true → ∀ s t, R s t → (step s).2 = (step' t).2) :
    Relates R matters (attempt notice step) (attempt notice step') := by
  intro s t h
  have hstate := hstate s t h
  have hanswer := fun hmatters => hanswer hmatters s t h
  unfold attempt
  generalize step s = done at hstate hanswer ⊢
  generalize step' t = done' at hstate hanswer ⊢
  rcases done with ⟨s', e | _⟩ <;> rcases done' with ⟨t', e' | _⟩
  · exact ⟨hstate, rfl, rfl⟩
  · refine ⟨hstate, rfl, List.filter_cons_of_neg fun hmatters => ?_⟩
    cases hanswer hmatters
  · refine ⟨hstate, rfl, (List.filter_cons_of_neg fun hmatters => ?_).symm⟩
    cases hanswer hmatters
  · exact ⟨hstate, rfl, rfl⟩

end Work

/-! ## Cascades at related desks -/

/-- From related states the two desks lead to related states. They give the same answers to calls
for orders, and to calls for links if a notice of their refusal matters. -/
structure OrderDesk.Relates (R : σ → τ → Prop) (matters : Notice → Bool) (d : OrderDesk σ)
    (d' : OrderDesk τ) : Prop where
  place : ∀ request s t, R s t → R (d.place request s).1 (d'.place request t).1
  place_answer : ∀ request s t, R s t → (d.place request s).2 = (d'.place request t).2
  fulfil : ∀ order source s t, R s t → R (d.fulfil order source s).1 (d'.fulfil order source t).1
  fulfil_answer : matters .fulfillmentRefused = true → ∀ order source s t, R s t →
    (d.fulfil order source s).2 = (d'.fulfil order source t).2
  precede : ∀ first second asOf s t, R s t →
    R (d.precede first second asOf s).1 (d'.precede first second asOf t).1
  precede_answer : matters .precedenceRefused = true → ∀ first second asOf s t, R s t →
    (d.precede first second asOf s).2 = (d'.precede first second asOf t).2

/-- The second desk does with the image of a state what the first does with the state. -/
structure OrderDesk.Mirrors (φ : σ → τ) (d : OrderDesk σ) (d' : OrderDesk τ) : Prop where
  place : ∀ request s, d'.place request (φ s) = (φ (d.place request s).1, (d.place request s).2)
  fulfil : ∀ order source s,
    d'.fulfil order source (φ s) = (φ (d.fulfil order source s).1, (d.fulfil order source s).2)
  precede : ∀ first second asOf s, d'.precede first second asOf (φ s) =
    (φ (d.precede first second asOf s).1, (d.precede first second asOf s).2)

/-- A desk is related to its image. -/
theorem OrderDesk.Mirrors.relates {φ : σ → τ} {d : OrderDesk σ} {d' : OrderDesk τ}
    (h : d.Mirrors φ d') : d.Relates (fun s t => t = φ s) (fun _ => true) d' where
  place request s t ht := by rw [ht, h.place]
  place_answer request s t ht := by rw [ht, h.place]
  fulfil order source s t ht := by rw [ht, h.fulfil]
  fulfil_answer _ order source s t ht := by rw [ht, h.fulfil]
  precede first second asOf s t ht := by rw [ht, h.precede]
  precede_answer _ first second asOf s t ht := by rw [ht, h.precede]

namespace Workshop

variable {R : σ → τ → Prop} {matters : Notice → Bool} {w : Workshop σ} {d : OrderDesk τ}

/-- The same workshop with another desk. -/
def withDesk (w : Workshop σ) (d : OrderDesk τ) : Workshop τ := ⟨w.catalogue, d, w.now⟩

theorem place_relates (h : w.desk.Relates R matters d) (request : OrderRequest) :
    Work.Relates R matters (w.place request) ((w.withDesk d).place request) := by
  intro s t hst
  have hstate := h.place request s t hst
  have hanswer := h.place_answer request s t hst
  unfold place withDesk
  dsimp only
  generalize w.desk.place request s = placed at hstate hanswer ⊢
  generalize d.place request t = placed' at hstate hanswer ⊢
  obtain ⟨s', answer⟩ := placed
  obtain ⟨t', answer'⟩ := placed'
  cases hanswer
  rcases answer with (_ | _) | _ <;> exact ⟨hstate, rfl, rfl⟩

theorem linkSource_relates (h : w.desk.Relates R matters d) (r : CascadeRequest)
    (order : OrderRef) :
    Work.Relates R matters (w.linkSource r order) ((w.withDesk d).linkSource r order) := by
  unfold linkSource
  cases r.source with
  | none => exact Work.relates_pure ()
  | some source =>
    exact Work.relates_attempt _ (h.fulfil order.id source)
      fun hmatters => h.fulfil_answer hmatters order.id source

theorem linkBelow_relates (h : w.desk.Relates R matters d) (r : CascadeRequest)
    (order : OrderRef) : ∀ below, Work.Relates R matters (w.linkBelow r order below)
      ((w.withDesk d).linkBelow r order below)
  | [] => Work.relates_pure ()
  | child :: children =>
    (Work.relates_attempt _ (h.precede child.id order.id r.start)
      fun hmatters => h.precede_answer hmatters child.id order.id r.start).bind fun _ =>
        linkBelow_relates h r order children

theorem placeAndLink_relates (h : w.desk.Relates R matters d) (r : CascadeRequest)
    (product : Product) (quantity : Float) (below : List OrderRef) :
    Work.Relates R matters (w.placeAndLink r product quantity below)
      ((w.withDesk d).placeAndLink r product quantity below) := by
  refine (place_relates h _).bind fun order => ?_
  cases order with
  | none => exact Work.relates_pure none
  | some order =>
    refine (linkSource_relates h r order).bind fun _ => ?_
    exact (linkBelow_relates h r order below).bind fun _ => Work.relates_pure _

mutual

/-- The orders of a subtree are placed alike at related desks. -/
theorem order_relates (h : w.desk.Relates R matters d) (r : CascadeRequest)
    (underReplaced ignoreSuppliers : Bool) : ∀ n : Node,
      Work.Relates R matters (n.order w r underReplaced ignoreSuppliers)
        (n.order (w.withDesk d) r underReplaced ignoreSuppliers)
  | .mk self replaced slots => by
    unfold Node.order
    refine (Work.relates_ofNoted _).bind fun made => ?_
    cases made with
    | false => exact Work.relates_pure none
    | true =>
      exact (slotsOrder_relates h r.below slots).bind fun below => placeAndLink_relates h _ _ _ _

/-- The orders below slots are placed alike at related desks. -/
theorem slotsOrder_relates (h : w.desk.Relates R matters d) (r : CascadeRequest) : ∀ s : Slots,
    Work.Relates R matters (s.order w r) (s.order (w.withDesk d) r)
  | .nil => Work.relates_pure []
  | .vacant _ rest => slotsOrder_relates h r rest
  | .filled _ child rest =>
    (order_relates h r false false child).bind fun _ =>
      (slotsOrder_relates h r rest).bind fun _ => Work.relates_pure _

end

/-- A cascade runs alike at related desks. -/
theorem run_relates (h : w.desk.Relates R matters d) (calculator : Option Calculator)
    (r : CascadeRequest) (tree : Tree) {s : σ} {t : τ} (hst : R s t) :
    let run := w.run calculator r tree s
    let run' := (w.withDesk d).run calculator r tree t
    R run.1 run'.1 ∧ run.2.1 = run'.2.1 ∧ run.2.2.outcome = run'.2.2.outcome ∧
      run.2.2.notices.filter matters = run'.2.2.notices.filter matters := by
  unfold run
  dsimp only
  cases (tree.flatten 0 false calculator).2.outcome with
  | error e => exact ⟨hst, rfl, rfl, rfl⟩
  | ok _ =>
    obtain ⟨hstate, houtcome, hnotices⟩ :=
      order_relates h r true true (tree.flatten 0 false calculator).1.root s t hst
    refine ⟨hstate, rfl, houtcome, ?_⟩
    rw [List.filter_append, List.filter_append, hnotices]

/-- A cascade runs alike at desks that mirror each other. -/
theorem run_mirrors {φ : σ → τ} (h : w.desk.Mirrors φ d) (calculator : Option Calculator)
    (r : CascadeRequest) (t : Tree) (s : σ) : (w.withDesk d).run calculator r t (φ s) =
      (φ (w.run calculator r t s).1, (w.run calculator r t s).2) := by
  obtain ⟨hstate, htree, houtcome, hnotices⟩ := run_relates h.relates calculator r t (s := s) rfl
  rw [List.filter_eq_self.2 fun _ _ => rfl, List.filter_eq_self.2 fun _ _ => rfl] at hnotices
  exact Prod.ext hstate (Prod.ext htree.symm (Noted.ext hnotices.symm houtcome.symm))

end Workshop

end Bom
