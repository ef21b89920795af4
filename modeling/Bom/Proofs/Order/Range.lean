import Bom.Order.Memory
import Bom.Proofs.Calendar.Range
import Bom.Proofs.Tables.Placement
import Bom.Proofs.Tree.Schedule

/-!
# When scheduling leads out of the calendar

Lead times are kept and accepted whatever their size, as long as they are finite, and only the span
and the calendar bound them. So an order can be asked for that would be complete at no date of the
calendar, and a node can be due before it can be begun. Neither is answered with a refusal: the work
ends with `outOfCalendar`.

* `OrderBook.place_lost_iff`, `Database.place_lost_iff`: the orders that come to this.
* `Node.Begins`: which products a start date has begun, and when each of them is due.
* `Node.startDate_lost_iff`: one of them has a lead time that leads out of the calendar.
* `Node.startDate_lost_iff_seconds`: without negative lead times it is their sum that counts.
* `scheduling_lost_iff`: all of these together.
-/

namespace Bom

/-! ## Orders -/

/-- A desk in memory comes to no date of the calendar just when it does not refuse the product and
the lead time of the product leads out of the calendar. -/
theorem OrderBook.place_lost_iff (d : DeskSettings) (r : OrderRequest) (b : OrderBook) :
    (place d r b).2 = .error .outOfCalendar ↔
      r.product ∉ d.refused ∧ r.start.IsLost true (d.leadTime r.product) := by
  unfold place
  rw [← DateTime.after?_eq_none_iff]
  split
  · next hrefused => simp [hrefused]
  · next htaken => cases r.start.after? (d.leadTime r.product) <;> simp [htaken]

/-- A fault of the tables is a refusal. -/
theorem mapError_refused_ne_lost {α : Type} {result : Except StoreError α} :
    result.mapError PlacingError.refused ≠ .error .outOfCalendar := by
  cases result <;> nofun

/-- A desk with tables comes to no date of the calendar just when the quantity can be used and the
lead time that the catalogue states, or else the default, leads out of the calendar. -/
theorem Database.place_lost_iff (supply : IdSupply) (defaultLeadTime : Float)
    (now now' : DateTime) (r : OrderRequest) (db : Database) :
    (place supply defaultLeadTime now r db).2 = .error .outOfCalendar ↔
      r.quantity.isFinite = true ∧ ¬ r.quantity < 0.0 ∧
        ∃ lead, (db.catalogue now').leadTime r.product r.facility = .ok lead ∧
          r.start.IsLost true (lead.getD defaultLeadTime) := by
  have hstated : db.leadTimeOr defaultLeadTime r.product r.facility =
      ((db.catalogue now').leadTime r.product r.facility).map (·.getD defaultLeadTime) := rfl
  unfold place
  rw [hstated]
  split
  · next hunusable =>
    refine iff_of_false nofun ?_
    rintro ⟨hfinite, hsign, -⟩
    simp [hfinite, hsign] at hunusable
  · next husable =>
    have hquantity : r.quantity.isFinite = true ∧ ¬ r.quantity < 0.0 := by simpa using husable
    cases (db.catalogue now').leadTime r.product r.facility with
    | error e => simp [Except.map]
    | ok lead =>
      simp only [Except.map, Except.ok.injEq, exists_eq_left', hquantity, not_false_eq_true,
        true_and, ← DateTime.after?_eq_none_iff]
      cases r.start.after? (lead.getD defaultLeadTime) with
      | none => simp
      | some completion => exact iff_of_false mapError_refused_ne_lost nofun

/-! ## Start dates -/

section

variable {c : Catalogue} {facility : Option String}

/-- What a catalogue answers with is not about dates. -/
theorem ask_ne_lost {α : Type} {answer : Except StoreError α} :
    ask answer ≠ .error .outOfCalendar := by
  cases answer <;> nofun

/-- A date that is known is not lost. -/
theorem pure_ne_lost {time : DateTime} :
    (pure time : Except EngineError DateTime) ≠ .error .outOfCalendar := nofun

/-- A product cannot be begun in time just when the lead time that the catalogue states for it leads
out of the calendar. -/
theorem beginBefore_lost_iff {product : String} {due : DateTime} :
    beginBefore c facility product due = .error .outOfCalendar ↔
      ∃ lead, c.leadTime product facility = .ok lead ∧ due.IsLost false (lead.getD 0.0) := by
  unfold beginBefore
  rw [bind_eq_error]
  simp only [← DateTime.before?_eq_none_iff, ask_ne_lost, ask_eq_ok, false_or]
  refine exists_congr fun lead => and_congr_right fun _ => ?_
  cases due.before? (lead.getD 0.0) with
  | none => exact iff_of_true rfl rfl
  | some start => exact iff_of_false pure_ne_lost (Option.some_ne_none start)

variable (c facility)

mutual

/-- The start date of a node has the product begun so that it is ready when it is due at the given
time. -/
inductive Node.Begins : DateTime → Bool → Node → String → DateTime → Prop
  | own {due forced self replaced slots} : (self.product.isWip || forced) = true →
      Node.Begins due forced (.mk self replaced slots) self.product.id due
  | deeper {due start forced self replaced slots product time} :
      (self.product.isWip || forced) = true →
      beginBefore c facility self.product.id due = .ok start →
      Slots.Begins start slots product time →
      Node.Begins due forced (.mk self replaced slots) product time

/-- The start date of slots has the product begun so that it is ready when it is due at the given
time. -/
inductive Slots.Begins : DateTime → Slots → String → DateTime → Prop
  | vacant {earliest edge rest product time} : Slots.Begins earliest rest product time →
      Slots.Begins earliest (.vacant edge rest) product time
  | child {earliest edge child rest product time} : Node.Begins earliest false child product time →
      Slots.Begins earliest (.filled edge child rest) product time
  | rest {earliest start edge child rest product time} :
      child.startDate c facility earliest false = .ok start →
      Slots.Begins (if start < earliest then start else earliest) rest product time →
      Slots.Begins earliest (.filled edge child rest) product time

end

variable {c facility}

mutual

/-- A start date leads out of the calendar just when one of the products that it has begun cannot be
begun in time. -/
theorem Node.startDate_lost_iff {due : DateTime} {forced : Bool} : ∀ {n : Node},
    n.startDate c facility due forced = .error .outOfCalendar ↔
      ∃ product time, n.Begins c facility due forced product time ∧
        beginBefore c facility product time = .error .outOfCalendar
  | .mk self replaced slots => by
    rw [Node.startDate]
    by_cases hbegun : (self.product.isWip || forced) = true
    · rw [if_pos hbegun, bind_eq_error]
      constructor
      · rintro (hown | ⟨start, hstart, hbelow⟩)
        · exact ⟨_, _, .own hbegun, hown⟩
        · obtain ⟨product, time, hbegins, hlost⟩ := Slots.startDate_lost_iff.1 hbelow
          exact ⟨product, time, .deeper hbegun hstart hbegins, hlost⟩
      · rintro ⟨product, time, hbegins, hlost⟩
        cases hbegins with
        | own _ => exact .inl hlost
        | deeper _ hstart hbegins =>
          exact .inr ⟨_, hstart, Slots.startDate_lost_iff.2 ⟨product, time, hbegins, hlost⟩⟩
    · rw [if_neg hbegun]
      refine iff_of_false pure_ne_lost ?_
      rintro ⟨product, time, hbegins, -⟩
      cases hbegins <;> contradiction

/-- The start date of slots leads out of the calendar just when one of the products that it has
begun cannot be begun in time. -/
theorem Slots.startDate_lost_iff {earliest : DateTime} : ∀ {s : Slots},
    s.startDate c facility earliest = .error .outOfCalendar ↔
      ∃ product time, s.Begins c facility earliest product time ∧
        beginBefore c facility product time = .error .outOfCalendar
  | .nil => by
    refine iff_of_false pure_ne_lost ?_
    rintro ⟨product, time, ⟨⟩, -⟩
  | .vacant edge rest => by
    rw [Slots.startDate, rest.startDate_lost_iff]
    constructor
    · rintro ⟨product, time, hbegins, hlost⟩
      exact ⟨product, time, .vacant hbegins, hlost⟩
    · rintro ⟨product, time, ⟨hbegins⟩, hlost⟩
      exact ⟨product, time, hbegins, hlost⟩
  | .filled edge child rest => by
    rw [Slots.startDate, bind_eq_error]
    constructor
    · rintro (hchild | ⟨start, hstart, hrest⟩)
      · obtain ⟨product, time, hbegins, hlost⟩ := Node.startDate_lost_iff.1 hchild
        exact ⟨product, time, .child hbegins, hlost⟩
      · obtain ⟨product, time, hbegins, hlost⟩ := Slots.startDate_lost_iff.1 hrest
        exact ⟨product, time, .rest hstart hbegins, hlost⟩
    · rintro ⟨product, time, hbegins, hlost⟩
      cases hbegins with
      | child hbegins =>
        exact .inl (Node.startDate_lost_iff.2 ⟨product, time, hbegins, hlost⟩)
      | rest hstart hbegins =>
        exact .inr ⟨_, hstart, Slots.startDate_lost_iff.2 ⟨product, time, hbegins, hlost⟩⟩

end

/-! ## Lead times that add up -/

/-- The catalogue states no negative lead time and none that is too long, and never fails to answer.
-/
def Catalogue.StatesSpans (c : Catalogue) (facility : Option String) : Prop :=
  ∀ product, ∃ lead, c.leadTime product facility = .ok lead ∧ ¬ lead.getD 0.0 < 0.0 ∧
    ¬ IsTooLong (lead.getD 0.0)

/-- Outside leap seconds, instants that are whole seconds apart lie in seconds that are. -/
theorem DateTime.wholeSecond_eq {t u : DateTime} {seconds : Int} (ht : t.inLeapSecond = false)
    (hu : u.inLeapSecond = false) (h : t.instant = u.instant - seconds * 2000000000) :
    t.wholeSecond = u.wholeSecond - seconds := by
  simp only [inLeapSecond, decide_eq_false_iff_not] at ht hu
  unfold instant at h
  unfold wholeSecond
  omega

/-- The earlier of two instants lies in the second of the one that lies in the earlier second. -/
theorem DateTime.wholeSecond_earlier {t u : DateTime} (h : u.wholeSecond ≤ t.wholeSecond) :
    (t.earlier u).wholeSecond = u.wholeSecond := by
  unfold earlier
  split
  · rfl
  · next hlate =>
    have hle : t.instant ≤ u.instant := Int.not_lt.1 hlate
    have hnano := u.nano_lt
    unfold instant at hle
    unfold wholeSecond at h ⊢
    omega

variable (hc : c.StatesSpans facility)

include hc

/-- The seconds of the lead time that the catalogue states. -/
theorem Catalogue.StatesSpans.leadSeconds (product : String) :
    ∃ lead, c.leadTime product facility = .ok lead ∧
      spanSeconds? (lead.getD 0.0) = some (c.leadSeconds facility product) ∧
      0 ≤ c.leadSeconds facility product := by
  obtain ⟨lead, hlead, hsign, hlength⟩ := hc product
  rw [← spanSeconds?_eq_none_iff] at hlength
  obtain ⟨seconds, hseconds⟩ := Option.ne_none_iff_exists'.1 hlength
  have hsame : c.leadSeconds facility product = seconds := by
    unfold Catalogue.leadSeconds
    rw [hlead]
    simp only [hseconds, Option.getD_some]
  rw [hsame]
  exact ⟨lead, hlead, hseconds, spanSeconds_nonneg hsign hseconds⟩

/-- A product is begun its lead time before it is due, if the calendar goes back as far. -/
theorem beginBefore_cases (product : String) {due : DateTime} (hdue : due.inLeapSecond = false) :
    (due.wholeSecond - c.leadSeconds facility product < firstSecond ∧
      beginBefore c facility product due = .error .outOfCalendar) ∨
    ∃ start, beginBefore c facility product due = .ok start ∧ start.inLeapSecond = false ∧
      start.wholeSecond = due.wholeSecond - c.leadSeconds facility product := by
  obtain ⟨lead, hlead, hspan, hnonneg⟩ := hc.leadSeconds product
  cases hstart : due.before? (lead.getD 0.0) with
  | none =>
    have hlost := DateTime.before?_eq_none_iff.1 hstart
    refine .inl ⟨?_, beginBefore_lost_iff.2 ⟨lead, hlead, hlost⟩⟩
    rw [DateTime.before?, hspan, Option.bind_some, DateTime.shift?_eq_none_iff] at hstart
    have hlast := due.bounds_wholeSecond
    simp only [DateTime.secondAway, hdue, Bool.false_eq_true, false_and, if_false] at hstart
    omega
  | some start =>
    have hbegin : beginBefore c facility product due = .ok start := by
      unfold beginBefore
      rw [hlead]
      exact bind_eq_ok.2 ⟨lead, rfl, by rw [hstart]; rfl⟩
    obtain ⟨hinstant, hleap⟩ := beginBefore_instant hdue hbegin
    exact .inr ⟨start, hbegin, hleap, DateTime.wholeSecond_eq hleap hdue hinstant⟩

/-- What a node takes in turn is no negative time. -/
theorem Node.secondsInTurn_nonneg (n : Node) (forced : Bool) :
    0 ≤ n.secondsInTurn (c.leadSeconds facility) forced := by
  obtain ⟨self, _, slots⟩ := n
  obtain ⟨-, -, -, hnonneg⟩ := hc.leadSeconds self.product.id
  have hbelow := slots.seconds_nonneg (c.leadSeconds facility)
  rw [Node.secondsInTurn]
  split <;> omega

mutual

/-- A node is begun as long before it is due as it takes in turn, if the calendar goes back as far.
-/
theorem Node.startDate_cases {due : DateTime} {forced : Bool} (hdue : due.inLeapSecond = false) :
    ∀ {n : Node}, (due.wholeSecond - n.secondsInTurn (c.leadSeconds facility) forced < firstSecond ∧
      n.startDate c facility due forced = .error .outOfCalendar) ∨
    ∃ start, n.startDate c facility due forced = .ok start ∧ start.inLeapSecond = false ∧
      start.wholeSecond = due.wholeSecond - n.secondsInTurn (c.leadSeconds facility) forced
  | .mk self replaced slots => by
    rw [Node.startDate, Node.secondsInTurn]
    by_cases hbegun : (self.product.isWip || forced) = true
    · rw [if_pos hbegun, if_pos hbegun]
      have hbelow := slots.seconds_nonneg (c.leadSeconds facility)
      rcases beginBefore_cases hc self.product.id hdue with
        ⟨hearly, hlost⟩ | ⟨own, hown, hleap, hsecond⟩
      · exact .inl ⟨by omega, bind_eq_error.2 (.inl hlost)⟩
      · rcases slots.startDate_cases hleap with ⟨hearly, hlost⟩ | ⟨start, hstart, hleap, hbefore⟩
        · exact .inl ⟨by omega, bind_eq_error.2 (.inr ⟨own, hown, hlost⟩)⟩
        · exact .inr ⟨start, bind_eq_ok.2 ⟨own, hown, hstart⟩, hleap, by omega⟩
    · rw [if_neg hbegun, if_neg hbegun]
      exact .inr ⟨due, rfl, hdue, by omega⟩

/-- The earliest start is brought forward by what the nodes in slots take in turn, if the calendar
goes back as far. -/
theorem Slots.startDate_cases {earliest : DateTime} (hearliest : earliest.inLeapSecond = false) :
    ∀ s : Slots, (earliest.wholeSecond - s.secondsInTurn (c.leadSeconds facility) < firstSecond ∧
      s.startDate c facility earliest = .error .outOfCalendar) ∨
    ∃ start, s.startDate c facility earliest = .ok start ∧ start.inLeapSecond = false ∧
      start.wholeSecond = earliest.wholeSecond - s.secondsInTurn (c.leadSeconds facility)
  | .nil => .inr ⟨earliest, rfl, hearliest, by rw [Slots.secondsInTurn]; omega⟩
  | .vacant _ rest => rest.startDate_cases hearliest
  | .filled _ child rest => by
    have hchild := child.secondsInTurn_nonneg hc false
    have hrest := rest.seconds_nonneg (c.leadSeconds facility)
    rw [Slots.startDate, Slots.secondsInTurn]
    rcases Node.startDate_cases hearliest (n := child) with
      ⟨hearly, hlost⟩ | ⟨first, hfirst, hleap, hsecond⟩
    · exact .inl ⟨by omega, bind_eq_error.2 (.inl hlost)⟩
    · -- the child is begun no later than the earliest start so far
      have hleap' : (earliest.earlier first).inLeapSecond = false :=
        DateTime.earlier_inLeapSecond hearliest hleap
      have hsecond' : (earliest.earlier first).wholeSecond = first.wholeSecond :=
        DateTime.wholeSecond_earlier (by omega)
      rcases rest.startDate_cases hleap' with ⟨hearly, hlost⟩ | ⟨start, hstart, hleap, hbefore⟩
      · exact .inl ⟨by omega, bind_eq_error.2 (.inr ⟨first, hfirst, hlost⟩)⟩
      · exact .inr ⟨start, bind_eq_ok.2 ⟨first, hfirst, hstart⟩, hleap, by omega⟩

end

/-- Where no lead time is negative or too long, a start date leads out of the calendar just when
what the node takes in turn reaches back beyond the first second. -/
theorem Node.startDate_lost_iff_seconds {due : DateTime} {forced : Bool} {n : Node}
    (hdue : due.inLeapSecond = false) :
    n.startDate c facility due forced = .error .outOfCalendar ↔
      due.wholeSecond - n.secondsInTurn (c.leadSeconds facility) forced < firstSecond := by
  rcases @Node.startDate_cases _ _ hc _ forced hdue n with
    ⟨hearly, hlost⟩ | ⟨start, hstart, -, hsecond⟩
  · exact iff_of_true hlost hearly
  · rw [hstart]
    have hfirst := start.bounds_wholeSecond.1
    exact iff_of_false nofun (by omega)

end

/-! ## All of it -/

/-- Scheduling ends outside the calendar in just these cases. A desk that takes an order does when
the lead time of the order, the stated one or the default, is finite and either too long for a span
or leads to a second before the first or after the last one of the calendar. A start date does when
this happens, going back, to one of the products that it has begun. Where no lead time is negative
or too long, this comes down to what the nodes take in turn. -/
theorem scheduling_lost_iff (d : DeskSettings) (b : OrderBook) (supply : IdSupply)
    (defaultLeadTime : Float) (now now' : DateTime) (db : Database) (r : OrderRequest)
    (c : Catalogue) (facility : Option String) (due : DateTime) (forced : Bool) (n : Node) :
    (((OrderBook.desk d).place r b).2 = .error .outOfCalendar ↔
      r.product ∉ d.refused ∧ r.start.IsLost true (d.leadTime r.product)) ∧
    (((Database.desk supply defaultLeadTime now).place r db).2 = .error .outOfCalendar ↔
      r.quantity.isFinite = true ∧ ¬ r.quantity < 0.0 ∧
        ∃ lead, (db.catalogue now').leadTime r.product r.facility = .ok lead ∧
          r.start.IsLost true (lead.getD defaultLeadTime)) ∧
    (n.startDate c facility due forced = .error .outOfCalendar ↔
      ∃ product time lead, n.Begins c facility due forced product time ∧
        c.leadTime product facility = .ok lead ∧ time.IsLost false (lead.getD 0.0)) ∧
    (c.StatesSpans facility → due.inLeapSecond = false →
      (n.startDate c facility due forced = .error .outOfCalendar ↔
        due.wholeSecond - n.secondsInTurn (c.leadSeconds facility) forced < firstSecond)) := by
  refine ⟨OrderBook.place_lost_iff d r b,
    Database.place_lost_iff supply defaultLeadTime now now' r db, ?_, fun hc hdue => Node.startDate_lost_iff_seconds hc hdue⟩
  rw [Node.startDate_lost_iff]
  simp only [beginBefore_lost_iff, exists_and_left]

/-- The lead times of the joinery are short. -/
theorem MemoryCatalogue.joinery_statesSpans : joinery.catalogue.StatesSpans none := by
  intro product
  have hleads : ∀ lead ∈ none :: joinery.facilities.map (·.leadTime),
      ¬ lead.getD 0.0 < 0.0 ∧ spanSeconds? (lead.getD 0.0) ≠ none := by
    decide +kernel
  let found := (joinery.facilities.filter fun r => r.product = product && r.isAt none).findSome?
    (·.leadTime)
  have hmem : found ∈ none :: joinery.facilities.map (·.leadTime) := by
    cases hfound : found with
    | none => exact List.mem_cons_self
    | some days =>
      obtain ⟨r, hr, hdays⟩ := List.exists_of_findSome?_eq_some hfound
      rw [← hdays]
      exact List.mem_cons_of_mem _ (List.mem_map_of_mem (List.mem_of_mem_filter hr))
  refine ⟨found, rfl, (hleads found hmem).1, ?_⟩
  rw [← spanSeconds?_eq_none_iff]
  exact (hleads found hmem).2

/-- The fifth day of the calendar. -/
def DateTime.fifthDay : DateTime :=
  { epoch with
    day := firstDay + 4
    firstDay_le := by decide
    le_lastDay := by decide }

/-- A table takes five days in turn, and so it cannot be due on the fifth day of the calendar. -/
theorem table_lost :
    let c := MemoryCatalogue.joinery.catalogue
    ∃ t, (buildTree c 3 (.sample "table")).outcome = .ok t ∧
      t.root.startDate c none .fifthDay true = .error .outOfCalendar := by
  intro c
  have hseconds : (buildTree c 3 (.sample "table")).outcome.toOption.any (fun t =>
      DateTime.fifthDay.wholeSecond - t.root.secondsInTurn (c.leadSeconds none) true < firstSecond)
        = true := by
    decide +kernel
  obtain ⟨t, ht, hearly⟩ := exists_of_any hseconds
  have hlost := (scheduling_lost_iff .standard .empty .counted 0.0 .epoch .epoch .empty
    (.sampleCabinet .epoch) c none .fifthDay true t.root).2.2.2
  exact ⟨t, ht, (hlost MemoryCatalogue.joinery_statesSpans (by decide)).2
    (of_decide_eq_true hearly)⟩

/-- A lead time of 10¹⁷ days is kept for a facility and accepted as the default, and an order with
it comes to no date of the calendar. -/
theorem Database.endless_cabinet :
    let stated := ((empty.setUp "1970-01-01 00:00:00").putFacility "cabinet" "shop" (some 1e17)
      none).1
    let set := ((empty.setUp "1970-01-01 00:00:00").setSetting leadTimeKey "1e17").1
    ((desk .counted 0.0 .epoch).place (.sampleCabinet .epoch) stated).2 = .error .outOfCalendar ∧
      ∃ s, set.settings.outcome = .ok s ∧ s.leadTime = 1e17 ∧
        ((desk .counted s.leadTime .epoch).place (.sampleCabinet .epoch) set).2 =
          .error .outOfCalendar := by
  intro stated set
  have hset : set.settings.outcome.toOption.any (fun s => s.leadTime = 1e17 ∧
      ((desk .counted s.leadTime .epoch).place (.sampleCabinet .epoch) set).2 =
        .error .outOfCalendar) = true := by
    decide +kernel
  obtain ⟨s, hs, hlost⟩ := exists_of_any hset
  obtain ⟨hlead, hlost⟩ := of_decide_eq_true hlost
  exact ⟨by decide +kernel, s, hs, hlead, hlost⟩

end Bom
