import Bom.Manufacture
import Bom.Proofs.Calendar
import Bom.Proofs.Tree.Run

/-!
# Scheduling backwards

A node is begun its lead time before it is due, and the nodes below it should all be due at that
moment: `Node.ownStart` says when the first of them is begun then. `Node.startDate` hands the
earliest start found so far on to the next node instead, so nodes that stand side by side are begun
one after the other.

Outside leap seconds both are a matter of adding up whole seconds. What the nodes in the slots take
counts in turn for the one (`Node.startDate_instant`) and at once for the other
(`Node.ownStart_instant`). So a start date is never too late, and it is right exactly if below each
node at most one takes any time (`Node.startDate_eq_ownStart_iff`). With a top and a frame to be
made for a table it is not (`table_start`).

* `Node.ownStart`: the start when each node is due at the start of the one above it.
* `Node.secondsInTurn`, `Node.secondsAtOnce`: how long a node takes with what lies below it.
* `Node.IsChain`: below each node at most one takes any time.
-/

namespace Bom

/-! ## Each node due at the start of the one above it -/

/-- The earlier of two instants. -/
def DateTime.earlier (t u : DateTime) : DateTime := if u < t then u else t

mutual

/-- When the first thing in the subtree has to be begun if each node below is due at the start of
the node above it. Only work in process, or a node that is forced, is begun before it is due. -/
def Node.ownStart (c : Catalogue) (facility : Option String) (due : DateTime) (forced : Bool) :
    Node → Except EngineError DateTime
  | .mk self _ slots =>
    if self.product.isWip || forced then do
      let start ← beginBefore c facility self.product.id due
      let below ← slots.ownStarts c facility start
      pure (below.foldl DateTime.earlier start)
    else pure due

/-- The starts of the nodes in slots that are all due at the same time. -/
def Slots.ownStarts (c : Catalogue) (facility : Option String) (due : DateTime) :
    Slots → Except EngineError (List DateTime)
  | .nil => pure []
  | .vacant _ rest => rest.ownStarts c facility due
  | .filled _ child rest => do
    let start ← child.ownStart c facility due false
    let starts ← rest.ownStarts c facility due
    pure (start :: starts)

end

/-! ## How long a node takes -/

/-- The whole seconds of the lead time of a product, 0 if none can be told. -/
def Catalogue.leadSeconds (c : Catalogue) (facility : Option String) (product : String) : Int :=
  match c.leadTime product facility with
  | .ok lead => (spanSeconds? (lead.getD 0.0)).getD 0
  | .error _ => 0

section

variable (lead : String → Int)

mutual

/-- The seconds for a node and what lies below it, when the nodes in the slots take their time one
after the other. -/
def Node.secondsInTurn (forced : Bool) : Node → Int
  | .mk self _ slots =>
    if self.product.isWip || forced then lead self.product.id + slots.secondsInTurn else 0

/-- The seconds for the nodes in slots one after the other. A node that would be begun after it is
due takes no time. -/
def Slots.secondsInTurn : Slots → Int
  | .nil => 0
  | .vacant _ rest => rest.secondsInTurn
  | .filled _ child rest => max (child.secondsInTurn false) 0 + rest.secondsInTurn

end

mutual

/-- The seconds for a node and what lies below it, when the nodes in the slots take their time
together. -/
def Node.secondsAtOnce (forced : Bool) : Node → Int
  | .mk self _ slots =>
    if self.product.isWip || forced then lead self.product.id + slots.secondsAtOnce else 0

/-- The seconds for the slowest of the nodes in slots. -/
def Slots.secondsAtOnce : Slots → Int
  | .nil => 0
  | .vacant _ rest => rest.secondsAtOnce
  | .filled _ child rest => max (child.secondsAtOnce false) rest.secondsAtOnce

end

mutual

/-- Below each node that is begun before it is due at most one takes any time. -/
def Node.IsChain (forced : Bool) : Node → Prop
  | .mk self _ slots => self.product.isWip = true ∨ forced = true → slots.IsChain

/-- At most one of the nodes in slots takes any time, and below that one the same holds. -/
def Slots.IsChain : Slots → Prop
  | .nil => True
  | .vacant _ rest => rest.IsChain
  | .filled _ child rest =>
    child.secondsInTurn lead false ≤ 0 ∧ rest.IsChain ∨
      child.IsChain false ∧ rest.secondsInTurn lead = 0

end

theorem Slots.seconds_nonneg (s : Slots) :
    0 ≤ s.secondsInTurn lead ∧ 0 ≤ s.secondsAtOnce lead := by
  cases s with
  | nil => exact ⟨Int.le_refl 0, Int.le_refl 0⟩
  | vacant _ rest => exact rest.seconds_nonneg
  | filled _ child rest =>
    have := rest.seconds_nonneg
    rw [Slots.secondsInTurn, Slots.secondsAtOnce]
    omega

mutual

/-- Together nodes take no longer than in turn, and as long only in a chain. -/
theorem Node.secondsAtOnce_le (forced : Bool) : ∀ n : Node,
    n.secondsAtOnce lead forced ≤ n.secondsInTurn lead forced ∧
      (n.secondsInTurn lead forced = n.secondsAtOnce lead forced ↔ n.IsChain lead forced)
  | .mk self replaced slots => by
    obtain ⟨hle, hchain⟩ := slots.secondsAtOnce_le
    rw [Node.secondsAtOnce, Node.secondsInTurn, Node.IsChain, ← Bool.or_eq_true, ← hchain]
    cases self.product.isWip || forced with
    | false => simp
    | true =>
      simp only [if_true, forall_const]
      omega

theorem Slots.secondsAtOnce_le : ∀ s : Slots,
    s.secondsAtOnce lead ≤ s.secondsInTurn lead ∧
      (s.secondsInTurn lead = s.secondsAtOnce lead ↔ s.IsChain lead)
  | .nil => ⟨Int.le_refl 0, iff_of_true rfl trivial⟩
  | .vacant _ rest => rest.secondsAtOnce_le
  | .filled _ child rest => by
    obtain ⟨hchild, hchildChain⟩ := child.secondsAtOnce_le false
    obtain ⟨hrest, hrestChain⟩ := rest.secondsAtOnce_le
    have hnonneg := rest.seconds_nonneg lead
    rw [Slots.secondsAtOnce, Slots.secondsInTurn, Slots.IsChain, ← hchildChain, ← hrestChain]
    omega

end

end

/-! ## Starts as seconds before a node is due -/

theorem DateTime.earlier_instant (t u : DateTime) :
    (t.earlier u).instant = min t.instant u.instant := by
  unfold earlier
  by_cases h : u < t
  · rw [if_pos h]
    exact (Int.min_eq_right (Int.le_of_lt h)).symm
  · rw [if_neg h]
    exact (Int.min_eq_left (Int.not_lt.1 h)).symm

theorem DateTime.earlier_inLeapSecond {t u : DateTime} (ht : t.inLeapSecond = false)
    (hu : u.inLeapSecond = false) : (t.earlier u).inLeapSecond = false := by
  unfold earlier
  split
  · exact hu
  · exact ht

section

variable {c : Catalogue} {facility : Option String}

/-- A node is begun its lead time before it is due, in whole seconds. -/
theorem beginBefore_instant {product : String} {due start : DateTime}
    (hdue : due.inLeapSecond = false) (h : beginBefore c facility product due = .ok start) :
    start.instant = due.instant - c.leadSeconds facility product * 2000000000 ∧
      start.inLeapSecond = false := by
  unfold beginBefore at h
  obtain ⟨lead, hlead, h⟩ := bind_eq_ok.1 h
  rw [ask_eq_ok] at hlead
  unfold DateTime.before? at h
  cases hseconds : spanSeconds? (lead.getD 0.0) with
  | none =>
    rw [hseconds] at h
    cases h
  | some seconds =>
    rw [hseconds, Option.bind_some] at h
    have hspan : c.leadSeconds facility product = seconds := by
      unfold Catalogue.leadSeconds
      rw [hlead]
      simp only [hseconds, Option.getD_some]
    cases hshift : due.shift? (-seconds) with
    | none =>
      rw [hshift] at h
      cases h
    | some found =>
      rw [hshift] at h
      cases h
      obtain ⟨hinstant, hleap⟩ := DateTime.instant_shift hdue hshift
      refine ⟨?_, hleap⟩
      rw [hspan]
      omega

mutual

/-- A start date lies as far before the due date as the node takes in turn. -/
theorem Node.startDate_instant {due start : DateTime} {forced : Bool} : ∀ {n : Node},
    due.inLeapSecond = false → n.startDate c facility due forced = .ok start →
      start.instant =
          due.instant - n.secondsInTurn (c.leadSeconds facility) forced * 2000000000 ∧
        start.inLeapSecond = false
  | .mk self _ slots, hdue, h => by
    rw [Node.startDate] at h
    rw [Node.secondsInTurn]
    by_cases hbegun : (self.product.isWip || forced) = true
    · rw [if_pos hbegun] at h ⊢
      obtain ⟨own, hown, h⟩ := bind_eq_ok.1 h
      obtain ⟨hstart, hleap⟩ := beginBefore_instant hdue hown
      obtain ⟨hbelow, hleft⟩ := slots.startDate_instant hleap h
      exact ⟨by omega, hleft⟩
    · rw [if_neg hbegun] at h ⊢
      cases h
      exact ⟨by omega, hdue⟩

/-- The earliest start so far is brought forward by what the nodes in slots take in turn. -/
theorem Slots.startDate_instant {earliest start : DateTime} : ∀ (s : Slots),
    earliest.inLeapSecond = false → s.startDate c facility earliest = .ok start →
      start.instant =
          earliest.instant - s.secondsInTurn (c.leadSeconds facility) * 2000000000 ∧
        start.inLeapSecond = false
  | .nil, hleap, h => by
    cases h
    exact ⟨by rw [Slots.secondsInTurn]; omega, hleap⟩
  | .vacant _ rest, hleap, h => rest.startDate_instant hleap h
  | .filled _ child rest, hleap, h => by
    obtain ⟨first, hfirst, h⟩ := bind_eq_ok.1 h
    obtain ⟨hinstant, hfirstLeap⟩ := child.startDate_instant hleap hfirst
    obtain ⟨hrest, hleft⟩ :=
      rest.startDate_instant (DateTime.earlier_inLeapSecond hleap hfirstLeap) h
    rw [DateTime.earlier_instant] at hrest
    rw [Slots.secondsInTurn]
    exact ⟨by omega, hleft⟩

end

mutual

/-- The start of a node with all below it due at their own times lies as far before the due date as
they take at once. -/
theorem Node.ownStart_instant {due start : DateTime} {forced : Bool} : ∀ {n : Node},
    due.inLeapSecond = false → n.ownStart c facility due forced = .ok start →
      start.instant =
        due.instant - n.secondsAtOnce (c.leadSeconds facility) forced * 2000000000
  | .mk self _ slots, hdue, h => by
    rw [Node.ownStart] at h
    rw [Node.secondsAtOnce]
    by_cases hbegun : (self.product.isWip || forced) = true
    · rw [if_pos hbegun] at h ⊢
      obtain ⟨own, hown, h⟩ := bind_eq_ok.1 h
      obtain ⟨below, hbelow, h⟩ := bind_eq_ok.1 h
      cases h
      obtain ⟨hstart, hleap⟩ := beginBefore_instant hdue hown
      have hearliest := slots.ownStarts_instant hleap hbelow own (Int.le_refl _)
      have hnonneg := slots.seconds_nonneg (c.leadSeconds facility)
      rw [hearliest]
      omega
    · rw [if_neg hbegun] at h ⊢
      cases h
      omega

/-- The earliest start of nodes in slots that are due at the same time is that of the slowest. -/
theorem Slots.ownStarts_instant {due : DateTime} {starts : List DateTime} : ∀ (s : Slots),
    due.inLeapSecond = false → s.ownStarts c facility due = .ok starts →
      ∀ t : DateTime, t.instant ≤ due.instant →
        (starts.foldl DateTime.earlier t).instant = min t.instant
          (due.instant - s.secondsAtOnce (c.leadSeconds facility) * 2000000000)
  | .nil, _, h, t, ht => by
    cases h
    rw [Slots.secondsAtOnce, List.foldl_nil]
    omega
  | .vacant _ rest, hleap, h, t, ht => rest.ownStarts_instant hleap h t ht
  | .filled _ child rest, hleap, h, t, ht => by
    obtain ⟨first, hfirst, h⟩ := bind_eq_ok.1 h
    obtain ⟨others, hothers, h⟩ := bind_eq_ok.1 h
    cases h
    have hinstant := child.ownStart_instant hleap hfirst
    have hearlier := DateTime.earlier_instant t first
    rw [List.foldl_cons, rest.ownStarts_instant hleap hothers _ (by omega), Slots.secondsAtOnce]
    omega

end

/-- Outside leap seconds a start date is never later than the start with all nodes below due at
their own times, and it is that start exactly if below each node at most one takes any time. -/
theorem Node.startDate_eq_ownStart_iff {n : Node} {due start own : DateTime} {forced : Bool}
    (hdue : due.inLeapSecond = false) (hstart : n.startDate c facility due forced = .ok start)
    (hown : n.ownStart c facility due forced = .ok own) :
    start ≤ own ∧ (start = own ↔ n.IsChain (c.leadSeconds facility) forced) := by
  obtain ⟨hinTurn, -⟩ := Node.startDate_instant hdue hstart
  have hatOnce := Node.ownStart_instant hdue hown
  obtain ⟨hle, hchain⟩ := n.secondsAtOnce_le (c.leadSeconds facility) forced
  constructor
  · change start.instant ≤ own.instant
    omega
  · rw [← hchain, ← DateTime.instant_inj]
    omega

end

/-! ## A table

A table has a top, made of a board, and a frame. All three are work in process, and the board takes
one day, the top and the frame two days each. -/

/-- The catalogue with the bill of a table. -/
def MemoryCatalogue.joinery : MemoryCatalogue :=
  let inWork (id : String) : Product := { sampleProduct id false with kind := .workInProcess }
  let c : MemoryCatalogue := { empty with
    products := [sampleProduct "table" false, inWork "top", inWork "board", inWork "frame"]
    edges := [sampleEdge "table" "top" 1, sampleEdge "table" "frame" 2,
      sampleEdge "top" "board" 1] }
  ((c.addLeadTime "top" "shop" 2.0).addLeadTime "board" "shop" 1.0).addLeadTime "frame" "shop" 2.0

/-- Midnight before the given day of January 2000. -/
def DateTime.january (day : Nat) (h : day ≤ 31 := by decide) : DateTime :=
  { epoch with
    day := 10956 + day
    firstDay_le := by unfold firstDay; omega
    le_lastDay := by unfold lastDay; omega }

/-- A top is begun three days before it is due, and nothing stands side by side in it. -/
theorem top_start :
    let c := MemoryCatalogue.joinery.catalogue
    ∃ t, (buildTree c 3 (.sample "top")).outcome = .ok t ∧
      t.root.startDate c none (.january 10) false = .ok (.january 7) ∧
      t.root.ownStart c none (.january 10) false = .ok (.january 7) ∧
      t.root.IsChain (c.leadSeconds none) false := by
  intro c
  obtain ⟨t, ht⟩ : ∃ t, (buildTree c 3 (.sample "top")).outcome = .ok t := ⟨_, rfl⟩
  have hstarts : (buildTree c 3 (.sample "top")).outcome.toOption.any (fun t =>
      t.root.startDate c none (.january 10) false = .ok (.january 7) ∧
        t.root.ownStart c none (.january 10) false = .ok (.january 7)) = true := by
    decide +kernel
  rw [ht] at hstarts
  obtain ⟨hstart, hown⟩ := of_decide_eq_true hstarts
  exact ⟨t, ht, hstart, hown,
    (Node.startDate_eq_ownStart_iff (by decide) hstart hown).2.1 rfl⟩

/-- A table is due on the tenth, and so are its top and its frame. The top has to be begun on the
seventh and the frame on the eighth, but the start date is the fifth. -/
theorem table_start :
    let c := MemoryCatalogue.joinery.catalogue
    ∃ t, (buildTree c 3 (.sample "table")).outcome = .ok t ∧
      t.root.startDate c none (.january 10) true = .ok (.january 5) ∧
      t.root.ownStart c none (.january 10) true = .ok (.january 7) := by
  intro c
  have hstarts : (buildTree c 3 (.sample "table")).outcome.toOption.any (fun t =>
      t.root.startDate c none (.january 10) true = .ok (.january 5) ∧
        t.root.ownStart c none (.january 10) true = .ok (.january 7)) = true := by
    decide +kernel
  obtain ⟨t, ht, hstarts⟩ := exists_of_any hstarts
  exact ⟨t, ht, of_decide_eq_true hstarts⟩

end Bom
