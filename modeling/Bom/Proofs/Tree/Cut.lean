import Bom.Proofs.Tree.Quantity
import Bom.Proofs.Tree.Reference

/-!
# How the explosions of a product are related

An explosion goes down as far as its mode says, and the mode has no other part in it. So the
explosion of a single level and that for manufacturing are the full explosion with the ends cut off:
where the mode stops, the place is left and what lies below it is not. Numbers are given in the
order in which occurrences come to be, so those differ, and nothing else does.

A shorter explosion asks the catalogue for less, but for one thing: whether a place is kept in
stock. A catalogue in memory that has told the edges of a product tells that as well, so where the
full explosion succeeds the others do.

* `Node.cut`: a subtree with the ends cut off.
* `Unfolding.Expands.cut`: another mode makes the subtree that is cut.
* `Node.pass_cut`: a quantity pass counts what is left as before.
* `buildTree_cuts`: the trees of the three modes.
-/

namespace Bom

/-- The occurrence with another number. -/
def Occurrence.renumber (n : Nat) (o : Occurrence) : Occurrence := { o with number := n }

theorem Occurrence.map_unnumbered_renumber (n : Nat) (o : Option Occurrence) :
    (o.map (renumber n)).map unnumbered = o.map unnumbered := by
  cases o <;> rfl

/-! ## Cutting a subtree -/

/-- The place with nothing below it, as it is left where an explosion stops. -/
def Node.stub : Node → Node
  | .mk self replaced _ => .mk { self with bomType := none } replaced .nil

theorem Node.stub_eq (n : Node) :
    n.stub = .mk { n.self with bomType := none } n.replaced .nil := by
  cases n
  rfl

mutual

/-- The subtree with nothing below the places at which it stops. The place at its top stays as it
is. -/
def Node.cut (stops : Product → Option Product → Bool) : Node → Node
  | .mk self replaced slots => .mk self replaced (slots.cut stops)

/-- The slots with the subtrees in them cut. -/
def Slots.cut (stops : Product → Option Product → Bool) : Slots → Slots
  | .nil => .nil
  | .vacant edge rest => .vacant edge (rest.cut stops)
  | .filled edge child rest =>
    .filled edge
      (if stops child.self.product (child.replaced.map (·.product)) then child.stub
        else child.cut stops)
      (rest.cut stops)

end

/-- The subtree in a slot once the slots have been cut. -/
def Node.cutBelow (stops : Product → Option Product → Bool) (n : Node) : Node :=
  if stops n.self.product (n.replaced.map (·.product)) then n.stub else n.cut stops

@[simp] theorem Slots.cut_filled (stops : Product → Option Product → Bool) (edge : Edge)
    (child : Node) (rest : Slots) :
    (Slots.filled edge child rest).cut stops =
      .filled edge (child.cutBelow stops) (rest.cut stops) := rfl

variable {stops : Product → Option Product → Bool}

/-! ## Another mode -/

namespace Unfolding

/-- The same unfolding in another mode. -/
def withMode (u : Unfolding) (mode : Mode) : Unfolding := { u with mode }

variable {u : Unfolding} {mode : Mode}

/-- All explosions find the same edges, whatever the numbers are. -/
theorem edgesOf_withMode (hu : u.mode.isExplosion = true) (hmode : mode.isExplosion = true)
    (self : Occurrence) (replaced : Option Occurrence) (n m : Nat) :
    (u.withMode mode).edgesOf (self.renumber n) (replaced.map (.renumber m)) =
      u.edgesOf self replaced := by
  have hdirection : (u.withMode mode).direction = u.direction := by
    simp [direction, withMode, hu, hmode]
  apply edgesOf_congr
  · intro product routing _
    rw [hdirection]
    rfl
  · rfl
  · rfl
  · cases replaced <;> rfl

/-- In all explosions an edge leads to the same. -/
theorem attach_withMode (hu : u.mode.isExplosion = true) (hmode : mode.isExplosion = true)
    (s : Surroundings) (edge : Edge) : (u.withMode mode).attach s edge = u.attach s edge := by
  rw [attach, attach, if_pos hu, if_pos (show (u.withMode mode).mode.isExplosion = true from hmode)]
  rfl

/-! What is asked at a place does not depend on the numbers there. -/

theorem surroundings_renumber (self : Occurrence) (replaced : Option Occurrence) (n m : Nat) :
    u.surroundings (self.renumber n) (replaced.map (.renumber m)) =
      u.surroundings self replaced := by
  cases replaced <;> rfl

theorem descends_renumber (self : Occurrence) (replaced : Option Occurrence) (n m : Nat) :
    u.descends (self.renumber n) (replaced.map (.renumber m)) = u.descends self replaced := by
  cases replaced <;> rfl

/-- The other mode stops as told: at a place whose edges this unfolding has found, if it is not the
root. What such a place has replaced is a product that the catalogue has given. -/
def StopsAt (u : Unfolding) (mode : Mode) (stops : Product → Option Product → Bool) : Prop :=
  ∀ self replaced edges, u.edgesOf self replaced = .ok edges →
    (∀ v ∈ replaced, ∃ id, u.catalogue.product id = .ok (some v.product)) →
    (u.withMode mode).descends self replaced = .ok (!stops self.product (replaced.map (·.product)))

/-- What an edge leads to has not been unfolded, and a component that is replaced is a product that
the catalogue has given. -/
theorem attach_isFresh {s : Surroundings} {edge : Edge} {a : Attachment}
    (h : (u.attach s edge).outcome = .ok a) :
    match a with
    | .vacant => True
    | .plain o => o.bomType = none
    | .replacing component o =>
      o.bomType = none ∧ ∃ id, u.catalogue.product id = .ok (some component.product) := by
  unfold attach at h
  split at h
  · obtain ⟨product, resolution, hproduct, -, rfl⟩ := attachComponent_eq_ok.1 h
    cases resolution with
    | unchanged => rfl
    | removed _ _ => trivial
    | substituted _ _ _ _ => exact ⟨rfl, _, hproduct⟩
  · obtain ⟨product, -, rfl⟩ := attachUser_eq_ok.1 h
    rfl

mutual

/-- Where a full explosion of a place succeeds, another one does, and has the subtree that is cut
below it, whatever the numbers are. -/
theorem Expands.cut (hu : u.mode = .explosion) (hmode : mode.isExplosion = true)
    (hstops : u.StopsAt mode stops) {room : Nat} {above : List String} {self : Occurrence}
    {replaced : Option Occurrence} {next last : Nat} {node : Node} :
    u.Expands room above self replaced next node last → ∀ n m next', ∃ node' last',
      (u.withMode mode).Expands room above (self.renumber n) (replaced.map (.renumber m)) next'
        node' last' ∧ node'.unnumbered = (node.cut stops).unnumbered
  | .mk hfresh hedges hfill, n, m, next' => by
    obtain ⟨slots', last', hfill', hslots⟩ := hfill.cut hu hmode hstops next'
    rw [← surroundings_renumber _ _ n m] at hfill'
    rw [← edgesOf_withMode (by simp [hu, Mode.isExplosion]) hmode _ _ n m] at hedges
    refine ⟨_, last', .mk hfresh hedges hfill', ?_⟩
    rw [Node.cut, Node.unnumbered, Node.unnumbered, hslots, Occurrence.map_unnumbered_renumber]
    rfl

/-- Where the full explosion goes on below a place, another one goes on or leaves it as it is. -/
theorem Settles.cut (hu : u.mode = .explosion) (hmode : mode.isExplosion = true)
    (hstops : u.StopsAt mode stops) {room : Nat} {above : List String} {self : Occurrence}
    {replaced : Option Occurrence} {next last : Nat} {node : Node} :
    u.Settles room above self replaced next node last → self.bomType = none →
      (∀ v ∈ replaced, ∃ id, u.catalogue.product id = .ok (some v.product)) →
      ∀ n m next', ∃ node' last',
        (u.withMode mode).Settles room above (self.renumber n) (replaced.map (.renumber m)) next'
          node' last' ∧ node'.unnumbered = (node.cutBelow stops).unnumbered
  | .flat hdescends, _, _, _, _, _ => by
    rw [descends, hu] at hdescends
    cases hdescends
  | .deep _ hexpand, hclosed, hknown, n, m, next' => by
    obtain ⟨node', last', hexpand', hnode⟩ := hexpand.cut hu hmode hstops n m next'
    obtain ⟨_, edges, -, -, hedges, hself, hreplaced, -⟩ := hexpand.inv
    have hdescends := hstops self replaced edges hedges hknown
    rw [← descends_renumber _ _ n m] at hdescends
    rw [Node.cutBelow, hself, hreplaced]
    cases hstop : stops self.product (replaced.map (·.product)) with
    | false =>
      rw [hstop] at hdescends
      exact ⟨node', last', .deep hdescends hexpand', hnode⟩
    | true =>
      rw [hstop] at hdescends
      refine ⟨_, next', .flat hdescends, ?_⟩
      rw [if_pos rfl, Node.stub_eq, hself, hreplaced, ← hclosed, Node.unnumbered, Node.unnumbered,
        Occurrence.map_unnumbered_renumber]
      rfl

/-- The slots of the other explosion hold the subtrees that are cut. -/
theorem Fills.cut (hu : u.mode = .explosion) (hmode : mode.isExplosion = true)
    (hstops : u.StopsAt mode stops) {room : Nat} {above : List String} {s : Surroundings}
    {edges : List Edge} {next last : Nat} {slots : Slots} :
    u.Fills room above s edges next slots last → ∀ next', ∃ slots' last',
      (u.withMode mode).Fills room above s edges next' slots' last' ∧
        slots'.unnumbered = (slots.cut stops).unnumbered
  | .nil, next' => ⟨.nil, next', .nil, rfl⟩
  | .vacant hattach hrest, next' => by
    obtain ⟨rest', last', hrest', hrest⟩ := hrest.cut hu hmode hstops next'
    rw [← attach_withMode (by simp [hu, Mode.isExplosion]) hmode] at hattach
    exact ⟨_, last', .vacant hattach hrest', congrArg (Slots.vacant _) hrest⟩
  | .plain hattach hchild hrest, next' => by
    have hclosed := attach_isFresh hattach
    obtain ⟨child', mid', hchild', hchild⟩ :=
      hchild.cut hu hmode hstops hclosed (by rintro _ ⟨⟩) next' 0 (next' + 1)
    obtain ⟨rest', last', hrest', hrest⟩ := hrest.cut hu hmode hstops mid'
    rw [← attach_withMode (by simp [hu, Mode.isExplosion]) hmode] at hattach
    exact ⟨_, last', .plain hattach hchild' hrest', congrArg₂ (Slots.filled _) hchild hrest⟩
  | .replacing hattach hchild hrest, next' => by
    obtain ⟨hclosed, hknown⟩ := attach_isFresh hattach
    obtain ⟨child', mid', hchild', hchild⟩ :=
      hchild.cut hu hmode hstops hclosed (by rintro _ ⟨⟩; exact hknown) (next' + 1) next'
        (next' + 2)
    obtain ⟨rest', last', hrest', hrest⟩ := hrest.cut hu hmode hstops mid'
    rw [← attach_withMode (by simp [hu, Mode.isExplosion]) hmode] at hattach
    exact ⟨_, last', .replacing hattach hchild' hrest', congrArg₂ (Slots.filled _) hchild hrest⟩

end

end Unfolding

/-! ## Quantities of what is left -/

theorem Pass.skips_unnumbered {p : Pass} (n : Node) : p.skips n.unnumbered = p.skips n := by
  cases n
  rfl

section

variable {p : Pass}

mutual

/-- Numbers have no part in a pass. -/
theorem Node.pass_unnumbered (q : Float) (depth : UInt64) : ∀ n : Node,
    (n.unnumbered.pass p q depth).1 = (n.pass p q depth).1.unnumbered ∧
      (n.unnumbered.pass p q depth).2.outcome =
        (n.pass p q depth).2.outcome.map (List.map fun _ => 0)
  | .mk self replaced slots => by
    rw [Node.unnumbered]
    cases hself : (p.quantityOf self q).outcome with
    | error e =>
      have hself' : (p.quantityOf self.unnumbered q).outcome = .error e := hself
      rw [(Node.pass_of_error hself).1, (Node.pass_of_error hself).2,
        (Node.pass_of_error hself').1, (Node.pass_of_error hself').2]
      exact ⟨rfl, rfl⟩
    | ok quantity =>
      have hself' : (p.quantityOf self.unnumbered q).outcome = .ok quantity := hself
      obtain ⟨hslots, hbelow⟩ := slots.pass_unnumbered quantity (depth + 1)
      rw [(Node.pass_of_ok hself).1, (Node.pass_of_ok hself).2, (Node.pass_of_ok hself').1,
        (Node.pass_of_ok hself').2, hslots, hbelow]
      refine ⟨rfl, ?_⟩
      cases (slots.pass p quantity (depth + 1)).2.outcome <;> rfl

/-- Numbers have no part in a pass through slots. -/
theorem Slots.pass_unnumbered (q : Float) (depth : UInt64) : ∀ s : Slots,
    (s.unnumbered.pass p q depth).1 = (s.pass p q depth).1.unnumbered ∧
      (s.unnumbered.pass p q depth).2.outcome =
        (s.pass p q depth).2.outcome.map (List.map fun _ => 0)
  | .nil => ⟨rfl, rfl⟩
  | .vacant edge rest => by
    obtain ⟨hrest, hresult⟩ := rest.pass_unnumbered q depth
    exact ⟨congrArg (Slots.vacant edge) hrest, hresult⟩
  | .filled edge child rest => by
    rw [Slots.unnumbered]
    obtain ⟨hrest, hresult⟩ := rest.pass_unnumbered q depth
    cases hskips : p.skips child with
    | true =>
      have hskips' := (Pass.skips_unnumbered child).trans hskips
      rw [(Slots.pass_of_skips hskips).1, (Slots.pass_of_skips hskips).2,
        (Slots.pass_of_skips hskips').1, (Slots.pass_of_skips hskips').2, hrest, hresult]
      exact ⟨rfl, rfl⟩
    | false =>
      have hskips' := (Pass.skips_unnumbered child).trans hskips
      obtain ⟨hchild, hfirst'⟩ := child.pass_unnumbered q depth
      cases hfirst : (child.pass p q depth).2.outcome with
      | error e =>
        rw [hfirst] at hfirst'
        rw [(Slots.pass_of_error hskips hfirst).1, (Slots.pass_of_error hskips hfirst).2,
          (Slots.pass_of_error hskips' hfirst').1, (Slots.pass_of_error hskips' hfirst').2, hchild]
        exact ⟨rfl, rfl⟩
      | ok numbers =>
        rw [hfirst] at hfirst'
        rw [(Slots.pass_of_ok hskips hfirst).1, (Slots.pass_of_ok hskips hfirst).2,
          (Slots.pass_of_ok hskips' hfirst').1, (Slots.pass_of_ok hskips' hfirst').2, hchild, hrest,
          hresult]
        refine ⟨rfl, ?_⟩
        cases (rest.pass p q depth).2.outcome with
        | error e => rfl
        | ok below => simp [Except.map]

end

/-- A pass leaves the products of a place. -/
theorem Node.products_pass (q : Float) (depth : UInt64) (n : Node) :
    (n.pass p q depth).1.self.product = n.self.product ∧
      (n.pass p q depth).1.replaced = n.replaced := by
  have h : (n.pass p q depth).1.uncounted = n.uncounted := n.uncounted_pass
  have hself : (n.pass p q depth).1.self.uncounted = n.self.uncounted := by
    rw [← Node.uncounted_self, h, Node.uncounted_self]
  have hproduct : (n.pass p q depth).1.self.uncounted.product = n.self.uncounted.product := by
    rw [hself]
  refine ⟨hproduct, ?_⟩
  rw [← Node.uncounted_replaced, h, Node.uncounted_replaced]

/-- A pass that succeeds below a place counts the place if nothing is below it. -/
theorem Node.pass_stub {q : Float} {depth : UInt64} :
    ∀ {n : Node} {numbers : List Nat}, (n.pass p q depth).2.outcome = .ok numbers →
      (n.stub.pass p q depth).1 = (n.pass p q depth).1.stub ∧
        ∃ left, (n.stub.pass p q depth).2.outcome = .ok left
  | .mk self replaced slots, numbers, h => by
    cases hself : (p.quantityOf self q).outcome with
    | error e =>
      rw [(Node.pass_of_error hself).2] at h
      cases h
    | ok quantity =>
      have hstub : (p.quantityOf { self with bomType := none } q).outcome = .ok quantity := hself
      rw [Node.stub, (Node.pass_of_ok hself).1, (Node.pass_of_ok hstub).1, (Node.pass_of_ok hstub).2]
      exact ⟨rfl, [self.number], rfl⟩

mutual

/-- A pass that succeeds below a place does so when the subtree is cut, and gives what is left the
same quantities and levels. -/
theorem Node.pass_cut (hwip : p.excludesWip = false) {q : Float} {depth : UInt64} :
    ∀ {n : Node} {numbers : List Nat}, (n.pass p q depth).2.outcome = .ok numbers →
      ((n.cut stops).pass p q depth).1 = (n.pass p q depth).1.cut stops ∧
        ∃ left, ((n.cut stops).pass p q depth).2.outcome = .ok left
  | .mk self replaced slots, numbers, h => by
    rw [Node.cut]
    cases hself : (p.quantityOf self q).outcome with
    | error e =>
      rw [(Node.pass_of_error hself).2] at h
      cases h
    | ok quantity =>
      rw [(Node.pass_of_ok hself).2] at h
      obtain ⟨below, hbelow, -⟩ := map_eq_ok.1 h
      obtain ⟨hslots, left, hleft⟩ := Slots.pass_cut hwip hbelow
      rw [(Node.pass_of_ok hself).1, (Node.pass_of_ok hself).1, (Node.pass_of_ok hself).2, hslots]
      exact ⟨rfl, self.number :: left, map_eq_ok.2 ⟨left, hleft, rfl⟩⟩

/-- A pass that succeeds below slots does so when they are cut, and gives what is left the same
quantities and levels. -/
theorem Slots.pass_cut (hwip : p.excludesWip = false) {q : Float} {depth : UInt64} :
    ∀ {s : Slots} {numbers : List Nat}, (s.pass p q depth).2.outcome = .ok numbers →
      ((s.cut stops).pass p q depth).1 = (s.pass p q depth).1.cut stops ∧
        ∃ left, ((s.cut stops).pass p q depth).2.outcome = .ok left
  | .nil, _, _ => ⟨rfl, [], rfl⟩
  | .vacant edge rest, numbers, h => by
    obtain ⟨hrest, left, hleft⟩ := Slots.pass_cut hwip (s := rest) h
    exact ⟨congrArg (Slots.vacant edge) hrest, left, hleft⟩
  | .filled edge child rest, numbers, h => by
    have hskips := Pass.skips_eq_false hwip
    cases hfirst : (child.pass p q depth).2.outcome with
    | error e =>
      rw [(Slots.pass_of_error (hskips child) hfirst).2] at h
      cases h
    | ok first =>
      rw [(Slots.pass_of_ok (hskips child) hfirst).2] at h
      obtain ⟨second, hsecond, -⟩ := map_eq_ok.1 h
      obtain ⟨hrest, leftRest, hleftRest⟩ := Slots.pass_cut hwip hsecond
      -- what the child becomes is decided by its products, which the pass leaves as they are
      have hchild : ((child.cutBelow stops).pass p q depth).1 =
          (child.pass p q depth).1.cutBelow stops ∧
          ∃ left, ((child.cutBelow stops).pass p q depth).2.outcome = .ok left := by
        obtain ⟨hproduct, hreplaced⟩ := child.products_pass (p := p) q depth
        unfold Node.cutBelow
        rw [hproduct, hreplaced]
        cases stops child.self.product (child.replaced.map (·.product)) with
        | true => exact Node.pass_stub hfirst
        | false => exact Node.pass_cut hwip hfirst
      obtain ⟨hchild, leftChild, hleftChild⟩ := hchild
      rw [Slots.cut_filled, (Slots.pass_of_ok (hskips child) hfirst).1, Slots.cut_filled,
        (Slots.pass_of_ok (hskips _) hleftChild).1, (Slots.pass_of_ok (hskips _) hleftChild).2,
        hchild, hrest]
      exact ⟨rfl, leftChild ++ leftRest, map_eq_ok.2 ⟨leftRest, hleftRest, rfl⟩⟩

end

/-- A pass that succeeds below a place does so below one that is cut, whatever the numbers are, and
gives what is left the same quantities and levels. -/
theorem Node.pass_of_cut (hwip : p.excludesWip = false) {n m : Node}
    (h : m.unnumbered = (n.cut stops).unnumbered) {q : Float} {depth : UInt64} {numbers : List Nat}
    (hpass : (n.pass p q depth).2.outcome = .ok numbers) :
    (m.pass p q depth).1.unnumbered = ((n.pass p q depth).1.cut stops).unnumbered ∧
      ∃ left, (m.pass p q depth).2.outcome = .ok left := by
  obtain ⟨hcut, left, hleft⟩ :
      ((n.cut stops).pass p q depth).1 = (n.pass p q depth).1.cut stops ∧
        ∃ left, ((n.cut stops).pass p q depth).2.outcome = .ok left :=
    Node.pass_cut hwip hpass
  obtain ⟨hm, hmResult⟩ := m.pass_unnumbered (p := p) q depth
  obtain ⟨hn, hnResult⟩ := (n.cut stops).pass_unnumbered (p := p) q depth
  rw [h] at hm hmResult
  refine ⟨by rw [← hm, hn, hcut], ?_⟩
  rw [hnResult, hleft] at hmResult
  obtain ⟨left', hleft', -⟩ := map_eq_ok.1 hmResult.symm
  exact ⟨left', hleft'⟩

end

/-! ## Trees -/

/-- The tree `u` is the tree `t` with the ends cut off. -/
structure Tree.IsCut (stops : Product → Option Product → Bool) (t u : Tree) : Prop where
  /-- the places are those that are left of the tree, with other numbers -/
  root : u.root.unnumbered = (t.root.cut stops).unnumbered
  /-- but for their modes the trees have all else in common -/
  rest : u = { t with root := u.root, mode := u.mode }
  /-- whatever has happened to the trees, a pass that starts from the same quantity and amount, and
  succeeds in the tree, succeeds in what is left of it and counts that as before -/
  counted : ∀ (uses uses' : List TreeUse) (depth : UInt64) (calculator : Option Calculator),
    (u.after uses').rootQuantity = (t.after uses).rootQuantity →
    (u.after uses').rootAmount = (t.after uses).rootAmount →
    ∀ numbers, ((t.after uses).flatten depth false calculator).2.outcome = .ok numbers →
      (∃ left, ((u.after uses').flatten depth false calculator).2.outcome = .ok left) ∧
        ((u.after uses').flatten depth false calculator).1.root.unnumbered =
          (((t.after uses).flatten depth false calculator).1.root.cut stops).unnumbered

/-- A pass that succeeds in a tree succeeds in what is left of it, and counts that as before. -/
theorem Tree.flatten_of_cut {t u : Tree} {depth : UInt64} {calculator : Option Calculator}
    (hp : u.passOf calculator false = t.passOf calculator false)
    (hquantity : u.rootQuantity = t.rootQuantity)
    (hroot : u.root.unnumbered = (t.root.cut stops).unnumbered) {numbers : List Nat}
    (h : (t.flatten depth false calculator).2.outcome = .ok numbers) :
    (u.flatten depth false calculator).1.root.unnumbered =
        ((t.flatten depth false calculator).1.root.cut stops).unnumbered ∧
      ∃ left, (u.flatten depth false calculator).2.outcome = .ok left := by
  unfold flatten
  rw [hp, hquantity]
  exact Node.pass_of_cut rfl hroot h

/-- Where the places are cut, so are those that a pass has counted. -/
theorem Tree.isCut_of_root {t u : Tree} (hmode : u.mode.isExplosion = t.mode.isExplosion)
    (root : u.root.unnumbered = (t.root.cut stops).unnumbered)
    (rest : u = { t with root := u.root, mode := u.mode }) : t.IsCut stops u where
  root := root
  rest := rest
  counted := by
    intro uses uses' depth calculator hquantity hamount numbers hpass
    -- what earlier passes have left counts for nothing, so the trees may be taken as they were built
    obtain ⟨ht, htTree⟩ := (t.agrees_after uses).flatten_fresh depth calculator
    obtain ⟨hu, huTree⟩ := (u.agrees_after uses').flatten_fresh depth calculator
    rw [htTree numbers hpass]
    have hp : Pass.mk calculator (u.after uses').rootAmount u.mode.isExplosion false =
        ⟨calculator, (t.after uses).rootAmount, t.mode.isExplosion, false⟩ := by
      rw [hamount, hmode]
    let t' : Tree := { t with
      rootQuantity := (t.after uses).rootQuantity
      rootAmount := (t.after uses).rootAmount }
    let u' : Tree := { u with
      rootQuantity := (u.after uses').rootQuantity
      rootAmount := (u.after uses').rootAmount }
    obtain ⟨hcut, left, hleft⟩ :=
      Tree.flatten_of_cut (t := t') (u := u') hp hquantity root (ht.trans hpass)
    have hsuccess := hu.symm.trans hleft
    rw [huTree left hsuccess]
    exact ⟨⟨left, hsuccess⟩, hcut⟩

/-- A tree is built in another mode if its root is unfolded in that mode. -/
theorem buildTree_withMode {c : Catalogue} {maxDepth : Nat} {r : TreeRequest} {t : Tree}
    (h : (buildTree c maxDepth r).outcome = .ok t) {mode : Mode} {root : Node} {last : Nat}
    (hrun : ((t.unfolding c maxDepth).withMode mode).Expands maxDepth []
      (.detached 1 t.root.self.product) t.redirected 2 root last) :
    (buildTree c maxDepth { r with mode }).outcome = .ok { t with root, mode } := by
  unfold buildTree at h ⊢
  obtain ⟨product, hproduct, h⟩ := Noted.outcome_bind_eq_ok.1 h
  obtain ⟨target, htarget, h⟩ := Noted.outcome_bind_eq_ok.1 h
  obtain ⟨made, hmade, h⟩ := Noted.outcome_bind_eq_ok.1 h
  obtain ⟨selected, hselected, h⟩ := Noted.outcome_bind_eq_ok.1 h
  obtain ⟨⟨top, _⟩, hroot, h⟩ := Noted.outcome_bind_eq_ok.1 h
  cases h
  have hmadeIs : top.self.product = made := by
    cases Unfolding.expands_of_expand hroot
    rfl
  subst hmadeIs
  -- the product at the root and the features are found as before
  refine Noted.outcome_bind_eq_ok.2 ⟨product, hproduct, ?_⟩
  refine Noted.outcome_bind_eq_ok.2 ⟨target, htarget, ?_⟩
  refine Noted.outcome_bind_eq_ok.2 ⟨_, hmade, ?_⟩
  refine Noted.outcome_bind_eq_ok.2 ⟨selected, hselected, ?_⟩
  exact Noted.outcome_bind_eq_ok.2 ⟨(root, last), hrun.outcome, rfl⟩

/-- Where the full explosion of a product succeeds, another one does, and has the tree that is cut
where the other mode stops. -/
theorem exists_isCut {c : Catalogue} {maxDepth : Nat} {r : TreeRequest} {t : Tree}
    (h : (buildTree c maxDepth r).outcome = .ok t) (hr : r.mode = .explosion) {mode : Mode}
    (hmode : mode.isExplosion = true) (hstops : (t.unfolding c maxDepth).StopsAt mode stops) :
    ∃ u, (buildTree c maxDepth { r with mode }).outcome = .ok u ∧ t.IsCut stops u := by
  have hbuilt := built_of_buildTree h
  have ht : t.mode = .explosion := hbuilt.mode.trans hr
  obtain ⟨last, hrun⟩ := hbuilt.run
  obtain ⟨root, last', hrun', hroot⟩ := hrun.cut ht hmode hstops 1 0 2
  have hredirected : t.redirected.map (.renumber 0) = t.redirected := by
    rw [Tree.redirected, hbuilt.requested]
    split <;> rfl
  rw [hredirected] at hrun'
  refine ⟨_, buildTree_withMode h hrun', Tree.isCut_of_root ?_ hroot rfl⟩
  rw [ht, hmode]
  rfl

/-- The explosion of a single level stops at every place below the root. -/
theorem Unfolding.stopsAt_singleLevel (u : Unfolding) :
    u.StopsAt .singleLevel fun _ _ => true :=
  fun _ _ _ _ _ => rfl

/-- As far as the catalogue can tell, some warehouse manages the product, or the one that it has
replaced. -/
def Catalogue.manages (c : Catalogue) (product : Product) (replaced : Option Product) : Bool :=
  isWarehouseManaged c product replaced none = .ok true

namespace MemoryCatalogue

variable {c : MemoryCatalogue}

/-- A catalogue in memory tells of a place whose edges it has told whether a warehouse manages it.
-/
theorem isWarehouseManaged_of_edgesOf {u : Unfolding} (hu : u.catalogue = c.catalogue)
    {self : Occurrence} {replaced : Option Occurrence} {edges : List Edge}
    (hedges : u.edgesOf self replaced = .ok edges)
    (hknown : ∀ v ∈ replaced, ∃ id, u.catalogue.product id = .ok (some v.product)) :
    ∃ managed, isWarehouseManaged c.catalogue self.product (replaced.map (·.product)) none =
      .ok managed := by
  have hstocked {product : String} (h : product ∉ c.failing) :
      ∃ stocked, ask (c.catalogue.isStocked product none) = .ok stocked :=
    ⟨_, ask_eq_ok.2 (answer_eq_ok.2 ⟨h, rfl⟩)⟩
  obtain ⟨own, hown⟩ := hstocked (not_mem_failing_of_edgesOf hu hedges)
  unfold isWarehouseManaged
  split
  · exact ⟨false, rfl⟩
  · rw [hown]
    cases own with
    | true => exact ⟨true, rfl⟩
    | false =>
      cases replaced with
      | none => exact ⟨false, rfl⟩
      | some v =>
        -- the component that was replaced was looked up under its own id
        obtain ⟨id, hproduct⟩ := hknown v rfl
        rw [hu] at hproduct
        obtain ⟨hid, hfound⟩ := answer_eq_ok.1 hproduct
        rw [← (mem_products_of_product? hfound).2] at hid
        exact hstocked hid

/-- The explosion for manufacturing stops where a warehouse manages the product. -/
theorem stopsAt_manufacturing {u : Unfolding} (hu : u.catalogue = c.catalogue) :
    u.StopsAt .manufacturing c.catalogue.manages := by
  intro self replaced edges hedges hknown
  obtain ⟨managed, hmanaged⟩ := isWarehouseManaged_of_edgesOf hu hedges hknown
  have hdescends : (u.withMode .manufacturing).descends self replaced = .ok (!managed) := by
    change (isWarehouseManaged u.catalogue _ _ none >>= fun stocked => pure !stocked) = _
    rw [hu, hmanaged]
    rfl
  rw [hdescends, Catalogue.manages, hmanaged]
  cases managed <;> rfl

end MemoryCatalogue

/-- Where the full explosion of a product succeeds in a catalogue in memory, the explosion of a
single level has its tree cut at the first level, and the one for manufacturing has it cut where a
warehouse manages the product. -/
theorem buildTree_cuts {c : MemoryCatalogue} {maxDepth : Nat} {r : TreeRequest} {t : Tree}
    (hr : r.mode = .explosion) (h : (buildTree c.catalogue maxDepth r).outcome = .ok t) :
    (∃ u, (buildTree c.catalogue maxDepth { r with mode := .singleLevel }).outcome = .ok u ∧
      t.IsCut (fun _ _ => true) u) ∧
    ∃ u, (buildTree c.catalogue maxDepth { r with mode := .manufacturing }).outcome = .ok u ∧
      t.IsCut c.catalogue.manages u :=
  ⟨exists_isCut h hr rfl (Unfolding.stopsAt_singleLevel _),
    exists_isCut h hr rfl (MemoryCatalogue.stopsAt_manufacturing rfl)⟩

end Bom
