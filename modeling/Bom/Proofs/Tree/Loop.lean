import Bom.Proofs.Tree.Pass
import Bom.Proofs.Tree.Table

/-!
# A quantity pass as a loop

A quantity pass keeps the places that it has still to count on a stack, finds them in the table by
their numbers and writes what it gives them where they stand. The rows below a node lie together in
the table, in the order in which the loop comes to them. So how far the loop is when it has done
with a subtree is told by recursion on the subtree (`Node.leads`), and when its stack is empty it
has done to the table what `Node.pass` does to the tree (`Tree.leads_flatten`).

* `Pass.Leads`: turns of the loop lead from one state to another.
* `Loop.after`: the state of the loop when a part of its work is done.
-/

namespace Bom

/-- Turns of the loop lead from one state to the other. -/
def Pass.Leads (p : Pass) (l l' : Loop) : Prop := ∃ n, p.turns n l = l'

/-- The loop with the given stack and table when it has done a part of its work. Nothing is left to
do if the part has failed. -/
def Loop.after (stack : List Pending) (rows : List Row)
    (sofar done : Noted EngineError (List Nat)) : Loop :=
  ⟨if done.outcome.isOk then stack else [], rows,
    sofar.andThen fun numbers => done.mapValue (numbers ++ ·)⟩

namespace Pass

variable {p : Pass}

theorem Leads.refl (l : Loop) : p.Leads l l := ⟨0, rfl⟩

theorem Leads.turn {l l' : Loop} (h : p.Leads (p.turn l) l') : p.Leads l l' := by
  obtain ⟨n, hn⟩ := h
  exact ⟨n + 1, hn⟩

theorem Leads.trans {l l' l'' : Loop} (h : p.Leads l l') (h' : p.Leads l' l'') :
    p.Leads l l'' := by
  obtain ⟨n, hn⟩ := h
  induction n generalizing l with
  | zero =>
    cases hn
    exact h'
  | succ n ih => exact (ih hn).turn

variable {stack : List Pending} {rows : List Row} {sofar : Noted EngineError (List Nat)}

/-- A part that has succeeded leaves the rest of the stack. -/
theorem after_of_ok {done : Noted EngineError (List Nat)} {numbers : List Nat}
    (h : done.outcome = .ok numbers) : Loop.after stack rows sofar done =
      ⟨stack, rows, sofar.andThen fun ns => done.mapValue (ns ++ ·)⟩ := by
  rw [Loop.after, h]
  rfl

/-- A part that has failed leaves nothing to do. -/
theorem after_of_error {done : Noted EngineError (List Nat)} {e : EngineError}
    (h : done.outcome = .error e) : Loop.after stack rows sofar done =
      ⟨[], rows, sofar.andThen fun _ => ⟨done.notices, .error e⟩⟩ := by
  obtain ⟨notices, outcome⟩ := done
  cases h
  rfl

/-- A part that does nothing leaves the loop as it is. -/
theorem after_pure_nil : Loop.after stack rows sofar (pure []) = ⟨stack, rows, sofar⟩ := by
  obtain ⟨notices, outcome⟩ := sofar
  cases outcome with
  | error e => rfl
  | ok numbers =>
    change (⟨stack, rows, ⟨notices ++ [], .ok (numbers ++ [])⟩⟩ : Loop) = _
    rw [List.append_nil, List.append_nil]

/-- What comes of the loop if the first part is its whole work. -/
theorem after_all (done : Noted EngineError (List Nat)) :
    Loop.after [] rows (pure []) done = ⟨[], rows, done⟩ := by
  obtain ⟨notices, outcome⟩ := done
  cases outcome <;> rfl

/-- Two parts that are done one after the other are one part. -/
theorem after_after {first second : Noted EngineError (List Nat)} {numbers : List Nat}
    (h : first.outcome = .ok numbers) :
    Loop.after stack rows (sofar.andThen fun ns => first.mapValue (ns ++ ·)) second =
      Loop.after stack rows sofar
        ⟨first.notices ++ second.notices, second.outcome.map (numbers ++ ·)⟩ := by
  obtain ⟨notices, outcome⟩ := first
  obtain ⟨notices', outcome'⟩ := second
  obtain ⟨notices₀, outcome₀⟩ := sofar
  cases h
  cases outcome₀ <;> cases outcome' <;>
    simp [Loop.after, Noted.andThen, Noted.mapValue, Except.map, Except.isOk, Except.toBool]

variable (next : Pending) {row : Row}

/-- The loop ends at a place that has no quantity. -/
theorem turn_of_error {e : EngineError} (hrow : rows[next.number]? = some row)
    (h : (p.quantityOf row.self next.above).outcome = .error e) :
    p.turn ⟨next :: stack, rows, sofar⟩ =
      Loop.after stack rows sofar ⟨(p.quantityOf row.self next.above).notices, .error e⟩ := by
  unfold turn
  dsimp only
  rw [hrow]
  dsimp only
  generalize p.quantityOf row.self next.above = counted at h ⊢
  obtain ⟨notices, outcome⟩ := counted
  cases h
  rfl

/-- The loop writes the row of a place that it counts, and goes on with the places below it. -/
theorem turn_of_ok {quantity : Float} (hrow : rows[next.number]? = some row)
    (h : (p.quantityOf row.self next.above).outcome = .ok quantity) :
    p.turn ⟨next :: stack, rows, sofar⟩ =
      ⟨(p.below (rows.set next.number (row.count quantity next.depth))
          (row.count quantity next.depth)).map (⟨·, quantity, next.depth + 1⟩) ++ stack,
        rows.set next.number (row.count quantity next.depth),
        sofar.andThen fun ns => Noted.mapValue (ns ++ ·)
          ⟨(p.quantityOf row.self next.above).notices, .ok [next.number]⟩⟩ := by
  unfold turn
  dsimp only
  rw [hrow]
  dsimp only
  generalize p.quantityOf row.self next.above = counted at h ⊢
  obtain ⟨notices, outcome⟩ := counted
  cases h
  dsimp only
  rw [List.foldl_flip_cons_eq_append, List.map_id', List.reverse_reverse]
  rfl

end Pass

/-! ## The rows below a node -/

/-- The row of a node in a slot is among the rows below the slots. -/
theorem Slots.row_mem_rows {parent : Nat} {child : Node} :
    ∀ {s : Slots}, child ∈ s.nodes → child.row (some parent) ∈ s.rows parent
  | .vacant _ rest, h => row_mem_rows (s := rest) h
  | .filled _ first rest, h => by
    rw [Slots.rows, List.mem_append, List.mem_append]
    rcases List.mem_cons.1 h with rfl | h
    · left; right
      rw [Node.rows_eq]
      exact List.mem_cons_self
    · exact .inr (row_mem_rows h)

/-- The loop goes on from a row with the nodes in its slots that are not passed over. -/
theorem Pass.below_eq {p : Pass} {rows : List Row} {s : Slots} {parent : Nat}
    (hrows : rows.map (·.self.number) = List.range rows.length)
    (hmem : ∀ row ∈ s.rows parent, row ∈ rows) {row : Row}
    (hrow : row.children = s.contents.map fun c => c.map (·.self.number)) :
    p.below rows row = (s.nodes.filter fun c => !p.skips c).map (·.self.number) := by
  have hchildren : row.children.filterMap id = s.nodes.map (·.self.number) := by
    rw [hrow, ← s.filterMap_contents, List.filterMap_map, List.map_filterMap]
    rfl
  rw [below, hchildren, List.filter_map]
  congr 1
  refine List.filter_congr fun c hc => ?_
  have hfound : rows[c.self.number]? = some (c.row (some parent)) :=
    (Row.getElem?_of_numbers hrows).2 ⟨hmem _ (Slots.row_mem_rows hc), rfl⟩
  rw [Function.comp_apply, hfound, Option.any_some]
  rfl

/-- Rows that have the numbers from 0 on keep them, if each keeps its own. -/
theorem Row.numbers_of_map_eq {rows rows' : List Row}
    (h : rows'.map (·.self.number) = rows.map (·.self.number))
    (hrows : rows.map (·.self.number) = List.range rows.length) :
    rows'.map (·.self.number) = List.range rows'.length := by
  have hlength := congrArg List.length h
  rw [List.length_map, List.length_map] at hlength
  rw [h, hrows, hlength]

/-- A row is written where it stands. -/
theorem Row.set_number {before after : List Row} {row row' : Row}
    (hrows : (before ++ row :: after).map (·.self.number) =
      List.range (before ++ row :: after).length) :
    (before ++ row :: after).set row.self.number row' = (before ++ [row']) ++ after := by
  have hrow : (before ++ row :: after)[before.length]? = some row := by
    rw [List.getElem?_append_right (Nat.le_refl _), Nat.sub_self]
    rfl
  have hnumber : row.self.number = before.length := ((getElem?_of_numbers hrows).1 hrow).2
  rw [hnumber, List.set_append_right _ _ (Nat.le_refl _), Nat.sub_self, List.set_cons_zero,
    List.append_assoc, List.singleton_append]

/-- A row that is written under its own number leaves the rows with the numbers from 0 on. -/
theorem Row.numbers_set {before after : List Row} {row row' : Row}
    (hrows : (before ++ row :: after).map (·.self.number) =
      List.range (before ++ row :: after).length) (h : row'.self.number = row.self.number) :
    ((before ++ [row']) ++ after).map (·.self.number) =
      List.range ((before ++ [row']) ++ after).length := by
  refine numbers_of_map_eq ?_ hrows
  rw [List.append_assoc, List.singleton_append, List.map_append, List.map_append, List.map_cons,
    List.map_cons, h]

/-! ## What a pass leaves in the rows -/

@[simp] theorem Slots.uncounted_edges (s : Slots) : s.uncounted.edges = s.edges := by
  induction s using Slots.edges.induct with
  | case1 => rfl
  | case2 edge _ ih => exact congrArg (edge :: ·) ih
  | case3 edge _ _ ih => exact congrArg (edge :: ·) ih

/-- What passes have left counts for nothing where a row names the rows below it. -/
theorem Slots.uncounted_numbers : ∀ s : Slots,
    (s.uncounted.contents.map fun c => c.map (·.self.number)) =
      s.contents.map fun c => c.map (·.self.number)
  | .nil => rfl
  | .vacant _ rest => congrArg (none :: ·) rest.uncounted_numbers
  | .filled _ (.mk self _ _) rest => congrArg (some self.number :: ·) rest.uncounted_numbers

mutual

/-- What passes have left counts for nothing in the numbers of the rows. -/
theorem Node.rows_uncounted_numbers (parent : Option Nat) : ∀ n : Node,
    (n.uncounted.rows parent).map (·.self.number) = (n.rows parent).map (·.self.number)
  | .mk self _ slots => congrArg (self.number :: ·) (slots.rows_uncounted_numbers self.number)

theorem Slots.rows_uncounted_numbers (parent : Nat) : ∀ s : Slots,
    (s.uncounted.rows parent).map (·.self.number) = (s.rows parent).map (·.self.number)
  | .nil => rfl
  | .vacant _ rest => rest.rows_uncounted_numbers parent
  | .filled _ child rest => by
    have hreplaced : child.uncounted.replaced = child.replaced := by
      cases child
      rfl
    rw [Slots.uncounted, Slots.rows, Slots.rows, List.map_append, List.map_append, List.map_append,
      List.map_append, hreplaced, child.rows_uncounted_numbers, rest.rows_uncounted_numbers]

end

section

variable {p : Pass} {above : Float} {depth : UInt64}

/-- A pass keeps the numbers of the rows of a subtree. -/
theorem Node.rows_pass_numbers (parent : Option Nat) (n : Node) :
    ((n.pass p above depth).1.rows parent).map (·.self.number) =
      (n.rows parent).map (·.self.number) := by
  rw [← Node.rows_uncounted_numbers, n.uncounted_pass, Node.rows_uncounted_numbers]

/-- A pass keeps what a node has replaced. -/
theorem Node.pass_replaced (n : Node) : (n.pass p above depth).1.replaced = n.replaced := by
  have hreplaced (n : Node) : n.uncounted.replaced = n.replaced := by
    cases n
    rfl
  rw [← hreplaced, n.uncounted_pass, hreplaced]

/-- The row of a node that has been counted. -/
theorem Node.row_of_pass {self : Occurrence} {replaced : Option Occurrence} {slots : Slots}
    (parent : Option Nat) (quantity : Float) :
    (Node.mk { self with quantity, depth } replaced
      (slots.pass p quantity (depth + 1)).1).row parent =
        ((Node.mk self replaced slots).row parent).count quantity depth := by
  have hslots : (slots.pass p quantity (depth + 1)).1.uncounted = slots.uncounted :=
    slots.uncounted_pass
  have hedges : (slots.pass p quantity (depth + 1)).1.edges = slots.edges := by
    rw [← Slots.uncounted_edges, hslots, Slots.uncounted_edges]
  have hchildren := Slots.uncounted_numbers (slots.pass p quantity (depth + 1)).1
  rw [hslots, Slots.uncounted_numbers] at hchildren
  change (⟨_, _, _, (slots.pass p quantity (depth + 1)).1.edges, _⟩ : Row) =
    ⟨_, _, _, slots.edges, _⟩
  rw [hedges]
  exact congrArg _ hchildren.symm

/-! ## The loop is the recursion -/

mutual

/-- The loop counts the subtree of the node on top of the stack as a pass does, and goes on with the
rest of the stack. The rows of the subtree stand between `before` and `later`. -/
theorem Node.leads (before later : List Row) (parent : Option Nat) (above : Float)
    (depth : UInt64) (stack : List Pending) (sofar : Noted EngineError (List Nat)) : ∀ n : Node,
    (before ++ (n.rows parent ++ later)).map (·.self.number) =
      List.range (before ++ (n.rows parent ++ later)).length →
    p.Leads ⟨⟨n.self.number, above, depth⟩ :: stack, before ++ (n.rows parent ++ later), sofar⟩
      (.after stack (before ++ ((n.pass p above depth).1.rows parent ++ later)) sofar
        (n.pass p above depth).2)
  | .mk self replaced slots, hrows => by
    change (before ++ ((Node.mk self replaced slots).row parent ::
      (slots.rows self.number ++ later))).map _ = _ at hrows
    change p.Leads ⟨⟨self.number, above, depth⟩ :: stack,
      before ++ ((Node.mk self replaced slots).row parent ::
        (slots.rows self.number ++ later)), sofar⟩ _
    have hrow := (Row.getElem?_of_numbers hrows).2
      ⟨List.mem_append_right before List.mem_cons_self, rfl⟩
    refine Pass.Leads.turn ?_
    cases hself : (p.quantityOf self above).outcome with
    | error e =>
      rw [Pass.turn_of_error ⟨self.number, above, depth⟩ hrow hself, Node.pass]
      dsimp only
      rw [hself]
      exact .refl _
    | ok quantity =>
      -- the row is written where it stands, and the rows of the slots follow it
      let row := ((Node.mk self replaced slots).row parent).count quantity depth
      have hset : (before ++ (Node.mk self replaced slots).row parent ::
          (slots.rows self.number ++ later)).set self.number row =
            (before ++ [row]) ++ (slots.rows self.number ++ later) := Row.set_number hrows
      have hnumbers : ((before ++ [row]) ++ (slots.rows self.number ++ later)).map
          (·.self.number) = List.range _ := Row.numbers_set hrows rfl
      have hbelow : p.below ((before ++ [row]) ++ (slots.rows self.number ++ later)) row =
          (slots.nodes.filter fun c => !p.skips c).map (·.self.number) :=
        Pass.below_eq hnumbers (fun r hr => List.mem_append_right _ (List.mem_append_left _ hr)) rfl
      rw [Pass.turn_of_ok ⟨self.number, above, depth⟩ hrow hself]
      dsimp only
      rw [hset, hbelow, List.map_map, Node.pass]
      dsimp only
      rw [hself]
      dsimp only
      have hpassed : before ++ ((Node.mk { self with quantity, depth } replaced
          (slots.pass p quantity (depth + 1)).1).rows parent ++ later) =
            (before ++ [row]) ++
              ((slots.pass p quantity (depth + 1)).1.rows self.number ++ later) := by
        rw [Node.rows, Node.row_of_pass, List.cons_append, List.append_assoc, List.singleton_append]
      rw [hpassed]
      have hslots := slots.leads (before ++ [row]) later self.number quantity (depth + 1) stack
        (sofar.andThen fun ns => Noted.mapValue (ns ++ ·)
          ⟨(p.quantityOf self above).notices, .ok [self.number]⟩) hnumbers
      rw [Pass.after_after rfl] at hslots
      exact hslots

/-- The loop counts the nodes of slots on top of the stack as a pass does, and goes on with the rest
of the stack. -/
theorem Slots.leads (before later : List Row) (parent : Nat) (above : Float) (depth : UInt64)
    (stack : List Pending) (sofar : Noted EngineError (List Nat)) : ∀ s : Slots,
    (before ++ (s.rows parent ++ later)).map (·.self.number) =
      List.range (before ++ (s.rows parent ++ later)).length →
    p.Leads
      ⟨(s.nodes.filter fun c => !p.skips c).map (⟨·.self.number, above, depth⟩) ++ stack,
        before ++ (s.rows parent ++ later), sofar⟩
      (.after stack (before ++ ((s.pass p above depth).1.rows parent ++ later)) sofar
        (s.pass p above depth).2)
  | .nil, _ => by
    rw [Slots.pass, Pass.after_pure_nil]
    exact .refl _
  | .vacant _ rest, hrows => rest.leads before later parent above depth stack sofar hrows
  | .filled edge child rest, hrows => by
    -- the rows of the child, with that of the component it has replaced, come before the others
    have hsplit (child : Node) (rest : Slots) : before ++
        ((Slots.filled edge child rest).rows parent ++ later) =
          (before ++ (child.replaced.map (Row.bare (some parent))).toList) ++
            (child.rows (some parent) ++ (rest.rows parent ++ later)) := by
      rw [Slots.rows, List.append_assoc, List.append_assoc, List.append_assoc]
    rw [hsplit] at hrows ⊢
    cases hskips : p.skips child with
    | true =>
      have hnodes : ((Slots.filled edge child rest).nodes.filter fun c => !p.skips c) =
          rest.nodes.filter fun c => !p.skips c := by
        rw [Slots.nodes, List.filter_cons_of_neg (by simp [hskips])]
      have hrest := rest.leads ((before ++ (child.replaced.map (Row.bare (some parent))).toList) ++
        child.rows (some parent)) later parent above depth stack sofar
      rw [List.append_assoc _ (child.rows (some parent)),
        List.append_assoc _ (child.rows (some parent))] at hrest
      obtain ⟨hslots, hresult⟩ := @Slots.pass_of_skips p edge child rest above depth hskips
      rw [hnodes, hslots, hresult, hsplit]
      exact hrest hrows
    | false =>
      have hnodes : ((Slots.filled edge child rest).nodes.filter fun c => !p.skips c) =
          child :: rest.nodes.filter fun c => !p.skips c := by
        rw [Slots.nodes, List.filter_cons_of_pos (by simp [hskips])]
      rw [hnodes, List.map_cons, List.cons_append]
      refine (child.leads _ _ _ _ _ _ _ hrows).trans ?_
      have hreplaced : (child.pass p above depth).1.replaced = child.replaced :=
        child.pass_replaced
      rw [Slots.pass, if_neg (Bool.eq_false_iff.1 hskips)]
      dsimp only
      cases hfirst : (child.pass p above depth).2.outcome with
      | error e =>
        dsimp only
        rw [Pass.after_of_error hfirst, Pass.after_of_error rfl, hsplit, hreplaced]
        exact .refl _
      | ok first =>
        -- the child's rows keep their numbers, so the other slots find theirs
        have hnumbers : (((before ++ (child.replaced.map (Row.bare (some parent))).toList) ++
            (child.pass p above depth).1.rows (some parent)) ++ (rest.rows parent ++ later)).map
              (·.self.number) =
            ((before ++ (child.replaced.map (Row.bare (some parent))).toList) ++
              (child.rows (some parent) ++ (rest.rows parent ++ later))).map (·.self.number) := by
          simp only [List.map_append, Node.rows_pass_numbers, List.append_assoc]
        have hrest := rest.leads _ later parent above depth stack
          (sofar.andThen fun ns => (child.pass p above depth).2.mapValue (ns ++ ·))
          (Row.numbers_of_map_eq hnumbers hrows)
        rw [List.append_assoc _ ((child.pass p above depth).1.rows (some parent)),
          List.append_assoc _ ((child.pass p above depth).1.rows (some parent)),
          Pass.after_after hfirst] at hrest
        dsimp only
        rw [Pass.after_of_ok hfirst, hsplit, hreplaced]
        exact hrest

end

end

/-- A pass does to the tree what turns of the loop do to its table, until the stack is empty, and
both come to the same places with the same notices, or fail alike. -/
theorem Tree.leads_flatten {u : Tree} (hu : u.Numbered) (depth : UInt64) (excludesWip : Bool)
    (calculator : Option Calculator) :
    (u.passOf calculator excludesWip).Leads
      ⟨[⟨u.root.self.number, u.rootQuantity, depth⟩], u.table, pure []⟩
      ⟨[], (u.flatten depth excludesWip calculator).1.table,
        (u.flatten depth excludesWip calculator).2⟩ := by
  have htable : ([Row.bare none u.requested] ++ (u.root.rows none ++ []) : List Row) = u.table := by
    rw [List.append_nil]
    rfl
  have hloop := u.root.leads (p := u.passOf calculator excludesWip) [Row.bare none u.requested] []
    none u.rootQuantity depth [] (pure [])
  rw [htable, List.append_nil, Pass.after_all] at hloop
  exact hloop hu

end Bom
