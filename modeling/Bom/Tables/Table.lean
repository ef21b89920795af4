import Bom.Decimal.Numeral
import Bom.Sorting

/-!
# Tables with numbered rows

The rows of a table have numbers and stand in the order of their numbers. A row that is added gets
the number after the last one, so it goes to the end. Only a row that is given its number can go
elsewhere, and after the greatest word any number that is free will do.

* `Table`: rows with ascending numbers, and `Table.rows`, the rows in this order.
* `Table.nextNumber`: the number of a row that is given none.
* `Table.insertAt`, `Table.add`: one more row, with a given number or with the next.
* `Table.put`, `Table.set`: a row in place of the one with its key, under a new number or the old
  one.

`rows_add` and `rows_put` say what adding and putting do to the rows, as long as the numbers last.
-/

namespace Bom

/-- Rows with ascending numbers. -/
structure Table (α : Type) where
  entries : List (Int × α)
  ascending : entries.Pairwise fun a b => a.1 < b.1

namespace Table

variable {α κ : Type}

/-- The table without a row. -/
def empty : Table α := ⟨[], .nil⟩

/-- The rows in the order of their numbers. -/
def rows (t : Table α) : List α := t.entries.map Prod.snd

/-- Some row has the given number. -/
def hasNumber (t : Table α) (n : Int) : Bool := t.entries.any (·.1 = n)

/-- The greatest number of a row. -/
def last? (t : Table α) : Option Int := t.entries.getLast?.map Prod.fst

/-- A number that no row has: the first one from the given one on, looked for in a few steps. -/
def freeFrom (t : Table α) : Nat → Int → Int
  | 0, n => n
  | steps + 1, n => if t.hasNumber n then t.freeFrom steps (n + 1) else n

/-- The number of a row that is given none: 1 in a table without rows, else one more than the last.
After the greatest word it is a free one from the middle of the words. -/
def nextNumber (t : Table α) : Int :=
  match t.last? with
  | none => 1
  | some n => if n < maxWord then n + 1 else t.freeFrom t.entries.length (maxWord / 2)

/-- One more row, with the given number. A row that has the number already makes way. -/
def insertAt (t : Table α) (n : Int) (row : α) : Table α where
  entries := t.entries.filter (·.1 < n) ++ (n, row) :: t.entries.filter (n < ·.1)
  ascending := by
    have below : ∀ e ∈ t.entries.filter (·.1 < n), e.1 < n := by simp
    have above : ∀ e ∈ t.entries.filter (n < ·.1), n < e.1 := by simp
    refine List.pairwise_append.2 ⟨t.ascending.filter _, ?_, fun a ha b hb => ?_⟩
    · exact List.pairwise_cons.2 ⟨fun e he => above e he, t.ascending.filter _⟩
    · rcases List.mem_cons.1 hb with rfl | hb
      · exact below a ha
      · exact Int.lt_trans (below a ha) (above b hb)

/-- One more row, with the next number. -/
def add (t : Table α) (row : α) : Table α := t.insertAt t.nextNumber row

/-- The rows that have a property, with their numbers. -/
def keep (t : Table α) (p : α → Bool) : Table α :=
  ⟨t.entries.filter fun e => p e.2, t.ascending.filter _⟩

/-- A row in place of the one with its key, under the next number. -/
def put [DecidableEq κ] (key : α → κ) (row : α) (t : Table α) : Table α :=
  (t.keep fun r => key r ≠ key row).insertAt t.nextNumber row

/-- A row in place of the one with its key, under the number of that one, or else under the next. -/
def set [DecidableEq κ] (key : α → κ) (row : α) (t : Table α) : Table α :=
  if t.rows.any (key · = key row) then
    ⟨t.entries.map fun e => (e.1, if key e.2 = key row then row else e.2),
      List.pairwise_map.2 t.ascending⟩
  else t.add row

/-- A row whose number is above all others goes to the end. -/
theorem rows_insertAt_of_lt {t : Table α} {n : Int} (row : α) (h : ∀ e ∈ t.entries, e.1 < n) :
    (t.insertAt n row).rows = t.rows ++ [row] := by
  have below : t.entries.filter (·.1 < n) = t.entries :=
    List.filter_eq_self.2 fun e he => decide_eq_true (h e he)
  have above : t.entries.filter (n < ·.1) = [] :=
    List.filter_eq_nil_iff.2 fun e he => by simpa using Int.le_of_lt (h e he)
  simp only [rows, insertAt, below, above, List.map_append, List.map_cons, List.map_nil]

/-- No number is above the last one. -/
theorem le_last {t : Table α} {n : Int} (h : t.last? = some n) : ∀ e ∈ t.entries, e.1 ≤ n := by
  obtain ⟨l, hl, rfl⟩ := Option.map_eq_some_iff.1 h
  obtain ⟨front, hf⟩ := List.getLast?_eq_some_iff.1 hl
  intro e he
  have asc := t.ascending
  rw [hf] at asc he
  rcases List.mem_append.1 he with he | he
  · exact Int.le_of_lt ((List.pairwise_append.1 asc).2.2 e he l (List.mem_singleton_self l))
  · exact Int.le_of_eq (congrArg Prod.fst (List.mem_singleton.1 he))

/-- The next number is above all others, as long as the numbers last. -/
theorem lt_nextNumber {t : Table α} (h : ∀ e ∈ t.entries, e.1 < maxWord) :
    ∀ e ∈ t.entries, e.1 < t.nextNumber := by
  intro e he
  unfold nextNumber
  split
  · next hn =>
    have : t.entries = [] := by simpa [last?] using hn
    simp [this] at he
  · next n hn =>
    have hle := le_last hn e he
    have hlt : n < maxWord := by
      obtain ⟨l, hl, rfl⟩ := Option.map_eq_some_iff.1 hn
      exact h l (List.mem_of_getLast? hl)
    rw [if_pos hlt]
    omega

/-- A row that is added goes to the end. -/
theorem rows_add {t : Table α} (row : α) (h : ∀ e ∈ t.entries, e.1 < maxWord) :
    (t.add row).rows = t.rows ++ [row] :=
  rows_insertAt_of_lt row (lt_nextNumber h)

/-- The rows that have a property keep their order. -/
theorem rows_keep (t : Table α) (p : α → Bool) : (t.keep p).rows = t.rows.filter p := by
  simp only [keep, rows, List.filter_map, Function.comp_def]

/-- The row with the key of a new one goes, and the new one stands at the end. -/
theorem rows_put [DecidableEq κ] {t : Table α} (key : α → κ) (row : α)
    (h : ∀ e ∈ t.entries, e.1 < maxWord) : (t.put key row).rows = putBy key row t.rows := by
  unfold put putBy
  rw [rows_insertAt_of_lt row fun e he => lt_nextNumber h e (List.mem_filter.1 he).1, rows_keep]

end Table

end Bom
