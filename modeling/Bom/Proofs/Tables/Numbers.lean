import Mathlib.Data.List.Basic
import Bom.Tables.Table

/-!
# Numbers that are free

The number of a row that is given none is always free (`Table.hasNumber_nextNumber`): it is above
all others, or, after the greatest word, the first free one of a run that is longer than the table.
So a row that is added takes the place of no other, however many rows there are, and only its place
among them depends on the numbers (`Table.rows_add_perm`, `Table.rows_put_perm`). The others keep
theirs, so they are found as before (`Table.find?_rows_add`, `Table.filter_rows_put`), and what holds
of all rows has to be shown of the new one only (`Table.forall_rows_put`). With each row that is put
or added the numbers grow by at most one (`Table.le_of_mem_put`).
-/

namespace Bom

/-- An injective function leaves a list within as many steps as the list has entries. -/
theorem exists_not_mem_of_injective {κ : Type} {f : Nat → κ} (hf : Function.Injective f)
    (taken : List κ) : ∃ k ≤ taken.length, f k ∉ taken := by
  by_contra hall
  push Not at hall
  have hsub : (List.range (taken.length + 1)).map f ⊆ taken := by
    intro a ha
    obtain ⟨k, hk, rfl⟩ := List.mem_map.1 ha
    exact hall k (Nat.lt_succ_iff.1 (List.mem_range.1 hk))
  have hnodup : ((List.range (taken.length + 1)).map f).Nodup :=
    List.Pairwise.map f (fun _ _ hne heq => hne (hf heq)) List.nodup_range
  have hle := hnodup.length_le_of_subset hsub
  rw [List.length_map, List.length_range] at hle
  omega

namespace Table

variable {α κ : Type}

theorem hasNumber_eq_false {t : Table α} {n : Int} :
    t.hasNumber n = false ↔ n ∉ t.entries.map Prod.fst := by
  unfold hasNumber
  simp only [List.any_eq_false, decide_eq_true_eq, List.mem_map, not_exists, not_and]

/-- A search that comes to a free number ends with one. -/
theorem hasNumber_freeFrom {t : Table α} : ∀ {steps : Nat} {n : Int},
    (∃ k ≤ steps, t.hasNumber (n + k) = false) → t.hasNumber (t.freeFrom steps n) = false
  | 0, n, ⟨k, hk, hfree⟩ => by
    obtain rfl := Nat.le_zero.1 hk
    rwa [Int.natCast_zero, Int.add_zero] at hfree
  | steps + 1, n, ⟨k, hk, hfree⟩ => by
    unfold freeFrom
    split
    · next htaken =>
      refine hasNumber_freeFrom ?_
      cases k with
      | zero => simp [htaken] at hfree
      | succ k =>
        refine ⟨k, Nat.le_of_succ_le_succ hk, ?_⟩
        rwa [Int.natCast_succ, Int.add_comm k 1, ← Int.add_assoc] at hfree
    · next hfree => exact Bool.eq_false_iff.2 hfree

/-- The number of a row that is given none is free. -/
theorem hasNumber_nextNumber (t : Table α) : t.hasNumber t.nextNumber = false := by
  unfold nextNumber
  split
  · next hnone =>
    have : t.entries = [] := by simpa [last?] using hnone
    simp [hasNumber, this]
  · next n hlast =>
    split
    · refine hasNumber_eq_false.2 fun hmem => ?_
      obtain ⟨e, he, hnumber⟩ := List.mem_map.1 hmem
      have := le_last hlast e he
      omega
    · refine hasNumber_freeFrom ?_
      have hinj : Function.Injective fun k : Nat => maxWord / 2 + (k : Int) := fun a b h =>
        Int.ofNat.inj (Int.add_left_cancel h)
      obtain ⟨k, hk, hfree⟩ := exists_not_mem_of_injective hinj (t.entries.map Prod.fst)
      exact ⟨k, by simpa using hk, hasNumber_eq_false.2 hfree⟩

/-- The entries of a table lie below and above a free number. -/
theorem entries_split : ∀ {entries : List (Int × α)} {n : Int},
    (entries.Pairwise fun a b => a.1 < b.1) → (∀ e ∈ entries, e.1 ≠ n) →
      entries.filter (·.1 < n) ++ entries.filter (n < ·.1) = entries
  | [], _, _, _ => rfl
  | e :: entries, n, hasc, hfree => by
    obtain ⟨hall, hasc⟩ := List.pairwise_cons.1 hasc
    obtain ⟨hne, hfree⟩ := List.forall_mem_cons.1 hfree
    rcases Int.lt_or_gt_of_ne hne with hlt | hgt
    · have hbelow : ¬ decide (n < e.1) = true := by simpa using Int.le_of_lt hlt
      rw [List.filter_cons, if_pos (decide_eq_true hlt), List.filter_cons, if_neg hbelow,
        List.cons_append, entries_split hasc hfree]
    · have habove (f : Int × α) (hf : f ∈ e :: entries) : n < f.1 := by
        rcases List.mem_cons.1 hf with rfl | hf
        · exact hgt
        · exact Int.lt_trans hgt (hall f hf)
      rw [List.filter_eq_nil_iff.2 fun f hf => by simpa using Int.le_of_lt (habove f hf),
        List.filter_eq_self.2 fun f hf => decide_eq_true (habove f hf), List.nil_append]

/-- Under a free number a row goes between two others, or to one of the ends. -/
theorem rows_insertAt_split {t : Table α} {n : Int} (row : α) (hfree : t.hasNumber n = false) :
    ∃ before after, t.rows = before ++ after ∧
      (t.insertAt n row).rows = before ++ row :: after := by
  have hsplit := entries_split (n := n) t.ascending fun e he hnumber =>
    hasNumber_eq_false.1 hfree (hnumber ▸ List.mem_map_of_mem he)
  refine ⟨(t.entries.filter (·.1 < n)).map Prod.snd, (t.entries.filter (n < ·.1)).map Prod.snd,
    ?_, ?_⟩
  · rw [← List.map_append, hsplit]
    rfl
  · exact List.map_append

/-- Under a free number a row takes the place of no other. -/
theorem rows_insertAt_perm {t : Table α} {n : Int} (row : α) (hfree : t.hasNumber n = false) :
    (t.insertAt n row).rows.Perm (row :: t.rows) := by
  obtain ⟨before, after, hrows, hmore⟩ := rows_insertAt_split row hfree
  rw [hrows, hmore]
  exact List.perm_middle

/-- What only a row that is added can be found by is found in this row, and all else is found where
it was. -/
theorem find?_rows_add {p : α → Bool} (t : Table α) (row : α)
    (h : p row = true → t.rows.find? p = none) :
    (t.add row).rows.find? p = if p row then some row else t.rows.find? p := by
  obtain ⟨before, after, hrows, hmore⟩ := rows_insertAt_split row t.hasNumber_nextNumber
  change (t.insertAt t.nextNumber row).rows.find? p = _
  rw [hmore, hrows, List.find?_append, List.find?_append, List.find?_cons]
  rw [hrows, List.find?_append] at h
  cases hp : p row with
  | false => rfl
  | true =>
    obtain ⟨hbefore, -⟩ := Option.or_eq_none_iff.1 (h hp)
    rw [hbefore]
    rfl

/-- A row that is added is there besides the others. -/
theorem rows_add_perm (t : Table α) (row : α) : (t.add row).rows.Perm (row :: t.rows) :=
  rows_insertAt_perm row t.hasNumber_nextNumber

/-- The number of a row that is put is free among the rows that are kept. -/
theorem hasNumber_keep_next [DecidableEq κ] (t : Table α) (key : α → κ) (row : α) :
    (t.keep fun r => key r ≠ key row).hasNumber t.nextNumber = false := by
  refine hasNumber_eq_false.2 fun hmem => hasNumber_eq_false.1 t.hasNumber_nextNumber ?_
  obtain ⟨e, he, hnumber⟩ := List.mem_map.1 hmem
  exact List.mem_map.2 ⟨e, (List.mem_filter.1 he).1, hnumber⟩

/-- A row that is put leaves all rows alone that can be told from the rows of its key. -/
theorem filter_rows_put [DecidableEq κ] (t : Table α) {key : α → κ} {row : α} {p : α → Bool}
    (hp : ∀ r, key r = key row → p r = false) :
    (t.put key row).rows.filter p = t.rows.filter p := by
  obtain ⟨before, after, hrows, hmore⟩ := rows_insertAt_split row (t.hasNumber_keep_next key row)
  have hput : (t.put key row).rows = before ++ row :: after := hmore
  have hkept : before ++ after = t.rows.filter (key · ≠ key row) := hrows.symm.trans (rows_keep ..)
  rw [hput, List.filter_append, List.filter_cons_of_neg (by simp [hp row rfl]),
    ← List.filter_append, hkept, List.filter_filter]
  refine List.filter_congr fun r _ => ?_
  by_cases hr : key r = key row
  · rw [hp r hr]
    rfl
  · simp [hr]

/-- A row that is put is there besides the rows of other keys. -/
theorem rows_put_perm [DecidableEq κ] (t : Table α) (key : α → κ) (row : α) :
    (t.put key row).rows.Perm (row :: t.rows.filter (key · ≠ key row)) := by
  have hperm := rows_insertAt_perm row (t.hasNumber_keep_next key row)
  rwa [rows_keep] at hperm

/-! ## What holds of all rows -/

theorem mem_insertAt {t : Table α} {n : Int} {row : α} {e : Int × α}
    (h : e ∈ (t.insertAt n row).entries) : e ∈ t.entries ∨ e = (n, row) := by
  rcases List.mem_append.1 h with h | h
  · exact .inl (List.mem_filter.1 h).1
  · rcases List.mem_cons.1 h with h | h
    · exact .inr h
    · exact .inl (List.mem_filter.1 h).1

/-- What holds of all rows and of one more holds of all rows with that one, wherever it goes. -/
theorem forall_rows_insertAt {t : Table α} {n : Int} {row : α} {p : α → Prop} (hrow : p row)
    (h : ∀ r ∈ t.rows, p r) : ∀ r ∈ (t.insertAt n row).rows, p r := by
  intro r hr
  obtain ⟨e, he, rfl⟩ := List.mem_map.1 hr
  rcases mem_insertAt he with he | rfl
  · exact h e.2 (List.mem_map_of_mem he)
  · exact hrow

theorem forall_rows_put [DecidableEq κ] {t : Table α} {key : α → κ} {row : α} {p : α → Prop}
    (hrow : p row) (h : ∀ r ∈ t.rows, p r) : ∀ r ∈ (t.put key row).rows, p r := by
  refine forall_rows_insertAt hrow fun r hr => ?_
  rw [rows_keep] at hr
  exact h r (List.mem_of_mem_filter hr)

/-! ## Bounds on the numbers -/

theorem nextNumber_le {t : Table α} {n : Int} (h : ∀ e ∈ t.entries, e.1 ≤ n) (hn : 0 ≤ n)
    (hmax : n < maxWord) : t.nextNumber ≤ n + 1 := by
  unfold nextNumber
  split
  · omega
  · next last hlast =>
    obtain ⟨l, hl, rfl⟩ := Option.map_eq_some_iff.1 hlast
    have := h l (List.mem_of_getLast? hl)
    rw [if_pos (by omega)]
    omega

/-- A row that is put into a table gets a number that is at most one more than the others. -/
theorem le_of_mem_put [DecidableEq κ] {t : Table α} {key : α → κ} {row : α} {n : Int}
    (h : ∀ e ∈ t.entries, e.1 ≤ n) (hn : 0 ≤ n) (hmax : n < maxWord) :
    ∀ e ∈ (t.put key row).entries, e.1 ≤ n + 1 := by
  intro e he
  rcases mem_insertAt he with he | rfl
  · have := h e (List.mem_filter.1 he).1
    omega
  · exact nextNumber_le h hn hmax

end Table

end Bom
