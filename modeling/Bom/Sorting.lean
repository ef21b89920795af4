/-!
# Stable sorting and keyed rows

* `sortWith`: the stable sort by insertion, with elements that compare equal left in their order.
* `sortBy`: the stable sort by a whole number.
* `putBy`: a list of rows with a key, where a new row takes the place of the row of its key and goes
  to the end.

`sortWith_perm` says that sorting loses nothing, `sortWith_pairwise` that the list is sorted and
stable afterwards, and `filter_sortBy` that the elements of one number keep their order.
`sortWith_map` and `putBy_map` are about elements that are changed and rows that are written in
another form, and `find?_key_eq_some` says that a row is found by its key.
-/

namespace Bom

variable {α κ : Type}

/-- Puts an element in front of the first one that it does not come after. -/
def insertWith (le : α → α → Bool) (a : α) : List α → List α
  | [] => [a]
  | b :: bs => if le a b then a :: b :: bs else b :: insertWith le a bs

/-- Sorts a list and leaves elements that compare equal in their order. -/
def sortWith (le : α → α → Bool) (xs : List α) : List α :=
  xs.foldr (insertWith le) []

/-- Sorts a list by a whole number and leaves elements of equal numbers in their order. -/
def sortBy (key : α → Int) (xs : List α) : List α :=
  sortWith (fun a b => key a ≤ key b) xs

theorem insertWith_perm (le : α → α → Bool) (a : α) :
    ∀ bs : List α, (insertWith le a bs).Perm (a :: bs)
  | [] => .refl _
  | b :: bs => by
    unfold insertWith
    split
    · exact .refl _
    · exact ((insertWith_perm le a bs).cons b).trans (.swap a b bs)

theorem sortWith_perm (le : α → α → Bool) : ∀ xs : List α, (sortWith le xs).Perm xs
  | [] => .refl _
  | a :: xs => (insertWith_perm le a (sortWith le xs)).trans ((sortWith_perm le xs).cons a)

theorem sortBy_perm (key : α → Int) (xs : List α) : (sortBy key xs).Perm xs :=
  sortWith_perm _ xs

@[simp] theorem mem_sortBy {key : α → Int} {a : α} {xs : List α} : a ∈ sortBy key xs ↔ a ∈ xs :=
  (sortBy_perm key xs).mem_iff

@[simp] theorem length_sortBy (key : α → Int) (xs : List α) : (sortBy key xs).length = xs.length :=
  (sortBy_perm key xs).length_eq

/-- An insertion keeps a list sorted, and stable with regard to a relation that the inserted element
has to all others. -/
theorem insertWith_pairwise {R : α → α → Prop} {le : α → α → Bool}
    (htotal : ∀ a b, le a b = true ∨ le b a = true)
    (htrans : ∀ a b c, le a b = true → le b c = true → le a c = true) {a : α} {bs : List α}
    (ha : ∀ b ∈ bs, R a b)
    (h : bs.Pairwise fun b c => le b c = true ∧ (le c b = true → R b c)) :
    (insertWith le a bs).Pairwise fun b c => le b c = true ∧ (le c b = true → R b c) := by
  induction bs with
  | nil => simp [insertWith]
  | cons b bs ih =>
    have ⟨hb, hbs⟩ := List.pairwise_cons.1 h
    unfold insertWith
    split
    next hab =>
      refine List.pairwise_cons.2 ⟨fun c hc => ⟨?_, fun _ => ha c hc⟩, h⟩
      rcases List.mem_cons.1 hc with rfl | hc
      · exact hab
      · exact htrans a b c hab (hb c hc).1
    next hab =>
      refine List.pairwise_cons.2 ⟨fun c hc => ?_, ih (fun c hc => ha c (.tail _ hc)) hbs⟩
      rcases List.mem_cons.1 ((insertWith_perm le a bs).mem_iff.1 hc) with rfl | hc
      · exact ⟨(htotal c b).resolve_left hab, fun hcb => absurd hcb hab⟩
      · exact hb c hc

/-- After sorting by a total order the list is sorted, and elements that compare equal are related
as they were before. -/
theorem sortWith_pairwise {R : α → α → Prop} {le : α → α → Bool}
    (htotal : ∀ a b, le a b = true ∨ le b a = true)
    (htrans : ∀ a b c, le a b = true → le b c = true → le a c = true) {xs : List α}
    (h : xs.Pairwise R) :
    (sortWith le xs).Pairwise fun a b => le a b = true ∧ (le b a = true → R a b) := by
  induction xs with
  | nil => exact .nil
  | cons a xs ih =>
    have ⟨ha, hxs⟩ := List.pairwise_cons.1 h
    exact insertWith_pairwise htotal htrans
      (fun b hb => ha b ((sortWith_perm le xs).mem_iff.1 hb)) (ih hxs)

/-- After sorting, the numbers ascend, and elements of equal numbers are related as they were
before. -/
theorem sortBy_pairwise {R : α → α → Prop} (key : α → Int) {xs : List α} (h : xs.Pairwise R) :
    (sortBy key xs).Pairwise fun a b => key a < key b ∨ key a = key b ∧ R a b := by
  have hsorted : (sortBy key xs).Pairwise fun a b =>
      decide (key a ≤ key b) = true ∧ (decide (key b ≤ key a) = true → R a b) :=
    sortWith_pairwise (by simp; omega) (by simp; omega) h
  refine hsorted.imp fun ⟨hle, hsame⟩ => ?_
  rcases Int.lt_or_eq_of_le (of_decide_eq_true hle) with hlt | heq
  · exact .inl hlt
  · exact .inr ⟨heq, hsame (decide_eq_true (Int.le_of_eq heq.symm))⟩

/-- After sorting, the numbers ascend. -/
theorem sortBy_sorted (key : α → Int) (xs : List α) :
    (sortBy key xs).Pairwise fun a b => key a ≤ key b :=
  (sortBy_pairwise key (List.pairwise_of_forall fun _ _ => trivial)).imp fun h => by omega

/-- Among the elements of one number, an inserted one comes first. -/
theorem filter_insertWith (key : α → Int) (k : Int) (a : α) (bs : List α) :
    (insertWith (fun b c => key b ≤ key c) a bs).filter (key · = k) =
      (a :: bs).filter (key · = k) := by
  induction bs with
  | nil => rfl
  | cons b bs ih =>
    unfold insertWith
    split
    · rfl
    next hab =>
      have hab : ¬ key a ≤ key b := by simpa using hab
      rw [List.filter_cons, ih]
      by_cases ha : key a = k <;> by_cases hb : key b = k <;> simp [ha, hb]
      omega

/-- The elements of one number keep their order. -/
theorem filter_sortBy (key : α → Int) (k : Int) (xs : List α) :
    (sortBy key xs).filter (key · = k) = xs.filter (key · = k) := by
  induction xs with
  | nil => rfl
  | cons a xs ih =>
    calc (sortBy key (a :: xs)).filter (key · = k)
        = (a :: sortBy key xs).filter (key · = k) := filter_insertWith key k a (sortBy key xs)
      _ = (a :: xs).filter (key · = k) := by rw [List.filter_cons, List.filter_cons, ih]

/-- What is changed without a change to the order is sorted in the same way. -/
theorem sortWith_map {β : Type} {f : α → β} {le : α → α → Bool} {le' : β → β → Bool}
    (h : ∀ a b, le' (f a) (f b) = le a b) (xs : List α) :
    sortWith le' (xs.map f) = (sortWith le xs).map f := by
  have hinsert (a : α) (bs : List α) :
      insertWith le' (f a) (bs.map f) = (insertWith le a bs).map f := by
    induction bs with
    | nil => rfl
    | cons b bs ih =>
      simp only [List.map_cons, insertWith, h, ih]
      split <;> rfl
  induction xs with
  | nil => rfl
  | cons a xs ih =>
    change insertWith le' (f a) (sortWith le' (xs.map f)) = _
    rw [ih, hinsert]
    rfl

theorem sortBy_map {β : Type} {f : α → β} {key : α → Int} {key' : β → Int}
    (h : ∀ a, key' (f a) = key a) (xs : List α) : sortBy key' (xs.map f) = (sortBy key xs).map f :=
  sortWith_map (fun a b => by rw [h, h]) xs

/-- The rows with a new one at the end, less the row that had its key. -/
def putBy [DecidableEq κ] (key : α → κ) (row : α) (rows : List α) : List α :=
  rows.filter (fun r => key r ≠ key row) ++ [row]

/-- A new row is among the rows, and so is every row of another key. -/
@[simp] theorem mem_putBy [DecidableEq κ] {key : α → κ} {row r : α} {rows : List α} :
    r ∈ putBy key row rows ↔ r ∈ rows ∧ key r ≠ key row ∨ r = row := by
  simp [putBy]

/-- A new row takes the same place among rows that are changed, if their keys stay apart. -/
theorem putBy_map {β ν : Type} [DecidableEq κ] [DecidableEq ν] {key : α → κ} {key' : β → ν}
    {f : α → β} (h : ∀ a b, key' (f a) = key' (f b) ↔ key a = key b) (row : α) (rows : List α) :
    putBy key' (f row) (rows.map f) = (putBy key row rows).map f := by
  have hkeys : (fun r => decide (key' r ≠ key' (f row))) ∘ f = fun r => decide (key r ≠ key row) :=
    funext fun r => decide_eq_decide.2 (not_congr (h r row))
  unfold putBy
  rw [List.filter_map, hkeys, List.map_append]
  rfl

/-- Where no two rows have one key, a row is found by its key. -/
theorem find?_key_eq_some [DecidableEq κ] {rows : List α} {key : α → κ} (h : (rows.map key).Nodup)
    {k : κ} {row : α} : rows.find? (key · = k) = some row ↔ row ∈ rows ∧ key row = k := by
  induction rows with
  | nil => simp
  | cons first rows ih =>
    have ⟨hfirst, hrows⟩ := List.nodup_cons.1 h
    rw [List.find?_cons, List.mem_cons]
    by_cases hk : key first = k
    · have hothers : ¬ (row ∈ rows ∧ key row = k) := fun ⟨hrow, hkey⟩ =>
        hfirst (List.mem_map.2 ⟨row, hrow, hkey.trans hk.symm⟩)
      grind
    · grind

/-- A row with a new key is added. -/
theorem putBy_of_not_mem [DecidableEq κ] {key : α → κ} {row : α} {rows : List α}
    (h : key row ∉ rows.map key) : putBy key row rows = rows ++ [row] := by
  have hkept : rows.filter (fun r => key r ≠ key row) = rows := by
    refine List.filter_eq_self.2 fun r hr => decide_eq_true fun hkey => h ?_
    rw [← hkey]
    exact List.mem_map_of_mem hr
  unfold putBy
  rw [hkept]

end Bom
