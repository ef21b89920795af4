import Bom.Text.Blank

/-!
# Reading a text from the left

The readers of numbers, dates and structured texts take a list of characters and return what they
read together with what is left.

* `spanDigits`, `spanDigitsUpTo`: the leading decimal digits, all of them or up to a limit.
* `number`, `numberUpTo`: the numbers that they stand for.
* `ofDigitsUpTo`: the same for a number that stops growing at a bound.
* `expect`: one given character.
* `padded`: the decimal digits of a number, filled up with zeros on the left.
* `occursIn`: a word that stands somewhere in a text.
-/

namespace Bom.Text

/-- A reader returns its result and the characters after it, or nothing if it cannot read. -/
abbrev Scan (α : Type) := List Char → Option (α × List Char)

/-- The leading run of ASCII decimal digits and the rest. -/
def spanDigits (cs : List Char) : List Char × List Char :=
  (cs.takeWhile Char.isDigit, cs.dropWhile Char.isDigit)

/-- Nothing is lost. -/
theorem spanDigits_append (cs : List Char) : (spanDigits cs).1 ++ (spanDigits cs).2 = cs :=
  List.takeWhile_append_dropWhile

/-- The run is made of digits. -/
theorem isDigit_of_mem_spanDigits {cs : List Char} {c : Char} (h : c ∈ (spanDigits cs).1) :
    c.isDigit = true :=
  List.all_eq_true.1 List.all_takeWhile c h

/-- The rest does not begin with a digit. -/
theorem isDigit_head_spanDigits {cs : List Char} {c : Char} (h : (spanDigits cs).2.head? = some c) :
    c.isDigit = false := by
  have := List.head?_dropWhile_not Char.isDigit cs
  simp only [spanDigits] at h
  simpa [h] using this

/-- The number that a run of decimal digits stands for. -/
def ofDigits (ds : List Char) : Nat :=
  Nat.ofDigitChars 10 ds 0

/-- The number that a run of digits stands for, where a number that has reached the bound takes no
more digits: each digit after that turns it into what `beyond` says. -/
def ofDigitsUpTo (bound : Nat) (beyond : Nat → Nat) (ds : List Char) : Nat :=
  ds.foldl (fun n c => if n < bound then 10 * n + (c.toNat - '0'.toNat) else beyond n) 0

/-- One more digit does not make a number smaller. -/
theorem le_ofDigitChars (ds : List Char) (n : Nat) : n ≤ Nat.ofDigitChars 10 ds n := by
  induction ds generalizing n with
  | nil => exact Nat.le_refl n
  | cons c ds ih =>
    have := ih (10 * n + (c.toNat - '0'.toNat))
    rw [Nat.ofDigitChars_cons]
    omega

/-- A number of one digit more than the bound has is still read exactly. -/
theorem ofDigitsUpTo_eq {bound : Nat} {beyond : Nat → Nat} {ds : List Char}
    (h : ofDigits ds < 10 * bound) : ofDigitsUpTo bound beyond ds = ofDigits ds := by
  unfold ofDigitsUpTo
  unfold ofDigits at h ⊢
  generalize 0 = n at h ⊢
  induction ds generalizing n with
  | nil => rfl
  | cons c ds ih =>
    rw [Nat.ofDigitChars_cons] at h ⊢
    have := le_ofDigitChars ds (10 * n + (c.toNat - '0'.toNat))
    rw [List.foldl_cons, if_pos (by omega)]
    exact ih _ h

/-- At most `limit` leading digits, and the rest. -/
def spanDigitsUpTo : Nat → List Char → List Char × List Char
  | limit + 1, c :: cs =>
    if c.isDigit then
      let (ds, rest) := spanDigitsUpTo limit cs
      (c :: ds, rest)
    else ([], c :: cs)
  | _, cs => ([], cs)

/-- A number of one to `limit` digits. Digits beyond the limit are left unread. -/
def numberUpTo (limit : Nat) : Scan Nat := fun cs =>
  match spanDigitsUpTo limit cs with
  | ([], _) => none
  | (ds, rest) => some (ofDigits ds, rest)

/-- A number of at least one digit. -/
def number : Scan Nat := fun cs =>
  match spanDigits cs with
  | ([], _) => none
  | (ds, rest) => some (ofDigits ds, rest)

/-- Drops the blanks in front. -/
def skipBlanks (cs : List Char) : List Char :=
  cs.dropWhile isBlank

/-- The rest after the given character, which must stand first. -/
def expect (c : Char) : List Char → Option (List Char)
  | d :: rest => if d = c then some rest else none
  | [] => none

/-- The decimal digits of a number, with zeros in front up to the given width. -/
def padded (width n : Nat) : List Char :=
  let ds := Nat.toDigits 10 n
  List.replicate (width - ds.length) '0' ++ ds

/-- The word stands somewhere in the text. -/
def occursIn (word : List Char) : List Char → Bool
  | [] => word.isEmpty
  | c :: cs => word.isPrefixOf (c :: cs) || occursIn word cs

end Bom.Text
