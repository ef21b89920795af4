import Mathlib.Algebra.Group.Nat.Defs
import Bom.Text.Scan

/-!
# Numbers as digits

A number that is filled up with zeros reads back as itself (`ofDigits_padded`), and its text is made
of digits, of which none is blank. Texts of the same width are ordered like the numbers that they
stand for, and where the numbers are the same, what comes after them decides
(`padded_append_lt_iff`).
-/

namespace Bom.Text

/-! ## Blanks -/

/-- Nothing is cut off from a text without a blank. -/
theorem trimChars_eq_self {cs : List Char} (h : ∀ c ∈ cs, isBlank c = false) :
    trimChars cs = cs := by
  have hkeep {ds : List Char} (hds : ∀ c ∈ ds, isBlank c = false) : ds.dropWhile isBlank = ds := by
    cases ds with
    | nil => rfl
    | cons d ds => rw [List.dropWhile_cons, hds d List.mem_cons_self, if_neg Bool.false_ne_true]
  unfold trimChars
  rw [hkeep h, hkeep (fun c hc => h c (List.mem_reverse.1 hc)), List.reverse_reverse]

/-! ## Digits -/

theorem toNat_of_isDigit {c : Char} (h : c.isDigit = true) : 48 ≤ c.toNat ∧ c.toNat ≤ 57 := by
  simpa [Char.isDigit, UInt32.le_iff_toNat_le] using h

/-- A digit is not blank. -/
theorem isBlank_of_isDigit {c : Char} (h : c.isDigit = true) : isBlank c = false := by
  have := toNat_of_isDigit h
  rw [Bool.eq_false_iff]
  intro hblank
  simp only [isBlank, blankRanges, List.any_cons, List.any_nil, Bool.or_false, Bool.or_eq_true,
    Bool.and_eq_true, decide_eq_true_eq] at hblank
  omega

/-- A run of digits ends where something else begins. -/
theorem spanDigits_append_of_digits {ds rest : List Char} (hds : ∀ c ∈ ds, c.isDigit = true)
    (hrest : ∀ c ∈ rest.head?, c.isDigit = false) : spanDigits (ds ++ rest) = (ds, rest) := by
  unfold spanDigits
  rw [List.takeWhile_append_of_pos hds, List.dropWhile_append_of_pos hds]
  cases rest with
  | nil => simp
  | cons c rest => simp [hrest c rfl]

/-! ## Numbers with zeros in front -/

/-- Zeros in front do not change the number. -/
theorem ofDigits_padded (width n : Nat) : ofDigits (padded width n) = n := by
  unfold ofDigits padded
  rw [Nat.ofDigitChars_append, Nat.ofDigitChars_replicate_zero, Nat.mul_zero,
    Nat.ofDigitChars_ten_toDigits]

theorem isDigit_of_mem_padded {width n : Nat} {c : Char} (h : c ∈ padded width n) :
    c.isDigit = true := by
  rcases List.mem_append.1 h with h | h
  · obtain rfl := List.eq_of_mem_replicate h
    rfl
  · exact Nat.isDigit_of_mem_toDigits (by decide) (by decide) h

theorem le_length_padded (width n : Nat) : width ≤ (padded width n).length := by
  unfold padded
  rw [List.length_append, List.length_replicate]
  omega

/-- The last digit comes off the end. -/
theorem padded_add_two (width n : Nat) :
    padded (width + 2) n = padded (width + 1) (n / 10) ++ [Nat.digitChar (n % 10)] := by
  unfold padded
  dsimp only
  rw [Nat.toDigits_eq_if (n := n) (by decide)]
  split
  · next h =>
    rw [Nat.div_eq_of_lt h, Nat.mod_eq_of_lt h, Nat.toDigits_of_lt_base (by decide)]
    simp only [List.length_singleton, Nat.add_sub_cancel, Nat.add_succ_sub_one]
    rw [List.replicate_succ']
    rfl
  · simp only [List.length_append, List.length_singleton, Nat.reduceSubDiff, List.append_assoc]

/-- Digits are ordered like the numbers that they stand for. -/
theorem digitChar_lt_iff {a b : Nat} (ha : a < 10) (hb : b < 10) :
    Nat.digitChar a < Nat.digitChar b ↔ a < b := by
  rw [Char.lt_def, UInt32.lt_iff_toNat_lt]
  change (Nat.digitChar a).toNat < (Nat.digitChar b).toNat ↔ _
  rw [Nat.toNat_digitChar_of_lt_ten ha, Nat.toNat_digitChar_of_lt_ten hb]
  omega

theorem digitChar_inj {a b : Nat} (ha : a < 10) (hb : b < 10) :
    Nat.digitChar a = Nat.digitChar b ↔ a = b := by
  constructor
  · intro h
    have := congrArg Char.toNat h
    rw [Nat.toNat_digitChar_of_lt_ten ha, Nat.toNat_digitChar_of_lt_ten hb] at this
    omega
  · rintro rfl
    rfl

/-- Of two texts that begin with numbers of the same width, the one with the smaller number comes
first, and for the same number the rest decides. -/
theorem padded_append_lt_iff {width a b : Nat} {s t : List Char} (ha : a < 10 ^ (width + 1))
    (hb : b < 10 ^ (width + 1)) :
    padded (width + 1) a ++ s < padded (width + 1) b ++ t ↔ a < b ∨ a = b ∧ s < t := by
  induction width generalizing a b s t with
  | zero =>
    have hone {n : Nat} (hn : n < 10) : padded 1 n = [Nat.digitChar n] := by
      unfold padded
      rw [Nat.toDigits_of_lt_base hn]
      rfl
    rw [hone ha, hone hb, List.singleton_append, List.singleton_append, List.cons_lt_cons_iff,
      digitChar_lt_iff ha hb, digitChar_inj ha hb]
  | succ width ih =>
    have hlast (n : Nat) : n % 10 < 10 := Nat.mod_lt n (by decide)
    rw [padded_add_two, padded_add_two, List.append_assoc, List.append_assoc,
      List.singleton_append, List.singleton_append, ih (by omega) (by omega),
      List.cons_lt_cons_iff, digitChar_lt_iff (hlast a) (hlast b),
      digitChar_inj (hlast a) (hlast b)]
    grind

end Bom.Text
