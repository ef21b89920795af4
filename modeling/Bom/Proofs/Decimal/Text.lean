import Bom.Decimal.Shortest
import Bom.Proofs.Decimal.Double
import Bom.Proofs.Text

/-!
# Doubles and their texts

The text of a double is read back as that double (`readFinite_floatText`), if it is finite: a text
is only written when it reads back, and what is written when no short text does, the exact value,
always does (`Binary.shortest_toFloat`). The names of the doubles that are not finite are read back
as nothing.

On the way, the text of a decimal fraction is read as the fraction itself (`Plain.read_text`).
-/

namespace Bom

open Text Float.Model

/-! ## The text of a decimal fraction -/

namespace Plain

/-- The digits before the point. -/
def whole (p : Plain) : List Char :=
  (padded (p.places + 1) p.digits).take ((padded (p.places + 1) p.digits).length - p.places)

/-- The digits after the point. -/
def fraction (p : Plain) : List Char := (padded (p.places + 1) p.digits).drop p.whole.length

theorem whole_append_fraction (p : Plain) :
    p.whole ++ p.fraction = padded (p.places + 1) p.digits := by
  unfold fraction
  rw [show p.whole.length = (padded (p.places + 1) p.digits).length - p.places by
    unfold whole
    rw [List.length_take]
    omega]
  exact List.take_append_drop _ _

theorem length_fraction (p : Plain) : p.fraction.length = p.places := by
  have := le_length_padded (p.places + 1) p.digits
  unfold fraction whole
  rw [List.length_drop, List.length_take]
  omega

theorem whole_ne_nil (p : Plain) : p.whole ≠ [] := by
  intro h
  have := le_length_padded (p.places + 1) p.digits
  have hlength := congrArg List.length p.whole_append_fraction
  rw [List.length_append, h, p.length_fraction, List.length_nil] at hlength
  omega

/-- A text has a point just when there are digits after it. -/
theorem text_eq (p : Plain) :
    p.text = p.whole ++ if p.places = 0 then [] else '.' :: p.fraction := by
  unfold text
  dsimp only
  split
  · next h =>
    have hnone : p.fraction = [] := List.eq_nil_of_length_eq_zero (p.length_fraction.trans h)
    rw [← p.whole_append_fraction, hnone]
  · rfl

theorem isDigit_of_mem_whole {p : Plain} {c : Char} (h : c ∈ p.whole) : c.isDigit = true :=
  isDigit_of_mem_padded (List.mem_of_mem_take h)

theorem isDigit_of_mem_fraction {p : Plain} {c : Char} (h : c ∈ p.fraction) : c.isDigit = true :=
  isDigit_of_mem_padded (List.mem_of_mem_drop h)

/-- A fraction is read as it is written, apart from its sign. -/
theorem readMagnitude_text (p : Plain) :
    readMagnitude boundedPower p.text = some (p.digits, -(p.places : Int), []) := by
  have hdigits : ofDigits (p.whole ++ p.fraction) = p.digits := by
    rw [p.whole_append_fraction, ofDigits_padded]
  have hwhole : p.whole.isEmpty = false := by simpa using p.whole_ne_nil
  have hspan : spanDigits p.text =
      (p.whole, if p.places = 0 then [] else '.' :: p.fraction) := by
    rw [p.text_eq]
    refine spanDigits_append_of_digits (fun c => isDigit_of_mem_whole) fun c hc => ?_
    split at hc
    · cases hc
    · cases hc
      decide
  have hpoint : readFraction (if p.places = 0 then [] else '.' :: p.fraction) =
      (p.fraction, []) := by
    split
    · next h =>
      rw [List.eq_nil_of_length_eq_zero (p.length_fraction.trans h)]
      rfl
    · have hall : spanDigits (p.fraction ++ []) = (p.fraction, []) :=
        spanDigits_append_of_digits (fun c => isDigit_of_mem_fraction) (by simp)
      rwa [List.append_nil] at hall
  unfold readMagnitude
  simp only [hspan, hpoint, hwhole, Bool.false_and, Bool.false_eq_true, if_false, hdigits,
    p.length_fraction]

/-- A digit is no sign. -/
theorem readSign_text (p : Plain) : readSign p.text = (false, p.text) := by
  obtain ⟨c, cs, hwhole⟩ := List.exists_cons_of_ne_nil p.whole_ne_nil
  have hc : c.isDigit = true := isDigit_of_mem_whole (p := p) (by simp [hwhole])
  rw [p.text_eq, hwhole, List.cons_append]
  unfold readSign
  split
  · next h =>
    cases h
    exact absurd hc (by decide)
  · next h =>
    cases h
    exact absurd hc (by decide)
  · rfl

/-- A fraction is read as it is written. -/
theorem read_text (negative : Bool) (p : Plain) :
    Numeral.read? boundedPower (signed negative p.text) = some (p.numeral negative) := by
  have hsign : readSign (signed negative p.text) = (negative, p.text) := by
    cases negative with
    | true => rfl
    | false => exact p.readSign_text
  unfold Numeral.read?
  simp only [hsign, p.readMagnitude_text]
  rfl

/-- A text has no blank. -/
theorem trim_text (negative : Bool) (p : Plain) :
    trim (String.ofList (signed negative p.text)) = String.ofList (signed negative p.text) := by
  have hplain : ∀ c ∈ p.text, isBlank c = false := by
    intro c hc
    rw [p.text_eq] at hc
    rcases List.mem_append.1 hc with hc | hc
    · exact isBlank_of_isDigit (isDigit_of_mem_whole hc)
    · split at hc
      · cases hc
      · rcases List.mem_cons.1 hc with rfl | hc
        · decide
        · exact isBlank_of_isDigit (isDigit_of_mem_fraction hc)
  unfold trim
  rw [String.toList_ofList, trimChars_eq_self]
  cases negative with
  | false => exact hplain
  | true =>
    intro c hc
    rcases List.mem_cons.1 hc with rfl | hc
    · decide
    · exact hplain c hc

end Plain

/-! ## The text of a double -/

namespace Binary

/-- The exact value of a double reads back as it. -/
theorem exact_toFloat {x : Float} {s : UnpackedFloat.Sign} {m : Nat} {e : Int} {hm : 0 < m}
    (h : x.toModel.unpack = .finite s m e hm) :
    ((⟨isNegative s, m, e⟩ : Binary).exact.numeral (isNegative s)).toFloat = x := by
  have hcanonical : IsCanonical (.finite .positive m e hm) := by
    have := isCanonical x
    rw [h] at this
    exact this
  have hmagnitude : (Numeral.magnitude (⟨isNegative s, m, e⟩ : Binary).exact.digits
      (-((⟨isNegative s, m, e⟩ : Binary).exact.places : Int))).toModel.unpack =
      .finite .positive m e hm := by
    rw [← unpack_ofModel hcanonical, ← ofScientific_exact hcanonical]
    rfl
  refine eq_of_unpack_eq ?_
  rw [h]
  cases s with
  | positive => exact hmagnitude
  | negative =>
    change (-Numeral.magnitude _ _).toModel.unpack = _
    rw [unpack_neg]
    exact congrArg UnpackedFloat.neg hmagnitude

/-- What is written of a double reads back as it. -/
theorem shortest_toFloat {x : Float} {s : UnpackedFloat.Sign} {m : Nat} {e : Int} {hm : 0 < m}
    (h : x.toModel.unpack = .finite s m e hm) :
    (((⟨isNegative s, m, e⟩ : Binary).shortest x).numeral (isNegative s)).toFloat = x := by
  unfold shortest
  dsimp only
  cases hhit : (List.range 18).findSome? _ with
  | none => exact exact_toFloat h
  | some p =>
    obtain ⟨n, -, hn⟩ := List.exists_of_findSome?_eq_some hhit
    have hback := List.find?_some hn
    exact eq_of_toBits_eq (beq_iff_eq.1 hback)

end Binary

/-- A finite double is read back from its text. -/
theorem readFinite_floatText {x : Float} (h : x.isFinite = true) :
    readFinite? (floatText x) = some x := by
  have hmodel : x.toModel.unpack.isFinite = true := h
  cases hx : x.toModel.unpack with
  | notANumber =>
    rw [hx] at hmodel
    cases hmodel
  | infinity s =>
    rw [hx] at hmodel
    cases hmodel
  | zero s =>
    have hzero : x = .ofModel (Float.Model.pack (.zero s)) := by rw [← hx, ofModel_unpack]
    subst hzero
    cases s <;> decide +kernel
  | finite s m e hm =>
    have htext : floatText x = String.ofList
        (signed (isNegative s) ((⟨isNegative s, m, e⟩ : Binary).shortest x).text) := by
      unfold floatText
      rw [hx]
    unfold readFinite? readFloat?
    rw [htext, Plain.trim_text, String.toList_ofList, Plain.read_text]
    simp only [Binary.shortest_toFloat hx]
    exact Option.filter_some_pos h

/-- No number is read from the name of a double that is not finite. -/
theorem readFinite_floatText_eq_none {x : Float} (h : x.isFinite = false) :
    readFinite? (floatText x) = none := by
  have hmodel : x.toModel.unpack.isFinite = false := h
  cases hx : x.toModel.unpack with
  | notANumber =>
    have hname : floatText x = "NaN" := by
      unfold floatText
      rw [hx]
    rw [hname]
    decide +kernel
  | infinity s =>
    have hname : floatText x = String.ofList (signed (isNegative s) ['i', 'n', 'f']) := by
      unfold floatText
      rw [hx]
    rw [hname]
    cases s <;> decide +kernel
  | zero s =>
    rw [hx] at hmodel
    cases hmodel
  | finite s m e hm =>
    rw [hx] at hmodel
    cases hmodel

end Bom
