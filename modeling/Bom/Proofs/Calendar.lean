import Mathlib.Order.Basic
import Bom.Calendar.Span
import Bom.Proofs.Decimal.Double

/-!
# Instants and spans

Instants are ordered by their places on one line. A span of days that is not negative has no fewer
than 0 seconds (`spanSeconds_nonneg`), and so it leads to no earlier instant (`DateTime.le_after`).

The seconds come of a product of doubles, which is rounded and packed into bits. Its sign is
followed through the three steps by `isBelowZero`, which a zero does not satisfy whatever its sign
is.
-/

namespace Bom

/-! ## Doubles below zero -/

section

open Float.Model Float.Model.UnpackedFloat

/-- The value is negative, and not a zero. -/
def isBelowZero : UnpackedFloat → Bool
  | .finite .negative _ _ _ => true
  | .infinity .negative => true
  | _ => false

/-- A double is less than zero just when its value is. -/
theorem lt_zero_iff (x : Float) : x < 0.0 ↔ isBelowZero x.toModel.unpack = true := by
  have hzero : (Float.toModel 0.0).unpack = .zero .positive := rfl
  rw [lt_iff_unpack, hzero]
  unfold UnpackedFloat.lt UnpackedFloat.compare
  rcases x.toModel.unpack with ⟨⟨⟩⟩ | _ | ⟨⟨⟩⟩ | ⟨⟨⟩, m, e, hm⟩ <;> exact ⟨id, id⟩

/-- The sign that the bits of a double have. -/
def signOf {spec : Format} (b : BitVec spec.numBits) : Sign := .ofBitVec (unpackSign b)

/-- The sign is packed into its bit. -/
@[simp] theorem signOf_packComponents (s : Sign) (e : BitVec 11) (m : BitVec 52) :
    @signOf .binary64 (packComponents .binary64 s e m) = s := by
  unfold signOf
  rw [unpackSign_packComponents, ofBitVec_toBitVec]

/-- Bits with the positive sign are those of nothing below zero. -/
theorem not_isBelowZero_of_signOf {b : BitVec Format.binary64.numBits} (h : signOf b = .positive) :
    isBelowZero (UnpackedFloat.unpack .binary64 b) = false := by
  obtain ⟨s, e, m, rfl⟩ := exists_packComponents b
  rw [signOf_packComponents] at h
  subst h
  rw [unpack_packComponents]
  by_cases hone : e = -1#11
  · rw [if_pos hone]
    by_cases hm : m = 0#52
    · rw [if_pos hm]
      rfl
    · rw [if_neg hm]
      rfl
  by_cases hzero : e = 0#11
  · rw [if_neg hone, if_pos hzero]
    by_cases hm : 0 < m.toNat
    · rw [dif_pos hm]
      rfl
    · rw [dif_neg hm]
      rfl
  · rw [if_neg hone, if_neg hzero]
    rfl

/-- Nothing gets below zero by being packed. -/
theorem not_isBelowZero_pack {f : UnpackedFloat} (h : isBelowZero f = false) :
    isBelowZero (Float.Model.pack f).unpack = false := by
  change isBelowZero (UnpackedFloat.unpack .binary64 (UnpackedFloat.pack .binary64 f)) = false
  rcases f with ⟨⟨⟩⟩ | _ | ⟨s⟩ | ⟨⟨⟩, m, e, hm⟩
  · cases h
  · exact not_isBelowZero_of_signOf (signOf_packComponents ..)
  · exact not_isBelowZero_of_signOf (signOf_packComponents ..)
  · cases s <;> decide +kernel
  · cases h
  · refine not_isBelowZero_of_signOf ?_
    unfold UnpackedFloat.pack
    dsimp only
    split
    · exact signOf_packComponents ..
    · split <;> exact signOf_packComponents ..

/-- Of two values that are not below zero, none is chosen that is. -/
theorem not_isBelowZero_dite {P : Prop} [Decidable P] {f : P → UnpackedFloat}
    {g : ¬ P → UnpackedFloat} (hf : ∀ h, isBelowZero (f h) = false)
    (hg : ∀ h, isBelowZero (g h) = false) : isBelowZero (if h : P then f h else g h) = false := by
  by_cases h : P
  · rw [dif_pos h, hf]
  · rw [dif_neg h, hg]

/-- A product with a positive number is not below zero unless the other factor is. -/
theorem not_isBelowZero_mul {spec : Format} {f : UnpackedFloat} (h : isBelowZero f = false)
    {m : Nat} {e : Int} (hm : 0 < m) :
    isBelowZero (UnpackedFloat.mul spec f (.finite .positive m e hm)) = false := by
  rcases f with ⟨⟨⟩⟩ | _ | ⟨s⟩ | ⟨⟨⟩, m', e', hm'⟩
  · cases h
  · rfl
  · rfl
  · rfl
  · cases h
  · exact not_isBelowZero_dite (fun _ => rfl) (fun _ => rfl)

/-- The value of the seconds of a day. -/
theorem unpack_day :
    (Float.toModel 86400.0).unpack = .finite .positive 5937362789990400 (-36) (by decide) := rfl

/-- A double that is not less than zero, times the seconds of a day, is not less than zero. -/
theorem mul_day_not_lt_zero {days : Float} (h : ¬ days < 0.0) :
    isBelowZero (days * 86400.0).toModel.unpack = false := by
  rw [lt_zero_iff, Bool.not_eq_true] at h
  refine not_isBelowZero_pack ?_
  rw [unpack_day]
  exact not_isBelowZero_mul h _

/-- The whole number nearest to a double that is not less than zero is not less than zero. -/
theorem nearestInt_nonneg {x : Float} (h : isBelowZero x.toModel.unpack = false) {i : Int}
    (hi : nearestInt? x = some i) : 0 ≤ i := by
  unfold nearestInt? at hi
  generalize x.toModel.unpack = f at h hi
  rcases f with s | _ | s | ⟨⟨⟩, m, e, hm⟩
  · cases hi
  · cases hi
  · cases hi
    exact Int.le_refl 0
  · cases h
  · cases hi
    exact Int.natCast_nonneg _

end

/-! ## Spans that are not negative -/

/-- A span of days that is not negative has no fewer than 0 seconds. -/
theorem spanSeconds_nonneg {days : Float} (h : ¬ days < 0.0) {s : Int}
    (hs : spanSeconds? days = some s) : 0 ≤ s := by
  unfold spanSeconds? at hs
  split at hs
  · split at hs
    · next i hi =>
      split at hs
      · cases hs
        exact nearestInt_nonneg (mul_day_not_lt_zero h) hi
      · cases hs
    · cases hs
  · cases hs
    exact Int.le_refl 0

namespace DateTime

instance : Preorder DateTime where
  le_refl t := Int.le_refl t.instant
  le_trans _ _ _ := Int.le_trans
  lt_iff_le_not_ge _ _ := Int.lt_iff_le_and_not_ge

/-- Instants are the same when their places are. -/
theorem instant_inj {t u : DateTime} : t.instant = u.instant ↔ t = u := by
  refine ⟨fun h => ?_, fun h => h ▸ rfl⟩
  obtain ⟨day, second, nano, hfirst, hlast, hsecond, hnano⟩ := t
  obtain ⟨day', second', nano', hfirst', hlast', hsecond', hnano'⟩ := u
  unfold instant at h
  dsimp only at h
  simp only [mk.injEq]
  omega

theorem le_of_not_lt {s t : DateTime} (h : ¬ s < t) : t ≤ s := Int.not_lt.1 h

/-- The instant with the given parts has them. -/
theorem ofParts?_eq_some {day : Int} {second nano : Nat} {t : DateTime}
    (h : ofParts? day second nano = some t) : t.day = day ∧ t.second = second ∧ t.nano = nano := by
  unfold ofParts? at h
  split at h
  · cases h
    exact ⟨rfl, rfl, rfl⟩
  · cases h

/-- A step of whole seconds carries seconds over into days and keeps the fraction of the second. Out
of a leap second, a step back counts from the second after it. -/
theorem parts_shift {t t' : DateTime} {seconds : Int}
    (hstep : ¬ (t.inLeapSecond ∧ seconds = 0)) (h : t.shift? seconds = some t') :
    t'.day * 86400 + t'.second = t.day * 86400 + t.second + seconds +
        (if t.inLeapSecond ∧ seconds < 0 then 1 else 0) ∧
      t'.nano = t.fraction := by
  unfold shift? at h
  rw [if_neg hstep] at h
  generalize (if (t.inLeapSecond = true ∧ seconds < 0) then (1 : Int) else 0) = carry at h ⊢
  obtain ⟨hday, hsecond, hnano⟩ := ofParts?_eq_some h
  have hrest := Int.emod_add_mul_ediv (t.second + carry + seconds) 86400
  have hnonneg := Int.emod_nonneg (t.second + carry + seconds) (by decide : (86400 : Int) ≠ 0)
  refine ⟨?_, hnano⟩
  rw [hday, hsecond, Int.toNat_of_nonneg hnonneg]
  omega

/-- Whole seconds forward lead to no earlier instant. -/
theorem le_shift {t t' : DateTime} {seconds : Int} (hs : 0 ≤ seconds)
    (h : t.shift? seconds = some t') : t ≤ t' := by
  by_cases hstay : t.inLeapSecond ∧ seconds = 0
  · unfold shift? at h
    rw [if_pos hstay] at h
    cases h
    exact le_rfl
  · obtain ⟨hseconds, hnano⟩ := parts_shift hstay h
    have hforward : ¬ (t.inLeapSecond ∧ seconds < 0) := fun hback => by omega
    rw [if_neg hforward] at hseconds
    -- only the fraction of a leap second is lost
    have hkept : (t.nano : Int) ≤ seconds * 2000000000 + t'.nano := by
      have hlt := t.nano_lt
      unfold inLeapSecond at hstay
      rw [decide_eq_true_iff] at hstay
      unfold fraction at hnano
      omega
    change t.instant ≤ t'.instant
    unfold instant
    rw [hseconds]
    omega

/-- Outside a leap second an instant moves by the whole seconds of the step, and not into a leap
second. -/
theorem instant_shift {t t' : DateTime} {seconds : Int} (ht : t.inLeapSecond = false)
    (h : t.shift? seconds = some t') :
    t'.instant = t.instant + seconds * 2000000000 ∧ t'.inLeapSecond = false := by
  have hstep : ¬ (t.inLeapSecond ∧ seconds = 0) := fun hstay => by simp [ht] at hstay
  have hforward : ¬ (t.inLeapSecond ∧ seconds < 0) := fun hback => by simp [ht] at hback
  obtain ⟨hseconds, hnano⟩ := parts_shift hstep h
  rw [if_neg hforward] at hseconds
  unfold inLeapSecond at ht ⊢
  rw [decide_eq_false_iff_not] at ht ⊢
  unfold fraction at hnano
  unfold instant
  rw [hseconds]
  omega

/-- A span that is not negative leads to no earlier instant. -/
theorem le_after {t t' : DateTime} {days : Float} (hdays : ¬ days < 0.0)
    (h : t.after? days = some t') : t ≤ t' := by
  obtain ⟨seconds, hseconds, hshift⟩ := Option.bind_eq_some_iff.1 h
  exact le_shift (spanSeconds_nonneg hdays hseconds) hshift

/-- The day after the epoch. -/
def secondDay : DateTime :=
  { epoch with
    day := 1
    firstDay_le := by decide
    le_lastDay := by decide }

end DateTime

end Bom
