import Mathlib.Algebra.Group.Int.Defs
import Bom.Proofs.Calendar
import Bom.Proofs.Decimal.Magnitude

/-!
# Where spans lead out of the calendar

An instant is moved by a span of days in two steps, and each may fail. The span is turned into whole
seconds, of which it may have too many (`spanSeconds?_eq_none_iff`), and the second that lies so
many seconds away may be none of the calendar (`DateTime.shift?_eq_none_iff`). Together they say
when there is no instant a span later or earlier (`DateTime.after?_eq_none_iff`,
`DateTime.before?_eq_none_iff`).

A span of less than 2²⁰ days has at most 2³⁹ seconds (`spanSeconds_of_short`), so it stays in the
calendar wherever the ends of the calendar are as far away (`DateTime.moves_of_short`).
-/

namespace Bom

open Float.Model Float.Model.UnpackedFloat

/-! ## Spans that are too long -/

/-- The span is finite, but has more whole seconds than a span may have. -/
def IsTooLong (days : Float) : Prop :=
  days.isFinite = true ∧ ∀ s, nearestInt? (days * 86400.0) = some s → maxSpanSeconds < s.natAbs

/-- A span has no seconds just when it is too long. -/
theorem spanSeconds?_eq_none_iff {days : Float} : spanSeconds? days = none ↔ IsTooLong days := by
  unfold spanSeconds? IsTooLong
  cases days.isFinite with
  | false => simp
  | true =>
    cases nearestInt? (days * 86400.0) with
    | none => simp
    | some s =>
      simp only [if_true, Option.some.injEq, forall_eq', true_and, ite_eq_right_iff]
      constructor
      · intro h
        by_contra hle
        exact absurd (h (by omega)) nofun
      · intro h hle
        omega

/-! ## Seconds outside the calendar -/

/-- The first second of the calendar, counted from the epoch. -/
def firstSecond : Int := firstDay * 86400

/-- The last second of the calendar. -/
def lastSecond : Int := lastDay * 86400 + 86399

namespace DateTime

/-- The second in which the instant lies, counted from the epoch. -/
def wholeSecond (t : DateTime) : Int := t.day * 86400 + t.second

/-- The second that lies the given number of seconds away. Out of a leap second, a step back counts
from the second after it. -/
def secondAway (t : DateTime) (seconds : Int) : Int :=
  t.wholeSecond + seconds + if t.inLeapSecond ∧ seconds < 0 then 1 else 0

/-- The instant lies in a second of the calendar. -/
theorem bounds_wholeSecond (t : DateTime) :
    firstSecond ≤ t.wholeSecond ∧ t.wholeSecond ≤ lastSecond := by
  have hfirst := t.firstDay_le
  have hlast := t.le_lastDay
  have hsecond := t.second_lt
  unfold firstSecond lastSecond wholeSecond
  omega

/-- There is no instant with the given parts just when the day is not one of the calendar, if the
parts of the day are in order and it is no leap second. -/
theorem ofParts?_eq_none_iff {day : Int} {second nano : Nat} (hsecond : second < 86400)
    (hnano : nano < 1000000000) :
    ofParts? day second nano = none ↔ day < firstDay ∨ lastDay < day := by
  unfold ofParts?
  split
  · next h => simp only [reduceCtorEq, false_iff]; omega
  · next h =>
    simp only [true_iff]
    by_contra hday
    exact h ⟨by omega, by omega, hsecond, by omega⟩

/-- Whole seconds lead to no instant just when the second to which they lead is none of the
calendar. -/
theorem shift?_eq_none_iff {t : DateTime} {seconds : Int} :
    t.shift? seconds = none ↔
      t.secondAway seconds < firstSecond ∨ lastSecond < t.secondAway seconds := by
  unfold shift?
  split
  · next hstay =>
    have hbounds := t.bounds_wholeSecond
    unfold secondAway
    rw [if_neg fun h => by omega, hstay.2]
    simp only [reduceCtorEq, false_iff]
    omega
  · dsimp only
    unfold secondAway wholeSecond firstSecond lastSecond
    generalize (if t.inLeapSecond = true ∧ seconds < 0 then (1 : Int) else 0) = carry
    have hfraction : t.fraction < 1000000000 := Nat.mod_lt _ (by decide)
    rw [ofParts?_eq_none_iff (by omega) hfraction]
    omega

/-! ## Spans that lead out of the calendar -/

/-- A step over the given days leads to no instant: they are too long for a span, or the second to
which they lead, forward or back, is none of the calendar. -/
def IsLost (t : DateTime) (forward : Bool) (days : Float) : Prop :=
  IsTooLong days ∨ ∃ s, spanSeconds? days = some s ∧
    (t.secondAway (if forward then s else -s) < firstSecond ∨
      lastSecond < t.secondAway (if forward then s else -s))

/-- There is no instant that many days later. -/
theorem after?_eq_none_iff {t : DateTime} {days : Float} :
    t.after? days = none ↔ t.IsLost true days := by
  unfold after? IsLost
  rw [← spanSeconds?_eq_none_iff]
  cases spanSeconds? days <;> simp [shift?_eq_none_iff]

/-- There is no instant that many days earlier. -/
theorem before?_eq_none_iff {t : DateTime} {days : Float} :
    t.before? days = none ↔ t.IsLost false days := by
  unfold before? IsLost
  rw [← spanSeconds?_eq_none_iff]
  cases spanSeconds? days <;> simp [shift?_eq_none_iff]

end DateTime

/-! ## Short spans -/

theorem Binary.natAbs_withSign (b : Binary) (n : Nat) : (b.withSign n).natAbs = n := by
  unfold withSign
  split
  · rw [Int.natAbs_neg, Int.natAbs_natCast]
  · exact Int.natAbs_natCast n

/-- A double with a small exponent is near to a small whole number. -/
theorem natAbs_nearestInt_le {x : Float} {k : Nat} (h : IsWithin (-(k : Int)) x.toModel.unpack)
    (hk : k ≤ 53) : ∃ i, nearestInt? x = some i ∧ i.natAbs ≤ 2 ^ (53 - k) := by
  have hcanonical := isCanonical x
  unfold nearestInt?
  generalize x.toModel.unpack = f at h hcanonical
  rcases f with s | _ | s | ⟨s, m, e, hm⟩
  · exact h.elim
  · exact h.elim
  · exact ⟨0, rfl, Nat.zero_le _⟩
  · change e ≤ -(k : Int) at h
    refine ⟨_, rfl, ?_⟩
    rw [Binary.natAbs_withSign]
    have hnumerator : (⟨isNegative s, m, e⟩ : Binary).scaledNumerator 0 = m := by
      change m * 2 ^ e.toNat * 10 ^ 0 = m
      rw [show e.toNat = 0 by omega, Nat.pow_zero, Nat.pow_zero, Nat.mul_one, Nat.mul_one]
    have hunit : (⟨isNegative s, m, e⟩ : Binary).scaledDenominator 0 = 2 ^ (-e).toNat :=
      Nat.mul_one _
    rw [hnumerator, hunit]
    -- the whole units of the significand, and at most one more
    have hlarge : 2 ^ 53 ≤ 2 ^ (53 - k) * 2 ^ (-e).toNat := by
      rw [← Nat.pow_add]
      exact Nat.pow_le_pow_right (by decide) (by omega)
    have hsmall := hcanonical.mantissa_lt
    have hpos : 0 < 2 ^ (-e).toNat := Nat.two_pow_pos _
    refine Nat.le_of_lt_succ ((Nat.div_lt_iff_lt_mul (by omega)).2 ?_)
    rw [Nat.succ_mul (2 ^ (53 - k)), Nat.mul_left_comm]
    omega

/-- The value of 2²⁰. -/
theorem unpack_short :
    (Float.toModel 1048576.0).unpack = .finite .positive 4503599627370496 (-32) (by decide) := rfl

/-- A span of less than 2²⁰ days has at most 2³⁹ seconds. -/
theorem spanSeconds_of_short {days : Float} (hlow : -1048576.0 < days) (hhigh : days < 1048576.0) :
    ∃ s, spanSeconds? days = some s ∧ s.natAbs ≤ 2 ^ 39 := by
  have hdays : IsWithin (-32) days.toModel.unpack := isWithin_of_between unpack_short hlow hhigh
  have hproduct : IsWithin (-(14 : Nat)) (days * 86400.0).toModel.unpack := by
    refine isWithin_pack ?_ (by decide) (by decide)
    rw [unpack_day]
    exact isWithin_mul (isCanonical days) hdays .positive (by decide) (by decide) (by decide)
  obtain ⟨s, hs, hle⟩ := natAbs_nearestInt_le hproduct (by decide)
  refine ⟨s, ?_, hle⟩
  have hfinite : days.isFinite = true := hdays.isFinite
  unfold spanSeconds?
  rw [if_pos hfinite, hs]
  dsimp only
  rw [if_pos]
  unfold maxSpanSeconds
  omega

/-- Spans of less than 2²⁰ days lead to instants of the calendar, forward and back, wherever its
ends are at least 2³⁹ seconds away. -/
theorem DateTime.moves_of_short {t : DateTime} {days : Float} (hlow : -1048576.0 < days)
    (hhigh : days < 1048576.0) (hfirst : firstSecond + 2 ^ 39 ≤ t.wholeSecond)
    (hlast : t.wholeSecond + 2 ^ 39 < lastSecond) :
    (∃ t', t.after? days = some t') ∧ ∃ t', t.before? days = some t' := by
  obtain ⟨s, hs, hle⟩ := spanSeconds_of_short hlow hhigh
  have hkept (i : Int) (hi : i.natAbs ≤ 2 ^ 39) :
      ¬ (t.secondAway i < firstSecond ∨ lastSecond < t.secondAway i) := by
    unfold secondAway
    omega
  constructor
  · refine Option.ne_none_iff_exists'.1 fun h => ?_
    rw [after?, hs, Option.bind_some, shift?_eq_none_iff] at h
    exact hkept s hle h
  · refine Option.ne_none_iff_exists'.1 fun h => ?_
    rw [before?, hs, Option.bind_some, shift?_eq_none_iff] at h
    exact hkept (-s) (by omega) h

end Bom
