import Mathlib.Algebra.Group.Nat.Defs
import Bom.Decimal.Binary

/-!
# Doubles and their values

A double is a sign, an exponent and a significand packed into bits, and its operations unpack them,
compute with the value and pack the result. What is unpacked is in canonical form
(`isCanonical_unpack`), and on canonical values packing and unpacking undo each other
(`pack_unpack`, `unpack_pack`). A value that some double has is not changed by being rounded,
however many zeros it is written with (`roundWithAccuracy_exact`).
-/

namespace Bom

open Float.Model Float.Model.UnpackedFloat

/-! ## The parts of a double -/

/-- The sign is packed into its bit. -/
theorem unpackSign_packComponents (s : Sign) (e : BitVec 11) (m : BitVec 52) :
    unpackSign (packComponents .binary64 s e m) = s.toBitVec := by
  change (s.toBitVec ++ e ++ m).extractLsb' 63 1 = s.toBitVec
  rw [BitVec.extractLsb'_append_eq_of_le (by decide),
    BitVec.extractLsb'_append_eq_of_le (by decide)]
  cases s <;> rfl

theorem ofBitVec_toBitVec (s : Sign) : Sign.ofBitVec s.toBitVec = s := by
  cases s <;> rfl

theorem toBitVec_ofBitVec (b : BitVec 1) : (Sign.ofBitVec b).toBitVec = b := by
  revert b
  decide

/-- Every double is made of a sign, an exponent and a significand. -/
theorem exists_packComponents (b : BitVec 64) :
    ∃ (s : Sign) (e : BitVec 11) (m : BitVec 52), b = packComponents .binary64 s e m := by
  refine ⟨.ofBitVec (b.extractLsb' 63 1), b.extractLsb' 52 11, b.extractLsb' 0 52, ?_⟩
  unfold packComponents
  rw [toBitVec_ofBitVec, BitVec.extractLsb'_append_extractLsb'_eq_extractLsb' (by decide),
    BitVec.extractLsb'_append_extractLsb'_eq_extractLsb' (by decide)]
  exact BitVec.extractLsb'_eq_self.symm

/-! ## What the parts stand for -/

theorem finite_congr {s : Sign} {m m' : Nat} {e e' : Int} {h : 0 < m} {h' : 0 < m'} (hm : m = m')
    (he : e = e') : UnpackedFloat.finite s m e h = .finite s m' e' h' := by
  subst hm he
  rfl

/-- What a double stands for: infinity or not-a-number with the greatest exponent, zero or a
multiple of the least positive double with the exponent 0, and otherwise a number that has a leading
bit besides those of its significand. -/
theorem unpack_packComponents (s : Sign) (e : BitVec 11) (m : BitVec 52) :
    UnpackedFloat.unpack .binary64 (packComponents .binary64 s e m) =
      if e = -1#11 then if m = 0#52 then .infinity s else .notANumber
      else if e = 0#11 then
        if h : 0 < m.toNat then .finite s m.toNat (-1074) h else .zero s
      else .finite s (2 ^ 52 + m.toNat) (e.toNat - 1075) (by omega) := by
  have hm : (1#1 ++ m).toNat = 2 ^ 52 + m.toNat := by
    rw [BitVec.toNat_append, ← Nat.shiftLeft_add_eq_or_of_lt m.isLt]
    rfl
  have hmantissa : unpackMantissa (packComponents .binary64 s e m) = m :=
    unpackMantissa_packComponents
  have hexponent : unpackExponent (packComponents .binary64 s e m) = e :=
    unpackExponent_packComponents
  have hsign : Sign.ofBitVec (unpackSign (packComponents .binary64 s e m)) = s := by
    rw [unpackSign_packComponents, ofBitVec_toBitVec]
  unfold UnpackedFloat.unpack
  dsimp only
  rw [hexponent, hsign]
  by_cases hone : e = -1#11
  · rw [if_pos hone, if_pos hone, hmantissa]
  by_cases hzero : e = 0#11
  · rw [if_neg hone, if_neg hone, if_pos hzero, if_pos hzero]
    by_cases hpos : 0 < m.toNat
    · have hne : unpackMantissa (packComponents .binary64 s e m) ≠ 0#52 := by
        rw [hmantissa]
        rintro rfl
        exact absurd hpos (by decide)
      rw [dif_neg hne, dif_pos hpos]
      refine finite_congr (congrArg BitVec.toNat hmantissa) ?_
      rw [hzero]
      rfl
    · have hnull : unpackMantissa (packComponents .binary64 s e m) = 0#52 := by
        rw [hmantissa]
        exact BitVec.eq_of_toNat_eq (by change m.toNat = 0; omega)
      rw [dif_pos hnull, dif_neg hpos]
  · rw [if_neg hone, if_neg hone, if_neg hzero, if_neg hzero]
    refine finite_congr ?_ rfl
    rw [hmantissa, hm]

/-! ## Canonical values -/

/-- A value as a double has it: with fifty-three binary digits, or fewer where the exponent is the
least one. -/
def IsCanonical : UnpackedFloat → Prop
  | .finite _ m e _ => m.log2 ≤ 52 ∧ -1074 ≤ e ∧ e ≤ 971 ∧ (m.log2 = 52 ∨ e = -1074)
  | _ => True

/-- A value with a leading bit is packed without it. -/
theorem pack_normal (s : Sign) {m : Nat} {e : Int} (hm : 0 < m) (hlog : m.log2 = 52)
    (hlow : -1074 ≤ e) (hhigh : e ≤ 971) :
    UnpackedFloat.pack .binary64 (.finite s m e hm) =
      packComponents .binary64 s (BitVec.ofNat 11 (e + 1075).toNat) (BitVec.ofNat 52 m) := by
  have hbiased : (e + Format.binary64.exponentBias +
      Format.binary64.mantissaBitsWithoutImplicit).toNat = (e + 1075).toNat := by
    change (e + 1023 + 52).toNat = _
    omega
  unfold UnpackedFloat.pack
  simp only [hbiased, hlog]
  rw [if_neg (by change ¬ 2048 ≤ _; omega),
    if_pos (show 52 + 1 = Format.binary64.mantissaBits from rfl)]

/-- A value without a leading bit is packed with the exponent 0. -/
theorem pack_subnormal (s : Sign) {m : Nat} (hm : 0 < m) (hlog : m.log2 < 52) :
    UnpackedFloat.pack .binary64 (.finite s m (-1074) hm) =
      packComponents .binary64 s 0#11 (BitVec.ofNat 52 m) := by
  unfold UnpackedFloat.pack
  dsimp only
  rw [if_neg (by decide), if_neg (by change ¬ m.log2 + 1 = 53; omega)]

theorem lt_two_pow_of_log2 {m k : Nat} (h : m.log2 < k) : m < 2 ^ k :=
  Nat.lt_of_lt_of_le Nat.lt_log2_self (Nat.pow_le_pow_right (by decide) h)

/-- A significand with a leading bit is that bit and the rest. -/
theorem toNat_ofNat_add {m : Nat} (hm : 0 < m) (hlog : m.log2 = 52) :
    2 ^ 52 + (BitVec.ofNat 52 m).toNat = m := by
  have hlow : 2 ^ 52 ≤ m := (Nat.le_log2 (by omega)).1 (by omega)
  have hhigh : m < 2 ^ 53 := lt_two_pow_of_log2 (by omega)
  rw [BitVec.toNat_ofNat]
  omega

/-- A canonical value is what its double unpacks to. -/
theorem unpack_pack {f : UnpackedFloat} (h : IsCanonical f) :
    UnpackedFloat.unpack .binary64 (UnpackedFloat.pack .binary64 f) = f := by
  rcases f with s | _ | s | ⟨s, m, e, hm⟩
  · cases s <;> rfl
  · rfl
  · cases s <;> rfl
  · obtain ⟨hlog, hlow, hhigh, hnormal⟩ := h
    by_cases hfull : m.log2 = 52
    · have hexponent : (BitVec.ofNat 11 (e + 1075).toNat).toNat = (e + 1075).toNat := by
        rw [BitVec.toNat_ofNat]
        omega
      have hone : BitVec.ofNat 11 (e + 1075).toNat ≠ -1#11 := by
        intro hone
        rw [hone] at hexponent
        change 2047 = _ at hexponent
        omega
      have hzero : BitVec.ofNat 11 (e + 1075).toNat ≠ 0#11 := by
        intro hzero
        rw [hzero] at hexponent
        change 0 = _ at hexponent
        omega
      rw [pack_normal s hm hfull hlow hhigh, unpack_packComponents, if_neg hone, if_neg hzero]
      exact finite_congr (toNat_ofNat_add hm hfull) (by omega)
    · obtain rfl := hnormal.resolve_left hfull
      have hlt : m < 2 ^ 52 := lt_two_pow_of_log2 (by omega)
      have hmantissa : (BitVec.ofNat 52 m).toNat = m := by
        rw [BitVec.toNat_ofNat]
        omega
      rw [pack_subnormal s hm (by omega), unpack_packComponents, if_neg (by decide), if_pos rfl,
        dif_pos (by omega)]
      exact finite_congr hmantissa rfl

/-- The binary digits of a significand with its leading bit. -/
theorem log2_two_pow_add (m : BitVec 52) : (2 ^ 52 + m.toNat).log2 = 52 :=
  (Nat.log2_eq_iff (by omega)).2 ⟨by omega, by have := m.isLt; omega⟩

/-- What bits unpack to is canonical. -/
theorem isCanonical_unpack (b : BitVec 64) : IsCanonical (UnpackedFloat.unpack .binary64 b) := by
  obtain ⟨s, e, m, rfl⟩ := exists_packComponents b
  rw [unpack_packComponents]
  by_cases hone : e = -1#11
  · rw [if_pos hone]
    by_cases hm : m = 0#52
    · rw [if_pos hm]
      trivial
    · rw [if_neg hm]
      trivial
  by_cases hzero : e = 0#11
  · rw [if_neg hone, if_pos hzero]
    by_cases hm : 0 < m.toNat
    · have hlog : m.toNat.log2 < 52 := (Nat.log2_lt (by omega)).2 m.isLt
      rw [dif_pos hm]
      exact ⟨by omega, by decide, by decide, .inr rfl⟩
    · rw [dif_neg hm]
      trivial
  · have hlt : e.toNat < 2048 := e.isLt
    have hpos : e.toNat ≠ 0 := fun h => hzero (BitVec.eq_of_toNat_eq h)
    have hne : e.toNat ≠ 2047 := fun h => hone (BitVec.eq_of_toNat_eq h)
    have hlog := log2_two_pow_add m
    rw [if_neg hone, if_neg hzero]
    exact ⟨Nat.le_of_eq hlog, by omega, by omega, .inl hlog⟩

/-- Packing undoes unpacking. Of the doubles that are no numbers only one is valid. -/
theorem pack_unpack {b : BitVec 64} (h : Format.binary64.Valid b) :
    UnpackedFloat.pack .binary64 (UnpackedFloat.unpack .binary64 b) = b := by
  obtain ⟨s, e, m, rfl⟩ := exists_packComponents b
  rw [unpack_packComponents]
  by_cases hone : e = -1#11
  · subst hone
    rw [if_pos rfl]
    by_cases hm : m = 0#52
    · subst hm
      rfl
    · rw [if_neg hm]
      refine (h.eq_packedNaN unpackExponent_packComponents ?_).symm
      rw [unpackMantissa_packComponents]
      exact hm
  by_cases hzero : e = 0#11
  · subst hzero
    rw [if_neg hone, if_pos rfl]
    by_cases hm : 0 < m.toNat
    · have hlog : m.toNat.log2 < 52 := (Nat.log2_lt (by omega)).2 m.isLt
      rw [dif_pos hm, pack_subnormal s hm hlog, BitVec.ofNat_toNat, BitVec.setWidth_eq]
    · obtain rfl : m = 0#52 := BitVec.eq_of_toNat_eq (by change m.toNat = 0; omega)
      rfl
  · have hlt : e.toNat < 2048 := e.isLt
    have hpos : e.toNat ≠ 0 := fun h => hzero (BitVec.eq_of_toNat_eq h)
    have hne : e.toNat ≠ 2047 := fun h => hone (BitVec.eq_of_toNat_eq h)
    rw [if_neg hone, if_neg hzero,
      pack_normal s (by omega) (log2_two_pow_add m) (by omega) (by omega)]
    congr 1
    · rw [show (e.toNat - 1075 + 1075 : Int).toNat = e.toNat by omega, BitVec.ofNat_toNat,
        BitVec.setWidth_eq]
    · apply BitVec.eq_of_toNat_eq
      have := m.isLt
      rw [BitVec.toNat_ofNat]
      omega

/-! ## Rounding what needs none -/

/-- Zeros at the end of a significand are binary digits. -/
theorem log2_mul_two_pow {m : Nat} (hm : 0 < m) (k : Nat) : (m * 2 ^ k).log2 = m.log2 + k := by
  have hlow : 2 ^ m.log2 ≤ m := Nat.log2_self_le (by omega)
  have hhigh : m < 2 ^ (m.log2 + 1) := Nat.lt_log2_self
  have hpos : 0 < m * 2 ^ k := Nat.mul_pos hm (Nat.two_pow_pos k)
  refine (Nat.log2_eq_iff (by omega)).2 ⟨?_, ?_⟩
  · rw [Nat.pow_add]
    exact Nat.mul_le_mul_right _ hlow
  · rw [show m.log2 + k + 1 = m.log2 + 1 + k by omega, Nat.pow_add 2 (m.log2 + 1)]
    exact Nat.mul_lt_mul_of_pos_right hhigh (Nat.two_pow_pos k)

/-- Zeros are shifted out without a trace. -/
theorem shiftRight_two_pow (m k : Nat) :
    (⟨m * 2 ^ k, false, false⟩ : ExtendedMantissa) >>> k = ⟨m, false, false⟩ := by
  change Nat.repeat ExtendedMantissa.shiftRightOne k _ = _
  induction k generalizing m with
  | zero =>
    rw [Nat.pow_zero, Nat.mul_one]
    rfl
  | succ k ih =>
    rw [Nat.pow_succ, Nat.mul_comm (2 ^ k), ← Nat.mul_assoc, Nat.repeat, ih]
    unfold ExtendedMantissa.shiftRightOne
    simp

/-- The exponent that a canonical value is rounded to is its own, with how many zeros ever its
significand is written. -/
theorem targetExponent_eq {s : Sign} {m : Nat} {e : Int} {hm : 0 < m}
    (h : IsCanonical (.finite s m e hm)) (k : Nat) :
    Format.binary64.targetExponent (totalExponent (m * 2 ^ k) (e - k)) = e := by
  obtain ⟨hlog, hlow, hhigh, hnormal⟩ := h
  unfold Format.targetExponent totalExponent
  rw [log2_mul_two_pow hm]
  change max (_ - 53) (-1074 : Int) = e
  omega

/-- A canonical value is shifted to its own significand and exponent. -/
theorem shiftToTargetExponent_eq {s : Sign} {m : Nat} {e : Int} {hm : 0 < m}
    (h : IsCanonical (.finite s m e hm)) (k : Nat) :
    shiftToTargetExponent .binary64 (m * 2 ^ k) (e - k) .exact = (⟨m, false, false⟩, e) := by
  unfold shiftToTargetExponent shiftToExponent
  rw [targetExponent_eq h]
  have hshift : (e - (e - k)).toNat = k := by omega
  simp only [hshift]
  refine Prod.ext (shiftRight_two_pow m k) ?_
  change e - k + k = e
  omega

/-- A canonical value is not changed by being rounded, with how many zeros ever its significand is
written. -/
theorem roundWithAccuracy_exact {s : Sign} {m : Nat} {e : Int} {hm : 0 < m}
    (h : IsCanonical (.finite s m e hm)) (k : Nat) :
    roundWithAccuracy .binary64 s (m * 2 ^ k) (e - k) .exact = .finite s m e hm := by
  have hagain := shiftToTargetExponent_eq h 0
  rw [Nat.pow_zero, Nat.mul_one, Int.natCast_zero, Int.sub_zero] at hagain
  unfold roundWithAccuracy
  rw [shiftToTargetExponent_eq h]
  change (match shiftToTargetExponent .binary64 m e .exact with
    | (em, e') => if h : em.mantissa = 0 then UnpackedFloat.zero s
      else .finite s em.mantissa e' (Nat.pos_of_ne_zero h)) = _
  rw [hagain]
  exact dif_neg (Nat.ne_of_gt hm)

/-- A product has at most one binary digit more than its factors promise. -/
theorem log2_mul_le {m n : Nat} (hm : 0 < m) (hn : 0 < n) :
    (m * n).log2 ≤ m.log2 + n.log2 + 1 := by
  have hlt : m * n < 2 ^ (m.log2 + n.log2 + 2) := by
    rw [show m.log2 + n.log2 + 2 = (m.log2 + 1) + (n.log2 + 1) by omega, Nat.pow_add]
    exact Nat.mul_lt_mul'' Nat.lt_log2_self Nat.lt_log2_self
  have := (Nat.log2_lt (Nat.ne_of_gt (Nat.mul_pos hm hn))).2 hlt
  omega

/-- The quotient that is a canonical value below one half of a power is computed without a rest. -/
theorem divCore_exact {m q : Nat} {hm : 0 < m}
    (h : IsCanonical (.finite .positive m (-(q : Int)) hm)) :
    ∃ k : Nat,
      divCore .binary64 (m * 5 ^ q) 0 (10 ^ q) 0 = (m * 2 ^ k, -(q : Int) - k, .exact) := by
  have hfive : 0 < 5 ^ q := Nat.pow_pos (by decide)
  have hten : (10 ^ q).log2 = (5 ^ q).log2 + q := by
    rw [show (10 : Nat) = 5 * 2 by rfl, Nat.mul_pow, log2_mul_two_pow hfive]
  have hproduct := log2_mul_le hm hfive
  obtain ⟨hlog, hlow, hhigh, hnormal⟩ := id h
  -- the quotient has no fewer digits than the value, so it is shifted at least as far
  have htarget : Format.binary64.targetExponent
      (totalExponent (m * 5 ^ q) 0 - totalExponent (10 ^ q) 0) ≤ -(q : Int) := by
    unfold Format.targetExponent totalExponent
    change max (_ - 53) (-1074 : Int) ≤ _
    rw [hten]
    omega
  generalize hT : Format.binary64.targetExponent
    (totalExponent (m * 5 ^ q) 0 - totalExponent (10 ^ q) 0) = T at htarget
  refine ⟨(-(q : Int) - T).toNat, ?_⟩
  have hshift : (m * 5 ^ q) <<< (0 - 0 - min (0 - 0) T).toNat =
      m * 2 ^ (-(q : Int) - T).toNat * 10 ^ q := by
    rw [show (0 - 0 - min (0 - 0) T).toNat = (-(q : Int) - T).toNat + q by omega, Nat.shiftLeft_eq,
      Nat.pow_add, show (10 : Nat) = 5 * 2 by rfl, Nat.mul_pow, Nat.mul_mul_mul_comm]
  unfold divCore
  rw [hT]
  simp only [hshift]
  rw [Nat.mul_div_cancel _ (Nat.pow_pos (by decide)), Nat.mul_mod_left]
  refine Prod.ext rfl (Prod.ext ?_ rfl)
  change min (0 - 0) T = -(q : Int) - (-(q : Int) - T).toNat
  omega

/-- A canonical value is read off the decimals that it is written with. -/
theorem ofScientific_exact {m : Nat} {e : Int} {hm : 0 < m}
    (h : IsCanonical (.finite .positive m e hm)) :
    UnpackedFloat.ofScientific .binary64 (m * 2 ^ e.toNat * 5 ^ (-e).toNat) (-(-e).toNat) =
      .finite .positive m e hm := by
  have hdigits : m * 2 ^ e.toNat * 5 ^ (-e).toNat ≠ 0 :=
    Nat.ne_of_gt (Nat.mul_pos (Nat.mul_pos hm (Nat.two_pow_pos _)) (Nat.pow_pos (by decide)))
  obtain ⟨hlog, hlow, hhigh, hnormal⟩ := id h
  unfold UnpackedFloat.ofScientific
  rw [dif_neg hdigits, if_neg (by change ¬ _ > (2048 : Int); omega),
    if_neg (by change ¬ _ < -((2048 : Int) + _); omega)]
  by_cases he : 0 ≤ e
  · have hdown : (-e).toNat = 0 := by omega
    rw [if_pos (by omega)]
    unfold UnpackedFloat.mul
    dsimp only
    rw [hdown]
    change roundWithAccuracy .binary64 .positive (_ <<< 53 * 10 ^ 0) (-53 + 0) .exact = _
    have := roundWithAccuracy_exact h (e.toNat + 53)
    rw [Nat.shiftLeft_eq, Nat.pow_zero, Nat.mul_one, Nat.mul_one, Nat.mul_assoc, ← Nat.pow_add,
      show (-53 + 0 : Int) = e - (e.toNat + 53 : Nat) by omega]
    exact this
  · obtain ⟨q, rfl⟩ : ∃ q : Nat, e = -(q : Int) := ⟨(-e).toNat, by omega⟩
    have hup : (-(q : Int)).toNat = 0 := by omega
    obtain ⟨k, hk⟩ := divCore_exact h
    rw [if_neg (by omega)]
    unfold UnpackedFloat.div
    dsimp only
    rw [hup, Int.neg_neg, Int.toNat_natCast, Int.neg_neg, Int.toNat_natCast, Nat.pow_zero,
      Nat.mul_one, hk]
    exact roundWithAccuracy_exact h k

/-! ## Doubles by their values -/

/-- A canonical value is what its double stands for. -/
theorem unpack_ofModel {f : UnpackedFloat} (h : IsCanonical f) :
    (Float.ofModel (Float.Model.pack f)).toModel.unpack = f := unpack_pack h

/-- The value of a double is canonical. -/
theorem isCanonical (x : Float) : IsCanonical x.toModel.unpack := isCanonical_unpack _

/-- Doubles with the same bits are the same. -/
theorem eq_of_toBits_eq {x y : Float} (h : x.toBits = y.toBits) : x = y := by
  obtain ⟨⟨bits, valid⟩⟩ := x
  obtain ⟨⟨bits', valid'⟩⟩ := y
  cases h
  rfl

/-- A double is the one of its value. -/
theorem ofModel_unpack (x : Float) : Float.ofModel (Float.Model.pack x.toModel.unpack) = x := by
  refine eq_of_toBits_eq ?_
  obtain ⟨⟨bits, valid⟩⟩ := x
  exact congrArg UInt64.ofBitVec (pack_unpack valid)

/-- Doubles with the same value are the same. -/
theorem eq_of_unpack_eq {x y : Float} (h : x.toModel.unpack = y.toModel.unpack) : x = y := by
  rw [← ofModel_unpack x, ← ofModel_unpack y, h]

/-- A double is less than another just when its value is. -/
theorem lt_iff_unpack (x y : Float) : x < y ↔ x.toModel.unpack.lt y.toModel.unpack = true :=
  decide_eq_true_iff

/-- The value of an opposite. -/
theorem unpack_neg (x : Float) : (-x).toModel.unpack = x.toModel.unpack.neg := by
  refine unpack_ofModel (f := x.toModel.unpack.neg) ?_
  have h := isCanonical x
  cases hx : x.toModel.unpack with
  | finite s m e hm =>
    rw [hx] at h
    exact h
  | _ => trivial

/-- Adding zero takes the sign of a zero away and changes nothing else. -/
theorem add_zero_eq {x : Float} (h : x.toModel.unpack ≠ .zero .negative) : x + 0.0 = x := by
  have hzero : (Float.toModel 0.0).unpack = .zero .positive := rfl
  have hsum : x + 0.0 = .ofModel (Float.Model.pack
      (UnpackedFloat.add .binary64 x.toModel.unpack (Float.toModel 0.0).unpack)) := rfl
  have hadd : UnpackedFloat.add .binary64 x.toModel.unpack (.zero .positive) =
      x.toModel.unpack := by
    rcases hx : x.toModel.unpack with s | _ | ⟨⟨⟩⟩ | ⟨s, m, e, hm⟩
    · rfl
    · rfl
    · exact absurd hx h
    · rfl
    · rfl
  rw [hsum, hzero, hadd, ofModel_unpack]

end Bom
