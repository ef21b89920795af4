import Bom.Edge
import Bom.Proofs.Decimal.Double

/-!
# How large a result can be

`IsWithin k` bounds the exponent of a finite value. Rounding adds one to the exponents that it is
given (`isWithin_roundWithAccuracy`), so sums, quotients and products of bounded values are bounded
(`isWithin_add`, `isWithin_div`, `isWithin_mul`), and a value whose exponent is in the range of a
double is packed without becoming infinite (`isWithin_pack`). A percentage between -100 and 100 has
a small exponent (`isWithin_of_between`), and so the factor for scrap is a number whatever the
percentage is (`isFinite_scrapMultiplier`).
-/

namespace Bom

open Float.Model Float.Model.UnpackedFloat

/-- The value is finite, with an exponent of at most `k`. -/
def IsWithin (k : Int) : UnpackedFloat → Prop
  | .finite _ _ e _ => e ≤ k
  | .zero _ => True
  | _ => False

theorem IsWithin.mono {k k' : Int} (hk : k ≤ k') {f : UnpackedFloat} (h : IsWithin k f) :
    IsWithin k' f := by
  rcases f with s | _ | s | ⟨s, m, e, hm⟩
  · exact h
  · exact h
  · trivial
  · exact Int.le_trans h hk

theorem IsWithin.isFinite {k : Int} {f : UnpackedFloat} (h : IsWithin k f) : f.isFinite = true := by
  rcases f with s | _ | s | ⟨s, m, e, hm⟩
  · exact h.elim
  · exact h.elim
  · rfl
  · rfl

/-! ## Rounding -/

/-- A shift to the right divides. -/
theorem mantissa_shiftRight (em : ExtendedMantissa) (k : Nat) :
    (em >>> k).mantissa = em.mantissa / 2 ^ k := by
  change (Nat.repeat ExtendedMantissa.shiftRightOne k em).mantissa = _
  induction k with
  | zero => rw [Nat.repeat, Nat.pow_zero, Nat.div_one]
  | succ k ih =>
    change (Nat.repeat ExtendedMantissa.shiftRightOne k em).mantissa / 2 = _
    rw [ih, Nat.div_div_eq_div_mul, Nat.pow_succ]

/-- Rounding adds at most one to a significand. -/
theorem roundedMantissa_le (em : ExtendedMantissa) : em.roundedMantissa ≤ em.mantissa + 1 := by
  obtain ⟨m, roundBit, stickyBit⟩ := em
  cases roundBit <;> cases stickyBit
  · exact Nat.le_succ m
  · exact Nat.le_succ m
  · change m + m % 2 ≤ m + 1
    omega
  · exact Nat.le_refl _

theorem mantissa_ofMantissaAndAccuracy (m : Nat) (a : Accuracy) :
    (ExtendedMantissa.ofMantissaAndAccuracy m a).mantissa = m := by
  rcases a with _ | ⟨⟨⟩⟩ <;> rfl

/-- The exponent that a value is shifted to: its own if that is large enough, else the one with
which fifty-three binary digits are left. -/
theorem exponent_shiftToTargetExponent (m : Nat) (e : Int) (a : Accuracy) :
    (shiftToTargetExponent .binary64 m e a).2 = max e (max (m.log2 + e - 52) (-1074)) := by
  have htarget : Format.binary64.targetExponent (totalExponent m e) =
      max (m.log2 + 1 + e - 53) (-1074) := rfl
  unfold shiftToTargetExponent shiftToExponent
  rw [htarget]
  dsimp only
  omega

/-- What is left after the shift has at most fifty-three binary digits. -/
theorem mantissa_shiftToTargetExponent_lt (m : Nat) (e : Int) (a : Accuracy) :
    (shiftToTargetExponent .binary64 m e a).1.mantissa < 2 ^ 53 := by
  have htarget : Format.binary64.targetExponent (totalExponent m e) =
      max (m.log2 + 1 + e - 53) (-1074) := rfl
  unfold shiftToTargetExponent shiftToExponent
  dsimp only
  rw [mantissa_shiftRight, mantissa_ofMantissaAndAccuracy,
    Nat.div_lt_iff_lt_mul (Nat.two_pow_pos _), ← Nat.pow_add, htarget]
  exact lt_two_pow_of_log2 (by omega)

/-- A value that is a zero where its significand is. -/
theorem isWithin_of_le {k : Int} {s : Sign} {m : Nat} {e : Int} (h : e ≤ k) :
    IsWithin k (if hm : m = 0 then .zero s else .finite s m e (Nat.pos_of_ne_zero hm)) := by
  by_cases hm : m = 0
  · rw [dif_pos hm]
    trivial
  · rw [dif_neg hm]
    exact h

/-- Rounding adds at most one to the exponent that a value is shifted to. -/
theorem isWithin_roundWithAccuracy {k : Int} (s : Sign) {m : Nat} {e : Int} (a : Accuracy)
    (hlow : -1074 ≤ k) (he : e ≤ k) (hm : m.log2 + e ≤ k + 52) :
    IsWithin (k + 1) (roundWithAccuracy .binary64 s m e a) := by
  have hexponent := exponent_shiftToTargetExponent m e a
  have hmantissa := mantissa_shiftToTargetExponent_lt m e a
  unfold roundWithAccuracy
  generalize shiftToTargetExponent .binary64 m e a = first at hexponent hmantissa
  obtain ⟨em, e'⟩ := first
  dsimp only at hexponent hmantissa
  -- the rounded significand may have one digit too many, and is shifted once more
  have hlog : em.roundedMantissa.log2 ≤ 53 := by
    have hround := roundedMantissa_le em
    have hlt : em.roundedMantissa < 2 ^ 54 := by omega
    by_cases hzero : em.roundedMantissa = 0
    · rw [hzero]
      decide
    · have := (Nat.log2_lt hzero).2 hlt
      omega
  have hagain := exponent_shiftToTargetExponent em.roundedMantissa e' .exact
  refine isWithin_of_le (e := (shiftToTargetExponent .binary64 em.roundedMantissa e' .exact).2) ?_
  omega

/-- Zeros are written behind a significand when the exponent is made smaller. -/
theorem isWithin_round {k : Int} (s : Sign) {m : Nat} {e : Int} (hlow : -1074 ≤ k) (he : e ≤ k)
    (hm : m.log2 + e ≤ k + 52) (hpos : 0 < m) :
    IsWithin (k + 1) (UnpackedFloat.round .binary64 s m e) := by
  unfold UnpackedFloat.round decreaseExponent
  dsimp only
  refine isWithin_roundWithAccuracy s .exact hlow (by omega) ?_
  rw [Nat.shiftLeft_eq, log2_mul_two_pow hpos]
  omega

/-! ## Packing -/

/-- An exponent in the range of a double is packed as one that is no greater, and not as that of an
infinity. -/
theorem exists_pack_eq {k : Int} {s : Sign} {m : Nat} {e : Int} {hm : 0 < m} (he : e ≤ k)
    (hlow : -1074 ≤ k) (hhigh : k ≤ 971) :
    ∃ (b : BitVec 11) (m' : BitVec 52), (b.toNat : Int) - 1075 ≤ k ∧
      UnpackedFloat.pack .binary64 (.finite s m e hm) = packComponents .binary64 s b m' := by
  have hbiased : (e + Format.binary64.exponentBias +
      Format.binary64.mantissaBitsWithoutImplicit).toNat = (e + 1075).toNat := by
    change (e + 1023 + 52).toNat = _
    omega
  have hfinite : ¬ 2 ^ Format.binary64.exponentBits ≤ (e + 1075).toNat + 1 := by
    change ¬ 2048 ≤ _
    omega
  unfold UnpackedFloat.pack
  dsimp only
  rw [hbiased, if_neg hfinite]
  split
  · refine ⟨BitVec.ofNat 11 (e + 1075).toNat, _, ?_, rfl⟩
    rw [BitVec.toNat_ofNat]
    omega
  · refine ⟨0#11, _, ?_, rfl⟩
    change (0 : Int) - 1075 ≤ k
    omega

/-- A value is not infinite once it is packed, if its exponent is in the range of a double. -/
theorem isWithin_pack {k : Int} {f : UnpackedFloat} (h : IsWithin k f) (hlow : -1074 ≤ k)
    (hhigh : k ≤ 971) :
    IsWithin k (UnpackedFloat.unpack .binary64 (UnpackedFloat.pack .binary64 f)) := by
  rcases f with s | _ | s | ⟨s, m, e, hm⟩
  · exact h.elim
  · exact h.elim
  · cases s <;> trivial
  · obtain ⟨b, m', hb, hpack⟩ := exists_pack_eq h hlow hhigh
    rw [hpack, unpack_packComponents, if_neg]
    · by_cases hzero : b = 0#11
      · rw [if_pos hzero]
        by_cases hm' : 0 < m'.toNat
        · rw [dif_pos hm']
          exact hlow
        · rw [dif_neg hm']
          trivial
      · rw [if_neg hzero]
        exact hb
    · rintro rfl
      change (2047 : Int) - 1075 ≤ k at hb
      omega

/-! ## Sums, quotients and products -/

/-- The greatest significand of a canonical value. -/
theorem IsCanonical.mantissa_lt {s : Sign} {m : Nat} {e : Int} {hm : 0 < m}
    (h : IsCanonical (.finite s m e hm)) : m < 2 ^ 53 :=
  lt_two_pow_of_log2 (Nat.lt_succ_of_le h.1)

/-- A significand that is written with a smaller exponent. -/
theorem decreaseExponent_lt {m : Nat} {e k : Int} (hm : m < 2 ^ 53) (he : e ≤ k) (e' : Int) :
    (decreaseExponent m e e').1 < 2 ^ (53 + (k - e').toNat) := by
  change m <<< (e - e').toNat < _
  rw [Nat.shiftLeft_eq, Nat.pow_add]
  exact Nat.mul_lt_mul_of_lt_of_le hm (Nat.pow_le_pow_right (by decide) (by omega))
    (Nat.two_pow_pos _)

theorem natAbs_apply (s : Sign) (m : Nat) : (s.apply m).natAbs = m := by
  cases s
  · exact Int.natAbs_neg m
  · rfl

/-- A signed significand of at most fifty-four digits, and the zeros behind it, is rounded to an
exponent that is greater by two at most. -/
theorem isWithin_normalize {k i e : Int} (zero : Sign) (hlow : -1074 ≤ k) (he : e ≤ k)
    (hi : i.natAbs < 2 ^ (54 + (k - e).toNat)) :
    IsWithin (k + 2) (UnpackedFloat.normalize .binary64 i e zero) := by
  have hround : ∀ sign : Sign, 0 < i.natAbs →
      IsWithin (k + 2) (UnpackedFloat.round .binary64 sign i.natAbs e) := by
    intro sign hpos
    have hlog := (Nat.log2_lt (Nat.ne_of_gt hpos)).2 hi
    exact (isWithin_round (k := k + 1) sign (by omega) (by omega) (by omega) hpos).mono (by omega)
  unfold UnpackedFloat.normalize
  rcases Int.lt_trichotomy i 0 with hneg | rfl | hpos
  · rw [Int.compare_eq_lt.2 hneg, show (-i).toNat = i.natAbs by omega]
    exact hround _ (by omega)
  · trivial
  · rw [Int.compare_eq_gt.2 hpos, show i.toNat = i.natAbs by omega]
    exact hround _ (by omega)

/-- A sum is rounded to an exponent above those of its terms by two at most. -/
theorem isWithin_add {k : Int} {f g : UnpackedFloat} (hf : IsCanonical f) (hg : IsCanonical g)
    (hfk : IsWithin k f) (hgk : IsWithin k g) (hlow : -1074 ≤ k) :
    IsWithin (k + 2) (UnpackedFloat.add .binary64 f g) := by
  have hk : k ≤ k + 2 := by omega
  rcases f with s | _ | s | ⟨s, m, e, hm⟩
  · exact hfk.elim
  · exact hfk.elim
  · rcases g with s' | _ | s' | ⟨s', m', e', hm'⟩
    · exact hgk.elim
    · exact hgk.elim
    · cases s <;> cases s' <;> trivial
    · exact hgk.mono hk
  · rcases g with s' | _ | s' | ⟨s', m', e', hm'⟩
    · exact hgk.elim
    · exact hgk.elim
    · exact hfk.mono hk
    · change e ≤ k at hfk
      change e' ≤ k at hgk
      have hleft := decreaseExponent_lt hf.mantissa_lt hfk (min e e')
      have hright := decreaseExponent_lt hg.mantissa_lt hgk (min e e')
      unfold UnpackedFloat.add
      dsimp only
      generalize (decreaseExponent m e (min e e')).1 = a at hleft
      generalize (decreaseExponent m' e' (min e e')).1 = b at hright
      -- the sum of two significands has at most one digit more
      have hsum : (s.apply a + s'.apply b).natAbs < 2 ^ (54 + (k - min e e').toNat) := by
        have htriangle := Int.natAbs_add_le (s.apply a) (s'.apply b)
        rw [natAbs_apply, natAbs_apply] at htriangle
        rw [show 54 + (k - min e e').toNat = 53 + (k - min e e').toNat + 1 by omega, Nat.pow_succ]
        omega
      exact isWithin_normalize .positive hlow (Int.le_trans (Int.min_le_left e e') hfk) hsum

/-- The log of a quotient is at most that of what is divided. -/
theorem log2_div_le (m n : Nat) : (m / n).log2 ≤ m.log2 := by
  by_cases hzero : m / n = 0
  · rw [hzero]
    exact Nat.zero_le _
  · refine (Nat.le_log2 ?_).2 (Nat.le_trans (Nat.log2_self_le hzero) (Nat.div_le_self m n))
    rintro rfl
    exact hzero (Nat.zero_div n)

/-- A quotient by a value with the exponent `e` is rounded to an exponent of at most one more than
the difference. -/
theorem isWithin_div {k : Int} {f : UnpackedFloat} (hf : IsCanonical f) (hfk : IsWithin k f)
    (s' : Sign) {m' : Nat} {e' : Int} (hm' : 0 < m') (hlow : -1074 ≤ k - e') :
    IsWithin (k - e' + 1) (UnpackedFloat.div .binary64 f (.finite s' m' e' hm')) := by
  rcases f with s | _ | s | ⟨s, m, e, hm⟩
  · exact hfk.elim
  · exact hfk.elim
  · trivial
  · change e ≤ k at hfk
    unfold UnpackedFloat.div divCore
    dsimp only
    have hlog := hf.1
    have hquotient := log2_div_le (m <<< (e - e' - min (e - e') (Format.binary64.targetExponent
      (totalExponent m e - totalExponent m' e'))).toNat) m'
    rw [Nat.shiftLeft_eq, log2_mul_two_pow hm] at hquotient
    rw [Nat.shiftLeft_eq]
    exact isWithin_roundWithAccuracy _ _ hlow (by omega) (by omega)

/-- A product is rounded to an exponent that is fifty-four above the sum of those of its factors at
most. -/
theorem isWithin_mul {k : Int} {f : UnpackedFloat} (hf : IsCanonical f) (hfk : IsWithin k f)
    (s' : Sign) {m' : Nat} {e' : Int} (hm' : 0 < m') (hlog : m'.log2 ≤ 52)
    (hlow : -1074 ≤ k + e' + 53) :
    IsWithin (k + e' + 54) (UnpackedFloat.mul .binary64 f (.finite s' m' e' hm')) := by
  rcases f with s | _ | s | ⟨s, m, e, hm⟩
  · exact hfk.elim
  · exact hfk.elim
  · trivial
  · change e ≤ k at hfk
    have hproduct := log2_mul_le hm hm'
    have hown := hf.1
    exact (isWithin_roundWithAccuracy (k := k + e' + 53) _ _ hlow (by omega) (by omega)).mono
      (by omega)

/-! ## Bounds that are doubles -/

/-- Of two positive values the smaller one has no greater exponent. -/
theorem exponent_le_of_lt {m m' : Nat} {e e' : Int} {hm : 0 < m} {hm' : 0 < m'}
    (h : UnpackedFloat.lt (.finite .positive m e hm) (.finite .positive m' e' hm') = true) :
    e ≤ e' := by
  refine Int.not_lt.1 fun hlarge => ?_
  have hcompare : compare e e' = .gt := Int.compare_eq_gt.2 hlarge
  change (some ((compare e e').then (compare m m')) == some .lt) = true at h
  rw [hcompare] at h
  cases h

/-- Of two negative values the greater one has no greater exponent. -/
theorem exponent_le_of_lt_negative {m m' : Nat} {e e' : Int} {hm : 0 < m} {hm' : 0 < m'}
    (h : UnpackedFloat.lt (.finite .negative m e hm) (.finite .negative m' e' hm') = true) :
    e' ≤ e := by
  refine Int.not_lt.1 fun hlarge => ?_
  have hcompare : compare e e' = .lt := Int.compare_eq_lt.2 hlarge
  change (some ((compare e e').then (compare m m')).swap == some .lt) = true at h
  rw [hcompare] at h
  cases h

/-- A double between two opposites has an exponent no greater than theirs. -/
theorem isWithin_of_between {x y : Float} {m : Nat} {e : Int} {hm : 0 < m}
    (hy : y.toModel.unpack = .finite .positive m e hm) (hlow : -y < x) (hhigh : x < y) :
    IsWithin e x.toModel.unpack := by
  rw [lt_iff_unpack] at hlow hhigh
  rw [unpack_neg, hy] at hlow
  rw [hy] at hhigh
  generalize x.toModel.unpack = f at hlow hhigh
  rcases f with ⟨⟨⟩⟩ | _ | s | ⟨⟨⟩, m', e', hm'⟩
  · cases hlow
  · cases hhigh
  · cases hlow
  · trivial
  · exact exponent_le_of_lt_negative hlow
  · exact exponent_le_of_lt hhigh

/-! ## The factor for scrap -/

/-- The value of 100. -/
theorem unpack_hundred :
    (Float.toModel 100.0).unpack = .finite .positive 7036874417766400 (-46) (by decide) := rfl

/-- The value of 1. -/
theorem unpack_one :
    (Float.toModel 1.0).unpack = .finite .positive 4503599627370496 (-52) (by decide) := rfl

/-- A percentage that can be used has an exponent no greater than that of 100. -/
theorem isWithin_of_usableScrap {percent : Float} (h : usableScrap percent = true) :
    IsWithin (-46) percent.toModel.unpack := by
  unfold usableScrap at h
  rw [Bool.and_eq_true, Bool.and_eq_true, decide_eq_true_iff, decide_eq_true_iff] at h
  obtain ⟨⟨-, hlow⟩, hhigh⟩ := h
  exact isWithin_of_between unpack_hundred hlow hhigh

/-- The factor for scrap is a number, whatever the percentage is. -/
theorem isFinite_scrapMultiplier (percent : Option Float) :
    (scrapMultiplier percent).isFinite = true := by
  cases percent with
  | none => rfl
  | some percent =>
    unfold scrapMultiplier
    dsimp only
    split
    · next husable =>
      have hquotient : IsWithin 1 (percent / 100.0).toModel.unpack :=
        isWithin_pack (isWithin_div (isCanonical percent) (isWithin_of_usableScrap husable)
          .positive (by decide) (by decide)) (by decide) (by decide)
      have hone : IsWithin 1 (Float.toModel 1.0).unpack := by
        rw [unpack_one]
        exact (by decide : (-52 : Int) ≤ 1)
      have hsum : IsWithin 3 (1.0 + percent / 100.0).toModel.unpack :=
        isWithin_pack (isWithin_add (isCanonical 1.0) (isCanonical (percent / 100.0)) hone hquotient
          (by decide)) (by decide) (by decide)
      exact hsum.isFinite
    · rfl

/-- The units of a component are a number, whatever the quantity is. -/
theorem isFinite_quantityMultiplier (quantity : Option Float) :
    (quantityMultiplier quantity).isFinite = true := by
  cases quantity with
  | none => rfl
  | some q =>
    unfold quantityMultiplier
    dsimp only
    split
    · assumption
    · rfl

end Bom
