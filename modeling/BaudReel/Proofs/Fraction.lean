import BaudReel.Session
import Mathlib

/-!
# Fractions are numbers

A status tells how far playback has come as a fraction of the stream, and two
statuses are compared as numbers.  That a status agrees with itself is therefore not
for free: it has to be shown that the fraction is a number at all.

A quotient fails to be one only where both parts are zero or both are infinite
(`div_ne_notANumber`).  The length of a stream that is not empty is neither
(`toFloat_finite`): between zero and two to the power of 64, rounding leaves a
mantissa of 53 bits with an exponent far from both ends.
-/

namespace BaudReel

open Float.Model Float.Model.UnpackedFloat

namespace Fraction

/-- Shifting a mantissa halves it so many times. -/
theorem mantissa_shiftRight (em : ExtendedMantissa) (count : Nat) :
    (em >>> count).mantissa = em.mantissa / 2 ^ count := by
  show (count.repeat ExtendedMantissa.shiftRightOne em).mantissa = _
  induction count with
  | zero => exact (Nat.div_one _).symm
  | succ count ih =>
    rw [Nat.repeat, Nat.pow_succ, ← Nat.div_div_eq_div_mul, ← ih]
    rfl

/-- Rounding adds one at the most. -/
theorem roundedMantissa_bounds (em : ExtendedMantissa) :
    em.mantissa ≤ em.roundedMantissa ∧ em.roundedMantissa ≤ em.mantissa + 1 := by
  obtain ⟨mantissa, roundBit, stickyBit⟩ := em
  cases roundBit <;> cases stickyBit <;>
    simp only [ExtendedMantissa.roundedMantissa, ExtendedMantissa.accuracy,
      Accuracy.roundToNearestEven] <;> omega

/-- Halving a number takes one from its logarithm each time. -/
theorem log2_div_two_pow {n k : Nat} (h : k ≤ n.log2) (hn : n ≠ 0) :
    (n / 2 ^ k).log2 = n.log2 - k ∧ n / 2 ^ k ≠ 0 := by
  obtain ⟨hlow, hhigh⟩ := (Nat.log2_eq_iff hn).1 rfl
  have hpos : 0 < 2 ^ k := Nat.two_pow_pos k
  have hlow' : 2 ^ (n.log2 - k) ≤ n / 2 ^ k := by
    rw [Nat.le_div_iff_mul_le hpos, ← Nat.pow_add, Nat.sub_add_cancel h]
    exact hlow
  have hhigh' : n / 2 ^ k < 2 ^ (n.log2 - k + 1) := by
    rw [Nat.div_lt_iff_lt_mul hpos, ← Nat.pow_add]
    have hexponent : n.log2 - k + 1 + k = n.log2 + 1 := by omega
    rw [hexponent]
    exact hhigh
  have hne : n / 2 ^ k ≠ 0 := Nat.ne_of_gt (Nat.lt_of_lt_of_le (Nat.two_pow_pos _) hlow')
  exact ⟨(Nat.log2_eq_iff hne).2 ⟨hlow', hhigh'⟩, hne⟩

/-- A mantissa of at least 53 bits, of a number that is not too small, is cut to 53. -/
theorem shiftToTargetExponent_spec {mantissa : Nat} {exponent : Int} (accuracy : Accuracy)
    (hlog : 52 ≤ mantissa.log2) (hexponent : -1000 ≤ exponent) :
    let shifted := shiftToTargetExponent Format.binary64 mantissa exponent accuracy
    shifted.1.mantissa.log2 = 52 ∧ shifted.1.mantissa ≠ 0 ∧
      shifted.2 = exponent + mantissa.log2 - 52 := by
  intro shifted
  have htarget : Format.binary64.targetExponent (totalExponent mantissa exponent) =
      mantissa.log2 + exponent - 52 := by
    simp only [Format.targetExponent, totalExponent, Format.mantissaBits, Format.minExponent]
    omega
  have hcount : (mantissa.log2 + exponent - 52 - exponent).toNat = mantissa.log2 - 52 := by omega
  have hshifted : shifted =
      (ExtendedMantissa.ofMantissaAndAccuracy mantissa accuracy >>> (mantissa.log2 - 52),
        exponent + (mantissa.log2 - 52 : Nat)) := by
    show shiftToExponent mantissa exponent accuracy _ = _
    rw [htarget, shiftToExponent, hcount]
  have hmantissa : (ExtendedMantissa.ofMantissaAndAccuracy mantissa accuracy).mantissa =
      mantissa := by
    cases accuracy with
    | exact => rfl
    | inexact order => cases order <;> rfl
  have hpos : mantissa ≠ 0 := by
    intro hzero
    rw [hzero] at hlog
    exact absurd hlog (by decide)
  obtain ⟨hcut, hne⟩ := log2_div_two_pow (Nat.sub_le mantissa.log2 52) hpos
  rw [hshifted, mantissa_shiftRight, hmantissa]
  refine ⟨?_, hne, ?_⟩
  · rw [hcut]
    omega
  · show exponent + (mantissa.log2 - 52 : Nat) = _
    omega

/-- Rounding may carry into one bit more, which is cut off again. -/
theorem roundWithAccuracy_spec {mantissa : Nat} {exponent : Int} (sign : Sign)
    (accuracy : Accuracy) (hlog : 52 ≤ mantissa.log2)
    (hexponent : -1000 ≤ exponent) :
    ∃ m e hpos, roundWithAccuracy Format.binary64 sign mantissa exponent accuracy =
        .finite sign m e hpos ∧
      m.log2 = 52 ∧ exponent + mantissa.log2 - 52 ≤ e ∧ e ≤ exponent + mantissa.log2 - 51 := by
  obtain ⟨hcut, hne, hat⟩ := shiftToTargetExponent_spec accuracy hlog hexponent
  generalize hfirst : shiftToTargetExponent Format.binary64 mantissa exponent accuracy = first
    at hcut hne hat
  obtain ⟨em, reached⟩ := first
  dsimp only at hcut hne hat
  obtain ⟨hlow, hhigh⟩ := (Nat.log2_eq_iff hne).1 hcut
  obtain ⟨hle, hge⟩ := roundedMantissa_bounds em
  have hrounded : em.roundedMantissa ≠ 0 := by omega
  have hlogLow : 52 ≤ em.roundedMantissa.log2 := (Nat.le_log2 hrounded).2 (by omega)
  have hlogHigh : em.roundedMantissa.log2 < 54 := (Nat.log2_lt hrounded).2 (by omega)
  have hreached : -1000 ≤ reached := by omega
  obtain ⟨hcut', hne', hat'⟩ := shiftToTargetExponent_spec .exact hlogLow hreached
  let second := shiftToTargetExponent Format.binary64 em.roundedMantissa reached .exact
  refine ⟨second.1.mantissa, second.2, Nat.pos_of_ne_zero hne', ?_, hcut', ?_, ?_⟩
  · rw [roundWithAccuracy, hfirst]
    exact dif_neg hne'
  · show _ ≤ (shiftToTargetExponent Format.binary64 em.roundedMantissa reached .exact).2
    omega
  · show (shiftToTargetExponent Format.binary64 em.roundedMantissa reached .exact).2 ≤ _
    omega

/-- Shifting left adds to the logarithm. -/
theorem log2_shiftLeft {n : Nat} (hn : n ≠ 0) (k : Nat) : (n <<< k).log2 = n.log2 + k := by
  obtain ⟨hlow, hhigh⟩ := (Nat.log2_eq_iff hn).1 rfl
  have hpos : 0 < 2 ^ k := Nat.two_pow_pos k
  have hlow' := Nat.mul_le_mul_right (2 ^ k) hlow
  have hhigh' := Nat.mul_lt_mul_of_pos_right hhigh hpos
  rw [← Nat.pow_add] at hlow'
  rw [← Nat.pow_add, Nat.add_right_comm] at hhigh'
  rw [Nat.shiftLeft_eq]
  exact (Nat.log2_eq_iff (Nat.mul_ne_zero hn (Nat.ne_of_gt hpos))).2 ⟨hlow', hhigh'⟩

/-- A whole number of up to 64 bits becomes a float with an exponent that is neither
low nor high. -/
theorem ofNat_spec {n : Nat} (hn : n ≠ 0) (hlt : n < 2 ^ 64) :
    ∃ m e hpos, UnpackedFloat.ofNat Format.binary64 n = .finite .positive m e hpos ∧
      m.log2 = 52 ∧ -52 ≤ e ∧ e ≤ 12 := by
  have hlog : n.log2 < 64 := (Nat.log2_lt hn).2 hlt
  have htarget : Format.binary64.targetExponent (totalExponent n 0) = (n.log2 : Int) - 52 := by
    simp only [Format.targetExponent, totalExponent, Format.mantissaBits, Format.minExponent]
    omega
  have hcount : (0 - ((n.log2 : Int) - 52)).toNat = 52 - n.log2 := by omega
  have hlog' := log2_shiftLeft hn (52 - n.log2)
  obtain ⟨m, e, hpos, hrounded, hm, hlow, hhigh⟩ :=
    roundWithAccuracy_spec .positive .exact (show 52 ≤ (n <<< (52 - n.log2)).log2 by omega)
      (show -1000 ≤ (0 - (52 - n.log2 : Nat) : Int) by omega)
  refine ⟨m, e, hpos, ?_, hm, ?_, ?_⟩
  · have hgt : compare (n : Int) 0 = .gt := Int.compare_eq_gt.2 (by omega)
    rw [UnpackedFloat.ofNat, UnpackedFloat.ofInt, UnpackedFloat.normalize, hgt]
    show UnpackedFloat.round Format.binary64 .positive (n : Int).toNat 0 = _
    rw [Int.toNat_natCast, UnpackedFloat.round, htarget, decreaseExponent, hcount]
    exact hrounded
  · rw [hlog'] at hlow
    omega
  · rw [hlog'] at hhigh
    omega

theorem exponent_ne_ones {biased : Nat} (h : biased + 1 < 2 ^ 11) :
    BitVec.ofNat 11 biased ≠ -1#11 := by
  intro hones
  have hvalue := congrArg BitVec.toNat hones
  rw [BitVec.toNat_ofNat, Nat.mod_eq_of_lt (by omega)] at hvalue
  have htop : (-1#11 : BitVec 11).toNat = 2047 := by decide
  omega

/-- What is packed comes out as no number only if its exponent is all ones and its
mantissa is not zero. -/
theorem unpack_ne_notANumber {bits : BitVec Format.binary64.numBits}
    (h : unpackExponent bits = -1#_ → unpackMantissa bits = 0#_) :
    UnpackedFloat.unpack Format.binary64 bits ≠ .notANumber := by
  unfold UnpackedFloat.unpack
  dsimp only
  by_cases hones : unpackExponent bits = -1#_
  · rw [if_pos hones, if_pos (h hones)]
    exact UnpackedFloat.noConfusion
  · rw [if_neg hones]
    split
    · split <;> exact UnpackedFloat.noConfusion
    · exact UnpackedFloat.noConfusion

/-- A number that is packed is unpacked as a number. -/
theorem unpack_pack_ne_notANumber {x : UnpackedFloat} (hx : x ≠ .notANumber) :
    UnpackedFloat.unpack Format.binary64 (UnpackedFloat.pack Format.binary64 x) ≠
      .notANumber := by
  apply unpack_ne_notANumber
  fun_cases UnpackedFloat.pack Format.binary64 x with
  | case1 => exact absurd rfl hx
  | case2 sign =>
    intro _
    exact unpackMantissa_packComponents
  | case3 sign =>
    intro _
    exact unpackMantissa_packComponents
  | case4 sign m e hpos biased htop =>
    intro _
    exact unpackMantissa_packComponents
  | case5 sign m e hpos bits biased htop hnormal =>
    intro hones
    rw [unpackExponent_packComponents] at hones
    exact absurd hones (exponent_ne_ones (Nat.lt_of_not_le htop))
  | case6 sign m e hpos bits biased htop hsubnormal =>
    intro hones
    rw [unpackExponent_packComponents] at hones
    exact absurd hones (by decide)

/-- A mantissa of 53 bits with an exponent in between comes out as a finite number. -/
theorem unpack_pack_finite {m : Nat} {e : Int} (hpos : 0 < m) (hlog : m.log2 = 52)
    (hlow : -52 ≤ e) (hhigh : e ≤ 12) :
    ∃ sign m' e' hpos', UnpackedFloat.unpack Format.binary64
        (UnpackedFloat.pack Format.binary64 (.finite .positive m e hpos)) =
      .finite sign m' e' hpos' := by
  let biased := (e + 1023 + 52).toNat
  have hbiased : 1 ≤ biased ∧ biased + 1 < 2 ^ 11 := by omega
  have hbits : m.log2 + 1 = Format.binary64.mantissaBits := by
    rw [hlog]
    rfl
  have hpack : UnpackedFloat.pack Format.binary64 (.finite .positive m e hpos) =
      packComponents Format.binary64 .positive (BitVec.ofNat _ biased) (BitVec.ofNat _ m) := by
    show (if 2 ^ 11 ≤ biased + 1 then _ else if m.log2 + 1 = Format.binary64.mantissaBits then _
      else _) = _
    rw [if_neg (by omega), if_pos hbits]
    rfl
  have hones := exponent_ne_ones hbiased.2
  have hzero : BitVec.ofNat 11 biased ≠ 0#11 := by
    intro hzero
    have hvalue := congrArg BitVec.toNat hzero
    rw [BitVec.toNat_ofNat, Nat.mod_eq_of_lt (by omega)] at hvalue
    exact absurd hvalue (by simp; omega)
  have himplicit : ∀ fraction : BitVec 52, 0 < (1#1 ++ fraction).toNat := by
    intro fraction
    rw [BitVec.toNat_append]
    exact Nat.lt_of_lt_of_le (by decide) Nat.left_le_or
  rw [hpack]
  unfold UnpackedFloat.unpack
  simp only [unpackExponent_packComponents]
  rw [if_neg hones, if_neg hzero]
  exact ⟨_, _, _, himplicit _, rfl⟩

/-- Rounding gives a number. -/
theorem roundWithAccuracy_ne_notANumber (sign : Sign) (m : Nat) (e : Int)
    (accuracy : Accuracy) :
    roundWithAccuracy Format.binary64 sign m e accuracy ≠ .notANumber := by
  unfold roundWithAccuracy
  dsimp only
  split <;> exact UnpackedFloat.noConfusion

/-- A number by a finite one is a number. -/
theorem div_ne_notANumber {x : UnpackedFloat} (hx : x ≠ .notANumber) (sign : Sign) (m : Nat)
    (e : Int) (hpos : 0 < m) :
    UnpackedFloat.div Format.binary64 x (.finite sign m e hpos) ≠ .notANumber := by
  cases x with
  | notANumber => exact absurd rfl hx
  | infinity sign' => exact UnpackedFloat.noConfusion
  | zero sign' => exact UnpackedFloat.noConfusion
  | finite sign' m' e' hpos' => exact roundWithAccuracy_ne_notANumber _ _ _ _

end Fraction

open Fraction

/-- A double that compares with another is a number, and so it agrees with itself. -/
theorem beq_self_of_le {x y : Float} (h : x ≤ y) : (y == y) = true := by
  have hle : UnpackedFloat.le x.toModel.unpack y.toModel.unpack = true := of_decide_eq_true h
  have hnumber : y.toModel.unpack ≠ .notANumber := by
    intro hy
    have hnone : UnpackedFloat.le x.toModel.unpack .notANumber = false := by
      cases x.toModel.unpack <;> rfl
    rw [hy, hnone] at hle
    exact Bool.false_ne_true hle
  exact (beq_iff_ne_notANumber_and_eq _ _).2 ⟨hnumber, hnumber, .inl rfl⟩

/-- **A fraction of something is a number**, and so it agrees with itself. -/
theorem fractionOf_beq_self (part : Nat) {whole : Nat} (hpos : 0 < whole)
    (hle : whole ≤ Word.max64) : (fractionOf part whole == fractionOf part whole) = true := by
  have hpart : UnpackedFloat.ofNat Format.binary64 part.toUInt64.toNat ≠ .notANumber := by
    by_cases hzero : part.toUInt64.toNat = 0
    · rw [hzero]
      exact UnpackedFloat.noConfusion
    · obtain ⟨m, e, hm, hfinite, -⟩ := ofNat_spec hzero part.toUInt64.toNat_lt
      rw [hfinite]
      exact UnpackedFloat.noConfusion
  have hlt : whole < 2 ^ 64 := by
    have hmax : Word.max64 = 2 ^ 64 - 1 := by decide
    omega
  have hwhole : whole.toUInt64.toNat = whole := UInt64.toNat_ofNat_of_lt' hlt
  obtain ⟨m, e, hm, hfinite, hlog, hlow, hhigh⟩ := ofNat_spec (Nat.ne_of_gt hpos) hlt
  obtain ⟨sign, m', e', hm', hunpacked⟩ := unpack_pack_finite hm hlog hlow hhigh
  let x := UnpackedFloat.unpack Format.binary64
    (UnpackedFloat.pack Format.binary64 (UnpackedFloat.ofNat Format.binary64 part.toUInt64.toNat))
  let y := UnpackedFloat.unpack Format.binary64
    (UnpackedFloat.pack Format.binary64 (UnpackedFloat.ofNat Format.binary64 whole.toUInt64.toNat))
  have hy : y = .finite sign m' e' hm' := by
    rw [← hunpacked, ← hfinite]
    show UnpackedFloat.unpack _ (UnpackedFloat.pack _ (UnpackedFloat.ofNat _ _)) = _
    rw [hwhole]
  have hquotient : UnpackedFloat.div Format.binary64 x y ≠ .notANumber := by
    rw [hy]
    exact div_ne_notANumber (unpack_pack_ne_notANumber hpart) sign m' e' hm'
  have hnumber := unpack_pack_ne_notANumber hquotient
  exact (beq_iff_ne_notANumber_and_eq _ _).2 ⟨hnumber, hnumber, .inl rfl⟩

end BaudReel
