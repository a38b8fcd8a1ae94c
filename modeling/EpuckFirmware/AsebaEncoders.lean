import EpuckFirmware.Encoder

/-!
# The encoders as script variables

`aseba_read_variables_from_system` shows an encoder to the scripts as its quotient and
its remainder by `INT16_MAX`, each in a variable of 16 bits. The division truncates, so
that quotient and remainder have the sign of the encoder.

Two integers have the same digits in this sense when they differ by a multiple of the
number of digit pairs and their signs agree or do not matter. The quotients of 32 bits
by 32767 go beyond 16 bits, and so encoders far away from each other are shown alike;
an encoder whose quotient fits is recovered.
-/

/-! ## Quotient and remainder, modulo a power of the base -/

namespace TruncatedDivision

variable {d M a b : ℤ}

/-- The remainder depends on the multiple of the divisor that is subtracted only through
the sign. -/
theorem tmod_eq_of_sub_eq (k : ℤ) (hsub : a - b = d * k)
    (hsign : (0 ≤ a ∧ 0 ≤ b) ∨ (a ≤ 0 ∧ b ≤ 0) ∨ d ∣ a) : a.tmod d = b.tmod d := by
  have ha : a = b + d * k := by linarith
  obtain ⟨ha0, hb0⟩ | ⟨ha0, hb0⟩ | hdvd := hsign
  · rw [Int.tmod_eq_emod_of_nonneg ha0, Int.tmod_eq_emod_of_nonneg hb0, ha,
      Int.add_mul_emod_self_left]
  · have hneg : (-a).tmod d = (-b).tmod d := by
      rw [Int.tmod_eq_emod_of_nonneg (Int.neg_nonneg_of_nonpos ha0),
        Int.tmod_eq_emod_of_nonneg (Int.neg_nonneg_of_nonpos hb0),
        show -a = -b + d * -k by linarith, Int.add_mul_emod_self_left]
    rw [Int.neg_tmod, Int.neg_tmod] at hneg
    exact neg_inj.mp hneg
  · have hdvd' : d ∣ b := by
      rw [show b = a - d * k by linarith]
      exact hdvd.sub (Int.dvd_mul_right d k)
    rw [Int.tmod_eq_zero_of_dvd hdvd, Int.tmod_eq_zero_of_dvd hdvd']

/-- Remainders of different signs that are equal are zero. -/
theorem dvd_of_tmod_eq (h : a.tmod d = b.tmod d) (ha : 0 ≤ a) (hb : b ≤ 0) : d ∣ a := by
  have hpos : 0 ≤ a.tmod d := Int.tmod_nonneg d ha
  have hneg : 0 ≤ (-b).tmod d := Int.tmod_nonneg d (Int.neg_nonneg_of_nonpos hb)
  rw [Int.neg_tmod] at hneg
  exact Int.dvd_of_tmod_eq_zero (by omega)

/-- Remainders are equal when they are modulo a number as large as their range. -/
theorem tmod_eq_of_modEq (hd : 0 < d) (hM : 2 * d ≤ M + 1)
    (h : a.tmod d ≡ b.tmod d [ZMOD M]) : a.tmod d = b.tmod d := by
  have ha := Int.tmod_lt_of_pos a hd
  have ha' := Int.lt_tmod_of_pos a hd
  have hb := Int.tmod_lt_of_pos b hd
  have hb' := Int.lt_tmod_of_pos b hd
  have habs : |b.tmod d - a.tmod d| < M := by
    rw [abs_lt]
    constructor <;> omega
  have hzero := Int.eq_zero_of_abs_lt_dvd h.dvd habs
  omega

/-- **When quotient and remainder agree** modulo a number that tells the remainders
apart. -/
theorem tdiv_tmod_modEq_iff (hd : 0 < d) (hM : 2 * d ≤ M + 1) :
    (a.tdiv d ≡ b.tdiv d [ZMOD M] ∧ a.tmod d ≡ b.tmod d [ZMOD M])
      ↔ M * d ∣ a - b ∧ ((0 ≤ a ∧ 0 ≤ b) ∨ (a ≤ 0 ∧ b ≤ 0) ∨ d ∣ a) := by
  have hdiv : a.tmod d = b.tmod d → a - b = (a.tdiv d - b.tdiv d) * d := by
    intro h
    have ha := Int.tdiv_mul_add_tmod a d
    have hb := Int.tdiv_mul_add_tmod b d
    linarith
  constructor
  · rintro ⟨hquot, hrem⟩
    have heq := tmod_eq_of_modEq hd hM hrem
    refine ⟨?_, ?_⟩
    · rw [hdiv heq]
      exact mul_dvd_mul_right hquot.symm.dvd d
    · rcases le_total 0 a with ha | ha <;> rcases le_total 0 b with hb | hb
      · exact Or.inl ⟨ha, hb⟩
      · exact Or.inr (Or.inr (dvd_of_tmod_eq heq ha hb))
      · have hb' := dvd_of_tmod_eq heq.symm hb ha
        rw [Int.dvd_iff_tmod_eq_zero, ← heq, ← Int.dvd_iff_tmod_eq_zero] at hb'
        exact Or.inr (Or.inr hb')
      · exact Or.inr (Or.inl ⟨ha, hb⟩)
  · rintro ⟨⟨k, hk⟩, hsign⟩
    have heq := tmod_eq_of_sub_eq (M * k) (by rw [hk]; ring) hsign
    refine ⟨?_, by rw [heq]⟩
    have hquot : a.tdiv d - b.tdiv d = M * k := by
      refine mul_right_cancel₀ hd.ne' ?_
      rw [← hdiv heq, hk]
      ring
    exact (Int.modEq_of_dvd ⟨k, hquot⟩).symm

end TruncatedDivision

namespace Aseba

open Encoder

/-- `INT16_MAX`. -/
def int16Max : BitVec 32 := 32767

/-- The variables of the encoders, each a pair. -/
structure EncoderVariables where
  motorLeftEnc : Vector (BitVec 16) 2
  motorRightEnc : Vector (BitVec 16) 2

/-- An encoder as a pair of variables: the operators divide towards zero, and the
conversions keep the low 16 bits. -/
def encoderPair (enc : BitVec 32) : Vector (BitVec 16) 2 :=
  #v[(enc.sdiv int16Max).setWidth 16, (enc.srem int16Max).setWidth 16]

/-- The part of `aseba_read_variables_from_system` for the encoders, given the message
of the topic when there is one. -/
def readEncoders (topic : Option EncodersMsg) (vm : EncoderVariables) : EncoderVariables :=
  match topic with
  | none => vm
  | some msg =>
    { vm with
      motorLeftEnc := encoderPair msg.left
      motorRightEnc := encoderPair msg.right }

/-- Words are equal in their low 16 bits when their values are modulo `2 ^ 16`. -/
theorem setWidth_eq_iff (x y : BitVec 32) :
    x.setWidth 16 = y.setWidth 16 ↔ x.toInt ≡ y.toInt [ZMOD 65536] := by
  rw [← BitVec.toNat_inj, BitVec.toNat_setWidth, BitVec.toNat_setWidth,
    BitVec.toInt_eq_toNat_cond, BitVec.toInt_eq_toNat_cond, Int.ModEq]
  split <;> split <;> omega

theorem toInt_sdiv_int16Max (x : BitVec 32) : (x.sdiv int16Max).toInt = x.toInt.tdiv 32767 :=
  BitVec.toInt_sdiv_of_ne_or_ne x int16Max (Or.inr (by decide))

theorem toInt_srem_int16Max (x : BitVec 32) : (x.srem int16Max).toInt = x.toInt.tmod 32767 :=
  BitVec.toInt_srem x int16Max

/-- Encoders that differ by a multiple of `65536 * 32767`, with the same sign or without a
remainder. -/
def Alike (x y : ℤ) : Prop :=
  65536 * 32767 ∣ x - y ∧ ((0 ≤ x ∧ 0 ≤ y) ∨ (x ≤ 0 ∧ y ≤ 0) ∨ 32767 ∣ x)

/-- **Encoders that are shown alike.** -/
theorem encoderPair_eq_iff (x y : BitVec 32) :
    encoderPair x = encoderPair y ↔ Alike x.toInt y.toInt := by
  have hpair : encoderPair x = encoderPair y
      ↔ (x.sdiv int16Max).setWidth 16 = (y.sdiv int16Max).setWidth 16
        ∧ (x.srem int16Max).setWidth 16 = (y.srem int16Max).setWidth 16 := by
    simp [encoderPair]
  rw [hpair, setWidth_eq_iff, setWidth_eq_iff, toInt_sdiv_int16Max, toInt_sdiv_int16Max,
    toInt_srem_int16Max, toInt_srem_int16Max]
  exact TruncatedDivision.tdiv_tmod_modEq_iff (by norm_num) (by norm_num)

/-- **The variables determine the encoders** unless these are different and shown
alike. -/
theorem readEncoders_determines_iff (msg msg' : EncodersMsg) (vm vm' : EncoderVariables) :
    (((readEncoders (some msg) vm).motorLeftEnc = (readEncoders (some msg') vm').motorLeftEnc
        → msg.left = msg'.left)
      ↔ ¬ (msg.left ≠ msg'.left ∧ Alike msg.left.toInt msg'.left.toInt))
    ∧ (((readEncoders (some msg) vm).motorRightEnc = (readEncoders (some msg') vm').motorRightEnc
        → msg.right = msg'.right)
      ↔ ¬ (msg.right ≠ msg'.right ∧ Alike msg.right.toInt msg'.right.toInt)) := by
  have hone : ∀ x y : BitVec 32, (encoderPair x = encoderPair y → x = y)
      ↔ ¬ (x ≠ y ∧ Alike x.toInt y.toInt) := by
    intro x y
    rw [encoderPair_eq_iff]
    tauto
  exact ⟨hone msg.left msg'.left, hone msg.right msg'.right⟩

/-- An encoder that went `65536 * 32767` ticks is shown as one at zero. -/
theorem readEncoders_not_determines :
    ¬ ((readEncoders (some ⟨2147418112, 0⟩) ⟨#v[0, 0], #v[0, 0]⟩).motorLeftEnc
        = (readEncoders (some ⟨0, 0⟩) ⟨#v[0, 0], #v[0, 0]⟩).motorLeftEnc
      → (2147418112 : BitVec 32) = 0) := by
  decide

/-! ## Recovery -/

/-- The encoder that a pair of variables stands for. -/
def encoderOfPair (pair : Vector (BitVec 16) 2) : ℤ :=
  32767 * (pair.get 0).toInt + (pair.get 1).toInt

/-- A word whose value fits is kept by the conversion to a variable. -/
theorem toInt_setWidth_of_fits {x : BitVec 32} (h : -2 ^ 15 ≤ x.toInt ∧ x.toInt < 2 ^ 15) :
    (x.setWidth 16).toInt = x.toInt := by
  rw [BitVec.toInt_eq_toNat_cond] at h ⊢
  rw [BitVec.toInt_eq_toNat_cond, BitVec.toNat_setWidth]
  split at h <;> split <;> omega

/-- **An encoder is recovered** from its variables as long as its quotient fits. -/
theorem encoderOfPair_encoderPair {x : BitVec 32} (hlo : -(32767 * 32769) < x.toInt)
    (hhi : x.toInt < 32767 * 32768) : encoderOfPair (encoderPair x) = x.toInt := by
  have hdiv := Int.mul_tdiv_add_tmod x.toInt 32767
  have hrem := Int.tmod_lt_of_pos x.toInt (show (0 : ℤ) < 32767 by norm_num)
  have hrem' := Int.lt_tmod_of_pos x.toInt (show (0 : ℤ) < 32767 by norm_num)
  have hquot : ((x.sdiv int16Max).setWidth 16).toInt = x.toInt.tdiv 32767 := by
    rw [toInt_setWidth_of_fits] <;> rw [toInt_sdiv_int16Max]
    constructor
    · have := Int.tdiv_le_tdiv (show (0 : ℤ) < 32767 by norm_num)
        (show -(32767 * 32769 - 1) ≤ x.toInt by omega)
      exact le_trans (by decide) this
    · have := Int.tdiv_le_tdiv (show (0 : ℤ) < 32767 by norm_num)
        (show x.toInt ≤ 32767 * 32768 - 1 by omega)
      exact lt_of_le_of_lt this (by decide)
  have hrest : ((x.srem int16Max).setWidth 16).toInt = x.toInt.tmod 32767 := by
    rw [toInt_setWidth_of_fits] <;> rw [toInt_srem_int16Max]
    constructor <;> omega
  show 32767 * ((x.sdiv int16Max).setWidth 16).toInt
    + ((x.srem int16Max).setWidth 16).toInt = x.toInt
  rw [hquot, hrest, hdiv]

end Aseba
