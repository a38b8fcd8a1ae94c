import EpuckFirmware.MotorController
import EpuckFirmware.WrapCounter
import Mathlib.Tactic

/-!
# The wheel encoders

The timers count the ticks of the wheels modulo `2 ^ 16`. The loop of `encoders_thd`
reads them, takes the difference to the previous reading for the one of less than
half a turn of the counter and accumulates it in 32 bits. The C types are kept: a
`uint32_t` and an `int` are words of 32 bits, and the signed ones are read with
`toInt`.
-/

namespace Encoder

open MotorControl

/-- `MAX_16BIT`. -/
def max16Bit : BitVec 32 := (1 <<< 16) - 1

/-- `MAX_16BIT_DIV2`. -/
def max16BitDiv2 : BitVec 32 := 32767

/-- The `int` operands are converted to `unsigned`, and the result back to `int`. -/
def encoderTickDiff (encOld encNew : BitVec 32) : BitVec 32 :=
  if encOld < encNew then
    if encNew - encOld ≤ max16BitDiv2 then
      encNew - encOld
    else
      -(max16Bit + 1 - (encNew - encOld))
  else if encNew < encOld then
    if encOld - encNew ≤ max16BitDiv2 then
      -(encOld - encNew)
    else
      max16Bit + 1 - (encOld - encNew)
  else
    0

/-- `encoders_msg_t`. -/
structure EncodersMsg where
  left : BitVec 32
  right : BitVec 32
  deriving DecidableEq

/-- `wheel_pos_msg_t` and `wheel_velocities_msg_t`. -/
structure WheelMsg (F : Type) where
  left : F
  right : F

/-- The variables of `encoders_thd` that outlive an iteration, among them the
messages that it publishes. -/
structure EncodersThd (F : Type) where
  leftEncoderOld : BitVec 32
  rightEncoderOld : BitVec 32
  encoders : EncodersMsg
  wheelPositions : WheelMsg F
  wheelVelocities : WheelMsg F

/-- The parameters `is_inverted` of the two encoders. -/
structure IsInverted where
  left : Bool
  right : Bool

section Thread

variable {F : Type} [FloatOps F] (ticksPerRadian : F)

/-- `LOOP_FREQUENCY`. -/
def loopFrequency : F := ((200 : ℤ) : F)

/-- `VELOCITY_SMOOTHING_FACTOR`. -/
def velocitySmoothingFactor : F := 1 / 2

def iirFilter (input previousOutput smoothingFactor : F) : F :=
  smoothingFactor * input + (1 - smoothingFactor) * previousOutput

/-- The change of an encoder, negated when the encoder is mounted the other way. -/
def encoderDelta (isInverted : Bool) (encOld encNew : BitVec 32) : BitVec 32 :=
  if isInverted then -encoderTickDiff encOld encNew else encoderTickDiff encOld encNew

/-- The state before the loop, with the first readings. -/
def encodersStart (leftEncoder rightEncoder : BitVec 32) : EncodersThd F where
  leftEncoderOld := leftEncoder
  rightEncoderOld := rightEncoder
  encoders := ⟨0, 0⟩
  wheelPositions := ⟨0, 0⟩
  wheelVelocities := ⟨0, 0⟩

/-- The body of the loop of `encoders_thd`. -/
def encodersIteration (isInverted : IsInverted) (s : EncodersThd F)
    (leftEncoder rightEncoder : BitVec 32) : EncodersThd F :=
  let deltaLeft := encoderDelta isInverted.left s.leftEncoderOld leftEncoder
  let deltaRight := encoderDelta isInverted.right s.rightEncoderOld rightEncoder
  let encoders := ⟨s.encoders.left + deltaLeft, s.encoders.right + deltaRight⟩
  let leftVelocity := (deltaLeft.toInt : F) / ticksPerRadian * loopFrequency
  let rightVelocity := (deltaRight.toInt : F) / ticksPerRadian * loopFrequency
  { leftEncoderOld := leftEncoder
    rightEncoderOld := rightEncoder
    encoders := encoders
    wheelPositions :=
      { left := (encoders.left.toInt : F) / ticksPerRadian
        right := (encoders.right.toInt : F) / ticksPerRadian }
    wheelVelocities :=
      { left := iirFilter leftVelocity s.wheelVelocities.left velocitySmoothingFactor
        right := iirFilter rightVelocity s.wheelVelocities.right velocitySmoothingFactor } }

/-- The thread after `n` iterations, given what the timers show at each of them. -/
def encodersThd (isInverted : IsInverted) (left right : ℕ → BitVec 32) : ℕ → EncodersThd F
  | 0 => encodersStart (left 0) (right 0)
  | n + 1 => encodersIteration ticksPerRadian isInverted (encodersThd isInverted left right n)
      (left (n + 1)) (right (n + 1))

end Thread

/-! ## The difference of two readings -/

/-- What a timer shows when its wheel is at a position. -/
def encoderCount (position : ℤ) : BitVec 32 := BitVec.ofInt 32 (position % 2 ^ 16)

theorem toNat_encoderCount (position : ℤ) :
    ((encoderCount position).toNat : ℤ) = position % 2 ^ 16 := by
  unfold encoderCount
  rw [BitVec.toNat_ofInt]
  omega

theorem ofInt_sub (a b : ℤ) : BitVec.ofInt 32 (a - b) = BitVec.ofInt 32 a - BitVec.ofInt 32 b := by
  rw [sub_eq_add_neg, BitVec.ofInt_add, BitVec.ofInt_neg, BitVec.sub_eq_add_neg]

theorem ofInt_toNat (x : BitVec 32) : BitVec.ofInt 32 x.toNat = x := by
  rw [BitVec.ofInt_natCast, BitVec.ofNat_toNat, BitVec.setWidth_eq]

theorem sub_eq_ofInt (x y : BitVec 32) : x - y = BitVec.ofInt 32 (x.toNat - y.toNat) := by
  rw [ofInt_sub, ofInt_toNat, ofInt_toNat]

/-- A turn of the counter less a number of ticks. -/
theorem turn_sub_eq_ofInt (x y : BitVec 32) :
    max16Bit + 1 - (x - y) = BitVec.ofInt 32 (2 ^ 16 - (x.toNat - y.toNat)) := by
  rw [ofInt_sub, ← sub_eq_ofInt]
  rfl

/-- **The difference is the balanced residue** of two counts, also across a wrap, but
for a count that fell by exactly half a turn. -/
theorem encoderTickDiff_eq {encOld encNew : BitVec 32} (hold : encOld.toNat < 2 ^ 16)
    (hnew : encNew.toNat < 2 ^ 16) (hhalf : encOld.toNat ≠ encNew.toNat + 2 ^ 15) :
    encoderTickDiff encOld encNew
      = BitVec.ofInt 32 (WrapCounter.delta (2 ^ 16) encOld.toNat encNew.toNat) := by
  have hdelta : ∀ d : ℤ, -2 ^ 15 ≤ d → d < 2 ^ 15 →
      (2 ^ 16 : ℤ) ∣ d - ((encNew.toNat : ℤ) - encOld.toNat) →
      WrapCounter.delta (2 ^ 16) encOld.toNat encNew.toNat = d := fun d hlow hhigh hdvd =>
    (Int.bmod_eq_iff (by norm_num)).mpr ⟨by omega, by omega, hdvd⟩
  unfold encoderTickDiff max16BitDiv2
  by_cases hlt : encOld < encNew
  · rw [if_pos hlt]
    by_cases hnear : encNew - encOld ≤ 32767
    · rw [if_pos hnear, sub_eq_ofInt,
        hdelta (encNew.toNat - encOld.toNat) (by bv_omega) (by bv_omega) (by omega)]
    · rw [if_neg hnear, turn_sub_eq_ofInt, ← BitVec.ofInt_neg,
        hdelta (-(2 ^ 16 - (encNew.toNat - encOld.toNat : ℤ))) (by bv_omega) (by bv_omega)
          (by omega)]
  · rw [if_neg hlt]
    by_cases hgt : encNew < encOld
    · rw [if_pos hgt]
      by_cases hnear : encOld - encNew ≤ 32767
      · rw [if_pos hnear, sub_eq_ofInt, ← BitVec.ofInt_neg,
          hdelta (-(encOld.toNat - encNew.toNat : ℤ)) (by bv_omega) (by bv_omega) (by omega)]
      · rw [if_neg hnear, turn_sub_eq_ofInt,
          hdelta (2 ^ 16 - (encOld.toNat - encNew.toNat : ℤ)) (by bv_omega) (by bv_omega)
            (by omega)]
    · rw [if_neg hgt, hdelta 0 (by norm_num) (by norm_num) (by bv_omega)]
      rfl

/-- A move by less than half a turn is not a fall by half a turn. -/
theorem encoderCount_ne_half_turn {p q : ℤ} (h : |q - p| ≤ 32767) :
    (encoderCount p).toNat ≠ (encoderCount q).toNat + 2 ^ 15 := by
  have hp := toNat_encoderCount p
  have hq := toNat_encoderCount q
  have hrange := abs_le.mp h
  omega

theorem toNat_encoderCount_lt (p : ℤ) : (encoderCount p).toNat < 2 ^ 16 := by
  have hp := toNat_encoderCount p
  omega

/-! ## The accumulators -/

/-- Ticks as an encoder counts them that may be mounted the other way. -/
def encoderTicks (isInverted : Bool) (d : ℤ) : ℤ := if isInverted then -d else d

theorem encoderTicks_add (isInverted : Bool) (d e : ℤ) :
    encoderTicks isInverted (d + e) = encoderTicks isInverted d + encoderTicks isInverted e := by
  cases isInverted
  · rfl
  · exact neg_add d e

/-- One iteration adds the delta of the wrapping counter. -/
theorem encoderDelta_encoderCount (isInverted : Bool) {p q : ℤ} (h : |q - p| ≤ 32767) :
    encoderDelta isInverted (encoderCount p) (encoderCount q)
      = BitVec.ofInt 32 (encoderTicks isInverted
          (WrapCounter.delta (2 ^ 16) (p % 2 ^ 16) (q % 2 ^ 16))) := by
  have hdiff := encoderTickDiff_eq (toNat_encoderCount_lt p) (toNat_encoderCount_lt q)
    (encoderCount_ne_half_turn h)
  rw [toNat_encoderCount, toNat_encoderCount] at hdiff
  cases isInverted with
  | false => exact hdiff
  | true =>
    show -encoderTickDiff _ _ = BitVec.ofInt 32 (-_)
    rw [hdiff, BitVec.ofInt_neg]

/-- The accumulator of one wheel. -/
def wheelAccumulator (isInverted : Bool) (reading : ℕ → BitVec 32) : ℕ → BitVec 32
  | 0 => 0
  | n + 1 => wheelAccumulator isInverted reading n
      + encoderDelta isInverted (reading n) (reading (n + 1))

/-- **An accumulator is the displacement** seen through the counter. -/
theorem wheelAccumulator_eq (isInverted : Bool) {p : ℕ → ℤ} {n : ℕ}
    (h : ∀ k < n, |p (k + 1) - p k| ≤ 32767) :
    wheelAccumulator isInverted (fun k => encoderCount (p k)) n
      = BitVec.ofInt 32 (encoderTicks isInverted
          (WrapCounter.displacement (2 ^ 16) (fun k => p k % 2 ^ 16) n)) := by
  induction n with
  | zero =>
    cases isInverted <;> rfl
  | succ n ih =>
    rw [wheelAccumulator, ih (fun k hk => h k (Nat.lt_succ_of_lt hk)),
      encoderDelta_encoderCount _ (h n (Nat.lt_succ_self n)), ← BitVec.ofInt_add,
      ← encoderTicks_add]
    rfl

theorem displacement_of_abs_le {p : ℕ → ℤ} {n : ℕ} (h : ∀ k < n, |p (k + 1) - p k| ≤ 32767) :
    WrapCounter.displacement (2 ^ 16) (fun k => p k % 2 ^ 16) n = p n - p 0 := by
  refine WrapCounter.displacement_eq (fun k hk => ?_)
  have hrange := abs_le.mp (h k hk)
  constructor
  · norm_num
    omega
  · norm_num
    omega

section Thread

variable {F : Type} [FloatOps F] (ticksPerRadian : F) (isInverted : IsInverted)

/-- The thread keeps the last readings and an accumulator for each wheel. -/
theorem encodersThd_eq (left right : ℕ → BitVec 32) (n : ℕ) :
    (encodersThd ticksPerRadian isInverted left right n).leftEncoderOld = left n
      ∧ (encodersThd ticksPerRadian isInverted left right n).rightEncoderOld = right n
      ∧ (encodersThd ticksPerRadian isInverted left right n).encoders
        = ⟨wheelAccumulator isInverted.left left n, wheelAccumulator isInverted.right right n⟩ := by
  induction n with
  | zero => exact ⟨rfl, rfl, rfl⟩
  | succ n ih =>
    obtain ⟨hleft, hright, hencoders⟩ := ih
    refine ⟨rfl, rfl, ?_⟩
    show EncodersMsg.mk (_ + encoderDelta _ _ _) (_ + encoderDelta _ _ _) = _
    rw [hleft, hright, hencoders]
    rfl

/-- **The accumulators track the wheels** across any number of wraps: as words of 32
bits they are the displacement, negated when the encoder is inverted. -/
theorem encoders_track_wheels (left right : ℕ → ℤ) (n : ℕ) :
    ((∀ k < n, |left (k + 1) - left k| ≤ 32767) →
      (encodersThd ticksPerRadian isInverted (fun k => encoderCount (left k))
          (fun k => encoderCount (right k)) n).encoders.left.toInt
        = (if isInverted.left then -(left n - left 0) else left n - left 0).bmod (2 ^ 32))
    ∧ ((∀ k < n, |right (k + 1) - right k| ≤ 32767) →
      (encodersThd ticksPerRadian isInverted (fun k => encoderCount (left k))
          (fun k => encoderCount (right k)) n).encoders.right.toInt
        = (if isInverted.right then -(right n - right 0) else right n - right 0).bmod
            (2 ^ 32)) := by
  constructor
  · intro hleft
    rw [(encodersThd_eq _ _ _ _ n).2.2, wheelAccumulator_eq _ hleft,
      displacement_of_abs_le hleft, BitVec.toInt_ofInt]
    rfl
  · intro hright
    rw [(encodersThd_eq _ _ _ _ n).2.2, wheelAccumulator_eq _ hright,
      displacement_of_abs_le hright, BitVec.toInt_ofInt]
    rfl

end Thread

/-- Wheels that turn by the largest step, in opposite directions. -/
theorem encoders_track_wheels_opposite :
    (encodersThd (1 : ℚ) ⟨false, true⟩ (fun k => encoderCount (32767 * k))
        (fun k => encoderCount (-32767 * k)) 5).encoders.left.toInt
      = ((32767 * 5 : ℤ) - 0).bmod (2 ^ 32)
    ∧ (encodersThd (1 : ℚ) ⟨false, true⟩ (fun k => encoderCount (32767 * k))
        (fun k => encoderCount (-32767 * k)) 5).encoders.right.toInt
      = (-((-32767 * 5 : ℤ) - 0)).bmod (2 ^ 32) := by
  have hstep : ∀ (c : ℤ) (k : ℕ), c * ((k + 1 : ℕ) : ℤ) - c * (k : ℤ) = c := by
    intro c k
    push_cast
    ring
  obtain ⟨hleft, hright⟩ := encoders_track_wheels (1 : ℚ) ⟨false, true⟩ (fun k => 32767 * k)
    (fun k => -32767 * k) 5
  refine ⟨hleft (fun k _ => ?_), hright (fun k _ => ?_)⟩
  · rw [hstep 32767 k]
    norm_num
  · rw [hstep (-32767) k]
    norm_num

end Encoder
