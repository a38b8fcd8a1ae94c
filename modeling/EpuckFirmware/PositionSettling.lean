import EpuckFirmware.MotorControllerScheduling
import EpuckFirmware.MotorControllerSetpoints
import EpuckFirmware.SpeedProfile

/-!
# Whether the position set-point settles

In units of the acceleration limit and of the period of the position loop, the
set-point generator of position mode is the speed profile of `SpeedProfile`: the
velocity is a whole number of speed steps, and the distance to the target decides
between accelerating, cruising and braking as it does there. From rest the set-point
settles exactly when no iterate of `SpeedProfile.overshoot` is trapped.
-/

namespace MotorControl

open SpeedProfile (overshoot Trapped)

/-! ## The ramp -/

theorem fabs_eq_abs (x : ℚ) : fabs x = |x| := by
  unfold fabs
  split_ifs with h
  · exact (abs_of_neg h).symm
  · exact (abs_of_nonneg (not_lt.mp h)).symm

theorem copysignOne_of_nonneg {x : ℚ} (h : 0 ≤ x) : copysignOne x = 1 := if_neg (not_lt.mpr h)

theorem copysignOne_of_neg {x : ℚ} (h : x < 0) : copysignOne x = -1 := if_pos h

section

variable {targetPos deltaT maxVel maxAcc : ℚ}

/-- **Near the target** the ramp brakes, whatever the signs. -/
theorem velRamp_of_near {pos vel : ℚ} (h : |pos - targetPos| ≤ maxAcc * deltaT * deltaT / 2) :
    motorControllerVelRamp pos vel targetPos deltaT maxVel maxAcc
      = -motorControllerLimitSymmetric (vel / deltaT) maxAcc := by
  have hnear : fabs (pos - targetPos) ≤ maxAcc * deltaT * deltaT / 2 := by
    rw [fabs_eq_abs]
    exact h
  unfold motorControllerVelRamp
  dsimp only
  split_ifs with hsign hbreak
  · rfl
  · exact absurd (Or.inr hnear) hbreak
  · exact absurd (Or.inr hnear) hbreak
  · rfl

/-- **Moving towards the target**, or away from it where the velocity is zero: the
ramp brakes within the braking distance. -/
theorem velRamp_of_approach {pos vel : ℚ}
    (hsign : copysignOne (pos - targetPos) ≠ copysignOne vel) :
    motorControllerVelRamp pos vel targetPos deltaT maxVel maxAcc
      = if |pos - targetPos| ≤ vel * vel / 2 / maxAcc
          ∨ |pos - targetPos| ≤ maxAcc * deltaT * deltaT / 2 then
        -motorControllerLimitSymmetric (vel / deltaT) maxAcc
      else if maxVel ≤ |vel| then 0
      else -copysignOne (pos - targetPos) * maxAcc := by
  unfold motorControllerVelRamp
  dsimp only
  rw [if_pos hsign, fabs_eq_abs, fabs_eq_abs]

/-- **Moving away from the target**: the ramp turns around. -/
theorem velRamp_of_away {pos vel : ℚ}
    (hsign : copysignOne (pos - targetPos) = copysignOne vel)
    (hfar : maxAcc * deltaT * deltaT / 2 < |pos - targetPos|) :
    motorControllerVelRamp pos vel targetPos deltaT maxVel maxAcc
      = -copysignOne (pos - targetPos) * maxAcc := by
  have hfar' : ¬ fabs (pos - targetPos) ≤ maxAcc * deltaT * deltaT / 2 := by
    rw [fabs_eq_abs]
    exact not_le_of_gt hfar
  unfold motorControllerVelRamp
  dsimp only
  rw [if_neg (not_not_intro hsign), if_neg hfar']

/-- A velocity that is at least one speed step is clamped to one. -/
theorem limitSymmetric_of_le {σ x limit : ℚ} (hσ : σ = 1 ∨ σ = -1) (hlimit : 0 ≤ limit)
    (h : limit ≤ x) : motorControllerLimitSymmetric (-(σ * x)) limit = -(σ * limit) := by
  unfold motorControllerLimitSymmetric
  obtain rfl | rfl := hσ
  · rw [if_neg (by linarith)]
    split_ifs with hbelow
    · rw [one_mul]
    · linarith
  · split_ifs with habove hbelow
    · ring
    · linarith
    · linarith

/-! ## The set-point in whole steps -/

/-- **The set-point on a profile**: `a.1` distance units from the target on one side
of it, and approaching it at `a.2` speed units. -/
def OnProfile (targetPos deltaT maxAcc : ℚ) (s : ℚ × ℚ) (a : ℚ × ℕ) : Prop :=
  ∃ σ : ℚ, (σ = 1 ∨ σ = -1)
    ∧ s = (targetPos + σ * (a.1 * (maxAcc * deltaT * deltaT)), -(σ * (a.2 * (maxAcc * deltaT))))

/-- At rest, the side of the target is a matter of sign. -/
theorem OnProfile.turn {s : ℚ × ℚ} {y : ℚ}
    (h : OnProfile targetPos deltaT maxAcc s (y, 0)) :
    OnProfile targetPos deltaT maxAcc s (-y, 0) := by
  obtain ⟨σ, hσ, rfl⟩ := h
  refine ⟨-σ, by obtain rfl | rfl := hσ <;> norm_num, Prod.ext ?_ ?_⟩
  · show targetPos + σ * (y * _) = targetPos + -σ * (-y * _)
    ring
  · show -(σ * (((0 : ℕ) : ℚ) * _)) = -(-σ * (((0 : ℕ) : ℚ) * _))
    rw [Nat.cast_zero, zero_mul, mul_zero, mul_zero]

section Ramp

variable {σ y : ℚ} {k : ℕ}

variable (targetPos) in
theorem copysignOne_error (hσ : σ = 1 ∨ σ = -1) (hunit : 0 < maxAcc * deltaT * deltaT)
    (hy : 0 < y) :
    copysignOne (targetPos + σ * (y * (maxAcc * deltaT * deltaT)) - targetPos) = σ := by
  have hpos : 0 < y * (maxAcc * deltaT * deltaT) := mul_pos hy hunit
  rw [add_sub_cancel_left]
  obtain rfl | rfl := hσ
  · rw [one_mul]
    exact copysignOne_of_nonneg hpos.le
  · exact copysignOne_of_neg (by linarith)

theorem copysignOne_error_behind (hσ : σ = 1 ∨ σ = -1) (hunit : 0 < maxAcc * deltaT * deltaT)
    (hy : y < 0) :
    copysignOne (targetPos + σ * (y * (maxAcc * deltaT * deltaT)) - targetPos) = -σ := by
  have hneg : y * (maxAcc * deltaT * deltaT) < 0 := mul_neg_of_neg_of_pos hy hunit
  rw [add_sub_cancel_left]
  obtain rfl | rfl := hσ
  · rw [one_mul]
    exact copysignOne_of_neg hneg
  · rw [neg_neg]
    exact copysignOne_of_nonneg (by linarith)

theorem copysignOne_velocity (hσ : σ = 1 ∨ σ = -1) (hspeed : 0 < maxAcc * deltaT) :
    copysignOne (-(σ * (((k + 1 : ℕ) : ℚ) * (maxAcc * deltaT)))) = -σ := by
  have hpos : 0 < ((k + 1 : ℕ) : ℚ) * (maxAcc * deltaT) :=
    mul_pos (Nat.cast_pos.mpr (Nat.succ_pos k)) hspeed
  obtain rfl | rfl := hσ
  · exact copysignOne_of_neg (by linarith)
  · rw [neg_neg]
    exact copysignOne_of_nonneg (by linarith)

theorem abs_error (hσ : σ = 1 ∨ σ = -1) (hunit : 0 < maxAcc * deltaT * deltaT) :
    |targetPos + σ * (y * (maxAcc * deltaT * deltaT)) - targetPos|
      = |y| * (maxAcc * deltaT * deltaT) := by
  have hone : |σ| = 1 := by obtain rfl | rfl := hσ <;> norm_num
  rw [add_sub_cancel_left, abs_mul, hone, one_mul, abs_mul, abs_of_pos hunit]

theorem abs_velocity (hσ : σ = 1 ∨ σ = -1) (hspeed : 0 < maxAcc * deltaT) :
    |-(σ * ((k : ℚ) * (maxAcc * deltaT)))| = k * (maxAcc * deltaT) := by
  have hone : |σ| = 1 := by obtain rfl | rfl := hσ <;> norm_num
  rw [abs_neg, abs_mul, hone, one_mul, abs_of_nonneg (mul_nonneg (Nat.cast_nonneg k) hspeed.le)]

/-- The braking distance of the ramp, in distance units. -/
theorem brakingDist_eq (hσ : σ = 1 ∨ σ = -1) (hacc : 0 < maxAcc) :
    -(σ * ((k : ℚ) * (maxAcc * deltaT))) * -(σ * ((k : ℚ) * (maxAcc * deltaT))) / 2 / maxAcc
      = (k : ℚ) ^ 2 / 2 * (maxAcc * deltaT * deltaT) := by
  have hsq : σ * σ = 1 := by obtain rfl | rfl := hσ <;> norm_num
  have hacc' : maxAcc ≠ 0 := hacc.ne'
  field_simp
  linear_combination ((k : ℚ) ^ 2 * deltaT ^ 2) * hsq

variable (targetPos maxVel) in
/-- **Braking**, by one speed step. -/
theorem velRamp_brake (hσ : σ = 1 ∨ σ = -1) (hacc : 0 < maxAcc) (hdt : 0 < deltaT)
    (hy : y ≤ ((k + 1 : ℕ) : ℚ) ^ 2 / 2) :
    motorControllerVelRamp (targetPos + σ * (y * (maxAcc * deltaT * deltaT)))
        (-(σ * (((k + 1 : ℕ) : ℚ) * (maxAcc * deltaT)))) targetPos deltaT maxVel maxAcc
      = σ * maxAcc := by
  have hspeed : 0 < maxAcc * deltaT := mul_pos hacc hdt
  have hunit : 0 < maxAcc * deltaT * deltaT := mul_pos hspeed hdt
  have hclamped : -motorControllerLimitSymmetric
      (-(σ * (((k + 1 : ℕ) : ℚ) * (maxAcc * deltaT))) / deltaT) maxAcc = σ * maxAcc := by
    have hone : (1 : ℚ) ≤ (k + 1 : ℕ) := by exact_mod_cast Nat.le_add_left 1 k
    have hdiv : -(σ * (((k + 1 : ℕ) : ℚ) * (maxAcc * deltaT))) / deltaT
        = -(σ * (((k + 1 : ℕ) : ℚ) * maxAcc)) := by
      field_simp
    rw [hdiv, limitSymmetric_of_le hσ hacc.le (le_mul_of_one_le_left hacc.le hone), neg_neg]
  by_cases hnear : |y| ≤ 1 / 2
  · rw [velRamp_of_near, hclamped]
    rw [abs_error hσ hunit]
    nlinarith
  · obtain hpos | hneg := lt_or_ge 0 y
    · have hsign : copysignOne (targetPos + σ * (y * (maxAcc * deltaT * deltaT)) - targetPos)
          ≠ copysignOne (-(σ * (((k + 1 : ℕ) : ℚ) * (maxAcc * deltaT)))) := by
        rw [copysignOne_error _ hσ hunit hpos, copysignOne_velocity hσ hspeed]
        obtain rfl | rfl := hσ <;> norm_num
      rw [velRamp_of_approach hsign, if_pos, hclamped]
      left
      rw [abs_error hσ hunit, abs_of_pos hpos, brakingDist_eq hσ hacc]
      exact mul_le_mul_of_nonneg_right hy hunit.le
    · have hneg' : y < 0 := by
        refine lt_of_le_of_ne hneg ?_
        rintro rfl
        exact hnear (by norm_num)
      have hsign : copysignOne (targetPos + σ * (y * (maxAcc * deltaT * deltaT)) - targetPos)
          = copysignOne (-(σ * (((k + 1 : ℕ) : ℚ) * (maxAcc * deltaT)))) := by
        rw [copysignOne_error_behind hσ hunit hneg', copysignOne_velocity hσ hspeed]
      rw [velRamp_of_away hsign, copysignOne_error_behind hσ hunit hneg', neg_neg]
      rw [abs_error hσ hunit]
      nlinarith [not_le.mp hnear]

variable (targetPos maxVel) in
/-- **Far from the target**, the ramp cruises or accelerates. -/
theorem velRamp_far (hσ : σ = 1 ∨ σ = -1) (hacc : 0 < maxAcc) (hdt : 0 < deltaT)
    (hy : ((k + 1 : ℕ) : ℚ) ^ 2 / 2 < y) :
    motorControllerVelRamp (targetPos + σ * (y * (maxAcc * deltaT * deltaT)))
        (-(σ * (((k + 1 : ℕ) : ℚ) * (maxAcc * deltaT)))) targetPos deltaT maxVel maxAcc
      = if maxVel ≤ (k + 1 : ℕ) * (maxAcc * deltaT) then 0 else -(σ * maxAcc) := by
  have hspeed : 0 < maxAcc * deltaT := mul_pos hacc hdt
  have hunit : 0 < maxAcc * deltaT * deltaT := mul_pos hspeed hdt
  have hone : (1 : ℚ) ≤ ((k + 1 : ℕ) : ℚ) ^ 2 :=
    one_le_pow₀ (by exact_mod_cast Nat.le_add_left 1 k)
  have hpos : 0 < y := by linarith
  have hsign : copysignOne (targetPos + σ * (y * (maxAcc * deltaT * deltaT)) - targetPos)
      ≠ copysignOne (-(σ * (((k + 1 : ℕ) : ℚ) * (maxAcc * deltaT)))) := by
    rw [copysignOne_error _ hσ hunit hpos, copysignOne_velocity hσ hspeed]
    obtain rfl | rfl := hσ <;> norm_num
  have hfar : ¬ (|targetPos + σ * (y * (maxAcc * deltaT * deltaT)) - targetPos|
        ≤ -(σ * (((k + 1 : ℕ) : ℚ) * (maxAcc * deltaT)))
          * -(σ * (((k + 1 : ℕ) : ℚ) * (maxAcc * deltaT))) / 2 / maxAcc
      ∨ |targetPos + σ * (y * (maxAcc * deltaT * deltaT)) - targetPos|
        ≤ maxAcc * deltaT * deltaT / 2) := by
    rw [abs_error hσ hunit, abs_of_pos hpos, brakingDist_eq hσ hacc, not_or, not_le, not_le]
    exact ⟨mul_lt_mul_of_pos_right hy hunit, by nlinarith⟩
  rw [velRamp_of_approach hsign, if_neg hfar, abs_velocity hσ hspeed,
    copysignOne_error _ hσ hunit hpos, neg_mul]

/-- **From rest** the ramp accelerates. -/
theorem velRamp_start (hσ : σ = 1 ∨ σ = -1) (hacc : 0 < maxAcc) (hdt : 0 < deltaT)
    (hvel : 0 < maxVel) (hy : 1 / 2 < y) :
    motorControllerVelRamp (targetPos + σ * (y * (maxAcc * deltaT * deltaT))) 0 targetPos
        deltaT maxVel maxAcc
      = -(σ * maxAcc) := by
  have hunit : 0 < maxAcc * deltaT * deltaT := mul_pos (mul_pos hacc hdt) hdt
  have hpos : 0 < y := by linarith
  have hnear : maxAcc * deltaT * deltaT / 2
      < |targetPos + σ * (y * (maxAcc * deltaT * deltaT)) - targetPos| := by
    rw [abs_error hσ hunit, abs_of_pos hpos]
    nlinarith
  have herror := copysignOne_error targetPos hσ hunit hpos
  have hzero : copysignOne (0 : ℚ) = 1 := copysignOne_of_nonneg (le_refl 0)
  obtain rfl | rfl := hσ
  · -- a velocity of zero counts as moving away from a target that lies below
    rw [velRamp_of_away (herror.trans hzero.symm) hnear, herror, neg_mul]
  · have hsign : copysignOne (targetPos + -1 * (y * (maxAcc * deltaT * deltaT)) - targetPos)
        ≠ copysignOne 0 := by
      rw [herror, hzero]
      norm_num
    have hfar : ¬ (|targetPos + -1 * (y * (maxAcc * deltaT * deltaT)) - targetPos|
          ≤ 0 * 0 / 2 / maxAcc
        ∨ |targetPos + -1 * (y * (maxAcc * deltaT * deltaT)) - targetPos|
          ≤ maxAcc * deltaT * deltaT / 2) := by
      rw [not_or, not_le, not_le, mul_zero, zero_div, zero_div]
      exact ⟨(half_pos hunit).trans hnear, hnear⟩
    rw [velRamp_of_approach hsign, if_neg hfar, abs_zero, if_neg (not_le_of_gt hvel), herror,
      neg_mul]

/-- **At rest within half a unit** the ramp stays. -/
theorem velRamp_rest {pos : ℚ} (hacc : 0 ≤ maxAcc)
    (h : |pos - targetPos| ≤ maxAcc * deltaT * deltaT / 2) :
    motorControllerVelRamp pos 0 targetPos deltaT maxVel maxAcc = 0 := by
  have hzero : motorControllerLimitSymmetric (0 : ℚ) maxAcc = 0 := by
    unfold motorControllerLimitSymmetric
    rw [if_neg (not_lt.mpr hacc), if_neg (not_lt.mpr (neg_nonpos.mpr hacc))]
  rw [velRamp_of_near h, zero_div, hzero, neg_zero]

end Ramp

theorem positionStep_of_ramp {pos vel acc : ℚ}
    (h : motorControllerVelRamp pos vel targetPos deltaT maxVel maxAcc = acc) :
    positionStep targetPos deltaT maxVel maxAcc (pos, vel)
      = (pos + vel * deltaT + acc / 2 * deltaT * deltaT, vel + acc * deltaT) := by
  unfold positionStep
  dsimp only
  rw [h]
  rfl

/-- A step that loses `c` speed units. -/
theorem positionStep_of_loss {σ y k c : ℚ}
    (h : motorControllerVelRamp (targetPos + σ * (y * (maxAcc * deltaT * deltaT)))
      (-(σ * (k * (maxAcc * deltaT)))) targetPos deltaT maxVel maxAcc = c * (σ * maxAcc)) :
    positionStep targetPos deltaT maxVel maxAcc
        (targetPos + σ * (y * (maxAcc * deltaT * deltaT)), -(σ * (k * (maxAcc * deltaT))))
      = (targetPos + σ * ((y - k + c / 2) * (maxAcc * deltaT * deltaT)),
          -(σ * ((k - c) * (maxAcc * deltaT)))) := by
  rw [positionStep_of_ramp h]
  refine Prod.ext ?_ ?_
  · show _ + _ + c * (σ * maxAcc) / 2 * deltaT * deltaT = _
    ring
  · show _ + c * (σ * maxAcc) * deltaT = _
    ring

variable (maxVel) in
/-- At rest within half a unit of the target, the set-point stays. -/
theorem positionStep_rest (hacc : 0 < maxAcc) (hdt : 0 < deltaT) {s : ℚ × ℚ} {y : ℚ}
    (h : OnProfile targetPos deltaT maxAcc s (y, 0)) (hy : |y| ≤ 1 / 2) :
    positionStep targetPos deltaT maxVel maxAcc s = s
      ∧ s.2 = 0 ∧ |s.1 - targetPos| ≤ maxAcc * deltaT * deltaT / 2 := by
  have hunit : 0 < maxAcc * deltaT * deltaT := mul_pos (mul_pos hacc hdt) hdt
  obtain ⟨σ, hσ, rfl⟩ := h
  have hzero : -(σ * (((0 : ℕ) : ℚ) * (maxAcc * deltaT))) = 0 := by
    rw [Nat.cast_zero, zero_mul, mul_zero, neg_zero]
  have hnear : |targetPos + σ * (y * (maxAcc * deltaT * deltaT)) - targetPos|
      ≤ maxAcc * deltaT * deltaT / 2 := by
    rw [abs_error hσ hunit]
    nlinarith
  dsimp only
  rw [hzero, positionStep_of_ramp (velRamp_rest hacc.le hnear)]
  refine ⟨Prod.ext ?_ ?_, rfl, hnear⟩
  · simp
  · simp

theorem OnProfile.step_start (hacc : 0 < maxAcc) (hdt : 0 < deltaT) (hvel : 0 < maxVel)
    {s : ℚ × ℚ} {y : ℚ} (h : OnProfile targetPos deltaT maxAcc s (y, 0)) (hy : 1 / 2 < y) :
    OnProfile targetPos deltaT maxAcc (positionStep targetPos deltaT maxVel maxAcc s)
      (y - 1 / 2, 1) := by
  obtain ⟨σ, hσ, rfl⟩ := h
  have hzero : -(σ * (((0 : ℕ) : ℚ) * (maxAcc * deltaT))) = -(σ * (0 * (maxAcc * deltaT))) := by
    rw [Nat.cast_zero]
  have hramp : motorControllerVelRamp (targetPos + σ * (y * (maxAcc * deltaT * deltaT)))
      (-(σ * (0 * (maxAcc * deltaT)))) targetPos deltaT maxVel maxAcc = -1 * (σ * maxAcc) := by
    rw [zero_mul, mul_zero, neg_zero, velRamp_start hσ hacc hdt hvel hy, neg_one_mul]
  refine ⟨σ, hσ, ?_⟩
  dsimp only
  rw [hzero, positionStep_of_loss hramp, Nat.cast_one, sub_zero, zero_sub, neg_neg, neg_div,
    ← sub_eq_add_neg]

/-- **The set-point generator follows the profile** whose greatest speed is the first
whole number of speed units that reaches the velocity limit. -/
theorem OnProfile.step (hacc : 0 < maxAcc) (hdt : 0 < deltaT) (hvel : 0 < maxVel)
    {s : ℚ × ℚ} {a : ℚ × ℕ} (h : OnProfile targetPos deltaT maxAcc s a) :
    OnProfile targetPos deltaT maxAcc (positionStep targetPos deltaT maxVel maxAcc s)
      (SpeedProfile.step ⌈maxVel / (maxAcc * deltaT)⌉₊ a) := by
  have hspeed : 0 < maxAcc * deltaT := mul_pos hacc hdt
  obtain ⟨y, k⟩ := a
  cases k with
  | zero =>
    by_cases hrest : |y| ≤ 1 / 2
    · rw [SpeedProfile.step_rest hrest, (positionStep_rest maxVel hacc hdt h hrest).1]
      exact h
    · rw [SpeedProfile.step_start (lt_of_not_ge hrest)]
      -- on either side of the target the motion starts towards it
      refine OnProfile.step_start hacc hdt hvel ?_ (lt_of_not_ge hrest)
      obtain hy | hy := le_total 0 y
      · rw [abs_of_nonneg hy]
        exact h
      · rw [abs_of_nonpos hy]
        exact h.turn
  | succ k =>
    obtain ⟨σ, hσ, rfl⟩ := h
    refine ⟨σ, hσ, ?_⟩
    by_cases hbrake : y ≤ ((k + 1 : ℕ) : ℚ) ^ 2 / 2
    · have hramp := velRamp_brake targetPos maxVel hσ hacc hdt hbrake
      rw [← one_mul (σ * maxAcc)] at hramp
      rw [SpeedProfile.step_brake hbrake, positionStep_of_loss hramp, Nat.cast_succ,
        add_sub_cancel_right]
    · have hfar := lt_of_not_ge hbrake
      have hramp := velRamp_far targetPos maxVel hσ hacc hdt hfar
      by_cases hM : ⌈maxVel / (maxAcc * deltaT)⌉₊ ≤ k + 1
      · have hcruise : maxVel ≤ (k + 1 : ℕ) * (maxAcc * deltaT) :=
          (div_le_iff₀ hspeed).mp (Nat.ceil_le.mp hM)
        rw [if_pos hcruise, ← zero_mul (σ * maxAcc)] at hramp
        rw [SpeedProfile.step_cruise hfar hM, positionStep_of_loss hramp, zero_div, add_zero,
          sub_zero]
      · have hslow : ¬ maxVel ≤ (k + 1 : ℕ) * (maxAcc * deltaT) := by
          intro hle
          exact hM (Nat.ceil_le.mpr ((div_le_iff₀ hspeed).mpr hle))
        rw [if_neg hslow, ← neg_one_mul (σ * maxAcc)] at hramp
        rw [SpeedProfile.step_accelerate hfar (Nat.lt_of_not_le hM), positionStep_of_loss hramp,
          Nat.cast_succ (k + 1), sub_neg_eq_add, neg_div, ← sub_eq_add_neg]

theorem OnProfile.iterate (hacc : 0 < maxAcc) (hdt : 0 < deltaT) (hvel : 0 < maxVel)
    {s : ℚ × ℚ} {a : ℚ × ℕ} (h : OnProfile targetPos deltaT maxAcc s a) (n : ℕ) :
    OnProfile targetPos deltaT maxAcc ((positionStep targetPos deltaT maxVel maxAcc)^[n] s)
      ((SpeedProfile.step ⌈maxVel / (maxAcc * deltaT)⌉₊)^[n] a) := by
  induction n with
  | zero => exact h
  | succ n ih =>
    rw [Function.iterate_succ_apply', Function.iterate_succ_apply']
    exact ih.step hacc hdt hvel

/-- **From rest to rest**, the set-point overshoots the target. -/
theorem OnProfile.next_rest (hacc : 0 < maxAcc) (hdt : 0 < deltaT) (hvel : 0 < maxVel)
    {s : ℚ × ℚ} {d : ℚ} (h : OnProfile targetPos deltaT maxAcc s (d, 0)) (hd : 1 / 2 < d) :
    ∃ n, 1 ≤ n ∧ OnProfile targetPos deltaT maxAcc
      ((positionStep targetPos deltaT maxVel maxAcc)^[n] s)
      (overshoot ⌈maxVel / (maxAcc * deltaT)⌉₊ d, 0) := by
  have hM : 1 ≤ ⌈maxVel / (maxAcc * deltaT)⌉₊ :=
    Nat.one_le_ceil_iff.mpr (div_pos hvel (mul_pos hacc hdt))
  obtain ⟨n, hn, hrest⟩ := SpeedProfile.rest_to_rest hM hd
  have hprofile := h.iterate hacc hdt hvel n
  rw [hrest] at hprofile
  have hturned := hprofile.turn
  rw [neg_neg] at hturned
  exact ⟨n, hn, hturned⟩

/-- As long as it has not settled, the set-point comes to rest again and again. -/
theorem OnProfile.rests (hacc : 0 < maxAcc) (hdt : 0 < deltaT) (hvel : 0 < maxVel)
    {s : ℚ × ℚ} {d : ℚ} (h : OnProfile targetPos deltaT maxAcc s (d, 0)) (j : ℕ)
    (hd : ∀ i < j, 1 / 2 < (overshoot ⌈maxVel / (maxAcc * deltaT)⌉₊)^[i] d) :
    ∃ n, j ≤ n ∧ OnProfile targetPos deltaT maxAcc
      ((positionStep targetPos deltaT maxVel maxAcc)^[n] s)
      ((overshoot ⌈maxVel / (maxAcc * deltaT)⌉₊)^[j] d, 0) := by
  induction j with
  | zero => exact ⟨0, le_refl 0, h⟩
  | succ j ih =>
    obtain ⟨n, hn, hprofile⟩ := ih (fun i hi => hd i (Nat.lt_succ_of_lt hi))
    obtain ⟨m, hm, hnext⟩ := hprofile.next_rest hacc hdt hvel (hd j (Nat.lt_succ_self j))
    rw [← Function.iterate_add_apply] at hnext
    rw [Function.iterate_succ_apply']
    exact ⟨m + n, by omega, hnext⟩

/-! ## Settling -/

/-- **The set-point settles**: from rest, the generator reaches a velocity of zero
within half a distance unit of the target, and stays there. -/
def Settles (start targetPos deltaT maxVel maxAcc : ℚ) : Prop :=
  ∃ n, ((positionStep targetPos deltaT maxVel maxAcc)^[n] (start, 0)).2 = 0
    ∧ |((positionStep targetPos deltaT maxVel maxAcc)^[n] (start, 0)).1 - targetPos|
      ≤ maxAcc * deltaT * deltaT / 2
    ∧ ∀ m, n ≤ m → (positionStep targetPos deltaT maxVel maxAcc)^[m] (start, 0)
      = (positionStep targetPos deltaT maxVel maxAcc)^[n] (start, 0)

/-- The distance at the start, in distance units. -/
theorem onProfile_start (hacc : 0 < maxAcc) (hdt : 0 < deltaT) (start : ℚ) :
    OnProfile targetPos deltaT maxAcc (start, 0)
      (|start - targetPos| / (maxAcc * deltaT * deltaT), 0) := by
  have hunit : maxAcc * deltaT * deltaT ≠ 0 := (mul_pos (mul_pos hacc hdt) hdt).ne'
  have hzero : ∀ σ : ℚ, (0 : ℚ) = -(σ * (((0 : ℕ) : ℚ) * (maxAcc * deltaT))) := by
    intro σ
    rw [Nat.cast_zero, zero_mul, mul_zero, neg_zero]
  obtain hle | hle := le_total 0 (start - targetPos)
  · refine ⟨1, Or.inl rfl, Prod.ext ?_ (hzero 1)⟩
    show start = targetPos + 1 * (|start - targetPos| / _ * _)
    rw [div_mul_cancel₀ _ hunit, abs_of_nonneg hle]
    ring
  · refine ⟨-1, Or.inr rfl, Prod.ext ?_ (hzero (-1))⟩
    show start = targetPos + -1 * (|start - targetPos| / _ * _)
    rw [div_mul_cancel₀ _ hunit, abs_of_nonpos hle]
    ring

/-- A set-point that meets a trapped distance does not settle. -/
theorem not_settles_of_trapped (hacc : 0 < maxAcc) (hdt : 0 < deltaT) (hvel : 0 < maxVel)
    {start : ℚ} {i : ℕ} (h : Trapped ⌈maxVel / (maxAcc * deltaT)⌉₊
      ((overshoot ⌈maxVel / (maxAcc * deltaT)⌉₊)^[i]
        (|start - targetPos| / (maxAcc * deltaT * deltaT)))) :
    ¬ Settles start targetPos deltaT maxVel maxAcc := by
  have hunit : 0 < maxAcc * deltaT * deltaT := mul_pos (mul_pos hacc hdt) hdt
  have hM : 1 ≤ ⌈maxVel / (maxAcc * deltaT)⌉₊ :=
    Nat.one_le_ceil_iff.mpr (div_pos hvel (mul_pos hacc hdt))
  have hfar := SpeedProfile.half_lt_of_trapped hM
    (div_nonneg (abs_nonneg (start - targetPos)) hunit.le) h
  rintro ⟨n, -, hnear, hstays⟩
  -- it rests again after the time from which it was supposed to stay, and too far away
  obtain ⟨m, hm, σ, hσ, hrest⟩ :=
    (onProfile_start hacc hdt start).rests hacc hdt hvel n (fun j _ => hfar j)
  rw [← hstays m hm, hrest, abs_error hσ hunit, abs_of_pos (by linarith [hfar n])] at hnear
  nlinarith [hfar n]

/-- **When the position set-point settles**: with `d` the distance to the target in
units of `maxAcc * deltaT ^ 2` and `M` the velocity limit in units of
`maxAcc * deltaT`, rounded up, exactly when none of `d`, `overshoot M d`,
`overshoot M (overshoot M d)` and so on is trapped. -/
theorem settles_iff (hacc : 0 < maxAcc) (hdt : 0 < deltaT) (hvel : 0 < maxVel) (start : ℚ) :
    Settles start targetPos deltaT maxVel maxAcc
      ↔ ∀ i, ¬ Trapped ⌈maxVel / (maxAcc * deltaT)⌉₊
        ((overshoot ⌈maxVel / (maxAcc * deltaT)⌉₊)^[i]
          (|start - targetPos| / (maxAcc * deltaT * deltaT))) := by
  have hunit : 0 < maxAcc * deltaT * deltaT := mul_pos (mul_pos hacc hdt) hdt
  have hM : 1 ≤ ⌈maxVel / (maxAcc * deltaT)⌉₊ :=
    Nat.one_le_ceil_iff.mpr (div_pos hvel (mul_pos hacc hdt))
  have hd : 0 ≤ |start - targetPos| / (maxAcc * deltaT * deltaT) :=
    div_nonneg (abs_nonneg _) hunit.le
  constructor
  · exact fun hsettles i htrapped => not_settles_of_trapped hacc hdt hvel htrapped hsettles
  · intro h
    -- the first time that the set-point comes to rest near enough
    have hexists := SpeedProfile.exists_settled hM hd h
    have hleast := Nat.find_spec hexists
    obtain ⟨n, -, hrest⟩ := (onProfile_start hacc hdt start).rests hacc hdt hvel
      (Nat.find hexists) (fun j hj => lt_of_not_ge (Nat.find_min hexists hj))
    have hhalf : |(overshoot ⌈maxVel / (maxAcc * deltaT)⌉₊)^[Nat.find hexists]
        (|start - targetPos| / (maxAcc * deltaT * deltaT))| ≤ 1 / 2 := by
      rw [abs_of_nonneg (SpeedProfile.iterate_nonneg hM hd _)]
      exact hleast
    obtain ⟨hfixed, hzero, hnear⟩ := positionStep_rest maxVel hacc hdt hrest hhalf
    refine ⟨n, hzero, hnear, fun m hm => ?_⟩
    obtain ⟨k, rfl⟩ := Nat.exists_eq_add_of_le' hm
    rw [Function.iterate_add_apply]
    exact Function.iterate_fixed hfixed k

end

/-! ## The position loop -/

section

variable {P : ParameterLib ℚ} {Q : PidLib ℚ} {W : Type}

/-- **In position mode the position loop iterates the set-point generator**, one step
for every execution of its block. -/
theorem profile_run (hP : P.Lawful) (hQ : Q.StoresFrequency) {c c' : MotorController P Q W}
    {ws : List W} (hmode : c.mode = .position)
    (hrun : StepMachine.run MotorController.step c (ws.map Call.process) = .ok c') :
    c'.profile = (positionStep c.position.targetSetpoint (1 / Q.frequency c.position.pid)
        (P.read c.limits.velocity) (P.read c.limits.acceleration))^[
      StepMachine.count MotorController.step (executes .position) c (ws.map Call.process)]
        c.profile := by
  induction ws generalizing c with
  | nil =>
    cases hrun
    rfl
  | cons w ws ih =>
    obtain ⟨c₁, hstep, hrest⟩ := StepMachine.run_cons_eq_ok hrun
    rw [List.map_cons, StepMachine.count_cons_of_step hstep]
    obtain ⟨-, -, rfl⟩ := step_process hstep
    have hrec := ih ((processed_mode c w).trans hmode) hrest
    obtain ⟨hv, ha, -⟩ := processed_limits c w hP
    rw [processed_position_targetSetpoint, processed_position_frequency c w hQ, hv, ha] at hrec
    by_cases hdue : Due .position c
    · have hexecutes : executes .position c (Call.process w) = true := decide_eq_true hdue
      have hnext : profileNext c = positionStep c.position.targetSetpoint
          (1 / Q.frequency c.position.pid) (P.read c.limits.velocity)
          (P.read c.limits.acceleration) c.profile := by
        unfold profileNext
        rw [hP.get_fst, hP.get_fst]
        congr 2
        exact frequency_pidParamUpdate hQ _ _
      rw [hrec, (processed_of_due hdue).2, hnext, hexecutes, if_pos rfl, Nat.add_comm,
        Function.iterate_succ_apply]
    · have hexecutes : executes .position c (Call.process w) = false := decide_eq_false hdue
      rw [hrec, (processed_of_not_due hmode hdue).2, hexecutes, if_neg Bool.false_ne_true,
        Nat.zero_add]

end

/-- A start two units away settles if the velocity is limited to one speed unit. -/
theorem settles_iff_slow : Settles 2 0 1 1 1 := by
  refine (settles_iff (by norm_num) (by norm_num) (by norm_num) 2).mpr (fun i => ?_)
  rintro (⟨hM, -⟩ | ⟨hM, -⟩)
  · norm_num at hM
  · norm_num at hM

/-- **A set-point that swings forever**, between one and a half units on one side of
the target and two and a half on the other. -/
theorem not_settles : ¬ Settles (3 / 2) 0 1 10 1 := by
  refine not_settles_of_trapped (by norm_num) (by norm_num) (by norm_num) (i := 0) ?_
  exact Or.inl ⟨by norm_num, by norm_num, by norm_num⟩

end MotorControl
