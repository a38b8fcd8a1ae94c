import EpuckFirmware.MotorControllerCalls

/-!
# The set-points of the motor controller

What processing does to the limits, to the frequency of the velocity loop and to
the set-points: the position block takes one `positionStep` and adds the output of
the position filter, the ramp of velocity mode moves the velocity set-point towards
the clamped target, and the current set-point is clamped.
-/

namespace MotorControl

section

variable {F : Type} [FloatOps F] {P : ParameterLib F} {Q : PidLib F} {W : Type}

/-- **One step of the position set-point generator**, on a position and a velocity. -/
def positionStep (targetPos deltaT maxVel maxAcc : F) (s : F × F) : F × F :=
  let acc := motorControllerVelRamp s.1 s.2 targetPos deltaT maxVel maxAcc
  (motorControllerPosSetptInterpolation s.1 s.2 acc deltaT,
    motorControllerVelSetptInterpolation s.2 acc deltaT)

/-- The set-points of position mode: the position and the velocity with which it is
passed. -/
def MotorController.profile (c : MotorController P Q W) : F × F :=
  (c.position.setpoint, c.velocity.targetSetpoint)

/-- The set-points of position mode after the position block. -/
def profileNext (c : MotorController P Q W) : F × F :=
  positionStep c.position.targetSetpoint (1 / Q.frequency c.position.updateParams.pid)
    (P.get c.limits.velocity).1 (P.get c.limits.acceleration).1 c.profile

/-- **What the position block makes the velocity set-point**: the interpolated
velocity and the output of the position filter. -/
def positionOutput (c : MotorController P Q W) (w : W) : F :=
  (profileNext c).2
    + (Q.process c.position.updateParams.pid (safeGetPosition c w - (profileNext c).1)).1

/-! ## Limits and frequency -/

omit [FloatOps F] in
theorem frequency_pidParamUpdate (hQ : Q.StoresFrequency) (p : PidParam P) (ctrl : Q.Ctrl) :
    Q.frequency (pidParamUpdate p ctrl).2 = Q.frequency ctrl := by
  have hgains : ∀ kp ki kd,
      Q.frequency (Q.resetIntegral (Q.setGains ctrl kp ki kd)) = Q.frequency ctrl := by
    intro kp ki kd
    rw [hQ.frequency_resetIntegral, hQ.frequency_setGains]
  unfold pidParamUpdate
  split <;> dsimp only <;> split
  · rw [hQ.frequency_setIntegralLimit, hgains]
  · exact hgains _ _ _
  · exact hQ.frequency_setIntegralLimit _ _
  · rfl

section Processed

variable (c : MotorController P Q W) (w : W)

theorem processed_velocity_frequency (hQ : Q.StoresFrequency) :
    Q.frequency (processed c w).2.velocity.pid = Q.frequency c.velocity.pid := by
  have hstart : Q.frequency (velocityStart c w).velocity.pid = Q.frequency c.velocity.pid := by
    show Q.frequency (velocityDecided c w).velocity.pid = _
    unfold velocityDecided
    rw [velocityRamp_velocity_pid, positionControl_velocity_pid]
    exact frequency_pidParamUpdate hQ _ _
  show Q.frequency (velocityControl (velocityStart c w) w).velocity.pid = _
  unfold velocityControl
  split
  · rw [← hstart]
    exact hQ.frequency_process _ _
  · exact hstart

theorem processed_position_targetSetpoint :
    (processed c w).2.position.targetSetpoint = c.position.targetSetpoint := by
  show (velocityControl (velocityStart c w) w).position.targetSetpoint = _
  rw [velocityControl_position]
  show (velocityDecided c w).position.targetSetpoint = _
  unfold velocityDecided
  rw [velocityRamp_position, positionControl_position_targetSetpoint]
  rfl

theorem processed_position_frequency (hQ : Q.StoresFrequency) :
    Q.frequency (processed c w).2.position.pid = Q.frequency c.position.pid := by
  have hstart : Q.frequency (positionStart c).position.pid = Q.frequency c.position.pid :=
    frequency_pidParamUpdate hQ _ _
  show Q.frequency (velocityControl (velocityStart c w) w).position.pid = _
  rw [velocityControl_position]
  show Q.frequency (velocityDecided c w).position.pid = _
  unfold velocityDecided
  rw [velocityRamp_position, ← hstart]
  unfold positionControl
  split
  · exact hQ.frequency_process _ _
  · rfl

/-- Processing reads the limits. -/
theorem processed_limits (hP : P.Lawful) :
    P.read (processed c w).2.limits.velocity = P.read c.limits.velocity
      ∧ P.read (processed c w).2.limits.acceleration = P.read c.limits.acceleration
      ∧ P.read (processed c w).2.limits.current = P.read c.limits.current := by
  have hlimits : (velocityControl (velocityStart c w) w).limits = (positionStart c).limits := by
    rw [velocityControl_limits]
    show (velocityDecided c w).limits = _
    unfold velocityDecided
    rw [velocityRamp_limits, positionControl_limits]
  have hprocessed : (processed c w).2.limits
      = { (velocityControl (velocityStart c w) w).limits with
        current := (P.get (velocityControl (velocityStart c w) w).limits.current).2 } := rfl
  rw [hprocessed, hlimits]
  exact ⟨hP.read_get _, hP.read_get _, hP.read_get _⟩

/-! ## Set-points -/

theorem processed_velocity_setpoint :
    (processed c w).2.velocity.setpoint = (velocityDecided c w).velocity.setpoint :=
  velocityControl_velocity_setpoint _ _

theorem processed_profile :
    (processed c w).2.profile = (velocityDecided c w).profile := by
  have hposition : (velocityControl (velocityStart c w) w).position
      = (velocityDecided c w).position := velocityControl_position _ _
  have htarget : (velocityControl (velocityStart c w) w).velocity.targetSetpoint
      = (velocityDecided c w).velocity.targetSetpoint :=
    velocityControl_velocity_targetSetpoint _ _
  show ((velocityControl (velocityStart c w) w).position.setpoint,
    (velocityControl (velocityStart c w) w).velocity.targetSetpoint) = _
  rw [hposition, htarget]
  rfl

variable {c w}

theorem positionControl_of_not_due (h : ¬ Due .position c) (maxVelocity maxAcceleration : F) :
    positionControl (positionStart c) maxVelocity maxAcceleration w = positionStart c := by
  have hguard : ¬ (.position ≤ (positionStart c).mode
      ∧ (positionStart c).position.divider ≤ (positionStart c).position.dividerCounter) := h
  unfold positionControl
  rw [if_neg hguard]

/-- **Position mode, the block executes.** -/
theorem processed_of_due (h : Due .position c) :
    (processed c w).2.velocity.setpoint = positionOutput c w
      ∧ (processed c w).2.profile = profileNext c := by
  have hmode : c.mode ≠ .velocity := by
    intro hmode
    exact absurd h.1 (by rw [hmode]; decide)
  rw [processed_velocity_setpoint, processed_profile]
  unfold velocityDecided velocityRamp
  rw [if_neg (by rw [positionControl_mode]; exact hmode)]
  have hguard : .position ≤ (positionStart c).mode
      ∧ (positionStart c).position.divider ≤ (positionStart c).position.dividerCounter := h
  unfold positionControl
  rw [if_pos hguard]
  exact ⟨rfl, rfl⟩

/-- **Position mode, the block does not execute.** -/
theorem processed_of_not_due (hmode : c.mode = .position) (h : ¬ Due .position c) :
    (processed c w).2.velocity.setpoint = c.velocity.setpoint
      ∧ (processed c w).2.profile = c.profile := by
  rw [processed_velocity_setpoint, processed_profile]
  unfold velocityDecided velocityRamp
  rw [if_neg (by rw [positionControl_mode]; show c.mode ≠ .velocity; rw [hmode]; decide)]
  rw [positionControl_of_not_due h]
  exact ⟨rfl, rfl⟩

/-- **Velocity mode.** -/
theorem processed_of_velocity (hmode : c.mode = .velocity) :
    (processed c w).2.velocity.setpoint
      = c.velocity.setpoint + motorControllerLimitSymmetric
          (motorControllerLimitSymmetric c.velocity.targetSetpoint (P.get c.limits.velocity).1
            - c.velocity.setpoint)
          (1 / Q.frequency c.velocity.updateParams.pid * (P.get c.limits.acceleration).1) := by
  have hdue : ¬ Due .position c := by
    intro h
    exact absurd h.1 (by rw [hmode]; decide)
  rw [processed_velocity_setpoint]
  unfold velocityDecided velocityRamp
  rw [positionControl_of_not_due hdue]
  rw [if_pos (show (positionStart c).mode = .velocity from hmode)]
  rfl

/-- **Current mode.** -/
theorem processed_of_current (hmode : c.mode = .current) :
    (processed c w).2.velocity.setpoint = c.velocity.setpoint := by
  have hdue : ¬ Due .position c := by
    intro h
    exact absurd h.1 (by rw [hmode]; decide)
  rw [processed_velocity_setpoint]
  unfold velocityDecided velocityRamp
  rw [positionControl_of_not_due hdue]
  rw [if_neg (show (positionStart c).mode ≠ .velocity by
    show c.mode ≠ _; rw [hmode]; decide)]
  rfl

/-- **The current set-point** is clamped, and the error computed from it. -/
theorem processed_current :
    ∃ requested, (processed c w).2.current.setpoint
        = motorControllerLimitSymmetric requested (P.get c.limits.current).1
      ∧ (processed c w).2.current.error
        = safeGetCurrent c w - (processed c w).2.current.setpoint := by
  refine ⟨_, rfl, ?_⟩
  have hget : (velocityControl (velocityStart c w) w).current.get = c.current.get := by
    rw [velocityControl_current_get]
    show (velocityDecided c w).current.get = _
    unfold velocityDecided
    rw [velocityRamp_current, positionControl_current]
    rfl
  have hsafe : safeGetCurrent (currentStart c w) w = safeGetCurrent c w := safeGet_congr hget w
  rw [← hsafe]
  rfl

/-- **The velocity error** is computed from the velocity set-point of the call. -/
theorem processed_velocity_error (h : Due .velocity c) :
    (processed c w).2.velocity.error
      = safeGetVelocity c w - (processed c w).2.velocity.setpoint := by
  have hmode : (velocityStart c w).mode = c.mode := velocityDecided_mode c w
  have hdivider : (velocityStart c w).velocity.divider = c.velocity.divider :=
    velocityDecided_velocity_divider c w
  have hget : (velocityStart c w).velocity.get = c.velocity.get := by
    show (velocityDecided c w).velocity.get = _
    unfold velocityDecided
    rw [velocityRamp_velocity_get, positionControl_velocity_get]
    rfl
  have hsafe : safeGetVelocity (velocityStart c w) w = safeGetVelocity c w :=
    safeGet_congr hget w
  rw [processed_velocity_setpoint]
  show (velocityControl (velocityStart c w) w).velocity.error = _
  unfold velocityControl
  have hguard : .velocity ≤ (velocityStart c w).mode
      ∧ (velocityStart c w).velocity.divider ≤ (velocityStart c w).velocity.dividerCounter := by
    rw [hmode, hdivider]
    exact h
  rw [if_pos hguard, ← hsafe]
  rfl

end Processed

end

end MotorControl
