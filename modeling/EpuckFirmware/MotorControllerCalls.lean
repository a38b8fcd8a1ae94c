import EpuckFirmware.MotorController
import EpuckFirmware.Prescaler

/-!
# What a call of the motor controller changes

A `Call` is what the rest of the firmware does with a controller: it sets the mode,
processes, and writes the target set-points and the callbacks. Processing goes
through the blocks of `motor_controller_process`; this module says what each of
them leaves alone and, from that, what processing does to the counters, to the
limits and to the set-points. Later modules do not unfold the blocks.
-/

namespace MotorControl

section

variable {F : Type} [FloatOps F] {P : ParameterLib F} {Q : PidLib F} {W : Type}

/-- What the firmware does with a controller. -/
inductive Call (F W : Type)
  /-- `motor_controller_set_mode`. -/
  | setMode (mode : MotorControllerMode) (w : W)
  /-- `motor_controller_process`. -/
  | process (w : W)
  /-- A write to `target_setpoint` of the loop for the given mode. -/
  | setTarget (mode : MotorControllerMode) (x : F)
  /-- A write to `get` and `get_arg` of the loop for the given mode. -/
  | setInput (mode : MotorControllerMode) (get : Option (W → F))

/-- A call, without the voltage that processing returns. -/
def MotorController.step (c : MotorController P Q W) :
    Call F W → Except Fault (MotorController P Q W)
  | .setMode mode w => motorControllerSetMode c mode w
  | .process w => (motorControllerProcess c w).map Prod.snd
  | .setTarget mode x => .ok (c.modifyLoop mode (fun l => { l with targetSetpoint := x }))
  | .setInput mode get => .ok (c.modifyLoop mode (fun l => { l with get := get }))

/-! ## The blocks of `motor_controller_process` -/

/-- The controller at which position control starts. -/
def positionStart (c : MotorController P Q W) : MotorController P Q W :=
  { updateGains c with
    limits := { c.limits with
      velocity := (P.get c.limits.velocity).2, acceleration := (P.get c.limits.acceleration).2 }
    position := { c.position.updateParams with
      dividerCounter := c.position.dividerCounter + 1 } }

/-- The controller with the velocity set-point of this call. -/
def velocityDecided (c : MotorController P Q W) (w : W) : MotorController P Q W :=
  velocityRamp (positionControl (positionStart c) (P.get c.limits.velocity).1
    (P.get c.limits.acceleration).1 w) (P.get c.limits.velocity).1 (P.get c.limits.acceleration).1

/-- The controller at which velocity control starts. -/
def velocityStart (c : MotorController P Q W) (w : W) : MotorController P Q W :=
  { velocityDecided c w with
    velocity := { (velocityDecided c w).velocity with
      dividerCounter := c.velocity.dividerCounter + 1 } }

/-- The controller at which current control starts. -/
def currentStart (c : MotorController P Q W) (w : W) : MotorController P Q W :=
  { velocityControl (velocityStart c w) w with
    limits := { (velocityControl (velocityStart c w) w).limits with
      current := (P.get (velocityControl (velocityStart c w) w).limits.current).2 } }

section Blocks

variable (c : MotorController P Q W) (maxVelocity maxAcceleration maxCurrent : F) (w : W)

@[simp] theorem positionControl_mode :
    (positionControl c maxVelocity maxAcceleration w).mode = c.mode := by
  unfold positionControl; split <;> rfl

@[simp] theorem positionControl_limits :
    (positionControl c maxVelocity maxAcceleration w).limits = c.limits := by
  unfold positionControl; split <;> rfl

@[simp] theorem positionControl_current :
    (positionControl c maxVelocity maxAcceleration w).current = c.current := by
  unfold positionControl; split <;> rfl

@[simp] theorem positionControl_position_divider :
    (positionControl c maxVelocity maxAcceleration w).position.divider = c.position.divider := by
  unfold positionControl; split <;> rfl

@[simp] theorem positionControl_position_targetSetpoint :
    (positionControl c maxVelocity maxAcceleration w).position.targetSetpoint
      = c.position.targetSetpoint := by
  unfold positionControl; split <;> rfl

@[simp] theorem positionControl_velocity_pid :
    (positionControl c maxVelocity maxAcceleration w).velocity.pid = c.velocity.pid := by
  unfold positionControl; split <;> rfl

@[simp] theorem positionControl_velocity_get :
    (positionControl c maxVelocity maxAcceleration w).velocity.get = c.velocity.get := by
  unfold positionControl; split <;> rfl

@[simp] theorem positionControl_velocity_divider :
    (positionControl c maxVelocity maxAcceleration w).velocity.divider = c.velocity.divider := by
  unfold positionControl; split <;> rfl

@[simp] theorem positionControl_velocity_dividerCounter :
    (positionControl c maxVelocity maxAcceleration w).velocity.dividerCounter
      = c.velocity.dividerCounter := by
  unfold positionControl; split <;> rfl

theorem positionControl_position_dividerCounter :
    (positionControl c maxVelocity maxAcceleration w).position.dividerCounter
      = if .position ≤ c.mode ∧ c.position.divider ≤ c.position.dividerCounter then 0
        else c.position.dividerCounter := by
  unfold positionControl; split <;> rfl

@[simp] theorem velocityRamp_mode :
    (velocityRamp c maxVelocity maxAcceleration).mode = c.mode := by
  unfold velocityRamp; split <;> rfl

@[simp] theorem velocityRamp_limits :
    (velocityRamp c maxVelocity maxAcceleration).limits = c.limits := by
  unfold velocityRamp; split <;> rfl

@[simp] theorem velocityRamp_position :
    (velocityRamp c maxVelocity maxAcceleration).position = c.position := by
  unfold velocityRamp; split <;> rfl

@[simp] theorem velocityRamp_current :
    (velocityRamp c maxVelocity maxAcceleration).current = c.current := by
  unfold velocityRamp; split <;> rfl

@[simp] theorem velocityRamp_velocity_pid :
    (velocityRamp c maxVelocity maxAcceleration).velocity.pid = c.velocity.pid := by
  unfold velocityRamp; split <;> rfl

@[simp] theorem velocityRamp_velocity_get :
    (velocityRamp c maxVelocity maxAcceleration).velocity.get = c.velocity.get := by
  unfold velocityRamp; split <;> rfl

@[simp] theorem velocityRamp_velocity_divider :
    (velocityRamp c maxVelocity maxAcceleration).velocity.divider = c.velocity.divider := by
  unfold velocityRamp; split <;> rfl

@[simp] theorem velocityRamp_velocity_dividerCounter :
    (velocityRamp c maxVelocity maxAcceleration).velocity.dividerCounter
      = c.velocity.dividerCounter := by
  unfold velocityRamp; split <;> rfl

@[simp] theorem velocityControl_mode : (velocityControl c w).mode = c.mode := by
  unfold velocityControl; split <;> rfl

@[simp] theorem velocityControl_limits : (velocityControl c w).limits = c.limits := by
  unfold velocityControl; split <;> rfl

@[simp] theorem velocityControl_position : (velocityControl c w).position = c.position := by
  unfold velocityControl; split <;> rfl

@[simp] theorem velocityControl_velocity_setpoint :
    (velocityControl c w).velocity.setpoint = c.velocity.setpoint := by
  unfold velocityControl; split <;> rfl

@[simp] theorem velocityControl_velocity_targetSetpoint :
    (velocityControl c w).velocity.targetSetpoint = c.velocity.targetSetpoint := by
  unfold velocityControl; split <;> rfl

@[simp] theorem velocityControl_velocity_divider :
    (velocityControl c w).velocity.divider = c.velocity.divider := by
  unfold velocityControl; split <;> rfl

theorem velocityControl_velocity_dividerCounter :
    (velocityControl c w).velocity.dividerCounter
      = if .velocity ≤ c.mode ∧ c.velocity.divider ≤ c.velocity.dividerCounter then 0
        else c.velocity.dividerCounter := by
  unfold velocityControl; split <;> rfl

@[simp] theorem velocityControl_current_get :
    (velocityControl c w).current.get = c.current.get := by
  unfold velocityControl; split <;> rfl

end Blocks

/-! ## Processing -/

theorem increment_of_lt {counter : ℤ} (h : counter < intMax) :
    increment counter = .ok (counter + 1) :=
  if_pos h

theorem increment_of_ge {counter : ℤ} (h : intMax ≤ counter) :
    increment counter = .error .intOverflow :=
  if_neg (not_lt_of_ge h)

/-- **Processing goes through the blocks** if no counter overflows. -/
theorem motorControllerProcess_eq {c : MotorController P Q W} (w : W)
    (hposition : c.position.dividerCounter < intMax)
    (hvelocity : c.velocity.dividerCounter < intMax) :
    motorControllerProcess c w
      = .ok (currentControl (currentStart c w) (P.get c.limits.current).1 w) := by
  have hposition' : increment (updateGains c).position.dividerCounter
      = .ok (c.position.dividerCounter + 1) := increment_of_lt hposition
  have hvelocity' : increment (velocityDecided c w).velocity.dividerCounter
      = .ok (c.velocity.dividerCounter + 1) := by
    unfold velocityDecided
    rw [velocityRamp_velocity_dividerCounter, positionControl_velocity_dividerCounter]
    exact increment_of_lt hvelocity
  have hlimit : (velocityControl (velocityStart c w) w).limits.current = c.limits.current := by
    rw [velocityControl_limits]
    show (velocityDecided c w).limits.current = _
    unfold velocityDecided
    rw [velocityRamp_limits, positionControl_limits]
    rfl
  unfold motorControllerProcess
  simp only [hposition']
  show (increment (velocityDecided c w).velocity.dividerCounter).bind _ = _
  rw [hvelocity', ← hlimit]
  rfl

/-- The voltage that processing returns and the controller it leaves. -/
def processed (c : MotorController P Q W) (w : W) : F × MotorController P Q W :=
  currentControl (currentStart c w) (P.get c.limits.current).1 w

/-- The velocity counter is incremented after the position counter, and no block
before changes it. -/
theorem motorControllerProcess_overflow {c : MotorController P Q W} (w : W)
    (h : intMax ≤ c.position.dividerCounter ∨ intMax ≤ c.velocity.dividerCounter) :
    motorControllerProcess c w = .error .intOverflow := by
  by_cases hposition : c.position.dividerCounter < intMax
  · have hposition' : increment (updateGains c).position.dividerCounter
        = .ok (c.position.dividerCounter + 1) := increment_of_lt hposition
    have hvelocity' : increment (velocityDecided c w).velocity.dividerCounter
        = .error .intOverflow := by
      unfold velocityDecided
      rw [velocityRamp_velocity_dividerCounter, positionControl_velocity_dividerCounter]
      exact increment_of_ge (h.resolve_left (not_le_of_gt hposition))
    unfold motorControllerProcess
    simp only [hposition']
    show (increment (velocityDecided c w).velocity.dividerCounter).bind _ = _
    rw [hvelocity']
    rfl
  · have hposition' : increment (updateGains c).position.dividerCounter
        = .error .intOverflow := increment_of_ge (le_of_not_gt hposition)
    unfold motorControllerProcess
    simp only [hposition']
    rfl

/-- **When processing succeeds**, and what it returns then. -/
theorem motorControllerProcess_eq_ok {c : MotorController P Q W} {w : W}
    {r : F × MotorController P Q W} (h : motorControllerProcess c w = .ok r) :
    c.position.dividerCounter < intMax ∧ c.velocity.dividerCounter < intMax
      ∧ r = processed c w := by
  by_cases hover : intMax ≤ c.position.dividerCounter ∨ intMax ≤ c.velocity.dividerCounter
  · rw [motorControllerProcess_overflow w hover] at h
    exact absurd h (by simp)
  · rw [not_or, not_le, not_le] at hover
    rw [motorControllerProcess_eq w hover.1 hover.2] at h
    exact ⟨hover.1, hover.2, (Except.ok.inj h).symm⟩

theorem step_process {c c' : MotorController P Q W} {w : W}
    (h : c.step (.process w) = .ok c') :
    c.position.dividerCounter < intMax ∧ c.velocity.dividerCounter < intMax
      ∧ c' = (processed c w).2 := by
  cases hr : motorControllerProcess c w with
  | error e =>
    have herror : c.step (.process w) = .error e := congrArg (Except.map Prod.snd) hr
    rw [herror] at h
    exact absurd h (by simp)
  | ok r =>
    have hok : c.step (.process w) = .ok r.2 := congrArg (Except.map Prod.snd) hr
    obtain ⟨hposition, hvelocity, rfl⟩ := motorControllerProcess_eq_ok hr
    exact ⟨hposition, hvelocity, Except.ok.inj (h.symm.trans hok)⟩

theorem step_process_of_lt {c : MotorController P Q W} (w : W)
    (hposition : c.position.dividerCounter < intMax)
    (hvelocity : c.velocity.dividerCounter < intMax) :
    c.step (.process w) = .ok (processed c w).2 :=
  congrArg (Except.map Prod.snd) (motorControllerProcess_eq w hposition hvelocity)

/-- Processing fails only by an overflow. -/
theorem step_process_eq_error {c : MotorController P Q W} {w : W} {e : Fault}
    (h : c.step (.process w) = .error e) :
    e = .intOverflow
      ∧ (intMax ≤ c.position.dividerCounter ∨ intMax ≤ c.velocity.dividerCounter) := by
  by_cases hfull : intMax ≤ c.position.dividerCounter ∨ intMax ≤ c.velocity.dividerCounter
  · have hover : c.step (.process w) = .error .intOverflow :=
      congrArg (Except.map Prod.snd) (motorControllerProcess_overflow w hfull)
    exact ⟨Except.error.inj (h.symm.trans hover), hfull⟩
  · rw [not_or, not_le, not_le] at hfull
    rw [step_process_of_lt w hfull.1 hfull.2] at h
    cases h

/-! ## Setting the mode -/

theorem safeGet_of_callback {l : ControlLoop P Q W} {w : W} {x : F}
    (h : l.callback w = .ok x) : l.safeGet w = x := by
  unfold ControlLoop.callback at h
  unfold ControlLoop.safeGet
  cases hget : l.get with
  | none =>
    rw [hget] at h
    exact absurd h (by simp)
  | some get =>
    rw [hget] at h
    exact Except.ok.inj h

theorem safeGet_congr {l l' : ControlLoop P Q W} (h : l.get = l'.get) (w : W) :
    l.safeGet w = l'.safeGet w := by
  unfold ControlLoop.safeGet
  rw [h]

omit [FloatOps F] in
theorem callback_eq_error {l : ControlLoop P Q W} {w : W} {e : Fault}
    (h : l.callback w = .error e) : e = .nullCallback ∧ l.get = none := by
  unfold ControlLoop.callback at h
  cases hget : l.get with
  | none =>
    rw [hget] at h
    exact ⟨(Except.error.inj h).symm, rfl⟩
  | some get =>
    rw [hget] at h
    exact absurd h (by simp)

/-- **Setting the mode** touches the mode and the set-points of the outer loops. The
velocity set-point changes only when the controller leaves current mode for velocity
mode, to the velocity measured. -/
theorem motorControllerSetMode_eq_ok {c c' : MotorController P Q W}
    {mode : MotorControllerMode} {w : W} (h : motorControllerSetMode c mode w = .ok c') :
    ∃ positionSetpoint velocityTarget velocitySetpoint,
      c' = { c with
        mode := mode
        position := { c.position with setpoint := positionSetpoint }
        velocity := { c.velocity with
          targetSetpoint := velocityTarget, setpoint := velocitySetpoint } }
      ∧ (velocitySetpoint = c.velocity.setpoint
        ∨ mode = .velocity ∧ velocitySetpoint = safeGetVelocity c w) := by
  cases mode with
  | current =>
    cases h
    exact ⟨_, _, _, rfl, Or.inl rfl⟩
  | velocity =>
    by_cases hmode : c.mode < .velocity
    · cases hv : c.velocity.callback w with
      | error e =>
        simp only [motorControllerSetMode, if_pos hmode, hv] at h
        cases h
      | ok v =>
        simp only [motorControllerSetMode, if_pos hmode, hv] at h
        cases h
        exact ⟨_, _, _, rfl, Or.inr ⟨rfl, (safeGet_of_callback hv).symm⟩⟩
    · simp only [motorControllerSetMode, if_neg hmode] at h
      cases h
      exact ⟨_, _, _, rfl, Or.inl rfl⟩
  | position =>
    by_cases hmode : c.mode < .position
    · cases hp : c.position.callback w with
      | error e =>
        simp only [motorControllerSetMode, if_pos hmode, hp] at h
        cases h
      | ok p =>
        cases hv : c.velocity.callback w with
        | error e =>
          simp only [motorControllerSetMode, if_pos hmode, hp, hv] at h
          cases h
        | ok v =>
          simp only [motorControllerSetMode, if_pos hmode, hp, hv] at h
          cases h
          exact ⟨_, _, _, rfl, Or.inl rfl⟩
    · simp only [motorControllerSetMode, if_neg hmode] at h
      cases h
      exact ⟨_, _, _, rfl, Or.inl rfl⟩

omit [FloatOps F] in
/-- Setting the mode fails only on a callback that is `NULL`. -/
theorem motorControllerSetMode_eq_error {c : MotorController P Q W}
    {mode : MotorControllerMode} {w : W} {e : Fault}
    (h : motorControllerSetMode c mode w = .error e) :
    e = .nullCallback ∧ (c.position.get = none ∨ c.velocity.get = none) := by
  cases mode with
  | current => cases h
  | velocity =>
    by_cases hmode : c.mode < .velocity
    · cases hv : c.velocity.callback w with
      | error e' =>
        simp only [motorControllerSetMode, if_pos hmode, hv] at h
        cases h
        exact ⟨(callback_eq_error hv).1, Or.inr (callback_eq_error hv).2⟩
      | ok v =>
        simp only [motorControllerSetMode, if_pos hmode, hv] at h
        cases h
    · simp only [motorControllerSetMode, if_neg hmode] at h
      cases h
  | position =>
    by_cases hmode : c.mode < .position
    · cases hp : c.position.callback w with
      | error e' =>
        simp only [motorControllerSetMode, if_pos hmode, hp] at h
        cases h
        exact ⟨(callback_eq_error hp).1, Or.inl (callback_eq_error hp).2⟩
      | ok p =>
        cases hv : c.velocity.callback w with
        | error e' =>
          simp only [motorControllerSetMode, if_pos hmode, hp, hv] at h
          cases h
          exact ⟨(callback_eq_error hv).1, Or.inr (callback_eq_error hv).2⟩
        | ok v =>
          simp only [motorControllerSetMode, if_pos hmode, hp, hv] at h
          cases h
    · simp only [motorControllerSetMode, if_neg hmode] at h
      cases h

/-! ## The counters -/

/-- **The block of a loop is due**: it executes when the controller is processed. -/
def Due (mode : MotorControllerMode) (c : MotorController P Q W) : Prop :=
  mode ≤ c.mode ∧ (c.loop mode).divider ≤ (c.loop mode).dividerCounter + 1

instance (mode : MotorControllerMode) (c : MotorController P Q W) : Decidable (Due mode c) :=
  inferInstanceAs (Decidable (_ ∧ _))

section Processed

variable (c : MotorController P Q W) (w : W)

@[simp] theorem velocityDecided_mode : (velocityDecided c w).mode = c.mode := by
  unfold velocityDecided
  rw [velocityRamp_mode, positionControl_mode]
  rfl

@[simp] theorem velocityDecided_velocity_divider :
    (velocityDecided c w).velocity.divider = c.velocity.divider := by
  unfold velocityDecided
  rw [velocityRamp_velocity_divider, positionControl_velocity_divider]
  rfl

theorem processed_mode : (processed c w).2.mode = c.mode := by
  show (velocityControl (velocityStart c w) w).mode = _
  rw [velocityControl_mode]
  exact velocityDecided_mode c w

theorem processed_position_divider :
    (processed c w).2.position.divider = c.position.divider := by
  show (velocityControl (velocityStart c w) w).position.divider = _
  rw [velocityControl_position]
  show (velocityDecided c w).position.divider = _
  unfold velocityDecided
  rw [velocityRamp_position, positionControl_position_divider]
  rfl

theorem processed_velocity_divider :
    (processed c w).2.velocity.divider = c.velocity.divider := by
  show (velocityControl (velocityStart c w) w).velocity.divider = _
  rw [velocityControl_velocity_divider]
  exact velocityDecided_velocity_divider c w

theorem processed_divider {mode : MotorControllerMode} (hmode : mode ≠ .current) :
    ((processed c w).2.loop mode).divider = (c.loop mode).divider := by
  cases mode with
  | current => exact absurd rfl hmode
  | velocity => exact processed_velocity_divider c w
  | position => exact processed_position_divider c w

theorem processed_position_dividerCounter :
    (processed c w).2.position.dividerCounter
      = Prescaler.next c.position.divider c.position.dividerCounter
          (decide (.position ≤ c.mode)) := by
  show (velocityControl (velocityStart c w) w).position.dividerCounter = _
  rw [velocityControl_position]
  show (velocityDecided c w).position.dividerCounter = _
  unfold velocityDecided
  rw [velocityRamp_position, positionControl_position_dividerCounter, Prescaler.next_decide]
  rfl

theorem processed_velocity_dividerCounter :
    (processed c w).2.velocity.dividerCounter
      = Prescaler.next c.velocity.divider c.velocity.dividerCounter
          (decide (.velocity ≤ c.mode)) := by
  show (velocityControl (velocityStart c w) w).velocity.dividerCounter = _
  have hmode : (velocityStart c w).mode = c.mode := velocityDecided_mode c w
  have hdivider : (velocityStart c w).velocity.divider = c.velocity.divider :=
    velocityDecided_velocity_divider c w
  have hcounter : (velocityStart c w).velocity.dividerCounter = c.velocity.dividerCounter + 1 :=
    rfl
  rw [velocityControl_velocity_dividerCounter, hmode, hdivider, hcounter,
    Prescaler.next_decide]

/-- **The counter of an outer loop is a prescaler**, enabled by the modes that need
the loop. -/
theorem processed_dividerCounter {mode : MotorControllerMode} (hmode : mode ≠ .current) :
    ((processed c w).2.loop mode).dividerCounter
      = Prescaler.next (c.loop mode).divider (c.loop mode).dividerCounter
          (decide (mode ≤ c.mode)) := by
  cases mode with
  | current => exact absurd rfl hmode
  | velocity => exact processed_velocity_dividerCounter c w
  | position => exact processed_position_dividerCounter c w

end Processed

end

end MotorControl
