import EpuckFirmware.MotorControllerScheduling
import EpuckFirmware.MotorControllerSetpoints

/-!
# The limits of the motor controller

The current set-point is clamped in every mode. The velocity set-point is only as
limited as what writes it: velocity mode keeps it between where it was and the
clamped target, a mode switch takes over the measured velocity, and position mode
sets it to the interpolated velocity and the output of the position filter, which
nothing clamps.

The acceleration limit of velocity mode is applied at every call, over the period
of the velocity loop, so that it is the limit that was set only if the velocity
divider is 1.
-/

namespace MotorControl

open StepMachine

/-! ## Clamping -/

theorem abs_limitSymmetric_le {limit : ℚ} (h : 0 ≤ limit) (value : ℚ) :
    |motorControllerLimitSymmetric value limit| ≤ limit := by
  rw [abs_le]
  unfold motorControllerLimitSymmetric
  split_ifs with habove hbelow
  · exact ⟨by linarith, le_refl _⟩
  · exact ⟨le_refl _, by linarith⟩
  · exact ⟨not_lt.mp hbelow, not_lt.mp habove⟩

/-- A value that moves by a clamped difference stays between where it was and where
it is going. -/
theorem abs_add_limitSymmetric_le {a b limit bound : ℚ} (h : 0 ≤ limit) (ha : |a| ≤ bound)
    (hb : |b| ≤ bound) : |a + motorControllerLimitSymmetric (b - a) limit| ≤ bound := by
  rw [abs_le] at ha hb ⊢
  unfold motorControllerLimitSymmetric
  split_ifs with habove hbelow
  · exact ⟨by linarith, by linarith⟩
  · exact ⟨by linarith, by linarith⟩
  · rw [add_sub_cancel]
    exact hb

section

variable {P : ParameterLib ℚ} {Q : PidLib ℚ} {W : Type}

/-- The controller at the start of a run: initialised, with limits, prescalers and
frequency set. -/
def limitedStart (infinity velocity acceleration current : ℚ)
    (velocityDivider positionDivider : ℕ) (frequency : ℚ) : MotorController P Q W :=
  motorControllerSetFrequency
    (motorControllerSetPrescaler
      (setLimits (motorControllerInit infinity) velocity acceleration current)
      velocityDivider positionDivider)
    frequency

/-- **The limits and the frequency of the velocity loop** are the given ones. -/
structure Tuned (velocity acceleration current frequency : ℚ) (c : MotorController P Q W) :
    Prop where
  velocity : P.read c.limits.velocity = velocity
  acceleration : P.read c.limits.acceleration = acceleration
  current : P.read c.limits.current = current
  frequency : Q.frequency c.velocity.pid = frequency

theorem tuned_limitedStart (hP : P.Lawful) (hQ : Q.StoresFrequency)
    (infinity velocity acceleration current : ℚ) (velocityDivider positionDivider : ℕ)
    (frequency : ℚ) :
    Tuned velocity acceleration current (frequency / velocityDivider)
      (limitedStart (P := P) (Q := Q) (W := W) infinity velocity acceleration current
        velocityDivider positionDivider frequency) where
  velocity := hP.read_set _ _
  acceleration := hP.read_set _ _
  current := hP.read_set _ _
  frequency := by
    refine (hQ.frequency_setFrequency _ _).trans ?_
    show frequency / ((velocityDivider : ℤ) : ℚ) = _
    rw [Int.cast_natCast]

/-- **No call changes the limits** or the frequency. -/
theorem Tuned.step (hP : P.Lawful) (hQ : Q.StoresFrequency)
    {velocity acceleration current frequency : ℚ} {c c' : MotorController P Q W}
    (h : Tuned velocity acceleration current frequency c) {call : Call ℚ W}
    (hstep : c.step call = .ok c') : Tuned velocity acceleration current frequency c' := by
  cases call with
  | process w =>
    obtain ⟨-, -, rfl⟩ := step_process hstep
    obtain ⟨hv, ha, hi⟩ := processed_limits c w hP
    exact ⟨hv.trans h.velocity, ha.trans h.acceleration, hi.trans h.current,
      (processed_velocity_frequency c w hQ).trans h.frequency⟩
  | setMode mode w =>
    obtain ⟨_, _, _, rfl, -⟩ := motorControllerSetMode_eq_ok hstep
    exact ⟨h.velocity, h.acceleration, h.current, h.frequency⟩
  | setTarget mode x =>
    cases hstep
    cases mode <;> exact ⟨h.velocity, h.acceleration, h.current, h.frequency⟩
  | setInput mode get =>
    cases hstep
    cases mode <;> exact ⟨h.velocity, h.acceleration, h.current, h.frequency⟩

theorem Tuned.run (hP : P.Lawful) (hQ : Q.StoresFrequency)
    {velocity acceleration current frequency : ℚ} {cond : MotorController P Q W → Call ℚ W → Prop}
    {c c' : MotorController P Q W} {calls : List (Call ℚ W)}
    (hrun : Runs MotorController.step cond c calls c')
    (h : Tuned velocity acceleration current frequency c) :
    Tuned velocity acceleration current frequency c' :=
  hrun.invariant (fun _ _ _ hc _ hstep => hc.step hP hQ hstep) h

/-- The ramp of velocity mode in a controller with given limits. -/
theorem Tuned.processed_of_velocity (hP : P.Lawful) (hQ : Q.StoresFrequency)
    {velocity acceleration current frequency : ℚ} {c : MotorController P Q W}
    (h : Tuned velocity acceleration current frequency c) (hmode : c.mode = .velocity) (w : W) :
    (processed c w).2.velocity.setpoint
      = c.velocity.setpoint + motorControllerLimitSymmetric
          (motorControllerLimitSymmetric c.velocity.targetSetpoint velocity - c.velocity.setpoint)
          (1 / frequency * acceleration) := by
  have hfrequency : Q.frequency c.velocity.updateParams.pid = frequency :=
    (frequency_pidParamUpdate hQ _ _).trans h.frequency
  rw [MotorControl.processed_of_velocity hmode, hP.get_fst, hP.get_fst, h.velocity,
    h.acceleration, hfrequency]

/-! ## Safety limits -/

/-- The velocity measured at a mode switch is within `velocity`. -/
def MeasuredWithin (velocity : ℚ) (c : MotorController P Q W) : Call ℚ W → Prop
  | .setMode _ w => |safeGetVelocity c w| ≤ velocity
  | _ => True

/-- What the position block makes the velocity set-point is within `bound`. -/
def OutputWithin (bound : ℚ) (c : MotorController P Q W) : Call ℚ W → Prop
  | .process w => Due .position c → |positionOutput c w| ≤ bound
  | _ => True

/-- **What a call preserves of the velocity set-point**: a bound that the velocity
limit, the measured velocity and the output of the position block keep. -/
theorem Tuned.setpoint_step (hP : P.Lawful) (hQ : Q.StoresFrequency)
    {velocity acceleration current frequency bound : ℚ} (hv : 0 ≤ velocity)
    (hacc : 0 ≤ acceleration) (hfrequency : 0 < frequency) (hbound : velocity ≤ bound)
    {c c' : MotorController P Q W} (h : Tuned velocity acceleration current frequency c)
    {call : Call ℚ W} (hmeasured : MeasuredWithin velocity c call)
    (houtput : OutputWithin bound c call) (hstep : c.step call = .ok c')
    (hc : |c.velocity.setpoint| ≤ bound) : |c'.velocity.setpoint| ≤ bound := by
  cases call with
  | process w =>
    obtain ⟨-, -, rfl⟩ := step_process hstep
    cases hmode : c.mode with
    | current =>
      rw [processed_of_current hmode]
      exact hc
    | velocity =>
      rw [h.processed_of_velocity hP hQ hmode]
      refine abs_add_limitSymmetric_le ?_ hc ((abs_limitSymmetric_le hv _).trans hbound)
      exact mul_nonneg (one_div_nonneg.mpr hfrequency.le) hacc
    | position =>
      by_cases hdue : Due .position c
      · rw [(processed_of_due hdue).1]
        exact houtput hdue
      · rw [(processed_of_not_due hmode hdue).1]
        exact hc
  | setMode mode w =>
    obtain ⟨_, _, s, rfl, rfl | ⟨-, rfl⟩⟩ := motorControllerSetMode_eq_ok hstep
    · exact hc
    · exact le_trans hmeasured hbound
  | setTarget mode x =>
    cases hstep
    cases mode <;> exact hc
  | setInput mode get =>
    cases hstep
    cases mode <;> exact hc

/-- **The limits that the code enforces.** On every call the current set-point is
within the current limit. The velocity set-point of the velocity loop is within
every bound, no smaller than the velocity limit, that the position block has kept:
position mode does not clamp the output of the position filter. -/
theorem safety_limits (hP : P.Lawful) (hQ : Q.StoresFrequency)
    {velocity acceleration current frequency bound : ℚ} (hv : 0 ≤ velocity)
    (hacc : 0 ≤ acceleration) (hcurrent : 0 ≤ current) (hfrequency : 0 < frequency)
    (hbound : velocity ≤ bound) (infinity : ℚ) {velocityDivider : ℕ}
    (hdivider : 1 ≤ velocityDivider) (positionDivider : ℕ) {calls : List (Call ℚ W)}
    {c : MotorController P Q W}
    (hrun : Runs MotorController.step
      (fun c call => MeasuredWithin velocity c call ∧ OutputWithin bound c call)
      (limitedStart infinity velocity acceleration current velocityDivider positionDivider
        frequency) calls c)
    {w : W} (houtput : OutputWithin bound c (.process w)) {r : ℚ × MotorController P Q W}
    (hprocess : motorControllerProcess c w = .ok r) :
    (r.2.current.error = safeGetCurrent c w - r.2.current.setpoint
        ∧ |r.2.current.setpoint| ≤ current)
      ∧ (Due .velocity c → r.2.velocity.error = safeGetVelocity c w - r.2.velocity.setpoint
        ∧ |r.2.velocity.setpoint| ≤ bound)
      ∧ (Due .position c → r.2.velocity.setpoint = positionOutput c w) := by
  have hpos : 0 < frequency / velocityDivider :=
    div_pos hfrequency (Nat.cast_pos.mpr hdivider)
  have htuned := tuned_limitedStart (W := W) hP hQ infinity velocity acceleration current
    velocityDivider positionDivider frequency
  have hstart : |(limitedStart (P := P) (Q := Q) (W := W) infinity velocity acceleration current
      velocityDivider positionDivider frequency).velocity.setpoint| ≤ bound := by
    show |(0 : ℚ)| ≤ bound
    rw [abs_zero]
    exact hv.trans hbound
  obtain ⟨htuned', hsetpoint⟩ := hrun.invariant
    (P := fun c => Tuned velocity acceleration current (frequency / velocityDivider) c
      ∧ |c.velocity.setpoint| ≤ bound)
    (fun _ _ _ hc hcond hstep => ⟨hc.1.step hP hQ hstep,
      hc.1.setpoint_step hP hQ hv hacc hpos hbound hcond.1 hcond.2 hstep hc.2⟩)
    ⟨htuned, hstart⟩
  obtain ⟨-, -, rfl⟩ := motorControllerProcess_eq_ok hprocess
  have hstep : c.step (.process w) = .ok (processed c w).2 :=
    congrArg (Except.map Prod.snd) hprocess
  refine ⟨?_, fun hdue => ⟨processed_velocity_error hdue, ?_⟩,
    fun hdue => (processed_of_due hdue).1⟩
  · obtain ⟨requested, hclamped, herror⟩ := processed_current (c := c) (w := w)
    refine ⟨herror, ?_⟩
    rw [hclamped, hP.get_fst, htuned'.current]
    exact abs_limitSymmetric_le hcurrent requested
  · have hmeasured : MeasuredWithin velocity c (.process w) := trivial
    exact htuned'.setpoint_step hP hQ hv hacc hpos hbound hmeasured houtput hstep hsetpoint

end

/-- A controller one step away from its target, which it approaches at the velocity
limit, measured one step behind. -/
theorem exists_cruising : ∃ c : MotorController flagParameters (proportionalPid 30) Unit,
    Runs MotorController.step (fun c call => MeasuredWithin 1 c call ∧ OutputWithin 31 c call)
      (limitedStart 0 1 1 2 1 1 1)
      [.setInput .position (some fun _ => 1), .setInput .velocity (some fun _ => 1),
        .setMode .position (), .setTarget .position 2] c
    ∧ motorControllerProcess c () = .ok (processed c ())
    ∧ Due .position c ∧ Due .velocity c ∧ positionOutput c () = 31 := by
  have hmeasured : |(1 : ℚ)| ≤ 1 := le_of_eq abs_one
  refine ⟨_, .cons ⟨trivial, trivial⟩ rfl (.cons ⟨trivial, trivial⟩ rfl
    (.cons ⟨hmeasured, trivial⟩ rfl (.cons ⟨trivial, trivial⟩ rfl .nil))),
    motorControllerProcess_eq _ (by decide) (by decide), ?_, ?_, ?_⟩
  · decide
  · decide
  · decide +kernel

theorem safety_limits_cruising :
    ∃ (c : MotorController flagParameters (proportionalPid 30) Unit)
      (r : ℚ × MotorController flagParameters (proportionalPid 30) Unit),
      Due .position c ∧ motorControllerProcess c () = .ok r
        ∧ |r.2.current.setpoint| ≤ 2 ∧ |r.2.velocity.setpoint| ≤ 31 := by
  obtain ⟨c, hrun, hprocess, hposition, hvelocity, houtput⟩ := exists_cruising
  have hwithin : OutputWithin 31 c (.process ()) := by
    intro _
    rw [houtput]
    norm_num
  obtain ⟨⟨-, hcurrent⟩, herror, -⟩ := safety_limits lawful_flagParameters
    (storesFrequency_proportionalPid 30) (by norm_num) (by norm_num) (by norm_num) (by norm_num)
    (by norm_num) 0 (le_refl 1) 1 hrun hwithin hprocess
  exact ⟨c, _, hposition, hprocess, hcurrent, (herror hvelocity).2⟩

/-- **Position mode exceeds the velocity limit**: the filter makes up for a position
that lags behind with thirty times the difference. -/
theorem not_safety_limits :
    ∃ (calls : List (Call ℚ Unit)) (c : MotorController flagParameters (proportionalPid 30) Unit)
      (r : ℚ × MotorController flagParameters (proportionalPid 30) Unit),
      Runs MotorController.step (MeasuredWithin 1) (limitedStart 0 1 1 2 1 1 1) calls c
      ∧ motorControllerProcess c () = .ok r ∧ Due .velocity c
      ∧ r.2.velocity.error = safeGetVelocity c () - r.2.velocity.setpoint
      ∧ ¬ |r.2.velocity.setpoint| ≤ 1 := by
  obtain ⟨c, hrun, hprocess, hposition, hvelocity, houtput⟩ := exists_cruising
  refine ⟨_, c, _, hrun.mono (fun _ _ h => h.1), hprocess, hvelocity,
    processed_velocity_error hvelocity, ?_⟩
  rw [(processed_of_due hposition).1, houtput]
  norm_num

section

variable {P : ParameterLib ℚ} {Q : PidLib ℚ} {W : Type}

/-! ## The acceleration limit -/

/-- **The acceleration limit holds in velocity mode**: whatever the targets, `n` calls
of the controller, made at the given frequency, move the velocity set-point by no
more than the acceleration limit allows in their time. -/
def AccelerationLimited (c₀ : MotorController P Q W) (acceleration frequency : ℚ) : Prop :=
  ∀ before c calls c', run MotorController.step c₀ before = .ok c → c.mode = .velocity →
    (∀ mode w, Call.setMode mode w ∉ calls) → run MotorController.step c calls = .ok c' →
      |c'.velocity.setpoint - c.velocity.setpoint|
        ≤ (processModes c.mode calls).length * (acceleration / frequency)

/-- What `n` calls in velocity mode do to the velocity set-point. -/
theorem Tuned.setpoint_change (hP : P.Lawful) (hQ : Q.StoresFrequency)
    {velocity acceleration current frequency : ℚ} (hacc : 0 ≤ acceleration)
    (hfrequency : 0 < frequency) {calls : List (Call ℚ W)}
    (hcalls : ∀ mode w, Call.setMode mode w ∉ calls) {c c' : MotorController P Q W}
    (h : Tuned velocity acceleration current frequency c) (hmode : c.mode = .velocity)
    (hrun : StepMachine.run MotorController.step c calls = .ok c') :
    |c'.velocity.setpoint - c.velocity.setpoint|
      ≤ (processModes c.mode calls).length * (acceleration / frequency) := by
  have hlimit : 0 ≤ 1 / frequency * acceleration :=
    mul_nonneg (one_div_nonneg.mpr hfrequency.le) hacc
  induction calls generalizing c with
  | nil =>
    cases hrun
    rw [sub_self, abs_zero]
    exact mul_nonneg (Nat.cast_nonneg _) (div_nonneg hacc hfrequency.le)
  | cons call calls ih =>
    obtain ⟨c₁, hstep, hrest⟩ := run_cons_eq_ok hrun
    have hcalls' : ∀ mode w, Call.setMode mode w ∉ calls :=
      fun mode w hmem => hcalls mode w (List.mem_cons_of_mem _ hmem)
    have htuned := h.step hP hQ hstep
    cases call with
    | process w =>
      obtain ⟨-, -, rfl⟩ := step_process hstep
      have hrec := ih hcalls' htuned ((processed_mode c w).trans hmode) hrest
      rw [processed_mode] at hrec
      -- one more call, and one more step of the ramp
      have hone : |(processed c w).2.velocity.setpoint - c.velocity.setpoint|
          ≤ acceleration / frequency := by
        rw [h.processed_of_velocity hP hQ hmode, add_sub_cancel_left]
        refine (abs_limitSymmetric_le hlimit _).trans (le_of_eq ?_)
        rw [one_div_mul_eq_div]
      have hlength : ((processModes c.mode (Call.process w :: calls)).length : ℚ)
          = (processModes c.mode calls).length + 1 := Nat.cast_succ _
      calc |c'.velocity.setpoint - c.velocity.setpoint|
          ≤ |c'.velocity.setpoint - (processed c w).2.velocity.setpoint|
            + |(processed c w).2.velocity.setpoint - c.velocity.setpoint| := abs_sub_le _ _ _
        _ ≤ (processModes c.mode calls).length * (acceleration / frequency)
            + acceleration / frequency := add_le_add hrec hone
        _ = _ := by rw [hlength, add_mul, one_mul]
    | setMode mode w => exact absurd List.mem_cons_self (hcalls mode w)
    | setTarget mode x =>
      cases hstep
      have hrec := ih hcalls' htuned (by cases mode <;> exact hmode) hrest
      cases mode <;> exact hrec
    | setInput mode get =>
      cases hstep
      have hrec := ih hcalls' htuned (by cases mode <;> exact hmode) hrest
      cases mode <;> exact hrec

/-- Velocity mode, entered at any velocity and with the target zero. -/
theorem enters_velocity (infinity velocity acceleration current : ℚ)
    (velocityDivider positionDivider : ℕ) (frequency v : ℚ) (w : W) :
    ∃ c : MotorController P Q W,
      run MotorController.step (limitedStart infinity velocity acceleration current
          velocityDivider positionDivider frequency)
        [.setInput .velocity (some fun _ => v), .setMode .velocity w, .setTarget .velocity 0]
        = .ok c
      ∧ c.mode = .velocity ∧ c.velocity.setpoint = v ∧ c.velocity.targetSetpoint = 0
      ∧ c.position.dividerCounter = 0 ∧ c.velocity.dividerCounter = 0 :=
  ⟨_, rfl, rfl, rfl, rfl, rfl, rfl⟩

theorem limitSymmetric_zero {limit : ℚ} (h : 0 ≤ limit) :
    motorControllerLimitSymmetric 0 limit = 0 := by
  unfold motorControllerLimitSymmetric
  rw [if_neg (not_lt.mpr h), if_neg (not_lt.mpr (neg_nonpos.mpr h))]

/-- **The change of one call** in velocity mode, entered at twice the velocity that
the ramp takes away in the period of the velocity loop. -/
theorem setpoint_drop (hP : P.Lawful) (hQ : Q.StoresFrequency)
    {velocity acceleration current frequency : ℚ} (hv : 0 ≤ velocity)
    {c : MotorController P Q W} (h : Tuned velocity acceleration current frequency c)
    (hmode : c.mode = .velocity) {d : ℚ} (hd : 1 / frequency * acceleration = d) (hpos : 0 < d)
    (hsetpoint : c.velocity.setpoint = 2 * d) (htarget : c.velocity.targetSetpoint = 0) (w : W) :
    |(processed c w).2.velocity.setpoint - c.velocity.setpoint| = d := by
  have hclamped : motorControllerLimitSymmetric (0 - 2 * d) d = -d := by
    unfold motorControllerLimitSymmetric
    rw [if_neg (by linarith), if_pos (by linarith)]
  rw [h.processed_of_velocity hP hQ hmode, add_sub_cancel_left, htarget, limitSymmetric_zero hv,
    hsetpoint, hd, hclamped, abs_neg, abs_of_pos hpos]

/-- **Where the velocity divider is greater than 1**, a set-point entered at a high
velocity loses more than the acceleration limit allows. -/
theorem velocityDivider_eq_one [Inhabited W] (hP : P.Lawful) (hQ : Q.StoresFrequency)
    {velocity acceleration current frequency : ℚ} (hv : 0 ≤ velocity) (hacc : 0 < acceleration)
    (hfrequency : 0 < frequency) (infinity : ℚ) {velocityDivider : ℕ}
    (hdivider : 1 ≤ velocityDivider) (positionDivider : ℕ)
    (h : AccelerationLimited (limitedStart (P := P) (Q := Q) (W := W) infinity velocity
      acceleration current velocityDivider positionDivider frequency) acceleration frequency) :
    velocityDivider = 1 := by
  have htuned := tuned_limitedStart (W := W) hP hQ infinity velocity acceleration current
    velocityDivider positionDivider frequency
  have hratio : 0 < acceleration / frequency := div_pos hacc hfrequency
  have hpos : (0 : ℚ) < velocityDivider := Nat.cast_pos.mpr hdivider
  have hd : 1 / (frequency / velocityDivider) * acceleration
      = velocityDivider * (acceleration / frequency) := by
    rw [one_div_div, div_mul_eq_mul_div, mul_div_assoc]
  obtain ⟨c, hbefore, hmode, hsetpoint, htarget, hposition, hvelocity⟩ :=
    enters_velocity (P := P) (Q := Q) infinity velocity acceleration current velocityDivider
      positionDivider frequency (2 * (velocityDivider * (acceleration / frequency)))
      (default : W)
  have hstep : c.step (.process default) = .ok (processed c default).2 :=
    step_process_of_lt default (by rw [hposition]; decide) (by rw [hvelocity]; decide)
  have hle := h _ c [.process default] _ hbefore hmode (by simp) (run_cons_of_step hstep [])
  have hlength : ((processModes c.mode [Call.process (F := ℚ) (default : W)]).length : ℚ) = 1 :=
    Nat.cast_one
  have hchange := setpoint_drop hP hQ hv
    (htuned.run hP hQ (Runs.of_run (fun _ _ => trivial) hbefore)) hmode hd
    (mul_pos hpos hratio) hsetpoint htarget default
  rw [hchange, hlength] at hle
  have hone : (velocityDivider : ℚ) ≤ 1 := le_of_mul_le_mul_right hle hratio
  exact le_antisymm (by exact_mod_cast hone) hdivider

/-- **The acceleration limit is the one that was set** exactly when the velocity
divider is 1. -/
theorem accelerationLimited_iff [Inhabited W] (hP : P.Lawful) (hQ : Q.StoresFrequency)
    {velocity acceleration current frequency : ℚ} (hv : 0 ≤ velocity) (hacc : 0 < acceleration)
    (hfrequency : 0 < frequency) (infinity : ℚ) {velocityDivider positionDivider : ℕ}
    (hdivider : 1 ≤ velocityDivider) :
    AccelerationLimited (limitedStart (P := P) (Q := Q) (W := W) infinity velocity acceleration
      current velocityDivider positionDivider frequency) acceleration frequency
      ↔ velocityDivider = 1 := by
  constructor
  · exact velocityDivider_eq_one hP hQ hv hacc hfrequency infinity hdivider positionDivider
  · rintro rfl before c calls c' hbefore hmode hcalls hrun
    have htuned := tuned_limitedStart (W := W) hP hQ infinity velocity acceleration current
      1 positionDivider frequency
    rw [Nat.cast_one, div_one] at htuned
    have hc := htuned.run hP hQ (Runs.of_run (fun _ _ => trivial) hbefore)
    exact hc.setpoint_change hP hQ hacc.le hfrequency hcalls hmode hrun

end

theorem accelerationLimited_iff_unscaled :
    AccelerationLimited (limitedStart (P := flagParameters) (Q := proportionalPid 1) (W := Unit)
      0 (314 / 5) (157 / 5) 2 1 1 1000) (157 / 5) 1000 :=
  (accelerationLimited_iff lawful_flagParameters (storesFrequency_proportionalPid 1)
    (by norm_num) (by norm_num) (by norm_num) 0 (le_refl 1)).mpr rfl

/-- The limits, prescalers and frequency with which the firmware runs its motors. -/
theorem not_accelerationLimited :
    ¬ AccelerationLimited (limitedStart (P := flagParameters) (Q := proportionalPid 1)
      (W := Unit) 0 (314 / 5) (157 / 5) 2 10 10 1000) (157 / 5) 1000 := by
  intro h
  have hone := velocityDivider_eq_one lawful_flagParameters (storesFrequency_proportionalPid 1)
    (by norm_num) (by norm_num) (by norm_num) 0 (by norm_num) 10 h
  exact absurd hone (by norm_num)

end MotorControl
