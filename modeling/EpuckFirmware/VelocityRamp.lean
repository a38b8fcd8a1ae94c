import EpuckFirmware.MotorControllerLimits

/-!
# The ramp of velocity mode

In velocity mode every call of `motor_controller_process` moves the velocity set-point
towards the clamped target, by one speed step or by what is left. A difference from which
a clamped part is taken shrinks by that part and keeps its sign; from this follow the
distance to the target after any number of calls and that no call overshoots.
-/

namespace MotorControl

open StepMachine

/-! ## Taking a clamped part off a difference -/

/-- The clamp of the code is the one between two bounds. -/
theorem limitSymmetric_eq_clamp {limit : ℚ} (h : 0 ≤ limit) (value : ℚ) :
    motorControllerLimitSymmetric value limit = max (-limit) (min value limit) := by
  unfold motorControllerLimitSymmetric
  split_ifs with habove hbelow
  · rw [min_eq_right habove.le, max_eq_right (by linarith)]
  · rw [min_eq_left (by linarith), max_eq_left hbelow.le]
  · rw [min_eq_left (not_lt.mp habove), max_eq_right (not_lt.mp hbelow)]

/-- The rest is smaller by the clamp, or zero. -/
theorem abs_sub_limitSymmetric {limit : ℚ} (h : 0 ≤ limit) (value : ℚ) :
    |value - motorControllerLimitSymmetric value limit| = max 0 (|value| - limit) := by
  unfold motorControllerLimitSymmetric
  split_ifs with habove hbelow
  · rw [abs_of_pos (by linarith : 0 < value), abs_of_pos (by linarith), max_eq_right (by linarith)]
  · rw [abs_of_neg (by linarith : value < 0), abs_of_neg (by linarith), max_eq_right (by linarith)]
    ring
  · rw [sub_self, abs_zero, max_eq_left]
    exact sub_nonpos.mpr (abs_le.mpr ⟨not_lt.mp hbelow, not_lt.mp habove⟩)

/-- A value that moves by the clamped difference to a target stays on its way there. -/
theorem add_limitSymmetric_mem_uIcc {limit : ℚ} (h : 0 ≤ limit) (a b : ℚ) :
    a + motorControllerLimitSymmetric (b - a) limit ∈ Set.uIcc a b := by
  rw [Set.mem_uIcc]
  unfold motorControllerLimitSymmetric
  split_ifs with habove hbelow
  · exact Or.inl ⟨by linarith, by linarith⟩
  · exact Or.inr ⟨by linarith, by linarith⟩
  · rw [add_sub_cancel]
    obtain hle | hle := le_total a b
    · exact Or.inl ⟨hle, le_refl b⟩
    · exact Or.inr ⟨le_refl b, hle⟩

/-- Taking off twice. -/
theorem max_zero_sub_sub (x y : ℚ) {z : ℚ} (hz : 0 ≤ z) :
    max 0 (max 0 (x - y) - z) = max 0 (x - (y + z)) := by
  obtain hle | hle := le_total (x - y) 0
  · rw [max_eq_left hle, max_eq_left (by linarith), max_eq_left (by linarith)]
  · rw [max_eq_right hle, sub_sub]

section

variable {P : ParameterLib ℚ} {Q : PidLib ℚ} {W : Type}

/-! ## A call -/

/-- A write of the target and a call of `motor_controller_process`, for each of the
given sensor readings. -/
def velocityCalls (targetSetpoint : ℚ) (ws : List W) : List (Call ℚ W) :=
  ws.flatMap (fun w => [.setTarget .velocity targetSetpoint, .process w])

/-- How far the counters of the outer loops have counted. -/
def counted (c : MotorController P Q W) : ℤ :=
  max 0 (max c.position.dividerCounter c.velocity.dividerCounter)

theorem counted_processed_le (c : MotorController P Q W) (w : W) :
    counted (processed c w).2 ≤ counted c + 1 := by
  have hnext (d n : ℤ) (enabled : Bool) : Prescaler.next d n enabled ≤ max 0 n + 1 := by
    unfold Prescaler.next
    split_ifs
    · exact (le_max_left 0 n).trans (le_add_of_nonneg_right zero_le_one)
    · exact add_le_add_left (le_max_right 0 n) 1
  unfold counted
  rw [processed_position_dividerCounter, processed_velocity_dividerCounter]
  refine max_le (by positivity) (max_le ((hnext _ _ _).trans ?_) ((hnext _ _ _).trans ?_))
  · exact add_le_add_left (max_le_max_left 0 (le_max_left _ _)) 1
  · exact add_le_add_left (max_le_max_left 0 (le_max_right _ _)) 1

variable {velocity acceleration current frequency : ℚ}

/-- **One call**: the set-point is moved towards the clamped target, or a counter
overflows. -/
theorem run_velocityCall (hP : P.Lawful) (hQ : Q.StoresFrequency)
    {c : MotorController P Q W} (h : Tuned velocity acceleration current frequency c)
    (hmode : c.mode = .velocity) (targetSetpoint : ℚ) (w : W) (calls : List (Call ℚ W)) :
    (∃ c₁, Tuned velocity acceleration current frequency c₁ ∧ c₁.mode = .velocity
      ∧ c₁.velocity.setpoint = c.velocity.setpoint + motorControllerLimitSymmetric
          (motorControllerLimitSymmetric targetSetpoint velocity - c.velocity.setpoint)
          (1 / frequency * acceleration)
      ∧ counted c₁ ≤ counted c + 1
      ∧ run MotorController.step c (.setTarget .velocity targetSetpoint :: .process w :: calls)
        = run MotorController.step c₁ calls)
    ∨ (intMax ≤ counted c
      ∧ run MotorController.step c (.setTarget .velocity targetSetpoint :: .process w :: calls)
        = .error .intOverflow) := by
  set c₀ := c.modifyLoop .velocity (fun l => { l with targetSetpoint := targetSetpoint })
    with hc₀
  have htarget : c.step (.setTarget .velocity targetSetpoint) = .ok c₀ := rfl
  have htuned : Tuned velocity acceleration current frequency c₀ := h.step hP hQ htarget
  rw [run_cons_of_step htarget]
  cases hstep : c₀.step (.process w) with
  | error e =>
    obtain ⟨rfl, hfull⟩ := step_process_eq_error hstep
    refine Or.inr ⟨?_, run_cons_of_error hstep calls⟩
    exact hfull.elim (fun hp => hp.trans ((le_max_left _ _).trans (le_max_right _ _)))
      (fun hv => hv.trans ((le_max_right _ _).trans (le_max_right _ _)))
  | ok c₁ =>
    obtain ⟨-, -, rfl⟩ := step_process hstep
    refine Or.inl ⟨_, htuned.step hP hQ hstep, (processed_mode c₀ w).trans hmode,
      htuned.processed_of_velocity hP hQ hmode w, counted_processed_le c₀ w,
      run_cons_of_step hstep calls⟩

/-! ## A run of calls -/

/-- **Any number of calls.** -/
theorem run_velocityCalls (hP : P.Lawful) (hQ : Q.StoresFrequency)
    (hstep : 0 ≤ 1 / frequency * acceleration) (targetSetpoint : ℚ) (ws : List W)
    {c : MotorController P Q W} (h : Tuned velocity acceleration current frequency c)
    (hmode : c.mode = .velocity) :
    (∃ c', run MotorController.step c (velocityCalls targetSetpoint ws) = .ok c'
      ∧ Tuned velocity acceleration current frequency c' ∧ c'.mode = .velocity
      ∧ |motorControllerLimitSymmetric targetSetpoint velocity - c'.velocity.setpoint|
        = max 0 (|motorControllerLimitSymmetric targetSetpoint velocity - c.velocity.setpoint|
          - ws.length * (1 / frequency * acceleration)))
    ∨ (intMax < counted c + ws.length
      ∧ run MotorController.step c (velocityCalls targetSetpoint ws)
        = .error .intOverflow) := by
  set target := motorControllerLimitSymmetric targetSetpoint velocity with htarget
  induction ws generalizing c with
  | nil =>
    refine Or.inl ⟨c, rfl, h, hmode, ?_⟩
    rw [List.length_nil, Nat.cast_zero, zero_mul, sub_zero, max_eq_right (abs_nonneg _)]
  | cons w ws ih =>
    rw [List.length_cons, Nat.cast_succ, Nat.cast_succ]
    obtain ⟨c₁, h₁, hmode₁, hsetpoint, hcounted, hrun⟩ | ⟨hfull, hrun⟩ :=
      run_velocityCall hP hQ h hmode targetSetpoint w (velocityCalls targetSetpoint ws)
    · have hone : |target - c₁.velocity.setpoint|
          = max 0 (|target - c.velocity.setpoint| - 1 / frequency * acceleration) := by
        rw [hsetpoint, ← sub_sub]
        exact abs_sub_limitSymmetric hstep _
      obtain ⟨c', hrest, h', hmode', hdistance⟩ | ⟨hover, hrest⟩ := ih h₁ hmode₁
      · refine Or.inl ⟨c', hrun.trans hrest, h', hmode', ?_⟩
        rw [hdistance, hone, max_zero_sub_sub _ _ (mul_nonneg (Nat.cast_nonneg _) hstep)]
        congr 2
        ring
      · exact Or.inr ⟨by linarith, hrun.trans hrest⟩
    · have hlength : (0 : ℤ) ≤ ws.length := Int.natCast_nonneg _
      exact Or.inr ⟨by linarith, hrun⟩

end

end MotorControl
