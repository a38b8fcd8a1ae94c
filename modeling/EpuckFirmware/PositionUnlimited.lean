import EpuckFirmware.ExtendedArithmetic
import EpuckFirmware.PositionRamp

/-!
# Position mode without an acceleration limit

The limits of a controller are declared with the default `INFINITY`. With an infinite
acceleration limit every finite distance to the target counts as close: it is no greater
than `max_acc * delta_t * delta_t / 2`. A set-point at rest is then braked, whatever the
target, and stays where it is.
-/

namespace MotorControl

open Extended (finite infinity)

/-- Exact arithmetic with infinities. -/
instance extendedArithmetic : FloatOps (Extended ℚ) where
  decEq := inferInstance
  decLT := inferInstance
  decLE := inferInstance

theorem fabs_finite (x : ℚ) : fabs (finite x) = finite |x| := by
  unfold fabs
  by_cases h : x < 0
  · rw [abs_of_neg h]
    exact if_pos h
  · rw [abs_of_nonneg (not_lt.mp h)]
    exact if_neg h

/-- **A set-point at rest is braked**, whatever the target. -/
theorem velRamp_infinity {deltaT : ℚ} (hdt : 0 < deltaT) (pos targetPos : ℚ)
    (maxVel : Extended ℚ) :
    motorControllerVelRamp (finite pos) 0 (finite targetPos) (finite deltaT) maxVel infinity
      = finite 0 := by
  have hnear : fabs (finite pos - finite targetPos)
      ≤ infinity * finite deltaT * finite deltaT / 2 := by
    rw [Extended.finite_sub, fabs_finite, Extended.infinity_mul hdt, Extended.infinity_mul hdt,
      Extended.two_eq, Extended.infinity_div zero_lt_two]
    exact Extended.finite_le_infinity _
  have hbrake : -motorControllerLimitSymmetric ((0 : Extended ℚ) / finite deltaT) infinity
      = finite 0 := by
    rw [Extended.zero_eq, Extended.finite_div _ hdt.ne', zero_div]
    unfold motorControllerLimitSymmetric
    rw [if_neg (Extended.not_infinity_lt _), if_neg (Extended.not_finite_lt_neg_infinity _),
      Extended.neg_finite, neg_zero]
  unfold motorControllerVelRamp
  dsimp only
  split_ifs with hsign hbreak
  · exact hbrake
  · exact absurd (Or.inr hnear) hbreak
  · exact absurd (Or.inr hnear) hbreak
  · exact hbrake

theorem positionStep_infinity {deltaT : ℚ} (hdt : 0 < deltaT) (pos targetPos : ℚ)
    (maxVel : Extended ℚ) :
    positionStep (finite targetPos) (finite deltaT) maxVel infinity (finite pos, 0)
      = (finite pos, 0) := by
  unfold positionStep
  dsimp only
  rw [velRamp_infinity hdt]
  ext
  · show finite pos + finite 0 * finite deltaT
      + finite 0 / finite 2 * finite deltaT * finite deltaT = finite pos
    rw [Extended.finite_div _ two_ne_zero, Extended.finite_mul, Extended.finite_mul,
      Extended.finite_mul, Extended.finite_add, Extended.finite_add]
    congr 1
    ring
  · show finite 0 + finite 0 * finite deltaT = finite 0
    rw [Extended.finite_mul, Extended.finite_add, zero_mul, add_zero]

/-- The set-point stays where it starts, for every sequence of finite targets. -/
theorem setpointRun_infinity {deltaT : ℚ} (hdt : 0 < deltaT) (start : ℚ)
    (targets : ℕ → ℚ) (maxVel : Extended ℚ) (n : ℕ) :
    setpointRun (finite deltaT) maxVel infinity (fun i => finite (targets i)) (finite start, 0) n
      = (finite start, 0) := by
  induction n with
  | zero => rfl
  | succ n ih =>
    unfold setpointRun
    rw [ih]
    exact positionStep_infinity hdt start (targets n) maxVel

/-- **Position mode works**: the set-point gets closer to the target, and is never
infinite or undefined. -/
def Works (deltaT maxVel maxAcc : Extended ℚ) (start targetPos : ℚ) : Prop :=
  (∃ n x v, setpointRun deltaT maxVel maxAcc (fun _ => finite targetPos) (finite start, 0) n
      = (finite x, v) ∧ |x - targetPos| < |start - targetPos|)
    ∧ ∀ n, ∃ x v,
      setpointRun deltaT maxVel maxAcc (fun _ => finite targetPos) (finite start, 0) n
        = (finite x, finite v)

theorem Works.moves {deltaT maxVel maxAcc : Extended ℚ} {start targetPos : ℚ}
    (h : Works deltaT maxVel maxAcc start targetPos) :
    ∃ n, (setpointRun deltaT maxVel maxAcc (fun _ => finite targetPos) (finite start, 0) n).1
      ≠ finite start := by
  obtain ⟨⟨n, x, v, hrun, hcloser⟩, -⟩ := h
  refine ⟨n, fun hstays => ?_⟩
  rw [hrun] at hstays
  rw [Extended.finite.inj hstays] at hcloser
  exact lt_irrefl _ hcloser

/-- **Without an acceleration limit position mode never works.** -/
theorem not_works_of_infinity {deltaT : ℚ} (hdt : 0 < deltaT) (maxVel start targetPos : ℚ) :
    ¬ Works (finite deltaT) (finite maxVel) infinity start targetPos := by
  intro h
  obtain ⟨n, hmoves⟩ := h.moves
  rw [setpointRun_infinity hdt start (fun _ => targetPos)] at hmoves
  exact hmoves rfl

/-- At a control period of 10 ms, with a turn to go. -/
theorem not_works_of_infinity_turn :
    ¬ Works (finite (1 / 100)) (finite (314 / 5)) infinity 0 (157 / 25) :=
  not_works_of_infinity (by norm_num) (314 / 5) 0 (157 / 25)

/-- With a turn to go backwards. -/
theorem not_works_backwards :
    ¬ Works (finite (1 / 100)) (finite (314 / 5)) infinity 0 (-157 / 25) := by
  intro h
  obtain ⟨n, hmoves⟩ := h.moves
  rw [setpointRun_infinity (by norm_num) 0 (fun _ => -157 / 25)] at hmoves
  exact hmoves rfl

/-! ## The controller -/

section

variable {P : ParameterLib (Extended ℚ)} {Q : PidLib (Extended ℚ)} {W : Type}

/-- The acceleration limit is infinite until it is set. -/
theorem read_limits_acceleration_motorControllerInit (hP : P.Lawful) :
    P.read (motorControllerInit infinity : MotorController P Q W).limits.acceleration = infinity :=
  hP.read_declareWithDefault _

/-- **In position mode** a controller whose acceleration limit was not set leaves a
set-point that is at rest where it is. -/
theorem processed_profile_of_infinity (hP : P.Lawful) (hQ : Q.StoresFrequency)
    {c : MotorController P Q W} (hmode : c.mode = .position)
    (hlimit : P.read c.limits.acceleration = infinity) {frequency pos targetPos : ℚ}
    (hfrequency : 0 < frequency) (hpid : Q.frequency c.position.pid = finite frequency)
    (htarget : c.position.targetSetpoint = finite targetPos)
    (hrest : c.profile = (finite pos, 0)) (w : W) :
    (processed c w).2.profile = c.profile := by
  by_cases hdue : Due .position c
  · have hperiod : 1 / Q.frequency c.position.updateParams.pid = finite (1 / frequency) := by
      have hupdate : Q.frequency c.position.updateParams.pid = finite frequency :=
        (frequency_pidParamUpdate hQ _ _).trans hpid
      rw [hupdate, Extended.one_eq, Extended.finite_div _ hfrequency.ne']
    rw [(processed_of_due hdue).2]
    unfold profileNext
    rw [hperiod, hP.get_fst c.limits.acceleration, hlimit, htarget, hrest]
    exact positionStep_infinity (one_div_pos.mpr hfrequency) pos targetPos _
  · exact (processed_of_not_due hmode hdue).2

end

end MotorControl
