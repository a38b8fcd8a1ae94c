import EpuckFirmware.PositionSettling

/-!
# The ramp of the position set-point

What `motor_controller_vel_ramp` does to the velocity, whatever the target does from step
to step. The ramp brakes, cruises, speeds up or turns around. Braking takes the velocity
towards zero and not beyond; the other ways change it by one speed step at most, and only
a velocity below the limit is increased.

A velocity above the limit is therefore reduced, unless the ramp cruises. At rest the sign
of the velocity counts as positive, so that a set-point at rest takes another branch in
front of the target than behind it; the two branches differ only in that one of them
looks at the velocity limit.
-/

namespace MotorControl

section

variable {F : Type} [FloatOps F]

/-- **The set-points of position mode**, with a target for each step. -/
def setpointRun (deltaT maxVel maxAcc : F) (targets : ℕ → F) (s : F × F) : ℕ → F × F
  | 0 => s
  | n + 1 => positionStep (targets n) deltaT maxVel maxAcc
      (setpointRun deltaT maxVel maxAcc targets s n)

end

variable {pos vel targetPos deltaT maxVel maxAcc : ℚ}

/-! ## The four ways of the ramp -/

/-- The ramp takes one of the branches that brake: close to the target, or moving towards
it within the braking distance. -/
def Brakes (pos vel targetPos deltaT maxAcc : ℚ) : Prop :=
  |pos - targetPos| ≤ maxAcc * deltaT * deltaT / 2
    ∨ (copysignOne (pos - targetPos) ≠ copysignOne vel
      ∧ |pos - targetPos| ≤ vel * vel / 2 / maxAcc)

theorem velRamp_of_brakes (h : Brakes pos vel targetPos deltaT maxAcc) :
    motorControllerVelRamp pos vel targetPos deltaT maxVel maxAcc
      = -motorControllerLimitSymmetric (vel / deltaT) maxAcc := by
  obtain hnear | ⟨hsign, hdist⟩ := h
  · exact velRamp_of_near hnear
  · rw [velRamp_of_approach hsign, if_pos (Or.inl hdist)]

/-- **What the ramp does where it does not brake**: it turns around where it drives away
from the target, and cruises or speeds up where it drives towards it. -/
theorem velRamp_of_not_brakes (h : ¬ Brakes pos vel targetPos deltaT maxAcc) :
    motorControllerVelRamp pos vel targetPos deltaT maxVel maxAcc
      = if copysignOne (pos - targetPos) ≠ copysignOne vel ∧ maxVel ≤ |vel| then 0
        else -copysignOne (pos - targetPos) * maxAcc := by
  unfold Brakes at h
  rw [not_or, not_and, not_le] at h
  by_cases hsign : copysignOne (pos - targetPos) = copysignOne vel
  · rw [velRamp_of_away hsign h.1, if_neg (fun hcruise => hcruise.1 hsign)]
  · rw [velRamp_of_approach hsign,
      if_neg (not_or.mpr ⟨h.2 hsign, not_le_of_gt h.1⟩)]
    by_cases hlimit : maxVel ≤ |vel|
    · rw [if_pos hlimit, if_pos ⟨hsign, hlimit⟩]
    · rw [if_neg hlimit, if_neg (fun hcruise => hlimit hcruise.2)]

theorem copysignOne_eq (x : ℚ) : copysignOne x = 1 ∨ copysignOne x = -1 := by
  unfold copysignOne
  split
  · exact Or.inr rfl
  · exact Or.inl rfl

/-! ## What the ramp does to the velocity -/

/-- The velocity after a step. -/
theorem positionStep_snd (s : ℚ × ℚ) :
    (positionStep targetPos deltaT maxVel maxAcc s).2
      = s.2 + motorControllerVelRamp s.1 s.2 targetPos deltaT maxVel maxAcc * deltaT := rfl

/-- A step moves the position by the mean of the velocities before and after. -/
theorem positionStep_fst (s : ℚ × ℚ) :
    (positionStep targetPos deltaT maxVel maxAcc s).1 - s.1
      = (s.2 + (positionStep targetPos deltaT maxVel maxAcc s).2) / 2 * deltaT := by
  rw [positionStep_snd]
  show s.1 + s.2 * deltaT + _ / 2 * deltaT * deltaT - s.1 = _
  ring

/-- **Braking** takes the velocity towards zero by one speed step, or to zero. -/
theorem brake_velocity (hacc : 0 ≤ maxAcc) (hdt : 0 < deltaT) (vel : ℚ) :
    |vel + -motorControllerLimitSymmetric (vel / deltaT) maxAcc * deltaT|
        = max 0 (|vel| - maxAcc * deltaT)
      ∧ 0 ≤ vel * (vel + -motorControllerLimitSymmetric (vel / deltaT) maxAcc * deltaT) := by
  have hstep : 0 ≤ maxAcc * deltaT := mul_nonneg hacc hdt.le
  unfold motorControllerLimitSymmetric
  split_ifs with habove hbelow
  · have hvel : maxAcc * deltaT < vel := (lt_div_iff₀ hdt).mp habove
    have heq : vel + -maxAcc * deltaT = vel - maxAcc * deltaT := by ring
    rw [heq, abs_of_pos (by linarith), abs_of_pos (by linarith), max_eq_right (by linarith)]
    exact ⟨rfl, mul_nonneg (by linarith) (by linarith)⟩
  · have hvel : vel < -(maxAcc * deltaT) := by
      have hlt := (div_lt_iff₀ hdt).mp hbelow
      linarith
    have heq : vel + - -maxAcc * deltaT = vel + maxAcc * deltaT := by ring
    rw [heq, abs_of_neg (by linarith), abs_of_neg (by linarith), max_eq_right (by linarith)]
    exact ⟨by ring, mul_nonneg_of_nonpos_of_nonpos (by linarith) (by linarith)⟩
  · have hzero : vel + -(vel / deltaT) * deltaT = 0 := by
      rw [neg_mul, div_mul_cancel₀ _ hdt.ne', add_neg_cancel]
    have hle : |vel| ≤ maxAcc * deltaT := by
      rw [abs_le]
      rw [not_lt, div_le_iff₀ hdt] at habove
      rw [not_lt, le_div_iff₀ hdt] at hbelow
      exact ⟨by linarith, habove⟩
    rw [hzero, abs_zero, max_eq_left (by linarith), mul_zero]
    exact ⟨rfl, le_refl 0⟩

/-- Signs that differ are opposite. -/
theorem neg_copysignOne_of_ne {x y : ℚ} (h : copysignOne x ≠ copysignOne y) :
    -copysignOne x = copysignOne y := by
  obtain hx | hx := copysignOne_eq x <;> obtain hy | hy := copysignOne_eq y <;>
    rw [hx, hy] at h ⊢
  · exact absurd rfl h
  · exact neg_neg 1
  · exact absurd rfl h

/-- **A speed step in the direction of the sign**, or against it. -/
theorem abs_add_copysignOne_mul (vel : ℚ) {x : ℚ} (hx : 0 ≤ x) :
    |vel + copysignOne vel * x| = |vel| + x ∧ |vel - copysignOne vel * x| = |(|vel| - x)| := by
  obtain hneg | hpos := lt_or_ge vel 0
  · rw [copysignOne_of_neg hneg, abs_of_neg hneg, neg_one_mul, sub_neg_eq_add]
    refine ⟨by rw [abs_of_neg (by linarith)]; ring, ?_⟩
    rw [← abs_neg]
    congr 1
    ring
  · rw [copysignOne_of_nonneg hpos, abs_of_nonneg hpos, one_mul]
    exact ⟨abs_of_nonneg (by linarith), rfl⟩

variable (targetPos maxVel) in
/-- **The speed after a step.** -/
theorem abs_positionStep_snd (hacc : 0 ≤ maxAcc) (hdt : 0 < deltaT) (pos vel : ℚ) :
    (Brakes pos vel targetPos deltaT maxAcc
        ∧ |(positionStep targetPos deltaT maxVel maxAcc (pos, vel)).2|
          = max 0 (|vel| - maxAcc * deltaT))
      ∨ (¬ Brakes pos vel targetPos deltaT maxAcc
        ∧ copysignOne (pos - targetPos) = copysignOne vel
        ∧ |(positionStep targetPos deltaT maxVel maxAcc (pos, vel)).2|
          = |(|vel| - maxAcc * deltaT)|)
      ∨ (¬ Brakes pos vel targetPos deltaT maxAcc
        ∧ copysignOne (pos - targetPos) ≠ copysignOne vel
        ∧ |(positionStep targetPos deltaT maxVel maxAcc (pos, vel)).2|
          = if maxVel ≤ |vel| then |vel| else |vel| + maxAcc * deltaT) := by
  have hstep : 0 ≤ maxAcc * deltaT := mul_nonneg hacc hdt.le
  rw [positionStep_snd]
  dsimp only
  by_cases hbrakes : Brakes pos vel targetPos deltaT maxAcc
  · rw [velRamp_of_brakes hbrakes]
    exact Or.inl ⟨hbrakes, (brake_velocity hacc hdt vel).1⟩
  · rw [velRamp_of_not_brakes hbrakes]
    by_cases hsign : copysignOne (pos - targetPos) = copysignOne vel
    · rw [if_neg (fun hcruise => hcruise.1 hsign), hsign]
      refine Or.inr (Or.inl ⟨hbrakes, rfl, ?_⟩)
      rw [← (abs_add_copysignOne_mul vel hstep).2]
      congr 1
      ring
    · refine Or.inr (Or.inr ⟨hbrakes, hsign, ?_⟩)
      by_cases hlimit : maxVel ≤ |vel|
      · rw [if_pos ⟨hsign, hlimit⟩, if_pos hlimit, zero_mul, add_zero]
      · rw [if_neg (fun hcruise => hlimit hcruise.2), if_neg hlimit,
          ← (abs_add_copysignOne_mul vel hstep).1, neg_copysignOne_of_ne hsign, mul_assoc]

/-! ## Bounds of a run -/

theorem abs_velRamp_le (hacc : 0 ≤ maxAcc) :
    |motorControllerVelRamp pos vel targetPos deltaT maxVel maxAcc| ≤ maxAcc := by
  have hsign : |(-copysignOne (pos - targetPos) * maxAcc)| = maxAcc := by
    obtain h | h := copysignOne_eq (pos - targetPos)
    · rw [h, neg_one_mul, abs_neg, abs_of_nonneg hacc]
    · rw [h, neg_neg, one_mul, abs_of_nonneg hacc]
  by_cases hbrakes : Brakes pos vel targetPos deltaT maxAcc
  · rw [velRamp_of_brakes hbrakes, abs_neg]
    unfold motorControllerLimitSymmetric
    split_ifs with habove hbelow
    · exact (abs_of_nonneg hacc).le
    · rw [abs_neg]
      exact (abs_of_nonneg hacc).le
    · exact abs_le.mpr ⟨not_lt.mp hbelow, not_lt.mp habove⟩
  · rw [velRamp_of_not_brakes hbrakes]
    split_ifs
    · rw [abs_zero]
      exact hacc
    · exact hsign.le

/-- **A step keeps the speed below the limit and one speed step.** -/
theorem abs_positionStep_snd_lt (hacc : 0 < maxAcc) (hvel : 0 < maxVel) (hdt : 0 < deltaT)
    {s : ℚ × ℚ} (hs : |s.2| < maxVel + maxAcc * deltaT) :
    |(positionStep targetPos deltaT maxVel maxAcc s).2| < maxVel + maxAcc * deltaT := by
  have hstep : 0 < maxAcc * deltaT := mul_pos hacc hdt
  have hnonneg := abs_nonneg s.2
  obtain ⟨-, h⟩ | ⟨-, -, h⟩ | ⟨-, -, h⟩ :=
    abs_positionStep_snd targetPos maxVel hacc.le hdt s.1 s.2
  · rw [h]
    exact max_lt (by linarith) (by linarith)
  · rw [h, abs_lt]
    exact ⟨by linarith, by linarith⟩
  · rw [h]
    split_ifs with hlimit
    · exact hs
    · linarith

theorem abs_setpointRun_snd_lt (hacc : 0 < maxAcc) (hvel : 0 < maxVel) (hdt : 0 < deltaT)
    (targets : ℕ → ℚ) {s : ℚ × ℚ} (hs : |s.2| ≤ maxVel) (n : ℕ) :
    |(setpointRun deltaT maxVel maxAcc targets s n).2| < maxVel + maxAcc * deltaT := by
  induction n with
  | zero => exact hs.trans_lt (lt_add_of_pos_right _ (mul_pos hacc hdt))
  | succ n ih => exact abs_positionStep_snd_lt hacc hvel hdt ih

/-- **The bounds of the set-points**, for every sequence of targets: the acceleration is
within its limit and the speed within one speed step of its limit; a step that brakes
neither increases the speed nor turns around; and the position moves less than the
greatest speed allows. -/
theorem setpoint_bounds (hacc : 0 < maxAcc) (hvel : 0 < maxVel) (hdt : 0 < deltaT)
    (targets : ℕ → ℚ) {s : ℚ × ℚ} (hs : |s.2| ≤ maxVel) (n : ℕ) :
    |motorControllerVelRamp (setpointRun deltaT maxVel maxAcc targets s n).1
        (setpointRun deltaT maxVel maxAcc targets s n).2 (targets n) deltaT maxVel maxAcc|
        ≤ maxAcc
      ∧ |(setpointRun deltaT maxVel maxAcc targets s n).2| < maxVel + maxAcc * deltaT
      ∧ (Brakes (setpointRun deltaT maxVel maxAcc targets s n).1
          (setpointRun deltaT maxVel maxAcc targets s n).2 (targets n) deltaT maxAcc →
        |(setpointRun deltaT maxVel maxAcc targets s (n + 1)).2|
            ≤ |(setpointRun deltaT maxVel maxAcc targets s n).2|
          ∧ 0 ≤ (setpointRun deltaT maxVel maxAcc targets s n).2
            * (setpointRun deltaT maxVel maxAcc targets s (n + 1)).2)
      ∧ |(setpointRun deltaT maxVel maxAcc targets s (n + 1)).1
          - (setpointRun deltaT maxVel maxAcc targets s n).1|
        < (maxVel + maxAcc * deltaT) * deltaT := by
  have hbefore := abs_setpointRun_snd_lt hacc hvel hdt targets hs n
  have hafter := abs_setpointRun_snd_lt hacc hvel hdt targets hs (n + 1)
  set sn := setpointRun deltaT maxVel maxAcc targets s n with hsn
  have hnext : setpointRun deltaT maxVel maxAcc targets s (n + 1)
      = positionStep (targets n) deltaT maxVel maxAcc sn := rfl
  rw [hnext] at hafter ⊢
  refine ⟨abs_velRamp_le hacc.le, hbefore, fun hbrakes => ?_, ?_⟩
  · obtain ⟨hspeed, hsign⟩ := brake_velocity hacc.le hdt sn.2
    rw [positionStep_snd, velRamp_of_brakes hbrakes]
    refine ⟨?_, hsign⟩
    rw [hspeed]
    exact max_le (abs_nonneg _) (sub_le_self _ (mul_pos hacc hdt).le)
  · rw [positionStep_fst, abs_mul, abs_of_pos hdt]
    refine mul_lt_mul_of_pos_right ?_ hdt
    rw [abs_lt] at hbefore hafter ⊢
    exact ⟨by linarith, by linarith⟩

/-- A target that jumps to the other side of a set-point at full speed. -/
theorem setpoint_bounds_jump :
    |(setpointRun (1 / 100 : ℚ) 3 2 (fun n => if n < 1 then 100 else -100) (0, 3) 2).2|
      < 3 + 2 * (1 / 100) :=
  (setpoint_bounds (by norm_num) (by norm_num) (by norm_num)
    (fun n => if n < 1 then 100 else -100) (by norm_num [abs_of_pos]) 2).2.1

/-! ## Velocities above the limit -/

/-- From one speed step on, the braking distance covers what counts as close. -/
theorem near_le_brakingDist (hacc : 0 < maxAcc) (hdt : 0 ≤ deltaT)
    (hvel : maxAcc * deltaT ≤ |vel|) :
    maxAcc * deltaT * deltaT / 2 ≤ vel * vel / 2 / maxAcc := by
  have hsq : (maxAcc * deltaT) * (maxAcc * deltaT) ≤ vel * vel := by
    rw [← abs_mul_abs_self vel]
    exact mul_self_le_mul_self (mul_nonneg hacc.le hdt) hvel
  rw [le_div_iff₀ hacc]
  linarith

/-- **A velocity above the limit is reduced** by one speed step, or to the limit, exactly
where the set-point drives away from the target or has to brake for it. It cruises
elsewhere. -/
theorem overspeed_removed_iff (hacc : 0 < maxAcc) (hvel : 0 < maxVel) (hdt : 0 < deltaT)
    (hstep : maxAcc * deltaT ≤ maxVel) (pos : ℚ) (hover : maxVel < |vel|) :
    |(positionStep targetPos deltaT maxVel maxAcc (pos, vel)).2|
        ≤ max maxVel (|vel| - maxAcc * deltaT)
      ↔ copysignOne (pos - targetPos) = copysignOne vel
        ∨ |pos - targetPos| ≤ vel * vel / 2 / maxAcc := by
  have hpos : 0 < maxAcc * deltaT := mul_pos hacc hdt
  obtain ⟨hbrakes, h⟩ | ⟨-, hsign, h⟩ | ⟨hbrakes, hsign, h⟩ :=
    abs_positionStep_snd targetPos maxVel hacc.le hdt pos vel
  · refine iff_of_true ?_ ?_
    · rw [h]
      exact max_le_max_right _ hvel.le
    · obtain hnear | ⟨-, hdist⟩ := hbrakes
      · exact Or.inr (hnear.trans (near_le_brakingDist hacc hdt.le (hstep.trans hover.le)))
      · exact Or.inr hdist
  · refine iff_of_true ?_ (Or.inl hsign)
    rw [h, abs_of_pos (by linarith)]
    exact le_max_right _ _
  · refine iff_of_false ?_ ?_
    · rw [h, if_pos hover.le, not_le]
      exact max_lt hover (sub_lt_self _ hpos)
    · rintro (hsame | hdist)
      · exact hsign hsame
      · exact hbrakes (Or.inr ⟨hsign, hdist⟩)

/-- The point of the test `TooFast`, where braking is forced by the distance. -/
theorem overspeed_removed_tooFast :
    |(positionStep 2 (1 / 10) 3 2 ((1 : ℚ), 4)).2| ≤ max 3 (|4| - 2 * (1 / 10)) :=
  (overspeed_removed_iff (by norm_num) (by norm_num) (by norm_num) (by norm_num) 1
    (by norm_num)).mpr (Or.inr (by norm_num [abs_of_neg]))

/-- The same velocity, far from the target: the set-point keeps it. -/
theorem not_overspeed_removed :
    ¬ |(positionStep 100 (1 / 10) 3 2 ((0 : ℚ), 4)).2| ≤ max 3 (|4| - 2 * (1 / 10)) := by
  decide +kernel

/-! ## Mirrored moves -/

/-- The limit is zero, and the set-point at rest away from the target. -/
def RestsAtZeroLimit (pos vel targetPos deltaT maxVel maxAcc : ℚ) : Prop :=
  maxVel = 0 ∧ vel = 0 ∧ maxAcc * deltaT * deltaT / 2 < |pos - targetPos|

theorem copysignOne_neg_of_ne {x : ℚ} (h : x ≠ 0) : copysignOne (-x) = -copysignOne x := by
  obtain hneg | hpos := lt_or_gt_of_ne h
  · rw [copysignOne_of_neg hneg, copysignOne_of_nonneg (neg_nonneg.mpr hneg.le), neg_neg]
  · rw [copysignOne_of_nonneg hpos.le, copysignOne_of_neg (neg_neg_of_pos hpos)]

theorem limitSymmetric_neg (value : ℚ) {limit : ℚ} (hlimit : 0 ≤ limit) :
    motorControllerLimitSymmetric (-value) limit
      = -motorControllerLimitSymmetric value limit := by
  unfold motorControllerLimitSymmetric
  split_ifs <;> linarith

theorem Brakes.neg (hacc : 0 < maxAcc) (hdt : 0 < deltaT)
    (h : Brakes pos vel targetPos deltaT maxAcc) :
    Brakes (-pos) (-vel) (-targetPos) deltaT maxAcc := by
  have herror : -pos - -targetPos = -(pos - targetPos) := by ring
  have hnear : 0 < maxAcc * deltaT * deltaT / 2 := by positivity
  unfold Brakes at h ⊢
  rw [herror, abs_neg, neg_mul_neg]
  obtain hnear' | ⟨hsign, hdist⟩ := h
  · exact Or.inl hnear'
  · by_cases hclose : |pos - targetPos| ≤ maxAcc * deltaT * deltaT / 2
    · exact Or.inl hclose
    · have herror₀ : pos - targetPos ≠ 0 := by
        intro h₀
        rw [h₀, abs_zero] at hclose
        exact hclose hnear.le
      have hvel₀ : vel ≠ 0 := by
        rintro rfl
        rw [mul_zero, zero_div, zero_div] at hdist
        exact hclose (hdist.trans hnear.le)
      rw [copysignOne_neg_of_ne herror₀, copysignOne_neg_of_ne hvel₀, Ne, neg_inj]
      exact Or.inr ⟨hsign, hdist⟩

theorem brakes_neg (hacc : 0 < maxAcc) (hdt : 0 < deltaT) :
    Brakes (-pos) (-vel) (-targetPos) deltaT maxAcc
      ↔ Brakes pos vel targetPos deltaT maxAcc := by
  refine ⟨fun h => ?_, Brakes.neg hacc hdt⟩
  have hback := h.neg hacc hdt
  rwa [neg_neg, neg_neg, neg_neg] at hback

/-- **The ramp is mirrored** at mirrored states, but for a set-point at rest away from
the target while the limit is zero: there it cruises behind the target, at a velocity of
zero, and accelerates in front of it. -/
theorem velRamp_neg_iff (hacc : 0 < maxAcc) (hvel : 0 ≤ maxVel) (hdt : 0 < deltaT) :
    motorControllerVelRamp (-pos) (-vel) (-targetPos) deltaT maxVel maxAcc
        = -motorControllerVelRamp pos vel targetPos deltaT maxVel maxAcc
      ↔ ¬ RestsAtZeroLimit pos vel targetPos deltaT maxVel maxAcc := by
  have hnear : 0 < maxAcc * deltaT * deltaT / 2 := by positivity
  have herror : -pos - -targetPos = -(pos - targetPos) := by ring
  by_cases hbrakes : Brakes pos vel targetPos deltaT maxAcc
  · refine iff_of_true ?_ ?_
    · rw [velRamp_of_brakes hbrakes, velRamp_of_brakes ((brakes_neg hacc hdt).mpr hbrakes),
        neg_div, limitSymmetric_neg _ hacc.le]
    · rintro ⟨-, rfl, hfar⟩
      obtain hclose | ⟨-, hdist⟩ := hbrakes
      · exact absurd hclose (not_le_of_gt hfar)
      · rw [mul_zero, zero_div, zero_div] at hdist
        exact absurd (hdist.trans hnear.le) (not_le_of_gt hfar)
  · have hfar : maxAcc * deltaT * deltaT / 2 < |pos - targetPos| :=
      not_le.mp (fun hclose => hbrakes (Or.inl hclose))
    have herror₀ : pos - targetPos ≠ 0 := abs_pos.mp (hnear.trans hfar)
    rw [velRamp_of_not_brakes hbrakes,
      velRamp_of_not_brakes (mt (brakes_neg hacc hdt).mp hbrakes), herror,
      copysignOne_neg_of_ne herror₀, abs_neg]
    by_cases hvel₀ : vel = 0
    · subst hvel₀
      rw [neg_zero, copysignOne_of_nonneg (le_refl (0 : ℚ)), abs_zero]
      obtain hlimit | hlimit := hvel.eq_or_lt
      · subst hlimit
        refine iff_of_false ?_ (not_not_intro ⟨rfl, rfl, hfar⟩)
        obtain hsign | hsign := copysignOne_eq (pos - targetPos) <;> rw [hsign] <;>
          norm_num [hacc.ne, hacc.ne']
      · rw [if_neg (fun hcruise => not_le_of_gt hlimit hcruise.2),
          if_neg (fun hcruise => not_le_of_gt hlimit hcruise.2)]
        refine iff_of_true ?_ (fun hrests => hlimit.ne' hrests.1)
        rw [neg_mul (-_) maxAcc]
    · refine iff_of_true ?_ (fun hrests => hvel₀ hrests.2.1)
      simp only [copysignOne_neg_of_ne hvel₀, ne_eq, neg_inj]
      split_ifs
      · exact neg_zero.symm
      · rw [neg_mul (-_) maxAcc]

/-- A step is mirrored exactly where the ramp is. -/
theorem positionStep_neg_iff (hdt : 0 < deltaT) (s : ℚ × ℚ) :
    positionStep (-targetPos) deltaT maxVel maxAcc (-s)
        = -positionStep targetPos deltaT maxVel maxAcc s
      ↔ motorControllerVelRamp (-s.1) (-s.2) (-targetPos) deltaT maxVel maxAcc
        = -motorControllerVelRamp s.1 s.2 targetPos deltaT maxVel maxAcc := by
  constructor
  · intro h
    have hvel : -s.2 + motorControllerVelRamp (-s.1) (-s.2) (-targetPos) deltaT maxVel maxAcc
          * deltaT
        = -(s.2 + motorControllerVelRamp s.1 s.2 targetPos deltaT maxVel maxAcc * deltaT) :=
      congrArg Prod.snd h
    refine mul_right_cancel₀ hdt.ne' ?_
    linarith
  · intro h
    ext
    · show -s.1 + -s.2 * deltaT
          + motorControllerVelRamp (-s.1) (-s.2) (-targetPos) deltaT maxVel maxAcc / 2
            * deltaT * deltaT
        = -(s.1 + s.2 * deltaT
          + motorControllerVelRamp s.1 s.2 targetPos deltaT maxVel maxAcc / 2
            * deltaT * deltaT)
      rw [h]
      ring
    · show -s.2 + motorControllerVelRamp (-s.1) (-s.2) (-targetPos) deltaT maxVel maxAcc
          * deltaT
        = -(s.2 + motorControllerVelRamp s.1 s.2 targetPos deltaT maxVel maxAcc * deltaT)
      rw [h]
      ring

/-- **Moves in the two directions are mirror images**: the ramp at every state but that
one, and a whole run, with its targets mirrored, exactly if it never comes to that state. -/
theorem mirrored_iff (hacc : 0 < maxAcc) (hvel : 0 ≤ maxVel) (hdt : 0 < deltaT) :
    (∀ pos vel targetPos : ℚ,
      motorControllerVelRamp (-pos) (-vel) (-targetPos) deltaT maxVel maxAcc
          = -motorControllerVelRamp pos vel targetPos deltaT maxVel maxAcc
        ↔ ¬ RestsAtZeroLimit pos vel targetPos deltaT maxVel maxAcc)
      ∧ ∀ (targets : ℕ → ℚ) (s : ℚ × ℚ),
        (∀ n, setpointRun deltaT maxVel maxAcc (fun i => -targets i) (-s) n
            = -setpointRun deltaT maxVel maxAcc targets s n)
          ↔ ∀ n, ¬ RestsAtZeroLimit (setpointRun deltaT maxVel maxAcc targets s n).1
            (setpointRun deltaT maxVel maxAcc targets s n).2 (targets n) deltaT maxVel
              maxAcc := by
  refine ⟨fun pos vel targetPos => velRamp_neg_iff hacc hvel hdt, fun targets s => ?_⟩
  constructor
  · intro hmirrored n
    rw [← velRamp_neg_iff hacc hvel hdt, ← positionStep_neg_iff hdt, ← hmirrored n]
    exact hmirrored (n + 1)
  · intro hmoves n
    induction n with
    | zero => rfl
    | succ n ih =>
      show positionStep (-targets n) deltaT maxVel maxAcc _ = -positionStep (targets n) _ _ _ _
      rw [ih, positionStep_neg_iff hdt]
      exact (velRamp_neg_iff hacc hvel hdt).mpr (hmoves n)

/-- A state in front of the target, at a limit that is not zero. -/
theorem mirrored_iff_moving :
    motorControllerVelRamp (-2 : ℚ) (-1) (-0) 1 1 1 = -motorControllerVelRamp (2 : ℚ) 1 0 1 1 1 :=
  ((mirrored_iff (by norm_num) (by norm_num) (by norm_num)).1 2 1 0).mpr
    (fun hrests => one_ne_zero hrests.1)

/-- At a limit of zero the set-point leaves its rest on one side of the target only. -/
theorem not_mirrored :
    ¬ motorControllerVelRamp (-2 : ℚ) (-0) (-0) 1 0 1
      = -motorControllerVelRamp (2 : ℚ) 0 0 1 0 1 := by
  decide +kernel

end MotorControl
