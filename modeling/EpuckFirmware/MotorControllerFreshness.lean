import EpuckFirmware.History
import EpuckFirmware.MotorControllerScheduling
import EpuckFirmware.MotorControllerSetpoints

/-!
# Which velocity set-point the velocity loop uses

The velocity set-point is assigned when the controller leaves current mode for velocity
mode, by the position block and by the ramp of velocity mode. When the controller leaves
current mode for position mode nothing assigns it, and it is fresh only if the position
block is due no later than the velocity block. The two counters decide which of them is.
-/

namespace MotorControl

open StepMachine History

/-- What happens to `velocity.setpoint`. -/
inductive SetpointEvent
  /-- A call of `motor_controller_set_mode` leaves current mode. -/
  | leave
  /-- It is assigned. -/
  | assign
  /-- The velocity block uses it. -/
  | use
  deriving DecidableEq

section

variable {F : Type} [FloatOps F] {P : ParameterLib F} {Q : PidLib F} {W : Type}

/-- What a call does to `velocity.setpoint`, in the order in which it does it. -/
def MotorController.shows (c : MotorController P Q W) : Call F W → List SetpointEvent
  | .setMode mode _ =>
    (if c.mode = .current ∧ mode ≠ .current then [.leave] else [])
      ++ (if mode = .velocity ∧ c.mode < .velocity then [.assign] else [])
  | .process _ =>
    (if Due .position c then [.assign] else []) ++ (if c.mode = .velocity then [.assign] else [])
      ++ (if Due .velocity c then [.use] else [])
  | .setTarget _ _ => []
  | .setInput _ _ => []

/-- The set-point was assigned during or after the latest call that left current mode. -/
def Fresh (h : List SetpointEvent) : Prop := Since (· ≠ .leave) (fun _ x => x = .assign) h

/-- **The velocity block uses fresh set-points only.** -/
def UsesFresh (h : List SetpointEvent) : Prop := Always (fun past x => x = .use → Fresh past) h

/-- **The set-point changes only when it is assigned.** -/
theorem setpoint_of_not_assign {c c' : MotorController P Q W} {call : Call F W}
    (h : c.step call = .ok c') (hassign : .assign ∉ c.shows call) :
    c'.velocity.setpoint = c.velocity.setpoint := by
  cases call with
  | setMode mode w =>
    cases mode with
    | current =>
      cases h
      rfl
    | velocity =>
      by_cases hmode : c.mode < .velocity
      · exact absurd (show SetpointEvent.assign ∈ _ ++ _ by simp [hmode]) hassign
      · simp only [MotorController.step, motorControllerSetMode, if_neg hmode] at h
        cases h
        rfl
    | position =>
      have hset : motorControllerSetMode c .position w = .ok c' := h
      obtain ⟨_, _, _, rfl, hsetpoint⟩ := motorControllerSetMode_eq_ok hset
      exact hsetpoint.resolve_right (by simp)
  | process w =>
    obtain ⟨-, -, rfl⟩ := step_process h
    have hposition : ¬ Due .position c := fun hdue =>
      hassign (show SetpointEvent.assign ∈ _ ++ _ ++ _ by simp [hdue])
    cases hmode : c.mode with
    | current => exact processed_of_current hmode
    | velocity => exact absurd (show SetpointEvent.assign ∈ _ ++ _ ++ _ by simp [hmode]) hassign
    | position => exact (processed_of_not_due hmode hposition).1
  | setTarget mode x =>
    cases h
    cases mode <;> rfl
  | setInput mode get =>
    cases h
    cases mode <;> rfl

/-- The position block is due no later than the velocity block, if the controller is
processed in position mode from now on. -/
def PositionFirst (c : MotorController P Q W) : Prop :=
  c.position.divider - c.position.dividerCounter
    ≤ max 1 (c.velocity.divider - c.velocity.dividerCounter)

instance PositionFirst.decidable (c : MotorController P Q W) : Decidable (PositionFirst c) :=
  inferInstanceAs (Decidable (_ ≤ _))

/-- **The calls that are safe**: all but those that leave current mode for position mode
while the velocity block is due before the position block. -/
def SafeSwitch (c : MotorController P Q W) : Call F W → Prop
  | .setMode mode _ => c.mode = .current → mode = .position → PositionFirst c
  | _ => True

/-- **The invariant**: outside current mode, the set-point is fresh or will be assigned
before it is used. -/
structure UsesFreshNext (s : MotorController P Q W × List SetpointEvent) : Prop where
  uses : UsesFresh s.2
  next : s.1.mode = .current ∨ Fresh s.2 ∨ PositionFirst s.1

theorem fresh_concat_assign (h : List SetpointEvent) : Fresh (h ++ [.assign]) :=
  since_concat.mpr (Or.inl rfl)

theorem fresh_concat_use {h : List SetpointEvent} (hfresh : Fresh h) : Fresh (h ++ [.use]) :=
  since_concat.mpr (Or.inr ⟨by simp, hfresh⟩)

theorem usesFresh_concat_assign {h : List SetpointEvent} (hs : UsesFresh h) :
    UsesFresh (h ++ [.assign]) :=
  always_concat.mpr ⟨hs, by simp⟩

/-- The end of processing, once the set-point is fresh. -/
theorem usesFresh_use {h : List SetpointEvent} (hs : UsesFresh h) (hfresh : Fresh h)
    (p : Prop) [Decidable p] :
    UsesFresh (h ++ if p then [.use] else []) ∧ Fresh (h ++ if p then [.use] else []) := by
  by_cases hp : p
  · rw [if_pos hp]
    exact ⟨always_concat.mpr ⟨hs, fun _ => hfresh⟩, fresh_concat_use hfresh⟩
  · rw [if_neg hp, List.append_nil]
    exact ⟨hs, hfresh⟩

omit [FloatOps F] in
/-- Outside current mode, setting the mode touches no velocity set-point. -/
theorem shows_setMode_of_ne {c : MotorController P Q W} (hmode : c.mode ≠ .current)
    (mode : MotorControllerMode) (w : W) : c.shows (.setMode (F := F) mode w) = [] := by
  have hnot : ¬ (mode = .velocity ∧ c.mode < .velocity) := by
    rintro ⟨-, hlt⟩
    cases hc : c.mode with
    | current => exact hmode hc
    | velocity => exact absurd hlt (by rw [hc]; decide)
    | position => exact absurd hlt (by rw [hc]; decide)
  simp only [MotorController.shows, hmode, false_and, if_false, if_neg hnot, List.append_nil]

theorem usesFreshNext_setMode {c c' : MotorController P Q W} {h : List SetpointEvent}
    (hs : UsesFreshNext (c, h)) {mode : MotorControllerMode} {w : W}
    (hsafe : SafeSwitch c (.setMode (F := F) mode w))
    (hstep : motorControllerSetMode c mode w = .ok c') :
    UsesFreshNext (c', h ++ c.shows (.setMode mode w)) := by
  obtain ⟨_, _, _, rfl, -⟩ := motorControllerSetMode_eq_ok hstep
  by_cases hcurrent : c.mode = .current
  · have hleave : UsesFresh (h ++ [.leave]) := always_concat.mpr ⟨hs.uses, by simp⟩
    cases mode with
    | current =>
      have hshows : c.shows (.setMode (F := F) .current w) = [] := by
        simp [MotorController.shows]
      rw [hshows, List.append_nil]
      exact ⟨hs.uses, Or.inl rfl⟩
    | velocity =>
      have hshows : c.shows (.setMode (F := F) .velocity w) = [.leave] ++ [.assign] := by
        simp [MotorController.shows, hcurrent]
        decide
      rw [hshows, ← List.append_assoc]
      exact ⟨usesFresh_concat_assign hleave, Or.inr (Or.inl (fresh_concat_assign _))⟩
    | position =>
      have hshows : c.shows (.setMode (F := F) .position w) = [.leave] := by
        simp [MotorController.shows, hcurrent]
      rw [hshows]
      exact ⟨hleave, Or.inr (Or.inr (hsafe hcurrent rfl))⟩
  · rw [shows_setMode_of_ne hcurrent, List.append_nil]
    exact ⟨hs.uses, Or.inr (hs.next.resolve_left hcurrent)⟩

/-- **Processing** assigns the set-point before it is used, or both counters advance. -/
theorem usesFreshNext_process {c : MotorController P Q W} {h : List SetpointEvent}
    (hs : UsesFreshNext (c, h)) (w : W) :
    UsesFreshNext ((processed c w).2, h ++ c.shows (.process (F := F) w)) := by
  show UsesFreshNext (_, h ++ (_ ++ _ ++ _))
  rw [← List.append_assoc, ← List.append_assoc]
  cases hmode : c.mode with
  | current =>
    have hposition : ¬ Due .position c := fun hdue => absurd hdue.1 (by rw [hmode]; decide)
    have hvelocity : ¬ Due .velocity c := fun hdue => absurd hdue.1 (by rw [hmode]; decide)
    rw [if_neg hposition, if_neg (by decide), if_neg hvelocity, List.append_nil, List.append_nil,
      List.append_nil]
    exact ⟨hs.uses, Or.inl ((processed_mode c w).trans hmode)⟩
  | velocity =>
    have hposition : ¬ Due .position c := fun hdue => absurd hdue.1 (by rw [hmode]; decide)
    rw [if_neg hposition, if_pos rfl, List.append_nil]
    obtain ⟨huses, hfresh⟩ := usesFresh_use (usesFresh_concat_assign hs.uses)
      (fresh_concat_assign h) (Due .velocity c)
    exact ⟨huses, Or.inr (Or.inl hfresh)⟩
  | position =>
    rw [if_neg (show MotorControllerMode.position ≠ .velocity by decide), List.append_nil]
    by_cases hposition : Due .position c
    · rw [if_pos hposition]
      obtain ⟨huses, hfresh⟩ := usesFresh_use (usesFresh_concat_assign hs.uses)
        (fresh_concat_assign h) (Due .velocity c)
      exact ⟨huses, Or.inr (Or.inl hfresh)⟩
    · rw [if_neg hposition, List.append_nil]
      obtain hfresh | hfirst := hs.next.resolve_left (by rw [hmode]; decide)
      · obtain ⟨huses, hfresh⟩ := usesFresh_use hs.uses hfresh (Due .velocity c)
        exact ⟨huses, Or.inr (Or.inl hfresh)⟩
      · -- The position block is not due, so that the velocity block is not due either.
        have hle : MotorControllerMode.position ≤ c.mode := by
          rw [hmode]
          decide
        have hpc : c.position.dividerCounter + 1 < c.position.divider := by
          by_contra hnot
          exact hposition ⟨hle, not_lt.mp hnot⟩
        have hvc : c.velocity.dividerCounter + 1 < c.velocity.divider := by
          have hfirst' : c.position.divider - c.position.dividerCounter
            ≤ max 1 (c.velocity.divider - c.velocity.dividerCounter) := hfirst
          omega
        have hvelocity : ¬ Due .velocity c := fun hdue => absurd hdue.2 (not_le_of_gt hvc)
        rw [if_neg hvelocity, List.append_nil]
        refine ⟨hs.uses, Or.inr (Or.inr ?_)⟩
        show (processed c w).2.position.divider - (processed c w).2.position.dividerCounter
          ≤ max 1 ((processed c w).2.velocity.divider - (processed c w).2.velocity.dividerCounter)
        rw [processed_position_divider, processed_velocity_divider,
          processed_position_dividerCounter, processed_velocity_dividerCounter, hmode,
          decide_eq_true (show MotorControllerMode.position ≤ .position by decide),
          decide_eq_true (show MotorControllerMode.velocity ≤ .position by decide),
          Prescaler.next_of_not_fires hpc, Prescaler.next_of_not_fires hvc]
        have hfirst' : c.position.divider - c.position.dividerCounter
          ≤ max 1 (c.velocity.divider - c.velocity.dividerCounter) := hfirst
        omega

/-- **Every safe call keeps the invariant.** -/
theorem usesFreshNext_step {s s' : MotorController P Q W × List SetpointEvent} {call : Call F W}
    (hs : UsesFreshNext s) (hsafe : SafeSwitch s.1 call)
    (h : recorded MotorController.step MotorController.shows s call = .ok s') :
    UsesFreshNext s' := by
  obtain ⟨hstep, hshows⟩ := recorded_eq_ok.mp h
  obtain ⟨c', h'⟩ := s'
  rw [show h' = s.2 ++ s.1.shows call from hshows]
  cases call with
  | setMode mode w => exact usesFreshNext_setMode hs hsafe hstep
  | process w =>
    obtain ⟨-, -, hprocessed⟩ := step_process hstep
    rw [show c' = (processed s.1 w).2 from hprocessed]
    exact usesFreshNext_process hs w
  | setTarget mode x =>
    cases hstep
    rw [show s.1.shows (.setTarget mode x) = [] from rfl, List.append_nil]
    cases mode <;> exact ⟨hs.uses, hs.next⟩
  | setInput mode get =>
    cases hstep
    rw [show s.1.shows (.setInput mode get) = [] from rfl, List.append_nil]
    cases mode <;> exact ⟨hs.uses, hs.next⟩

/-- **Mode switches cause no stale motion** in a run whose calls are safe. -/
theorem uses_fresh_setpoints (infinity : F) (velocityDivider positionDivider : ℕ)
    (calls : List (Call F W)) {s : MotorController P Q W × List SetpointEvent}
    (h : Runs (recorded MotorController.step MotorController.shows)
      (fun s call => SafeSwitch s.1 call)
      (scheduledStart infinity velocityDivider positionDivider, []) calls s) :
    UsesFresh s.2 :=
  (h.invariant (P := UsesFreshNext) (fun _ _ _ hs hsafe hstep => usesFreshNext_step hs hsafe hstep)
    ⟨always_nil _, Or.inl rfl⟩).uses

end

/-! ## A controller in exact arithmetic -/

/-- The calls that put a controller with both callbacks into position mode. -/
def toPosition : List (Call ℚ Unit) :=
  [.setInput .position (some fun _ => 0), .setInput .velocity (some fun _ => 0),
    .setMode .position (), .process ()]

/-- With equal dividers the position block is due first. -/
theorem uses_fresh_setpoints_toPosition : UsesFresh [.leave, .assign, .use] :=
  uses_fresh_setpoints (P := flagParameters) (Q := proportionalPid 1) (0 : ℚ) 1 1 toPosition
    (.cons trivial rfl (.cons trivial rfl (.cons (fun _ _ => by decide) rfl
      (.cons trivial rfl .nil))))

/-- When only the velocity block is due after the controller left current mode for
position mode, it uses the set-point from before. -/
theorem not_uses_fresh_setpoints : ¬ ∀ (velocityDivider positionDivider : ℕ),
    1 ≤ velocityDivider → 1 ≤ positionDivider →
    ∀ (calls : List (Call ℚ Unit))
      (s : MotorController flagParameters (proportionalPid 1) Unit × List SetpointEvent),
      run (recorded MotorController.step MotorController.shows)
        (scheduledStart 0 velocityDivider positionDivider, []) calls = .ok s → UsesFresh s.2 := by
  intro h
  have huses : UsesFresh [.leave, .use] :=
    h 1 10 (le_refl 1) (by decide) toPosition (_, [.leave, .use]) rfl
  have hfresh : Fresh ([] ++ [.leave]) := huses [.leave] .use [] rfl rfl
  obtain hassign | ⟨hleave, -⟩ := since_concat.mp hfresh
  · cases hassign
  · exact hleave rfl

end MotorControl
