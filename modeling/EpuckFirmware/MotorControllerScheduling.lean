import EpuckFirmware.MotorControllerCalls

/-!
# When the loops of the motor controller run

The counters of the position and of the velocity loop are prescalers, ticking with
every call of `motor_controller_process` and enabled by the modes that need the loop.
Which ticks are enabled depends on the calls alone. In the modes that do not need
the loop its counter is incremented and never reset, so that it overflows if the
controller stays there for long enough.
-/

namespace MotorControl

open StepMachine

section

variable {F : Type} [FloatOps F] {P : ParameterLib F} {Q : PidLib F} {W : Type}

/-- The modes in which the controller is processed, `mode` being its mode before. -/
def processModes : MotorControllerMode → List (Call F W) → List MotorControllerMode
  | _, [] => []
  | _, .setMode mode _ :: calls => processModes mode calls
  | mode, .process _ :: calls => mode :: processModes mode calls
  | mode, .setTarget _ _ :: calls => processModes mode calls
  | mode, .setInput _ _ :: calls => processModes mode calls

/-- The ticks of the prescaler of a loop. -/
def loopTicks (loop mode : MotorControllerMode) (calls : List (Call F W)) : List Bool :=
  (processModes mode calls).map (fun m => decide (loop ≤ m))

/-- The call processes the controller and the block of the loop executes. -/
def executes (loop : MotorControllerMode) (c : MotorController P Q W) : Call F W → Bool
  | .process _ => decide (Due loop c)
  | _ => false

/-- **The loops are scheduled**: no counter overflows, the position block executes
once in as many consecutive calls in position mode as its divider says, and the
velocity block once in as many consecutive calls outside current mode. -/
structure Scheduled (c₀ : MotorController P Q W) (velocityDivider positionDivider : ℕ)
    (calls : List (Call F W)) : Prop where
  noOverflow : run MotorController.step c₀ calls ≠ .error .intOverflow
  position : ∀ before window after c c', calls = before ++ window ++ after →
    run MotorController.step c₀ before = .ok c → run MotorController.step c window = .ok c' →
    processModes c.mode window = List.replicate positionDivider .position →
      count MotorController.step (executes .position) c window = 1
  velocity : ∀ before window after c c', calls = before ++ window ++ after →
    run MotorController.step c₀ before = .ok c → run MotorController.step c window = .ok c' →
    (processModes c.mode window).length = velocityDivider →
    (∀ mode ∈ processModes c.mode window, .velocity ≤ mode) →
      count MotorController.step (executes .velocity) c window = 1

/-! ## Counters over a run -/

/-- **What a call does to the counter of a loop.** Processing is a tick of its
prescaler; the other calls leave the counter alone, and set the mode in which the
next tick finds the controller. -/
theorem step_ticks {loop : MotorControllerMode} (hloop : loop ≠ .current)
    {c c' : MotorController P Q W} {call : Call F W} (h : c.step call = .ok c')
    (calls : List (Call F W)) :
    (c'.loop loop).divider = (c.loop loop).divider
      ∧ ((∃ t, loopTicks loop c.mode (call :: calls) = t :: loopTicks loop c'.mode calls
          ∧ (c.loop loop).dividerCounter < intMax
          ∧ (c'.loop loop).dividerCounter
            = Prescaler.next (c.loop loop).divider (c.loop loop).dividerCounter t
          ∧ executes loop c call
            = Prescaler.fires (c.loop loop).divider (c.loop loop).dividerCounter t)
        ∨ loopTicks loop c.mode (call :: calls) = loopTicks loop c'.mode calls
          ∧ (c'.loop loop).dividerCounter = (c.loop loop).dividerCounter
          ∧ executes loop c call = false) := by
  cases call with
  | process w =>
    obtain ⟨hposition, hvelocity, rfl⟩ := step_process h
    have hbound : (c.loop loop).dividerCounter < intMax := by
      cases loop with
      | current => exact absurd rfl hloop
      | velocity => exact hvelocity
      | position => exact hposition
    refine ⟨processed_divider c w hloop, Or.inl ⟨decide (loop ≤ c.mode), ?_, hbound,
      processed_dividerCounter c w hloop, Bool.decide_and _ _⟩⟩
    rw [processed_mode]
    rfl
  | setMode mode w =>
    obtain ⟨_, _, _, rfl, -⟩ := motorControllerSetMode_eq_ok h
    refine ⟨?_, Or.inr ⟨rfl, ?_, rfl⟩⟩
    · cases loop <;> rfl
    · cases loop <;> rfl
  | setTarget mode x =>
    cases h
    refine ⟨?_, Or.inr ⟨?_, ?_, rfl⟩⟩
    · cases mode <;> cases loop <;> rfl
    · cases mode <;> rfl
    · cases mode <;> cases loop <;> rfl
  | setInput mode get =>
    cases h
    refine ⟨?_, Or.inr ⟨?_, ?_, rfl⟩⟩
    · cases mode <;> cases loop <;> rfl
    · cases mode <;> rfl
    · cases mode <;> cases loop <;> rfl

/-- Only processing overflows. -/
theorem step_eq_intOverflow {c : MotorController P Q W} {call : Call F W}
    (h : c.step call = .error .intOverflow) :
    ∃ w, call = .process w
      ∧ (intMax ≤ c.position.dividerCounter ∨ intMax ≤ c.velocity.dividerCounter) := by
  cases call with
  | process w => exact ⟨w, rfl, (step_process_eq_error h).2⟩
  | setMode mode w => exact absurd (motorControllerSetMode_eq_error h).1 (by decide)
  | setTarget mode x => cases h
  | setInput mode get => cases h

/-- **A run that completes**: the counter of an outer loop never overflowed, and its
block executed whenever the prescaler fired. -/
theorem fits_of_run (loop : MotorControllerMode) (hloop : loop ≠ .current)
    {c c' : MotorController P Q W} {calls : List (Call F W)}
    (h : run MotorController.step c calls = .ok c') :
    Prescaler.Fits (c.loop loop).divider intMax (c.loop loop).dividerCounter
        (loopTicks loop c.mode calls)
      ∧ count MotorController.step (executes loop) c calls
        = Prescaler.firings (c.loop loop).divider (c.loop loop).dividerCounter
            (loopTicks loop c.mode calls) := by
  induction calls generalizing c with
  | nil => exact ⟨Prescaler.fits_nil _ _, rfl⟩
  | cons call calls ih =>
    obtain ⟨c₁, hstep, hrun⟩ := run_cons_eq_ok h
    obtain ⟨hfits, hcount⟩ := ih hrun
    rw [count_cons_of_step hstep, hcount]
    obtain ⟨hdivider, ⟨t, hticks, hbound, hcounter, hfires⟩ | ⟨hticks, hcounter, hidle⟩⟩ :=
      step_ticks hloop hstep calls
    · rw [hdivider, hcounter] at hfits
      rw [hdivider, hcounter, hticks, hfires]
      exact ⟨Prescaler.fits_cons.mpr ⟨hbound, hfits⟩, rfl⟩
    · rw [hdivider, hcounter] at hfits
      rw [hdivider, hcounter, hticks, hidle]
      exact ⟨hfits, Nat.zero_add _⟩

/-- After a step, the prescaler of a loop fits the ticks that remain. -/
theorem fits_step {loop : MotorControllerMode} (hloop : loop ≠ .current)
    {c c' : MotorController P Q W} {call : Call F W} {calls : List (Call F W)}
    (hstep : c.step call = .ok c')
    (h : Prescaler.Fits (c.loop loop).divider intMax (c.loop loop).dividerCounter
      (loopTicks loop c.mode (call :: calls))) :
    Prescaler.Fits (c'.loop loop).divider intMax (c'.loop loop).dividerCounter
      (loopTicks loop c'.mode calls) := by
  obtain ⟨hdivider, ⟨t, hticks, -, hcounter, -⟩ | ⟨hticks, hcounter, -⟩⟩ :=
    step_ticks hloop hstep calls
  · rw [hticks] at h
    rw [hdivider, hcounter]
    exact (Prescaler.fits_cons.mp h).2
  · rw [hticks] at h
    rw [hdivider, hcounter]
    exact h

/-- **No run overflows** while the prescalers of the outer loops fit. -/
theorem run_ne_intOverflow {c : MotorController P Q W} {calls : List (Call F W)}
    (h : ∀ loop ≠ .current, Prescaler.Fits (c.loop loop).divider intMax
      (c.loop loop).dividerCounter (loopTicks loop c.mode calls)) :
    run MotorController.step c calls ≠ .error .intOverflow := by
  induction calls generalizing c with
  | nil => exact fun hrun => by cases hrun
  | cons call calls ih =>
    cases hstep : c.step call with
    | ok c₁ =>
      rw [run_cons_of_step hstep]
      exact ih (fun loop hloop => fits_step hloop hstep (h loop hloop))
    | error e =>
      rw [run_cons_of_error hstep]
      rintro ⟨⟩
      obtain ⟨w, rfl, hfull⟩ := step_eq_intOverflow hstep
      have hposition := (Prescaler.fits_cons.mp (h .position (by decide))).1
      have hvelocity := (Prescaler.fits_cons.mp (h .velocity (by decide))).1
      exact hfull.elim (not_le_of_gt hposition) (not_le_of_gt hvelocity)

/-- The counter of an outer loop is never negative. -/
theorem dividerCounter_nonneg (loop : MotorControllerMode) (hloop : loop ≠ .current)
    {c c' : MotorController P Q W} {calls : List (Call F W)}
    (h : run MotorController.step c calls = .ok c') (hc : 0 ≤ (c.loop loop).dividerCounter) :
    0 ≤ (c'.loop loop).dividerCounter ∧ (c'.loop loop).divider = (c.loop loop).divider := by
  induction calls generalizing c with
  | nil =>
    cases h
    exact ⟨hc, rfl⟩
  | cons call calls ih =>
    obtain ⟨c₁, hstep, hrun⟩ := run_cons_eq_ok h
    obtain ⟨hdivider, htick⟩ := step_ticks hloop hstep calls
    rw [← hdivider]
    refine ih hrun ?_
    obtain ⟨t, -, -, hcounter, -⟩ | ⟨-, hcounter, -⟩ := htick
    · rw [hcounter]
      exact Prescaler.next_nonneg hc t
    · rw [hcounter]
      exact hc

/-! ## Scheduling -/

/-- The controller at the start of a run: initialised, with its prescalers set. -/
def scheduledStart (infinity : F) (velocityDivider positionDivider : ℕ) :
    MotorController P Q W :=
  motorControllerSetPrescaler (motorControllerInit infinity) velocityDivider positionDivider

/-- **When the loops are scheduled**: as long as the controller is never processed
too often in a row outside the modes that need a loop. A run in which a counter
does not overflow has no stretch of `2 ^ 31` such calls. -/
theorem loop_scheduling (infinity : F) (velocityDivider positionDivider : ℕ)
    (hvelocity : 1 ≤ velocityDivider) (hposition : 1 ≤ positionDivider)
    (calls : List (Call F W)) :
    (Prescaler.WaitsAtMost (intMax - positionDivider) (loopTicks .position .current calls) →
      Prescaler.WaitsAtMost (intMax - velocityDivider) (loopTicks .velocity .current calls) →
      Scheduled (scheduledStart (P := P) (Q := Q) infinity velocityDivider positionDivider)
        velocityDivider positionDivider calls)
    ∧ ∀ c, run MotorController.step
        (scheduledStart (P := P) (Q := Q) infinity velocityDivider positionDivider) calls = .ok c →
      Prescaler.WaitsAtMost intMax (loopTicks .position .current calls)
        ∧ Prescaler.WaitsAtMost intMax (loopTicks .velocity .current calls) := by
  refine ⟨fun hp hv => ⟨?_, ?_, ?_⟩, ?_⟩
  · refine run_ne_intOverflow (fun loop hloop => ?_)
    cases loop with
    | current => exact absurd rfl hloop
    | velocity => exact Prescaler.fits_of_waitsAtMost (Int.ofNat_le.mpr hvelocity) hv
    | position => exact Prescaler.fits_of_waitsAtMost (Int.ofNat_le.mpr hposition) hp
  · rintro before window after c c' - hbefore hwindow hmodes
    obtain ⟨hnonneg, hdivider⟩ :=
      dividerCounter_nonneg .position (by decide) hbefore (le_refl 0)
    rw [(fits_of_run .position (by decide) hwindow).2, hdivider, loopTicks, hmodes,
      List.map_replicate]
    exact Prescaler.firings_window hnonneg hposition rfl
  · rintro before window after c c' - hbefore hwindow hlength hmodes
    obtain ⟨hnonneg, hdivider⟩ :=
      dividerCounter_nonneg .velocity (by decide) hbefore (le_refl 0)
    have hticks : loopTicks .velocity c.mode window = List.replicate velocityDivider true := by
      rw [← hlength, loopTicks, List.eq_replicate_iff]
      refine ⟨List.length_map _, fun t ht => ?_⟩
      obtain ⟨mode, hmem, rfl⟩ := List.mem_map.mp ht
      exact decide_eq_true (hmodes mode hmem)
    rw [(fits_of_run .velocity (by decide) hwindow).2, hdivider, hticks]
    exact Prescaler.firings_window hnonneg hvelocity rfl
  · intro c hrun
    exact ⟨Prescaler.waitsAtMost_of_fits (le_refl 0) (by decide)
        (fits_of_run .position (by decide) hrun).1,
      Prescaler.waitsAtMost_of_fits (le_refl 0) (by decide)
        (fits_of_run .velocity (by decide) hrun).1⟩

/-- **A controller that stays in current mode overflows.** -/
theorem run_process_overflow {c : MotorController P Q W} (hmode : c.mode = .current)
    (hc : 0 ≤ c.position.dividerCounter) (w : W) {n : ℕ} (hn : intMax < n) :
    run MotorController.step c (List.replicate n (.process w)) = .error .intOverflow := by
  have hticks : ∀ k, loopTicks (F := F) .position .current (List.replicate k (Call.process w))
      = List.replicate k false := by
    intro k
    induction k with
    | zero => rfl
    | succ k ih => exact congrArg (List.cons false) ih
  cases hrun : run MotorController.step c (List.replicate n (.process w)) with
  | ok c' =>
    have hfits := (fits_of_run .position (by decide) hrun).1
    rw [hmode, hticks] at hfits
    have hle := Prescaler.waitsAtMost_of_fits hc (by decide) hfits n (List.infix_refl _)
    exact absurd hle (not_le_of_gt hn)
  | error e =>
    obtain ⟨before, call, after, c', hcalls, -, hstep⟩ := run_eq_error hrun
    have hmem : call ∈ List.replicate n (.process w) := by
      rw [hcalls]
      exact List.mem_append_right _ List.mem_cons_self
    rw [List.eq_of_mem_replicate hmem] at hstep
    exact congrArg Except.error (step_process_eq_error hstep).1

end

/-! ## A controller in exact arithmetic -/

/-- Twenty calls in position mode. -/
def positionCalls : List (Call ℚ Unit) :=
  [.setInput .position (some fun _ => 0), .setInput .velocity (some fun _ => 0),
    .setMode .position ()] ++ List.replicate 20 (.process ())

theorem loop_scheduling_positionCalls :
    Scheduled (scheduledStart (P := flagParameters) (Q := proportionalPid 1) 0 10 10) 10 10
      positionCalls := by
  refine (loop_scheduling 0 10 10 (by decide) (by decide) positionCalls).1 ?_ ?_
  · intro k hk
    have hlen := hk.length_le
    rw [List.length_replicate] at hlen
    exact (Int.ofNat_le.mpr hlen).trans (by decide)
  · intro k hk
    have hlen := hk.length_le
    rw [List.length_replicate] at hlen
    exact (Int.ofNat_le.mpr hlen).trans (by decide)

/-- The counters of a controller that is left in current mode overflow after `2 ^ 31`
calls. -/
theorem not_loop_scheduling : ¬ ∀ calls : List (Call ℚ Unit),
    Scheduled (scheduledStart (P := flagParameters) (Q := proportionalPid 1) 0 1 1) 1 1 calls := by
  intro h
  exact (h (List.replicate (2 ^ 31) (.process ()))).noOverflow
    (run_process_overflow rfl (le_refl 0) () (by norm_num [intMax]))

end MotorControl
