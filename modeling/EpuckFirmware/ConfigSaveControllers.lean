import EpuckFirmware.MotorControllerGains

/-!
# Saving the configuration while a controller runs

`cmd_config_save` loads what it saved to see whether that worked. Loading sets every
parameter found in the block, to the value that it has, and setting flags the parameter
as changed. The next call of the controller therefore passes all gains to the filters
again, and resets the integrals with them.

Nothing else of the controller is disturbed: two controllers that differ in the states
of their parameters only, and not in what the next update makes of their filters, show
the same from there on.
-/

namespace MotorControl

open StepMachine

/-- What can be observed of a filter. -/
structure PidFields {F : Type} (Q : PidLib F) where
  gains : Q.Ctrl → F × F × F
  integralLimit : Q.Ctrl → F
  integral : Q.Ctrl → F

/-- The setters of the PID library store what they are given, change nothing else, and
change nothing at all when that is stored already. -/
structure PidFields.Lawful {F : Type} [Zero F] {Q : PidLib F} (fields : PidFields Q) : Prop where
  gains_setGains : ∀ c kp ki kd, fields.gains (Q.setGains c kp ki kd) = (kp, ki, kd)
  integralLimit_setGains : ∀ c kp ki kd,
    fields.integralLimit (Q.setGains c kp ki kd) = fields.integralLimit c
  gains_setIntegralLimit : ∀ c limit, fields.gains (Q.setIntegralLimit c limit) = fields.gains c
  integralLimit_setIntegralLimit : ∀ c limit,
    fields.integralLimit (Q.setIntegralLimit c limit) = limit
  integral_setIntegralLimit : ∀ c limit,
    fields.integral (Q.setIntegralLimit c limit) = fields.integral c
  gains_resetIntegral : ∀ c, fields.gains (Q.resetIntegral c) = fields.gains c
  integralLimit_resetIntegral : ∀ c,
    fields.integralLimit (Q.resetIntegral c) = fields.integralLimit c
  integral_resetIntegral : ∀ c, fields.integral (Q.resetIntegral c) = 0
  setGains_self : ∀ c, Q.setGains c (fields.gains c).1 (fields.gains c).2.1 (fields.gains c).2.2 = c
  setIntegralLimit_self : ∀ c, Q.setIntegralLimit c (fields.integralLimit c) = c
  resetIntegral_self : ∀ c, fields.integral c = 0 → Q.resetIntegral c = c

section

variable {F : Type} {P : ParameterLib F} {Q : PidLib F} {W : Type}

/-- The parameter of the given name. -/
def MotorController.parameter (c : MotorController P Q W) : ParameterName → P.Parameter
  | .pid loop name => (c.loop loop).params.parameter name
  | .limit .velocity => c.limits.velocity
  | .limit .current => c.limits.current
  | .limit .acceleration => c.limits.acceleration

/-- What `parameter_msgpack_read` does with the parameters of the controller that it
finds in a block. -/
def MotorController.assign (c : MotorController P Q W) (block : List (ParameterName × F)) :
    MotorController P Q W :=
  block.foldl (fun c entry => c.modifyParameter (fun p => P.set p entry.2) entry.1) c

/-- What `config_save` writes of the parameters of the controller. -/
def MotorController.saved (c : MotorController P Q W) (names : List ParameterName) :
    List (ParameterName × F) :=
  names.map (fun name => (name, P.read (c.parameter name)))

/-- **`cmd_config_save`**: `config_save`, which changes no parameter, and `config_load`
of what was saved. -/
def MotorController.configSave (c : MotorController P Q W) (names : List ParameterName) :
    MotorController P Q W :=
  c.assign (c.saved names)

/-! ## Controllers with other parameters -/

/-- The controller with the given parameters. -/
def MotorController.withParameters (c : MotorController P Q W)
    (p : ParameterName → P.Parameter) : MotorController P Q W :=
  { c with
    limits := ⟨p (.limit .velocity), p (.limit .current), p (.limit .acceleration)⟩
    position := { c.position with params :=
      ⟨p (.pid .position .kp), p (.pid .position .ki), p (.pid .position .kd),
        p (.pid .position .iLimit)⟩ }
    velocity := { c.velocity with params :=
      ⟨p (.pid .velocity .kp), p (.pid .velocity .ki), p (.pid .velocity .kd),
        p (.pid .velocity .iLimit)⟩ }
    current := { c.current with params :=
      ⟨p (.pid .current .kp), p (.pid .current .ki), p (.pid .current .kd),
        p (.pid .current .iLimit)⟩ } }

@[simp] theorem parameter_withParameters (c : MotorController P Q W)
    (p : ParameterName → P.Parameter) (name : ParameterName) :
    (c.withParameters p).parameter name = p name := by
  cases name with
  | pid loop name => cases loop <;> cases name <;> rfl
  | limit name => cases name <;> rfl

theorem modifyParameter_withParameters (c : MotorController P Q W)
    (p : ParameterName → P.Parameter) (f : P.Parameter → P.Parameter) (name : ParameterName) :
    (c.withParameters p).modifyParameter f name
      = c.withParameters (Function.update p name (f (p name))) := by
  cases name with
  | pid loop name => cases loop <;> cases name <;> rfl
  | limit name => cases name <;> rfl

theorem pid_withParameters (c : MotorController P Q W) (p : ParameterName → P.Parameter)
    (loop : MotorControllerMode) : ((c.withParameters p).loop loop).pid = (c.loop loop).pid := by
  cases loop <;> rfl

/-- **What the read-back leaves**: the same values, and the flags of what it found. -/
theorem assign_eq (hP : P.Lawful) (c : MotorController P Q W) (names : List ParameterName)
    (p : ParameterName → P.Parameter)
    (hread : ∀ name, P.read (p name) = P.read (c.parameter name)) :
    ∃ q, (c.withParameters p).assign (c.saved names) = c.withParameters q
      ∧ (∀ name, P.read (q name) = P.read (c.parameter name))
      ∧ ∀ name, P.changed (q name) = (decide (name ∈ names) || P.changed (p name)) := by
  induction names generalizing p with
  | nil => exact ⟨p, rfl, hread, fun name => by simp⟩
  | cons n names ih =>
    have hstep : (c.withParameters p).assign (c.saved (n :: names))
        = (c.withParameters (Function.update p n (P.set (p n) (P.read (c.parameter n))))).assign
          (c.saved names) := by
      have hset := modifyParameter_withParameters c p
        (fun p => P.set p (P.read (c.parameter n))) n
      rw [← hset]
      rfl
    rw [hstep]
    obtain ⟨q, hq, hvalue, hflag⟩ :=
      ih (Function.update p n (P.set (p n) (P.read (c.parameter n)))) (fun name => by
        by_cases hname : name = n
        · rw [hname, Function.update_self, hP.read_set]
        · rw [Function.update_of_ne hname, hread])
    refine ⟨q, hq, hvalue, fun name => ?_⟩
    rw [hflag]
    by_cases hname : name = n
    · rw [hname, Function.update_self, hP.changed_set]
      simp
    · rw [Function.update_of_ne hname]
      simp [hname]

/-! ## Controllers that continue alike -/

/-- **A controller continues alike with other parameters** that have the same values, if
the next update makes the same of its filters. -/
structure Alike (c : MotorController P Q W) (p : ParameterName → P.Parameter) : Prop where
  read : ∀ name, P.read (p name) = P.read (c.parameter name)
  update : ∀ loop,
    ((c.withParameters p).loop loop).updateParams.pid = (c.loop loop).updateParams.pid

section Blocks

variable [FloatOps F] (c : MotorController P Q W) (p : ParameterName → P.Parameter) (w : W)
  (maxVelocity maxAcceleration maxCurrent : F)

theorem positionControl_withParameters :
    positionControl (c.withParameters p) maxVelocity maxAcceleration w
      = (positionControl c maxVelocity maxAcceleration w).withParameters p := by
  unfold positionControl
  split
  · rename_i h
    rw [if_pos (show .position ≤ c.mode ∧ c.position.divider ≤ c.position.dividerCounter from h)]
    rfl
  · rename_i h
    rw [if_neg (show ¬ (.position ≤ c.mode
      ∧ c.position.divider ≤ c.position.dividerCounter) from h)]

theorem velocityRamp_withParameters :
    velocityRamp (c.withParameters p) maxVelocity maxAcceleration
      = (velocityRamp c maxVelocity maxAcceleration).withParameters p := by
  unfold velocityRamp
  split
  · rename_i h
    rw [if_pos (show c.mode = .velocity from h)]
    rfl
  · rename_i h
    rw [if_neg (show ¬ c.mode = .velocity from h)]

theorem velocityControl_withParameters :
    velocityControl (c.withParameters p) w = (velocityControl c w).withParameters p := by
  unfold velocityControl
  split
  · rename_i h
    rw [if_pos (show .velocity ≤ c.mode ∧ c.velocity.divider ≤ c.velocity.dividerCounter from h)]
    rfl
  · rename_i h
    rw [if_neg (show ¬ (.velocity ≤ c.mode
      ∧ c.velocity.divider ≤ c.velocity.dividerCounter) from h)]

theorem currentControl_withParameters :
    currentControl (c.withParameters p) maxCurrent w
      = ((currentControl c maxCurrent w).1, (currentControl c maxCurrent w).2.withParameters p) :=
  rfl

end Blocks

theorem updateParams_withParams {l : ControlLoop P Q W} {params : PidParam P}
    (h : ({ l with params := params } : ControlLoop P Q W).updateParams.pid
      = l.updateParams.pid) :
    ({ l with params := params } : ControlLoop P Q W).updateParams
      = { l.updateParams with
          params := ({ l with params := params } : ControlLoop P Q W).updateParams.params } := by
  show ControlLoop.mk _ ({ l with params := params } : ControlLoop P Q W).updateParams.pid
    _ _ _ _ _ _ = _
  rw [h]
  rfl

section Processed

variable {c : MotorController P Q W} {p : ParameterName → P.Parameter}

theorem positionStart_withParameters (h : Alike c p) :
    positionStart (c.withParameters p)
      = (positionStart c).withParameters (positionStart (c.withParameters p)).parameter := by
  have hposition := updateParams_withParams (h.update .position)
  have hvelocity := updateParams_withParams (h.update .velocity)
  have hcurrent := updateParams_withParams (h.update .current)
  show MotorController.mk _ _ { (c.withParameters p).position.updateParams with
      dividerCounter := c.position.dividerCounter + 1 }
    (c.withParameters p).velocity.updateParams (c.withParameters p).current.updateParams = _
  rw [show (c.withParameters p).position.updateParams = _ from hposition,
    show (c.withParameters p).velocity.updateParams = _ from hvelocity,
    show (c.withParameters p).current.updateParams = _ from hcurrent]
  rfl

variable [FloatOps F]

/-- **Processing with other parameters** returns the same voltage and leaves the same
controller, but for its parameters. -/
theorem processed_withParameters (hP : P.Lawful) (h : Alike c p) (w : W) :
    processed (c.withParameters p) w
      = ((processed c w).1, (processed c w).2.withParameters
          (processed (c.withParameters p) w).2.parameter) := by
  have hlimit : ∀ name, (P.get (p name)).1 = (P.get (c.parameter name)).1 := by
    intro name
    rw [hP.get_fst, hP.get_fst, h.read]
  have hvelocity : (P.get (c.withParameters p).limits.velocity).1 = (P.get c.limits.velocity).1 :=
    hlimit (.limit .velocity)
  have hacceleration : (P.get (c.withParameters p).limits.acceleration).1
      = (P.get c.limits.acceleration).1 := hlimit (.limit .acceleration)
  have hcurrent : (P.get (c.withParameters p).limits.current).1 = (P.get c.limits.current).1 :=
    hlimit (.limit .current)
  have hdecided : velocityDecided (c.withParameters p) w
      = (velocityDecided c w).withParameters
          (positionStart (c.withParameters p)).parameter := by
    unfold velocityDecided
    rw [hvelocity, hacceleration]
    conv_lhs => rw [positionStart_withParameters h]
    rw [positionControl_withParameters, velocityRamp_withParameters]
  have hstart : velocityStart (c.withParameters p) w
      = (velocityStart c w).withParameters (positionStart (c.withParameters p)).parameter := by
    unfold velocityStart
    rw [hdecided]
    rfl
  have hcontrol : velocityControl (velocityStart (c.withParameters p) w) w
      = (velocityControl (velocityStart c w) w).withParameters
          (positionStart (c.withParameters p)).parameter := by
    rw [hstart, velocityControl_withParameters]
  have hend : currentStart (c.withParameters p) w
      = (currentStart c w).withParameters (currentStart (c.withParameters p) w).parameter := by
    unfold currentStart
    rw [hcontrol]
    rfl
  unfold processed
  rw [hcurrent]
  conv_lhs => rw [hend, currentControl_withParameters]
  rfl

theorem params_processed (c : MotorController P Q W) (w : W) (loop : MotorControllerMode) :
    ((processed c w).2.loop loop).params = (c.loop loop).updateParams.params := by
  have heq : ((processed c w).2.loop loop).configuration (fun _ => ())
      = (c.loop loop).updateParams.configuration (fun _ => ()) :=
    processed_configuration (fun _ _ => rfl) c w loop
  exact congrArg Prod.fst heq

theorem read_processed (hP : P.Lawful) (c : MotorController P Q W) (w : W)
    (name : ParameterName) :
    P.read ((processed c w).2.parameter name) = P.read (c.parameter name) := by
  cases name with
  | pid loop name =>
    show P.read (((processed c w).2.loop loop).params.parameter name) = _
    rw [params_processed]
    exact read_parameter_updateParams hP _ name
  | limit name =>
    obtain ⟨hvelocity, hacceleration, hcurrent⟩ := processed_limits c w hP
    cases name with
    | velocity => exact hvelocity
    | current => exact hcurrent
    | acceleration => exact hacceleration

/-- After processing, the next update leaves the filters. -/
theorem pid_updateParams_processed (hP : P.Lawful) (c : MotorController P Q W) (w : W)
    (loop : MotorControllerMode) :
    ((processed c w).2.loop loop).updateParams.pid = ((processed c w).2.loop loop).pid := by
  obtain ⟨hgains, hlimit⟩ := changed_updateParams hP (c.loop loop)
  rw [← params_processed] at hgains hlimit
  exact pid_updateParams_of_not_changed hP _ hgains hlimit

theorem alike_processed (hP : P.Lawful) (h : Alike c p) (w : W) :
    Alike (processed c w).2 (processed (c.withParameters p) w).2.parameter where
  read name := by
    rw [read_processed hP, read_processed hP, parameter_withParameters, h.read]
  update loop := by
    have heq : (processed c w).2.withParameters (processed (c.withParameters p) w).2.parameter
        = (processed (c.withParameters p) w).2 :=
      (congrArg Prod.snd (processed_withParameters hP h w)).symm
    have hpid := pid_withParameters (processed c w).2
      (processed (c.withParameters p) w).2.parameter loop
    rw [heq, pid_updateParams_processed hP, pid_updateParams_processed hP, ← hpid, heq]

omit [FloatOps F] in
theorem setMode_withParameters (mode : MotorControllerMode) (w : W) :
    motorControllerSetMode (c.withParameters p) mode w
      = (motorControllerSetMode c mode w).map (fun c' => c'.withParameters p) := by
  cases mode with
  | current => rfl
  | velocity =>
    by_cases hmode : c.mode < .velocity
    · simp only [motorControllerSetMode,
        if_pos (show (c.withParameters p).mode < .velocity from hmode), if_pos hmode]
      show (c.velocity.callback w).bind _ = ((c.velocity.callback w).bind _).map _
      cases c.velocity.callback w <;> rfl
    · simp only [motorControllerSetMode,
        if_neg (show ¬ (c.withParameters p).mode < .velocity from hmode), if_neg hmode]
      rfl
  | position =>
    by_cases hmode : c.mode < .position
    · simp only [motorControllerSetMode,
        if_pos (show (c.withParameters p).mode < .position from hmode), if_pos hmode]
      show (c.position.callback w).bind _ = ((c.position.callback w).bind _).map _
      cases c.position.callback w with
      | error e => rfl
      | ok x =>
        show (c.velocity.callback w).bind _ = ((c.velocity.callback w).bind _).map _
        cases c.velocity.callback w <;> rfl
    · simp only [motorControllerSetMode,
        if_neg (show ¬ (c.withParameters p).mode < .position from hmode), if_neg hmode]
      rfl

/-- A call other than processing does not depend on the parameters. -/
theorem step_withParameters {call : Call F W} (hcall : ∀ w, call ≠ .process w) :
    (c.withParameters p).step call = (c.step call).map (fun c' => c'.withParameters p) := by
  cases call with
  | setMode mode w => exact setMode_withParameters mode w
  | process w => exact absurd rfl (hcall w)
  | setTarget mode x => cases mode <;> rfl
  | setInput mode get => cases mode <;> rfl

theorem alike_step {c' : MotorController P Q W} {call : Call F W} (h : Alike c p)
    (hcall : ∀ w, call ≠ .process w) (hstep : c.step call = .ok c') : Alike c' p := by
  obtain ⟨hlimits, hloops⟩ := step_parameters hcall hstep
  constructor
  · intro name
    rw [h.read]
    cases name with
    | pid loop name =>
      show _ = P.read ((c'.loop loop).params.parameter name)
      rw [(hloops loop).1]
      rfl
    | limit name =>
      cases name <;> simp only [MotorController.parameter, hlimits]
  · intro loop
    have hupdate := h.update loop
    obtain ⟨hparams, hpid⟩ := hloops loop
    have hsame : ∀ l l' : ControlLoop P Q W, l.params = l'.params → l.pid = l'.pid →
        l.updateParams.pid = l'.updateParams.pid := by
      intro l l' hparams hpid
      show (pidParamUpdate l.params l.pid).2 = (pidParamUpdate l'.params l'.pid).2
      rw [hparams, hpid]
    rw [hsame _ _ hparams hpid, ← hupdate]
    refine hsame _ _ ?_ ?_
    · cases loop <;> rfl
    · rw [pid_withParameters, pid_withParameters, hpid]

/-- **A step from controllers that continue alike**, with any of the calls. -/
theorem step_congr (hP : P.Lawful) (h : Alike c p) (call : Call F W) :
    (∃ e, (c.withParameters p).step call = .error e ∧ c.step call = .error e)
      ∨ ∃ c' p', (c.withParameters p).step call = .ok (c'.withParameters p')
        ∧ c.step call = .ok c' ∧ Alike c' p' := by
  by_cases hcall : ∀ w, call ≠ .process w
  · rw [step_withParameters hcall]
    cases hstep : c.step call with
    | error e => exact Or.inl ⟨e, rfl, rfl⟩
    | ok c' => exact Or.inr ⟨c', p, rfl, rfl, alike_step h hcall hstep⟩
  · rw [not_forall] at hcall
    obtain ⟨w, hw⟩ := hcall
    rw [not_not.mp hw]
    by_cases hfull : intMax ≤ c.position.dividerCounter ∨ intMax ≤ c.velocity.dividerCounter
    · exact Or.inl ⟨_,
        congrArg (Except.map Prod.snd) (motorControllerProcess_overflow (c := c.withParameters p)
          w hfull),
        congrArg (Except.map Prod.snd) (motorControllerProcess_overflow w hfull)⟩
    · rw [not_or, not_le, not_le] at hfull
      have hother := step_process_of_lt (c := c.withParameters p) w hfull.1 hfull.2
      rw [processed_withParameters hP h] at hother
      exact Or.inr ⟨_, _, hother, step_process_of_lt w hfull.1 hfull.2, alike_processed hP h w⟩

end Processed

/-! ## What saving disturbs -/

/-- What is observed of a filter. -/
def PidFields.shown (fields : PidFields Q) (ctrl : Q.Ctrl) : (F × F × F) × F × F :=
  (fields.gains ctrl, fields.integralLimit ctrl, fields.integral ctrl)

/-- What is observed of the filters of a controller. -/
def MotorController.shown (fields : PidFields Q) (c : MotorController P Q W) :
    MotorControllerMode → (F × F × F) × F × F :=
  fun loop => fields.shown (c.loop loop).pid

/-- **The second controller goes on as the first one**: the filters show the same
whatever is called from here on, and also within the next call, where the changed
parameters have just been passed to them. -/
def Undisturbed [FloatOps F] (fields : PidFields Q) (c c' : MotorController P Q W) : Prop :=
  (∀ loop, fields.shown (c'.loop loop).updateParams.pid
      = fields.shown (c.loop loop).updateParams.pid)
    ∧ ∀ calls : List (Call F W),
      (run MotorController.step c' calls).map (MotorController.shown fields)
        = (run MotorController.step c calls).map (MotorController.shown fields)

/-- A gain of the loop is among the parameters. -/
def GainNamed (loop : MotorControllerMode) (names : List ParameterName) : Prop :=
  .pid loop .kp ∈ names ∨ .pid loop .ki ∈ names ∨ .pid loop .kd ∈ names

/-- **Passing the parameters to the filter of a loop changes nothing**: the filter has
them, and nothing is accumulated. -/
def Settled [Zero F] (fields : PidFields Q) (l : ControlLoop P Q W) : Prop :=
  fields.gains l.pid = l.params.gains ∧ fields.integral l.pid = 0

/-- The controllers that saving the given parameters does not disturb. -/
def SafeToSave [Zero F] (fields : PidFields Q) (c : MotorController P Q W)
    (names : List ParameterName) : Prop :=
  ∀ loop, (GainNamed loop names → Settled fields (c.loop loop))
    ∧ (.pid loop .iLimit ∈ names →
      fields.integralLimit (c.loop loop).pid = P.read (c.loop loop).params.iLimit)

section Saved

variable {c : MotorController P Q W} {fields : PidFields Q}

theorem gainsChanged_parameter (c : MotorController P Q W) (loop : MotorControllerMode) :
    (c.loop loop).params.gainsChanged = (P.changed (c.parameter (.pid loop .kp))
      || P.changed (c.parameter (.pid loop .ki)) || P.changed (c.parameter (.pid loop .kd))) := rfl

theorem gains_eq_of_read {c c' : MotorController P Q W}
    (h : ∀ name, P.read (c'.parameter name) = P.read (c.parameter name))
    (loop : MotorControllerMode) :
    (c'.loop loop).params.gains = (c.loop loop).params.gains := by
  show (P.read (c'.parameter (.pid loop .kp)), P.read (c'.parameter (.pid loop .ki)),
    P.read (c'.parameter (.pid loop .kd))) = _
  rw [h, h, h]
  rfl

/-- **What saving leaves** if nothing was left to apply before: the same values, and the
flags of what was saved. -/
theorem configSave_eq (hP : P.Lawful) (hclear : ∀ name, P.changed (c.parameter name) = false)
    (names : List ParameterName) :
    ∃ q, c.configSave names = c.withParameters q
      ∧ (∀ name, P.read (q name) = P.read (c.parameter name))
      ∧ ∀ loop, (((c.configSave names).loop loop).params.gainsChanged = true
          ↔ GainNamed loop names)
        ∧ (P.changed ((c.configSave names).loop loop).params.iLimit = true
          ↔ .pid loop .iLimit ∈ names) := by
  obtain ⟨q, hq, hread, hflag⟩ := assign_eq hP c names c.parameter (fun _ => rfl)
  have heq : c.configSave names = c.withParameters q := hq
  have hchanged : ∀ name, P.changed ((c.configSave names).parameter name)
      = decide (name ∈ names) := by
    intro name
    rw [heq, parameter_withParameters, hflag, hclear, Bool.or_false]
  refine ⟨q, heq, hread, fun loop => ⟨?_, ?_⟩⟩
  · rw [gainsChanged_parameter, hchanged, hchanged, hchanged]
    simp [GainNamed, or_assoc]
  · have hlimit := hchanged (.pid loop .iLimit)
    rw [show P.changed ((c.configSave names).loop loop).params.iLimit = _ from hlimit]
    simp

theorem updateParams_of_clear (hP : P.Lawful)
    (hclear : ∀ name, P.changed (c.parameter name) = false) (loop : MotorControllerMode) :
    (c.loop loop).updateParams.pid = (c.loop loop).pid := by
  refine pid_updateParams_of_not_changed hP _ ?_ (hclear (.pid loop .iLimit))
  rw [gainsChanged_parameter, hclear, hclear, hclear]
  rfl

variable [Zero F]

/-- What is observed of a filter after the update of its loop. -/
theorem shown_updateParams (hP : P.Lawful) (hF : fields.Lawful) (l : ControlLoop P Q W) :
    fields.shown l.updateParams.pid
      = (if l.params.gainsChanged then l.params.gains else fields.gains l.pid,
          if P.changed l.params.iLimit then P.read l.params.iLimit
            else fields.integralLimit l.pid,
          if l.params.gainsChanged then 0 else fields.integral l.pid) := by
  have hupdated : fields.shown l.gainsUpdated
      = (if l.params.gainsChanged then l.params.gains else fields.gains l.pid,
          fields.integralLimit l.pid,
          if l.params.gainsChanged then 0 else fields.integral l.pid) := by
    unfold ControlLoop.gainsUpdated
    split
    · unfold PidFields.shown
      rw [hF.gains_resetIntegral, hF.gains_setGains, hF.integralLimit_resetIntegral,
        hF.integralLimit_setGains, hF.integral_resetIntegral]
      rfl
    · rfl
  rw [pid_updateParams hP]
  obtain ⟨hgains, hrest⟩ := Prod.mk.inj hupdated
  obtain ⟨hlimit, hintegral⟩ := Prod.mk.inj hrest
  split
  · unfold PidFields.shown
    rw [hF.gains_setIntegralLimit, hF.integralLimit_setIntegralLimit,
      hF.integral_setIntegralLimit, hgains, hintegral]
  · exact hupdated

/-- **The update leaves a filter that has what is passed to it.** -/
theorem updateParams_of_settled (hP : P.Lawful) (hF : fields.Lawful) {l : ControlLoop P Q W}
    (hgains : l.params.gainsChanged = true → Settled fields l)
    (hlimit : P.changed l.params.iLimit = true
      → fields.integralLimit l.pid = P.read l.params.iLimit) :
    l.updateParams.pid = l.pid := by
  have hupdated : l.gainsUpdated = l.pid := by
    unfold ControlLoop.gainsUpdated
    split
    · rename_i hchanged
      obtain ⟨hsame, hintegral⟩ := hgains hchanged
      have hset := hF.setGains_self l.pid
      rw [hsame] at hset
      rw [show Q.setGains l.pid (P.read l.params.kp) (P.read l.params.ki)
        (P.read l.params.kd) = l.pid from hset, hF.resetIntegral_self _ hintegral]
    · rfl
  rw [pid_updateParams hP, hupdated]
  split
  · rename_i hchanged
    rw [← hlimit hchanged, hF.setIntegralLimit_self]
  · rfl

end Saved

section

variable [FloatOps F] {c : MotorController P Q W} {fields : PidFields Q}
  {names : List ParameterName}

/-- Saving what the filters have disturbs nothing. -/
theorem undisturbed_of_safeToSave (hP : P.Lawful) (hF : fields.Lawful)
    (hclear : ∀ name, P.changed (c.parameter name) = false) (h : SafeToSave fields c names) :
    Undisturbed fields c (c.configSave names) := by
  obtain ⟨q, hq, hread, hflags⟩ := configSave_eq hP hclear names
  have halike : Alike c q := by
    refine ⟨hread, fun loop => ?_⟩
    have hpid := pid_withParameters c q loop
    have hsame : ∀ name, P.read ((c.withParameters q).parameter name)
        = P.read (c.parameter name) := by
      intro name
      rw [parameter_withParameters, hread]
    have hgains := gains_eq_of_read hsame loop
    have hlimit : P.read ((c.withParameters q).loop loop).params.iLimit
        = P.read (c.loop loop).params.iLimit := hsame (.pid loop .iLimit)
    rw [updateParams_of_clear hP hclear, ← hpid]
    rw [hq] at hflags
    refine updateParams_of_settled hP hF (fun hchanged => ?_) (fun hchanged => ?_)
    · unfold Settled
      rw [hpid, hgains]
      exact (h loop).1 ((hflags loop).1.mp hchanged)
    · rw [hpid, hlimit]
      exact (h loop).2 ((hflags loop).2.mp hchanged)
  rw [hq]
  refine ⟨fun loop => by rw [halike.update loop], fun calls => ?_⟩
  refine run_map_congr (R := fun c' c => ∃ p, c' = c.withParameters p ∧ Alike c p) ?_ ?_
    ⟨q, rfl, halike⟩ calls
  · rintro _ c ⟨p, rfl, -⟩
    funext loop
    exact congrArg fields.shown (pid_withParameters c p loop)
  · rintro _ c call ⟨p, rfl, h⟩
    obtain ⟨e, hfirst, hsecond⟩ | ⟨c', p', hfirst, hsecond, h'⟩ := step_congr hP h call
    · exact Or.inl ⟨e, hfirst, hsecond⟩
    · exact Or.inr ⟨_, c', hfirst, hsecond, p', rfl, h'⟩

/-- If saving disturbs nothing, the filters had what was saved. -/
theorem safeToSave_of_undisturbed (hP : P.Lawful) (hF : fields.Lawful)
    (hclear : ∀ name, P.changed (c.parameter name) = false)
    (h : Undisturbed fields c (c.configSave names)) : SafeToSave fields c names := by
  obtain ⟨q, hq, hread, hflags⟩ := configSave_eq hP hclear names
  intro loop
  have hshown := h.1 loop
  have hpid := pid_withParameters c q loop
  rw [← hq] at hpid
  rw [shown_updateParams hP hF, updateParams_of_clear hP hclear, hpid] at hshown
  obtain ⟨hgains, hrest⟩ := Prod.mk.inj hshown
  obtain ⟨hlimit, hintegral⟩ := Prod.mk.inj hrest
  have hvalue : ∀ name, P.read ((c.configSave names).parameter name)
      = P.read (c.parameter name) := by
    intro name
    rw [hq, parameter_withParameters, hread]
  constructor
  · intro hnamed
    rw [if_pos ((hflags loop).1.mpr hnamed)] at hgains hintegral
    exact ⟨hgains.symm.trans (gains_eq_of_read hvalue loop), hintegral.symm⟩
  · intro hnamed
    rw [if_pos ((hflags loop).2.mpr hnamed)] at hlimit
    exact hlimit.symm.trans (hvalue (.pid loop .iLimit))

/-- **Saving disturbs no filter exactly if** the filters of the saved loops have the
gains and limits that are saved, and nothing is accumulated in those whose gains are. -/
theorem config_save_undisturbed_iff (hP : P.Lawful) (hF : fields.Lawful)
    (c : MotorController P Q W) (names : List ParameterName)
    (hclear : ∀ name, P.changed (c.parameter name) = false) :
    Undisturbed fields c (c.configSave names) ↔ SafeToSave fields c names :=
  ⟨safeToSave_of_undisturbed hP hF hclear, undisturbed_of_safeToSave hP hF hclear⟩

end

end

/-! ## A controller in exact arithmetic -/

/-- A filter as the PID library computes it. -/
structure DiscretePid where
  gains : ℚ × ℚ × ℚ
  integratorLimit : ℚ
  integrator : ℚ
  previousError : ℚ
  frequency : ℚ

/-- The PID library in exact arithmetic. -/
def discretePid (infinity : ℚ) : PidLib ℚ where
  Ctrl := DiscretePid
  init := ⟨(1, 0, 0), infinity, 0, 0, 1⟩
  setGains c kp ki kd := { c with gains := (kp, ki, kd) }
  setIntegralLimit c limit := { c with integratorLimit := limit }
  resetIntegral c := { c with integrator := 0 }
  setFrequency c f := { c with frequency := f }
  frequency c := c.frequency
  process c e :=
    let integrator := max (-c.integratorLimit) (min (c.integrator + e) c.integratorLimit)
    (-c.gains.1 * e - c.gains.2.1 * (integrator / c.frequency)
        - c.gains.2.2 * ((e - c.previousError) * c.frequency),
      { c with integrator := integrator, previousError := e })

def discretePidFields (infinity : ℚ) : PidFields (discretePid infinity) where
  gains c := c.gains
  integralLimit c := c.integratorLimit
  integral c := c.integrator

theorem lawful_discretePidFields (infinity : ℚ) : (discretePidFields infinity).Lawful where
  gains_setGains _ _ _ _ := rfl
  integralLimit_setGains _ _ _ _ := rfl
  gains_setIntegralLimit _ _ := rfl
  integralLimit_setIntegralLimit _ _ := rfl
  integral_setIntegralLimit _ _ := rfl
  gains_resetIntegral _ := rfl
  integralLimit_resetIntegral _ := rfl
  integral_resetIntegral _ := rfl
  setGains_self _ := rfl
  setIntegralLimit_self _ := rfl
  resetIntegral_self c h := by
    show ({ c with integrator := 0 } : DiscretePid) = c
    rw [← show c.integrator = 0 from h]
    rfl

/-- A controller whose current loop has a gain `ki` and has integrated an error once. -/
def integrating (error : ℚ) : MotorController flagParameters (discretePid 10) Unit :=
  let c := motorControllerInit 10
  (processed (MotorController.modifyParameter
    { c with current := { c.current with get := some (fun _ => error) } }
    (fun p => flagParameters.set p 1) (.pid .current .ki)) ()).2

theorem changed_integrating (error : ℚ) (name : ParameterName) :
    flagParameters.changed ((integrating error).parameter name) = false := by
  cases name with
  | pid loop name => cases loop <;> cases name <;> rfl
  | limit name => cases name <;> rfl

/-- Without an error, saving the current loop disturbs nothing. -/
theorem config_save_undisturbed_zero :
    Undisturbed (discretePidFields 10) (integrating 0)
      ((integrating 0).configSave
        [.pid .current .kp, .pid .current .ki, .pid .current .kd, .pid .current .iLimit]) :=
  (config_save_undisturbed_iff lawful_flagParameters (lawful_discretePidFields 10) (integrating 0)
    [.pid .current .kp, .pid .current .ki, .pid .current .kd, .pid .current .iLimit]
    (changed_integrating 0)).mpr (by
      intro loop
      cases loop with
      | current =>
        exact ⟨fun _ => ⟨by decide +kernel, by decide +kernel⟩, fun _ => by decide +kernel⟩
      | velocity => exact ⟨fun h => by simp [GainNamed] at h, fun h => by simp at h⟩
      | position => exact ⟨fun h => by simp [GainNamed] at h, fun h => by simp at h⟩)

/-- With an error, saving the current loop resets what it has integrated. -/
theorem not_config_save_undisturbed :
    ¬ ∀ (c : MotorController flagParameters (discretePid 10) Unit) (names : List ParameterName),
      (∀ name, flagParameters.changed (c.parameter name) = false) →
      Undisturbed (discretePidFields 10) c (c.configSave names) := by
  intro h
  have hsafe := safeToSave_of_undisturbed lawful_flagParameters (lawful_discretePidFields 10)
    (changed_integrating 1) (h (integrating 1) [.pid .current .ki] (changed_integrating 1))
  have hintegral : (discretePidFields 10).integral ((integrating 1).loop .current).pid = 0 :=
    ((hsafe .current).1 (Or.inr (Or.inl (List.mem_singleton.mpr rfl)))).2
  exact absurd hintegral (by decide +kernel)

end MotorControl
