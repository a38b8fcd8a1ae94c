import EpuckFirmware.MotorControllerSetpoints

/-!
# What the controller does to its parameters and filters

At the start of every call the controller takes the parameters that were changed to
its filters. After that its blocks leave the parameters alone, and of a filter they
change only what `pid_process` changes.

The parameters can be reached by name from other threads: a `ParameterName` stands for
the path of a parameter of one controller.
-/

namespace MotorControl

/-- The members of `struct pid_param_s`. -/
inductive PidParamName
  | kp
  | ki
  | kd
  | iLimit
  deriving DecidableEq

/-- The members that are parameters of `struct limits`. -/
inductive LimitName
  | velocity
  | current
  | acceleration
  deriving DecidableEq

/-- A parameter of a controller. -/
inductive ParameterName
  /-- `control/<loop>/<name>`. -/
  | pid (loop : MotorControllerMode) (name : PidParamName)
  /-- `control/limits/<name>`. -/
  | limit (name : LimitName)
  deriving DecidableEq

section

variable {F : Type} {P : ParameterLib F} {Q : PidLib F} {W : Type}

def PidParam.parameter (p : PidParam P) : PidParamName → P.Parameter
  | .kp => p.kp
  | .ki => p.ki
  | .kd => p.kd
  | .iLimit => p.iLimit

def PidParam.modify (p : PidParam P) (f : P.Parameter → P.Parameter) :
    PidParamName → PidParam P
  | .kp => { p with kp := f p.kp }
  | .ki => { p with ki := f p.ki }
  | .kd => { p with kd := f p.kd }
  | .iLimit => { p with iLimit := f p.iLimit }

def Limits.modify (l : Limits P) (f : P.Parameter → P.Parameter) : LimitName → Limits P
  | .velocity => { l with velocity := f l.velocity }
  | .current => { l with current := f l.current }
  | .acceleration => { l with acceleration := f l.acceleration }

/-- An access to a parameter, found by its name. -/
def MotorController.modifyParameter (c : MotorController P Q W)
    (f : P.Parameter → P.Parameter) : ParameterName → MotorController P Q W
  | .pid loop name =>
    c.modifyLoop loop (fun l => { l with params := l.params.modify f name })
  | .limit name => { c with limits := c.limits.modify f name }

/-- The three gains. -/
def PidParam.gains (p : PidParam P) : F × F × F := (P.read p.kp, P.read p.ki, P.read p.kd)

/-- One of the gains was changed. -/
def PidParam.gainsChanged (p : PidParam P) : Bool :=
  P.changed p.kp || P.changed p.ki || P.changed p.kd

/-- The filter after the update of its gains. -/
def ControlLoop.gainsUpdated (l : ControlLoop P Q W) : Q.Ctrl :=
  if l.params.gainsChanged then
    Q.resetIntegral (Q.setGains l.pid (P.read l.params.kp) (P.read l.params.ki)
      (P.read l.params.kd))
  else l.pid

/-! ## The update of a loop -/

section Update

variable (hP : P.Lawful) (l : ControlLoop P Q W)

include hP

/-- The update of a loop changes no value of a parameter. -/
theorem read_updateParams :
    l.updateParams.params.gains = l.params.gains
      ∧ P.read l.updateParams.params.iLimit = P.read l.params.iLimit := by
  unfold ControlLoop.updateParams pidParamUpdate PidParam.gains
  split <;> dsimp only <;> split <;> simp only [hP.read_get, and_self]

theorem read_parameter_updateParams (name : PidParamName) :
    P.read (l.updateParams.params.parameter name) = P.read (l.params.parameter name) := by
  obtain ⟨hgains, hlimit⟩ := read_updateParams hP l
  cases name with
  | kp => exact congrArg (fun g => g.1) hgains
  | ki => exact congrArg (fun g => g.2.1) hgains
  | kd => exact congrArg (fun g => g.2.2) hgains
  | iLimit => exact hlimit

/-- After the update no parameter of the loop counts as changed. -/
theorem changed_updateParams :
    l.updateParams.params.gainsChanged = false
      ∧ P.changed l.updateParams.params.iLimit = false := by
  unfold ControlLoop.updateParams pidParamUpdate PidParam.gainsChanged
  split
  · dsimp only
    split
    · simp only [hP.changed_get, Bool.or_self, and_self]
    · rename_i hlimit
      simp only [hP.changed_get, Bool.or_self, true_and]
      exact Bool.not_eq_true _ ▸ hlimit
  · rename_i hgains
    dsimp only
    split
    · refine ⟨Bool.not_eq_true _ ▸ hgains, hP.changed_get _⟩
    · rename_i hlimit
      exact ⟨Bool.not_eq_true _ ▸ hgains, Bool.not_eq_true _ ▸ hlimit⟩

/-- **The filter after the update.** -/
theorem pid_updateParams :
    l.updateParams.pid
      = if P.changed l.params.iLimit then
          Q.setIntegralLimit l.gainsUpdated (P.read l.params.iLimit)
        else l.gainsUpdated := by
  unfold ControlLoop.updateParams pidParamUpdate ControlLoop.gainsUpdated PidParam.gainsChanged
  split
  · dsimp only
    split <;> simp only [hP.get_fst]
  · dsimp only
    split
    · simp only [hP.get_fst]
    · rfl

/-- Updating again leaves the filter. -/
theorem pid_updateParams_of_not_changed (hgains : l.params.gainsChanged = false)
    (hlimit : P.changed l.params.iLimit = false) : l.updateParams.pid = l.pid := by
  rw [pid_updateParams hP, hlimit, ControlLoop.gainsUpdated, hgains]
  rfl

end Update

/-! ## The blocks -/

/-- The parameters of a loop, and what can be observed of its filter. -/
def ControlLoop.configuration {β : Type} (observe : Q.Ctrl → β) (l : ControlLoop P Q W) :
    PidParam P × β :=
  (l.params, observe l.pid)

section Processed

variable [FloatOps F] {β : Type} {observe : Q.Ctrl → β}
  (h : ∀ ctrl e, observe (Q.process ctrl e).2 = observe ctrl)
  (c : MotorController P Q W) (w : W) (loop : MotorControllerMode)

include h

theorem positionControl_configuration (maxVelocity maxAcceleration : F) :
    ((positionControl c maxVelocity maxAcceleration w).loop loop).configuration observe
      = (c.loop loop).configuration observe := by
  unfold positionControl
  split
  · cases loop with
    | current => rfl
    | velocity => rfl
    | position => exact congrArg (Prod.mk c.position.params) (h _ _)
  · rfl

theorem velocityControl_configuration :
    ((velocityControl c w).loop loop).configuration observe
      = (c.loop loop).configuration observe := by
  unfold velocityControl
  split
  · cases loop with
    | current => rfl
    | velocity => exact congrArg (Prod.mk c.velocity.params) (h _ _)
    | position => rfl
  · rfl

theorem currentControl_configuration (maxCurrent : F) :
    ((currentControl c maxCurrent w).2.loop loop).configuration observe
      = (c.loop loop).configuration observe := by
  cases loop with
  | current => exact congrArg (Prod.mk c.current.params) (h _ _)
  | velocity => rfl
  | position => rfl

omit h in
theorem velocityRamp_configuration (maxVelocity maxAcceleration : F) :
    ((velocityRamp c maxVelocity maxAcceleration).loop loop).configuration observe
      = (c.loop loop).configuration observe := by
  unfold velocityRamp
  split
  · cases loop <;> rfl
  · rfl

/-- **Processing only updates the parameters**, and changes of a filter besides that
only what `pid_process` changes. -/
theorem processed_configuration :
    ((processed c w).2.loop loop).configuration observe
      = (c.loop loop).updateParams.configuration observe := by
  have hstart : ((positionStart c).loop loop).configuration observe
      = (c.loop loop).updateParams.configuration observe := by
    cases loop <;> rfl
  have hdecided : ((velocityStart c w).loop loop).configuration observe
      = ((velocityDecided c w).loop loop).configuration observe := by
    cases loop <;> rfl
  have hcurrent : ((currentStart c w).loop loop).configuration observe
      = ((velocityControl (velocityStart c w) w).loop loop).configuration observe := by
    cases loop <;> rfl
  rw [processed, currentControl_configuration h, hcurrent, velocityControl_configuration h,
    hdecided, velocityDecided, velocityRamp_configuration, positionControl_configuration h,
    hstart]

end Processed

/-- A call other than processing leaves the parameters and the filters alone. -/
theorem step_parameters [FloatOps F] {c c' : MotorController P Q W} {call : Call F W}
    (hcall : ∀ w, call ≠ .process w) (hstep : c.step call = .ok c') :
    c'.limits = c.limits
      ∧ ∀ loop, (c'.loop loop).params = (c.loop loop).params
        ∧ (c'.loop loop).pid = (c.loop loop).pid := by
  cases call with
  | setMode mode w =>
    have hset : motorControllerSetMode c mode w = .ok c' := hstep
    obtain ⟨_, _, _, rfl, -⟩ := motorControllerSetMode_eq_ok hset
    exact ⟨rfl, fun loop => by cases loop <;> exact ⟨rfl, rfl⟩⟩
  | process w => exact absurd rfl (hcall w)
  | setTarget mode x =>
    cases hstep
    refine ⟨by cases mode <;> rfl, fun loop => ?_⟩
    cases mode <;> cases loop <;> exact ⟨rfl, rfl⟩
  | setInput mode get =>
    cases hstep
    refine ⟨by cases mode <;> rfl, fun loop => ?_⟩
    cases mode <;> cases loop <;> exact ⟨rfl, rfl⟩

end

end MotorControl
