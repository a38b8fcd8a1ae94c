import EpuckFirmware.History
import EpuckFirmware.MotorControllerGains

/-!
# Who accesses the parameters of a controller

Besides the controller itself, the shell and the virtual machine read and write its
parameters. Listing the tree reads with `parameter_scalar_get`, which clears the flag
that a parameter was changed, and the next call of the controller then does not notice
the change. All other accesses keep the invariant that what was last passed to a filter
is current or flagged.

What was passed to the filters is recorded beside them: the results hold for every PID
library.
-/

namespace MotorControl

open StepMachine History

/-- A PID library that remembers what was last passed to `pid_set_gains` and to
`pid_set_integral_limit`. -/
def recordingPid {F : Type} (Q : PidLib F) : PidLib F where
  Ctrl := Q.Ctrl × Option (F × F × F) × Option F
  init := (Q.init, none, none)
  setGains c kp ki kd := (Q.setGains c.1 kp ki kd, some (kp, ki, kd), c.2.2)
  setIntegralLimit c limit := (Q.setIntegralLimit c.1 limit, c.2.1, some limit)
  resetIntegral c := (Q.resetIntegral c.1, c.2)
  setFrequency c f := (Q.setFrequency c.1 f, c.2)
  frequency c := Q.frequency c.1
  process c e := ((Q.process c.1 e).1, ((Q.process c.1 e).2, c.2))

section

variable {F : Type} [FloatOps F] {P : ParameterLib F} {Q : PidLib F} {W : Type}

/-- What happens to a controller. -/
inductive Access (F W : Type)
  /-- A call of the thread that runs the controller. -/
  | call (call : Call F W)
  /-- `cmd_config_set`, for a parameter of the controller. -/
  | configSet (name : ParameterName) (value : F)
  /-- A parameter of the controller that `show_config_tree` lists. -/
  | configTree (name : ParameterName)
  /-- `READ_PARAM_TO_VM`. -/
  | vmRead (name : ParameterName)
  /-- `WRITE_PARAM_FROM_VM`, for a variable that was changed. -/
  | vmWrite (name : ParameterName) (value : F)

/-- An access. -/
def MotorController.access (c : MotorController P Q W) :
    Access F W → Except Fault (MotorController P Q W)
  | .call call => c.step call
  | .configSet name value => .ok (c.modifyParameter (fun p => P.set p value) name)
  | .configTree name => .ok (c.modifyParameter (fun p => (P.get p).2) name)
  | .vmRead _ => .ok c
  | .vmWrite name value => .ok (c.modifyParameter (fun p => P.set p value) name)

/-- The parameters that an access changes. -/
def changes (_ : MotorController P Q W) : Access F W → List ParameterName
  | .configSet name _ => [name]
  | .vmWrite name _ => [name]
  | _ => []

/-- One of the gains of a loop was changed. -/
def GainChanged (loop : MotorControllerMode) (h : List ParameterName) : Prop :=
  .pid loop .kp ∈ h ∨ .pid loop .ki ∈ h ∨ .pid loop .kd ∈ h

/-- The integral limit of a loop was changed. -/
def LimitChanged (loop : MotorControllerMode) (h : List ParameterName) : Prop :=
  .pid loop .iLimit ∈ h

/-- What was last passed is current, unless nothing was ever changed or passed. -/
def Applied {α : Type} (passed : Option α) (current : α) (changed : Prop) : Prop :=
  passed = some current ∨ passed = none ∧ ¬ changed

/-- The gains last passed to the filter of a loop. -/
def ControlLoop.passedGains (l : ControlLoop P (recordingPid Q) W) : Option (F × F × F) := l.pid.2.1

/-- The integral limit last passed to the filter of a loop. -/
def ControlLoop.passedLimit (l : ControlLoop P (recordingPid Q) W) : Option F := l.pid.2.2

/-- The filter of a loop has the current gains. -/
def GainsApplied (l : ControlLoop P (recordingPid Q) W) (changed : Prop) : Prop :=
  Applied l.passedGains l.params.gains changed

/-- The filter of a loop has the current integral limit. -/
def LimitApplied (l : ControlLoop P (recordingPid Q) W) (changed : Prop) : Prop :=
  Applied l.passedLimit (P.read l.params.iLimit) changed

/-- **The filters have the current parameters.** -/
def ParametersApplied (s : MotorController P (recordingPid Q) W × List ParameterName) : Prop :=
  ∀ loop, GainsApplied (s.1.loop loop) (GainChanged loop s.2)
    ∧ LimitApplied (s.1.loop loop) (LimitChanged loop s.2)

/-- **The invariant**: what was last passed to a filter is current, or a change is
flagged. -/
def Noticed (s : MotorController P (recordingPid Q) W × List ParameterName) : Prop :=
  ∀ loop, ((s.1.loop loop).params.gainsChanged = true
      ∨ GainsApplied (s.1.loop loop) (GainChanged loop s.2))
    ∧ (P.changed (s.1.loop loop).params.iLimit = true
      ∨ LimitApplied (s.1.loop loop) (LimitChanged loop s.2))

/-- A gain other than the given one was changed. -/
def PidParam.otherGainChanged (p : PidParam P) : PidParamName → Bool
  | .kp => P.changed p.ki || P.changed p.kd
  | .ki => P.changed p.kp || P.changed p.kd
  | .kd => P.changed p.kp || P.changed p.ki
  | .iLimit => false

/-- The filter has the current value of what the parameter belongs to. -/
def AppliedFor (l : ControlLoop P (recordingPid Q) W) (loop : MotorControllerMode)
    (h : List ParameterName) : PidParamName → Prop
  | .iLimit => LimitApplied l (LimitChanged loop h)
  | _ => GainsApplied l (GainChanged loop h)

/-- **The accesses that lose no change**: all but listing a parameter whose flag is the
last one for a change that was not applied yet. -/
def KeepsNotice (s : MotorController P (recordingPid Q) W × List ParameterName) :
    Access F W → Prop
  | .configTree (.pid loop name) =>
    P.changed ((s.1.loop loop).params.parameter name) = false
      ∨ (s.1.loop loop).params.otherGainChanged name = true
      ∨ AppliedFor (s.1.loop loop) loop s.2 name
  | _ => True

/-! ## The update of a loop -/

section Update

variable (hP : P.Lawful) (l : ControlLoop P (recordingPid Q) W)

include hP

omit [FloatOps F] in
theorem passed_updateParams :
    l.updateParams.passedGains
        = (if l.params.gainsChanged then some l.params.gains else l.passedGains)
      ∧ l.updateParams.passedLimit
        = (if P.changed l.params.iLimit then some (P.read l.params.iLimit)
            else l.passedLimit) := by
  have hgains : l.gainsUpdated.2
      = (if l.params.gainsChanged then some l.params.gains else l.passedGains, l.passedLimit) := by
    unfold ControlLoop.gainsUpdated
    split <;> rfl
  have hfst := congrArg Prod.fst hgains
  have hsnd := congrArg Prod.snd hgains
  unfold ControlLoop.passedGains ControlLoop.passedLimit
  rw [pid_updateParams hP]
  split
  · exact ⟨hfst, rfl⟩
  · exact ⟨hfst, hsnd⟩

omit [FloatOps F] in
/-- **The update applies what was noticed.** -/
theorem applied_updateParams {gainChanged limitChanged : Prop}
    (hgains : l.params.gainsChanged = true ∨ GainsApplied l gainChanged)
    (hlimit : P.changed l.params.iLimit = true ∨ LimitApplied l limitChanged) :
    GainsApplied l.updateParams gainChanged ∧ LimitApplied l.updateParams limitChanged := by
  unfold GainsApplied LimitApplied
  rw [(passed_updateParams hP l).1, (passed_updateParams hP l).2, (read_updateParams hP l).1,
    (read_updateParams hP l).2]
  constructor
  · by_cases hflag : l.params.gainsChanged = true
    · rw [if_pos hflag]
      exact Or.inl rfl
    · rw [if_neg hflag]
      exact hgains.resolve_left hflag
  · by_cases hflag : P.changed l.params.iLimit = true
    · rw [if_pos hflag]
      exact Or.inl rfl
    · rw [if_neg hflag]
      exact hlimit.resolve_left hflag

end Update

/-! ## The steps -/

/-- The configuration that the invariant is about. -/
abbrev ControlLoop.recorded (l : ControlLoop P (recordingPid Q) W) :
    PidParam P × (Option (F × F × F) × Option F) :=
  l.configuration Prod.snd

omit [FloatOps F] in
theorem eq_of_recorded {l l' : ControlLoop P (recordingPid Q) W} (h : l.recorded = l'.recorded) :
    l.params = l'.params ∧ l.passedGains = l'.passedGains ∧ l.passedLimit = l'.passedLimit := by
  obtain ⟨hparams, hpassed⟩ := Prod.mk.inj h
  exact ⟨hparams, congrArg (fun r => r.1) hpassed, congrArg (fun r => r.2) hpassed⟩

omit [FloatOps F] in
/-- The invariant is about parameters, and about what was last passed. -/
theorem noticed_congr {c c' : MotorController P (recordingPid Q) W} {h : List ParameterName}
    (heq : ∀ loop, (c'.loop loop).recorded = (c.loop loop).recorded) (hs : Noticed (c, h)) :
    Noticed (c', h) := by
  intro loop
  obtain ⟨hparams, hgains, hlimit⟩ := eq_of_recorded (heq loop)
  simp only [GainsApplied, LimitApplied, hparams, hgains, hlimit]
  exact hs loop

/-- **After processing, the filters have the current parameters**, if the changes were
noticed. -/
theorem applied_process (hP : P.Lawful) {c : MotorController P (recordingPid Q) W}
    {h : List ParameterName} (hs : Noticed (c, h)) (w : W) :
    ParametersApplied ((processed c w).2, h) := by
  intro loop
  have heq : ((processed c w).2.loop loop).recorded = (c.loop loop).updateParams.recorded :=
    processed_configuration (fun _ _ => rfl) c w loop
  obtain ⟨hparams, hgains, hlimit⟩ := eq_of_recorded heq
  simp only [GainsApplied, LimitApplied, hparams, hgains, hlimit]
  exact applied_updateParams hP (c.loop loop) (hs loop).1 (hs loop).2

/-! ## Accesses by name -/

section Names

omit [FloatOps F]

theorem loop_modifyParameter_limit (c : MotorController P Q W) (f : P.Parameter → P.Parameter)
    (name : LimitName) (loop : MotorControllerMode) :
    (c.modifyParameter f (.limit name)).loop loop = c.loop loop := by
  cases loop <;> rfl

theorem loop_modifyParameter_self (c : MotorController P Q W) (f : P.Parameter → P.Parameter)
    (name : PidParamName) (loop : MotorControllerMode) :
    (c.modifyParameter f (.pid loop name)).loop loop
      = { c.loop loop with params := (c.loop loop).params.modify f name } := by
  cases loop <;> rfl

theorem loop_modifyParameter_of_ne (c : MotorController P Q W) (f : P.Parameter → P.Parameter)
    (name : PidParamName) {loop loop' : MotorControllerMode} (h : loop ≠ loop') :
    (c.modifyParameter f (.pid loop name)).loop loop' = c.loop loop' := by
  cases loop <;> cases loop' <;> first | exact absurd rfl h | rfl

theorem gainsChanged_eq {name : PidParamName} (h : name ≠ .iLimit) (p : PidParam P) :
    p.gainsChanged = (P.changed (p.parameter name) || p.otherGainChanged name) := by
  unfold PidParam.gainsChanged PidParam.otherGainChanged
  cases name with
  | kp => exact Bool.or_assoc _ _ _
  | ki =>
    show _ = (P.changed p.ki || (P.changed p.kp || P.changed p.kd))
    rw [Bool.or_comm (P.changed p.kp), Bool.or_assoc]
  | kd => exact Bool.or_comm _ _
  | iLimit => exact absurd rfl h

variable (hP : P.Lawful)

include hP

/-- Writing a gain flags a change of the gains. -/
theorem gainsChanged_modify_set {name : PidParamName} (h : name ≠ .iLimit) (p : PidParam P)
    (value : F) : (p.modify (fun p => P.set p value) name).gainsChanged = true := by
  rw [gainsChanged_eq h]
  cases name with
  | kp => simp [PidParam.modify, PidParam.parameter, hP.changed_set]
  | ki => simp [PidParam.modify, PidParam.parameter, hP.changed_set]
  | kd => simp [PidParam.modify, PidParam.parameter, hP.changed_set]
  | iLimit => exact absurd rfl h

/-- After a gain was read, only the flags of the others are left. -/
theorem gainsChanged_modify_get {name : PidParamName} (h : name ≠ .iLimit) (p : PidParam P) :
    (p.modify (fun p => (P.get p).2) name).gainsChanged = p.otherGainChanged name := by
  rw [gainsChanged_eq h]
  cases name with
  | kp => simp [PidParam.modify, PidParam.parameter, PidParam.otherGainChanged, hP.changed_get]
  | ki => simp [PidParam.modify, PidParam.parameter, PidParam.otherGainChanged, hP.changed_get]
  | kd => simp [PidParam.modify, PidParam.parameter, PidParam.otherGainChanged, hP.changed_get]
  | iLimit => exact absurd rfl h

/-- Reading changes no value. -/
theorem gains_modify_get (name : PidParamName) (p : PidParam P) :
    (p.modify (fun p => (P.get p).2) name).gains = p.gains
      ∧ P.read (p.modify (fun p => (P.get p).2) name).iLimit = P.read p.iLimit := by
  cases name <;> simp [PidParam.modify, PidParam.gains, hP.read_get]

end Names

omit [FloatOps F] in
theorem gainChanged_concat_of_ne {loop : MotorControllerMode} {name : ParameterName}
    (h : ∀ nm ≠ PidParamName.iLimit, name ≠ .pid loop nm) (past : List ParameterName) :
    GainChanged loop (past ++ [name]) ↔ GainChanged loop past := by
  have hkp := (h .kp (by decide)).symm
  have hki := (h .ki (by decide)).symm
  have hkd := (h .kd (by decide)).symm
  simp only [GainChanged, List.mem_append, List.mem_singleton, hkp, hki, hkd, or_false]

omit [FloatOps F] in
theorem limitChanged_concat_of_ne {loop : MotorControllerMode} {name : ParameterName}
    (h : name ≠ .pid loop .iLimit) (past : List ParameterName) :
    LimitChanged loop (past ++ [name]) ↔ LimitChanged loop past := by
  simp only [LimitChanged, List.mem_append, List.mem_singleton, h.symm, or_false]

omit [FloatOps F] in
/-- **A write is noticed.** -/
theorem noticed_set (hP : P.Lawful) {c : MotorController P (recordingPid Q) W}
    {h : List ParameterName} (hs : Noticed (c, h)) (name : ParameterName) (value : F) :
    Noticed (c.modifyParameter (fun p => P.set p value) name, h ++ [name]) := by
  intro loop
  show (((c.modifyParameter _ name).loop loop).params.gainsChanged = true
      ∨ GainsApplied ((c.modifyParameter _ name).loop loop) (GainChanged loop (h ++ [name])))
    ∧ (P.changed ((c.modifyParameter _ name).loop loop).params.iLimit = true
      ∨ LimitApplied ((c.modifyParameter _ name).loop loop) (LimitChanged loop (h ++ [name])))
  cases name with
  | limit name =>
    rw [loop_modifyParameter_limit, propext (gainChanged_concat_of_ne (by simp) h),
      propext (limitChanged_concat_of_ne (by simp) h)]
    exact hs loop
  | pid loop' name =>
    by_cases hloop : loop' = loop
    · subst hloop
      rw [loop_modifyParameter_self]
      by_cases hname : name = .iLimit
      · subst hname
        rw [propext (gainChanged_concat_of_ne
          (fun _ hne heq => hne (ParameterName.pid.inj heq).2.symm) h)]
        exact ⟨(hs loop').1, Or.inl (hP.changed_set _ _)⟩
      · rw [propext (limitChanged_concat_of_ne (by simpa using hname) h)]
        refine ⟨Or.inl (gainsChanged_modify_set hP hname _ _), ?_⟩
        cases name with
        | iLimit => exact absurd rfl hname
        | kp => exact (hs loop').2
        | ki => exact (hs loop').2
        | kd => exact (hs loop').2
    · rw [loop_modifyParameter_of_ne c _ name hloop,
        propext (gainChanged_concat_of_ne (by simp [hloop]) h),
        propext (limitChanged_concat_of_ne (by simp [hloop]) h)]
      exact hs loop

omit [FloatOps F] in
/-- **Listing a parameter** is noticed by the controller unless it takes the last flag. -/
theorem noticed_get (hP : P.Lawful) {c : MotorController P (recordingPid Q) W}
    {h : List ParameterName} (hs : Noticed (c, h)) {name : ParameterName}
    (hkeeps : KeepsNotice (c, h) (.configTree (F := F) (W := W) name)) :
    Noticed (c.modifyParameter (fun p => (P.get p).2) name, h) := by
  intro loop
  show (((c.modifyParameter _ name).loop loop).params.gainsChanged = true
      ∨ GainsApplied ((c.modifyParameter _ name).loop loop) (GainChanged loop h))
    ∧ (P.changed ((c.modifyParameter _ name).loop loop).params.iLimit = true
      ∨ LimitApplied ((c.modifyParameter _ name).loop loop) (LimitChanged loop h))
  cases name with
  | limit name =>
    rw [loop_modifyParameter_limit]
    exact hs loop
  | pid loop' name =>
    by_cases hloop : loop' = loop
    · subst hloop
      rw [loop_modifyParameter_self]
      obtain ⟨hgains, hlimit⟩ := gains_modify_get hP name (c.loop loop').params
      by_cases hname : name = .iLimit
      · subst hname
        refine ⟨(hs loop').1, Or.inr ?_⟩
        unfold LimitApplied
        rw [hlimit]
        obtain hclear | hother | happlied := hkeeps
        · exact (hs loop').2.resolve_left (fun hset => by
            rw [show P.changed (c.loop loop').params.iLimit = false from hclear] at hset
            exact absurd hset (by simp))
        · exact absurd hother (by simp [PidParam.otherGainChanged])
        · exact happlied
      · constructor
        · show (PidParam.modify _ _ name).gainsChanged = true ∨ _
          rw [gainsChanged_modify_get hP hname]
          unfold GainsApplied
          rw [hgains]
          obtain hclear | hother | happlied := hkeeps
          · refine (hs loop').1.imp_left (fun hset => ?_)
            rw [gainsChanged_eq hname, show P.changed _ = false from hclear, Bool.false_or] at hset
            exact hset
          · exact Or.inl hother
          · refine Or.inr ?_
            cases name with
            | iLimit => exact absurd rfl hname
            | kp => exact happlied
            | ki => exact happlied
            | kd => exact happlied
        · cases name with
          | iLimit => exact absurd rfl hname
          | kp => exact (hs loop').2
          | ki => exact (hs loop').2
          | kd => exact (hs loop').2
    · rw [loop_modifyParameter_of_ne c _ name hloop]
      exact hs loop

/-- **Every access that loses no change keeps the invariant.** -/
theorem noticed_access (hP : P.Lawful)
    {s s' : MotorController P (recordingPid Q) W × List ParameterName} {a : Access F W}
    (hs : Noticed s) (hkeeps : KeepsNotice s a)
    (h : recorded MotorController.access changes s a = .ok s') : Noticed s' := by
  obtain ⟨hstep, hshows⟩ := recorded_eq_ok.mp h
  obtain ⟨c', h'⟩ := s'
  rw [show h' = s.2 ++ changes s.1 a from hshows]
  cases a with
  | call call =>
    rw [show changes s.1 (Access.call call) = [] from rfl, List.append_nil]
    by_cases hcall : ∀ w, call ≠ .process w
    · refine noticed_congr (fun loop => ?_) hs
      obtain ⟨hparams, hpid⟩ := (step_parameters hcall hstep).2 loop
      unfold ControlLoop.recorded ControlLoop.configuration
      rw [hparams, hpid]
    · rw [not_forall] at hcall
      obtain ⟨w, hw⟩ := hcall
      rw [not_not.mp hw] at hstep
      obtain ⟨-, -, hprocessed⟩ := step_process hstep
      rw [show c' = (processed s.1 w).2 from hprocessed]
      exact fun loop => (applied_process hP hs w loop).imp Or.inr Or.inr
  | configSet name value =>
    cases hstep
    exact noticed_set hP hs name value
  | configTree name =>
    cases hstep
    rw [show changes s.1 (Access.configTree name) = [] from rfl, List.append_nil]
    exact noticed_get hP hs hkeeps
  | vmRead name =>
    cases hstep
    rw [show changes s.1 (Access.vmRead name) = [] from rfl, List.append_nil]
    exact hs
  | vmWrite name value =>
    cases hstep
    exact noticed_set hP hs name value

/-- Processing a controller in which no change of a loop is flagged leaves what was
passed to the filter. -/
theorem passed_process_of_not_changed (hP : P.Lawful) (c : MotorController P (recordingPid Q) W)
    (w : W) (loop : MotorControllerMode) :
    ((processed c w).2.loop loop).params.gains = (c.loop loop).params.gains
      ∧ P.read ((processed c w).2.loop loop).params.iLimit = P.read (c.loop loop).params.iLimit
      ∧ ((c.loop loop).params.gainsChanged = false →
        ((processed c w).2.loop loop).passedGains = (c.loop loop).passedGains)
      ∧ (P.changed (c.loop loop).params.iLimit = false →
        ((processed c w).2.loop loop).passedLimit = (c.loop loop).passedLimit) := by
  have heq : ((processed c w).2.loop loop).recorded = (c.loop loop).updateParams.recorded :=
    processed_configuration (fun _ _ => rfl) c w loop
  obtain ⟨hparams, hgains, hlimit⟩ := eq_of_recorded heq
  rw [hparams, hgains, hlimit, (passed_updateParams hP _).1, (passed_updateParams hP _).2]
  refine ⟨(read_updateParams hP _).1, (read_updateParams hP _).2, fun hclear => ?_,
    fun hclear => ?_⟩
  · rw [hclear]
    rfl
  · rw [hclear]
    rfl

/-- **A change whose last flag is read is lost**: the next call does not apply it. -/
theorem not_applied_of_not_keepsNotice (hP : P.Lawful)
    {c : MotorController P (recordingPid Q) W} {h : List ParameterName} {name : ParameterName}
    (hlost : ¬ KeepsNotice (c, h) (.configTree (F := F) (W := W) name)) (w : W) :
    ¬ ParametersApplied
      ((processed (c.modifyParameter (fun p => (P.get p).2) name) w).2, h) := by
  cases name with
  | limit name => exact absurd trivial hlost
  | pid loop name =>
    intro happlied
    obtain ⟨hgains, hlimit, hpassedGains, hpassedLimit⟩ := passed_process_of_not_changed hP
      (c.modifyParameter (fun p => (P.get p).2) (.pid loop name)) w loop
    obtain ⟨hgainsApplied, hlimitApplied⟩ := happlied loop
    obtain ⟨hreadGains, hreadLimit⟩ := gains_modify_get hP name (c.loop loop).params
    rw [loop_modifyParameter_self] at hgains hlimit hpassedGains hpassedLimit
    by_cases hname : name = .iLimit
    · subst hname
      refine hlost (Or.inr (Or.inr ?_))
      unfold LimitApplied at hlimitApplied
      rw [hpassedLimit (hP.changed_get _), hlimit, hreadLimit] at hlimitApplied
      exact hlimitApplied
    · by_cases hother : (c.loop loop).params.otherGainChanged name = true
      · exact hlost (Or.inr (Or.inl hother))
      · refine hlost (Or.inr (Or.inr ?_))
        have hclear : ((c.loop loop).params.modify (fun p => (P.get p).2) name).gainsChanged
            = false := by
          rw [gainsChanged_modify_get hP hname]
          exact Bool.not_eq_true _ ▸ hother
        unfold GainsApplied at hgainsApplied
        rw [hpassedGains hclear, hgains, hreadGains] at hgainsApplied
        cases name with
        | iLimit => exact absurd rfl hname
        | kp => exact hgainsApplied
        | ki => exact hgainsApplied
        | kd => exact hgainsApplied

/-- **When no change is lost**: as long as no listing of the tree takes the last flag of a
change that was not applied yet. After such a listing, the next call goes on with what
was passed before. -/
theorem parameters_applied (hP : P.Lawful) (infinity : F) :
    (∀ (accesses : List (Access F W)) (w : W)
        (s : MotorController P (recordingPid Q) W × List ParameterName),
      Runs (recorded MotorController.access changes) KeepsNotice (motorControllerInit infinity, [])
        (accesses ++ [.call (.process w)]) s → ParametersApplied s)
    ∧ ∀ (s s' : MotorController P (recordingPid Q) W × List ParameterName)
        (name : ParameterName) (w : W),
      ¬ KeepsNotice s (.configTree (F := F) (W := W) name) →
      run (recorded MotorController.access changes) s [.configTree name, .call (.process w)] = .ok s' →
      ¬ ParametersApplied s' := by
  constructor
  · intro accesses w s h
    obtain ⟨t, hfirst, hlast⟩ := h.of_append
    have ht : Noticed t := by
      refine hfirst.invariant (fun _ _ _ hs hkeeps hstep => noticed_access hP hs hkeeps hstep) ?_
      intro loop
      refine ⟨Or.inr (Or.inr ⟨?_, ?_⟩), Or.inr (Or.inr ⟨?_, ?_⟩)⟩
      · cases loop <;> rfl
      · simp [GainChanged]
      · cases loop <;> rfl
      · simp [LimitChanged]
    cases hlast with
    | cons _ hone hnil =>
      cases hnil
      obtain ⟨hstep, hshows⟩ := recorded_eq_ok.mp hone
      obtain ⟨-, -, hprocessed⟩ := step_process hstep
      have heq : s = ((processed t.1 w).2, t.2) :=
        Prod.ext hprocessed (hshows.trans (List.append_nil _))
      rw [heq]
      exact applied_process hP ht w
  · intro s s' name w hlost hrun
    obtain ⟨t, hone, hrest⟩ := run_cons_eq_ok hrun
    obtain ⟨hget, hshows⟩ := recorded_eq_ok.mp hone
    obtain ⟨u, htwo, hnil⟩ := run_cons_eq_ok hrest
    cases hnil
    obtain ⟨hstep, hshows'⟩ := recorded_eq_ok.mp htwo
    obtain ⟨-, -, hprocessed⟩ := step_process hstep
    have ht : t.1 = s.1.modifyParameter (fun p => (P.get p).2) name := (Except.ok.inj hget).symm
    have hpast : t.2 = s.2 := hshows.trans (List.append_nil _)
    have heq : s' = ((processed (s.1.modifyParameter (fun p => (P.get p).2) name) w).2, s.2) :=
      Prod.ext (by rw [← ht]; exact hprocessed)
        (by rw [← hpast]; exact hshows'.trans (List.append_nil _))
    rw [heq]
    exact not_applied_of_not_keepsNotice hP hlost w

end

/-! ## A controller in exact arithmetic -/

/-- A gain is set, read by the virtual machine and noticed by the next call. -/
theorem parameters_applied_vmRead :
    ∃ s : MotorController flagParameters (recordingPid (proportionalPid 1)) Unit
        × List ParameterName,
      run (recorded MotorController.access changes) (motorControllerInit 0, [])
          [.configSet (.pid .current .kp) 5, .vmRead (.pid .current .kp), .call (.process ())]
        = .ok s
      ∧ ParametersApplied s :=
  ⟨_, rfl, (parameters_applied lawful_flagParameters 0).1
    [.configSet (.pid .current .kp) 5, .vmRead (.pid .current .kp)] () _
    (.cons trivial rfl (.cons trivial rfl (.cons trivial rfl .nil)))⟩

/-- A gain is set and listed, and the next call does not notice. -/
theorem not_parameters_applied : ¬ ∀ (accesses : List (Access ℚ Unit)) (w : Unit)
    (s : MotorController flagParameters (recordingPid (proportionalPid 1)) Unit
      × List ParameterName),
    run (recorded MotorController.access changes) (motorControllerInit 0, [])
      (accesses ++ [.call (.process w)]) = .ok s → ParametersApplied s := by
  intro h
  have hlost : ¬ KeepsNotice
      ((motorControllerInit 0 : MotorController flagParameters (recordingPid (proportionalPid 1))
        Unit).modifyParameter (fun p => flagParameters.set p 5) (.pid .current .kp),
        [.pid .current .kp])
      (.configTree (F := ℚ) (W := Unit) (.pid .current .kp)) := by
    rintro (hclear | hother | happlied)
    · cases hclear
    · cases hother
    · obtain hsome | ⟨-, hnot⟩ := happlied
      · cases hsome
      · exact hnot (Or.inl List.mem_cons_self)
  exact not_applied_of_not_keepsNotice lawful_flagParameters hlost ()
    (h [.configSet (.pid .current .kp) 5, .configTree (.pid .current .kp)] () _ rfl)

end MotorControl
