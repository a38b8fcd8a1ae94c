import EpuckFirmware.History
import EpuckFirmware.MessageBus
import EpuckFirmware.MotorController

/-!
# The set-points of the virtual machine

The virtual machine has variables for the set-points of the two wheels. Before it runs,
the variables for the currents are read from the topic of the set-points; after it ran,
a change of one of them publishes both. What was read for the other wheel is a current
only if the last message was about currents, whoever published it.

The arithmetic is exact. A conversion to a variable that does not fit fails.
-/

namespace Aseba

open StepMachine History MessageBus MotorControl

inductive Wheel
  | left
  | right
  deriving DecidableEq

/-- `wheels_setpoint_t`. -/
structure WheelsSetpoint where
  mode : MotorControllerMode
  left : ℚ
  right : ℚ
  deriving DecidableEq

def WheelsSetpoint.value (m : WheelsSetpoint) : Wheel → ℚ
  | .left => m.left
  | .right => m.right

/-- The variables for the set-points, `motor_left_current_setpoint` and so on. -/
structure SetpointVariables where
  leftCurrent : Int16
  rightCurrent : Int16
  leftVelocity : Int16
  rightVelocity : Int16
  leftPosition : Int16
  rightPosition : Int16
  deriving DecidableEq

def SetpointVariables.get (v : SetpointVariables) : MotorControllerMode → Wheel → Int16
  | .current, .left => v.leftCurrent
  | .current, .right => v.rightCurrent
  | .velocity, .left => v.leftVelocity
  | .velocity, .right => v.rightVelocity
  | .position, .left => v.leftPosition
  | .position, .right => v.rightPosition

/-- What the language defines no result for. -/
inductive SetpointFault
  /-- The conversion of a `float` that does not fit. -/
  | outOfRange
  /-- The use of a topic that is `NULL`. -/
  | nullTopic
  deriving DecidableEq

/-- The conversion of a `float` to a variable. -/
def sint16OfFloat (x : ℚ) : Except SetpointFault Int16 :=
  let n : ℤ := if 0 ≤ x then ⌊x⌋ else ⌈x⌉
  if -2 ^ 15 ≤ n ∧ n < 2 ^ 15 then .ok (Int16.ofInt n) else .error .outOfRange

/-- The conversion of a variable to the unit of a set-point. -/
def setpointOfVariable : MotorControllerMode → Int16 → ℚ
  | .current, x => x.toInt / 1000
  | .velocity, x => 3.14 / 180 * x.toInt
  | .position, x => 3.14 / 180 * x.toInt

/-- Where `aseba_vm_thd` is in its cycle. -/
inductive CyclePhase
  /-- Before `aseba_read_variables_from_system`. -/
  | read
  /-- Before the virtual machine runs. -/
  | vm
  /-- In `aseba_write_variables_to_system`, before the set-points of the given mode. -/
  | write (mode : MotorControllerMode)
  deriving DecidableEq

/-- The topic, the variables and the thread. -/
structure SetpointNode where
  /-- `/motors/setpoint`. -/
  topic : Topic WheelsSetpoint
  vmVariables : SetpointVariables
  previousVars : SetpointVariables
  phase : CyclePhase

def SetpointNode.init : SetpointNode :=
  ⟨.init, ⟨0, 0, 0, 0, 0, 0⟩, ⟨0, 0, 0, 0, 0, 0⟩, .read⟩

/-- `aseba_read_variables_from_system`, for the set-points. The message is read into a
buffer that is not initialised. -/
def SetpointNode.readVariables (s : SetpointNode) (buffer : WheelsSetpoint) :
    Except SetpointFault SetpointNode :=
  if s.topic.advertised then
    let msg := s.topic.read buffer
    (sint16OfFloat (msg.left * 1000)).bind fun left =>
      (sint16OfFloat (msg.right * 1000)).bind fun right =>
        let vars := { s.vmVariables with leftCurrent := left, rightCurrent := right }
        .ok { s with vmVariables := vars, previousVars := vars }
  else .ok { s with previousVars := s.vmVariables }

/-- `VM_VAR_CHANGED`. -/
def SetpointNode.changed (s : SetpointNode) (mode : MotorControllerMode) (wheel : Wheel) : Bool :=
  s.vmVariables.get mode wheel ≠ s.previousVars.get mode wheel

/-- The message that a change of a set-point publishes. -/
def SetpointNode.setpoint (s : SetpointNode) (mode : MotorControllerMode) : WheelsSetpoint :=
  ⟨mode, setpointOfVariable mode (s.vmVariables.get mode .left),
    setpointOfVariable mode (s.vmVariables.get mode .right)⟩

/-- `aseba_write_variables_to_system`, for the set-points of one mode. -/
def SetpointNode.writeSetpoint (s : SetpointNode) (mode : MotorControllerMode) :
    Except SetpointFault SetpointNode :=
  if s.changed mode .right || s.changed mode .left then
    if s.topic.advertised then .ok { s with topic := s.topic.publish (s.setpoint mode) }
    else .error .nullTopic
  else .ok s

/-- Where the thread is after the set-points of a mode. -/
def afterWrite : MotorControllerMode → CyclePhase
  | .current => .write .velocity
  | .velocity => .write .position
  | .position => .read

/-- A step of somebody. -/
inductive SetpointStep
  /-- `motor_pid_thd` advertises the topic. -/
  | advertise
  /-- `cmd_setpoint`. -/
  | setpoint (message : WheelsSetpoint)
  /-- A step of `aseba_vm_thd`: with what the buffer holds, if it reads the variables, and
  with what the virtual machine makes of the variables, if it runs. -/
  | vmThd (buffer : WheelsSetpoint) (vars : SetpointVariables)

def SetpointNode.vmStep (s : SetpointNode) (buffer : WheelsSetpoint)
    (vars : SetpointVariables) : Except SetpointFault SetpointNode :=
  match s.phase with
  | .read => (s.readVariables buffer).map (fun s => { s with phase := .vm })
  | .vm => .ok { s with vmVariables := vars, phase := .write .current }
  | .write mode => (s.writeSetpoint mode).map (fun s => { s with phase := afterWrite mode })

def SetpointNode.step (s : SetpointNode) : SetpointStep → Except SetpointFault SetpointNode
  | .advertise => .ok { s with topic := s.topic.advertise }
  | .setpoint message =>
    .ok (if s.topic.advertised then { s with topic := s.topic.publish message } else s)
  | .vmThd buffer vars => s.vmStep buffer vars

/-! ## What happens -/

/-- What the results are about. -/
inductive SetpointEvent
  /-- The variables are read, and whether the topic was found. -/
  | read (found : Bool) (buffer : WheelsSetpoint)
  /-- The shell publishes a message. -/
  | setpoint (message : WheelsSetpoint)
  /-- The virtual machine publishes a message, since the given variables changed. -/
  | written (message : WheelsSetpoint) (changed : Wheel → Bool)

/-- What a step does. -/
def SetpointNode.shows (s : SetpointNode) : SetpointStep → List SetpointEvent
  | .advertise => []
  | .setpoint message => if s.topic.advertised then [.setpoint message] else []
  | .vmThd buffer _ =>
    match s.phase with
    | .read => [.read s.topic.advertised buffer]
    | .vm => []
    | .write mode =>
      if s.changed mode .right || s.changed mode .left then
        [.written (s.setpoint mode) (s.changed mode)]
      else []

/-- The message that is published. -/
def SetpointEvent.message : SetpointEvent → Option WheelsSetpoint
  | read _ _ => none
  | setpoint message => some message
  | written message _ => some message

/-- The current of a message. -/
def WheelsSetpoint.current (m : WheelsSetpoint) (wheel : Wheel) : Option ℚ :=
  if m.mode = .current then some (m.value wheel) else none

/-- **The current that was published last** for a wheel, or 0. -/
def lastCurrent (wheel : Wheel) (h : List SetpointEvent) : ℚ :=
  (latest (fun x => x.message.bind (fun m => m.current wheel)) h).getD 0

/-- **The virtual machine does not change the current of the other wheel.** -/
def KeepsOther (past : List SetpointEvent) (x : SetpointEvent) : Prop :=
  ∀ message changed wheel, x = .written message changed → message.mode = .current →
    changed wheel = false → message.value wheel = lastCurrent wheel past

/-- What is read is what was published last and are currents, or zeros if nothing was
published. -/
def ReadsCurrents (past : List SetpointEvent) (found : Bool) (buffer : WheelsSetpoint) : Prop :=
  found = true → match latest SetpointEvent.message past with
    | some message => message.mode = .current
    | none => ∀ wheel, buffer.value wheel = 0

/-- **The variables mirror the currents**: these were read, and no other currents were
published since then. -/
def MirrorsCurrents (h : List SetpointEvent) : Prop :=
  Since
    (fun x => (∀ found buffer, x ≠ .read found buffer)
      ∧ ∀ message, x.message = some message → message.mode ≠ .current)
    (fun past x => ∃ found buffer, x = .read found buffer ∧ ReadsCurrents past found buffer) h

/-- A current is a whole number of milliampere that fits in a variable. -/
def WholeMilliamps (message : WheelsSetpoint) : Prop :=
  ∀ wheel, ∃ x : Int16, message.value wheel = x.toInt / 1000

/-- The currents that the shell publishes are whole. -/
def PublishesWhole : SetpointStep → Prop
  | .setpoint message => message.mode = .current → WholeMilliamps message
  | _ => True

/-- **The cycles that keep the current of the other wheel**: where one of the two changed,
the variables mirror the currents. -/
def ChangesMirrored (s : SetpointNode × List SetpointEvent) : SetpointStep → Prop
  | .vmThd _ _ => s.1.phase = .write .current →
      (∃ wheel, s.1.changed .current wheel = true) →
      (∃ wheel, s.1.changed .current wheel = false) → MirrorsCurrents s.2
  | _ => True

/-! ## Conversions -/

theorem sint16OfFloat_toInt (x : Int16) : sint16OfFloat (x.toInt : ℚ) = .ok x := by
  have hlow := x.le_toInt
  have hhigh := x.toInt_lt
  unfold sint16OfFloat
  rw [Int.floor_intCast, Int.ceil_intCast, ite_self]
  dsimp only
  rw [if_pos ⟨hlow, hhigh⟩, Int16.ofInt_toInt]

theorem sint16OfFloat_milliamps {message : WheelsSetpoint} (h : WholeMilliamps message)
    (wheel : Wheel) :
    ∃ x : Int16, sint16OfFloat (message.value wheel * 1000) = .ok x
      ∧ setpointOfVariable .current x = message.value wheel := by
  obtain ⟨x, hx⟩ := h wheel
  refine ⟨x, ?_, hx.symm⟩
  rw [hx, div_mul_cancel₀ _ (by norm_num)]
  exact sint16OfFloat_toInt x

theorem bind_message_of_ne {x : SetpointEvent}
    (h : ∀ message, x.message = some message → message.mode ≠ .current) (wheel : Wheel) :
    x.message.bind (fun m => m.current wheel) = none := by
  cases hmessage : x.message with
  | none => rfl
  | some message => exact if_neg (h message hmessage)

/-- If currents were published last, they are the last currents. -/
theorem lastCurrent_of_latest {message : WheelsSetpoint} {h : List SetpointEvent}
    (hlatest : latest SetpointEvent.message h = some message) (hmode : message.mode = .current)
    (wheel : Wheel) : lastCurrent wheel h = message.value wheel := by
  unfold lastCurrent
  rw [latest_bind_of_latest (fun m => WheelsSetpoint.current m wheel) hlatest (if_pos hmode)]
  rfl

theorem lastCurrent_of_none {h : List SetpointEvent}
    (hlatest : latest SetpointEvent.message h = none) (wheel : Wheel) :
    lastCurrent wheel h = 0 := by
  unfold lastCurrent
  rw [latest_bind_of_none (fun m => WheelsSetpoint.current m wheel) hlatest]
  rfl

/-- What is not a current does not change the last one. -/
theorem lastCurrent_concat {h : List SetpointEvent} {x : SetpointEvent}
    (hx : ∀ message, x.message = some message → message.mode ≠ .current) (wheel : Wheel) :
    lastCurrent wheel (h ++ [x]) = lastCurrent wheel h := by
  unfold lastCurrent
  rw [latest_concat, bind_message_of_ne hx]
  rfl

/-! ## The invariant -/

/-- The current of a wheel as it was when the variables were read, or is if they were not
read in this cycle. -/
def SetpointNode.mirrored (s : SetpointNode) (wheel : Wheel) : Int16 :=
  match s.phase with
  | .vm => s.previousVars.get .current wheel
  | .write .current => s.previousVars.get .current wheel
  | _ => s.vmVariables.get .current wheel

/-- **The invariant of the set-points.** -/
structure Mirroring (s : SetpointNode × List SetpointEvent) : Prop where
  topic : s.1.topic.message = latest SetpointEvent.message s.2
  unadvertised : s.1.topic.advertised = false → latest SetpointEvent.message s.2 = none
    ∧ ∀ wheel, s.1.mirrored wheel = 0
  whole : ∀ message, latest SetpointEvent.message s.2 = some message →
    message.mode = .current → WholeMilliamps message
  mirror : s.1.phase = .vm ∨ s.1.phase = .write .current → MirrorsCurrents s.2 →
    ∀ wheel, setpointOfVariable .current (s.1.previousVars.get .current wheel)
      = lastCurrent wheel s.2
  keeps : Always KeepsOther s.2

theorem mirroring_init : Mirroring (SetpointNode.init, []) where
  topic := rfl
  unadvertised _ := ⟨rfl, fun wheel => by cases wheel <;> rfl⟩
  whole _ h := absurd h (by simp)
  mirror h := absurd h (by simp [SetpointNode.init])
  keeps := always_nil _

theorem mirroring_advertise {s : SetpointNode} {h : List SetpointEvent} (hs : Mirroring (s, h)) :
    Mirroring ({ s with topic := s.topic.advertise }, h) where
  topic := hs.topic
  unadvertised hfalse := absurd hfalse (by simp [Topic.advertise])
  whole := hs.whole
  mirror := hs.mirror
  keeps := hs.keeps

/-- **A message of the shell keeps the invariant.** -/
theorem mirroring_setpoint {s : SetpointNode} {h : List SetpointEvent} (hs : Mirroring (s, h))
    (hadvertised : s.topic.advertised = true) {message : WheelsSetpoint}
    (hwhole : message.mode = .current → WholeMilliamps message) :
    Mirroring ({ s with topic := s.topic.publish message }, h ++ [.setpoint message]) where
  topic := by
    rw [latest_concat]
    rfl
  unadvertised hfalse := absurd (hadvertised.symm.trans hfalse) (by simp)
  whole message' hlatest hmode := by
    rw [latest_concat] at hlatest
    cases hlatest
    exact hwhole hmode
  mirror hphase hmirrors wheel := by
    obtain ⟨found, buffer, heq, -⟩ | ⟨⟨-, hmode⟩, hmirrors⟩ := since_concat.mp hmirrors
    · cases heq
    · rw [hs.mirror hphase hmirrors, lastCurrent_concat hmode]
  keeps := always_concat.mpr ⟨hs.keeps, fun _ _ _ heq => nomatch heq⟩

/-- A message that is read, if it reads currents. -/
theorem value_read {s : SetpointNode} {h : List SetpointEvent} (hs : Mirroring (s, h))
    (hadvertised : s.topic.advertised = true) {buffer : WheelsSetpoint}
    (hreads : ReadsCurrents h s.topic.advertised buffer) :
    WholeMilliamps (s.topic.read buffer)
      ∧ ∀ wheel, (s.topic.read buffer).value wheel = lastCurrent wheel h := by
  have hreads := hreads hadvertised
  have htopic : s.topic.message = latest SetpointEvent.message h := hs.topic
  cases hlatest : latest SetpointEvent.message h with
  | none =>
    rw [hlatest] at hreads htopic
    have hzero : ∀ wheel, buffer.value wheel = 0 := hreads
    rw [Topic.read_of_none htopic]
    refine ⟨fun wheel => ⟨0, ?_⟩, fun wheel => ?_⟩
    · rw [hzero, Int16.toInt_zero]
      norm_num
    · rw [hzero, lastCurrent_of_none hlatest]
  | some message =>
    rw [hlatest] at hreads htopic
    have hmode : message.mode = .current := hreads
    rw [Topic.read_of_message htopic]
    exact ⟨hs.whole message hlatest hmode,
      fun wheel => (lastCurrent_of_latest hlatest hmode wheel).symm⟩

/-- **What is read of currents is what was published last.** -/
theorem readVariables_eq_ok {s s' : SetpointNode} {h : List SetpointEvent}
    (hs : Mirroring (s, h)) (hphase : s.phase = .read) {buffer : WheelsSetpoint}
    (hread : s.readVariables buffer = .ok s') :
    s'.topic = s.topic ∧ s'.previousVars = s'.vmVariables
      ∧ (s.topic.advertised = false → ∀ wheel, s'.vmVariables.get .current wheel = 0)
      ∧ (ReadsCurrents h s.topic.advertised buffer →
        ∀ wheel, setpointOfVariable .current (s'.vmVariables.get .current wheel)
          = lastCurrent wheel h) := by
  unfold SetpointNode.readVariables at hread
  split at hread
  · rename_i hadvertised
    dsimp only at hread
    cases hleft : sint16OfFloat ((s.topic.read buffer).left * 1000) with
    | error e =>
      rw [hleft] at hread
      cases hread
    | ok left =>
      cases hright : sint16OfFloat ((s.topic.read buffer).right * 1000) with
      | error e =>
        rw [hleft, hright] at hread
        cases hread
      | ok right =>
        rw [hleft, hright] at hread
        cases hread
        refine ⟨rfl, rfl, fun hfalse => absurd (hadvertised.symm.trans hfalse) (by simp),
          fun hreads wheel => ?_⟩
        obtain ⟨hwhole, hvalue⟩ := value_read hs hadvertised hreads
        obtain ⟨x, hx, hsame⟩ := sint16OfFloat_milliamps hwhole wheel
        rw [← hvalue, ← hsame]
        cases wheel with
        | left => rw [Except.ok.inj (hx.symm.trans hleft)]; rfl
        | right => rw [Except.ok.inj (hx.symm.trans hright)]; rfl
  · rename_i hadvertised
    cases hread
    rw [Bool.not_eq_true] at hadvertised
    obtain ⟨hnone, hmirrored⟩ := hs.unadvertised hadvertised
    have hzero : ∀ wheel, s.vmVariables.get .current wheel = 0 := by
      intro wheel
      rw [← hmirrored wheel]
      unfold SetpointNode.mirrored
      rw [show (s, h).1.phase = .read from hphase]
    refine ⟨rfl, rfl, fun _ => hzero, fun _ wheel => ?_⟩
    rw [lastCurrent_of_none hnone, hzero]
    simp [setpointOfVariable]

/-- **Reading the variables keeps the invariant.** -/
theorem mirroring_read {s s' : SetpointNode} {h : List SetpointEvent} (hs : Mirroring (s, h))
    (hphase : s.phase = .read) {buffer : WheelsSetpoint} (hread : s.readVariables buffer = .ok s') :
    Mirroring ({ s' with phase := .vm }, h ++ [.read s.topic.advertised buffer]) := by
  obtain ⟨htopic, hprevious, hzero, hcurrents⟩ := readVariables_eq_ok hs hphase hread
  have hlatest : latest SetpointEvent.message (h ++ [.read s.topic.advertised buffer])
      = latest SetpointEvent.message h := by
    rw [latest_concat]
    rfl
  constructor
  · rw [hlatest]
    exact (congrArg Topic.message htopic).trans hs.topic
  · intro hfalse
    rw [show s'.topic.advertised = _ from congrArg Topic.advertised htopic] at hfalse
    rw [hlatest]
    refine ⟨(hs.unadvertised hfalse).1, fun wheel => ?_⟩
    show s'.previousVars.get .current wheel = 0
    rw [hprevious]
    exact hzero hfalse wheel
  · rw [hlatest]
    exact hs.whole
  · intro _ hmirrors wheel
    obtain ⟨found, buffer', heq, hreads⟩ | ⟨⟨hnot, -⟩, -⟩ := since_concat.mp hmirrors
    · obtain ⟨rfl, rfl⟩ := SetpointEvent.read.inj heq
      show setpointOfVariable .current (s'.previousVars.get .current wheel) = _
      rw [hprevious, hcurrents hreads, lastCurrent_concat (by simp [SetpointEvent.message])]
    · exact absurd rfl (hnot _ _)
  · exact always_concat.mpr ⟨hs.keeps, fun _ _ _ heq => nomatch heq⟩

/-- The virtual machine may do anything to the variables. -/
theorem mirroring_vm {s : SetpointNode} {h : List SetpointEvent} (hs : Mirroring (s, h))
    (hphase : s.phase = .vm) (vars : SetpointVariables) :
    Mirroring ({ s with vmVariables := vars, phase := .write .current }, h) where
  topic := hs.topic
  unadvertised hfalse := by
    obtain ⟨hnone, hmirrored⟩ := hs.unadvertised hfalse
    refine ⟨hnone, fun wheel => ?_⟩
    rw [← hmirrored wheel]
    unfold SetpointNode.mirrored
    rw [show (s, h).1.phase = .vm from hphase]
  whole := hs.whole
  mirror _ := hs.mirror (Or.inl hphase)
  keeps := hs.keeps

theorem setpointOfVariable_whole (s : SetpointNode) : WholeMilliamps (s.setpoint .current) := by
  intro wheel
  cases wheel with
  | left => exact ⟨s.vmVariables.leftCurrent, rfl⟩
  | right => exact ⟨s.vmVariables.rightCurrent, rfl⟩

theorem value_setpoint (s : SetpointNode) (mode : MotorControllerMode) (wheel : Wheel) :
    (s.setpoint mode).value wheel = setpointOfVariable mode (s.vmVariables.get mode wheel) := by
  cases wheel <;> rfl

/-- **Writing set-points keeps the invariant.** -/
theorem mirroring_write {s s' : SetpointNode} {h : List SetpointEvent} (hs : Mirroring (s, h))
    {mode : MotorControllerMode} (hphase : s.phase = .write mode)
    (hmirrors : mode = .current → (∃ wheel, s.changed .current wheel = true) →
      (∃ wheel, s.changed .current wheel = false) → MirrorsCurrents h)
    (hwrite : s.writeSetpoint mode = .ok s') :
    Mirroring ({ s' with phase := afterWrite mode },
      h ++ if s.changed mode .right || s.changed mode .left then
        [.written (s.setpoint mode) (s.changed mode)] else []) := by
  have hafter : ∀ t : SetpointNode, ¬ (({ t with phase := afterWrite mode }).phase = .vm
      ∨ ({ t with phase := afterWrite mode }).phase = .write .current) := by
    cases mode <;> simp [afterWrite]
  unfold SetpointNode.writeSetpoint at hwrite
  split at hwrite
  · rename_i hchanged
    rw [if_pos hchanged]
    split at hwrite
    · rename_i hadvertised
      cases hwrite
      constructor
      · rw [latest_concat]
        rfl
      · intro hfalse
        exact absurd (hadvertised.symm.trans hfalse) (by simp)
      · intro message hlatest hmode
        rw [latest_concat] at hlatest
        cases hlatest
        rw [show mode = .current from hmode]
        exact setpointOfVariable_whole s
      · intro hvm
        exact absurd hvm (hafter _)
      · refine always_concat.mpr ⟨hs.keeps, fun message changed wheel heq hmode hsame => ?_⟩
        obtain ⟨rfl, rfl⟩ := SetpointEvent.written.inj heq
        have hcurrent : mode = .current := hmode
        subst hcurrent
        have hone : ∃ wheel, s.changed .current wheel = true := by
          rw [Bool.or_eq_true] at hchanged
          exact hchanged.elim (fun h => ⟨_, h⟩) (fun h => ⟨_, h⟩)
        have hvariable : s.vmVariables.get .current wheel = s.previousVars.get .current wheel := by
          simpa [SetpointNode.changed] using hsame
        rw [value_setpoint, hvariable]
        exact hs.mirror (Or.inr hphase) (hmirrors rfl hone ⟨wheel, hsame⟩) wheel
    · cases hwrite
  · rename_i hchanged
    cases hwrite
    rw [if_neg hchanged, List.append_nil]
    refine ⟨hs.topic, fun hfalse => ?_, hs.whole, fun hvm => absurd hvm (hafter _), hs.keeps⟩
    obtain ⟨hnone, hmirrored⟩ := hs.unadvertised hfalse
    refine ⟨hnone, fun wheel => ?_⟩
    rw [← hmirrored wheel]
    unfold SetpointNode.mirrored
    rw [show (s, h).1.phase = .write mode from hphase]
    cases mode with
    | current =>
      have hsame : s.changed .current wheel = false := by
        rw [Bool.not_eq_true, Bool.or_eq_false_iff] at hchanged
        cases wheel with
        | left => exact hchanged.2
        | right => exact hchanged.1
      show s.vmVariables.get .current wheel = s.previousVars.get .current wheel
      simpa [SetpointNode.changed] using hsame
    | velocity => rfl
    | position => rfl

/-- **Every allowed step keeps the invariant.** -/
theorem mirroring_step {s s' : SetpointNode × List SetpointEvent} {i : SetpointStep}
    (hs : Mirroring s) (hwhole : PublishesWhole i) (hmirrored : ChangesMirrored s i)
    (h : recorded SetpointNode.step SetpointNode.shows s i = .ok s') : Mirroring s' := by
  obtain ⟨hstep, hshows⟩ := recorded_eq_ok.mp h
  obtain ⟨s, past⟩ := s
  obtain ⟨s', past'⟩ := s'
  rw [show past' = past ++ s.shows i from hshows]
  cases i with
  | advertise =>
    cases hstep
    rw [show s.shows .advertise = [] from rfl, List.append_nil]
    exact mirroring_advertise hs
  | setpoint message =>
    have hs' : s' = if s.topic.advertised then { s with topic := s.topic.publish message } else s :=
      (Except.ok.inj hstep).symm
    rw [hs']
    unfold SetpointNode.shows
    dsimp only
    split
    · rename_i hadvertised
      exact mirroring_setpoint hs hadvertised hwhole
    · rw [List.append_nil]
      exact hs
  | vmThd buffer vars =>
    have hstep : s.vmStep buffer vars = .ok s' := hstep
    unfold SetpointNode.vmStep at hstep
    unfold SetpointNode.shows
    cases hphase : s.phase with
    | read =>
      rw [hphase] at hstep
      obtain ⟨t, hread, rfl⟩ := map_eq_ok hstep
      exact mirroring_read hs hphase hread
    | vm =>
      rw [hphase] at hstep
      cases hstep
      rw [List.append_nil]
      exact mirroring_vm hs hphase vars
    | write mode =>
      rw [hphase] at hstep
      obtain ⟨t, hwrite, rfl⟩ := map_eq_ok hstep
      refine mirroring_write hs hphase (fun hmode => ?_) hwrite
      exact hmirrored (by rw [← hmode]; exact hphase)

/-- **A script that changes one current keeps the other**, in every run in which the cycles
that change one had read currents, and no other currents were published in between. -/
theorem keeps_other_current (steps : List SetpointStep) {s : SetpointNode × List SetpointEvent}
    (h : Runs (recorded SetpointNode.step SetpointNode.shows)
      (fun s i => PublishesWhole i ∧ ChangesMirrored s i) (SetpointNode.init, []) steps s) :
    Always KeepsOther s.2 :=
  (h.invariant (P := Mirroring)
    (fun _ _ _ hs hcond hstep => mirroring_step hs hcond.1 hcond.2 hstep) mirroring_init).keeps

/-- The variables after a script changed the left current to 100 mA. -/
def changedLeft (right : Int16) : SetpointVariables := ⟨100, right, 0, 0, 0, 0⟩

/-- The shell publishes a message, and a script changes the left current. -/
def changeLeft (message : WheelsSetpoint) (right : Int16) : List SetpointStep :=
  [.advertise, .setpoint message, .vmThd message (changedLeft right),
    .vmThd message (changedLeft right), .vmThd message (changedLeft right)]

/-- The state in which the change is written. -/
def writing (message : WheelsSetpoint) (left right : Int16) : SetpointNode :=
  ⟨⟨true, some message⟩, changedLeft right, ⟨left, right, 0, 0, 0, 0⟩, .write .current⟩

/-- What happens until then. -/
def beforeWriting (message : WheelsSetpoint) : List SetpointEvent :=
  [.setpoint message, .read true message]

/-- What the message shows in the variables. -/
def mirroring (message : WheelsSetpoint) (left right : Int16) : SetpointNode :=
  ⟨⟨true, some message⟩, ⟨left, right, 0, 0, 0, 0⟩, ⟨left, right, 0, 0, 0, 0⟩, .vm⟩

/-- The state after the change is written. -/
def written (message : WheelsSetpoint) (left right : Int16) : SetpointNode :=
  { writing message left right with
    topic := ⟨true, some ((writing message left right).setpoint .current)⟩
    phase := .write .velocity }

/-- The change that is written. -/
def writes (message : WheelsSetpoint) (left right : Int16) : SetpointEvent :=
  .written ((writing message left right).setpoint .current)
    ((writing message left right).changed .current)

section Script

variable {message : WheelsSetpoint} {left right : Int16}
  (hleft : sint16OfFloat (message.left * 1000) = .ok left)
  (hright : sint16OfFloat (message.right * 1000) = .ok right) (hne : left ≠ 100)

include hleft hright in
theorem read_message (h : List SetpointEvent) :
    recorded SetpointNode.step SetpointNode.shows
        (⟨⟨true, some message⟩, ⟨0, 0, 0, 0, 0, 0⟩, ⟨0, 0, 0, 0, 0, 0⟩, .read⟩, h)
        (.vmThd message (changedLeft right))
      = .ok (mirroring message left right, h ++ [.read true message]) := by
  refine recorded_eq_ok.mpr ⟨?_, rfl⟩
  show ((sint16OfFloat (message.left * 1000)).bind fun left =>
    (sint16OfFloat (message.right * 1000)).bind _).map _ = _
  rw [hleft, hright]
  rfl

include hne in
theorem write_message (h : List SetpointEvent) :
    recorded SetpointNode.step SetpointNode.shows (writing message left right, h)
        (.vmThd message (changedLeft right))
      = .ok (written message left right, h ++ [writes message left right]) := by
  have hchanged : ((writing message left right).changed .current .right
      || (writing message left right).changed .current .left) = true := by
    rw [Bool.or_eq_true]
    exact Or.inr (decide_eq_true (Ne.symm hne))
  refine recorded_eq_ok.mpr ⟨?_, ?_⟩
  · show ((writing message left right).writeSetpoint .current).map _ = _
    unfold SetpointNode.writeSetpoint
    rw [if_pos hchanged]
    rfl
  · show _ = h ++ if _ then _ else _
    rw [if_pos hchanged]
    rfl

include hleft hright hne in
/-- **The run of the script**, if its steps are allowed. -/
theorem runs_changeLeft {cond : SetpointNode × List SetpointEvent → SetpointStep → Prop}
    (hcond : ∀ s i, s.1.phase ≠ .write .current → i ∈ changeLeft message right → cond s i)
    (hlast : cond (writing message left right, beforeWriting message)
      (.vmThd message (changedLeft right))) :
    Runs (recorded SetpointNode.step SetpointNode.shows) cond (SetpointNode.init, [])
      (changeLeft message right)
      (written message left right, beforeWriting message ++ [writes message left right]) := by
  refine .cons (hcond _ _ (by rintro ⟨⟩) (by simp [changeLeft])) rfl ?_
  refine .cons (hcond _ _ (by rintro ⟨⟩) (by simp [changeLeft])) rfl ?_
  refine .cons (hcond _ _ (by rintro ⟨⟩) (by simp [changeLeft])) (read_message hleft hright _) ?_
  refine .cons (hcond _ _ (by rintro ⟨⟩) (by simp [changeLeft])) rfl ?_
  exact .cons hlast (write_message hne _) .nil

end Script

/-- The shell sets currents, and a script changes the left one. -/
theorem keeps_other_current_shell :
    Always KeepsOther (beforeWriting ⟨.current, 1, 2⟩ ++ [writes ⟨.current, 1, 2⟩ 1000 2000]) := by
  have hwhole : WholeMilliamps ⟨.current, 1, 2⟩ := by
    intro wheel
    cases wheel with
    | left => exact ⟨1000, by decide +kernel⟩
    | right => exact ⟨2000, by decide +kernel⟩
  have hmirrors : MirrorsCurrents (beforeWriting ⟨.current, 1, 2⟩) :=
    ⟨[.setpoint ⟨.current, 1, 2⟩], .read true ⟨.current, 1, 2⟩, [], rfl,
      ⟨true, ⟨.current, 1, 2⟩, rfl, fun _ => rfl⟩, by simp⟩
  refine keeps_other_current (changeLeft ⟨.current, 1, 2⟩ 2000)
    (runs_changeLeft (by decide +kernel) (by decide +kernel) (by decide) (fun s i hphase hi => ?_)
      ⟨trivial, fun _ _ _ => hmirrors⟩)
  simp only [changeLeft, List.mem_cons, List.not_mem_nil, or_false, or_self] at hi
  obtain rfl | rfl | rfl := hi
  · exact ⟨trivial, trivial⟩
  · exact ⟨fun _ => hwhole, trivial⟩
  · exact ⟨trivial, fun hwrite => absurd hwrite hphase⟩

/-- The shell sets velocities of 3 rad/s, a script changes the left current, and the right
one becomes 3 A. -/
theorem not_keeps_other_current :
    ¬ ∀ (steps : List SetpointStep) (s : SetpointNode × List SetpointEvent),
      (∀ i ∈ steps, PublishesWhole i) →
      run (recorded SetpointNode.step SetpointNode.shows) (SetpointNode.init, []) steps = .ok s →
      Always KeepsOther s.2 := by
  intro h
  have hruns : Runs (recorded SetpointNode.step SetpointNode.shows) (fun _ _ => True)
      (SetpointNode.init, []) (changeLeft ⟨.velocity, 3, 3⟩ 3000)
      (written ⟨.velocity, 3, 3⟩ 3000 3000,
        beforeWriting ⟨.velocity, 3, 3⟩ ++ [writes ⟨.velocity, 3, 3⟩ 3000 3000]) :=
    runs_changeLeft (by decide +kernel) (by decide +kernel) (by decide) (fun _ _ _ _ => trivial)
      trivial
  have hkeeps := h _ _ (by simp [changeLeft, PublishesWhole]) hruns.run_eq_ok _ _ [] rfl _ _ .right
    rfl rfl rfl
  exact absurd hkeeps (by decide +kernel)

end Aseba
