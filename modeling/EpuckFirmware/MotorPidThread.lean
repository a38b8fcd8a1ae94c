import EpuckFirmware.AsebaSetpoints
import EpuckFirmware.MotorControllerAccess
import EpuckFirmware.MotorControllerLimits
import EpuckFirmware.WheelVoltage

/-!
# The thread of the controllers

In every control tick `motor_pid_thd` reads the topic of the set-points, hands a message on
to the controllers of both wheels, processes them, and sets the voltages that they return.
Meanwhile others publish set-points, measurements and the voltage of the battery, and access
the parameters of the controllers; they can do so between any two lines of the thread.

Each controller behaves as if it had a thread of its own, which makes the calls that the
messages ask for (`TickState`). Nothing but a counter can stop the thread, and no counter
does before `INT_MAX` ticks.
-/

namespace MotorPid

open StepMachine History MessageBus MotorControl
open WheelVoltage (Wheel)
open Aseba (WheelsSetpoint)

/-! ## The inputs of the controllers -/

/-- `motor_current_msg_t`, `wheel_velocities_msg_t` and `wheel_pos_msg_t`. -/
structure WheelsMsg where
  left : ℚ
  right : ℚ

/-- The topics that the inputs read. -/
structure Inputs where
  motorsCurrent : Topic WheelsMsg
  wheelVelocities : Topic WheelsMsg
  wheelPos : Topic WheelsMsg

/-- What `get_current`, `get_velocity` and `get_position` have in common. -/
def getInput (topic : Topic WheelsMsg) (arg : Wheel) : ℚ :=
  if topic.advertised then
    match topic.message with
    | none => 0
    | some msg => match arg with
      | .left => msg.left
      | .right => msg.right
  else 0

def getCurrent (arg : Wheel) (w : Inputs) : ℚ := getInput w.motorsCurrent arg

def getVelocity (arg : Wheel) (w : Inputs) : ℚ := getInput w.wheelVelocities arg

def getPosition (arg : Wheel) (w : Inputs) : ℚ := getInput w.wheelPos arg

section

variable (P : ParameterLib ℚ) (Q : PidLib ℚ)

/-- `left` and `right` of `motor_pid_thd`. -/
structure WheelControl where
  controller : MotorController P Q Inputs
  voltage : ℚ

/-- Where `motor_pid_thd` is. -/
inductive Line
  /-- Before its loop. -/
  | start
  /-- Before a control tick. -/
  | wait
  /-- Before `motor_controller_set_mode` for a wheel. -/
  | setMode (wheel : Wheel) (msg : WheelsSetpoint)
  /-- Before the assignment of the target for a wheel. -/
  | target (wheel : Wheel) (msg : WheelsSetpoint)
  /-- Before `motor_controller_process` for a wheel. -/
  | process (wheel : Wheel)
  /-- Before `left_wheel_voltage_set` or `right_wheel_voltage_set`. -/
  | set (wheel : Wheel)
  deriving DecidableEq

/-- The thread, the topics, and the part of the system that sets the voltages. -/
structure PidSystem where
  left : WheelControl P Q
  right : WheelControl P Q
  /-- `/motors/setpoint`. -/
  setpoint : Topic WheelsSetpoint
  output : WheelVoltage.System
  line : Line

variable {P Q}

def setInputFunctions (c : MotorController P Q Inputs) (mot : Wheel) :
    MotorController P Q Inputs :=
  { c with
    current := { c.current with get := some (getCurrent mot) }
    velocity := { c.velocity with get := some (getVelocity mot) }
    position := { c.position with get := some (getPosition mot) } }

/-- The parameters that the thread sets before its loop. -/
def defaults : List (ParameterName × ℚ) :=
  [(.pid .current .kp, 2), (.pid .current .ki, 40), (.pid .current .iLimit, 50),
    (.pid .velocity .kp, 1 / 5), (.pid .position .kp, 30), (.limit .current, 2),
    (.limit .acceleration, 10 * (157 / 50)), (.limit .velocity, 20 * (157 / 50))]

/-- The controller of a wheel before the loop of the thread. -/
def motorStart (infinity : ℚ) (mot : Wheel) : MotorController P Q Inputs :=
  let c := defaults.foldl (fun c d => c.modifyParameter (fun p => P.set p d.2) d.1)
    (motorControllerInit infinity)
  motorControllerSetFrequency (motorControllerSetPrescaler (setInputFunctions c mot) 10 10) 1000

def PidSystem.init (infinity : ℚ) : PidSystem P Q where
  left := ⟨motorStart infinity .left, 0⟩
  right := ⟨motorStart infinity .right, 0⟩
  setpoint := .init
  output := .init
  line := .start

def PidSystem.wheel (s : PidSystem P Q) : Wheel → WheelControl P Q
  | .left => s.left
  | .right => s.right

def PidSystem.setWheel (s : PidSystem P Q) (x : WheelControl P Q) : Wheel → PidSystem P Q
  | .left => { s with left := x }
  | .right => { s with right := x }

/-- What a message asks of a wheel. -/
def target (msg : WheelsSetpoint) : Wheel → ℚ
  | .left => msg.left
  | .right => msg.right

/-! ## The steps -/

/-- Why the thread stops. -/
inductive Fault
  | controller (e : MotorControl.Fault)
  | output (e : WheelVoltage.Fault)
  deriving DecidableEq

/-- An access to the controller of a wheel. -/
def PidSystem.access (s : PidSystem P Q) (wheel : Wheel) (a : Access ℚ Inputs) :
    Except Fault (PidSystem P Q) :=
  match (s.wheel wheel).controller.access a with
  | .error e => .error (.controller e)
  | .ok c => .ok (s.setWheel { s.wheel wheel with controller := c } wheel)

/-- The call of `motor_controller_process` for a wheel. -/
def PidSystem.process (s : PidSystem P Q) (wheel : Wheel) (w : Inputs) :
    Except Fault (PidSystem P Q) :=
  match motorControllerProcess (s.wheel wheel).controller w with
  | .error e => .error (.controller e)
  | .ok r => .ok (s.setWheel ⟨r.2, r.1⟩ wheel)

/-- A step of the thread in the part of the system that sets the voltages. -/
def PidSystem.outputStep (s : PidSystem P Q) (voltage : ℚ) (isInverted : Bool) :
    Except Fault (PidSystem P Q) :=
  match s.output.motorStep voltage isInverted with
  | .error e => .error (.output e)
  | .ok output => .ok { s with output := output }

/-- The lines for the left wheel are followed by those for the right one. -/
def afterLeft (wheel : Wheel) (right next : Line) : Line :=
  match wheel with
  | .left => right
  | .right => next

/-- A step of `motor_pid_thd`: what the inputs show if it calls a controller, and the parameter
`is_inverted` if it sets a voltage. -/
def PidSystem.threadStep (s : PidSystem P Q) (w : Inputs) (isInverted : Bool) :
    Except Fault (PidSystem P Q) :=
  match s.line with
  | .start => (s.outputStep 0 isInverted).map (fun s => { s with
      setpoint := s.setpoint.advertise
      line := if s.output.motorPidThd = .set .left then .wait else .start })
  | .wait => .ok { s with
      line := match s.setpoint.message with
        | none => .process .left
        | some msg => .setMode .left msg }
  | .setMode wheel msg => (s.access wheel (.call (.setMode msg.mode w))).map (fun s => { s with
      line := afterLeft wheel (.setMode .right msg) (.target .left msg) })
  | .target wheel msg =>
    (s.access wheel (.call (.setTarget msg.mode (target msg wheel)))).map (fun s => { s with
      line := afterLeft wheel (.target .right msg) (.process .left) })
  | .process wheel => (s.process wheel w).map (fun s => { s with
      line := afterLeft wheel (.process .right) (.set .left) })
  | .set wheel => (s.outputStep (s.wheel wheel).voltage isInverted).map (fun s => { s with
      line := afterLeft wheel (.set .right) .wait })

/-- A step of somebody. -/
inductive Step
  /-- Another thread publishes a set-point, if it finds the topic. -/
  | publish (msg : WheelsSetpoint)
  /-- Another thread accesses a parameter of a controller. -/
  | access (wheel : Wheel) (a : Access ℚ Inputs) (h : ∀ call, a ≠ .call call)
  /-- Another thread advertises a topic that the thread waits for. -/
  | otherThd (service : WheelVoltage.Service) (h : service ≠ .batteryLevel)
  /-- A step of `battery_thd`. -/
  | batteryThd (samples : WheelVoltage.Samples)
  /-- A step of `motor_pid_thd`. -/
  | thread (w : Inputs) (isInverted : Bool)

def PidSystem.step (s : PidSystem P Q) : Step → Except Fault (PidSystem P Q)
  | .publish msg =>
    .ok (if s.setpoint.advertised then { s with setpoint := s.setpoint.publish msg } else s)
  | .access wheel a _ => s.access wheel a
  | .otherThd service _ =>
    .ok { s with output := { s.output with others := service :: s.output.others } }
  | .batteryThd samples => .ok { s with output := s.output.batteryStep samples }
  | .thread w isInverted => s.threadStep w isInverted

/-! ## What the history shows -/

inductive Event
  /-- A set-point is published. -/
  | published (msg : WheelsSetpoint)
  /-- A control tick begins, with what was read from the topic. -/
  | tick (msg : Option WheelsSetpoint)
  /-- An access to the controller of a wheel. -/
  | access (wheel : Wheel) (a : Access ℚ Inputs)
  /-- The set-point of the current that a controller is processed with, and the limit. -/
  | controlled (wheel : Wheel) (limit setpoint : ℚ)
  /-- The voltage of a wheel is set. -/
  | set (wheel : Wheel) (voltage : ℚ)

def PidSystem.shows (s : PidSystem P Q) : Step → List Event
  | .publish msg => if s.setpoint.advertised then [.published msg] else []
  | .access wheel a _ => [.access wheel a]
  | .otherThd _ _ => []
  | .batteryThd _ => []
  | .thread w _ => match s.line with
    | .start => []
    | .wait => [.tick s.setpoint.message]
    | .setMode wheel msg => [.access wheel (.call (.setMode msg.mode w))]
    | .target wheel msg => [.access wheel (.call (.setTarget msg.mode (target msg wheel)))]
    | .process wheel =>
      [.access wheel (.call (.process w)),
        .controlled wheel (P.get (s.wheel wheel).controller.limits.current).1
          (processed (s.wheel wheel).controller w).2.current.setpoint]
    | .set wheel => [.set wheel (s.wheel wheel).voltage]

/-- The message that an event publishes. -/
def Event.message : Event → Option WheelsSetpoint
  | .published msg => some msg
  | _ => none

/-- What was read if the event is a tick. -/
def Event.read : Event → Option (Option WheelsSetpoint)
  | .tick msg => some msg
  | _ => none

/-- The access if the event is one to the controller of the wheel. -/
def Event.accessOf (wheel : Wheel) : Event → Option (Access ℚ Inputs)
  | .access wheel' a => if wheel' = wheel then some a else none
  | _ => none

/-- The voltage if the event sets the one of the wheel. -/
def Event.voltageOf (wheel : Wheel) : Event → Option ℚ
  | .set wheel' voltage => if wheel' = wheel then some voltage else none
  | _ => none

/-- The call if the access is one of the thread. -/
def callOf : Access ℚ Inputs → Option (Call ℚ Inputs)
  | .call call => some call
  | _ => none

/-- What the ticks have read. -/
def ticks (h : List Event) : List (Option WheelsSetpoint) := h.filterMap Event.read

/-- The accesses to the controller of a wheel. -/
def accesses (wheel : Wheel) (h : List Event) : List (Access ℚ Inputs) :=
  h.filterMap (Event.accessOf wheel)

/-- The calls of the controller of a wheel. -/
def calls (wheel : Wheel) (h : List Event) : List (Call ℚ Inputs) :=
  (accesses wheel h).filterMap callOf

/-! ## What a controller is called for -/

/-- **The calls that complete ticks make for a wheel**, for what the ticks have read. -/
inductive Ticks (wheel : Wheel) : List (Option WheelsSetpoint) → List (Call ℚ Inputs) → Prop
  | nil : Ticks wheel [] []
  | idle {messages calls} (w : Inputs) : Ticks wheel messages calls →
      Ticks wheel (messages ++ [none]) (calls ++ [.process w])
  | message {messages calls} (msg : WheelsSetpoint) (w w' : Inputs) : Ticks wheel messages calls →
      Ticks wheel (messages ++ [some msg])
        (calls ++ [.setMode msg.mode w, .setTarget msg.mode (target msg wheel), .process w'])

/-- How far a tick is for a wheel. -/
inductive Stage
  | done
  | read (msg : Option WheelsSetpoint)
  | moded (msg : WheelsSetpoint)
  | ready

/-- The calls for a wheel, and how far the last tick is. -/
inductive TickState (wheel : Wheel) :
    Stage → List (Option WheelsSetpoint) → List (Call ℚ Inputs) → Prop
  | start : TickState wheel .done [] []
  | read {messages calls} (msg : Option WheelsSetpoint) : TickState wheel .done messages calls →
      TickState wheel (.read msg) (messages ++ [msg]) calls
  | setMode {messages calls msg} (w : Inputs) : TickState wheel (.read (some msg)) messages calls →
      TickState wheel (.moded msg) messages (calls ++ [.setMode msg.mode w])
  | target {messages calls msg} : TickState wheel (.moded msg) messages calls →
      TickState wheel .ready messages (calls ++ [.setTarget msg.mode (target msg wheel)])
  | idle {messages calls} (w : Inputs) : TickState wheel (.read none) messages calls →
      TickState wheel .done messages (calls ++ [.process w])
  | process {messages calls} (w : Inputs) : TickState wheel .ready messages calls →
      TickState wheel .done messages (calls ++ [.process w])

/-! ## What an access leaves alone -/

section Access

variable {c c' : MotorController P Q Inputs}

theorem velocityRamp_get (maxVelocity maxAcceleration : ℚ) (loop : MotorControllerMode) :
    ((velocityRamp c maxVelocity maxAcceleration).loop loop).get = (c.loop loop).get := by
  unfold velocityRamp
  split
  · cases loop <;> rfl
  · rfl

theorem positionControl_get (maxVelocity maxAcceleration : ℚ) (w : Inputs)
    (loop : MotorControllerMode) :
    ((positionControl c maxVelocity maxAcceleration w).loop loop).get = (c.loop loop).get := by
  unfold positionControl
  split
  · cases loop <;> rfl
  · rfl

theorem velocityControl_get (w : Inputs) (loop : MotorControllerMode) :
    ((velocityControl c w).loop loop).get = (c.loop loop).get := by
  unfold velocityControl
  split
  · cases loop <;> rfl
  · rfl

theorem processed_get (c : MotorController P Q Inputs) (w : Inputs) (loop : MotorControllerMode) :
    ((processed c w).2.loop loop).get = (c.loop loop).get := by
  have hend : ((processed c w).2.loop loop).get
      = ((velocityControl (velocityStart c w) w).loop loop).get := by
    cases loop <;> rfl
  have hmiddle : ((velocityStart c w).loop loop).get = ((velocityDecided c w).loop loop).get := by
    cases loop <;> rfl
  have hstart : ((positionStart c).loop loop).get = (c.loop loop).get := by
    cases loop <;> rfl
  rw [hend, velocityControl_get, hmiddle, velocityDecided, velocityRamp_get, positionControl_get,
    hstart]

/-- Accesses to parameters leave the rest of a loop alone. -/
theorem access_of_parameter {a : Access ℚ Inputs} (ha : ∀ call, a ≠ .call call)
    (h : c.access a = .ok c') (loop : MotorControllerMode) :
    (c'.loop loop).get = (c.loop loop).get
      ∧ (c'.loop loop).dividerCounter = (c.loop loop).dividerCounter := by
  have hmodify : ∀ (f : P.Parameter → P.Parameter) (name : ParameterName),
      ((c.modifyParameter f name).loop loop).get = (c.loop loop).get
        ∧ ((c.modifyParameter f name).loop loop).dividerCounter
          = (c.loop loop).dividerCounter := by
    intro f name
    cases name with
    | pid loop' name => cases loop' <;> cases loop <;> exact ⟨rfl, rfl⟩
    | limit name => cases loop <;> exact ⟨rfl, rfl⟩
  cases a with
  | call call => exact absurd rfl (ha call)
  | configSet name value =>
    obtain rfl := Except.ok.inj h
    exact hmodify _ name
  | configTree name =>
    obtain rfl := Except.ok.inj h
    exact hmodify _ name
  | vmRead name =>
    obtain rfl := Except.ok.inj h
    exact ⟨rfl, rfl⟩
  | vmWrite name value =>
    obtain rfl := Except.ok.inj h
    exact hmodify _ name

/-- Setting the mode does not fail if the inputs are set. -/
theorem setMode_ok (hinputs : ∀ loop, (c.loop loop).get ≠ none) (mode : MotorControllerMode)
    (w : Inputs) : ∃ c', motorControllerSetMode c mode w = .ok c'
      ∧ ∀ loop, (c'.loop loop).get = (c.loop loop).get
        ∧ (c'.loop loop).dividerCounter = (c.loop loop).dividerCounter := by
  cases hset : motorControllerSetMode c mode w with
  | error e =>
    obtain ⟨-, hposition | hvelocity⟩ := motorControllerSetMode_eq_error hset
    · exact absurd hposition (hinputs .position)
    · exact absurd hvelocity (hinputs .velocity)
  | ok c' =>
    refine ⟨c', rfl, fun loop => ?_⟩
    obtain ⟨_, _, _, rfl, -⟩ := motorControllerSetMode_eq_ok hset
    cases loop <;> exact ⟨rfl, rfl⟩

theorem setTarget_frame (c : MotorController P Q Inputs) (mode : MotorControllerMode) (x : ℚ)
    (loop : MotorControllerMode) :
    ((c.modifyLoop mode (fun l => { l with targetSetpoint := x })).loop loop).get
        = (c.loop loop).get
      ∧ ((c.modifyLoop mode (fun l => { l with targetSetpoint := x })).loop loop).dividerCounter
        = (c.loop loop).dividerCounter := by
  cases mode <;> cases loop <;> exact ⟨rfl, rfl⟩

/-- A prescaler counts one tick. -/
theorem processed_dividerCounter_le {w : Inputs} {loop : MotorControllerMode}
    (hloop : loop ≠ .current) (h : 0 ≤ (c.loop loop).dividerCounter) :
    0 ≤ ((processed c w).2.loop loop).dividerCounter
      ∧ ((processed c w).2.loop loop).dividerCounter ≤ (c.loop loop).dividerCounter + 1 := by
  rw [processed_dividerCounter c w hloop, Prescaler.next_decide]
  split <;> omega

end Access

/-! ## The controller of a wheel -/

/-- The thread has already made its call for the wheel, on the lines for the given one. -/
def passed (wheel side : Wheel) : Bool := wheel = .left ∧ side = .right

/-- How far a tick is for a wheel when the thread is at a line. -/
def AtStage (wheel : Wheel) : Line → Stage → Prop
  | .start, stage => stage = .done
  | .wait, stage => stage = .done
  | .setMode side msg, stage => stage = if passed wheel side then .moded msg else .read (some msg)
  | .target side msg, stage => stage = if passed wheel side then .ready else .moded msg
  | .process side, stage =>
    if passed wheel side then stage = .done else stage = .ready ∨ stage = .read none
  | .set _, stage => stage = .done

/-- Whether the tick still has to process the controller. -/
def Stage.due : Stage → ℕ
  | .done => 0
  | _ => 1

/-- **The controller of a wheel** is where its calls and the accesses of others brought it. -/
structure WheelInv (infinity : ℚ) (wheel : Wheel) (line : Line) (c : MotorController P Q Inputs)
    (h : List Event) : Prop where
  controller : run MotorController.access (motorStart infinity wheel) (accesses wheel h) = .ok c
  inputs : ∀ loop, (c.loop loop).get ≠ none
  stage : ∃ stage, AtStage wheel line stage ∧ TickState wheel stage (ticks h) (calls wheel h)
    ∧ ∀ loop ≠ .current, 0 ≤ (c.loop loop).dividerCounter
      ∧ (c.loop loop).dividerCounter + stage.due ≤ (ticks h).length

section Histories

variable {wheel : Wheel} {h : List Event}

theorem ticks_append (h events : List Event) : ticks (h ++ events) = ticks h ++ ticks events :=
  List.filterMap_append

theorem accesses_append (wheel : Wheel) (h events : List Event) :
    accesses wheel (h ++ events) = accesses wheel h ++ accesses wheel events :=
  List.filterMap_append

theorem calls_append (wheel : Wheel) (h events : List Event) :
    calls wheel (h ++ events) = calls wheel h ++ calls wheel events := by
  unfold calls
  rw [accesses_append, List.filterMap_append]

/-- What others show, and what the thread shows of the other wheel. -/
structure Unrelated (wheel : Wheel) (events : List Event) : Prop where
  ticks : ticks events = []
  accesses : accesses wheel events = []

theorem unrelated_nil (wheel : Wheel) : Unrelated wheel [] := ⟨rfl, rfl⟩

theorem accesses_of_ne {side : Wheel} (hne : side ≠ wheel) (a : Access ℚ Inputs)
    (events : List Event) : accesses wheel (.access side a :: events) = accesses wheel events :=
  List.filterMap_cons_none (if_neg hne)

theorem unrelated_access {side : Wheel} (hne : side ≠ wheel) (a : Access ℚ Inputs) :
    Unrelated wheel [.access side a] :=
  ⟨rfl, accesses_of_ne hne a []⟩

end Histories

section Wheels

variable {infinity : ℚ} {wheel : Wheel} {line line' : Line} {c c' : MotorController P Q Inputs}
  {h events : List Event}

theorem wheelInv_init (infinity : ℚ) (wheel : Wheel) :
    WheelInv infinity wheel .start (motorStart (P := P) (Q := Q) infinity wheel) [] where
  controller := rfl
  inputs := fun loop => by cases loop <;> nofun
  stage := ⟨.done, rfl, .start, fun loop _ => by cases loop <;> exact ⟨le_refl _, le_refl _⟩⟩

/-- What does not concern the wheel. -/
theorem WheelInv.unrelated (hs : WheelInv infinity wheel line c h)
    (hevents : Unrelated wheel events)
    (hline : ∀ stage, AtStage wheel line stage → AtStage wheel line' stage) :
    WheelInv infinity wheel line' c (h ++ events) := by
  obtain ⟨stage, hat, htick, hcounter⟩ := hs.stage
  have hticks : ticks (h ++ events) = ticks h := by
    rw [ticks_append, hevents.ticks, List.append_nil]
  have haccesses : accesses wheel (h ++ events) = accesses wheel h := by
    rw [accesses_append, hevents.accesses, List.append_nil]
  refine ⟨?_, hs.inputs, stage, hline stage hat, ?_, ?_⟩
  · rw [haccesses]
    exact hs.controller
  · unfold calls
    rw [hticks, haccesses]
    exact htick
  · rw [hticks]
    exact hcounter

/-- An access appended to the history. -/
theorem controller_access (hrun : run MotorController.access (motorStart infinity wheel)
    (accesses wheel h) = .ok c) {a : Access ℚ Inputs} (hstep : c.access a = .ok c')
    (hevents : accesses wheel events = [a]) :
    run MotorController.access (motorStart infinity wheel) (accesses wheel (h ++ events))
      = .ok c' := by
  rw [accesses_append, hevents, run_append hrun, run_cons_of_step hstep]
  rfl

theorem accesses_self (wheel : Wheel) (a : Access ℚ Inputs) (events : List Event) :
    accesses wheel (.access wheel a :: events) = a :: accesses wheel events :=
  List.filterMap_cons_some (if_pos rfl)

/-- **A call of the thread for the wheel.** -/
theorem WheelInv.call (hs : WheelInv infinity wheel line c h) {call : Call ℚ Inputs}
    (hstep : c.access (.call call) = .ok c') (hticks : ticks events = [])
    (haccesses : accesses wheel events = [.call call])
    (hget : ∀ loop, (c'.loop loop).get = (c.loop loop).get)
    (hstage : ∀ stage, AtStage wheel line stage →
      TickState wheel stage (ticks h) (calls wheel h) →
      ∃ stage', AtStage wheel line' stage'
        ∧ TickState wheel stage' (ticks h) (calls wheel h ++ [call])
        ∧ ∀ loop ≠ .current, 0 ≤ (c.loop loop).dividerCounter →
          0 ≤ (c'.loop loop).dividerCounter
          ∧ (c'.loop loop).dividerCounter + stage'.due
            ≤ (c.loop loop).dividerCounter + stage.due) :
    WheelInv infinity wheel line' c' (h ++ events) := by
  obtain ⟨stage, hat, htick, hcounter⟩ := hs.stage
  obtain ⟨stage', hat', htick', hcounter'⟩ := hstage stage hat htick
  have hsame : ticks (h ++ events) = ticks h := by
    rw [ticks_append, hticks, List.append_nil]
  have hcalls : calls wheel (h ++ events) = calls wheel h ++ [call] := by
    rw [calls_append]
    unfold calls
    rw [haccesses]
    rfl
  refine ⟨controller_access hs.controller hstep haccesses, fun loop => ?_, stage', hat', ?_, ?_⟩
  · rw [hget]
    exact hs.inputs loop
  · rw [hsame, hcalls]
    exact htick'
  · intro loop hloop
    obtain ⟨hpos, hle⟩ := hcounter loop hloop
    obtain ⟨hpos', hle'⟩ := hcounter' loop hloop hpos
    rw [hsame]
    exact ⟨hpos', hle'.trans hle⟩

/-- The line for the other wheel leaves a wheel as far as it is. -/
theorem passed_left (side : Wheel) : passed side .left = false := by
  cases side <;> rfl

theorem WheelInv.setMode {side : Wheel} {msg : WheelsSetpoint}
    (hs : WheelInv infinity side (.setMode side msg) c h) (w : Inputs) :
    ∃ c', c.access (.call (.setMode msg.mode w)) = .ok c'
      ∧ WheelInv infinity side (afterLeft side (.setMode .right msg) (.target .left msg)) c'
        (h ++ [.access side (.call (.setMode msg.mode w))]) := by
  obtain ⟨c', hstep, hframe⟩ := setMode_ok hs.inputs msg.mode w
  have haccess : c.access (.call (.setMode msg.mode w)) = .ok c' := hstep
  refine ⟨c', haccess, hs.call haccess rfl (accesses_self _ _ _) (fun loop => (hframe loop).1) ?_⟩
  rintro stage hat htick
  obtain rfl : stage = .read (some msg) := by
    cases side <;> exact hat
  refine ⟨.moded msg, by cases side <;> rfl, .setMode w htick, fun loop _ hpos => ?_⟩
  rw [(hframe loop).2]
  exact ⟨hpos, le_refl _⟩

theorem WheelInv.target {side : Wheel} {msg : WheelsSetpoint}
    (hs : WheelInv infinity side (.target side msg) c h) :
    ∃ c', c.access (.call (.setTarget msg.mode (target msg side))) = .ok c'
      ∧ WheelInv infinity side (afterLeft side (.target .right msg) (.process .left)) c'
        (h ++ [.access side (.call (.setTarget msg.mode (target msg side)))]) := by
  have hframe := setTarget_frame c msg.mode (MotorPid.target msg side)
  refine ⟨_, rfl, hs.call rfl rfl (accesses_self _ _ _) (fun loop => (hframe loop).1) ?_⟩
  rintro stage hat htick
  obtain rfl : stage = .moded msg := by
    cases side <;> exact hat
  refine ⟨.ready, ?_, .target htick, fun loop _ hpos => ?_⟩
  · cases side with
    | left => rfl
    | right => exact Or.inl rfl
  · rw [(hframe loop).2]
    exact ⟨hpos, le_refl _⟩

/-- **Processing the controller of the wheel** completes the tick. -/
theorem WheelInv.process {side : Wheel} (hs : WheelInv infinity side (.process side) c h)
    (w : Inputs) (limit setpoint : ℚ) :
    (∃ r, motorControllerProcess c w = .ok r ∧ r = processed c w
        ∧ WheelInv infinity side (afterLeft side (.process .right) (.set .left)) r.2
          (h ++ [.access side (.call (.process w)), .controlled side limit setpoint]))
      ∨ motorControllerProcess c w = .error .intOverflow ∧ intMax ≤ (ticks h).length := by
  by_cases hover : intMax ≤ c.position.dividerCounter ∨ intMax ≤ c.velocity.dividerCounter
  · refine Or.inr ⟨motorControllerProcess_overflow w hover, ?_⟩
    obtain ⟨stage, -, -, hcounter⟩ := hs.stage
    have hposition : c.position.dividerCounter + stage.due ≤ (ticks h).length :=
      (hcounter .position (by decide)).2
    have hvelocity : c.velocity.dividerCounter + stage.due ≤ (ticks h).length :=
      (hcounter .velocity (by decide)).2
    omega
  · rw [not_or, not_le, not_le] at hover
    have hprocess := motorControllerProcess_eq w hover.1 hover.2
    have haccess : c.access (.call (.process w)) = .ok (processed c w).2 :=
      step_process_of_lt w hover.1 hover.2
    refine Or.inl ⟨processed c w, hprocess, rfl, hs.call haccess rfl (accesses_self _ _ _)
      (fun loop => processed_get c w loop) ?_⟩
    intro stage hat htick
    have hcounter : ∀ loop ≠ MotorControllerMode.current, 0 ≤ (c.loop loop).dividerCounter →
        0 ≤ ((processed c w).2.loop loop).dividerCounter
          ∧ ((processed c w).2.loop loop).dividerCounter + (0 : ℕ)
            ≤ (c.loop loop).dividerCounter + (1 : ℕ) := fun loop hloop hpos => by
      obtain ⟨hpos', hle⟩ := processed_dividerCounter_le (w := w) hloop hpos
      exact ⟨hpos', by omega⟩
    have hbefore : stage = .ready ∨ stage = .read none := by
      cases side <;> exact hat
    refine ⟨.done, by cases side <;> rfl, ?_⟩
    obtain rfl | rfl := hbefore
    · exact ⟨.process w htick, hcounter⟩
    · exact ⟨.idle w htick, hcounter⟩

/-- A tick begins. -/
theorem WheelInv.tick (hs : WheelInv infinity wheel .wait c h) (msg : Option WheelsSetpoint) :
    WheelInv infinity wheel (match msg with
      | none => .process .left
      | some msg => .setMode .left msg) c (h ++ [.tick msg]) := by
  obtain ⟨stage, rfl, htick, hcounter⟩ := hs.stage
  have hticks : ticks (h ++ [.tick msg]) = ticks h ++ [msg] := ticks_append h _
  have haccesses : accesses wheel (h ++ [.tick msg]) = accesses wheel h :=
    (accesses_append wheel h _).trans (List.append_nil _)
  refine ⟨?_, hs.inputs, .read msg, ?_, ?_, fun loop hloop => ?_⟩
  · rw [haccesses]
    exact hs.controller
  · cases msg with
    | none =>
      show if passed wheel .left then _ else _
      rw [passed_left]
      exact Or.inr rfl
    | some msg =>
      show _ = if passed wheel .left then _ else _
      rw [passed_left]
      rfl
  · unfold calls
    rw [hticks, haccesses]
    exact .read msg htick
  · obtain ⟨hpos, hle⟩ := hcounter loop hloop
    refine ⟨hpos, ?_⟩
    rw [hticks, List.length_append]
    have hdone : Stage.due .done = 0 := rfl
    have hread : (Stage.read msg).due = 1 := rfl
    have hone : ([msg] : List (Option WheelsSetpoint)).length = 1 := rfl
    omega

/-- **An access of somebody else** to a parameter of the wheel. -/
theorem WheelInv.access (hs : WheelInv infinity wheel line c h) {a : Access ℚ Inputs}
    (ha : ∀ call, a ≠ .call call) :
    ∃ c', c.access a = .ok c' ∧ WheelInv infinity wheel line c' (h ++ [.access wheel a]) := by
  have hok : ∃ c', c.access a = .ok c' := by
    cases a with
    | call call => exact absurd rfl (ha call)
    | _ => exact ⟨_, rfl⟩
  obtain ⟨c', hstep⟩ := hok
  obtain ⟨stage, hat, htick, hcounter⟩ := hs.stage
  have hframe := access_of_parameter ha hstep
  have hself := accesses_self wheel a []
  have hticks : ticks (h ++ [.access wheel a]) = ticks h :=
    (ticks_append h _).trans (List.append_nil _)
  have hcalls : calls wheel (h ++ [.access wheel a]) = calls wheel h := by
    have hnone : callOf a = none := by
      cases a with
      | call call => exact absurd rfl (ha call)
      | _ => rfl
    rw [calls_append]
    unfold calls
    rw [hself, List.filterMap_cons_none hnone]
    exact List.append_nil _
  refine ⟨c', hstep, controller_access hs.controller hstep hself, fun loop => ?_, stage, hat, ?_,
    fun loop hloop => ?_⟩
  · rw [(hframe loop).1]
    exact hs.inputs loop
  · rw [hticks, hcalls]
    exact htick
  · rw [hticks, (hframe loop).2]
    exact hcounter loop hloop

end Wheels

end

/-! ## The part that sets the voltages -/

section Output

open WheelVoltage (System Measured MotorVoltageMsg Quotient motorPwmSet clampDutyCycle pwmLimit
  pwmCycle wheelVoltageSet WheelStatics)

/-- The pulse widths of a wheel. -/
def pulses (o : System) : Wheel → Option (ℕ × ℕ)
  | .left => o.leftPwm
  | .right => o.rightPwm

/-- The voltage of a wheel in a message. -/
def voltageIn (msg : MotorVoltageMsg) : Wheel → ℚ
  | .left => msg.left
  | .right => msg.right

/-- **Pulses that the bridge of a motor can have**: on one of its phases at most, and no longer
than the limit allows. -/
def Bounded (x : Option (ℕ × ℕ)) : Prop :=
  ∀ a b, x = some (a, b) → (a = 0 ∨ b = 0) ∧ a ≤ 1980 ∧ b ≤ 1980

/-- The width of a pulse for a duty cycle within the limit. -/
theorem floor_le {x : ℚ} (h : x ≤ pwmLimit) : ⌊(pwmCycle : ℚ) * x⌋₊ ≤ 1980 := by
  refine Nat.floor_le_of_le ?_
  unfold pwmLimit at h
  unfold pwmCycle
  push_cast
  linarith

/-- The clamped duty cycle is within the limit. -/
theorem clampDutyCycle_within {q : Quotient} {x : ℚ} (h : clampDutyCycle q = some x) :
    -pwmLimit ≤ x ∧ x ≤ pwmLimit := by
  have hlimit : -pwmLimit ≤ pwmLimit := by
    unfold pwmLimit
    norm_num
  cases q with
  | finite y =>
    obtain rfl := Option.some.inj h
    split_ifs with habove hbelow
    · exact ⟨hlimit, le_refl _⟩
    · exact ⟨le_refl _, hlimit⟩
    · exact ⟨not_lt.mp hbelow, not_lt.mp habove⟩
  | infinite positive =>
    obtain rfl := Option.some.inj h
    cases positive with
    | true => exact ⟨hlimit, le_refl _⟩
    | false => exact ⟨le_refl _, hlimit⟩
  | nan => cases h

theorem bounded_motorPwmSet (isInverted : Bool) (q : Quotient) :
    Bounded (motorPwmSet isInverted q) := by
  intro a b h
  unfold motorPwmSet at h
  obtain ⟨x, hclamp, hpulses⟩ := Option.map_eq_some_iff.mp h
  obtain ⟨hbelow, habove⟩ := clampDutyCycle_within hclamp
  have hwithin : ∀ y : ℚ, (y = x ∨ y = -x) → y ≤ pwmLimit ∧ -y ≤ pwmLimit := by
    rintro y (rfl | rfl)
    · exact ⟨habove, by linarith⟩
    · exact ⟨by linarith, by linarith⟩
  obtain ⟨hle, hneg⟩ := hwithin (if isInverted then -x else x) (by split <;> simp)
  dsimp only at hpulses
  generalize (if isInverted then -x else x) = y at hpulses hle hneg
  split_ifs at hpulses
  · obtain ⟨rfl, rfl⟩ := Prod.mk.inj hpulses
    exact ⟨Or.inl rfl, Nat.zero_le _, floor_le hneg⟩
  · obtain ⟨rfl, rfl⟩ := Prod.mk.inj hpulses
    exact ⟨Or.inr rfl, floor_le hle, Nat.zero_le _⟩

variable {o : System} {events : List WheelVoltage.Event}

/-- Nobody but the thread touches the voltages. -/
structure SameVoltages (o o' : System) : Prop where
  message : o'.voltage.message = o.voltage.message
  pulses : ∀ wheel, pulses o' wheel = pulses o wheel

/-- **Before its loop** the thread does not stop, and sets nothing. -/
theorem motorStep_start (hm : Measured (o, events)) (hline : ∀ wheel, o.motorPidThd ≠ .set wheel)
    (voltage : ℚ) (isInverted : Bool) :
    ∃ o' events', o.motorStep voltage isInverted = .ok o' ∧ Measured (o', events')
      ∧ SameVoltages o o' ∧ o'.motorPidThd ≠ .set .right := by
  obtain ⟨o', hstep, hm'⟩ := WheelVoltage.measured_motorStep hm voltage isInverted
  refine ⟨o', _, hstep, hm', ?_⟩
  unfold System.motorStep at hstep
  cases hthd : o.motorPidThd with
  | start =>
    rw [hthd] at hstep
    obtain rfl := Except.ok.inj hstep
    exact ⟨⟨rfl, fun wheel => by cases wheel <;> rfl⟩, nofun⟩
  | wait services =>
    rw [hthd] at hstep
    cases services with
    | nil =>
      obtain rfl := Except.ok.inj hstep
      exact ⟨⟨rfl, fun wheel => by cases wheel <;> rfl⟩, by simp⟩
    | cons service services =>
      obtain rfl := Except.ok.inj hstep
      by_cases hadvertised : o.advertised service = true
      · rw [if_pos hadvertised]
        exact ⟨⟨rfl, fun wheel => by cases wheel <;> rfl⟩, nofun⟩
      · rw [if_neg hadvertised]
        exact ⟨⟨rfl, fun wheel => rfl⟩, hline .right⟩
  | set wheel => exact absurd hthd (hline wheel)

/-- What a call for a wheel publishes. -/
theorem wheelCall_message {wheel : Wheel} {voltage : ℚ} {call : WheelVoltage.WheelCall}
    (h : o.wheelCall wheel voltage = some call) :
    voltageIn call.message wheel = voltage
      ∧ ∀ msg, o.voltage.message = some msg → ∀ other ≠ wheel,
        voltageIn call.message other = voltageIn msg other := by
  have hset : ∀ (assign : MotorVoltageMsg → ℚ → MotorVoltageMsg) (statics : WheelStatics),
      wheelVoltageSet assign o statics voltage = some call →
      call.message = assign (o.voltage.read statics.voltageMsg) voltage := by
    intro assign statics h
    unfold wheelVoltageSet at h
    dsimp only at h
    split_ifs at h
    rw [← Option.some.inj h]
  cases wheel with
  | left =>
    rw [hset (fun m x => { m with left := x }) o.left h]
    refine ⟨rfl, fun msg hmsg other hne => ?_⟩
    rw [Topic.read_of_message hmsg]
    cases other with
    | left => exact absurd rfl hne
    | right => rfl
  | right =>
    rw [hset (fun m x => { m with right := x }) o.right h]
    refine ⟨rfl, fun msg hmsg other hne => ?_⟩
    rw [Topic.read_of_message hmsg]
    cases other with
    | left => rfl
    | right => exact absurd rfl hne

/-- **A call for a wheel** does not stop the thread. It changes the voltage of the wheel in the
message, and the pulses of the wheel. -/
theorem motorStep_set (hm : Measured (o, events)) {wheel : Wheel}
    (hline : o.motorPidThd = .set wheel) (voltage : ℚ) (isInverted : Bool) :
    ∃ o' events' msg, o.motorStep voltage isInverted = .ok o' ∧ Measured (o', events')
      ∧ o'.motorPidThd = .set wheel.next
      ∧ o'.voltage.message = some msg ∧ voltageIn msg wheel = voltage
      ∧ (∀ before, o.voltage.message = some before → ∀ other ≠ wheel,
        voltageIn msg other = voltageIn before other)
      ∧ Bounded (pulses o' wheel) ∧ ∀ other ≠ wheel, pulses o' other = pulses o other := by
  have hvoltage : o.voltage.advertised = true := hm.voltage.resolve_left (by simp [hline])
  have hbattery : o.battery.advertised = true := by
    obtain hstart | ⟨services, hwait, -⟩ | hfound := hm.found
    · exact nomatch hline.symm.trans hstart
    · exact nomatch hline.symm.trans hwait
    · exact hfound
  obtain ⟨call, hcall, htopic, -⟩ :=
    WheelVoltage.wheelCall_of_advertised hbattery hvoltage wheel voltage
  obtain ⟨o', hstep, hm'⟩ := WheelVoltage.measured_motorStep hm voltage isInverted
  obtain ⟨hself, hother⟩ := wheelCall_message hcall
  have hcalled : o.motorStep voltage isInverted = .ok (o.called isInverted call wheel) := by
    unfold System.motorStep
    rw [hline]
    dsimp only
    rw [hcall]
    exact if_pos htopic
  obtain rfl := Except.ok.inj (hstep.symm.trans hcalled)
  refine ⟨_, _, call.message, hstep, hm', ?_, ?_, hself, hother, ?_, ?_⟩
  · cases wheel <;> rfl
  · cases wheel <;> rfl
  · cases wheel <;> exact bounded_motorPwmSet _ _
  · intro other hne
    cases wheel <;> cases other <;> first | rfl | exact absurd rfl hne

/-- Where the thread is in the part that sets the voltages. -/
def Aligned (line : Line) (thd : WheelVoltage.MotorPidThd) : Prop :=
  match line with
  | .start => ∀ wheel, thd ≠ .set wheel
  | .set wheel => thd = .set wheel
  | _ => thd = .set .left

end Output

/-! ## The system -/

section

variable {P : ParameterLib ℚ} {Q : PidLib ℚ}

/-- What was read by a tick is what was published last. -/
def ReadsLatest (past : List Event) (x : Event) : Prop :=
  ∀ msg, x = .tick msg → msg = latest Event.message past

/-- The current that a controller is processed with is within the limit. -/
def WithinLimit (x : Event) : Prop :=
  ∀ wheel limit setpoint, x = .controlled wheel limit setpoint → 0 ≤ limit → |setpoint| ≤ limit

/-- **The invariant of the thread.** -/
structure PidInv (infinity : ℚ) (s : PidSystem P Q × List Event) : Prop where
  wheels : ∀ wheel, WheelInv infinity wheel s.1.line (s.1.wheel wheel).controller s.2
  message : s.1.setpoint.message = latest Event.message s.2
  reads : Always ReadsLatest s.2
  limits : ∀ x ∈ s.2, WithinLimit x
  measured : ∃ events, WheelVoltage.Measured (s.1.output, events)
  aligned : Aligned s.1.line s.1.output.motorPidThd
  voltages : ∀ wheel voltage, latest (Event.voltageOf wheel) s.2 = some voltage →
    ∃ msg, s.1.output.voltage.message = some msg ∧ voltageIn msg wheel = voltage
  bounded : ∀ wheel, Bounded (pulses s.1.output wheel)

theorem pidInv_init (infinity : ℚ) :
    PidInv infinity (PidSystem.init (P := P) (Q := Q) infinity, []) where
  wheels := fun wheel => by cases wheel <;> exact wheelInv_init infinity _
  message := rfl
  reads := always_nil _
  limits := fun x hx => nomatch hx
  measured := ⟨[], WheelVoltage.measured_init⟩
  aligned := nofun
  voltages := fun wheel voltage h => nomatch h
  bounded := fun wheel a b h => by
    cases wheel <;> · obtain ⟨rfl, rfl⟩ := Prod.mk.inj (Option.some.inj h)
                      exact ⟨Or.inl rfl, by decide, by decide⟩

/-- Events that say nothing of the messages, the limits and the voltages. -/
def Event.Plain (x : Event) : Prop :=
  x.message = none ∧ x.read = none ∧ (∀ wheel, x.voltageOf wheel = none) ∧ WithinLimit x

theorem plain_access (wheel : Wheel) (a : Access ℚ Inputs) : (Event.access wheel a).Plain :=
  ⟨rfl, rfl, fun _ => rfl, nofun⟩

section Steps

variable {infinity : ℚ} {s s' : PidSystem P Q} {h events : List Event}

/-- **A step that touches neither the topic of the set-points nor the voltages** keeps the
invariant, if it keeps that of the wheels. -/
theorem PidInv.silent (hs : PidInv infinity (s, h)) (hevents : ∀ x ∈ events, x.Plain)
    (hwheels : ∀ wheel, WheelInv infinity wheel s'.line (s'.wheel wheel).controller (h ++ events))
    (hmessage : s'.setpoint.message = s.setpoint.message)
    (hmeasured : ∃ events, WheelVoltage.Measured (s'.output, events))
    (hsame : SameVoltages s.output s'.output)
    (haligned : Aligned s'.line s'.output.motorPidThd) : PidInv infinity (s', h ++ events) where
  wheels := hwheels
  message := by
    show s'.setpoint.message = _
    rw [hmessage, latest_append_of_none (fun x hx => (hevents x hx).1)]
    exact hs.message
  reads := always_append hs.reads (fun x hx past msg heq => by
    have hread := (hevents x hx).2.1
    rw [heq] at hread
    exact nomatch hread)
  limits := fun x hx => by
    obtain hx | hx := List.mem_append.mp hx
    · exact hs.limits x hx
    · exact (hevents x hx).2.2.2
  measured := hmeasured
  aligned := haligned
  voltages := fun wheel voltage hlatest => by
    rw [latest_append_of_none (fun x hx => (hevents x hx).2.2.1 wheel)] at hlatest
    obtain ⟨msg, hmsg, heq⟩ := hs.voltages wheel voltage hlatest
    exact ⟨msg, hsame.message.trans hmsg, heq⟩
  bounded := fun wheel => by
    show Bounded (pulses s'.output wheel)
    rw [hsame.pulses]
    exact hs.bounded wheel

theorem sameVoltages_refl (o : WheelVoltage.System) : SameVoltages o o := ⟨rfl, fun _ => rfl⟩

@[simp] theorem wheel_setWheel_self (s : PidSystem P Q) (x : WheelControl P Q) (wheel : Wheel) :
    (s.setWheel x wheel).wheel wheel = x := by
  cases wheel <;> rfl

theorem wheel_setWheel_of_ne (s : PidSystem P Q) (x : WheelControl P Q) {wheel other : Wheel}
    (hne : wheel ≠ other) : (s.setWheel x wheel).wheel other = s.wheel other := by
  cases wheel <;> cases other <;> first | rfl | exact absurd rfl hne

@[simp] theorem setpoint_setWheel (s : PidSystem P Q) (x : WheelControl P Q) (wheel : Wheel) :
    (s.setWheel x wheel).setpoint = s.setpoint := by
  cases wheel <;> rfl

@[simp] theorem output_setWheel (s : PidSystem P Q) (x : WheelControl P Q) (wheel : Wheel) :
    (s.setWheel x wheel).output = s.output := by
  cases wheel <;> rfl

@[simp] theorem line_setWheel (s : PidSystem P Q) (x : WheelControl P Q) (wheel : Wheel) :
    (s.setWheel x wheel).line = s.line := by
  cases wheel <;> rfl

/-- A set-point is published. -/
theorem pidInv_publish (hs : PidInv infinity (s, h)) (msg : WheelsSetpoint) :
    ∃ s', s.step (.publish msg) = .ok s' ∧ PidInv infinity (s', h ++ s.shows (.publish msg)) := by
  refine ⟨_, rfl, ?_⟩
  unfold PidSystem.shows
  dsimp only
  by_cases hadvertised : s.setpoint.advertised = true
  · rw [if_pos hadvertised, if_pos hadvertised]
    refine ⟨fun wheel => ?_, ?_, ?_, ?_, hs.measured, hs.aligned, ?_, hs.bounded⟩
    · have hwheel : WheelInv infinity wheel s.line _ (h ++ [.published msg]) :=
        (hs.wheels wheel).unrelated ⟨rfl, rfl⟩ (fun _ hat => hat)
      cases wheel <;> exact hwheel
    · exact (latest_concat Event.message h (.published msg)).symm
    · exact always_concat.mpr ⟨hs.reads, nofun⟩
    · intro x hx
      obtain hx | hx := List.mem_append.mp hx
      · exact hs.limits x hx
      · obtain rfl := List.mem_singleton.mp hx
        exact nofun
    · intro wheel voltage hlatest
      rw [latest_concat] at hlatest
      exact hs.voltages wheel voltage hlatest
  · rw [if_neg hadvertised, if_neg hadvertised, List.append_nil]
    exact hs

/-- An access of somebody else. -/
theorem pidInv_access (hs : PidInv infinity (s, h)) (side : Wheel) {a : Access ℚ Inputs}
    (ha : ∀ call, a ≠ .call call) :
    ∃ s', s.access side a = .ok s' ∧ PidInv infinity (s', h ++ [.access side a]) := by
  obtain ⟨c, hstep, hown⟩ := (hs.wheels side).access ha
  refine ⟨s.setWheel { s.wheel side with controller := c } side, ?_, ?_⟩
  · unfold PidSystem.access
    dsimp only at hstep
    rw [hstep]
  · refine hs.silent (fun x hx => List.mem_singleton.mp hx ▸ plain_access _ _) (fun wheel => ?_)
      (by rw [setpoint_setWheel]) (by rw [output_setWheel]; exact hs.measured)
      (by rw [output_setWheel]; exact sameVoltages_refl _)
      (by rw [output_setWheel, line_setWheel]; exact hs.aligned)
    rw [line_setWheel]
    by_cases hne : side = wheel
    · subst hne
      rw [wheel_setWheel_self]
      exact hown
    · rw [wheel_setWheel_of_ne _ _ hne]
      exact (hs.wheels wheel).unrelated (unrelated_access hne a) (fun _ hat => hat)

/-- A step of the threads that serve the part that sets the voltages. -/
theorem PidInv.other (hs : PidInv infinity (s, h)) {o : WheelVoltage.System}
    (hmeasured : ∃ events, WheelVoltage.Measured (o, events)) (hsame : SameVoltages s.output o)
    (hthd : o.motorPidThd = s.output.motorPidThd) :
    PidInv infinity ({ s with output := o }, h) := by
  have haligned : Aligned s.line o.motorPidThd := by
    rw [hthd]
    exact hs.aligned
  have hsilent : PidInv infinity ({ s with output := o }, h ++ []) :=
    hs.silent (fun x hx => nomatch hx) (fun wheel => by
      rw [List.append_nil]
      cases wheel <;> exact hs.wheels _) rfl hmeasured hsame haligned
  rw [List.append_nil] at hsilent
  exact hsilent

theorem pidInv_batteryThd (hs : PidInv infinity (s, h)) (samples : WheelVoltage.Samples) :
    PidInv infinity ({ s with output := s.output.batteryStep samples }, h) := by
  obtain ⟨events, hmeasured⟩ := hs.measured
  refine hs.other ⟨_, WheelVoltage.measured_batteryStep hmeasured samples⟩ ?_ ?_
  · unfold WheelVoltage.System.batteryStep
    split <;> exact ⟨rfl, fun wheel => by cases wheel <;> rfl⟩
  · unfold WheelVoltage.System.batteryStep
    split <;> rfl

theorem pidInv_otherThd (hs : PidInv infinity (s, h)) (service : WheelVoltage.Service) :
    PidInv infinity
      ({ s with output := { s.output with others := service :: s.output.others } }, h) := by
  obtain ⟨events, hmeasured⟩ := hs.measured
  exact hs.other ⟨events, WheelVoltage.measured_silent hmeasured hmeasured.voltage hmeasured.found
    id rfl rfl (by funext wheel; cases wheel <;> rfl)⟩ ⟨rfl, fun wheel => by cases wheel <;> rfl⟩ rfl

/-- A call of the thread, and the line that follows. -/
theorem PidInv.call (hs : PidInv infinity (s, h)) {side : Wheel} {a : Access ℚ Inputs}
    {line : Line} {c : MotorController P Q Inputs}
    (hstep : (s.wheel side).controller.access a = .ok c)
    (hown : WheelInv infinity side line c (h ++ [.access side a]))
    (hother : ∀ wheel ≠ side, ∀ stage, AtStage wheel s.line stage → AtStage wheel line stage)
    (haligned : Aligned line s.output.motorPidThd) :
    ∃ s', (s.access side a).map (fun s => { s with line := line }) = .ok s'
      ∧ PidInv infinity (s', h ++ [.access side a]) := by
  refine ⟨{ s.setWheel { s.wheel side with controller := c } side with line := line }, ?_, ?_⟩
  · unfold PidSystem.access
    rw [hstep]
    rfl
  · refine hs.silent (fun x hx => List.mem_singleton.mp hx ▸ plain_access _ _) (fun wheel => ?_)
      (congrArg _ (setpoint_setWheel _ _ _)) (by rw [output_setWheel]; exact hs.measured)
      (by rw [output_setWheel]; exact sameVoltages_refl _)
      (by rw [output_setWheel]; exact haligned)
    show WheelInv infinity wheel line
      ((s.setWheel { s.wheel side with controller := c } side).wheel wheel).controller _
    by_cases hne : side = wheel
    · subst hne
      rw [wheel_setWheel_self]
      exact hown
    · rw [wheel_setWheel_of_ne _ _ hne]
      exact (hs.wheels wheel).unrelated (unrelated_access hne a) (hother wheel (Ne.symm hne))

/-- The lines of a tick: nothing is to be set yet. -/
theorem aligned_of_tick {line line' : Line} {thd : WheelVoltage.MotorPidThd}
    (h : Aligned line thd) (hline : line ≠ .start ∧ ∀ wheel, line ≠ .set wheel)
    (hline' : line' ≠ .start ∧ line' ≠ .set .right) : Aligned line' thd := by
  have hthd : thd = .set .left := by
    cases line with
    | start => exact absurd rfl hline.1
    | set wheel => exact absurd rfl (hline.2 wheel)
    | _ => exact h
  cases line' with
  | start => exact absurd rfl hline'.1
  | set wheel =>
    cases wheel with
    | left => exact hthd
    | right => exact absurd rfl hline'.2
  | _ => exact hthd

theorem pidInv_setMode (hs : PidInv infinity (s, h)) {side : Wheel} {msg : WheelsSetpoint}
    (hline : s.line = .setMode side msg) (w : Inputs) (isInverted : Bool) :
    ∃ s', s.threadStep w isInverted = .ok s'
      ∧ PidInv infinity (s', h ++ s.shows (.thread w isInverted)) := by
  have hown := hs.wheels side
  rw [hline] at hown
  obtain ⟨c, hstep, hown'⟩ := hown.setMode w
  unfold PidSystem.threadStep PidSystem.shows
  dsimp only
  rw [hline]
  refine hs.call hstep hown' (fun wheel hne stage hat => ?_)
    (aligned_of_tick hs.aligned (by rw [hline]; exact ⟨nofun, nofun⟩)
      (by cases side <;> exact ⟨nofun, nofun⟩))
  rw [hline] at hat
  cases side <;> cases wheel <;> first | exact absurd rfl hne | exact hat

theorem pidInv_target (hs : PidInv infinity (s, h)) {side : Wheel} {msg : WheelsSetpoint}
    (hline : s.line = .target side msg) (w : Inputs) (isInverted : Bool) :
    ∃ s', s.threadStep w isInverted = .ok s'
      ∧ PidInv infinity (s', h ++ s.shows (.thread w isInverted)) := by
  have hown := hs.wheels side
  rw [hline] at hown
  obtain ⟨c, hstep, hown'⟩ := hown.target
  unfold PidSystem.threadStep PidSystem.shows
  dsimp only
  rw [hline]
  refine hs.call hstep hown' (fun wheel hne stage hat => ?_)
    (aligned_of_tick hs.aligned (by rw [hline]; exact ⟨nofun, nofun⟩)
      (by cases side <;> exact ⟨nofun, nofun⟩))
  rw [hline] at hat
  cases side with
  | left =>
    cases wheel with
    | left => exact absurd rfl hne
    | right => exact hat
  | right =>
    cases wheel with
    | left => exact Or.inl hat
    | right => exact absurd rfl hne

/-- A tick begins. -/
theorem pidInv_wait (hs : PidInv infinity (s, h)) (hline : s.line = .wait) (w : Inputs)
    (isInverted : Bool) :
    ∃ s', s.threadStep w isInverted = .ok s'
      ∧ PidInv infinity (s', h ++ s.shows (.thread w isInverted)) := by
  unfold PidSystem.threadStep PidSystem.shows
  dsimp only
  rw [hline]
  refine ⟨_, rfl, ?_⟩
  refine ⟨fun wheel => ?_, ?_, ?_, ?_, hs.measured, ?_, ?_, hs.bounded⟩
  · have hwheel := hs.wheels wheel
    rw [hline] at hwheel
    have htick := hwheel.tick s.setpoint.message
    cases wheel <;> exact htick
  · rw [latest_concat]
    exact hs.message
  · refine always_concat.mpr ⟨hs.reads, ?_⟩
    rintro msg heq
    obtain rfl := Event.tick.inj heq
    exact hs.message
  · intro x hx
    obtain hx | hx := List.mem_append.mp hx
    · exact hs.limits x hx
    · obtain rfl := List.mem_singleton.mp hx
      exact nofun
  · refine aligned_of_tick hs.aligned (by rw [hline]; exact ⟨nofun, nofun⟩) ?_
    cases s.setpoint.message <;> exact ⟨nofun, nofun⟩
  · intro wheel voltage hlatest
    rw [latest_concat] at hlatest
    exact hs.voltages wheel voltage hlatest

/-- **Processing a controller** keeps the invariant, if no counter is at its end. -/
theorem pidInv_process (hs : PidInv infinity (s, h)) {side : Wheel}
    (hline : s.line = .process side) (w : Inputs) (isInverted : Bool) :
    (∃ s', s.threadStep w isInverted = .ok s'
        ∧ PidInv infinity (s', h ++ s.shows (.thread w isInverted)))
      ∨ s.threadStep w isInverted = .error (.controller .intOverflow)
        ∧ intMax ≤ (ticks h).length := by
  have hown := hs.wheels side
  rw [hline] at hown
  unfold PidSystem.threadStep PidSystem.shows PidSystem.process
  dsimp only
  rw [hline]
  dsimp only
  obtain ⟨r, hprocess, rfl, hown'⟩ | ⟨hprocess, hlength⟩ := hown.process w
    (P.get (s.wheel side).controller.limits.current).1
    (processed (s.wheel side).controller w).2.current.setpoint
  · refine Or.inl ⟨_, by rw [hprocess]; rfl, ?_⟩
    refine hs.silent (fun x hx => ?_) (fun wheel => ?_) (congrArg _ (setpoint_setWheel _ _ _))
      (by rw [output_setWheel]; exact hs.measured)
      (by rw [output_setWheel]; exact sameVoltages_refl _)
      (by
        rw [output_setWheel]
        exact aligned_of_tick hs.aligned (by rw [hline]; exact ⟨nofun, nofun⟩)
          (by cases side <;> exact ⟨nofun, nofun⟩))
    · obtain rfl | hx := List.mem_cons.mp hx
      · exact plain_access _ _
      · obtain rfl := List.mem_singleton.mp hx
        refine ⟨rfl, rfl, fun _ => rfl, fun wheel limit setpoint heq hpos => ?_⟩
        obtain ⟨-, rfl, rfl⟩ := Event.controlled.inj heq
        obtain ⟨requested, hclamped, -⟩ :=
          processed_current (c := (s.wheel side).controller) (w := w)
        rw [hclamped]
        exact abs_limitSymmetric_le hpos requested
    · show WheelInv infinity wheel (afterLeft side (.process .right) (.set .left))
        ((s.setWheel _ side).wheel wheel).controller _
      by_cases hne : side = wheel
      · subst hne
        rw [wheel_setWheel_self]
        exact hown'
      · rw [wheel_setWheel_of_ne _ _ hne]
        refine (hs.wheels wheel).unrelated ⟨rfl, accesses_of_ne hne _ _⟩ (fun stage hat => ?_)
        rw [show s.line = .process side from hline] at hat
        cases side <;> cases wheel <;> first | exact absurd rfl hne | exact hat
  · exact Or.inr ⟨by rw [hprocess]; rfl, hlength⟩

/-- Before the loop of the thread. -/
theorem pidInv_start (hs : PidInv infinity (s, h)) (hline : s.line = .start) (w : Inputs)
    (isInverted : Bool) :
    ∃ s', s.threadStep w isInverted = .ok s'
      ∧ PidInv infinity (s', h ++ s.shows (.thread w isInverted)) := by
  obtain ⟨events, hmeasured⟩ := hs.measured
  have haligned := hs.aligned
  rw [show s.line = .start from hline] at haligned
  obtain ⟨o', events', hstep, hmeasured', hsame, hright⟩ :=
    motorStep_start hmeasured haligned 0 isInverted
  unfold PidSystem.threadStep PidSystem.shows PidSystem.outputStep
  dsimp only
  rw [hline]
  refine ⟨_, by dsimp only; rw [hstep]; rfl, ?_⟩
  refine hs.silent (fun x hx => nomatch hx) (fun wheel => ?_) rfl ⟨events', hmeasured'⟩ hsame ?_
  · have hwheel : WheelInv infinity wheel
        (if o'.motorPidThd = .set .left then .wait else .start) _ (h ++ []) :=
      (hs.wheels wheel).unrelated (unrelated_nil wheel) (fun stage hat => by
        rw [show s.line = .start from hline] at hat
        split <;> exact hat)
    cases wheel <;> exact hwheel
  · dsimp only
    by_cases hset : o'.motorPidThd = .set .left
    · rw [if_pos hset]
      exact hset
    · rw [if_neg hset]
      rintro (_ | _)
      · exact hset
      · exact hright

/-- **Setting a voltage** does not stop the thread. -/
theorem pidInv_set (hs : PidInv infinity (s, h)) {side : Wheel} (hline : s.line = .set side)
    (w : Inputs) (isInverted : Bool) :
    ∃ s', s.threadStep w isInverted = .ok s'
      ∧ PidInv infinity (s', h ++ s.shows (.thread w isInverted)) := by
  obtain ⟨events, hmeasured⟩ := hs.measured
  have haligned := hs.aligned
  rw [show s.line = .set side from hline] at haligned
  obtain ⟨o', events', msg, hstep, hmeasured', hthd, hmessage, hself, hother, hbounded, hsame⟩ :=
    motorStep_set hmeasured haligned (s.wheel side).voltage isInverted
  unfold PidSystem.threadStep PidSystem.shows PidSystem.outputStep
  dsimp only
  rw [hline]
  refine ⟨_, by dsimp only; rw [hstep]; rfl, ?_⟩
  refine ⟨fun wheel => ?_, ?_, ?_, ?_, ⟨events', hmeasured'⟩, ?_, ?_, ?_⟩
  · have hwheel : WheelInv infinity wheel (afterLeft side (.set .right) .wait) _
        (h ++ [.set side (s.wheel side).voltage]) :=
      (hs.wheels wheel).unrelated ⟨rfl, rfl⟩ (fun stage hat => by
        rw [show s.line = .set side from hline] at hat
        cases side <;> exact hat)
    cases wheel <;> exact hwheel
  · rw [latest_concat]
    exact hs.message
  · exact always_concat.mpr ⟨hs.reads, nofun⟩
  · intro x hx
    obtain hx | hx := List.mem_append.mp hx
    · exact hs.limits x hx
    · obtain rfl := List.mem_singleton.mp hx
      exact nofun
  · cases side <;> exact hthd
  · intro wheel voltage hlatest
    rw [latest_concat] at hlatest
    refine ⟨msg, hmessage, ?_⟩
    by_cases hne : wheel = side
    · subst hne
      have hnew : Event.voltageOf wheel (.set wheel (s.wheel wheel).voltage)
          = some (s.wheel wheel).voltage := if_pos rfl
      rw [hnew] at hlatest
      exact hself.trans (Option.some.inj hlatest)
    · have hold : Event.voltageOf wheel (.set side (s.wheel side).voltage) = none :=
        if_neg (Ne.symm hne)
      rw [hold, Option.none_or] at hlatest
      obtain ⟨before, hbefore, heq⟩ := hs.voltages wheel voltage hlatest
      rw [hother before hbefore wheel hne]
      exact heq
  · intro wheel
    by_cases hne : wheel = side
    · subst hne
      exact hbounded
    · show Bounded (pulses o' wheel)
      rw [hsame wheel hne]
      exact hs.bounded wheel

/-- **A step of the thread** keeps the invariant, or finds a counter at its end. -/
theorem pidInv_threadStep (hs : PidInv infinity (s, h)) (w : Inputs) (isInverted : Bool) :
    (∃ s', s.threadStep w isInverted = .ok s'
        ∧ PidInv infinity (s', h ++ s.shows (.thread w isInverted)))
      ∨ s.threadStep w isInverted = .error (.controller .intOverflow)
        ∧ intMax ≤ (ticks h).length := by
  cases hline : s.line with
  | start => exact Or.inl (pidInv_start hs hline w isInverted)
  | wait => exact Or.inl (pidInv_wait hs hline w isInverted)
  | setMode side msg => exact Or.inl (pidInv_setMode hs hline w isInverted)
  | target side msg => exact Or.inl (pidInv_target hs hline w isInverted)
  | process side => exact pidInv_process hs hline w isInverted
  | set side => exact Or.inl (pidInv_set hs hline w isInverted)

/-- **A step of anybody** keeps the invariant, or finds a counter at its end. -/
theorem pidInv_step {s : PidSystem P Q × List Event} (hs : PidInv infinity s) (i : Step) :
    (∃ s', recorded PidSystem.step PidSystem.shows s i = .ok s' ∧ PidInv infinity s')
      ∨ ∃ e, recorded PidSystem.step PidSystem.shows s i = .error e
        ∧ e = .controller .intOverflow ∧ intMax ≤ (ticks s.2).length := by
  obtain ⟨s, h⟩ := s
  have hrecorded : ∀ i,
      (∃ s', s.step i = .ok s' ∧ PidInv infinity (s', h ++ s.shows i)) →
      ∃ s', recorded PidSystem.step PidSystem.shows (s, h) i = .ok s' ∧ PidInv infinity s' :=
    fun i ⟨s', hstep, hs'⟩ => ⟨(s', _), recorded_eq_ok.mpr ⟨hstep, rfl⟩, hs'⟩
  cases i with
  | publish msg => exact Or.inl (hrecorded _ (pidInv_publish hs msg))
  | access side a ha => exact Or.inl (hrecorded _ (pidInv_access hs side ha))
  | otherThd service hservice =>
    refine Or.inl (hrecorded _ ⟨_, rfl, ?_⟩)
    show PidInv infinity (_, h ++ [])
    rw [List.append_nil]
    exact pidInv_otherThd hs service
  | batteryThd samples =>
    refine Or.inl (hrecorded _ ⟨_, rfl, ?_⟩)
    show PidInv infinity (_, h ++ [])
    rw [List.append_nil]
    exact pidInv_batteryThd hs samples
  | thread w isInverted =>
    obtain hok | ⟨herror, hlength⟩ := pidInv_threadStep hs w isInverted
    · exact Or.inl (hrecorded _ hok)
    · have hstep : s.step (.thread w isInverted) = .error (.controller .intOverflow) := herror
      exact Or.inr ⟨_, congrArg (Except.map _) hstep, rfl, hlength⟩

end Steps

/-! ## Whole runs -/

/-- **The stages of ticks**: complete ticks, and one that is not. -/
theorem TickState.ticks {wheel : Wheel} {stage : Stage} {messages : List (Option WheelsSetpoint)}
    {calls : List (Call ℚ Inputs)} (h : TickState wheel stage messages calls) :
    match stage with
    | .done => Ticks wheel messages calls
    | .read msg => ∃ before, messages = before ++ [msg] ∧ Ticks wheel before calls
    | .moded msg => ∃ before calls' w, messages = before ++ [some msg]
        ∧ calls = calls' ++ [.setMode msg.mode w] ∧ Ticks wheel before calls'
    | .ready => ∃ before calls' msg w, messages = before ++ [some msg]
        ∧ calls = calls' ++ [.setMode msg.mode w, .setTarget msg.mode (MotorPid.target msg wheel)]
        ∧ Ticks wheel before calls' := by
  induction h with
  | start => exact .nil
  | read msg _ ih => exact ⟨_, rfl, ih⟩
  | setMode w _ ih =>
    obtain ⟨before, rfl, hticks⟩ := ih
    exact ⟨before, _, w, rfl, rfl, hticks⟩
  | target _ ih =>
    obtain ⟨before, calls', w, rfl, rfl, hticks⟩ := ih
    exact ⟨before, calls', _, w, rfl, List.append_assoc _ _ _, hticks⟩
  | idle w _ ih =>
    obtain ⟨before, rfl, hticks⟩ := ih
    exact .idle w hticks
  | process w' _ ih =>
    obtain ⟨before, calls', msg, w, rfl, rfl, hticks⟩ := ih
    show Ticks wheel _ (calls' ++ [_, _] ++ [_])
    rw [List.append_assoc]
    exact .message msg w w' hticks

/-- **What holds in every run of the thread.** -/
structure Controlled (infinity : ℚ) (s : PidSystem P Q) (h : List Event) : Prop where
  /-- The controller of a wheel is where the accesses to it brought it. -/
  controllers : ∀ wheel,
    run MotorController.access (motorStart infinity wheel) (accesses wheel h)
      = .ok (s.wheel wheel).controller
  /-- The thread calls the controllers as the ticks say, and the tick that is not complete has
  not processed the controller. -/
  ticks : ∀ wheel, ∃ messages calls' started unfinished,
    ticks h = messages ++ started ∧ calls wheel h = calls' ++ unfinished
      ∧ Ticks wheel messages calls' ∧ started.length ≤ 1 ∧ ∀ w, .process w ∉ unfinished
  reads : Always ReadsLatest h
  limits : ∀ x ∈ h, WithinLimit x
  /-- The topic of the voltages shows what was set last for each wheel. -/
  voltages : ∀ wheel voltage, latest (Event.voltageOf wheel) h = some voltage →
    ∃ msg, s.output.voltage.message = some msg ∧ voltageIn msg wheel = voltage
  bounded : ∀ wheel, Bounded (pulses s.output wheel)

theorem PidInv.controlled {infinity : ℚ} {s : PidSystem P Q} {h : List Event}
    (hs : PidInv infinity (s, h)) : Controlled infinity s h where
  controllers := fun wheel => (hs.wheels wheel).controller
  ticks := fun wheel => by
    obtain ⟨stage, -, htick, -⟩ := (hs.wheels wheel).stage
    have hticks := htick.ticks
    cases stage with
    | done =>
      exact ⟨_, _, [], [], (List.append_nil _).symm, (List.append_nil _).symm, hticks,
        Nat.zero_le _, fun w hw => nomatch hw⟩
    | read msg =>
      obtain ⟨before, heq, hbefore⟩ := hticks
      exact ⟨before, _, [msg], [], heq, (List.append_nil _).symm, hbefore, le_refl _,
        fun w hw => nomatch hw⟩
    | moded msg =>
      obtain ⟨before, calls', w, heq, hcalls, hbefore⟩ := hticks
      exact ⟨before, calls', [some msg], _, heq, hcalls, hbefore, le_refl _, by simp⟩
    | ready =>
      obtain ⟨before, calls', msg, w, heq, hcalls, hbefore⟩ := hticks
      exact ⟨before, calls', [some msg], _, heq, hcalls, hbefore, le_refl _, by simp⟩
  reads := hs.reads
  limits := hs.limits
  voltages := hs.voltages
  bounded := hs.bounded

/-- **The thread controls both wheels.** In every run, whatever is published, measured and
configured meanwhile, each controller gets exactly the calls that the messages ask for, with the
values for its wheel; the messages are those published last; the currents are within the
limits; and the voltages that are set are those that are shown. Nothing stops the thread but a
counter that is at its end after `INT_MAX` ticks. -/
theorem controls_both_wheels (infinity : ℚ) (is : List Step) :
    (∃ s h, run (recorded PidSystem.step PidSystem.shows)
        (PidSystem.init (P := P) (Q := Q) infinity, []) is = .ok (s, h)
      ∧ Controlled infinity s h)
    ∨ ∃ js i ks s h, is = js ++ i :: ks
      ∧ run (recorded PidSystem.step PidSystem.shows)
        (PidSystem.init (P := P) (Q := Q) infinity, []) js = .ok (s, h)
      ∧ Controlled infinity s h ∧ s.step i = .error (.controller .intOverflow)
      ∧ intMax ≤ (ticks h).length := by
  obtain ⟨⟨s, h⟩, hrun, hs⟩ | ⟨js, i, ks, ⟨s, h⟩, e, heq, hrun, hs, hstep, rfl, hlength⟩ :=
    run_total_or_error (fun s i hs => pidInv_step hs i)
      (pidInv_init (P := P) (Q := Q) infinity) is
  · exact Or.inl ⟨s, h, hrun, hs.controlled⟩
  · refine Or.inr ⟨js, i, ks, s, h, heq, hrun, hs.controlled, ?_, hlength⟩
    cases hone : s.step i with
    | ok s' =>
      have hok : recorded PidSystem.step PidSystem.shows (s, h) i = .ok (s', h ++ s.shows i) :=
        recorded_eq_ok.mpr ⟨hone, rfl⟩
      exact nomatch hstep.symm.trans hok
    | error e =>
      have herror : recorded PidSystem.step PidSystem.shows (s, h) i = .error e :=
        congrArg (Except.map (fun s' => (s', h ++ s.shows i))) hone
      rw [Except.error.inj (hstep.symm.trans herror)]

end

end MotorPid
