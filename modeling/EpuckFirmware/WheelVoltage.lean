import EpuckFirmware.History
import EpuckFirmware.MessageBus
import Mathlib.Tactic

/-!
# The voltages of the wheels

The thread of the controllers divides the voltage that it wants by the voltage of the
battery. It waits until the topic of the battery is advertised, which is before the
first measurement: until that one is published it divides by the zero of its static
variable. After that it divides by zero exactly if the last measurement was zero.

Rounding does not turn a positive measurement to zero, and the voltages are exact here.
-/

namespace WheelVoltage

open StepMachine History MessageBus

/-! ## The measurement of the battery -/

/-- `DMA_BUFFER_SIZE`. -/
def dmaBufferSize : ℕ := 16

/-- What the converter passes to its callback: half a buffer of samples. -/
def Samples : Type := { samples : List (BitVec 16) // samples.length = dmaBufferSize / 2 }

/-- The sum of the samples. -/
def sum (samples : List (BitVec 16)) : ℕ := (samples.map BitVec.toNat).sum

/-- `adc_cb`: the value of `battery_value` after the loop and the division. -/
def adcCb (samples : List (BitVec 16)) : ℕ :=
  samples.foldl (fun batteryValue sample => (batteryValue + sample.toNat) % 2 ^ 32) 0
    / samples.length

/-- `ADC_GAIN`. -/
def adcGain : ℚ := 33 / 10 / 4096

/-- `BATTERY_ADC_GAIN`. -/
def batteryAdcGain : ℚ := (51 + 33) / 33

/-- The voltage of `battery_msg_t`. -/
def batteryVoltage (batteryValue : ℕ) : ℚ := batteryValue * adcGain * batteryAdcGain

/-! ## The pulse widths -/

/-- What a division of two `float` gives. -/
inductive Quotient
  | finite (x : ℚ)
  /-- Infinity, of the given sign. -/
  | infinite (positive : Bool)
  | nan
  deriving DecidableEq

/-- The division of two `float`, where a divisor that is zero is the positive zero. -/
def divide (x y : ℚ) : Quotient :=
  if y ≠ 0 then .finite (x / y) else if x = 0 then .nan else .infinite (0 < x)

/-- `PWM_CYCLE`. -/
def pwmCycle : ℕ := 42000000 / 21000

/-- `PWM_LIMIT`. -/
def pwmLimit : ℚ := 99 / 100

/-- The clamping of the duty cycle. -/
def clampDutyCycle : Quotient → Option ℚ
  | .finite x => some (if x > pwmLimit then pwmLimit else if x < -pwmLimit then -pwmLimit else x)
  | .infinite positive => some (if positive then pwmLimit else -pwmLimit)
  | .nan => none

/-- `motor_left_pwm_set` and `motor_right_pwm_set`: the pulse widths for the two phases.
There are none where the conversion to `pwmcnt_t` has no defined result. -/
def motorPwmSet (isInverted : Bool) (dutyCycle : Quotient) : Option (ℕ × ℕ) :=
  (clampDutyCycle dutyCycle).map fun x =>
    let x := if isInverted then -x else x
    if x ≤ 0 then (0, ⌊(pwmCycle : ℚ) * -x⌋₊) else (⌊(pwmCycle : ℚ) * x⌋₊, 0)

/-! ## The threads -/

inductive Wheel
  | left
  | right
  deriving DecidableEq

/-- `motor_voltage_msg_t`. -/
structure MotorVoltageMsg where
  left : ℚ
  right : ℚ
  deriving DecidableEq

/-- The static variables of `left_wheel_voltage_set` or `right_wheel_voltage_set`. -/
structure WheelStatics where
  /-- `battery_msg.voltage`. -/
  batteryMsg : ℚ
  /-- `battery_topic` is not `NULL`. -/
  batteryTopic : Bool
  voltageMsg : MotorVoltageMsg
  /-- `voltage_topic` is not `NULL`. -/
  voltageTopic : Bool

/-- The topics that `wait_for_services` waits for. -/
inductive Service
  | motorsCurrent
  | wheelVelocities
  | wheelPos
  | batteryLevel
  deriving DecidableEq

/-- Where `battery_thd` is. -/
inductive BatteryThd
  /-- Before the topic is advertised. -/
  | start
  /-- Before or in a measurement. -/
  | measure
  /-- Before the measurement is published. -/
  | publish
  deriving DecidableEq

/-- Where `motor_pid_thd` is. -/
inductive MotorPidThd
  /-- Before `/motors/voltage` is advertised. -/
  | start
  /-- In `wait_for_services`, with the services that it still waits for. -/
  | wait (services : List Service)
  /-- In a control tick, before the call for the given wheel. -/
  | set (wheel : Wheel)
  deriving DecidableEq

/-- The topics, the variables and the threads. -/
structure System where
  /-- The services of other threads that are advertised. -/
  others : List Service
  /-- `/battery_level`. -/
  battery : Topic ℚ
  /-- `/motors/voltage`. -/
  voltage : Topic MotorVoltageMsg
  batteryThd : BatteryThd
  batteryValue : ℕ
  motorPidThd : MotorPidThd
  left : WheelStatics
  right : WheelStatics
  /-- The pulse widths set last. -/
  leftPwm : Option (ℕ × ℕ)
  rightPwm : Option (ℕ × ℕ)

def WheelStatics.init : WheelStatics := ⟨0, false, ⟨0, 0⟩, false⟩

def System.init : System where
  others := []
  battery := .init
  voltage := .init
  batteryThd := .start
  batteryValue := 0
  motorPidThd := .start
  left := .init
  right := .init
  leftPwm := some (0, 0)
  rightPwm := some (0, 0)

/-- `messagebus_find_topic` finds the topic. -/
def System.advertised (s : System) : Service → Bool
  | .batteryLevel => s.battery.advertised
  | service => decide (service ∈ s.others)

/-- The order of `wait_for_services`. -/
def waitForServices : List Service := [.motorsCurrent, .wheelVelocities, .wheelPos, .batteryLevel]

/-- What a call for a wheel does: the new statics, the division, and the message that is
published. -/
structure WheelCall where
  statics : WheelStatics
  dutyCycle : Quotient
  message : MotorVoltageMsg

/-- The body that the functions for the two wheels have in common. -/
def wheelVoltageSet (assign : MotorVoltageMsg → ℚ → MotorVoltageMsg) (s : System)
    (statics : WheelStatics) (voltage : ℚ) : Option WheelCall :=
  let batteryTopic := statics.batteryTopic || s.battery.advertised
  if batteryTopic then
    let batteryMsg := s.battery.read statics.batteryMsg
    let voltageMsg := assign (s.voltage.read statics.voltageMsg) voltage
    some {
      statics := {
        batteryMsg := batteryMsg
        batteryTopic := true
        voltageMsg := voltageMsg
        voltageTopic := statics.voltageTopic || s.voltage.advertised }
      dutyCycle := divide voltage batteryMsg
      message := voltageMsg }
  else none

def leftWheelVoltageSet (s : System) (voltage : ℚ) : Option WheelCall :=
  wheelVoltageSet (fun m voltage => { m with left := voltage }) s s.left voltage

def rightWheelVoltageSet (s : System) (voltage : ℚ) : Option WheelCall :=
  wheelVoltageSet (fun m voltage => { m with right := voltage }) s s.right voltage

def System.statics (s : System) : Wheel → WheelStatics
  | .left => s.left
  | .right => s.right

/-- The call for a wheel. -/
def System.wheelCall (s : System) : Wheel → ℚ → Option WheelCall
  | .left => leftWheelVoltageSet s
  | .right => rightWheelVoltageSet s

/-- The state after a call for a wheel that found the battery. -/
def System.called (s : System) (isInverted : Bool) (call : WheelCall) : Wheel → System
  | .left =>
    { s with
      left := call.statics
      leftPwm := motorPwmSet isInverted call.dutyCycle
      voltage := s.voltage.publish call.message
      motorPidThd := .set .right }
  | .right =>
    { s with
      right := call.statics
      rightPwm := motorPwmSet isInverted call.dutyCycle
      voltage := s.voltage.publish call.message
      motorPidThd := .set .left }

/-- The wheel whose call follows. -/
def Wheel.next : Wheel → Wheel
  | .left => .right
  | .right => .left

/-- What the language defines no result for. -/
inductive Fault
  /-- The use of a topic that is `NULL`. -/
  | nullTopic
  deriving DecidableEq

/-- A step of somebody. A thread that waits for a topic that is not advertised stays where
it is. -/
inductive Step
  /-- Another thread advertises its topic. -/
  | otherThd (service : Service) (h : service ≠ .batteryLevel)
  /-- A step of `battery_thd`, and what the converter measures if it is a measurement. -/
  | batteryThd (samples : Samples)
  /-- A step of `motor_pid_thd`, and the voltage that the controller wants and the parameter
  `is_inverted` of the wheel if it is a call for a wheel. -/
  | motorPidThd (voltage : ℚ) (isInverted : Bool)

def System.batteryStep (s : System) (samples : Samples) : System :=
  match s.batteryThd with
  | .start => { s with battery := s.battery.advertise, batteryThd := .measure }
  | .measure => { s with batteryValue := adcCb samples.1, batteryThd := .publish }
  | .publish =>
    { s with battery := s.battery.publish (batteryVoltage s.batteryValue), batteryThd := .measure }

def System.motorStep (s : System) (voltage : ℚ) (isInverted : Bool) : Except Fault System :=
  match s.motorPidThd with
  | .start => .ok { s with voltage := s.voltage.advertise, motorPidThd := .wait waitForServices }
  | .wait [] => .ok { s with motorPidThd := .set .left }
  | .wait (service :: services) =>
    .ok (if s.advertised service then { s with motorPidThd := .wait services } else s)
  | .set wheel =>
    match s.wheelCall wheel voltage with
    | none => .ok { s with motorPidThd := .set wheel.next }
    | some call =>
      if call.statics.voltageTopic then .ok (s.called isInverted call wheel) else .error .nullTopic

def System.step (s : System) : Step → Except Fault System
  | .otherThd service _ => .ok { s with others := service :: s.others }
  | .batteryThd samples => .ok (s.batteryStep samples)
  | .motorPidThd voltage isInverted => s.motorStep voltage isInverted

/-! ## What happens -/

/-- What the results are about. -/
inductive Event
  /-- The battery is measured. -/
  | measured (samples : Samples)
  /-- The last measurement is published. -/
  | published
  /-- A call for a wheel, and by what it divides the voltage if it does. -/
  | called (wheel : Wheel) (voltage : ℚ) (divisor : Option ℚ)

/-- What a step does. -/
def System.shows (s : System) : Step → List Event
  | .otherThd _ _ => []
  | .batteryThd samples =>
    match s.batteryThd with
    | .start => []
    | .measure => [.measured samples]
    | .publish => [.published]
  | .motorPidThd voltage _ =>
    match s.motorPidThd with
    | .set wheel =>
      [.called wheel voltage ((s.wheelCall wheel voltage).map (fun call => call.statics.batteryMsg))]
    | _ => []

/-- The samples of a measurement. -/
def Event.samples : Event → Option Samples
  | measured samples => some samples
  | _ => none

/-- **A call divides by a voltage that is not zero.** -/
def Divides (_ : List Event) (x : Event) : Prop :=
  ∀ wheel voltage divisor, x = .called wheel voltage divisor →
    ∃ v, divisor = some v ∧ v ≠ 0

/-- The last measurement is not zero: the samples are at least one on average. -/
def Charged (h : List Event) : Prop :=
  ∃ samples : Samples, latest Event.samples h = some samples ∧ dmaBufferSize / 2 ≤ sum samples.1

/-- **A measurement was published**, and the one published last is not zero. -/
def ChargePublished (h : List Event) : Prop :=
  Since (· ≠ .published) (fun past x => x = .published ∧ Charged past) h

/-- A call is made when a measurement that is not zero was published last. -/
def CalledCharged (past : List Event) (x : Event) : Prop :=
  ∀ wheel voltage divisor, x = .called wheel voltage divisor → ChargePublished past

/-! ## Measurements -/

theorem sum_lt (samples : List (BitVec 16)) : sum samples ≤ samples.length * 2 ^ 16 := by
  induction samples with
  | nil => rfl
  | cons sample samples ih =>
    have hsample := sample.isLt
    have hsum : sum (sample :: samples) = sample.toNat + sum samples := rfl
    rw [hsum, List.length_cons]
    omega

/-- The loop of `adc_cb` does not overflow on a buffer. -/
theorem adcCb_loop (samples : List (BitVec 16)) (start : ℕ)
    (h : start + sum samples < 2 ^ 32) :
    samples.foldl (fun batteryValue sample => (batteryValue + sample.toNat) % 2 ^ 32) start
      = start + sum samples := by
  induction samples generalizing start with
  | nil => rfl
  | cons sample samples ih =>
    have hsum : sum (sample :: samples) = sample.toNat + sum samples := rfl
    rw [hsum] at h ⊢
    have hfirst : (start + sample.toNat) % 2 ^ 32 = start + sample.toNat :=
      Nat.mod_eq_of_lt (by omega)
    rw [List.foldl_cons, hfirst, ih _ (by omega), Nat.add_assoc]

/-- **The average of the samples.** -/
theorem adcCb_eq (samples : Samples) : adcCb samples.1 = sum samples.1 / (dmaBufferSize / 2) := by
  have hlength := samples.2
  have hsum := sum_lt samples.1
  rw [hlength] at hsum
  unfold adcCb
  rw [adcCb_loop samples.1 0 (by simp only [dmaBufferSize] at hsum; omega), hlength, Nat.zero_add]

theorem adcCb_ne_zero_iff (samples : Samples) :
    adcCb samples.1 ≠ 0 ↔ dmaBufferSize / 2 ≤ sum samples.1 := by
  rw [adcCb_eq, Ne, Nat.div_eq_zero_iff]
  simp only [dmaBufferSize]
  omega

theorem batteryVoltage_ne_zero_iff (batteryValue : ℕ) :
    batteryVoltage batteryValue ≠ 0 ↔ batteryValue ≠ 0 := by
  have hgain : adcGain * batteryAdcGain ≠ 0 := by
    unfold adcGain batteryAdcGain
    norm_num
  unfold batteryVoltage
  rw [mul_assoc]
  simp [hgain]

/-! ## The invariant -/

/-- **The invariant of the threads.** -/
structure Measured (s : System × List Event) : Prop where
  /-- The calls find the topic of the voltages. -/
  voltage : s.1.motorPidThd = .start ∨ s.1.voltage.advertised = true
  /-- The calls find the topic of the battery. -/
  found : s.1.motorPidThd = .start
    ∨ (∃ services, s.1.motorPidThd = .wait services ∧ Service.batteryLevel ∈ services)
    ∨ s.1.battery.advertised = true
  value : s.1.batteryThd = .publish →
    ∃ samples, latest Event.samples s.2 = some samples ∧ s.1.batteryValue = adcCb samples.1
  message : (∃ v, s.1.battery.message = some v ∧ v ≠ 0) ↔ ChargePublished s.2
  statics : s.1.battery.message = none → ∀ wheel, (s.1.statics wheel).batteryMsg = 0
  calls : Always (fun past x => Divides past x ↔ CalledCharged past x) s.2

theorem measured_init : Measured (System.init, []) where
  voltage := Or.inl rfl
  found := Or.inl rfl
  value h := absurd h (by decide)
  message := by simp [System.init, ChargePublished]
  statics _ wheel := by cases wheel <;> rfl
  calls := always_nil _

theorem wheelVoltageSet_of_advertised {s : System} (hbattery : s.battery.advertised = true)
    (hvoltage : s.voltage.advertised = true) (assign : MotorVoltageMsg → ℚ → MotorVoltageMsg)
    (statics : WheelStatics) (voltage : ℚ) :
    ∃ call, wheelVoltageSet assign s statics voltage = some call
      ∧ call.statics.voltageTopic = true
      ∧ call.statics.batteryMsg = s.battery.read statics.batteryMsg := by
  unfold wheelVoltageSet
  rw [hbattery, Bool.or_true, hvoltage]
  exact ⟨_, rfl, Bool.or_true _, rfl⟩

theorem wheelCall_of_advertised {s : System} (hbattery : s.battery.advertised = true)
    (hvoltage : s.voltage.advertised = true) (wheel : Wheel) (voltage : ℚ) :
    ∃ call, s.wheelCall wheel voltage = some call ∧ call.statics.voltageTopic = true
      ∧ call.statics.batteryMsg = s.battery.read (s.statics wheel).batteryMsg := by
  cases wheel with
  | left =>
    exact wheelVoltageSet_of_advertised hbattery hvoltage (fun m x => { m with left := x }) s.left
      voltage
  | right =>
    exact wheelVoltageSet_of_advertised hbattery hvoltage (fun m x => { m with right := x }) s.right
      voltage

/-- What is published on `/battery_level` is what a call divides by. -/
theorem read_ne_zero_iff {s : System × List Event} (hs : Measured s) (wheel : Wheel) :
    s.1.battery.read (s.1.statics wheel).batteryMsg ≠ 0 ↔ ChargePublished s.2 := by
  rw [← hs.message]
  cases hmessage : s.1.battery.message with
  | none =>
    rw [Topic.read_of_none hmessage, hs.statics hmessage]
    simp
  | some v =>
    rw [Topic.read_of_message hmessage]
    simp

/-- **A call for a wheel keeps the invariant.** -/
theorem measured_called {s : System} {h : List Event} (hs : Measured (s, h)) {wheel : Wheel}
    (hset : s.motorPidThd = .set wheel) (voltage : ℚ) (isInverted : Bool) :
    ∃ s', s.motorStep voltage isInverted = .ok s'
      ∧ Measured (s', h ++ s.shows (.motorPidThd voltage isInverted)) := by
  have hvoltage : s.voltage.advertised = true :=
    hs.voltage.resolve_left (by rw [show s.motorPidThd = .set wheel from hset]; simp)
  have hbattery : s.battery.advertised = true := by
    obtain hstart | ⟨services, hwait, -⟩ | hfound := hs.found
    · rw [show s.motorPidThd = .set wheel from hset] at hstart
      cases hstart
    · rw [show s.motorPidThd = .set wheel from hset] at hwait
      cases hwait
    · exact hfound
  obtain ⟨call, hcall, htopic, hdivisor⟩ := wheelCall_of_advertised hbattery hvoltage wheel voltage
  refine ⟨s.called isInverted call wheel, ?_, ?_⟩
  · simp only [System.motorStep, hset, hcall, htopic, if_true]
  have hshows : s.shows (.motorPidThd voltage isInverted)
      = [.called wheel voltage (some call.statics.batteryMsg)] := by
    simp only [System.shows, hset, hcall]
    rfl
  rw [hshows]
  have hbatteryThd : (s.called isInverted call wheel).batteryThd = s.batteryThd := by
    cases wheel <;> rfl
  have hvalue : (s.called isInverted call wheel).batteryValue = s.batteryValue := by
    cases wheel <;> rfl
  have hmessage : (s.called isInverted call wheel).battery = s.battery := by
    cases wheel <;> rfl
  constructor
  · refine Or.inr ?_
    cases wheel <;> exact hvoltage
  · refine Or.inr (Or.inr ?_)
    rw [hmessage]
    exact hbattery
  · intro hpublish
    rw [hbatteryThd] at hpublish
    obtain ⟨samples, hlatest, heq⟩ := hs.value hpublish
    refine ⟨samples, ?_, hvalue.trans heq⟩
    rw [latest_concat]
    exact hlatest
  · rw [hmessage, hs.message]
    unfold ChargePublished
    rw [since_concat]
    simp
  · intro hnone wheel'
    rw [hmessage] at hnone
    have hzero : call.statics.batteryMsg = 0 := by
      rw [hdivisor, Topic.read_of_none hnone, hs.statics hnone]
    have hothers := hs.statics hnone wheel'
    cases wheel <;> cases wheel' <;> first | exact hzero | exact hothers
  · refine always_concat.mpr ⟨hs.calls, ?_⟩
    have hread := read_ne_zero_iff hs wheel
    rw [show (s, h).1.battery.read _ = call.statics.batteryMsg from hdivisor.symm] at hread
    constructor
    · intro hdivides wheel' voltage' divisor heq
      obtain ⟨v, hv, hne⟩ := hdivides wheel' voltage' divisor heq
      obtain ⟨-, -, rfl⟩ := Event.called.inj heq
      rw [← Option.some.inj hv] at hne
      exact hread.mp hne
    · intro hcalled wheel' voltage' divisor heq
      have hpublished := hcalled wheel' voltage' divisor heq
      obtain ⟨-, -, rfl⟩ := Event.called.inj heq
      exact ⟨_, rfl, hread.mpr hpublished⟩

/-- A step that is not a call and leaves the topic of the battery keeps the invariant. -/
theorem measured_silent {s s' : System} {h : List Event} (hs : Measured (s, h))
    (hvoltage : s'.motorPidThd = .start ∨ s'.voltage.advertised = true)
    (hfound : s'.motorPidThd = .start
      ∨ (∃ services, s'.motorPidThd = .wait services ∧ Service.batteryLevel ∈ services)
      ∨ s'.battery.advertised = true)
    (hthread : s'.batteryThd = .publish → s.batteryThd = .publish)
    (hvalue : s'.batteryValue = s.batteryValue) (hmessage : s'.battery.message = s.battery.message)
    (hstatics : s'.statics = s.statics) : Measured (s', h) where
  voltage := hvoltage
  found := hfound
  value hpublish := by
    obtain ⟨samples, hlatest, heq⟩ := hs.value (hthread hpublish)
    exact ⟨samples, hlatest, hvalue.trans heq⟩
  message := by
    rw [show (s', h).1.battery.message = s.battery.message from hmessage]
    exact hs.message
  statics hnone wheel := by
    rw [show (s', h).1.statics = s.statics from hstatics]
    rw [show (s', h).1.battery.message = s.battery.message from hmessage] at hnone
    exact hs.statics hnone wheel
  calls := hs.calls

/-- **A step of `motor_pid_thd` does not fail** and keeps the invariant. -/
theorem measured_motorStep {s : System} {h : List Event} (hs : Measured (s, h)) (voltage : ℚ)
    (isInverted : Bool) :
    ∃ s', s.motorStep voltage isInverted = .ok s'
      ∧ Measured (s', h ++ s.shows (.motorPidThd voltage isInverted)) := by
  cases hthread : s.motorPidThd with
  | start =>
    simp only [System.motorStep, System.shows, hthread, List.append_nil]
    exact ⟨_, rfl, measured_silent hs (Or.inr rfl) (Or.inr (Or.inl ⟨_, rfl, by decide⟩)) id rfl rfl
      (by funext wheel; cases wheel <;> rfl)⟩
  | wait services =>
    have hvoltage : s.voltage.advertised = true :=
      hs.voltage.resolve_left (by rw [show s.motorPidThd = .wait services from hthread]; simp)
    cases services with
    | nil =>
      simp only [System.motorStep, System.shows, hthread, List.append_nil]
      refine ⟨_, rfl, measured_silent hs (Or.inr hvoltage) (Or.inr (Or.inr ?_)) id rfl rfl
        (by funext wheel; cases wheel <;> rfl)⟩
      obtain hstart | ⟨services, hwait, hmem⟩ | hfound := hs.found
      · rw [show s.motorPidThd = .wait [] from hthread] at hstart
        cases hstart
      · rw [show s.motorPidThd = .wait [] from hthread] at hwait
        cases hwait
        cases hmem
      · exact hfound
    | cons service services =>
      simp only [System.motorStep, System.shows, hthread, List.append_nil]
      refine ⟨_, rfl, ?_⟩
      split
      · rename_i hadvertised
        refine measured_silent hs (Or.inr hvoltage) (Or.inr ?_) id rfl rfl
          (by funext wheel; cases wheel <;> rfl)
        obtain hstart | ⟨services', hwait, hmem⟩ | hfound := hs.found
        · rw [show s.motorPidThd = .wait (service :: services) from hthread] at hstart
          cases hstart
        · rw [show s.motorPidThd = .wait (service :: services) from hthread] at hwait
          cases hwait
          obtain heq | hmem := List.mem_cons.mp hmem
          · rw [← heq] at hadvertised
            exact Or.inr hadvertised
          · exact Or.inl ⟨services, rfl, hmem⟩
        · exact Or.inr hfound
      · exact hs
  | set wheel => exact measured_called hs hthread voltage isInverted

/-- **A step of `battery_thd`** keeps the invariant. -/
theorem measured_batteryStep {s : System} {h : List Event} (hs : Measured (s, h))
    (samples : Samples) : Measured (s.batteryStep samples, h ++ s.shows (.batteryThd samples)) := by
  cases hthread : s.batteryThd with
  | start =>
    simp only [System.batteryStep, System.shows, hthread, List.append_nil]
    exact measured_silent hs hs.voltage (hs.found.imp_right (Or.imp_right (fun _ => rfl)))
      (by simp) rfl rfl (by funext wheel; cases wheel <;> rfl)
  | measure =>
    simp only [System.batteryStep, System.shows, hthread]
    exact {
      voltage := hs.voltage
      found := hs.found
      value := fun _ => ⟨samples, by rw [latest_concat]; rfl, rfl⟩
      message := by
        rw [hs.message]
        unfold ChargePublished
        rw [since_concat]
        simp
      statics := hs.statics
      calls := always_concat.mpr ⟨hs.calls, by simp [Divides, CalledCharged]⟩ }
  | publish =>
    simp only [System.batteryStep, System.shows, hthread]
    obtain ⟨samples', hlatest, heq⟩ := hs.value hthread
    have hcharged : batteryVoltage s.batteryValue ≠ 0 ↔ Charged h := by
      rw [batteryVoltage_ne_zero_iff, show s.batteryValue = adcCb samples'.1 from heq,
        adcCb_ne_zero_iff]
      constructor
      · intro hsum
        exact ⟨samples', hlatest, hsum⟩
      · rintro ⟨samples'', hlatest', hsum⟩
        rw [Option.some.inj (hlatest.symm.trans hlatest')]
        exact hsum
    exact {
      voltage := hs.voltage
      found := hs.found
      value := fun h => absurd h (by simp)
      message := by
        unfold ChargePublished
        rw [since_concat]
        simpa using hcharged
      statics := fun h => absurd h (by simp)
      calls := always_concat.mpr ⟨hs.calls, by simp [Divides, CalledCharged]⟩ }

/-- **No step fails**, and every step keeps the invariant. -/
theorem measured_step {s : System × List Event} (hs : Measured s) (i : Step) :
    ∃ s', recorded System.step System.shows s i = .ok s' ∧ Measured s' := by
  obtain ⟨s, h⟩ := s
  cases i with
  | otherThd service hservice =>
    refine ⟨({ s with others := service :: s.others }, h ++ []),
      recorded_eq_ok.mpr ⟨rfl, rfl⟩, ?_⟩
    rw [List.append_nil]
    exact measured_silent hs hs.voltage hs.found id rfl rfl (by funext wheel; cases wheel <;> rfl)
  | batteryThd samples =>
    exact ⟨(s.batteryStep samples, _), recorded_eq_ok.mpr ⟨rfl, rfl⟩,
      measured_batteryStep hs samples⟩
  | motorPidThd voltage isInverted =>
    obtain ⟨s', hstep, hs'⟩ := measured_motorStep hs voltage isInverted
    exact ⟨(s', _), recorded_eq_ok.mpr ⟨hstep, rfl⟩, hs'⟩

/-- **When the division is defined**: no run fails, and in every run all calls divide by a
voltage that is not zero exactly if each is made when a measurement that is not zero was
published last. -/
theorem division_defined_iff (steps : List Step) :
    ∃ s, run (recorded System.step System.shows) (System.init, []) steps = .ok s
      ∧ (Always Divides s.2 ↔ Always CalledCharged s.2) := by
  obtain ⟨s, hrun, hs⟩ := run_total (fun _ i hs => measured_step hs i) measured_init steps
  exact ⟨s, hrun, always_congr hs.calls⟩

/-- The battery is advertised, and not measured yet at the first control tick. -/
theorem not_division_defined :
    ¬ ∀ (steps : List Step) (s : System × List Event),
      run (recorded System.step System.shows) (System.init, []) steps = .ok s →
      Always Divides s.2 := by
  intro h
  have hcall : ∃ v, some (0 : ℚ) = some v ∧ v ≠ 0 :=
    h [.batteryThd ⟨List.replicate 8 0, rfl⟩, .otherThd .motorsCurrent (by decide),
      .otherThd .wheelVelocities (by decide), .otherThd .wheelPos (by decide),
      .motorPidThd 0 false, .motorPidThd 0 false, .motorPidThd 0 false, .motorPidThd 0 false,
      .motorPidThd 0 false, .motorPidThd 0 false, .motorPidThd 3 false] _ rfl [] _ [] rfl
      .left 3 (some 0) rfl
  obtain ⟨v, hv, hne⟩ := hcall
  exact hne (Option.some.inj hv).symm

end WheelVoltage
