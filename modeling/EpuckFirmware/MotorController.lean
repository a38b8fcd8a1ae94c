import EpuckFirmware.StepMachine
import Mathlib.Algebra.Order.Ring.Rat
import Mathlib.Data.Rat.Cast.Order
import Mathlib.Tactic

/-!
# The motor controller

The cascade of `motor_controller.c`: a position loop that generates set-points for
a velocity loop, which generates set-points for a current loop. The arithmetic is
that of a type `F` with the operations of `float`; results that depend on it are
proved where it is exact.

The sources of the parameter and of the PID library are not part of the
repository. They are taken as `ParameterLib` and `PidLib`, and what the controller
relies on as `ParameterLib.Lawful` and `PidLib.StoresFrequency`.
-/

namespace MotorControl

/-- The operations of `float` that the controller uses. -/
class FloatOps (F : Type) extends Zero F, One F, OfNat F 2, Add F, Sub F, Mul F, Div F, Neg F,
    LT F, LE F, IntCast F where
  decEq : DecidableEq F
  decLT : DecidableLT F
  decLE : DecidableLE F

instance FloatOps.decidableEq {F : Type} [FloatOps F] : DecidableEq F := FloatOps.decEq
instance FloatOps.decidableLT {F : Type} [FloatOps F] : DecidableLT F := FloatOps.decLT
instance FloatOps.decidableLE {F : Type} [FloatOps F] : DecidableLE F := FloatOps.decLE

/-- Exact arithmetic. -/
instance exactArithmetic : FloatOps ℚ where
  decEq := inferInstance
  decLT := inferInstance
  decLE := inferInstance

/-! ## The libraries -/

/-- The functions of the parameter library on scalar parameters. -/
structure ParameterLib (F : Type) where
  /-- `parameter_t`. -/
  Parameter : Type
  /-- `parameter_scalar_declare_with_default`. -/
  declareWithDefault : F → Parameter
  /-- `parameter_scalar_set`. -/
  set : Parameter → F → Parameter
  /-- `parameter_changed`. -/
  changed : Parameter → Bool
  /-- `parameter_scalar_get`. -/
  get : Parameter → F × Parameter
  /-- `parameter_scalar_read`. -/
  read : Parameter → F

/-- The documented behaviour of the parameter library: setting raises the flag that
the parameter was changed, getting clears it, and only setting changes the value. -/
structure ParameterLib.Lawful {F : Type} (P : ParameterLib F) : Prop where
  read_declareWithDefault : ∀ x, P.read (P.declareWithDefault x) = x
  read_set : ∀ p x, P.read (P.set p x) = x
  changed_set : ∀ p x, P.changed (P.set p x) = true
  get_fst : ∀ p, (P.get p).1 = P.read p
  read_get : ∀ p, P.read (P.get p).2 = P.read p
  changed_get : ∀ p, P.changed (P.get p).2 = false

/-- The functions of the PID library. -/
structure PidLib (F : Type) where
  /-- `pid_ctrl_t`. -/
  Ctrl : Type
  /-- `pid_init`, on a filter that was zeroed. -/
  init : Ctrl
  /-- `pid_set_gains`. -/
  setGains : Ctrl → F → F → F → Ctrl
  /-- `pid_set_integral_limit`. -/
  setIntegralLimit : Ctrl → F → Ctrl
  /-- `pid_reset_integral`. -/
  resetIntegral : Ctrl → Ctrl
  /-- `pid_set_frequency`. -/
  setFrequency : Ctrl → F → Ctrl
  /-- The field `frequency`. -/
  frequency : Ctrl → F
  /-- `pid_process`. -/
  process : Ctrl → F → F × Ctrl

/-- `pid_set_frequency` stores the frequency, and no other function changes it. -/
structure PidLib.StoresFrequency {F : Type} (Q : PidLib F) : Prop where
  frequency_setFrequency : ∀ c f, Q.frequency (Q.setFrequency c f) = f
  frequency_setGains : ∀ c kp ki kd, Q.frequency (Q.setGains c kp ki kd) = Q.frequency c
  frequency_setIntegralLimit : ∀ c l, Q.frequency (Q.setIntegralLimit c l) = Q.frequency c
  frequency_resetIntegral : ∀ c, Q.frequency (Q.resetIntegral c) = Q.frequency c
  frequency_process : ∀ c e, Q.frequency (Q.process c e).2 = Q.frequency c

/-- Parameters that are a value and a flag. -/
def flagParameters : ParameterLib ℚ where
  Parameter := ℚ × Bool
  declareWithDefault x := (x, false)
  set _ x := (x, true)
  changed p := p.2
  get p := (p.1, (p.1, false))
  read p := p.1

theorem lawful_flagParameters : flagParameters.Lawful where
  read_declareWithDefault _ := rfl
  read_set _ _ := rfl
  changed_set _ _ := rfl
  get_fst _ := rfl
  read_get _ := rfl
  changed_get _ := rfl

/-- Filters with a proportional gain, `kp` at first, and a frequency, 1 at first. -/
def proportionalPid (kp : ℚ) : PidLib ℚ where
  Ctrl := ℚ × ℚ
  init := (kp, 1)
  setGains c kp _ _ := (kp, c.2)
  setIntegralLimit c _ := c
  resetIntegral c := c
  setFrequency c f := (c.1, f)
  frequency c := c.2
  process c e := (-c.1 * e, c)

theorem storesFrequency_proportionalPid (kp : ℚ) : (proportionalPid kp).StoresFrequency where
  frequency_setFrequency _ _ := rfl
  frequency_setGains _ _ _ _ := rfl
  frequency_setIntegralLimit _ _ := rfl
  frequency_resetIntegral _ := rfl
  frequency_process _ _ := rfl

/-! ## The controller -/

/-- `enum motor_controller_mode`. -/
inductive MotorControllerMode
  | current
  | velocity
  | position
  deriving DecidableEq, Repr

/-- The value of the enumerator. -/
def MotorControllerMode.toNat : MotorControllerMode → ℕ
  | current => 0
  | velocity => 1
  | position => 2

instance : LE MotorControllerMode := ⟨fun a b => a.toNat ≤ b.toNat⟩
instance : LT MotorControllerMode := ⟨fun a b => a.toNat < b.toNat⟩
instance : DecidableLE MotorControllerMode :=
  fun a b => inferInstanceAs (Decidable (a.toNat ≤ b.toNat))
instance : DecidableLT MotorControllerMode :=
  fun a b => inferInstanceAs (Decidable (a.toNat < b.toNat))

/-- What a call of the controller may run into. -/
inductive Fault
  /-- The call of a callback that is `NULL`. -/
  | nullCallback
  /-- The overflow of an `int`, for which the language defines no result. -/
  | intOverflow
  deriving DecidableEq, Repr

section Controller

variable {F : Type} (P : ParameterLib F) (Q : PidLib F) (W : Type)

/-- `struct pid_param_s`. -/
structure PidParam where
  kp : P.Parameter
  ki : P.Parameter
  kd : P.Parameter
  iLimit : P.Parameter

/-- The structure that `motor_controller_t` has three times. A callback and its
argument are a function on `W`, what the sensors show at the time of a call. -/
structure ControlLoop where
  params : PidParam P
  pid : Q.Ctrl
  targetSetpoint : F
  setpoint : F
  error : F
  get : Option (W → F)
  divider : ℤ
  dividerCounter : ℤ

/-- The member `limits` of `motor_controller_t`. -/
structure Limits where
  velocity : P.Parameter
  current : P.Parameter
  acceleration : P.Parameter

/-- `motor_controller_t`. -/
structure MotorController where
  limits : Limits P
  mode : MotorControllerMode
  position : ControlLoop P Q W
  velocity : ControlLoop P Q W
  current : ControlLoop P Q W

variable {P Q W}

/-- The loop that controls in the given mode. -/
def MotorController.loop (c : MotorController P Q W) :
    MotorControllerMode → ControlLoop P Q W
  | .current => c.current
  | .velocity => c.velocity
  | .position => c.position

/-- Writes to the members of a loop. -/
def MotorController.modifyLoop (c : MotorController P Q W) (mode : MotorControllerMode)
    (f : ControlLoop P Q W → ControlLoop P Q W) : MotorController P Q W :=
  match mode with
  | .current => { c with current := f c.current }
  | .velocity => { c with velocity := f c.velocity }
  | .position => { c with position := f c.position }

/-- `INT_MAX`. -/
def intMax : ℤ := 2 ^ 31 - 1

/-- `counter ++`. -/
def increment (counter : ℤ) : Except Fault ℤ :=
  if counter < intMax then .ok (counter + 1) else .error .intOverflow

/-- The call of the callback of a loop. -/
def ControlLoop.callback (l : ControlLoop P Q W) (w : W) : Except Fault F :=
  match l.get with
  | some get => .ok (get w)
  | none => .error .nullCallback

def pidParamUpdate (p : PidParam P) (ctrl : Q.Ctrl) : PidParam P × Q.Ctrl :=
  let gains :=
    if P.changed p.kp || P.changed p.ki || P.changed p.kd then
      ({ p with kp := (P.get p.kp).2, ki := (P.get p.ki).2, kd := (P.get p.kd).2 },
        Q.resetIntegral (Q.setGains ctrl (P.get p.kp).1 (P.get p.ki).1 (P.get p.kd).1))
    else (p, ctrl)
  if P.changed gains.1.iLimit then
    ({ gains.1 with iLimit := (P.get gains.1.iLimit).2 },
      Q.setIntegralLimit gains.2 (P.get gains.1.iLimit).1)
  else gains

/-- `pid_param_update` of a loop. -/
def ControlLoop.updateParams (l : ControlLoop P Q W) : ControlLoop P Q W :=
  { l with params := (pidParamUpdate l.params l.pid).1, pid := (pidParamUpdate l.params l.pid).2 }

section Arithmetic

variable [FloatOps F]

def pidParamDeclare (infinity : F) : PidParam P where
  kp := P.declareWithDefault 0
  ki := P.declareWithDefault 0
  kd := P.declareWithDefault 0
  iLimit := P.declareWithDefault infinity

/-- A zeroed loop whose parameters were declared and whose filter was initialised. -/
def controlLoopInit (infinity : F) (divider : ℤ) : ControlLoop P Q W where
  params := pidParamDeclare infinity
  pid := Q.init
  targetSetpoint := 0
  setpoint := 0
  error := 0
  get := none
  divider := divider
  dividerCounter := 0

/-- The controller is zeroed, its parameters are declared – limits and integral
limits with the default `INFINITY` – and the dividers of the outer loops set to 1. -/
def motorControllerInit (infinity : F) : MotorController P Q W where
  limits := ⟨P.declareWithDefault infinity, P.declareWithDefault infinity,
    P.declareWithDefault infinity⟩
  mode := .current
  position := controlLoopInit infinity 1
  velocity := controlLoopInit infinity 1
  current := controlLoopInit infinity 0

def motorControllerSetFrequency (c : MotorController P Q W) (frequency : F) :
    MotorController P Q W :=
  { c with
    position := { c.position with
      pid := Q.setFrequency c.position.pid (frequency / (c.position.divider : F)) }
    velocity := { c.velocity with
      pid := Q.setFrequency c.velocity.pid (frequency / (c.velocity.divider : F)) }
    current := { c.current with pid := Q.setFrequency c.current.pid frequency } }

def motorControllerSetPrescaler (c : MotorController P Q W)
    (velocityDivider positionDivider : ℤ) : MotorController P Q W :=
  { c with
    position := { c.position with divider := positionDivider }
    velocity := { c.velocity with divider := velocityDivider } }

/-- The writes of the limits with `parameter_scalar_set`. -/
def setLimits (c : MotorController P Q W) (velocity acceleration current : F) :
    MotorController P Q W :=
  { c with limits :=
    { velocity := P.set c.limits.velocity velocity
      current := P.set c.limits.current current
      acceleration := P.set c.limits.acceleration acceleration } }

/-- `safe_get_current` and its siblings: a callback that is `NULL` gives 0. -/
def ControlLoop.safeGet (l : ControlLoop P Q W) (w : W) : F :=
  match l.get with
  | some get => get w
  | none => 0

def safeGetCurrent (c : MotorController P Q W) (w : W) : F := c.current.safeGet w
def safeGetVelocity (c : MotorController P Q W) (w : W) : F := c.velocity.safeGet w
def safeGetPosition (c : MotorController P Q W) (w : W) : F := c.position.safeGet w

def motorControllerLimitSymmetric (value limit : F) : F :=
  if limit < value then limit else if value < -limit then -limit else value

def motorControllerPosSetptInterpolation (pos vel acc deltaT : F) : F :=
  pos + vel * deltaT + acc / 2 * deltaT * deltaT

def motorControllerVelSetptInterpolation (vel acc deltaT : F) : F :=
  vel + acc * deltaT

/-- `copysignf(1.0, x)`, the sign of zero being positive. -/
def copysignOne (x : F) : F := if x < 0 then -1 else 1

def fabs (x : F) : F := if x < 0 then -x else x

def motorControllerVelRamp (pos vel targetPos deltaT maxVel maxAcc : F) : F :=
  let breakingDist := vel * vel / 2 / maxAcc
  let error := pos - targetPos
  let errorSign := copysignOne error
  if errorSign ≠ copysignOne vel then
    if fabs error ≤ breakingDist ∨ fabs error ≤ maxAcc * deltaT * deltaT / 2 then
      -motorControllerLimitSymmetric (vel / deltaT) maxAcc
    else if maxVel ≤ fabs vel then
      0
    else
      -errorSign * maxAcc
  else if fabs error ≤ maxAcc * deltaT * deltaT / 2 then
    -motorControllerLimitSymmetric (vel / deltaT) maxAcc
  else
    -errorSign * maxAcc

/-- Position control: the block of `motor_controller_process` that the mode and the
divider guard. -/
def positionControl (c : MotorController P Q W) (maxVelocity maxAcceleration : F) (w : W) :
    MotorController P Q W :=
  if .position ≤ c.mode ∧ c.position.divider ≤ c.position.dividerCounter then
    let deltaT := 1 / Q.frequency c.position.pid
    let desiredAcceleration :=
      motorControllerVelRamp c.position.setpoint c.velocity.targetSetpoint
        c.position.targetSetpoint deltaT maxVelocity maxAcceleration
    let positionSetpoint :=
      motorControllerPosSetptInterpolation c.position.setpoint c.velocity.targetSetpoint
        desiredAcceleration deltaT
    let velocityTarget :=
      motorControllerVelSetptInterpolation c.velocity.targetSetpoint desiredAcceleration deltaT
    let error := safeGetPosition c w - positionSetpoint
    let processed := Q.process c.position.pid error
    { c with
      position := { c.position with
        dividerCounter := 0, setpoint := positionSetpoint, error := error, pid := processed.2 }
      velocity := { c.velocity with
        targetSetpoint := velocityTarget, setpoint := velocityTarget + processed.1 } }
  else c

/-- The block that ramps the velocity set-point in velocity mode. -/
def velocityRamp (c : MotorController P Q W) (maxVelocity maxAcceleration : F) :
    MotorController P Q W :=
  if c.mode = .velocity then
    let deltaT := 1 / Q.frequency c.velocity.pid
    let target := motorControllerLimitSymmetric c.velocity.targetSetpoint maxVelocity
    let deltaVelocity :=
      motorControllerLimitSymmetric (target - c.velocity.setpoint) (deltaT * maxAcceleration)
    { c with
      velocity := { c.velocity with
        targetSetpoint := target, setpoint := c.velocity.setpoint + deltaVelocity } }
  else c

/-- Velocity control. -/
def velocityControl (c : MotorController P Q W) (w : W) : MotorController P Q W :=
  if .velocity ≤ c.mode ∧ c.velocity.divider ≤ c.velocity.dividerCounter then
    let error := safeGetVelocity c w - c.velocity.setpoint
    let processed := Q.process c.velocity.pid error
    { c with
      velocity := { c.velocity with dividerCounter := 0, error := error, pid := processed.2 }
      current := { c.current with setpoint := processed.1 } }
  else c

/-- Current (torque) control, with the motor voltage that `motor_controller_process`
returns. -/
def currentControl (c : MotorController P Q W) (maxCurrent : F) (w : W) :
    F × MotorController P Q W :=
  let requested := if c.mode = .current then c.current.targetSetpoint else c.current.setpoint
  let setpoint := motorControllerLimitSymmetric requested maxCurrent
  let error := safeGetCurrent c w - setpoint
  let processed := Q.process c.current.pid error
  (processed.1,
    { c with current := { c.current with
      setpoint := setpoint, error := error, pid := processed.2 } })

/-- The update of the controller gains. -/
def updateGains (c : MotorController P Q W) : MotorController P Q W :=
  { c with
    position := c.position.updateParams
    velocity := c.velocity.updateParams
    current := c.current.updateParams }

def motorControllerProcess (c : MotorController P Q W) (w : W) :
    Except Fault (F × MotorController P Q W) := do
  let c := updateGains c
  let maxVelocity := P.get c.limits.velocity
  let maxAcceleration := P.get c.limits.acceleration
  let c := { c with limits := { c.limits with
    velocity := maxVelocity.2, acceleration := maxAcceleration.2 } }
  let counter ← increment c.position.dividerCounter
  let c := { c with position := { c.position with dividerCounter := counter } }
  let c := positionControl c maxVelocity.1 maxAcceleration.1 w
  let c := velocityRamp c maxVelocity.1 maxAcceleration.1
  let counter ← increment c.velocity.dividerCounter
  let c := { c with velocity := { c.velocity with dividerCounter := counter } }
  let c := velocityControl c w
  let maxCurrent := P.get c.limits.current
  let c := { c with limits := { c.limits with current := maxCurrent.2 } }
  return currentControl c maxCurrent.1 w

def motorControllerSetMode (c : MotorController P Q W) (mode : MotorControllerMode) (w : W) :
    Except Fault (MotorController P Q W) :=
  match mode with
  | .position =>
    if c.mode < .position then do
      let position ← c.position.callback w
      let velocity ← c.velocity.callback w
      return { c with
        mode := .position
        position := { c.position with setpoint := position }
        velocity := { c.velocity with targetSetpoint := velocity } }
    else return { c with mode := .position }
  | .velocity =>
    if c.mode < .velocity then do
      let velocity ← c.velocity.callback w
      return { c with
        mode := .velocity
        velocity := { c.velocity with setpoint := velocity } }
    else return { c with mode := .velocity }
  | .current => return { c with mode := .current }

end Arithmetic

end Controller

end MotorControl
