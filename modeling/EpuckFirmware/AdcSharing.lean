import EpuckFirmware.AdcCallbacks
import EpuckFirmware.WheelVoltage

/-!
# The converter that two threads share

The proximity thread converts on `ADCD3` and `ADCD2`, the battery thread on `ADCD2` alone.
Each takes the buses of the converters that it needs, starts its conversions, waits for the
semaphores that the callbacks signal, and releases the buses. A callback runs in between,
whenever the half of a buffer is full, and stops its conversion.

The history of a run shows the positions of the light, the conversions and the messages.
Whatever the order of the steps, what it shows of the proximity thread are rounds as if the
thread had been alone (`Rounds`): a measurement without the light, one with it, and the
message with the averages of both. No conversion is started on a converter that is busy, and
somebody can always go on.
-/

namespace AdcSharing

open AdcCallbacks StepMachine History

/-! ## The converters and the threads -/

/-- Who owns a bus, and whose group is converted. -/
inductive Owner
  | proximity
  | battery
  deriving DecidableEq

/-- `PROXIMITY_NB_CHANNELS`. -/
def proximityNbChannels : ℕ := 13

/-- The rows of half a buffer of the proximity thread, of `DMA_BUFFER_SIZE` rows. -/
def proximityRows : ℕ := 4 / 2

/-- The rows of half a buffer of the battery thread. -/
def batteryRows : ℕ := 16 / 2

/-- Half a buffer that the converter filled. -/
def buffer (sample : ℕ → BitVec 16) (size : ℕ) : Samples := (List.range size).map sample

/-- Where the light is on and where it is off: the positions in its waveform. -/
inductive Position
  | off
  | on
  deriving DecidableEq

/-- A line of `proximity_thd` for a position: `set_measurement_position`, and the lines of
`take_measurement`. -/
inductive Line
  | position
  | acquire3
  | acquire2
  | start3
  | start2
  | wait3
  | wait2
  | copy
  | release2
  | release3
  deriving DecidableEq

/-- Where `proximity_thd` is. -/
inductive ProximityThd
  | measuring (position : Position) (line : Line)
  | publish
  deriving DecidableEq

/-- Where `battery_thd` is. -/
inductive BatteryThd
  | acquire
  | start
  | wait
  | release
  | publish
  | sleep
  deriving DecidableEq

/-- `proximity_msg_t`. -/
structure ProximityMsg where
  ambient : Values 13
  reflected : Values 13
  delta : Values 13

structure AdcSystem where
  /-- The mutex of `ADCD3`. -/
  bus3 : Option Owner
  /-- The mutex of `ADCD2`. -/
  bus2 : Option Owner
  /-- Whether `ADCD3` converts. -/
  adc3 : Bool
  /-- Whose group `ADCD2` converts. -/
  adc2 : Option Owner
  adc3Ready : Bool
  adc2Ready : Bool
  measurementReady : Bool
  values : ProximityValues
  batteryValue : ℕ
  /-- The position that is set in the waveform of the light. -/
  position : Position
  ambient : Values 13
  reflected : Values 13
  proximityThd : ProximityThd
  batteryThd : BatteryThd

def AdcSystem.init (position : Position) (ambient reflected : Values 13) : AdcSystem where
  bus3 := none
  bus2 := none
  adc3 := false
  adc2 := none
  adc3Ready := false
  adc2Ready := false
  measurementReady := false
  values := ⟨#v[0], Vector.replicate 13 0⟩
  batteryValue := 0
  position := position
  ambient := ambient
  reflected := reflected
  proximityThd := .measuring .off .position
  batteryThd := .acquire

/-! ## The steps -/

/-- The results of a measurement: the sensor 8 is the one on `ADCD2`. -/
def measured (values : ProximityValues) : Values 13 := values.adc3.set 8 values.adc2[0]

/-- The array for the results of a position. -/
def AdcSystem.store (s : AdcSystem) (result : Values 13) : Position → AdcSystem
  | .off => { s with ambient := result }
  | .on => { s with reflected := result }

/-- What follows a measurement. -/
def Position.next : Position → ProximityThd
  | .off => .measuring .on .position
  | .on => .publish

/-- The message of the measurements. -/
def AdcSystem.message (s : AdcSystem) : ProximityMsg where
  ambient := s.ambient
  reflected := s.reflected
  delta := Vector.zipWith (· - ·) s.reflected s.ambient

/-- A step of `proximity_thd`. A thread that has to wait stays where it is. Starting a busy
converter halts the system. -/
def AdcSystem.proximityStep (s : AdcSystem) : Except Fault AdcSystem :=
  match s.proximityThd with
  | .publish => .ok { s with proximityThd := .measuring .off .position }
  | .measuring p line =>
    let goto (s : AdcSystem) (line : Line) : Except Fault AdcSystem :=
      .ok { s with proximityThd := .measuring p line }
    match line with
    | .position => goto { s with position := p } .acquire3
    | .acquire3 => if s.bus3 = none then goto { s with bus3 := some .proximity } .acquire2 else .ok s
    | .acquire2 => if s.bus2 = none then goto { s with bus2 := some .proximity } .start3 else .ok s
    | .start3 => if s.adc3 then .error .halt else goto { s with adc3 := true } .start2
    | .start2 => if s.adc2 = none then goto { s with adc2 := some .proximity } .wait3
      else .error .halt
    | .wait3 => if s.adc3Ready then goto { s with adc3Ready := false } .wait2 else .ok s
    | .wait2 => if s.adc2Ready then goto { s with adc2Ready := false } .copy else .ok s
    | .copy => goto (s.store (measured s.values) p) .release2
    | .release2 => goto { s with bus2 := none } .release3
    | .release3 => .ok { s with bus3 := none, proximityThd := p.next }

/-- A step of `battery_thd`. -/
def AdcSystem.batteryStep (s : AdcSystem) : Except Fault AdcSystem :=
  match s.batteryThd with
  | .acquire => .ok (if s.bus2 = none then { s with bus2 := some .battery, batteryThd := .start }
    else s)
  | .start => if s.adc2 = none then .ok { s with adc2 := some .battery, batteryThd := .wait }
    else .error .halt
  | .wait => .ok (if s.measurementReady then
      { s with measurementReady := false, batteryThd := .release } else s)
  | .release => .ok { s with bus2 := none, batteryThd := .publish }
  | .publish => .ok { s with batteryThd := .sleep }
  | .sleep => .ok { s with batteryThd := .acquire }

/-- The interrupt of `ADCD3`, with the samples, while it converts. -/
def AdcSystem.adc3Step (s : AdcSystem) (sample : ℕ → BitVec 16) : Except Fault AdcSystem :=
  if s.adc3 then
    (adcCb .adcd3 proximityNbChannels (buffer sample (proximityRows * proximityNbChannels))
      proximityRows s.values).map
      (fun values => { s with values := values, adc3 := false, adc3Ready := true })
  else .ok s

/-- The interrupt of `ADCD2`, with the callback of the group that is converted. -/
def AdcSystem.adc2Step (s : AdcSystem) (sample : ℕ → BitVec 16) : Except Fault AdcSystem :=
  match s.adc2 with
  | none => .ok s
  | some .proximity =>
    (adcCb .adcd2 1 (buffer sample (proximityRows * 1)) proximityRows s.values).map
      (fun values => { s with values := values, adc2 := none, adc2Ready := true })
  | some .battery =>
    .ok { s with batteryValue := WheelVoltage.adcCb (buffer sample batteryRows)
                 adc2 := none, measurementReady := true }

/-- Who makes a step. -/
inductive Step
  | proximity
  | battery
  | adc3 (sample : ℕ → BitVec 16)
  | adc2 (sample : ℕ → BitVec 16)

def AdcSystem.step (s : AdcSystem) : Step → Except Fault AdcSystem
  | .proximity => s.proximityStep
  | .battery => s.batteryStep
  | .adc3 sample => s.adc3Step sample
  | .adc2 sample => s.adc2Step sample

/-! ## What the history shows -/

inductive Event
  | position (p : Position)
  /-- A conversion of the sensors on `ADCD3`, and the position at that time. -/
  | converted3 (p : Position) (samples : Samples)
  /-- A conversion of the sensor on `ADCD2`. -/
  | converted2 (p : Position) (samples : Samples)
  | published (msg : ProximityMsg)
  /-- A conversion of the voltage of the battery. -/
  | batteryConverted (samples : Samples)
  | batteryPublished (voltage : ℚ)

/-- What a step shows of the proximity thread. -/
def AdcSystem.shows (s : AdcSystem) : Step → List Event
  | .proximity => match s.proximityThd with
    | .publish => [.published s.message]
    | .measuring p .position => [.position p]
    | _ => []
  | .battery => if s.batteryThd = .publish then
      [.batteryPublished (WheelVoltage.batteryVoltage s.batteryValue)] else []
  | .adc3 sample => if s.adc3 then
      [.converted3 s.position (buffer sample (proximityRows * proximityNbChannels))] else []
  | .adc2 sample => match s.adc2 with
    | none => []
    | some .proximity => [.converted2 s.position (buffer sample (proximityRows * 1))]
    | some .battery => [.batteryConverted (buffer sample batteryRows)]

/-- The event is one of the battery thread. -/
def Event.ofBattery : Event → Bool
  | .batteryConverted _ => true
  | .batteryPublished _ => true
  | _ => false

/-! ## Rounds of the threads -/

/-- **The results of a measurement** are the averages of the conversions. -/
structure Averaged (samples3 samples2 : Samples) (result : Values 13) : Prop where
  others : ∀ c < proximityNbChannels, c ≠ 8 → ∃ x, result[c]? = some x
    ∧ x.toNat = samples3.columnSum proximityNbChannels c proximityRows / proximityRows
  eighth : ∃ x, result[8]? = some x
    ∧ x.toNat = samples2.columnSum 1 0 proximityRows / proximityRows

/-- What a measurement shows: the position is set, and both converters convert at it, in any
order. -/
inductive Takes (p : Position) : List Event → Values 13 → Prop
  | threeFirst {samples3 samples2 : Samples} {result : Values 13} :
      Averaged samples3 samples2 result →
      Takes p [.position p, .converted3 p samples3, .converted2 p samples2] result
  | twoFirst {samples3 samples2 : Samples} {result : Values 13} :
      Averaged samples3 samples2 result →
      Takes p [.position p, .converted2 p samples2, .converted3 p samples3] result

/-- **What the proximity thread shows when it is alone**: a measurement without the light, one
with it, and the message with the results of both. -/
inductive Rounds : List Event → Prop
  | nil : Rounds []
  | round {h x y : List Event} {ambient reflected : Values 13} :
      Rounds h → Takes .off x ambient → Takes .on y reflected →
      Rounds (h ++ (x ++ y
        ++ [.published ⟨ambient, reflected, Vector.zipWith (· - ·) reflected ambient⟩]))

/-- What the battery thread shows when it is alone. -/
inductive BatteryRounds : List Event → Prop
  | nil : BatteryRounds []
  | round {h : List Event} {samples : Samples} :
      BatteryRounds h → samples.length = batteryRows →
      BatteryRounds (h ++ [.batteryConverted samples, .batteryPublished
        (WheelVoltage.batteryVoltage (WheelVoltage.sum samples / batteryRows))])

/-! ## The callbacks -/

theorem length_buffer (sample : ℕ → BitVec 16) (size : ℕ) :
    (buffer sample size).length = size := by
  rw [buffer, List.length_map, List.length_range]

/-- The sums of a few rows fit. -/
theorem columnSum_le (samples : Samples) (numChannels c rows : ℕ) :
    samples.columnSum numChannels c rows ≤ rows * 2 ^ 16 := by
  induction rows with
  | zero => simp
  | succ rows ih =>
    have hlt : samples.value (numChannels * rows + c) < 2 ^ 16 := (samples.getD _ 0).isLt
    rw [Samples.columnSum_succ]
    omega

theorem isBuffer (sample : ℕ → BitVec 16) (numChannels : ℕ) :
    Buffer numChannels proximityRows (buffer sample (proximityRows * numChannels)) where
  length := length_buffer _ _
  fits := fun c _ => lt_of_le_of_lt (columnSum_le _ _ _ _) (by decide)

/-- **The callback of `ADCD3`** stores the averages and leaves the value of `ADCD2`. -/
theorem adcCb_adcd3 (sample : ℕ → BitVec 16) (v : ProximityValues) :
    ∃ v', adcCb .adcd3 proximityNbChannels (buffer sample (proximityRows * proximityNbChannels))
        proximityRows v = .ok v' ∧ v'.adc2 = v.adc2
      ∧ Averages (buffer sample (proximityRows * proximityNbChannels)) proximityNbChannels
        proximityRows (fun c => v'.adc3[c]?) := by
  obtain ⟨values, hrun, haverages⟩ :=
    averageRows_ok (by decide) (isBuffer sample proximityNbChannels) (by decide) v.adc3
  refine ⟨{ v with adc3 := values }, ?_, rfl, haverages⟩
  rw [adcCb, hrun]
  rfl

/-- **The callback of `ADCD2`** stores the average and leaves the values of `ADCD3`. -/
theorem adcCb_adcd2 (sample : ℕ → BitVec 16) (v : ProximityValues) :
    ∃ v', adcCb .adcd2 1 (buffer sample (proximityRows * 1)) proximityRows v = .ok v'
      ∧ v'.adc3 = v.adc3
      ∧ Averages (buffer sample (proximityRows * 1)) 1 proximityRows (fun c => v'.adc2[c]?) := by
  obtain ⟨values, hrun, haverages⟩ :=
    averageRows_ok (by decide) (isBuffer sample 1) (by decide) v.adc2
  refine ⟨{ v with adc2 := values }, ?_, rfl, haverages⟩
  rw [adcCb, hrun]
  rfl

/-- The copy of the values has the averages of both converters. -/
theorem averaged_measured {samples3 samples2 : Samples} {v : ProximityValues}
    (h3 : Averages samples3 proximityNbChannels proximityRows (fun c => v.adc3[c]?))
    (h2 : Averages samples2 1 proximityRows (fun c => v.adc2[c]?)) :
    Averaged samples3 samples2 (measured v) where
  others := fun c hc hne => by
    obtain ⟨x, hx, hvalue⟩ := h3 c hc
    refine ⟨x, ?_, hvalue⟩
    rw [measured, Vector.getElem?_set_ne _ (by omega)]
    exact hx
  eighth := by
    obtain ⟨x, hx, hvalue⟩ := h2 0 (by decide)
    refine ⟨x, ?_, hvalue⟩
    rw [measured, Vector.getElem?_set_self]
    exact hx

/-! ## Who owns what -/

/-- Whether the thread owns the bus of `ADCD3`. -/
def ProximityThd.owns3 : ProximityThd → Bool
  | .measuring _ .position => false
  | .measuring _ .acquire3 => false
  | .measuring _ _ => true
  | .publish => false

/-- Whether the thread owns the bus of `ADCD2`. -/
def ProximityThd.owns2 : ProximityThd → Bool
  | .measuring _ .start3 => true
  | .measuring _ .start2 => true
  | .measuring _ .wait3 => true
  | .measuring _ .wait2 => true
  | .measuring _ .copy => true
  | .measuring _ .release2 => true
  | _ => false

/-- Whether the thread started `ADCD3` and did not wait for it yet. -/
def ProximityThd.started3 : ProximityThd → Bool
  | .measuring _ .start2 => true
  | .measuring _ .wait3 => true
  | _ => false

/-- Whether the thread started `ADCD2` and did not wait for it yet. -/
def ProximityThd.started2 : ProximityThd → Bool
  | .measuring _ .wait3 => true
  | .measuring _ .wait2 => true
  | _ => false

/-- Whether the battery thread owns the bus of `ADCD2`. -/
def BatteryThd.owns2 : BatteryThd → Bool
  | .start => true
  | .wait => true
  | .release => true
  | _ => false

/-- Whether the battery thread started `ADCD2` and did not wait for it yet. -/
def BatteryThd.started2 : BatteryThd → Bool
  | .wait => true
  | _ => false

/-- **The buses and the converters belong to the threads**: a bus is locked by the thread that
is between its lines, and a converter that was started converts until its semaphore is
signalled. -/
structure Owned (s : AdcSystem) : Prop where
  bus3 : s.bus3 = if s.proximityThd.owns3 then some .proximity else none
  bus2 : s.bus2 = if s.proximityThd.owns2 then some .proximity
    else if s.batteryThd.owns2 then some .battery else none
  exclusive : s.proximityThd.owns2 = true → s.batteryThd.owns2 = false
  adc3Ready : s.adc3Ready = true → s.proximityThd.started3 = true
  adc2Ready : s.adc2Ready = true → s.proximityThd.started2 = true
  measurementReady : s.measurementReady = true → s.batteryThd.started2 = true
  adc3 : s.adc3 = (s.proximityThd.started3 && !s.adc3Ready)
  adc2 : s.adc2 = if s.proximityThd.started2 && !s.adc2Ready then some .proximity
    else if s.batteryThd.started2 && !s.measurementReady then some .battery else none

theorem owned_init (position : Position) (ambient reflected : Values 13) :
    Owned (AdcSystem.init position ambient reflected) where
  bus3 := rfl
  bus2 := rfl
  exclusive := nofun
  adc3Ready := nofun
  adc2Ready := nofun
  measurementReady := nofun
  adc3 := rfl
  adc2 := rfl

/-- A thread that started the converter owns its bus. -/
theorem ProximityThd.owns2_of_started2 {t : ProximityThd} (h : t.started2 = true) :
    t.owns2 = true := by
  unfold started2 at h
  split at h
  · rfl
  · rfl
  · exact nomatch h

theorem BatteryThd.owns2_of_started2 {t : BatteryThd} (h : t.started2 = true) :
    t.owns2 = true := by
  cases t with
  | wait => rfl
  | _ => exact nomatch h

/-- The proximity thread has not started the converter while it does not own its bus. -/
theorem ProximityThd.started2_eq_false {t : ProximityThd} (h : t.owns2 = false) :
    t.started2 = false :=
  Bool.eq_false_iff.mpr (fun hstarted => nomatch h.symm.trans (owns2_of_started2 hstarted))

variable {s s' : AdcSystem}

/-- The battery thread has not started the converter while it does not own its bus. -/
theorem BatteryThd.started2_eq_false {t : BatteryThd} (h : t.owns2 = false) :
    t.started2 = false := by
  cases t with
  | wait => exact nomatch h
  | _ => rfl

open ProximityThd in
/-- A step of the proximity thread keeps the ownership, and starts no busy converter. -/
theorem owned_proximityStep (hs : Owned s) :
    ∃ s', s.proximityStep = .ok s' ∧ Owned s' := by
  obtain ⟨hbus3, hbus2, hexclusive, hready3, hready2, hreadyB, hadc3, hadc2⟩ := hs
  unfold AdcSystem.proximityStep
  cases hpc : s.proximityThd with
  | publish =>
    refine ⟨_, rfl, ?_⟩
    constructor <;> simp_all [owns3, owns2, started3, started2]
  | measuring p line =>
    rw [hpc] at hbus3 hbus2 hexclusive hready3 hready2 hadc3 hadc2
    cases line with
    | position =>
      refine ⟨_, rfl, ?_⟩
      constructor <;> simp_all [owns3, owns2, started3, started2]
    | acquire3 =>
      refine ⟨_, if_pos hbus3, ?_⟩
      constructor <;> simp_all [owns3, owns2, started3, started2]
    | acquire2 =>
      by_cases hfree : s.bus2 = none
      · have howns : s.batteryThd.owns2 = false := by simpa [hfree, owns2] using hbus2
        have hstarted := BatteryThd.started2_eq_false howns
        refine ⟨_, if_pos hfree, ?_⟩
        constructor <;> simp_all [owns3, owns2, started3, started2]
      · refine ⟨s, if_neg hfree, ?_⟩
        constructor <;> simp_all [owns3, owns2, started3, started2]
    | start3 =>
      refine ⟨_, if_neg (by simp_all [owns3, owns2, started3, started2]), ?_⟩
      constructor <;> simp_all [owns3, owns2, started3, started2]
    | start2 =>
      have hstarted := BatteryThd.started2_eq_false (hexclusive rfl)
      refine ⟨_, if_pos (by simp_all [owns3, owns2, started3, started2]), ?_⟩
      constructor <;> simp_all [owns3, owns2, started3, started2]
    | wait3 =>
      by_cases hready : s.adc3Ready = true
      · refine ⟨_, if_pos hready, ?_⟩
        constructor <;> simp_all [owns3, owns2, started3, started2]
      · refine ⟨s, if_neg hready, ?_⟩
        constructor <;> simp_all [owns3, owns2, started3, started2]
    | wait2 =>
      by_cases hready : s.adc2Ready = true
      · refine ⟨_, if_pos hready, ?_⟩
        constructor <;> simp_all [owns3, owns2, started3, started2]
      · refine ⟨s, if_neg hready, ?_⟩
        constructor <;> simp_all [owns3, owns2, started3, started2]
    | copy =>
      refine ⟨_, rfl, ?_⟩
      cases p <;> constructor <;> simp_all [owns3, owns2, started3, started2, AdcSystem.store]
    | release2 =>
      refine ⟨_, rfl, ?_⟩
      constructor <;> simp_all [owns3, owns2, started3, started2]
    | release3 =>
      refine ⟨_, rfl, ?_⟩
      cases p <;> constructor <;> simp_all [owns3, owns2, started3, started2, Position.next]

open BatteryThd in
/-- A step of the battery thread keeps the ownership, and starts no busy converter. -/
theorem owned_batteryStep (hs : Owned s) : ∃ s', s.batteryStep = .ok s' ∧ Owned s' := by
  have howns : s.batteryThd.owns2 = true → s.proximityThd.owns2 = false := fun h =>
    Bool.eq_false_iff.mpr (fun h' => nomatch h.symm.trans (hs.exclusive h'))
  obtain ⟨hbus3, hbus2, hexclusive, hready3, hready2, hreadyB, hadc3, hadc2⟩ := hs
  unfold AdcSystem.batteryStep
  cases hpc : s.batteryThd with
  | acquire =>
    rw [hpc] at hbus2 hexclusive hreadyB hadc2 howns
    by_cases hfree : s.bus2 = none
    · refine ⟨_, congrArg Except.ok (if_pos hfree), ?_⟩
      constructor <;> simp_all [owns2, started2]
    · refine ⟨s, congrArg Except.ok (if_neg hfree), ?_⟩
      constructor <;> simp_all [owns2, started2]
  | start =>
    rw [hpc] at hbus2 hexclusive hreadyB hadc2 howns
    have hstarted := ProximityThd.started2_eq_false (howns rfl)
    refine ⟨_, if_pos (by simp_all [owns2, started2]), ?_⟩
    constructor <;> simp_all [owns2, started2]
  | wait =>
    rw [hpc] at hbus2 hexclusive hreadyB hadc2 howns
    by_cases hready : s.measurementReady = true
    · refine ⟨_, congrArg Except.ok (if_pos hready), ?_⟩
      constructor <;> simp_all [owns2, started2]
    · refine ⟨s, congrArg Except.ok (if_neg hready), ?_⟩
      constructor <;> simp_all [owns2, started2]
  | release =>
    rw [hpc] at hbus2 hexclusive hreadyB hadc2 howns
    refine ⟨_, rfl, ?_⟩
    constructor <;> simp_all [owns2, started2]
  | publish =>
    rw [hpc] at hbus2 hexclusive hreadyB hadc2 howns
    refine ⟨_, rfl, ?_⟩
    constructor <;> simp_all [owns2, started2]
  | sleep =>
    rw [hpc] at hbus2 hexclusive hreadyB hadc2 howns
    refine ⟨_, rfl, ?_⟩
    constructor <;> simp_all [owns2, started2]

/-- The interrupt of `ADCD3` keeps the ownership. -/
theorem owned_adc3Step (hs : Owned s) (sample : ℕ → BitVec 16) :
    ∃ s', s.adc3Step sample = .ok s' ∧ Owned s' := by
  unfold AdcSystem.adc3Step
  by_cases hconverts : s.adc3 = true
  · obtain ⟨values, hrun, -⟩ := adcCb_adcd3 sample s.values
    have hstarted : s.proximityThd.started3 = true :=
      (Bool.and_eq_true_iff.mp (hs.adc3.symm.trans hconverts)).1
    rw [if_pos hconverts, hrun]
    exact ⟨_, rfl, hs.bus3, hs.bus2, hs.exclusive, fun _ => hstarted, hs.adc2Ready,
      hs.measurementReady, (Bool.and_false _).symm, hs.adc2⟩
  · rw [if_neg hconverts]
    exact ⟨s, rfl, hs⟩

/-- Only one thread has started `ADCD2`. -/
theorem Owned.battery_not_started (hs : Owned s) (h : s.proximityThd.started2 = true) :
    s.batteryThd.started2 = false :=
  BatteryThd.started2_eq_false (hs.exclusive (ProximityThd.owns2_of_started2 h))

theorem Owned.proximity_not_started (hs : Owned s) (h : s.batteryThd.started2 = true) :
    s.proximityThd.started2 = false :=
  Bool.eq_false_iff.mpr (fun h' => nomatch h.symm.trans (hs.battery_not_started h'))

/-- While `ADCD2` converts the group of the proximity thread, the thread waits for it. -/
theorem Owned.proximity_started (hs : Owned s) (h : s.adc2 = some .proximity) :
    s.proximityThd.started2 = true := by
  by_contra hnot
  have hadc2 := hs.adc2
  rw [Bool.eq_false_iff.mpr hnot, h] at hadc2
  simp at hadc2

/-- While `ADCD2` converts the group of the battery thread, the thread waits for it. -/
theorem Owned.battery_started (hs : Owned s) (h : s.adc2 = some .battery) :
    s.batteryThd.started2 = true := by
  by_contra hnot
  have hadc2 := hs.adc2
  rw [Bool.eq_false_iff.mpr hnot, h] at hadc2
  simp at hadc2

theorem BatteryThd.eq_wait_of_started2 {t : BatteryThd} (h : t.started2 = true) : t = .wait := by
  cases t with
  | wait => rfl
  | _ => exact nomatch h

/-- The semaphore is not signalled before the conversion is done. -/
theorem Owned.measurement_not_ready (hs : Owned s) (h : s.adc2 = some .battery) :
    s.measurementReady = false := by
  by_contra hready
  have hadc2 := hs.adc2
  rw [(Bool.not_eq_false _).mp hready, h] at hadc2
  simp at hadc2

/-- The interrupt of `ADCD2` keeps the ownership. -/
theorem owned_adc2Step (hs : Owned s) (sample : ℕ → BitVec 16) :
    ∃ s', s.adc2Step sample = .ok s' ∧ Owned s' := by
  unfold AdcSystem.adc2Step
  cases hgroup : s.adc2 with
  | none => exact ⟨s, rfl, hs⟩
  | some owner =>
    cases owner with
    | proximity =>
      obtain ⟨values, hrun, -⟩ := adcCb_adcd2 sample s.values
      have hstarted := hs.proximity_started hgroup
      have hbattery := hs.battery_not_started hstarted
      refine ⟨_, congrArg (Except.map _) hrun, hs.bus3, hs.bus2, hs.exclusive, hs.adc3Ready,
        fun _ => hstarted, hs.measurementReady, hs.adc3, ?_⟩
      simp [hbattery]
    | battery =>
      have hstarted := hs.battery_started hgroup
      have hproximity : s.proximityThd.started2 = false := Bool.eq_false_iff.mpr (fun h =>
        nomatch hstarted.symm.trans (hs.battery_not_started h))
      refine ⟨_, rfl, hs.bus3, hs.bus2, hs.exclusive, hs.adc3Ready, hs.adc2Ready,
        fun _ => hstarted, hs.adc3, ?_⟩
      simp [hproximity]

/-- **No step fails**, and every step keeps the ownership. -/
theorem owned_step (hs : Owned s) (i : Step) : ∃ s', s.step i = .ok s' ∧ Owned s' := by
  cases i with
  | proximity => exact owned_proximityStep hs
  | battery => exact owned_batteryStep hs
  | adc3 sample => exact owned_adc3Step hs sample
  | adc2 sample => exact owned_adc2Step hs sample

/-! ## What a round has shown so far -/

/-- What a measurement shows until it copies the values, by which converters are done. -/
def Converting (p : Position) (v : ProximityValues) : Bool → Bool → List Event → Prop
  | false, false, events => events = [.position p]
  | true, false, events => ∃ samples3, events = [.position p, .converted3 p samples3]
    ∧ Averages samples3 proximityNbChannels proximityRows (fun c => v.adc3[c]?)
  | false, true, events => ∃ samples2, events = [.position p, .converted2 p samples2]
    ∧ Averages samples2 1 proximityRows (fun c => v.adc2[c]?)
  | true, true, events => ∃ samples3 samples2,
    (events = [.position p, .converted3 p samples3, .converted2 p samples2]
      ∨ events = [.position p, .converted2 p samples2, .converted3 p samples3])
    ∧ Averages samples3 proximityNbChannels proximityRows (fun c => v.adc3[c]?)
    ∧ Averages samples2 1 proximityRows (fun c => v.adc2[c]?)

/-- Whether `ADCD3` was started before the line. -/
def Line.after3 : Line → Bool
  | .start2 => true
  | .wait3 => true
  | .wait2 => true
  | .copy => true
  | _ => false

/-- Whether `ADCD2` was started before the line. -/
def Line.after2 : Line → Bool
  | .wait3 => true
  | .wait2 => true
  | .copy => true
  | _ => false

/-- The results of a position. -/
def AdcSystem.result (s : AdcSystem) : Position → Values 13
  | .off => s.ambient
  | .on => s.reflected

/-- What a measurement has shown at a line. -/
def AdcSystem.InLine (s : AdcSystem) (p : Position) : Line → List Event → Prop
  | .position, events => events = []
  | .release2, events => Takes p events (s.result p)
  | .release3, events => Takes p events (s.result p)
  | line, events => s.position = p ∧ Converting p s.values (line.after3 && !s.adc3)
    (line.after2 && s.adc2 ≠ some .proximity) events

/-- What a round has shown before a measurement. -/
def AdcSystem.Before (s : AdcSystem) : Position → List Event → Prop
  | .off, events => events = []
  | .on, events => Takes .off events s.ambient

/-- **What a round has shown so far.** -/
def AdcSystem.Round (s : AdcSystem) (events : List Event) : Prop :=
  match s.proximityThd with
  | .measuring p line => ∃ x y, events = x ++ y ∧ s.Before p x ∧ s.InLine p line y
  | .publish => ∃ x y, events = x ++ y ∧ Takes .off x s.ambient ∧ Takes .on y s.reflected

theorem Converting.takes {p : Position} {v : ProximityValues} {events : List Event}
    (h : Converting p v true true events) : Takes p events (measured v) := by
  obtain ⟨samples3, samples2, rfl | rfl, h3, h2⟩ := h
  · exact .threeFirst (averaged_measured h3 h2)
  · exact .twoFirst (averaged_measured h3 h2)

theorem Converting.converted3 {p : Position} {v v' : ProximityValues} {done2 : Bool}
    {events : List Event} {samples : Samples} (h : Converting p v false done2 events)
    (hsame : v'.adc2 = v.adc2)
    (h3 : Averages samples proximityNbChannels proximityRows (fun c => v'.adc3[c]?)) :
    Converting p v' true done2 (events ++ [.converted3 p samples]) := by
  cases done2 with
  | false =>
    obtain rfl : events = [.position p] := h
    exact ⟨samples, rfl, h3⟩
  | true =>
    obtain ⟨samples2, rfl, h2⟩ := h
    exact ⟨samples, samples2, Or.inr rfl, h3, hsame ▸ h2⟩

theorem Converting.converted2 {p : Position} {v v' : ProximityValues} {done3 : Bool}
    {events : List Event} {samples : Samples} (h : Converting p v done3 false events)
    (hsame : v'.adc3 = v.adc3)
    (h2 : Averages samples 1 proximityRows (fun c => v'.adc2[c]?)) :
    Converting p v' done3 true (events ++ [.converted2 p samples]) := by
  cases done3 with
  | false =>
    obtain rfl : events = [.position p] := h
    exact ⟨samples, rfl, h2⟩
  | true =>
    obtain ⟨samples3, rfl, h3⟩ := h
    exact ⟨samples3, samples, Or.inl rfl, hsame ▸ h3, h2⟩

/-- The proximity thread sees no difference between two states. -/
structure AlikeForProximity (s s' : AdcSystem) : Prop where
  proximityThd : s'.proximityThd = s.proximityThd
  position : s'.position = s.position
  values : s'.values = s.values
  adc3 : s'.adc3 = s.adc3
  adc2 : s'.adc2 = some .proximity ↔ s.adc2 = some .proximity
  ambient : s'.ambient = s.ambient
  reflected : s'.reflected = s.reflected

/-- A step that leaves what the proximity thread sees leaves its round. -/
theorem AdcSystem.Round.congr {events : List Event} (h : s.Round events)
    (halike : AlikeForProximity s s') : s'.Round events := by
  obtain ⟨hthd, hposition, hvalues, hadc3, hadc2, hambient, hreflected⟩ := halike
  have hbefore : ∀ p x, s.Before p x → s'.Before p x := fun p x hx => by
    cases p with
    | off => exact hx
    | on =>
      show Takes .off x s'.ambient
      rw [hambient]
      exact hx
  have hresult : ∀ p, s'.result p = s.result p := fun p => by
    cases p with
    | off => exact hambient
    | on => exact hreflected
  have hinLine : ∀ p line y, s.InLine p line y → s'.InLine p line y := fun p line y hy => by
    cases line with
    | position => exact hy
    | release2 =>
      show Takes p y (s'.result p)
      rw [hresult]
      exact hy
    | release3 =>
      show Takes p y (s'.result p)
      rw [hresult]
      exact hy
    | _ =>
      refine ⟨hposition.trans hy.1, ?_⟩
      have hconverting := hy.2
      simp only [ne_eq, hvalues, hadc3, hadc2] at hconverting ⊢
      exact hconverting
  unfold Round at h ⊢
  rw [hthd]
  cases hpc : s.proximityThd with
  | publish =>
    rw [hpc] at h
    simpa only [hambient, hreflected] using h
  | measuring p line =>
    rw [hpc] at h
    obtain ⟨x, y, rfl, hx, hy⟩ := h
    exact ⟨x, y, rfl, hbefore p x hx, hinLine p line y hy⟩

/-! ## What a step adds to a round -/

/-- **A line of a measurement** adds what it shows to what the measurement has shown. -/
theorem inLine_proximityStep (hs : Owned s) {p : Position} {line : Line}
    (hpc : s.proximityThd = .measuring p line) (hline : line ≠ .release3) {y : List Event}
    (hy : s.InLine p line y) (h : s.proximityStep = .ok s') :
    ∃ line', s'.proximityThd = .measuring p line' ∧ (∀ x, s.Before p x → s'.Before p x)
      ∧ s'.InLine p line' (y ++ s.shows .proximity) := by
  have hadc3 := hs.adc3
  have hstarted2 := fun hgroup => hs.proximity_started hgroup
  have hshows : line ≠ .position → s.shows .proximity = [] := fun hne => by
    rw [AdcSystem.shows, hpc]
    cases line with
    | position => exact absurd rfl hne
    | _ => rfl
  have hsame : ∀ {t : AdcSystem}, t.ambient = s.ambient → ∀ x, s.Before p x → t.Before p x :=
    fun hambient x hx => by
      cases p with
      | off => exact hx
      | on =>
        show Takes .off x _
        rw [hambient]
        exact hx
  unfold AdcSystem.proximityStep at h
  rw [hpc] at h hadc3 hstarted2
  cases line with
  | position =>
    obtain rfl := Except.ok.inj h
    obtain rfl : y = [] := hy
    rw [AdcSystem.shows, hpc]
    exact ⟨.acquire3, rfl, hsame rfl, rfl, rfl⟩
  | acquire3 =>
    rw [hshows nofun, List.append_nil]
    dsimp only at h
    split_ifs at h
    · obtain rfl := Except.ok.inj h
      exact ⟨.acquire2, rfl, hsame rfl, hy⟩
    · obtain rfl := Except.ok.inj h
      exact ⟨.acquire3, hpc, hsame rfl, hy⟩
  | acquire2 =>
    rw [hshows nofun, List.append_nil]
    dsimp only at h
    split_ifs at h
    · obtain rfl := Except.ok.inj h
      exact ⟨.start3, rfl, hsame rfl, hy⟩
    · obtain rfl := Except.ok.inj h
      exact ⟨.acquire2, hpc, hsame rfl, hy⟩
  | start3 =>
    rw [hshows nofun, List.append_nil]
    dsimp only at h
    split_ifs at h
    obtain rfl := Except.ok.inj h
    exact ⟨.start2, rfl, hsame rfl, hy⟩
  | start2 =>
    rw [hshows nofun, List.append_nil]
    dsimp only at h
    split_ifs at h
    obtain rfl := Except.ok.inj h
    exact ⟨.wait3, rfl, hsame rfl, hy⟩
  | wait3 =>
    rw [hshows nofun, List.append_nil]
    dsimp only at h
    split_ifs at h
    · obtain rfl := Except.ok.inj h
      exact ⟨.wait2, rfl, hsame rfl, hy⟩
    · obtain rfl := Except.ok.inj h
      exact ⟨.wait3, hpc, hsame rfl, hy⟩
  | wait2 =>
    rw [hshows nofun, List.append_nil]
    dsimp only at h
    split_ifs at h
    · obtain rfl := Except.ok.inj h
      exact ⟨.copy, rfl, hsame rfl, hy⟩
    · obtain rfl := Except.ok.inj h
      exact ⟨.wait2, hpc, hsame rfl, hy⟩
  | copy =>
    -- Both conversions are done: the values that are copied are their averages.
    rw [hshows nofun, List.append_nil]
    obtain rfl := Except.ok.inj h
    have hconverting := hy.2
    have hdone2 : s.adc2 ≠ some .proximity := fun hgroup => nomatch hstarted2 hgroup
    rw [show s.adc3 = false from hadc3, decide_eq_true hdone2] at hconverting
    cases p with
    | off => exact ⟨.release2, rfl, fun _ hx => hx, hconverting.takes⟩
    | on => exact ⟨.release2, rfl, fun _ hx => hx, hconverting.takes⟩
  | release2 =>
    rw [hshows nofun, List.append_nil]
    obtain rfl := Except.ok.inj h
    refine ⟨.release3, rfl, hsame rfl, ?_⟩
    cases p with
    | off => exact hy
    | on => exact hy
  | release3 => exact absurd rfl hline

/-- The events of the proximity thread. -/
def ofProximity (h : List Event) : List Event := h.filter (fun e => !e.ofBattery)

/-- The events of the battery thread. -/
def ofBattery (h : List Event) : List Event := h.filter Event.ofBattery

/-- The history of the proximity thread is rounds, and what the last one has shown so far. -/
def InRounds (s : AdcSystem) (h : List Event) : Prop :=
  ∃ complete events, h = complete ++ events ∧ Rounds complete ∧ s.Round events

/-- A step of the proximity thread goes on with the round, or ends it with its message. -/
theorem inRounds_proximityStep {h : List Event} (hs : Owned s) (hround : InRounds s h)
    (hstep : s.proximityStep = .ok s') : InRounds s' (h ++ s.shows .proximity) := by
  obtain ⟨complete, events, rfl, hcomplete, hround⟩ := hround
  unfold AdcSystem.Round at hround
  cases hpc : s.proximityThd with
  | publish =>
    rw [hpc] at hround
    obtain ⟨x, y, rfl, hx, hy⟩ := hround
    rw [AdcSystem.proximityStep, hpc] at hstep
    obtain rfl := Except.ok.inj hstep
    rw [AdcSystem.shows, hpc, List.append_assoc]
    exact ⟨_, [], (List.append_nil _).symm, .round hcomplete hx hy, [], [], rfl, rfl, rfl⟩
  | measuring p line =>
    rw [hpc] at hround
    obtain ⟨x, y, rfl, hx, hy⟩ := hround
    by_cases hline : line = .release3
    · -- The measurement ends: its results are those of the position.
      rw [AdcSystem.proximityStep, hpc, hline] at hstep
      obtain rfl := Except.ok.inj hstep
      rw [hline] at hy
      have hshows : s.shows .proximity = [] := by rw [AdcSystem.shows, hpc, hline]
      rw [hshows, List.append_nil]
      refine ⟨complete, x ++ y, rfl, hcomplete, ?_⟩
      cases p with
      | off =>
        obtain rfl : x = [] := hx
        exact ⟨y, [], (List.append_nil _).symm, hy, rfl⟩
      | on => exact ⟨x, y, rfl, hx, hy⟩
    · obtain ⟨line', hthd, hbefore, hinLine⟩ := inLine_proximityStep hs hpc hline hy hstep
      refine ⟨complete, x ++ (y ++ s.shows .proximity), by simp only [List.append_assoc],
        hcomplete, ?_⟩
      unfold AdcSystem.Round
      rw [hthd]
      exact ⟨x, _, rfl, hbefore x hx, hinLine⟩

/-- Where the converters may convert for the proximity thread, a measurement shows the
conversions that are done. -/
theorem inLine_of_after3 {p : Position} {line : Line} (h : line.after3 = true) (events : List Event) :
    s.InLine p line events ↔ s.position = p ∧ Converting p s.values (!s.adc3)
      (line.after2 && s.adc2 ≠ some .proximity) events := by
  cases line with
  | start2 => exact Iff.rfl
  | wait3 => exact Iff.rfl
  | wait2 => exact Iff.rfl
  | copy => exact Iff.rfl
  | _ => exact nomatch h

theorem line_of_started3 {t : ProximityThd} (h : t.started3 = true) :
    ∃ p line, t = .measuring p line ∧ line.after3 = true := by
  unfold ProximityThd.started3 at h
  split at h
  · exact ⟨_, _, rfl, rfl⟩
  · exact ⟨_, _, rfl, rfl⟩
  · exact nomatch h

theorem line_of_started2 {t : ProximityThd} (h : t.started2 = true) :
    ∃ p line, t = .measuring p line ∧ line.after3 = true ∧ line.after2 = true := by
  unfold ProximityThd.started2 at h
  split at h
  · exact ⟨_, _, rfl, rfl, rfl⟩
  · exact ⟨_, _, rfl, rfl, rfl⟩
  · exact nomatch h

/-- A conversion on `ADCD3` goes on with the round. -/
theorem round_adc3Step {events : List Event} (hs : Owned s) (hround : s.Round events)
    (hconverts : s.adc3 = true) {values : ProximityValues} {samples : Samples}
    (hsame : values.adc2 = s.values.adc2)
    (h3 : Averages samples proximityNbChannels proximityRows (fun c => values.adc3[c]?)) :
    ({ s with values := values, adc3 := false, adc3Ready := true } : AdcSystem).Round
      (events ++ [.converted3 s.position samples]) := by
  have hstarted : s.proximityThd.started3 = true :=
    (Bool.and_eq_true_iff.mp (hs.adc3.symm.trans hconverts)).1
  obtain ⟨p, line, hpc, hline⟩ := line_of_started3 hstarted
  unfold AdcSystem.Round at hround ⊢
  rw [hpc] at hround
  obtain ⟨x, y, rfl, hx, hy⟩ := hround
  obtain ⟨hposition, hy⟩ := (inLine_of_after3 hline y).mp hy
  rw [hconverts] at hy
  dsimp only
  rw [hpc, List.append_assoc]
  refine ⟨x, _, rfl, by cases p <;> exact hx, (inLine_of_after3 hline _).mpr ⟨hposition, ?_⟩⟩
  rw [hposition]
  exact hy.converted3 hsame h3

/-- A conversion on `ADCD2` for the proximity thread goes on with the round. -/
theorem round_adc2Step {events : List Event} (hs : Owned s) (hround : s.Round events)
    (hgroup : s.adc2 = some .proximity) {values : ProximityValues} {samples : Samples}
    (hsame : values.adc3 = s.values.adc3)
    (h2 : Averages samples 1 proximityRows (fun c => values.adc2[c]?)) :
    ({ s with values := values, adc2 := none, adc2Ready := true } : AdcSystem).Round
      (events ++ [.converted2 s.position samples]) := by
  obtain ⟨p, line, hpc, hline, hline2⟩ := line_of_started2 (hs.proximity_started hgroup)
  unfold AdcSystem.Round at hround ⊢
  rw [hpc] at hround
  obtain ⟨x, y, rfl, hx, hy⟩ := hround
  obtain ⟨hposition, hy⟩ := (inLine_of_after3 hline y).mp hy
  rw [hgroup, hline2] at hy
  dsimp only
  rw [hpc, List.append_assoc]
  refine ⟨x, _, rfl, by cases p <;> exact hx, (inLine_of_after3 hline _).mpr ⟨hposition, ?_⟩⟩
  rw [hposition, hline2]
  exact hy.converted2 hsame h2

/-! ## The rounds of the battery thread -/

/-- The battery thread has shown a conversion whose average is the value. -/
def AdcSystem.BatteryMeasured (s : AdcSystem) (events : List Event) : Prop :=
  ∃ samples, events = [.batteryConverted samples] ∧ samples.length = batteryRows
    ∧ s.batteryValue = WheelVoltage.sum samples / batteryRows

/-- What a round of the battery thread has shown so far. -/
def AdcSystem.BatteryRound (s : AdcSystem) (events : List Event) : Prop :=
  match s.batteryThd with
  | .wait => if s.measurementReady then s.BatteryMeasured events else events = []
  | .release => s.BatteryMeasured events
  | .publish => s.BatteryMeasured events
  | _ => events = []

/-- The history of the battery thread is rounds, and what the last one has shown so far. -/
def InBatteryRounds (s : AdcSystem) (h : List Event) : Prop :=
  ∃ complete events, h = complete ++ events ∧ BatteryRounds complete ∧ s.BatteryRound events

theorem inBatteryRounds_batteryStep {h : List Event} (hs : Owned s) (hround : InBatteryRounds s h)
    (hstep : s.batteryStep = .ok s') : InBatteryRounds s' (h ++ s.shows .battery) := by
  have hready := hs.measurementReady
  obtain ⟨complete, events, rfl, hcomplete, hround⟩ := hround
  unfold AdcSystem.BatteryRound at hround
  unfold AdcSystem.batteryStep at hstep
  have hshows : s.batteryThd ≠ .publish → s.shows .battery = [] := fun hne => by
    rw [AdcSystem.shows, if_neg hne]
  cases hpc : s.batteryThd with
  | publish =>
    rw [hpc] at hround hstep
    obtain ⟨samples, rfl, hlength, hvalue⟩ := hround
    obtain rfl := Except.ok.inj hstep
    rw [AdcSystem.shows, if_pos hpc, hvalue, List.append_assoc]
    exact ⟨_, [], (List.append_nil _).symm, .round hcomplete hlength, rfl⟩
  | acquire =>
    rw [hpc] at hround hstep
    rw [hshows (by rw [hpc]; nofun), List.append_nil]
    obtain rfl := Except.ok.inj hstep
    refine ⟨complete, events, rfl, hcomplete, ?_⟩
    unfold AdcSystem.BatteryRound
    by_cases hfree : s.bus2 = none
    · rw [if_pos hfree]
      exact hround
    · rw [if_neg hfree, hpc]
      exact hround
  | start =>
    rw [hpc] at hround hstep hready
    rw [hshows (by rw [hpc]; nofun), List.append_nil]
    dsimp only at hstep
    split_ifs at hstep
    obtain rfl := Except.ok.inj hstep
    refine ⟨complete, events, rfl, hcomplete, ?_⟩
    exact (if_neg (fun h => nomatch hready h)).mpr hround
  | wait =>
    rw [hpc] at hround hstep
    rw [hshows (by rw [hpc]; nofun), List.append_nil]
    obtain rfl := Except.ok.inj hstep
    refine ⟨complete, events, rfl, hcomplete, ?_⟩
    unfold AdcSystem.BatteryRound
    by_cases hmeasured : s.measurementReady = true
    · rw [if_pos hmeasured]
      exact (if_pos hmeasured).mp hround
    · rw [if_neg hmeasured, hpc]
      exact hround
  | release =>
    rw [hpc] at hround hstep
    rw [hshows (by rw [hpc]; nofun), List.append_nil]
    obtain rfl := Except.ok.inj hstep
    exact ⟨complete, events, rfl, hcomplete, hround⟩
  | sleep =>
    rw [hpc] at hround hstep
    rw [hshows (by rw [hpc]; nofun), List.append_nil]
    obtain rfl := Except.ok.inj hstep
    exact ⟨complete, events, rfl, hcomplete, hround⟩

/-- The average of the callback of the battery thread. -/
theorem adcCb_battery (sample : ℕ → BitVec 16) :
    WheelVoltage.adcCb (buffer sample batteryRows)
      = WheelVoltage.sum (buffer sample batteryRows) / batteryRows :=
  WheelVoltage.adcCb_eq ⟨buffer sample batteryRows, length_buffer _ _⟩

/-- The battery thread sees no difference between two states. -/
structure AlikeForBattery (s s' : AdcSystem) : Prop where
  batteryThd : s'.batteryThd = s.batteryThd
  measurementReady : s'.measurementReady = s.measurementReady
  batteryValue : s'.batteryValue = s.batteryValue

theorem AdcSystem.BatteryRound.congr {events : List Event} (h : s.BatteryRound events)
    (halike : AlikeForBattery s s') : s'.BatteryRound events := by
  unfold AdcSystem.BatteryRound AdcSystem.BatteryMeasured at h ⊢
  rw [halike.batteryThd, halike.measurementReady, halike.batteryValue]
  exact h

theorem alikeForProximity_of_batteryStep (h : s.batteryStep = .ok s') : AlikeForProximity s s' := by
  unfold AdcSystem.batteryStep at h
  cases hpc : s.batteryThd with
  | start =>
    rw [hpc] at h
    dsimp only at h
    split_ifs at h with hfree
    obtain rfl := Except.ok.inj h
    exact ⟨rfl, rfl, rfl, rfl, by rw [hfree]; simp, rfl, rfl⟩
  | acquire =>
    rw [hpc] at h
    obtain rfl := Except.ok.inj h
    split_ifs
    · exact ⟨rfl, rfl, rfl, rfl, Iff.rfl, rfl, rfl⟩
    · exact ⟨rfl, rfl, rfl, rfl, Iff.rfl, rfl, rfl⟩
  | wait =>
    rw [hpc] at h
    obtain rfl := Except.ok.inj h
    split_ifs
    · exact ⟨rfl, rfl, rfl, rfl, Iff.rfl, rfl, rfl⟩
    · exact ⟨rfl, rfl, rfl, rfl, Iff.rfl, rfl, rfl⟩
  | _ =>
    rw [hpc] at h
    obtain rfl := Except.ok.inj h
    exact ⟨rfl, rfl, rfl, rfl, Iff.rfl, rfl, rfl⟩

theorem alikeForBattery_of_proximityStep (h : s.proximityStep = .ok s') : AlikeForBattery s s' := by
  unfold AdcSystem.proximityStep at h
  cases hpc : s.proximityThd with
  | publish =>
    rw [hpc] at h
    obtain rfl := Except.ok.inj h
    exact ⟨rfl, rfl, rfl⟩
  | measuring p line =>
    rw [hpc] at h
    cases line with
    | copy =>
      obtain rfl := Except.ok.inj h
      cases p <;> exact ⟨rfl, rfl, rfl⟩
    | position | release2 | release3 =>
      obtain rfl := Except.ok.inj h
      exact ⟨rfl, rfl, rfl⟩
    | _ =>
      dsimp only at h
      split_ifs at h <;> obtain rfl := Except.ok.inj h <;> exact ⟨rfl, rfl, rfl⟩

/-! ## Every run -/

/-- **What the history of a run shows**: the rounds of both threads. -/
structure Traced (s : AdcSystem × List Event) : Prop where
  owned : Owned s.1
  rounds : InRounds s.1 (ofProximity s.2)
  batteryRounds : InBatteryRounds s.1 (ofBattery s.2)

theorem traced_init (position : Position) (ambient reflected : Values 13) :
    Traced (AdcSystem.init position ambient reflected, []) where
  owned := owned_init position ambient reflected
  rounds := ⟨[], [], rfl, .nil, [], [], rfl, rfl, rfl⟩
  batteryRounds := ⟨[], [], rfl, .nil, rfl⟩

theorem ofProximity_append (h xs : List Event) :
    ofProximity (h ++ xs) = ofProximity h ++ ofProximity xs := List.filter_append _ _

theorem ofBattery_append (h xs : List Event) :
    ofBattery (h ++ xs) = ofBattery h ++ ofBattery xs := List.filter_append _ _

/-- What the proximity thread shows is of the proximity thread. -/
theorem shows_proximity (s : AdcSystem) :
    ofProximity (s.shows .proximity) = s.shows .proximity
      ∧ ofBattery (s.shows .proximity) = [] := by
  rw [AdcSystem.shows]
  split
  · exact ⟨rfl, rfl⟩
  · exact ⟨rfl, rfl⟩
  · exact ⟨rfl, rfl⟩

/-- What the battery thread shows is of the battery thread. -/
theorem shows_battery (s : AdcSystem) :
    ofProximity (s.shows .battery) = [] ∧ ofBattery (s.shows .battery) = s.shows .battery := by
  rw [AdcSystem.shows]
  split_ifs
  · exact ⟨rfl, rfl⟩
  · exact ⟨rfl, rfl⟩

section Traced

variable {s : AdcSystem} {h : List Event}

theorem traced_proximityStep (hs : Traced (s, h)) :
    ∃ s', s.proximityStep = .ok s' ∧ Traced (s', h ++ s.shows .proximity) := by
  obtain ⟨s', hstep, howned⟩ := owned_proximityStep hs.owned
  obtain ⟨hproximity, hbattery⟩ := shows_proximity s
  obtain ⟨complete, events, hsplit, hcomplete, hround⟩ := hs.batteryRounds
  refine ⟨s', hstep, howned, ?_, ?_⟩
  · rw [ofProximity_append, hproximity]
    exact inRounds_proximityStep hs.owned hs.rounds hstep
  · rw [ofBattery_append, hbattery, List.append_nil]
    exact ⟨complete, events, hsplit, hcomplete,
      hround.congr (alikeForBattery_of_proximityStep hstep)⟩

theorem traced_batteryStep (hs : Traced (s, h)) :
    ∃ s', s.batteryStep = .ok s' ∧ Traced (s', h ++ s.shows .battery) := by
  obtain ⟨s', hstep, howned⟩ := owned_batteryStep hs.owned
  obtain ⟨hproximity, hbattery⟩ := shows_battery s
  obtain ⟨complete, events, hsplit, hcomplete, hround⟩ := hs.rounds
  refine ⟨s', hstep, howned, ?_, ?_⟩
  · rw [ofProximity_append, hproximity, List.append_nil]
    exact ⟨complete, events, hsplit, hcomplete,
      hround.congr (alikeForProximity_of_batteryStep hstep)⟩
  · rw [ofBattery_append, hbattery]
    exact inBatteryRounds_batteryStep hs.owned hs.batteryRounds hstep

theorem traced_adc3Step (hs : Traced (s, h)) (sample : ℕ → BitVec 16) :
    ∃ s', s.adc3Step sample = .ok s' ∧ Traced (s', h ++ s.shows (.adc3 sample)) := by
  obtain ⟨s', hstep, howned⟩ := owned_adc3Step hs.owned sample
  refine ⟨s', hstep, ?_⟩
  rw [AdcSystem.shows]
  unfold AdcSystem.adc3Step at hstep
  by_cases hconverts : s.adc3 = true
  · obtain ⟨values, hrun, hsame, h3⟩ := adcCb_adcd3 sample s.values
    obtain ⟨complete, events, hsplit, hcomplete, hround⟩ := hs.rounds
    obtain ⟨complete', events', hsplit', hcomplete', hround'⟩ := hs.batteryRounds
    rw [if_pos hconverts, hrun] at hstep
    rw [if_pos hconverts]
    obtain rfl := Except.ok.inj hstep
    refine ⟨howned, ?_, ?_⟩
    · rw [ofProximity_append, hsplit, List.append_assoc]
      exact ⟨complete, _, rfl, hcomplete, round_adc3Step hs.owned hround hconverts hsame h3⟩
    · rw [ofBattery_append, hsplit']
      exact ⟨complete', events', List.append_nil _, hcomplete', hround'.congr ⟨rfl, rfl, rfl⟩⟩
  · rw [if_neg hconverts] at hstep ⊢
    obtain rfl := Except.ok.inj hstep
    rw [List.append_nil]
    exact hs

theorem traced_adc2Step (hs : Traced (s, h)) (sample : ℕ → BitVec 16) :
    ∃ s', s.adc2Step sample = .ok s' ∧ Traced (s', h ++ s.shows (.adc2 sample)) := by
  obtain ⟨s', hstep, howned⟩ := owned_adc2Step hs.owned sample
  refine ⟨s', hstep, ?_⟩
  obtain ⟨complete, events, hsplit, hcomplete, hround⟩ := hs.rounds
  obtain ⟨complete', events', hsplit', hcomplete', hround'⟩ := hs.batteryRounds
  dsimp only at hsplit hsplit' hround hround'
  rw [AdcSystem.shows]
  unfold AdcSystem.adc2Step at hstep
  cases hgroup : s.adc2 with
  | none =>
    rw [hgroup] at hstep
    obtain rfl := Except.ok.inj hstep
    dsimp only
    rw [List.append_nil]
    exact hs
  | some owner =>
    rw [hgroup] at hstep
    cases owner with
    | proximity =>
      obtain ⟨values, hrun, hsame, h2⟩ := adcCb_adcd2 sample s.values
      dsimp only at hstep
      rw [hrun] at hstep
      obtain rfl := Except.ok.inj hstep
      refine ⟨howned, ?_, ?_⟩
      · dsimp only
        rw [ofProximity_append, hsplit, List.append_assoc]
        exact ⟨complete, _, rfl, hcomplete, round_adc2Step hs.owned hround hgroup hsame h2⟩
      · dsimp only
        rw [ofBattery_append, hsplit']
        exact ⟨complete', events', List.append_nil _, hcomplete', hround'.congr ⟨rfl, rfl, rfl⟩⟩
    | battery =>
      obtain rfl := Except.ok.inj hstep
      have hstarted := hs.owned.battery_started hgroup
      refine ⟨howned, ?_, ?_⟩
      · dsimp only
        rw [ofProximity_append, hsplit]
        exact ⟨complete, events, List.append_nil _, hcomplete,
          hround.congr ⟨rfl, rfl, rfl, rfl, by rw [hgroup]; simp, rfl, rfl⟩⟩
      · dsimp only
        rw [ofBattery_append, hsplit', List.append_assoc]
        have hwait : s.batteryThd = .wait := BatteryThd.eq_wait_of_started2 hstarted
        have hnotReady := hs.owned.measurement_not_ready hgroup
        unfold AdcSystem.BatteryRound at hround'
        rw [hwait] at hround'
        obtain rfl : events' = [] := (if_neg (Bool.eq_false_iff.mp hnotReady)).mp hround'
        refine ⟨complete', _, rfl, hcomplete', ?_⟩
        unfold AdcSystem.BatteryRound
        dsimp only
        rw [hwait]
        exact (if_pos rfl).mpr ⟨_, rfl, length_buffer _ _, adcCb_battery sample⟩

/-- **Every step goes on with the rounds**, and none fails. -/
theorem traced_step (hs : Traced (s, h)) (i : Step) :
    ∃ s', s.step i = .ok s' ∧ Traced (s', h ++ s.shows i) := by
  cases i with
  | proximity => exact traced_proximityStep hs
  | battery => exact traced_batteryStep hs
  | adc3 sample => exact traced_adc3Step hs sample
  | adc2 sample => exact traced_adc2Step hs sample

end Traced

/-- A run keeps what its steps keep. -/
theorem traced_run (is : List Step) {s : AdcSystem × List Event} (hs : Traced s) :
    ∃ s', run (recorded AdcSystem.step AdcSystem.shows) s is = .ok s' ∧ Traced s' := by
  refine run_total (fun s i hs => ?_) hs is
  obtain ⟨s', hstep, htraced⟩ := traced_step hs i
  exact ⟨(s', s.2 ++ s.1.shows i), recorded_eq_ok.mpr ⟨hstep, rfl⟩, htraced⟩

theorem Takes.not_published {p : Position} {events : List Event} {result : Values 13}
    (h : Takes p events result) (msg : ProximityMsg) : .published msg ∉ events := by
  cases h with
  | threeFirst _ => simp
  | twoFirst _ => simp

theorem Converting.not_published {p : Position} {v : ProximityValues} {done3 done2 : Bool}
    {events : List Event} (h : Converting p v done3 done2 events) (msg : ProximityMsg) :
    .published msg ∉ events := by
  cases done3 with
  | false =>
    cases done2 with
    | false =>
      obtain rfl : events = [.position p] := h
      simp
    | true =>
      obtain ⟨samples2, rfl, -⟩ := h
      simp
  | true =>
    cases done2 with
    | false =>
      obtain ⟨samples3, rfl, -⟩ := h
      simp
    | true => exact Converting.takes h |>.not_published msg

/-- A round that is not complete has no message. -/
theorem AdcSystem.Round.not_published {s : AdcSystem} {events : List Event} (h : s.Round events)
    (msg : ProximityMsg) : .published msg ∉ events := by
  unfold AdcSystem.Round at h
  cases hpc : s.proximityThd with
  | publish =>
    rw [hpc] at h
    obtain ⟨x, y, rfl, hx, hy⟩ := h
    exact List.not_mem_append (hx.not_published msg) (hy.not_published msg)
  | measuring p line =>
    rw [hpc] at h
    obtain ⟨x, y, rfl, hx, hy⟩ := h
    refine List.not_mem_append ?_ ?_
    · cases p with
      | off =>
        obtain rfl : x = [] := hx
        exact List.not_mem_nil
      | on => exact Takes.not_published hx msg
    · cases line with
      | position =>
        obtain rfl : y = [] := hy
        exact List.not_mem_nil
      | release2 => exact Takes.not_published hy msg
      | release3 => exact Takes.not_published hy msg
      | _ => exact hy.2.not_published msg

/-- A round of the battery thread that is not complete has no message. -/
theorem AdcSystem.BatteryRound.not_published {s : AdcSystem} {events : List Event}
    (h : s.BatteryRound events) (voltage : ℚ) : .batteryPublished voltage ∉ events := by
  have hmeasured : s.BatteryMeasured events → .batteryPublished voltage ∉ events := by
    rintro ⟨samples, rfl, -⟩
    simp
  unfold AdcSystem.BatteryRound at h
  split at h
  · by_cases hready : s.measurementReady = true
    · exact hmeasured ((if_pos hready).mp h)
    · rw [if_neg hready] at h
      exact h ▸ List.not_mem_nil
  · exact hmeasured h
  · exact hmeasured h
  · exact h ▸ List.not_mem_nil

/-- **Every run shows rounds.** However the steps of the threads and of the converters are
ordered, no step fails, and the messages of each thread are those of complete rounds: of
conversions that it started itself, at the positions that it set, since its last message. -/
theorem shows_rounds (position : Position) (ambient reflected : Values 13) (is : List Step) :
    ∃ s h, run (recorded AdcSystem.step AdcSystem.shows)
        (AdcSystem.init position ambient reflected, []) is = .ok (s, h)
      ∧ (∃ complete events, ofProximity h = complete ++ events ∧ Rounds complete
        ∧ ∀ msg, .published msg ∉ events)
      ∧ ∃ complete events, ofBattery h = complete ++ events ∧ BatteryRounds complete
        ∧ ∀ voltage, .batteryPublished voltage ∉ events := by
  obtain ⟨⟨s, h⟩, hrun, htraced⟩ := traced_run is (traced_init position ambient reflected)
  obtain ⟨complete, events, hsplit, hcomplete, hround⟩ := htraced.rounds
  obtain ⟨complete', events', hsplit', hcomplete', hround'⟩ := htraced.batteryRounds
  exact ⟨s, h, hrun, ⟨complete, events, hsplit, hcomplete, hround.not_published⟩,
    complete', events', hsplit', hcomplete', hround'.not_published⟩

/-! ## Nobody waits in vain -/

/-- The step of a thread. -/
def Owner.step : Owner → Step
  | .proximity => .proximity
  | .battery => .battery

/-- A thread waits when its step leaves everything as it is. -/
def AdcSystem.Waits (s : AdcSystem) (who : Owner) : Prop := s.step who.step = .ok s

/-- How many steps it takes at most until the proximity thread has released `ADCD2`. -/
def AdcSystem.proximityRank (s : AdcSystem) : ℕ :=
  match s.proximityThd with
  | .measuring _ .start3 => 8
  | .measuring _ .start2 => 7
  | .measuring _ .wait3 => if s.adc3Ready then 5 else 6
  | .measuring _ .wait2 => if s.adc2Ready then 3 else 4
  | .measuring _ .copy => 2
  | .measuring _ .release2 => 1
  | _ => 0

/-- How many steps it takes at most until the battery thread has released `ADCD2`. -/
def AdcSystem.batteryRank (s : AdcSystem) : ℕ :=
  match s.batteryThd with
  | .start => 4
  | .wait => if s.measurementReady then 2 else 3
  | .release => 1
  | _ => 0

section Waiting

variable {s : AdcSystem}

theorem batteryRank_le (s : AdcSystem) : s.batteryRank ≤ 4 := by
  unfold AdcSystem.batteryRank
  split
  · omega
  · split_ifs <;> omega
  · omega
  · omega

theorem proximityRank_le (s : AdcSystem) : s.proximityRank ≤ 8 := by
  unfold AdcSystem.proximityRank
  split
  · omega
  · omega
  · split_ifs <;> omega
  · split_ifs <;> omega
  · omega
  · omega
  · omega

/-- While the battery thread owns `ADCD2`, some step brings its release nearer, and the
proximity thread does not have to move for it. -/
theorem exists_step_batteryRank (hs : Owned s) (howns : s.batteryThd.owns2 = true) :
    ∃ i s', i ≠ .proximity ∧ s.step i = .ok s' ∧ s'.proximityThd = s.proximityThd
      ∧ Owned s' ∧ s'.batteryRank < s.batteryRank := by
  obtain ⟨s₁, hstep, howned⟩ := owned_batteryStep hs
  have halike := alikeForProximity_of_batteryStep hstep
  have hnext := hstep
  unfold AdcSystem.batteryStep at hnext
  cases hpc : s.batteryThd with
  | start =>
    rw [hpc] at hnext
    dsimp only at hnext
    split_ifs at hnext
    obtain rfl := Except.ok.inj hnext
    refine ⟨.battery, _, by simp, hstep, halike.proximityThd, howned, ?_⟩
    rw [AdcSystem.batteryRank, AdcSystem.batteryRank, hpc]
    dsimp only
    split_ifs <;> omega
  | wait =>
    rw [hpc] at hnext
    by_cases hready : s.measurementReady = true
    · obtain rfl := (Except.ok.inj hnext).symm.trans (if_pos hready)
      refine ⟨.battery, _, by simp, hstep, halike.proximityThd, howned, ?_⟩
      rw [AdcSystem.batteryRank, AdcSystem.batteryRank, hpc]
      dsimp only
      rw [if_pos hready]
      omega
    · -- The converter is at work, and its callback signals the semaphore.
      have hgroup : s.adc2 = some .battery := by
        rw [hs.adc2, hs.proximity_not_started (by rw [hpc]; rfl), hpc,
          Bool.eq_false_iff.mpr hready]
        rfl
      obtain ⟨s₂, hconvert, howned₂⟩ := owned_adc2Step hs (fun _ => 0)
      refine ⟨.adc2 (fun _ => 0), s₂, by simp, hconvert, ?_⟩
      rw [AdcSystem.adc2Step, hgroup] at hconvert
      obtain rfl := Except.ok.inj hconvert
      refine ⟨rfl, howned₂, ?_⟩
      rw [AdcSystem.batteryRank, AdcSystem.batteryRank, hpc]
      dsimp only
      rw [if_pos rfl, if_neg hready]
      omega
  | release =>
    rw [hpc] at hnext
    obtain rfl := Except.ok.inj hnext
    refine ⟨.battery, _, by simp, hstep, halike.proximityThd, howned, ?_⟩
    rw [AdcSystem.batteryRank, AdcSystem.batteryRank, hpc]
    dsimp only
    omega
  | _ =>
    rw [hpc] at howns
    exact absurd howns Bool.false_ne_true

/-- While the proximity thread owns `ADCD2`, some step brings its release nearer, and the
battery thread does not have to move for it. -/
theorem exists_step_proximityRank (hs : Owned s) (howns : s.proximityThd.owns2 = true) :
    ∃ i s', i ≠ .battery ∧ s.step i = .ok s' ∧ s'.batteryThd = s.batteryThd
      ∧ Owned s' ∧ s'.proximityRank < s.proximityRank := by
  obtain ⟨s₁, hstep, howned⟩ := owned_proximityStep hs
  have halike := alikeForBattery_of_proximityStep hstep
  have hnext := hstep
  unfold AdcSystem.proximityStep at hnext
  cases hpc : s.proximityThd with
  | publish =>
    rw [hpc] at howns
    exact absurd howns Bool.false_ne_true
  | measuring p line =>
    rw [hpc] at hnext
    cases line with
    | start3 =>
      dsimp only at hnext
      split_ifs at hnext
      obtain rfl := Except.ok.inj hnext
      refine ⟨.proximity, _, by simp, hstep, halike.batteryThd, howned, ?_⟩
      rw [AdcSystem.proximityRank, AdcSystem.proximityRank, hpc]
      dsimp only
      omega
    | start2 =>
      dsimp only at hnext
      split_ifs at hnext
      obtain rfl := Except.ok.inj hnext
      refine ⟨.proximity, _, by simp, hstep, halike.batteryThd, howned, ?_⟩
      rw [AdcSystem.proximityRank, AdcSystem.proximityRank, hpc]
      dsimp only
      split_ifs <;> omega
    | wait3 =>
      by_cases hready : s.adc3Ready = true
      · obtain rfl := Except.ok.inj ((if_pos hready).symm.trans hnext)
        refine ⟨.proximity, _, by simp, hstep, halike.batteryThd, howned, ?_⟩
        rw [AdcSystem.proximityRank, AdcSystem.proximityRank, hpc]
        dsimp only
        rw [if_pos hready]
        split_ifs <;> omega
      · have hconverts : s.adc3 = true := by
          rw [hs.adc3, hpc, Bool.eq_false_iff.mpr hready]
          rfl
        obtain ⟨s₂, hconvert, howned₂⟩ := owned_adc3Step hs (fun _ => 0)
        refine ⟨.adc3 (fun _ => 0), s₂, by simp, hconvert, ?_⟩
        obtain ⟨values, hrun, -⟩ := adcCb_adcd3 (fun _ => 0) s.values
        rw [AdcSystem.adc3Step, if_pos hconverts, hrun] at hconvert
        obtain rfl := Except.ok.inj hconvert
        refine ⟨rfl, howned₂, ?_⟩
        rw [AdcSystem.proximityRank, AdcSystem.proximityRank, hpc]
        dsimp only
        rw [if_pos rfl, if_neg hready]
        omega
    | wait2 =>
      by_cases hready : s.adc2Ready = true
      · obtain rfl := Except.ok.inj ((if_pos hready).symm.trans hnext)
        refine ⟨.proximity, _, by simp, hstep, halike.batteryThd, howned, ?_⟩
        rw [AdcSystem.proximityRank, AdcSystem.proximityRank, hpc]
        dsimp only
        rw [if_pos hready]
        omega
      · have hgroup : s.adc2 = some .proximity := by
          rw [hs.adc2, hpc, Bool.eq_false_iff.mpr hready]
          rfl
        obtain ⟨s₂, hconvert, howned₂⟩ := owned_adc2Step hs (fun _ => 0)
        refine ⟨.adc2 (fun _ => 0), s₂, by simp, hconvert, ?_⟩
        obtain ⟨values, hrun, -⟩ := adcCb_adcd2 (fun _ => 0) s.values
        rw [AdcSystem.adc2Step, hgroup] at hconvert
        dsimp only at hconvert
        rw [hrun] at hconvert
        obtain rfl := Except.ok.inj hconvert
        refine ⟨rfl, howned₂, ?_⟩
        rw [AdcSystem.proximityRank, AdcSystem.proximityRank, hpc]
        dsimp only
        rw [if_pos rfl, if_neg hready]
        omega
    | copy =>
      obtain rfl := Except.ok.inj hnext
      refine ⟨.proximity, _, by simp, hstep, halike.batteryThd, howned, ?_⟩
      rw [AdcSystem.proximityRank, AdcSystem.proximityRank, hpc]
      dsimp only
      omega
    | release2 =>
      obtain rfl := Except.ok.inj hnext
      refine ⟨.proximity, _, by simp, hstep, halike.batteryThd, howned, ?_⟩
      rw [AdcSystem.proximityRank, AdcSystem.proximityRank, hpc]
      dsimp only
      omega
    | _ =>
      rw [hpc] at howns
      exact absurd howns Bool.false_ne_true

/-- What the proximity thread can wait for. -/
def AdcSystem.proximityBlocked (s : AdcSystem) : Bool :=
  match s.proximityThd with
  | .measuring _ .acquire3 => s.bus3 ≠ none
  | .measuring _ .acquire2 => s.bus2 ≠ none
  | .measuring _ .wait3 => !s.adc3Ready
  | .measuring _ .wait2 => !s.adc2Ready
  | _ => false

/-- What the battery thread can wait for. -/
def AdcSystem.batteryBlocked (s : AdcSystem) : Bool :=
  match s.batteryThd with
  | .acquire => s.bus2 ≠ none
  | .wait => !s.measurementReady
  | _ => false

theorem batteryBlocked_of_waits (h : s.Waits .battery) : s.batteryBlocked = true := by
  have hsame : s.batteryStep = .ok s := h
  by_contra hblocked
  unfold AdcSystem.batteryBlocked at hblocked
  unfold AdcSystem.batteryStep at hsame
  have hmoves : ∀ {t : AdcSystem}, (.ok t : Except Fault AdcSystem) = .ok s →
      t.batteryThd = s.batteryThd := fun h => congrArg _ (Except.ok.inj h)
  cases hpc : s.batteryThd with
  | acquire =>
    rw [hpc] at hblocked hsame hmoves
    have hfree : s.bus2 = none := by simpa using hblocked
    exact nomatch hmoves ((congrArg _ (if_pos hfree).symm).trans hsame)
  | start =>
    rw [hpc] at hsame hmoves
    dsimp only at hsame
    split_ifs at hsame
    exact nomatch hmoves hsame
  | wait =>
    rw [hpc] at hblocked hsame hmoves
    have hready : s.measurementReady = true := by simpa using hblocked
    exact nomatch hmoves ((congrArg _ (if_pos hready).symm).trans hsame)
  | _ =>
    rw [hpc] at hsame hmoves
    exact nomatch hmoves hsame

theorem proximityBlocked_of_waits (h : s.Waits .proximity) : s.proximityBlocked = true := by
  have hsame : s.proximityStep = .ok s := h
  by_contra hblocked
  unfold AdcSystem.proximityBlocked at hblocked
  unfold AdcSystem.proximityStep at hsame
  have hmoves : ∀ {t : AdcSystem}, (.ok t : Except Fault AdcSystem) = .ok s →
      t.proximityThd = s.proximityThd := fun h => congrArg _ (Except.ok.inj h)
  cases hpc : s.proximityThd with
  | publish =>
    rw [hpc] at hsame hmoves
    exact nomatch hmoves hsame
  | measuring p line =>
    rw [hpc] at hblocked hsame hmoves
    cases line with
    | acquire3 =>
      have hfree : s.bus3 = none := by simpa using hblocked
      exact nomatch hmoves ((if_pos hfree).symm.trans hsame)
    | acquire2 =>
      have hfree : s.bus2 = none := by simpa using hblocked
      exact nomatch hmoves ((if_pos hfree).symm.trans hsame)
    | wait3 =>
      have hready : s.adc3Ready = true := by simpa using hblocked
      exact nomatch hmoves ((if_pos hready).symm.trans hsame)
    | wait2 =>
      have hready : s.adc2Ready = true := by simpa using hblocked
      exact nomatch hmoves ((if_pos hready).symm.trans hsame)
    | start3 =>
      dsimp only at hsame
      split_ifs at hsame
      exact nomatch hmoves hsame
    | start2 =>
      dsimp only at hsame
      split_ifs at hsame
      exact nomatch hmoves hsame
    | release3 => cases p <;> exact nomatch hmoves hsame
    | _ => exact nomatch hmoves hsame

/-- The bus that the battery thread waits for belongs to the proximity thread. -/
theorem Owned.proximity_owns2 (hs : Owned s) (hfree : s.batteryThd.owns2 = false)
    (hbus : s.bus2 ≠ none) : s.proximityThd.owns2 = true := by
  by_contra howns
  exact hbus (by rw [hs.bus2, hfree, if_neg howns]; rfl)

/-- The bus that the proximity thread waits for belongs to the battery thread. -/
theorem Owned.battery_owns2 (hs : Owned s) (hfree : s.proximityThd.owns2 = false)
    (hbus : s.bus2 ≠ none) : s.batteryThd.owns2 = true := by
  by_contra howns
  exact hbus (by rw [hs.bus2, hfree, if_neg howns]; rfl)

/-- The others let the battery thread go on. -/
theorem battery_goes_on (hs : Owned s) :
    ∃ is s', run AdcSystem.step s is = .ok s' ∧ s'.batteryBlocked = false ∧ is.length ≤ 8
      ∧ ∀ i ∈ is, i ≠ .battery := by
  cases hblocked : s.batteryBlocked with
  | false => exact ⟨[], s, rfl, hblocked, Nat.zero_le _, fun i hi => nomatch hi⟩
  | true =>
    have hwaits := hblocked
    unfold AdcSystem.batteryBlocked at hwaits
    cases hpc : s.batteryThd with
    | acquire =>
      -- The proximity thread has the bus, and releases it.
      obtain ⟨is, s', hrun, -, hgoal, hlength, hothers⟩ := exists_run_of_rank
        (P := fun t => Owned t ∧ t.batteryThd = .acquire)
        (Q := fun t : AdcSystem => t.batteryBlocked = false) AdcSystem.proximityRank
        (fun t ⟨ht, hline⟩ hnot => by
          have hbus : t.bus2 ≠ none := by
            unfold AdcSystem.batteryBlocked at hnot
            rw [hline] at hnot
            simpa using hnot
          have howns := ht.proximity_owns2 (by rw [hline]; rfl) hbus
          obtain ⟨i, t', hi, hstep, hsame, ht', hlt⟩ := exists_step_proximityRank ht howns
          exact ⟨i, t', hi, hstep, ⟨ht', hsame.trans hline⟩, hlt⟩)
        (s := s) ⟨hs, hpc⟩
      exact ⟨is, s', hrun, hgoal, hlength.trans (proximityRank_le s), hothers⟩
    | wait =>
      rw [hpc] at hwaits
      have hready : s.measurementReady = false := by simpa using hwaits
      have hgroup : s.adc2 = some .battery := by
        rw [hs.adc2, hs.proximity_not_started (by rw [hpc]; rfl), hpc, hready]
        rfl
      refine ⟨[.adc2 (fun _ => 0)], _, run_cons_of_step (by
        show s.adc2Step _ = _
        unfold AdcSystem.adc2Step
        rw [hgroup]) [], ?_, by decide, by simp⟩
      unfold AdcSystem.batteryBlocked
      rw [hpc]
      rfl
    | _ =>
      rw [hpc] at hwaits
      exact nomatch hwaits

/-- The others let the proximity thread go on. -/
theorem proximity_goes_on (hs : Owned s) :
    ∃ is s', run AdcSystem.step s is = .ok s' ∧ s'.proximityBlocked = false ∧ is.length ≤ 4
      ∧ ∀ i ∈ is, i ≠ .proximity := by
  cases hblocked : s.proximityBlocked with
  | false => exact ⟨[], s, rfl, hblocked, Nat.zero_le _, fun i hi => nomatch hi⟩
  | true =>
    have hwaits := hblocked
    unfold AdcSystem.proximityBlocked at hwaits
    cases hpc : s.proximityThd with
    | publish =>
      rw [hpc] at hwaits
      exact nomatch hwaits
    | measuring p line =>
      rw [hpc] at hwaits
      cases line with
      | acquire3 =>
        -- Nobody else takes the bus of `ADCD3`.
        have hbus : s.bus3 = none := by
          rw [hs.bus3, hpc]
          rfl
        rw [hbus] at hwaits
        exact nomatch hwaits
      | acquire2 =>
        obtain ⟨is, s', hrun, -, hgoal, hlength, hothers⟩ := exists_run_of_rank
          (P := fun t => Owned t ∧ t.proximityThd = .measuring p .acquire2)
          (Q := fun t : AdcSystem => t.proximityBlocked = false) AdcSystem.batteryRank
          (fun t ⟨ht, hline⟩ hnot => by
            have hbus : t.bus2 ≠ none := by
              unfold AdcSystem.proximityBlocked at hnot
              rw [hline] at hnot
              simpa using hnot
            have howns := ht.battery_owns2 (by rw [hline]; rfl) hbus
            obtain ⟨i, t', hi, hstep, hsame, ht', hlt⟩ := exists_step_batteryRank ht howns
            exact ⟨i, t', hi, hstep, ⟨ht', hsame.trans hline⟩, hlt⟩)
          (s := s) ⟨hs, hpc⟩
        exact ⟨is, s', hrun, hgoal, hlength.trans (batteryRank_le s), hothers⟩
      | wait3 =>
        have hready : s.adc3Ready = false := by simpa using hwaits
        have hconverts : s.adc3 = true := by
          rw [hs.adc3, hpc, hready]
          rfl
        obtain ⟨values, hrun, -⟩ := adcCb_adcd3 (fun _ => 0) s.values
        refine ⟨[.adc3 (fun _ => 0)], _, run_cons_of_step (by
          show s.adc3Step _ = _
          unfold AdcSystem.adc3Step
          rw [if_pos hconverts, hrun]
          rfl) [], ?_, by decide, by simp⟩
        unfold AdcSystem.proximityBlocked
        rw [hpc]
        rfl
      | wait2 =>
        have hready : s.adc2Ready = false := by simpa using hwaits
        have hgroup : s.adc2 = some .proximity := by
          rw [hs.adc2, hpc, hready]
          rfl
        obtain ⟨values, hrun, -⟩ := adcCb_adcd2 (fun _ => 0) s.values
        refine ⟨[.adc2 (fun _ => 0)], _, run_cons_of_step (by
          show s.adc2Step _ = _
          unfold AdcSystem.adc2Step
          rw [hgroup]
          dsimp only
          rw [hrun]
          rfl) [], ?_, by decide, by simp⟩
        unfold AdcSystem.proximityBlocked
        rw [hpc]
        rfl
      | _ => exact nomatch hwaits

end Waiting

/-- **Nobody waits in vain.** In every state that is reached, a thread that waits goes on after
at most eight steps of the others, whatever it waits for: a bus, or the end of a conversion. -/
theorem waiting_ends (position : Position) (ambient reflected : Values 13) (is : List Step) :
    ∃ s, run AdcSystem.step (AdcSystem.init position ambient reflected) is = .ok s
      ∧ ∀ who : Owner, ∃ js s', run AdcSystem.step s js = .ok s' ∧ ¬ s'.Waits who
        ∧ js.length ≤ 8 ∧ ∀ j ∈ js, j ≠ who.step := by
  obtain ⟨s, hrun, hs⟩ := run_total (fun s i hs => owned_step hs i)
    (owned_init position ambient reflected) is
  refine ⟨s, hrun, fun who => ?_⟩
  cases who with
  | proximity =>
    obtain ⟨js, s', hrun, hgoal, hlength, hothers⟩ := proximity_goes_on hs
    exact ⟨js, s', hrun, (fun h => nomatch hgoal.symm.trans (proximityBlocked_of_waits h)),
      hlength.trans (by decide), hothers⟩
  | battery =>
    obtain ⟨js, s', hrun, hgoal, hlength, hothers⟩ := battery_goes_on hs
    exact ⟨js, s', hrun, (fun h => nomatch hgoal.symm.trans (batteryBlocked_of_waits h)), hlength,
      hothers⟩

end AdcSharing
