import EpuckFirmware.AsebaSetpoints

/-!
# The set-point that a script assigned last

A set-point is published if a variable of its kind is not what it was after the variables
were read. An assignment of the values that the variables have already is not noticed: it
leaves the last message in force, which has them only if it is of the same kind. Reading
gives the variables for the currents the values of the last message, of whatever kind it
is, and fails where these do not fit.
-/

namespace Aseba

open MessageBus MotorControl

/-! ## Cycles of a script -/

/-- **A cycle** in which the script assigns the set-points of one kind, and what the buffer
holds into which the message is read. -/
structure ScriptCycle where
  buffer : WheelsSetpoint
  kind : MotorControllerMode
  left : Int16
  right : Int16

def ScriptCycle.value (c : ScriptCycle) : Wheel → Int16
  | .left => c.left
  | .right => c.right

/-- The message with the values that are assigned. -/
def ScriptCycle.message (c : ScriptCycle) : WheelsSetpoint :=
  ⟨c.kind, setpointOfVariable c.kind c.left, setpointOfVariable c.kind c.right⟩

/-- The variables after the script ran. -/
def SetpointVariables.assign (v : SetpointVariables) (c : ScriptCycle) : SetpointVariables :=
  match c.kind with
  | .current => { v with leftCurrent := c.left, rightCurrent := c.right }
  | .velocity => { v with leftVelocity := c.left, rightVelocity := c.right }
  | .position => { v with leftPosition := c.left, rightPosition := c.right }

theorem get_assign (v : SetpointVariables) (c : ScriptCycle) (mode : MotorControllerMode)
    (wheel : Wheel) :
    (v.assign c).get mode wheel = if mode = c.kind then c.value wheel else v.get mode wheel := by
  unfold SetpointVariables.assign
  cases hkind : c.kind <;> cases mode <;> cases wheel <;> rfl

/-- The steps of `aseba_vm_thd` after it read the variables. -/
def SetpointNode.afterRead (s : SetpointNode) (c : ScriptCycle) :
    Except SetpointFault SetpointNode :=
  (s.vmStep c.buffer (s.vmVariables.assign c)).bind fun s =>
    (s.vmStep c.buffer s.vmVariables).bind fun s =>
      (s.vmStep c.buffer s.vmVariables).bind fun s => s.vmStep c.buffer s.vmVariables

/-- The steps of `aseba_vm_thd` in a cycle. -/
def SetpointNode.cycle (s : SetpointNode) (c : ScriptCycle) : Except SetpointFault SetpointNode :=
  (s.vmStep c.buffer s.vmVariables).bind fun s => s.afterRead c

/-- **The set-point in force is the one assigned last**, after each of the cycles. -/
def InForce : SetpointNode → List ScriptCycle → Prop
  | _, [] => True
  | s, c :: cs => ∃ s', s.cycle c = .ok s' ∧ s'.topic.message = some c.message ∧ InForce s' cs

/-! ## When an assignment is noticed -/

/-- The number that the conversion of a `float` gives. -/
def truncate (x : ℚ) : ℤ := if 0 ≤ x then ⌊x⌋ else ⌈x⌉

/-- The values of a message fit in the variables for the currents. -/
def WheelsSetpoint.Fits (m : WheelsSetpoint) : Prop :=
  ∀ wheel, -2 ^ 15 ≤ truncate (m.value wheel * 1000) ∧ truncate (m.value wheel * 1000) < 2 ^ 15

/-- The values that are assigned are those that the variables have: for currents, those of
the message that is read. -/
def ScriptCycle.Repeats (c : ScriptCycle) (v : SetpointVariables) (m : WheelsSetpoint) : Prop :=
  ∀ wheel, if c.kind = .current then truncate (m.value wheel * 1000) = (c.value wheel).toInt
    else v.get c.kind wheel = c.value wheel

/-- **Cycles whose assignments take effect**, from variables and the cycle before them:
what is read fits, and a cycle that assigns what the variables have follows one of its own
kind. -/
def TakesEffect : SetpointVariables → Option ScriptCycle → List ScriptCycle → Prop
  | _, _, [] => True
  | v, before, c :: cs =>
    ((before.map ScriptCycle.message).getD c.buffer).Fits
      ∧ (c.Repeats v ((before.map ScriptCycle.message).getD c.buffer) →
        ∃ b, before = some b ∧ b.kind = c.kind)
      ∧ TakesEffect (v.assign c) (some c) cs

/-- A conversion succeeds if the number fits. -/
theorem sint16OfFloat_eq (x : ℚ) :
    sint16OfFloat x = if -2 ^ 15 ≤ truncate x ∧ truncate x < 2 ^ 15
      then .ok (Int16.ofInt (truncate x)) else .error .outOfRange := rfl

theorem toInt_truncate {x : ℚ} (h : -2 ^ 15 ≤ truncate x ∧ truncate x < 2 ^ 15) :
    (Int16.ofInt (truncate x)).toInt = truncate x :=
  Int16.toInt_ofInt_of_le h.1 h.2

theorem truncate_milliamps (x : Int16) :
    truncate (setpointOfVariable .current x * 1000) = x.toInt := by
  have hvalue : setpointOfVariable .current x * 1000 = (x.toInt : ℚ) :=
    div_mul_cancel₀ _ (by norm_num)
  rw [hvalue, truncate, Int.floor_intCast, Int.ceil_intCast, ite_self]

/-- Angles and angular velocities are read as if the radians were amperes. -/
theorem truncate_degrees_fits_iff (x : Int16) :
    (-2 ^ 15 ≤ truncate (3.14 / 180 * x.toInt * 1000)
        ∧ truncate (3.14 / 180 * x.toInt * 1000) < 2 ^ 15)
      ↔ -1878 ≤ x.toInt ∧ x.toInt ≤ 1878 := by
  have hvalue : (3.14 / 180 * x.toInt * 1000 : ℚ) = (157 * x.toInt : ℤ) / 9 := by
    push_cast
    ring
  rw [hvalue, truncate]
  split_ifs with hsign
  · have hx : 0 ≤ 157 * x.toInt := by
      by_contra hneg
      have hneg : ((157 * x.toInt : ℤ) : ℚ) < 0 := by exact_mod_cast not_le.mp hneg
      linarith
    have hfloor : (0 : ℤ) ≤ ⌊((157 * x.toInt : ℤ) : ℚ) / 9⌋ := Int.floor_nonneg.mpr hsign
    have hupper : ⌊((157 * x.toInt : ℤ) : ℚ) / 9⌋ < 2 ^ 15 ↔ 157 * x.toInt < 2 ^ 15 * 9 := by
      rw [Int.floor_lt, div_lt_iff₀ (by norm_num)]
      exact_mod_cast Iff.rfl
    rw [hupper]
    omega
  · have hx : 157 * x.toInt < 0 := by
      by_contra hnonneg
      have hnonneg : (0 : ℚ) ≤ (157 * x.toInt : ℤ) := by exact_mod_cast not_lt.mp hnonneg
      exact hsign (by positivity)
    have hceil : ⌈((157 * x.toInt : ℤ) : ℚ) / 9⌉ ≤ 0 := Int.ceil_le.mpr (by push_cast; linarith)
    have hlower : -2 ^ 15 ≤ ⌈((157 * x.toInt : ℤ) : ℚ) / 9⌉
        ↔ (-2 ^ 15 - 1) * 9 < 157 * x.toInt := by
      rw [← Int.sub_one_lt_iff, Int.lt_ceil, lt_div_iff₀ (by norm_num)]
      exact_mod_cast Iff.rfl
    rw [hlower]
    omega

/-- **What fits**: currents, and angles and angular velocities up to 1878. -/
theorem fits_message_iff (c : ScriptCycle) :
    c.message.Fits ↔ c.kind = .current
      ∨ ∀ wheel, -1878 ≤ (c.value wheel).toInt ∧ (c.value wheel).toInt ≤ 1878 := by
  have hvalue : ∀ wheel, c.message.value wheel = setpointOfVariable c.kind (c.value wheel) := by
    intro wheel
    cases wheel <;> rfl
  unfold WheelsSetpoint.Fits
  cases hkind : c.kind with
  | current =>
    refine iff_of_true (fun wheel => ?_) (Or.inl rfl)
    rw [hvalue, hkind, truncate_milliamps]
    exact ⟨Int16.le_toInt _, Int16.toInt_lt _⟩
  | velocity =>
    rw [or_iff_right (by decide)]
    refine forall_congr' fun wheel => ?_
    rw [hvalue, hkind]
    exact truncate_degrees_fits_iff _
  | position =>
    rw [or_iff_right (by decide)]
    refine forall_congr' fun wheel => ?_
    rw [hvalue, hkind]
    exact truncate_degrees_fits_iff _

/-! ## The steps of a cycle -/

/-- **Reading fails** if the values of the message do not fit. -/
theorem fits_of_readVariables {s s' : SetpointNode} {buffer : WheelsSetpoint}
    (hadvertised : s.topic.advertised = true) (h : s.readVariables buffer = .ok s') :
    (s.topic.read buffer).Fits := by
  unfold SetpointNode.readVariables at h
  rw [if_pos hadvertised] at h
  dsimp only at h
  rw [sint16OfFloat_eq, sint16OfFloat_eq] at h
  split_ifs at h with hleft hright
  · intro wheel
    cases wheel with
    | left => exact hleft
    | right => exact hright
  all_goals cases h

/-- **Reading the variables**: the ones for the currents get the values of the message. -/
theorem readVariables_of_fits {s : SetpointNode} {buffer : WheelsSetpoint}
    (hadvertised : s.topic.advertised = true) (hfits : (s.topic.read buffer).Fits) :
    ∃ w : SetpointVariables,
      s.readVariables buffer = .ok { s with vmVariables := w, previousVars := w }
        ∧ (∀ wheel, (w.get .current wheel).toInt
          = truncate ((s.topic.read buffer).value wheel * 1000))
        ∧ ∀ mode wheel, mode ≠ .current → w.get mode wheel = s.vmVariables.get mode wheel := by
  have hleft : -2 ^ 15 ≤ truncate ((s.topic.read buffer).left * 1000)
    ∧ truncate ((s.topic.read buffer).left * 1000) < 2 ^ 15 := hfits .left
  have hright : -2 ^ 15 ≤ truncate ((s.topic.read buffer).right * 1000)
    ∧ truncate ((s.topic.read buffer).right * 1000) < 2 ^ 15 := hfits .right
  refine ⟨{ s.vmVariables with
    leftCurrent := Int16.ofInt (truncate ((s.topic.read buffer).left * 1000))
    rightCurrent := Int16.ofInt (truncate ((s.topic.read buffer).right * 1000)) },
    ?_, fun wheel => ?_, fun mode wheel hmode => ?_⟩
  · unfold SetpointNode.readVariables
    rw [if_pos hadvertised]
    dsimp only
    rw [sint16OfFloat_eq, sint16OfFloat_eq, if_pos hleft, if_pos hright]
    rfl
  · cases wheel with
    | left => exact toInt_truncate hleft
    | right => exact toInt_truncate hright
  · cases mode with
    | current => exact absurd rfl hmode
    | velocity => cases wheel <;> rfl
    | position => cases wheel <;> rfl

section Write

variable {s : SetpointNode} {c : ScriptCycle} {w : SetpointVariables}
  (hassigned : s.vmVariables = w.assign c) (hprevious : s.previousVars = w)

include hassigned hprevious

theorem changed_assign (mode : MotorControllerMode) (wheel : Wheel) :
    s.changed mode wheel = true ↔ mode = c.kind ∧ c.value wheel ≠ w.get mode wheel := by
  unfold SetpointNode.changed
  rw [decide_eq_true_iff, hassigned, hprevious, get_assign]
  split_ifs with hmode
  · rw [and_iff_right hmode]
  · exact iff_of_false (fun h => h rfl) (fun h => hmode h.1)

/-- Nothing is published if no variable of the kind changed. -/
theorem writeSetpoint_unchanged {mode : MotorControllerMode}
    (h : mode = c.kind → ∀ wheel, w.get mode wheel = c.value wheel) :
    s.writeSetpoint mode = .ok s := by
  unfold SetpointNode.writeSetpoint
  rw [if_neg]
  rw [Bool.or_eq_true, changed_assign hassigned hprevious, changed_assign hassigned hprevious]
  rintro (⟨hmode, hne⟩ | ⟨hmode, hne⟩)
  · exact hne (h hmode .right).symm
  · exact hne (h hmode .left).symm

/-- The message is published if a variable of the kind changed. -/
theorem writeSetpoint_changed (hadvertised : s.topic.advertised = true)
    (h : ¬ ∀ wheel, w.get c.kind wheel = c.value wheel) :
    s.writeSetpoint c.kind = .ok { s with topic := s.topic.publish c.message } := by
  have hchanged : (s.changed c.kind .right || s.changed c.kind .left) = true := by
    rw [Bool.or_eq_true, changed_assign hassigned hprevious, changed_assign hassigned hprevious]
    by_contra hsame
    push Not at hsame
    refine h fun wheel => ?_
    cases wheel with
    | left => exact (hsame.2 rfl).symm
    | right => exact (hsame.1 rfl).symm
  have hmessage : s.setpoint c.kind = c.message := by
    unfold SetpointNode.setpoint ScriptCycle.message
    rw [hassigned, get_assign, get_assign, if_pos rfl, if_pos rfl]
    rfl
  unfold SetpointNode.writeSetpoint
  rw [if_pos hchanged, if_pos hadvertised, hmessage]

end Write

/-- **Only the set-points of the kind that is assigned are published.** -/
theorem afterRead_eq {t : Topic WheelsSetpoint} {w : SetpointVariables} {c : ScriptCycle}
    {t' : Topic WheelsSetpoint}
    (hwrite : ∀ phase, SetpointNode.writeSetpoint ⟨t, w.assign c, w, phase⟩ c.kind
      = .ok ⟨t', w.assign c, w, phase⟩) :
    SetpointNode.afterRead ⟨t, w, w, .vm⟩ c = .ok ⟨t', w.assign c, w, .read⟩ := by
  have hother : ∀ (t : Topic WheelsSetpoint) (phase : CyclePhase) (mode : MotorControllerMode),
      mode ≠ c.kind → SetpointNode.writeSetpoint ⟨t, w.assign c, w, phase⟩ mode
        = .ok ⟨t, w.assign c, w, phase⟩ := by
    intro t phase mode hmode
    exact writeSetpoint_unchanged rfl rfl (fun heq => absurd heq hmode)
  have hstep : ∀ (t t' : Topic WheelsSetpoint) (mode : MotorControllerMode),
      SetpointNode.writeSetpoint ⟨t, w.assign c, w, .write mode⟩ mode
        = .ok ⟨t', w.assign c, w, .write mode⟩ →
      SetpointNode.vmStep ⟨t, w.assign c, w, .write mode⟩ c.buffer (w.assign c)
        = .ok ⟨t', w.assign c, w, afterWrite mode⟩ := by
    intro t t' mode h
    show Except.map _ (SetpointNode.writeSetpoint _ mode) = _
    rw [h]
    rfl
  show (SetpointNode.vmStep ⟨t, w.assign c, w, .write .current⟩ c.buffer (w.assign c)).bind _ = _
  cases hkind : c.kind with
  | current =>
    rw [hstep t t' .current (by rw [← hkind]; exact hwrite _)]
    show (SetpointNode.vmStep ⟨t', w.assign c, w, .write .velocity⟩ c.buffer (w.assign c)).bind _
      = _
    rw [hstep t' t' .velocity (hother _ _ _ (by rw [hkind]; decide))]
    exact hstep t' t' .position (hother _ _ _ (by rw [hkind]; decide))
  | velocity =>
    rw [hstep t t .current (hother _ _ _ (by rw [hkind]; decide))]
    show (SetpointNode.vmStep ⟨t, w.assign c, w, .write .velocity⟩ c.buffer (w.assign c)).bind _
      = _
    rw [hstep t t' .velocity (by rw [← hkind]; exact hwrite _)]
    exact hstep t' t' .position (hother _ _ _ (by rw [hkind]; decide))
  | position =>
    rw [hstep t t .current (hother _ _ _ (by rw [hkind]; decide))]
    show (SetpointNode.vmStep ⟨t, w.assign c, w, .write .velocity⟩ c.buffer (w.assign c)).bind _
      = _
    rw [hstep t t .velocity (hother _ _ _ (by rw [hkind]; decide))]
    exact hstep t t' .position (by rw [← hkind]; exact hwrite _)

/-! ## The invariant -/

/-- **What a cycle finds**, given the variables without the currents and the cycle before. -/
structure Follows (s : SetpointNode) (v : SetpointVariables) (before : Option ScriptCycle) :
    Prop where
  advertised : s.topic.advertised = true
  message : s.topic.message = before.map ScriptCycle.message
  phase : s.phase = .read
  kept : ∀ mode wheel, mode ≠ .current → s.vmVariables.get mode wheel = v.get mode wheel
  assigned : ∀ b, before = some b → ∀ wheel, v.get b.kind wheel = b.value wheel

section Cycle

variable {s : SetpointNode} {v : SetpointVariables} {before : Option ScriptCycle}
  {c : ScriptCycle}

theorem Follows.read (hs : Follows s v before) (buffer : WheelsSetpoint) :
    s.topic.read buffer = (before.map ScriptCycle.message).getD buffer := by
  rw [Topic.read, hs.message]

theorem vmStep_read (hs : Follows s v before) (buffer : WheelsSetpoint)
    (vars : SetpointVariables) :
    s.vmStep buffer vars = (s.readVariables buffer).map (fun s => { s with phase := .vm }) := by
  unfold SetpointNode.vmStep
  rw [hs.phase]

/-- **What is read fits** if the cycle does not fail. -/
theorem fits_of_cycle (hs : Follows s v before) {s' : SetpointNode} (h : s.cycle c = .ok s') :
    ((before.map ScriptCycle.message).getD c.buffer).Fits := by
  unfold SetpointNode.cycle at h
  rw [vmStep_read hs] at h
  rw [← hs.read]
  cases hread : s.readVariables c.buffer with
  | error fault =>
    rw [hread] at h
    cases h
  | ok t => exact fits_of_readVariables hs.advertised hread

/-- **A cycle** publishes its message unless it assigns what the variables have. -/
theorem cycle_eq (hs : Follows s v before)
    (hfits : ((before.map ScriptCycle.message).getD c.buffer).Fits) :
    ∃ w : SetpointVariables,
      (∀ mode wheel, mode ≠ .current → w.get mode wheel = v.get mode wheel)
        ∧ (c.Repeats v ((before.map ScriptCycle.message).getD c.buffer) →
          s.cycle c = .ok ⟨s.topic, w.assign c, w, .read⟩)
        ∧ (¬ c.Repeats v ((before.map ScriptCycle.message).getD c.buffer) →
          s.cycle c = .ok ⟨s.topic.publish c.message, w.assign c, w, .read⟩) := by
  rw [← hs.read] at hfits ⊢
  obtain ⟨w, hread, hcurrent, hvariables⟩ := readVariables_of_fits hs.advertised hfits
  have hrepeats : c.Repeats v (s.topic.read c.buffer)
      ↔ ∀ wheel, w.get c.kind wheel = c.value wheel := by
    refine forall_congr' fun wheel => ?_
    split_ifs with hkind
    · rw [hkind, ← hcurrent, Int16.toInt_inj]
    · rw [hvariables _ _ hkind, hs.kept _ _ hkind]
  have hcycle : s.cycle c = SetpointNode.afterRead ⟨s.topic, w, w, .vm⟩ c := by
    unfold SetpointNode.cycle
    rw [vmStep_read hs, hread]
    rfl
  refine ⟨w, fun mode wheel hmode => ?_, fun hsame => ?_, fun hchanges => ?_⟩
  · rw [hvariables _ _ hmode, hs.kept _ _ hmode]
  · rw [hcycle]
    exact afterRead_eq fun _ => writeSetpoint_unchanged rfl rfl fun _ => hrepeats.mp hsame
  · rw [hcycle]
    exact afterRead_eq fun _ =>
      writeSetpoint_changed rfl rfl hs.advertised (fun hsame => hchanges (hrepeats.mpr hsame))

/-- A cycle that repeats the values of one of its own kind has the same message. -/
theorem message_of_repeats {b : ScriptCycle} (hs : Follows s v (some b))
    (hkind : b.kind = c.kind) (hrepeats : c.Repeats v b.message) : b.message = c.message := by
  have hvalue : ∀ wheel, b.value wheel = c.value wheel := by
    intro wheel
    have hsame := hrepeats wheel
    split_ifs at hsame with hcurrent
    · have hmessage : b.message.value wheel = setpointOfVariable .current (b.value wheel) := by
        rw [ScriptCycle.message, hkind, hcurrent]
        cases wheel <;> rfl
      rw [hmessage, truncate_milliamps] at hsame
      exact Int16.toInt_inj.mp hsame
    · rw [← hs.assigned b rfl wheel, hkind, hsame]
  unfold ScriptCycle.message
  rw [hkind, show b.left = c.left from hvalue .left, show b.right = c.right from hvalue .right]

/-- **The next cycle finds the message** if this one left it in force. -/
theorem follows_cycle (w : SetpointVariables) {t : Topic WheelsSetpoint}
    (hvariables : ∀ mode wheel, mode ≠ .current → w.get mode wheel = v.get mode wheel)
    (hadvertised : t.advertised = true) (hmessage : t.message = some c.message) :
    Follows ⟨t, w.assign c, w, .read⟩ (v.assign c) (some c) where
  advertised := hadvertised
  message := hmessage
  phase := rfl
  kept mode wheel hmode := by
    show (w.assign c).get mode wheel = (v.assign c).get mode wheel
    rw [get_assign, get_assign, hvariables mode wheel hmode]
  assigned b hb wheel := by
    cases hb
    rw [get_assign, if_pos rfl]

/-- **One cycle.** -/
theorem cycle_in_force_iff (hs : Follows s v before) :
    (∃ s', s.cycle c = .ok s' ∧ s'.topic.message = some c.message)
      ↔ ((before.map ScriptCycle.message).getD c.buffer).Fits
        ∧ (c.Repeats v ((before.map ScriptCycle.message).getD c.buffer) →
          ∃ b, before = some b ∧ b.kind = c.kind) := by
  constructor
  · rintro ⟨s', hcycle, hmessage⟩
    have hfits := fits_of_cycle hs hcycle
    obtain ⟨w, -, hsame, -⟩ := cycle_eq hs hfits
    refine ⟨hfits, fun hrepeats => ?_⟩
    cases hcycle.symm.trans (hsame hrepeats)
    rw [hs.message] at hmessage
    obtain ⟨b, hb, heq⟩ := Option.map_eq_some_iff.mp hmessage
    exact ⟨b, hb, congrArg WheelsSetpoint.mode heq⟩
  · rintro ⟨hfits, heffect⟩
    obtain ⟨w, -, hsame, hchanges⟩ := cycle_eq hs hfits
    by_cases hrepeats : c.Repeats v ((before.map ScriptCycle.message).getD c.buffer)
    · obtain ⟨b, rfl, hkind⟩ := heffect hrepeats
      refine ⟨_, hsame hrepeats, ?_⟩
      rw [← message_of_repeats hs hkind hrepeats]
      exact hs.message
    · exact ⟨_, hchanges hrepeats, rfl⟩

end Cycle

/-- **The set-point in force is the one assigned last** exactly if the assignments take
effect, from any cycle on. -/
theorem in_force_iff (cs : List ScriptCycle) {s : SetpointNode} {v : SetpointVariables}
    {before : Option ScriptCycle} (hs : Follows s v before) :
    InForce s cs ↔ TakesEffect v before cs := by
  induction cs generalizing s v before with
  | nil => exact Iff.rfl
  | cons c cs ih =>
    have hnext : ∀ s', s.cycle c = .ok s' → s'.topic.message = some c.message →
        Follows s' (v.assign c) (some c) := by
      intro s' hcycle hmessage
      obtain ⟨w, hvariables, hsame, hchanges⟩ := cycle_eq hs (fits_of_cycle hs hcycle)
      by_cases hrepeats : c.Repeats v ((before.map ScriptCycle.message).getD c.buffer)
      · cases hcycle.symm.trans (hsame hrepeats)
        exact follows_cycle w hvariables hs.advertised hmessage
      · cases hcycle.symm.trans (hchanges hrepeats)
        exact follows_cycle w hvariables hs.advertised hmessage
    constructor
    · rintro ⟨s', hcycle, hmessage, hrest⟩
      obtain ⟨hfits, heffect⟩ := (cycle_in_force_iff hs).mp ⟨s', hcycle, hmessage⟩
      exact ⟨hfits, heffect, (ih (hnext s' hcycle hmessage)).mp hrest⟩
    · rintro ⟨hfits, heffect, hrest⟩
      obtain ⟨s', hcycle, hmessage⟩ := (cycle_in_force_iff hs).mpr ⟨hfits, heffect⟩
      exact ⟨s', hcycle, hmessage, (ih (hnext s' hcycle hmessage)).mpr hrest⟩

theorem follows_start (v previous : SetpointVariables) :
    Follows ⟨⟨true, none⟩, v, previous, .read⟩ v none :=
  ⟨rfl, rfl, rfl, fun _ _ _ => rfl, fun _ hb => nomatch hb⟩

end Aseba
