import EpuckFirmware.History
import Mathlib.Tactic

/-!
# The events of the virtual machine

Threads and a timer raise the flags of events, and the thread of the virtual machine
selects a raised flag, clears it and dispatches the event when the machine is idle.
Each of these is a critical section of its own, so that others come in between. A
`NodeStep` is one of them, and the runs over lists of steps are the interleavings.

What the virtual machine does is not part of the repository. It leaves behind flags,
which the steps that call it are given.
-/

namespace Aseba

open StepMachine History

/-- `enum AsebaLocalEvents`. -/
inductive AsebaLocalEvents
  | range
  | proximity
  | encoders
  | imu
  | timer
  | soundPlayFinished
  | soundError
  deriving DecidableEq

/-- The value of the enumerator. -/
def AsebaLocalEvents.toNat : AsebaLocalEvents → ℕ
  | range => 0
  | proximity => 1
  | encoders => 2
  | imu => 3
  | timer => 4
  | soundPlayFinished => 5
  | soundError => 6

theorem AsebaLocalEvents.toNat_lt (e : AsebaLocalEvents) : e.toNat < 32 := by
  cases e <;> decide

/-- `SET_EVENT`. -/
def setEvent (eventsFlags : BitVec 32) (event : ℕ) : BitVec 32 := eventsFlags ||| (1#32 <<< event)

/-- `CLEAR_EVENT`. -/
def clearEvent (eventsFlags : BitVec 32) (event : ℕ) : BitVec 32 :=
  eventsFlags &&& ~~~(1#32 <<< event)

/-- `ffs`: the position of the lowest bit that is set, from 1 on, and 0 if none is. -/
def ffs (x : BitVec 32) : ℕ := if x = 0#32 then 0 else x.ctz.toNat + 1

/-- Who sets events: a thread for each topic, and the callback of the timer. -/
inductive Producer
  | rangeThd
  | encodersThd
  | proximityThd
  | imuThd
  /-- The thread for the results of playing sounds, and whether one was `AUDIO_OK`. -/
  | audioThd (ok : Bool)
  | timerCb

/-- The event that is set. -/
def Producer.event : Producer → AsebaLocalEvents
  | rangeThd => .range
  | encodersThd => .encoders
  | proximityThd => .proximity
  | imuThd => .imu
  | audioThd ok => if ok then .soundPlayFinished else .soundError
  | timerCb => .timer

/-- The flags of `AsebaVMState` that `aseba_vm_thd` tests. -/
structure VmFlags where
  /-- `ASEBA_VM_EVENT_ACTIVE_MASK`. -/
  eventActive : Bool
  /-- `ASEBA_VM_STEP_BY_STEP_MASK`. -/
  stepByStep : Bool
  deriving DecidableEq

/-- Neither executing an event nor in step by step mode. -/
def VmFlags.idle : VmFlags := ⟨false, false⟩

/-- Where `aseba_vm_thd` is. -/
inductive VmThread
  /-- Before the call of `AsebaVMSetupEvent` with `ASEBA_EVENT_INIT`. -/
  | start
  /-- At the top of the loop, before the virtual machine runs. -/
  | cycle
  /-- Before the tests of the flags of the virtual machine. -/
  | tests
  /-- Before the critical section with `ffs`. -/
  | select
  /-- Before the critical section with `CLEAR_EVENT`. -/
  | clear (event : ℕ)
  /-- Before the call of `AsebaVMSetupEvent`. -/
  | setup (event : ℕ)
  deriving DecidableEq

/-- The event selected for dispatch. -/
def VmThread.selected : VmThread → Option ℕ
  | clear event => some event
  | setup event => some event
  | _ => none

/-- The flags of the events, those of the virtual machine, and its thread. -/
structure AsebaNode where
  eventsFlags : BitVec 32
  vmFlags : VmFlags
  thread : VmThread

/-- After the start of the firmware. -/
def AsebaNode.init : AsebaNode := ⟨0, .idle, .start⟩

/-- A step of somebody. -/
inductive NodeStep
  /-- A critical section with `SET_EVENT`. -/
  | set (producer : Producer)
  /-- A step of `aseba_vm_thd`. The flags are those with which the virtual machine
  returns, where the step calls it. -/
  | vm (flags : VmFlags)

/-- A step of `aseba_vm_thd`. -/
def AsebaNode.vmStep (s : AsebaNode) (flags : VmFlags) : AsebaNode :=
  match s.thread with
  | .start => { s with vmFlags := flags, thread := .cycle }
  | .cycle => { s with vmFlags := flags, thread := .tests }
  | .tests =>
    if s.vmFlags.stepByStep then { s with thread := .cycle }
    else if s.vmFlags.eventActive then { s with thread := .cycle }
    else { s with thread := .select }
  | .select =>
    let event := (ffs s.eventsFlags : ℤ) - 1
    if event ≠ -1 then { s with thread := .clear event.toNat }
    else { s with thread := .cycle }
  | .clear event => { s with eventsFlags := clearEvent s.eventsFlags event, thread := .setup event }
  | .setup _ => { s with vmFlags := flags, thread := .cycle }

/-- A step. -/
def AsebaNode.step (s : AsebaNode) : NodeStep → Except Empty AsebaNode
  | .set producer => .ok { s with eventsFlags := setEvent s.eventsFlags producer.event.toNat }
  | .vm flags => .ok (s.vmStep flags)

/-- What happens to an event. -/
inductive NodeEvent
  /-- Its flag is set. -/
  | set (event : ℕ)
  /-- It is selected for dispatch. -/
  | selected (event : ℕ)
  /-- `AsebaVMSetupEvent` is called for it, with the machine in the given state. -/
  | setup (event : ℕ) (flags : VmFlags)
  /-- `AsebaVMSetupEvent` is called with `ASEBA_EVENT_INIT`. -/
  | setupInit (flags : VmFlags)
  deriving DecidableEq

/-- What a step does to events. -/
def AsebaNode.shows (s : AsebaNode) : NodeStep → List NodeEvent
  | .set producer => [.set producer.event.toNat]
  | .vm _ =>
    match s.thread with
    | .start => [.setupInit s.vmFlags]
    | .select => if ffs s.eventsFlags = 0 then [] else [.selected (ffs s.eventsFlags - 1)]
    | .setup event => [.setup event s.vmFlags]
    | _ => []

/-- The event was set after it was selected for the last time. -/
def SetSinceSelected (event : ℕ) (h : List NodeEvent) : Prop :=
  Since (· ≠ .selected event) (fun _ x => x = .set event) h

/-- **The event was selected and not dispatched yet**, and it had been set after its
selection before. -/
def Undispatched (event : ℕ) (h : List NodeEvent) : Prop :=
  Since (fun x => x ≠ .selected event ∧ ∀ flags, x ≠ .setup event flags)
    (fun past x => x = .selected event ∧ SetSinceSelected event past) h

/-- **No event is lost**: an event that was set is pending, selected, or was dispatched
after it was set last; events are dispatched to an idle machine only, and only when
they were set after they had been selected before. -/
structure NoEventLost (s : AsebaNode × List NodeEvent) : Prop where
  pending : ∀ e : AsebaLocalEvents, NodeEvent.set e.toNat ∈ s.2 →
    s.1.eventsFlags.getLsbD e.toNat = true ∨ s.1.thread.selected = some e.toNat
      ∨ Since (· ≠ .set e.toNat) (fun _ x => ∃ flags, x = .setup e.toNat flags) s.2
  dispatched : Always (fun past x => ∀ event flags, x = .setup event flags →
    Undispatched event past ∧ flags = .idle) s.2
  started : Always (fun _ x => ∀ flags, x = .setupInit flags → flags = .idle) s.2

/-! ## The flag word -/

theorem getLsbD_setEvent (eventsFlags : BitVec 32) {event : ℕ} (h : event < 32) (i : ℕ) :
    (setEvent eventsFlags event).getLsbD i = (eventsFlags.getLsbD i || decide (event = i)) := by
  rw [setEvent, BitVec.getLsbD_or, ← BitVec.twoPow_eq, BitVec.getLsbD_twoPow]
  simp [h]

theorem getLsbD_clearEvent (eventsFlags : BitVec 32) (event i : ℕ) :
    (clearEvent eventsFlags event).getLsbD i
      = (eventsFlags.getLsbD i && !decide (event = i)) := by
  rw [clearEvent, BitVec.getLsbD_and, BitVec.getLsbD_not, ← BitVec.twoPow_eq,
    BitVec.getLsbD_twoPow]
  by_cases hi : i < 32
  · by_cases heq : event = i <;> simp [heq, hi]
  · simp [BitVec.getLsbD_of_ge eventsFlags i (by omega)]

/-- **The event that is selected is pending.** -/
theorem getLsbD_ffs {x : BitVec 32} (h : ffs x ≠ 0) : x.getLsbD (ffs x - 1) = true := by
  unfold ffs at h ⊢
  by_cases hx : x = 0#32
  · rw [if_pos hx] at h
    exact absurd rfl h
  · rw [if_neg hx, Nat.add_sub_cancel]
    exact BitVec.getLsbD_true_ctz_of_ne_zero hx

/-! ## The invariant -/

/-- **The invariant of the dispatcher.** A raised flag was set after its event was
selected before, unless it is the one about to be cleared; and from the selection of an
event on to its dispatch the machine is idle. -/
structure Dispatching (s : AsebaNode × List NodeEvent) : Prop extends NoEventLost s where
  raised : ∀ i, s.1.eventsFlags.getLsbD i = true →
    s.1.thread = .clear i ∨ SetSinceSelected i s.2
  selected : ∀ i, s.1.thread.selected = some i → Undispatched i s.2
  idle : s.1.thread = .start ∨ s.1.thread = .select ∨ s.1.thread.selected.isSome →
    s.1.vmFlags = .idle

theorem dispatching_init : Dispatching (AsebaNode.init, []) where
  pending e he := absurd he List.not_mem_nil
  dispatched := always_nil _
  started := always_nil _
  raised i hi := absurd hi (by simp [AsebaNode.init])
  selected i hi := absurd hi (by simp [AsebaNode.init, VmThread.selected])
  idle _ := rfl

theorem dispatching_set {s : AsebaNode} {h : List NodeEvent} (hs : Dispatching (s, h)) (n : ℕ)
    (hn : n < 32) :
    Dispatching ({ s with eventsFlags := setEvent s.eventsFlags n }, h ++ [.set n]) where
  pending e he := by
    rw [getLsbD_setEvent _ hn]
    by_cases hne : n = e.toNat
    · exact Or.inl (by simp [hne])
    · have hmem : NodeEvent.set e.toNat ∈ h := by simpa [Ne.symm hne] using he
      obtain hflag | hselected | hsince := hs.pending e hmem
      · exact Or.inl (by simp [hflag])
      · exact Or.inr (Or.inl hselected)
      · exact Or.inr (Or.inr (since_concat.mpr (Or.inr ⟨by simpa using hne, hsince⟩)))
  dispatched := always_concat.mpr ⟨hs.dispatched, by simp⟩
  started := always_concat.mpr ⟨hs.started, by simp⟩
  raised i hi := by
    rw [getLsbD_setEvent _ hn, Bool.or_eq_true, decide_eq_true_iff] at hi
    by_cases hne : n = i
    · exact Or.inr (since_concat.mpr (Or.inl (by rw [hne])))
    · refine (hs.raised i (hi.resolve_right hne)).imp_right (fun hsince => ?_)
      exact since_concat.mpr (Or.inr ⟨by simp, hsince⟩)
  selected i hi := since_concat.mpr (Or.inr ⟨by simp, hs.selected i hi⟩)
  idle := hs.idle

/-- A step of the thread that appends nothing and raises or clears no flag. -/
theorem dispatching_silent {s : AsebaNode} {h : List NodeEvent} (hs : Dispatching (s, h))
    {flags : VmFlags} {thread : VmThread} (hold : s.thread.selected = none)
    (hnew : thread.selected = none) (hstart : thread ≠ .start)
    (hidle : thread = .select → flags = .idle) :
    Dispatching ({ s with vmFlags := flags, thread := thread }, h) where
  pending e he := by
    have hp := hs.pending e he
    rw [show (s, h).1.thread.selected = none from hold] at hp
    exact hp.imp_right (fun h => Or.inr (h.resolve_left (by simp)))
  dispatched := hs.dispatched
  started := hs.started
  raised i hi := by
    refine Or.inr ((hs.raised i hi).resolve_left (fun hclear => ?_))
    rw [show s.thread = .clear i from hclear] at hold
    exact absurd hold (by simp [VmThread.selected])
  selected i hi := absurd hi (by simp [hnew])
  idle hi := by
    simp only [hnew, hstart, Option.isSome_none, Bool.false_eq_true, or_false, false_or] at hi
    exact hidle hi

theorem dispatching_start {s : AsebaNode} {h : List NodeEvent} (hs : Dispatching (s, h))
    (hstart : s.thread = .start) (flags : VmFlags) :
    Dispatching ({ s with vmFlags := flags, thread := .cycle }, h ++ [.setupInit s.vmFlags]) where
  pending e he := by
    have hmem : NodeEvent.set e.toNat ∈ h := by simpa using he
    obtain hflag | hselected | hsince := hs.pending e hmem
    · exact Or.inl hflag
    · rw [show (s, h).1.thread = .start from hstart] at hselected
      exact absurd hselected (by simp [VmThread.selected])
    · exact Or.inr (Or.inr (since_concat.mpr (Or.inr ⟨by simp, hsince⟩)))
  dispatched := always_concat.mpr ⟨hs.dispatched, by simp⟩
  started := by
    refine always_concat.mpr ⟨hs.started, fun flags hx => ?_⟩
    rw [← NodeEvent.setupInit.inj hx]
    exact hs.idle (Or.inl hstart)
  raised i hi := by
    refine Or.inr (since_concat.mpr (Or.inr ⟨by simp, ?_⟩))
    refine (hs.raised i hi).resolve_left (fun hclear => ?_)
    rw [show s.thread = .clear i from hclear] at hstart
    cases hstart
  selected i hi := absurd hi (by simp [VmThread.selected])
  idle hi := absurd hi (by simp [VmThread.selected])

theorem dispatching_select {s : AsebaNode} {h : List NodeEvent} (hs : Dispatching (s, h))
    (hselect : s.thread = .select) {n : ℕ} (hn : s.eventsFlags.getLsbD n = true) :
    Dispatching ({ s with thread := .clear n }, h ++ [.selected n]) where
  pending e he := by
    have hmem : NodeEvent.set e.toNat ∈ h := by simpa using he
    obtain hflag | hselected | hsince := hs.pending e hmem
    · exact Or.inl hflag
    · rw [show (s, h).1.thread = .select from hselect] at hselected
      exact absurd hselected (by simp [VmThread.selected])
    · exact Or.inr (Or.inr (since_concat.mpr (Or.inr ⟨by simp, hsince⟩)))
  dispatched := always_concat.mpr ⟨hs.dispatched, by simp⟩
  started := always_concat.mpr ⟨hs.started, by simp⟩
  raised i hi := by
    by_cases hne : n = i
    · exact Or.inl (by rw [hne])
    · refine Or.inr (since_concat.mpr (Or.inr ⟨by simpa using hne, ?_⟩))
      refine (hs.raised i hi).resolve_left (fun hclear => ?_)
      rw [show s.thread = .clear i from hclear] at hselect
      cases hselect
  selected i hi := by
    have heq : n = i := by simpa [VmThread.selected] using hi
    subst heq
    refine since_concat.mpr (Or.inl ⟨rfl, (hs.raised n hn).resolve_left (fun hclear => ?_)⟩)
    rw [show s.thread = .clear n from hclear] at hselect
    cases hselect
  idle _ := hs.idle (Or.inr (Or.inl hselect))

/-- The flag that is cleared is that of the event that is selected: it is dispatched
after everybody who set it until now. -/
theorem dispatching_clear {s : AsebaNode} {h : List NodeEvent} (hs : Dispatching (s, h))
    {n : ℕ} (hclear : s.thread = .clear n) :
    Dispatching ({ s with eventsFlags := clearEvent s.eventsFlags n, thread := .setup n }, h) where
  pending e he := by
    rw [getLsbD_clearEvent]
    by_cases hne : n = e.toNat
    · exact Or.inr (Or.inl (by rw [hne, VmThread.selected]))
    · obtain hflag | hselected | hsince := hs.pending e he
      · exact Or.inl (by rw [hflag]; simp [hne])
      · rw [show (s, h).1.thread = .clear n from hclear] at hselected
        exact absurd (Option.some.inj hselected) hne
      · exact Or.inr (Or.inr hsince)
  dispatched := hs.dispatched
  started := hs.started
  raised i hi := by
    rw [getLsbD_clearEvent, Bool.and_eq_true] at hi
    refine Or.inr ((hs.raised i hi.1).resolve_left (fun hclear' => ?_))
    rw [show s.thread = .clear i from hclear'] at hclear
    rw [VmThread.clear.inj hclear] at hi
    exact absurd hi.2 (by simp)
  selected i hi := by
    refine hs.selected i ?_
    rw [show (s, h).1.thread = .clear n from hclear]
    exact hi
  idle _ := hs.idle (Or.inr (Or.inr (by
    rw [show (s, h).1.thread = .clear n from hclear]
    rfl)))

theorem dispatching_setup {s : AsebaNode} {h : List NodeEvent} (hs : Dispatching (s, h))
    {n : ℕ} (hsetup : s.thread = .setup n) (flags : VmFlags) :
    Dispatching ({ s with vmFlags := flags, thread := .cycle }, h ++ [.setup n s.vmFlags]) where
  pending e he := by
    have hmem : NodeEvent.set e.toNat ∈ h := by simpa using he
    obtain hflag | hselected | hsince := hs.pending e hmem
    · exact Or.inl hflag
    · rw [show (s, h).1.thread = .setup n from hsetup] at hselected
      have heq : n = e.toNat := Option.some.inj hselected
      exact Or.inr (Or.inr (since_concat.mpr (Or.inl ⟨s.vmFlags, by rw [heq]⟩)))
    · exact Or.inr (Or.inr (since_concat.mpr (Or.inr ⟨by simp, hsince⟩)))
  dispatched := by
    refine always_concat.mpr ⟨hs.dispatched, fun event flags' hx => ?_⟩
    obtain ⟨rfl, rfl⟩ := NodeEvent.setup.inj hx
    have hselected : s.thread.selected = some n := by
      rw [hsetup]
      rfl
    exact ⟨hs.selected n hselected, hs.idle (Or.inr (Or.inr (by
      rw [show (s, h).1.thread.selected = some n from hselected]
      rfl)))⟩
  started := always_concat.mpr ⟨hs.started, by simp⟩
  raised i hi := by
    refine Or.inr (since_concat.mpr (Or.inr ⟨by simp, ?_⟩))
    refine (hs.raised i hi).resolve_left (fun hclear => ?_)
    rw [show s.thread = .clear i from hclear] at hsetup
    cases hsetup
  selected i hi := absurd hi (by simp [VmThread.selected])
  idle hi := absurd hi (by simp [VmThread.selected])

/-- **Every step of the thread keeps the invariant.** -/
theorem dispatching_vmStep {s : AsebaNode} {h : List NodeEvent} (hs : Dispatching (s, h))
    (flags : VmFlags) : Dispatching (s.vmStep flags, h ++ s.shows (.vm flags)) := by
  cases hthread : s.thread with
  | start =>
    simp only [AsebaNode.vmStep, AsebaNode.shows, hthread]
    exact dispatching_start hs hthread flags
  | cycle =>
    simp only [AsebaNode.vmStep, AsebaNode.shows, hthread, List.append_nil]
    exact dispatching_silent hs (by rw [hthread]; rfl) rfl (by simp) (by simp)
  | tests =>
    simp only [AsebaNode.vmStep, AsebaNode.shows, hthread, List.append_nil]
    have hold : s.thread.selected = none := by
      rw [hthread]
      rfl
    split
    · exact dispatching_silent hs hold rfl (by simp) (by simp)
    · rename_i hstep
      split
      · exact dispatching_silent hs hold rfl (by simp) (by simp)
      · rename_i hactive
        refine dispatching_silent hs hold rfl (by simp) (fun _ => ?_)
        rw [Bool.not_eq_true] at hstep hactive
        calc s.vmFlags = ⟨s.vmFlags.eventActive, s.vmFlags.stepByStep⟩ := rfl
          _ = .idle := by rw [hstep, hactive]; rfl
  | select =>
    have hold : s.thread.selected = none := by
      rw [hthread]
      rfl
    by_cases hnone : ffs s.eventsFlags = 0
    · simp only [AsebaNode.vmStep, AsebaNode.shows, hthread, hnone, if_true, List.append_nil]
      exact dispatching_silent hs hold rfl (by simp) (by simp)
    · have hne : (ffs s.eventsFlags : ℤ) - 1 ≠ -1 := by omega
      have hevent : ((ffs s.eventsFlags : ℤ) - 1).toNat = ffs s.eventsFlags - 1 := by omega
      simp only [AsebaNode.vmStep, AsebaNode.shows, hthread, if_pos hne, if_neg hnone, hevent]
      exact dispatching_select hs hthread (getLsbD_ffs hnone)
  | clear n =>
    simp only [AsebaNode.vmStep, AsebaNode.shows, hthread, List.append_nil]
    exact dispatching_clear hs hthread
  | setup n =>
    simp only [AsebaNode.vmStep, AsebaNode.shows, hthread]
    exact dispatching_setup hs hthread flags

/-- **Every step keeps the invariant.** -/
theorem dispatching_step {s s' : AsebaNode × List NodeEvent} {i : NodeStep}
    (hs : Dispatching s) (h : recorded AsebaNode.step AsebaNode.shows s i = .ok s') :
    Dispatching s' := by
  obtain ⟨hstep, hshows⟩ := recorded_eq_ok.mp h
  obtain ⟨s', past'⟩ := s'
  rw [show past' = s.2 ++ s.1.shows i from hshows]
  cases i with
  | set producer =>
    cases hstep
    exact dispatching_set hs _ producer.event.toNat_lt
  | vm flags =>
    cases hstep
    exact dispatching_vmStep hs flags

/-- **No event is lost**, in any interleaving. -/
theorem no_event_lost (steps : List NodeStep) {s : AsebaNode × List NodeEvent}
    (h : run (recorded AsebaNode.step AsebaNode.shows) (AsebaNode.init, []) steps = .ok s) :
    NoEventLost s :=
  (run_invariant (P := Dispatching) (fun _ _ _ hs hstep => dispatching_step hs hstep) h
    dispatching_init).toNoEventLost

set_option maxRecDepth 4000 in
/-- The timer fires again between the selection of its event and the clearing of its
flag. -/
theorem no_event_lost_timer :
    NoEventLost (⟨0, ⟨true, false⟩, .cycle⟩,
      [.setupInit .idle, .set 4, .selected 4, .set 4, .setup 4 .idle]) :=
  no_event_lost [.vm .idle, .set .timerCb, .vm .idle, .vm .idle, .vm .idle, .set .timerCb,
    .vm .idle, .vm ⟨true, false⟩] (by rfl)

end Aseba
