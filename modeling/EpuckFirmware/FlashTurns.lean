import EpuckFirmware.Flash
import EpuckFirmware.SharedDevice

/-!
# Taking turns on a flash device

Programs that each unlock the device, work on a sector behind its first bytes and lock the
device again. Nothing keeps them apart: one may lock the device while another still writes,
and one may look for its place while another fills it. If they take turns (`TakesTurns`),
the sector is as if they had run one after the other (`Turns.run`), and the device is
unlocked whenever something is written.

What is stored is a parameter, `Stored`: after which of them, which memory.
-/

open StepMachine History Shared

variable {g : Geometry} {ι : Type}

namespace FlashOp

/-- Erasing and programming. -/
def Modifies : FlashOp → Prop
  | .program _ _ => True
  | .erase _ => True
  | _ => False

/-- **Working behind the first `n` bytes of the sector**: reading there, and writing. -/
def Touches (S : Sector g) (n : ℕ) : FlashOp → Prop
  | .read a => n ≤ (a - S.base).toNat
  | .program _ _ => True
  | .erase _ => True
  | _ => False

/-- **What leaves the first `n` bytes of the sector alone** and does not lock the device. -/
def Keeps (S : Sector g) (n : ℕ) : FlashOp → Prop
  | .program a _ => n ≤ (a - S.base).toNat
  | .erase _ => n = 0
  | .lock => False
  | _ => True

end FlashOp

namespace FlashTurns

open FlashOp

/-- The programs on the device, and what they did. -/
abbrev Recorded (ι : Type) := Shared.Recorded FlashOp.Reply Unit FlashState ι

/-- What was performed. -/
abbrev History (ι : Type) := List (Performed FlashOp FlashState ι)

def Started (who : ι) (h : History ι) : Prop := ∃ e ∈ h, e.who = who

/-- Somebody worked behind the first `n` bytes. -/
def Entered (S : Sector g) (n : ℕ) (who : ι) (h : History ι) : Prop :=
  ∃ e ∈ h, e.who = who ∧ e.op.Touches S n

/-- Nothing is left to do but to lock the device. -/
def Finished (p : Flash Unit) : Prop := p.next = none ∨ p.next = some .lock

/-- **Taking turns**: a program works behind the first `n` bytes only if those that did before
are finished, and locks the device only if those that started are. -/
def TakesTurns (S : Sector g) (n : ℕ) (s : Recorded ι) (who : ι) : Prop :=
  ∀ o other, (s.1.program who).next = some o → other ≠ who →
    (o.Touches S n → Entered S n other s.2 → Finished (s.1.program other))
      ∧ (o = .lock → Started other s.2 → Finished (s.1.program other))

/-- What was written was written to an unlocked device. -/
def WritesUnlocked (h : History ι) : Prop := ∀ e ∈ h, e.op.Modifies → e.before.locked = false

/-! ## Programs on their own -/

/-- The first `n` bytes of the sector are the same. -/
def Agree (S : Sector g) (n : ℕ) (m m' : Memory) : Prop := ∀ a, (a - S.base).toNat < n → m a = m' a

/-- The program locks the device as its last operation, and leaves a memory. -/
def Locks (g : Geometry) (p : Flash Unit) (m m' : Memory) (u : List FlashOp) : Prop :=
  Program.exec (FlashState.step g) p ⟨m, false⟩ = ⟨some (), ⟨m', true⟩, u ++ [.lock]⟩

/-- **What is asked of the programs**: each begins by unlocking the device and, from what the
others stored, stores its own behind the first `n` bytes. -/
structure StoresAlone (S : Sector g) (n : ℕ) (m₀ : Memory) (P : ι → Flash Unit)
    (Stored : List ι → Memory → Prop) : Prop where
  start : Stored [] m₀
  unlocks : ∀ who, (P who).next = some .unlock
  stores : ∀ {order m who}, Stored order m → who ∉ order →
    ∃ m' u, Locks g (P who) m m' u ∧ (∀ o ∈ u, o.Keeps S n) ∧ (∃ o ∈ u, o.Modifies)
      ∧ Stored (order ++ [who]) m'

variable {S : Sector g} {n : ℕ}

theorem touches_of_modifies {o : FlashOp} (h : o.Modifies) : o.Touches S n := by
  cases o with
  | program _ _ => trivial
  | erase _ => trivial
  | read _ => cases h
  | unlock => cases h
  | lock => cases h

/-- What keeps the first bytes. -/
theorem agree_step {o : FlashOp} (ho : o.Keeps S n) (s : FlashState) :
    Agree S n (FlashState.step g s o).2.mem s.mem := by
  intro a ha
  cases o with
  | read _ => rfl
  | unlock => rfl
  | lock => rfl
  | erase k =>
    rw [show n = 0 from ho] at ha
    exact absurd ha (Nat.not_lt_zero _)
  | program x b =>
    have hne : a ≠ x := by
      rintro rfl
      exact absurd (show n ≤ _ from ho) (Nat.not_le.mpr ha)
    show (if s.locked then s else { s with mem := s.mem.program x b }).mem a = s.mem a
    split
    · rfl
    · exact if_neg hne

/-- Only locking locks the device. -/
theorem locked_step {o : FlashOp} (ho : o ≠ .lock) {s : FlashState} (hs : s.locked = false) :
    (FlashState.step g s o).2 = ⟨(FlashState.step g s o).2.mem, false⟩ := by
  cases o with
  | lock => exact absurd rfl ho
  | unlock => rfl
  | read _ =>
    rw [← hs]
    rfl
  | erase _ =>
    unfold FlashState.step
    simp [hs]
  | program _ _ =>
    unfold FlashState.step
    simp [hs]

/-- A program that locks the device performs something. -/
theorem Locks.perform {p : Flash Unit} {m m' : Memory} {u : List FlashOp} (h : Locks g p m m' u) :
    ∃ o k, p = .perform o k := by
  cases p with
  | perform o k => exact ⟨o, k, rfl⟩
  | done a =>
    have htrace : [] = u ++ [.lock] := congrArg Outcome.trace h
    exact absurd htrace.symm (by simp)
  | timeout => cases congrArg Outcome.result h

/-- **A program that has only to lock the device left.** -/
theorem Locks.eq_lock {p : Flash Unit} {m m' : Memory} (h : Locks g p m m' []) :
    p = .perform .lock (fun _ => .done ()) ∧ m' = m := by
  obtain ⟨o, k, rfl⟩ := h.perform
  obtain ⟨t, ht, hrest⟩ := Program.exec_perform_eq.mp h
  obtain ⟨rfl, rfl⟩ := List.cons.inj ht
  have hdone : k () = .done () := eq_done_of_exec hrest
  rw [hdone] at hrest
  exact ⟨congrArg _ (funext fun ⟨⟩ => hdone), (congrArg (fun x => x.state.mem) hrest).symm⟩

/-- A program whose next operation is to lock the device has nothing else left. -/
theorem Locks.eq_nil {m m' : Memory} {k : FlashOp.Reply .lock → Flash Unit} {u : List FlashOp}
    (h : Locks g (.perform .lock k) m m' u) (hu : ∀ o ∈ u, o.Keeps S n) : u = [] := by
  obtain ⟨t, ht, -⟩ := Program.exec_perform_eq.mp h
  cases u with
  | nil => rfl
  | cons o u =>
    obtain rfl : o = .lock := (List.cons.inj ht).1
    exact False.elim (hu .lock List.mem_cons_self)

/-- **The next operation of a program**, on an unlocked device. -/
theorem Locks.step {o : FlashOp} {k : o.Reply → Flash Unit} {m m' : Memory} {u : List FlashOp}
    (h : Locks g (.perform o k) m m' u) (ho : o ≠ .lock) :
    ∃ u', u = o :: u' ∧ Locks g (k (FlashState.step g ⟨m, false⟩ o).1)
      (FlashState.step g ⟨m, false⟩ o).2.mem m' u' := by
  obtain ⟨t, ht, hrest⟩ := Program.exec_perform_eq.mp h
  cases u with
  | nil => exact absurd (List.cons.inj ht).1.symm ho
  | cons o' u =>
    obtain ⟨rfl, rfl⟩ := List.cons.inj ht
    rw [locked_step ho rfl] at hrest
    exact ⟨u, rfl, hrest⟩

/-! ## Programs that wait for their turn -/

/-- **A program that waits**: it read at most the first `n` bytes, so from every memory that
agrees on these it goes on as the whole program does. -/
def Waits (S : Sector g) (n : ℕ) (m₀ : Memory) (p₀ p : Flash Unit) : Prop :=
  ∀ m m' u, Agree S n m m₀ → Locks g p₀ m m' u →
    ∃ w v, u = w ++ v ∧ (∀ o ∈ w, ¬ o.Touches S n) ∧ Locks g p m m' v

variable {m₀ : Memory}

theorem Waits.refl (p : Flash Unit) : Waits S n m₀ p p :=
  fun _ _ u _ h => ⟨[], u, rfl, by simp, h⟩

/-- Reading the first bytes is the same wherever they are the same, and does nothing. -/
theorem step_of_not_touches {o : FlashOp} (ho : ¬ o.Touches S n) (hlock : o ≠ .lock)
    {s : FlashState} (hs : Agree S n s.mem m₀) {m : Memory} (hm : Agree S n m m₀) :
    FlashState.step g ⟨m, false⟩ o = ((FlashState.step g s o).1, ⟨m, false⟩)
      ∧ (FlashState.step g s o).2.mem = s.mem := by
  cases o with
  | read a =>
    have ha : (a - S.base).toNat < n := not_le.mp ho
    refine ⟨?_, rfl⟩
    show (m a, _) = (s.mem a, _)
    rw [hm a ha, hs a ha]
  | unlock => exact ⟨rfl, rfl⟩
  | lock => exact absurd rfl hlock
  | erase _ => exact absurd trivial ho
  | program _ _ => exact absurd trivial ho

/-- **A program goes on waiting** while it reads the first bytes. -/
theorem Waits.step {p₀ : Flash Unit} {o : FlashOp} {k : o.Reply → Flash Unit}
    (h : Waits S n m₀ p₀ (.perform o k)) (ho : ¬ o.Touches S n) (hlock : o ≠ .lock)
    {s : FlashState} (hs : Agree S n s.mem m₀) :
    Waits S n m₀ p₀ (k (FlashState.step g s o).1) := by
  intro m m' u hm hp₀
  obtain ⟨w, v, rfl, hw, hv⟩ := h m m' u hm hp₀
  obtain ⟨v', rfl, hv'⟩ := hv.step hlock
  rw [(step_of_not_touches ho hlock hs hm).1] at hv'
  refine ⟨w ++ [o], v', by simp, fun x hx => ?_, hv'⟩
  rcases List.mem_append.mp hx with hx | hx
  · exact hw x hx
  · rw [List.mem_singleton.mp hx]
    exact ho

/-- What a program that waits does on its own, if the whole program works behind the first
bytes. -/
theorem Waits.locks {p₀ p : Flash Unit} (h : Waits S n m₀ p₀ p) {m m' : Memory}
    {u : List FlashOp} (hm : Agree S n m m₀) (hp₀ : Locks g p₀ m m' u)
    (hkeeps : ∀ o ∈ u, o.Keeps S n) (hmodifies : ∃ o ∈ u, o.Modifies) :
    ∃ v, Locks g p m m' v ∧ (∀ o ∈ v, o.Keeps S n) ∧ v ≠ [] := by
  obtain ⟨w, v, rfl, hw, hv⟩ := h m m' u hm hp₀
  refine ⟨v, hv, fun o ho => hkeeps o (List.mem_append_right w ho), ?_⟩
  rintro rfl
  obtain ⟨o, ho, hmodify⟩ := hmodifies
  rw [List.append_nil] at ho
  exact hw o ho (touches_of_modifies hmodify)

/-! ## The invariant -/

variable {P : ι → Flash Unit} {Stored : List ι → Memory → Prop}

/-- **The programs take turns**: `order` are those that are finished, and `inside` is the one
that works behind the first bytes. -/
structure Turns (S : Sector g) (n : ℕ) (m₀ : Memory) (P : ι → Flash Unit)
    (Stored : List ι → Memory → Prop) (order : List ι) (inside : Option ι)
    (s : Recorded ι) : Prop where
  agree : Agree S n s.1.device.mem m₀
  idle : ∀ who, ¬ Started who s.2 → s.1.program who = P who
  waits : ∀ who, ¬ Entered S n who s.2 → Waits S n m₀ (P who) (s.1.program who)
  entered : ∀ who, Entered S n who s.2 ↔ who ∈ order ∨ inside = some who
  finished : ∀ who ∈ order,
    s.1.program who = .perform .lock (fun _ => .done ()) ∨ s.1.program who = .done ()
  quiet : inside = none → Stored order s.1.device.mem
  busy : ∀ who, inside = some who → who ∉ order ∧ ∃ m' u, Locks g (s.1.program who)
    s.1.device.mem m' u ∧ (∀ o ∈ u, o.Keeps S n) ∧ u ≠ [] ∧ Stored (order ++ [who]) m'
  unlocked : ∀ who, Started who s.2 → ¬ Finished (s.1.program who) → s.1.device.locked = false
  writes : WritesUnlocked s.2

theorem started_concat {who : ι} {h : History ι} {e : Performed FlashOp FlashState ι} :
    Started who (h ++ [e]) ↔ Started who h ∨ e.who = who := by
  unfold Started
  simp [or_and_right, exists_or]

theorem entered_concat {who : ι} {h : History ι} {e : Performed FlashOp FlashState ι} :
    Entered S n who (h ++ [e]) ↔ Entered S n who h ∨ (e.who = who ∧ e.op.Touches S n) := by
  unfold Entered
  simp [or_and_right, exists_or]

theorem Entered.started {who : ι} {h : History ι} (hentered : Entered S n who h) :
    Started who h := by
  obtain ⟨e, he, hwho, -⟩ := hentered
  exact ⟨e, he, hwho⟩

theorem writesUnlocked_concat {h : History ι} {e : Performed FlashOp FlashState ι} :
    WritesUnlocked (h ++ [e])
      ↔ WritesUnlocked h ∧ (e.op.Modifies → e.before.locked = false) := by
  unfold WritesUnlocked
  simp [or_imp, forall_and]

/-- A program that works on the sector is not finished. -/
theorem Locks.not_finished {p : Flash Unit} {m m' : Memory} {u : List FlashOp}
    (h : Locks g p m m' u) (hu : ∀ o ∈ u, o.Keeps S n) (hne : u ≠ []) : ¬ Finished p := by
  obtain ⟨o, k, rfl⟩ := h.perform
  rintro (hnone | hlock)
  · cases hnone
  · obtain rfl : o = .lock := Option.some.inj hlock
    exact hne (h.eq_nil hu)

theorem turns_init (h : StoresAlone S n m₀ P Stored) (locked : Bool) :
    Turns S n m₀ P Stored [] none (⟨⟨m₀, locked⟩, P⟩, []) where
  agree _ _ := rfl
  idle _ _ := rfl
  waits who _ := Waits.refl (P who)
  entered who := by simp [Entered]
  finished who hwho := absurd hwho (by simp)
  quiet _ := h.start
  busy who hwho := nomatch hwho
  unlocked who hstarted := absurd hstarted (by simp [Started])
  writes := by simp [WritesUnlocked]

/-! ## One turn -/

section Turn

variable [DecidableEq ι] {order : List ι} {inside : Option ι} {s : Recorded ι} {who : ι}
  {o : FlashOp} {k : o.Reply → Flash Unit}

/-- Who did not start is not the one whose turn it is. -/
theorem idle_turn (hs : Turns S n m₀ P Stored order inside s) {other : ι}
    (h : ¬ Started other (s.2 ++ [⟨who, o, s.1.device⟩])) :
    (s.1.after (FlashState.step g) who o k).program other = P other := by
  rw [started_concat, not_or] at h
  rw [after_of_ne s.1 (Ne.symm h.2), hs.idle other h.1]

/-- **A turn of a program that waits.** -/
theorem turns_wait (h : StoresAlone S n m₀ P Stored) (hs : Turns S n m₀ P Stored order inside s)
    (hprogram : s.1.program who = .perform o k) (hentered : ¬ Entered S n who s.2)
    (ho : ¬ o.Touches S n) (hlock : o ≠ .lock) :
    Turns S n m₀ P Stored order inside
      (s.1.after (FlashState.step g) who o k, s.2 ++ [⟨who, o, s.1.device⟩]) := by
  have hmem : (FlashState.step g s.1.device o).2.mem = s.1.device.mem :=
    (step_of_not_touches ho hlock hs.agree (fun _ _ => rfl)).2
  have hentered' : ∀ other, Entered S n other (s.2 ++ [⟨who, o, s.1.device⟩])
      ↔ Entered S n other s.2 := by
    intro other
    rw [entered_concat, or_iff_left (fun hcase => ho hcase.2)]
  refine ⟨?_, fun other => idle_turn hs, fun other hother => ?_, fun other => ?_,
    fun other hother => ?_, fun hnone => ?_, fun other hinside => ?_,
    fun other hstarted hfinished => ?_, ?_⟩
  · show Agree S n (FlashState.step g s.1.device o).2.mem m₀
    rw [hmem]
    exact hs.agree
  · rw [hentered'] at hother
    have hwaits := hs.waits other hother
    by_cases hne : other = who
    · rw [hne, hprogram] at hwaits
      rw [hne, after_self]
      exact hwaits.step ho hlock hs.agree
    · rw [after_of_ne s.1 hne]
      exact hwaits
  · rw [hentered', hs.entered]
  · have hne : other ≠ who := by
      rintro rfl
      exact hentered ((hs.entered other).mpr (Or.inl hother))
    rw [after_of_ne s.1 hne]
    exact hs.finished other hother
  · show Stored order (FlashState.step g s.1.device o).2.mem
    rw [hmem]
    exact hs.quiet hnone
  · have hne : other ≠ who := by
      rintro rfl
      exact hentered ((hs.entered other).mpr (Or.inr hinside))
    show _ ∧ ∃ m' u, Locks g _ (FlashState.step g s.1.device o).2.mem m' u ∧ _
    rw [after_of_ne s.1 hne, hmem]
    exact hs.busy other hinside
  · by_cases hunlock : o = .unlock
    · subst hunlock
      rfl
    · -- it is a read, so the program was unlocked before
      have hdevice : (s.1.after (FlashState.step g) who o k).device = s.1.device := by
        cases o with
        | read _ => rfl
        | unlock => exact absurd rfl hunlock
        | lock => exact absurd rfl hlock
        | erase _ => exact absurd trivial ho
        | program _ _ => exact absurd trivial ho
      rw [hdevice]
      by_cases hne : other = who
      · refine hs.unlocked who ?_ ?_
        · by_contra hidle
          have hnext := h.unlocks who
          rw [← hs.idle who hidle, hprogram] at hnext
          exact hunlock (Option.some.inj hnext)
        · rw [hprogram]
          rintro (hnone | hsome)
          · cases hnone
          · exact hlock (Option.some.inj hsome)
      · rw [after_of_ne s.1 hne] at hfinished
        rw [started_concat, or_iff_left (Ne.symm hne)] at hstarted
        exact hs.unlocked other hstarted hfinished
  · exact writesUnlocked_concat.mpr
      ⟨hs.writes, fun hmodifies => absurd (touches_of_modifies hmodifies) ho⟩

/-- **A turn of a program that is finished**: it locks the device. -/
theorem turns_lock (hs : Turns S n m₀ P Stored order inside s) (hmem : who ∈ order)
    (hprogram : s.1.program who = .perform .lock (fun _ => .done ()))
    (hturn : TakesTurns S n s who) :
    Turns S n m₀ P Stored order inside
      (s.1.after (FlashState.step g) who .lock (fun _ => .done ()),
        s.2 ++ [⟨who, .lock, s.1.device⟩]) := by
  have hentered' : ∀ other, Entered S n other (s.2 ++ [⟨who, .lock, s.1.device⟩])
      ↔ Entered S n other s.2 := by
    intro other
    rw [entered_concat, or_iff_left (fun hcase => hcase.2)]
  refine ⟨hs.agree, fun other => idle_turn hs, fun other hother => ?_, fun other => ?_,
    fun other hother => ?_, hs.quiet, fun other hinside => ?_,
    fun other hstarted hfinished => ?_, ?_⟩
  · rw [hentered'] at hother
    have hne : other ≠ who := by
      rintro rfl
      exact hother ((hs.entered other).mpr (Or.inl hmem))
    rw [after_of_ne s.1 hne]
    exact hs.waits other hother
  · rw [hentered', hs.entered]
  · by_cases hne : other = who
    · rw [hne]
      exact Or.inr (after_self _ _ _ _)
    · rw [after_of_ne s.1 hne]
      exact hs.finished other hother
  · have hne : other ≠ who := by
      rintro rfl
      exact (hs.busy other hinside).1 hmem
    rw [after_of_ne s.1 hne]
    exact hs.busy other hinside
  · -- the others that started are finished too
    by_cases hne : other = who
    · rw [hne, after_self] at hfinished
      exact absurd (Or.inl rfl) hfinished
    · rw [after_of_ne s.1 hne] at hfinished
      rw [started_concat, or_iff_left (Ne.symm hne)] at hstarted
      have hnext : (s.1.program who).next = some .lock := by
        rw [hprogram]
        rfl
      exact absurd ((hturn .lock other hnext hne).2 rfl hstarted) hfinished
  · exact writesUnlocked_concat.mpr ⟨hs.writes, fun hmodifies => nomatch hmodifies⟩

/-- **A turn of the program that works behind the first bytes.** -/
theorem turns_work (hs : Turns S n m₀ P Stored order inside s)
    (hprogram : s.1.program who = .perform o k) (hmem : who ∉ order)
    (hinside : inside = none ∨ inside = some who)
    (hentered : Entered S n who (s.2 ++ [⟨who, o, s.1.device⟩]))
    (hlocked : s.1.device.locked = false) {m' : Memory} {u : List FlashOp}
    (hlocks : Locks g (.perform o k) s.1.device.mem m' u) (hu : ∀ x ∈ u, x.Keeps S n)
    (hne : u ≠ []) (hstored : Stored (order ++ [who]) m') :
    ∃ order' inside', Turns S n m₀ P Stored order' inside'
      (s.1.after (FlashState.step g) who o k, s.2 ++ [⟨who, o, s.1.device⟩]) := by
  have hlock : o ≠ .lock := by
    rintro rfl
    exact hne (hlocks.eq_nil hu)
  obtain ⟨u', rfl, hlocks'⟩ := hlocks.step hlock
  have hdevice : s.1.device = ⟨s.1.device.mem, false⟩ := by rw [← hlocked]
  rw [← hdevice] at hlocks'
  -- what does not depend on whether this was the last operation
  have hagree : Agree S n (FlashState.step g s.1.device o).2.mem m₀ := by
    intro a ha
    rw [agree_step (hu o List.mem_cons_self) s.1.device a ha, hs.agree a ha]
  have hwaits : ∀ other, ¬ Entered S n other (s.2 ++ [⟨who, o, s.1.device⟩]) →
      Waits S n m₀ (P other) ((s.1.after (FlashState.step g) who o k).program other) := by
    intro other hother
    have hne : other ≠ who := by
      rintro rfl
      exact hother hentered
    rw [after_of_ne s.1 hne]
    exact hs.waits other (fun hbefore => hother (entered_concat.mpr (Or.inl hbefore)))
  have hentered' : ∀ other, Entered S n other (s.2 ++ [⟨who, o, s.1.device⟩])
      ↔ other ∈ order ∨ other = who := by
    intro other
    by_cases hne : other = who
    · exact iff_of_true (by rw [hne]; exact hentered) (Or.inr hne)
    · rw [entered_concat, or_iff_left (fun hcase => hne hcase.1.symm), hs.entered]
      refine or_congr_right (iff_of_false ?_ hne)
      rintro hother
      obtain hnone | hwho := hinside
      · cases hnone.symm.trans hother
      · exact hne (Option.some.inj (hother.symm.trans hwho))
  have hunlocked : (FlashState.step g s.1.device o).2.locked = false := by
    rw [locked_step hlock hlocked]
  have hwrites : WritesUnlocked (s.2 ++ [⟨who, o, s.1.device⟩]) :=
    writesUnlocked_concat.mpr ⟨hs.writes, fun _ => hlocked⟩
  by_cases hlast : u' = []
  · -- only locking is left
    subst hlast
    obtain ⟨hdone, hm'⟩ := hlocks'.eq_lock
    refine ⟨order ++ [who], none, hagree, fun other => idle_turn hs, hwaits, fun other => ?_,
      fun other hother => ?_, fun _ => ?_, (fun other hother => nomatch hother),
      fun _ _ _ => hunlocked, hwrites⟩
    · rw [hentered', List.mem_append, List.mem_singleton]
      simp
    · by_cases hne : other = who
      · rw [hne, after_self]
        exact Or.inl hdone
      · rw [after_of_ne s.1 hne]
        rcases List.mem_append.mp hother with hother | hother
        · exact hs.finished other hother
        · exact absurd (List.mem_singleton.mp hother) hne
    · rw [hm'] at hstored
      exact hstored
  · refine ⟨order, some who, hagree, fun other => idle_turn hs, hwaits, fun other => ?_,
      fun other hother => ?_, (fun hnone => nomatch hnone), fun other hother => ?_,
      fun _ _ _ => hunlocked, hwrites⟩
    · rw [hentered', Option.some_inj]
      exact or_congr_right eq_comm
    · have hne : other ≠ who := by
        rintro rfl
        exact hmem hother
      rw [after_of_ne s.1 hne]
      exact hs.finished other hother
    · obtain rfl := Option.some.inj hother
      rw [after_self]
      exact ⟨hmem, m', u', hlocks', fun x hx => hu x (List.mem_cons_of_mem o hx), hlast, hstored⟩

/-- **A turn keeps the invariant.** -/
theorem Turns.turn (h : StoresAlone S n m₀ P Stored) (hs : Turns S n m₀ P Stored order inside s)
    (hturn : TakesTurns S n s who) {s' : Recorded ι}
    (hstep : recorded (Shared.turn (FlashState.step g)) shows s who = .ok s') :
    ∃ order' inside', Turns S n m₀ P Stored order' inside' s' := by
  obtain ⟨o, k, hprogram, rfl⟩ := perform_of_recorded_turn hstep
  by_cases hentered : Entered S n who s.2
  · rcases (hs.entered who).mp hentered with hmem | hinside
    · rcases hs.finished who hmem with hfinished | hfinished
      · cases hprogram.symm.trans hfinished
        exact ⟨order, inside, turns_lock hs hmem hprogram hturn⟩
      · cases hprogram.symm.trans hfinished
    · obtain ⟨hmem, m', u, hlocks, hu, hne, hstored⟩ := hs.busy who hinside
      have hfinished := hlocks.not_finished hu hne
      rw [hprogram] at hlocks
      exact turns_work hs hprogram hmem (Or.inr hinside)
        (entered_concat.mpr (Or.inl hentered))
        (hs.unlocked who hentered.started hfinished) hlocks hu hne hstored
  · by_cases ho : o.Touches S n
    · -- it enters, so nobody is inside
      have hnone : inside = none := by
        by_contra hsome
        obtain ⟨other, hother⟩ := Option.ne_none_iff_exists'.mp hsome
        obtain ⟨-, m', u, hlocks, hu, hne, -⟩ := hs.busy other hother
        have hbefore : Entered S n other s.2 := (hs.entered other).mpr (Or.inr hother)
        have hdiff : other ≠ who := by
          rintro rfl
          exact hentered hbefore
        have hnext : (s.1.program who).next = some o := by
          rw [hprogram]
          rfl
        exact hlocks.not_finished hu hne ((hturn o other hnext hdiff).1 ho hbefore)
      have hmem : who ∉ order := fun hmem => hentered ((hs.entered who).mpr (Or.inl hmem))
      have hstarted : Started who s.2 := by
        by_contra hidle
        have hnext := h.unlocks who
        rw [← hs.idle who hidle, hprogram] at hnext
        obtain rfl : o = .unlock := Option.some.inj hnext
        exact ho
      obtain ⟨m', u, hlocks, hu, hmodifies, hstored⟩ := h.stores (hs.quiet hnone) hmem
      obtain ⟨v, hlocks', hv, hne⟩ := (hs.waits who hentered).locks hs.agree hlocks hu hmodifies
      have hfinished := hlocks'.not_finished hv hne
      rw [hprogram] at hlocks'
      exact turns_work hs hprogram hmem (Or.inl hnone)
        (entered_concat.mpr (Or.inr ⟨rfl, ho⟩)) (hs.unlocked who hstarted hfinished) hlocks' hv hne
        hstored
    · -- it still has to write, so it does not lock the device
      obtain ⟨m', u, hlocks, hu, hmodifies, -⟩ := h.stores h.start (List.not_mem_nil (a := who))
      obtain ⟨v, hlocks', hv, hne⟩ :=
        (hs.waits who hentered).locks (fun _ _ => rfl) hlocks hu hmodifies
      rw [hprogram] at hlocks'
      have hlock : o ≠ .lock := by
        rintro rfl
        exact hne (hlocks'.eq_nil hv)
      exact ⟨order, inside, turns_wait h hs hprogram hentered ho hlock⟩

/-- **Every run in which the programs take turns keeps the invariant.** -/
theorem Turns.run (h : StoresAlone S n m₀ P Stored) {locked : Bool} {whos : List ι}
    (hrun : Runs (recorded (Shared.turn (FlashState.step g)) shows) (TakesTurns S n)
      (⟨⟨m₀, locked⟩, P⟩, []) whos s) :
    ∃ order inside, Turns S n m₀ P Stored order inside s :=
  hrun.invariant (P := fun s => ∃ order inside, Turns S n m₀ P Stored order inside s)
    (fun _ _ _ ⟨_, _, hs⟩ hturn hstep => hs.turn h hturn hstep) ⟨_, _, turns_init h locked⟩

omit [DecidableEq ι] in
/-- What a program that is not finished still does on its own. -/
theorem Turns.locks (h : StoresAlone S n m₀ P Stored) (hs : Turns S n m₀ P Stored order inside s)
    (who : ι) : (who ∈ order ∧ inside ≠ some who) ∨ ∃ m m' u, Locks g (s.1.program who) m m' u := by
  by_cases hentered : Entered S n who s.2
  · rcases (hs.entered who).mp hentered with hmem | hinside
    · exact Or.inl ⟨hmem, fun hinside => (hs.busy who hinside).1 hmem⟩
    · obtain ⟨-, m', u, hlocks, -⟩ := hs.busy who hinside
      exact Or.inr ⟨_, m', u, hlocks⟩
  · obtain ⟨m', u, hlocks, hu, hmodifies, -⟩ := h.stores h.start (List.not_mem_nil (a := who))
    obtain ⟨v, hlocks', -, -⟩ :=
      (hs.waits who hentered).locks (fun _ _ => rfl) hlocks hu hmodifies
    exact Or.inr ⟨_, m', v, hlocks'⟩

omit [DecidableEq ι] in
/-- **No program runs out of fuel.** -/
theorem Turns.not_timeout (h : StoresAlone S n m₀ P Stored)
    (hs : Turns S n m₀ P Stored order inside s) (who : ι) : s.1.program who ≠ .timeout := by
  intro htimeout
  rcases hs.locks h who with ⟨hmem, -⟩ | ⟨m, m', u, hlocks⟩
  · rcases hs.finished who hmem with hp | hp <;> cases htimeout.symm.trans hp
  · obtain ⟨o, k, hp⟩ := hlocks.perform
    cases htimeout.symm.trans hp

omit [DecidableEq ι] in
/-- **When all programs are done**, the memory is what they stored in some order. -/
theorem Turns.stored (h : StoresAlone S n m₀ P Stored) (hs : Turns S n m₀ P Stored order inside s)
    (hdone : ∀ who, s.1.program who = .done ()) :
    Stored order s.1.device.mem ∧ ∀ who, who ∈ order := by
  have hfinished : ∀ who, who ∈ order ∧ inside ≠ some who := by
    intro who
    rcases hs.locks h who with hmem | ⟨m, m', u, hlocks⟩
    · exact hmem
    · obtain ⟨o, k, hp⟩ := hlocks.perform
      cases (hdone who).symm.trans hp
  refine ⟨hs.quiet ?_, fun who => (hfinished who).1⟩
  by_contra hsome
  obtain ⟨other, hother⟩ := Option.ne_none_iff_exists'.mp hsome
  exact (hfinished other).2 hother

end Turn

/-! ## Runs in which a program is let run alone -/

section Alone

variable [DecidableEq ι] {a b : ι}

omit [DecidableEq ι] in
/-- A program that begins by unlocking the device does the same on a locked one. -/
theorem exec_of_unlocks {p : Flash Unit} (hp : p.next = some .unlock) (m : Memory) (locked : Bool) :
    Program.exec (FlashState.step g) p ⟨m, locked⟩
      = Program.exec (FlashState.step g) p ⟨m, false⟩ := by
  cases p with
  | done _ => cases hp
  | timeout => cases hp
  | perform o k =>
    obtain rfl : o = .unlock := Option.some.inj hp
    rfl

omit [DecidableEq ι] in
/-- Nothing started that is not in the history. -/
theorem not_started {who other : ι} {h : History ι} (hh : ∀ e ∈ h, e.who = who)
    (hne : other ≠ who) : ¬ Started other h := by
  rintro ⟨e, he, rfl⟩
  exact hne (hh e he)

/-- **Programs that run one after the other take turns.** -/
theorem exists_runs_takesTurns (h : StoresAlone S n m₀ P Stored) (hab : a ≠ b) (locked : Bool) :
    ∃ whos s, Runs (recorded (Shared.turn (FlashState.step g)) shows) (TakesTurns S n)
        (⟨⟨m₀, locked⟩, P⟩, []) whos s
      ∧ s.1.program a = .done () ∧ s.1.program b = .done () := by
  have hmem : b ∉ [] ++ [a] := by simpa using hab.symm
  obtain ⟨m₁, u, hu, -, -, hstored⟩ := h.stores h.start (List.not_mem_nil (a := a))
  obtain ⟨m₂, v, hv, -⟩ := h.stores hstored hmem
  have hfirst : Program.exec (FlashState.step g) (P a) ⟨m₀, locked⟩
      = ⟨some (), ⟨m₁, true⟩, u ++ [.lock]⟩ := (exec_of_unlocks (h.unlocks a) m₀ locked).trans hu
  have hsecond : Program.exec (FlashState.step g) (Function.update P a (.done ()) b) ⟨m₁, true⟩
      = ⟨some (), ⟨m₂, true⟩, v ++ [.lock]⟩ := by
    rw [Function.update_of_ne hab.symm]
    exact (exec_of_unlocks (h.unlocks b) m₁ true).trans hv
  -- while the first one runs, nobody else started
  have hturns₁ : ∀ (d : FlashState) (p : Flash Unit) (h' : History ι), (∀ e ∈ h', e.who = a) →
      TakesTurns S n (⟨d, Function.update P a p⟩, [] ++ h') a := by
    intro d p h' hh' o other _ hne
    have hidle : ¬ Started other h' := not_started hh' hne
    exact ⟨fun _ hentered => absurd hentered.started hidle, fun _ hstarted => absurd hstarted hidle⟩
  obtain ⟨h₁, hruns₁, hwho₁⟩ := runs_done (TakesTurns S n) [] hfirst hturns₁
  -- while the second one runs, the first one is finished
  have hturns₂ : ∀ (d : FlashState) (p : Flash Unit) (h' : History ι), (∀ e ∈ h', e.who = b) →
      TakesTurns S n (⟨d, Function.update (Function.update P a (.done ())) b p⟩,
        ([] ++ h₁) ++ h') b := by
    intro d p h' hh' o other _ hne
    have hfinished : Started other (([] ++ h₁) ++ h') →
        Finished (Function.update (Function.update P a (.done ())) b p other) := by
      rintro ⟨e, he, rfl⟩
      rw [Function.update_of_ne hne]
      rcases List.mem_append.mp he with he | he
      · rw [hwho₁ e he, Function.update_self]
        exact Or.inl rfl
      · exact absurd (hh' e he) hne
    exact ⟨fun _ hentered => hfinished hentered.started, fun _ hstarted => hfinished hstarted⟩
  obtain ⟨h₂, hruns₂, -⟩ := runs_done (TakesTurns S n) ([] ++ h₁) hsecond hturns₂
  refine ⟨_, _, hruns₁.append hruns₂, ?_, Function.update_self _ _ _⟩
  show Function.update (Function.update P a (.done ())) b _ a = .done ()
  rw [Function.update_of_ne hab, Function.update_self]

/-- The first entry of a list that is of a kind. -/
theorem exists_first {α : Type} {p : α → Prop} {xs : List α} (h : ∃ x ∈ xs, p x) :
    ∃ as x bs, xs = as ++ x :: bs ∧ p x ∧ ∀ y ∈ as, ¬ p y := by
  induction xs with
  | nil => simp at h
  | cons x xs ih =>
    by_cases hx : p x
    · exact ⟨[], x, xs, rfl, hx, by simp⟩
    · obtain ⟨y, hy, hpy⟩ := h
      have hmem : y ∈ xs := by
        rcases List.mem_cons.mp hy with rfl | hy
        · exact absurd hpy hx
        · exact hy
      obtain ⟨as, z, bs, rfl, hz, has⟩ := ih ⟨y, hmem, hpy⟩
      refine ⟨x :: as, z, bs, rfl, hz, fun w hw => ?_⟩
      rcases List.mem_cons.mp hw with rfl | hw
      · exact hx
      · exact has w hw

omit [DecidableEq ι] in
/-- What writes nothing leaves the memory as it is. -/
theorem replay_mem {w : List FlashOp} (hw : ∀ o ∈ w, ¬ o.Modifies) (d : FlashState) :
    (Program.replay (FlashState.step g) d w).mem = d.mem := by
  induction w generalizing d with
  | nil => rfl
  | cons o w ih =>
    have hone : (FlashState.step g d o).2.mem = d.mem := by
      cases o with
      | read _ => rfl
      | unlock => rfl
      | lock => rfl
      | erase _ => exact absurd trivial (hw _ List.mem_cons_self)
      | program _ _ => exact absurd trivial (hw _ List.mem_cons_self)
    show (Program.replay (FlashState.step g) (FlashState.step g d o).2 w).mem = d.mem
    rw [ih (fun x hx => hw x (List.mem_cons_of_mem o hx)), hone]

/-- **Programs that do not take turns** may write to a locked device: one is about to write,
another one runs to its end and locks the device, and then the first one writes. -/
theorem exists_run_writes_locked (h : StoresAlone S n m₀ P Stored) (hab : a ≠ b)
    (locked : Bool) :
    ∃ whos s, run (recorded (Shared.turn (FlashState.step g)) shows)
        (⟨⟨m₀, locked⟩, P⟩, []) whos = .ok s
      ∧ ¬ WritesUnlocked s.2 := by
  obtain ⟨m₁, u, hu, -, hmodifies, -⟩ := h.stores h.start (List.not_mem_nil (a := a))
  obtain ⟨m₂, v, hv, -⟩ := h.stores h.start (List.not_mem_nil (a := b))
  obtain ⟨w, o, u', rfl, ho, hw⟩ := exists_first hmodifies
  -- the first program up to what it writes first
  have htrace : (Program.exec (FlashState.step g) (P a) ⟨m₀, locked⟩).trace
      = w ++ (o :: u' ++ [.lock]) := by
    rw [exec_of_unlocks (h.unlocks a) m₀ locked]
    exact (congrArg Outcome.trace hu).trans (List.append_assoc _ _ _)
  obtain ⟨p, h₁, hruns₁, -, hp⟩ := runs_alone (fun _ _ => True) P a [] htrace
    (fun _ _ _ _ => trivial)
  obtain ⟨o', k, rfl⟩ : ∃ o' k, p = .perform o' k := by
    cases p with
    | perform o' k => exact ⟨o', k, rfl⟩
    | done _ => cases congrArg Outcome.trace hp
    | timeout => cases congrArg Outcome.trace hp
  obtain rfl : o' = o := (List.cons.inj (congrArg Outcome.trace hp)).1
  rw [Function.update_eq_self] at hruns₁
  set d := Program.replay (FlashState.step g) ⟨m₀, locked⟩ w with hd
  have hdevice : d = ⟨m₀, d.locked⟩ := by
    have hmem : d.mem = m₀ := replay_mem hw _
    rw [← hmem]
  -- the second program to its end
  have hother : Program.exec (FlashState.step g) (Function.update P a (.perform o' k) b) d
      = ⟨some (), ⟨m₂, true⟩, v ++ [.lock]⟩ := by
    rw [Function.update_of_ne hab.symm, hdevice]
    exact (exec_of_unlocks (h.unlocks b) m₀ d.locked).trans hv
  obtain ⟨h₂, hruns₂, -⟩ := runs_done (fun _ _ => True) ([] ++ h₁) hother (fun _ _ _ _ => trivial)
  -- and now the first one writes
  have hprogram : Function.update (Function.update P a (.perform o' k)) b (.done ()) a
      = .perform o' k := by
    rw [Function.update_of_ne hab, Function.update_self]
  have hruns := (hruns₁.append hruns₂).append (.cons trivial (recorded_turn hprogram) .nil)
  refine ⟨_, _, hruns.run_eq_ok, fun hunlocked => ?_⟩
  exact absurd ((writesUnlocked_concat.mp hunlocked).2 ho) (by simp)

end Alone

end FlashTurns
