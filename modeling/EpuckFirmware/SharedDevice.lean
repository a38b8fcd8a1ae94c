import EpuckFirmware.History
import EpuckFirmware.Program

/-!
# Programs that share a device

Several programs run on one device, one operation of one of them at a time, in any order.
The history says who performed which operation, and in which state the device was. A
program of which only the next operations are performed does what it does on its own
(`Shared.runs_alone`).
-/

open StepMachine History

variable {Op : Type} {Reply : Op → Type} {α σ ι : Type}

/-- The operation that a program performs next. -/
def Program.next : Program Reply α → Option Op
  | .perform o _ => some o
  | _ => none

/-- What a program does that performs an operation. -/
theorem Program.exec_perform_eq {step : σ → (o : Op) → Reply o × σ} {o : Op}
    {k : Reply o → Program Reply α} {s d : σ} {a : Option α} {t : List Op} :
    Program.exec step (.perform o k) s = ⟨a, d, t⟩
      ↔ ∃ t', t = o :: t' ∧ Program.exec step (k (step s o).1) (step s o).2 = ⟨a, d, t'⟩ := by
  constructor
  · intro h
    cases h
    exact ⟨_, rfl, rfl⟩
  · rintro ⟨t', rfl, h⟩
    rw [Program.exec, h]

/-- **A device and the programs that run on it.** -/
structure Shared (Reply : Op → Type) (α σ ι : Type) where
  device : σ
  program : ι → Program Reply α

/-- An operation that was performed. -/
structure Performed (Op σ ι : Type) where
  who : ι
  op : Op
  /-- The device before. -/
  before : σ

namespace Shared

variable [DecidableEq ι] (step : σ → (o : Op) → Reply o × σ)

/-- The device and the programs after one of them performed an operation. -/
def after (s : Shared Reply α σ ι) (who : ι) (o : Op) (k : Reply o → Program Reply α) :
    Shared Reply α σ ι :=
  ⟨(step s.device o).2, Function.update s.program who (k (step s.device o).1)⟩

/-- **One operation of one program.** A program that stopped performs none. -/
def turn (s : Shared Reply α σ ι) (who : ι) : Except Unit (Shared Reply α σ ι) :=
  match s.program who with
  | .perform o k => .ok (s.after step who o k)
  | _ => .error ()

omit [DecidableEq ι] in
/-- What a turn performs. -/
def shows (s : Shared Reply α σ ι) (who : ι) : List (Performed Op σ ι) :=
  match s.program who with
  | .perform o _ => [⟨who, o, s.device⟩]
  | _ => []

/-- The programs and what they did. -/
abbrev Recorded (Reply : Op → Type) (α σ ι : Type) :=
  Shared Reply α σ ι × List (Performed Op σ ι)

variable {step}

@[simp] theorem after_self (s : Shared Reply α σ ι) (who : ι) (o : Op)
    (k : Reply o → Program Reply α) :
    (s.after step who o k).program who = k (step s.device o).1 :=
  Function.update_self _ _ _

theorem after_of_ne (s : Shared Reply α σ ι) {who other : ι} (hne : other ≠ who) (o : Op)
    (k : Reply o → Program Reply α) :
    (s.after step who o k).program other = s.program other :=
  Function.update_of_ne hne _ _

/-- A turn with its history. -/
theorem recorded_turn {s : Shared Reply α σ ι} {h : List (Performed Op σ ι)} {who : ι} {o : Op}
    {k : Reply o → Program Reply α} (hprogram : s.program who = .perform o k) :
    recorded (turn step) shows (s, h) who
      = .ok (s.after step who o k, h ++ [⟨who, o, s.device⟩]) := by
  refine recorded_eq_ok.mpr ⟨?_, ?_⟩
  · unfold turn
    rw [hprogram]
  · unfold shows
    rw [hprogram]

/-- **Only a program that did not stop takes a turn.** -/
theorem perform_of_recorded_turn {s : Shared Reply α σ ι} {h : List (Performed Op σ ι)}
    {who : ι} {s' : Recorded Reply α σ ι} (hturn : recorded (turn step) shows (s, h) who = .ok s') :
    ∃ o k, s.program who = .perform o k
      ∧ s' = (s.after step who o k, h ++ [⟨who, o, s.device⟩]) := by
  cases hprogram : s.program who with
  | perform o k =>
    rw [recorded_turn hprogram] at hturn
    exact ⟨o, k, rfl, (Except.ok.inj hturn).symm⟩
  | done a =>
    have hone : s.turn step who = .ok s'.1 := (recorded_eq_ok.mp hturn).1
    unfold turn at hone
    rw [hprogram] at hone
    cases hone
  | timeout =>
    have hone : s.turn step who = .ok s'.1 := (recorded_eq_ok.mp hturn).1
    unfold turn at hone
    rw [hprogram] at hone
    cases hone

/-- A program that performs nothing more and has a result is done. -/
theorem eq_done_of_exec {p : Program Reply α} {d d' : σ} {a : α}
    (h : Program.exec step p d = ⟨some a, d', []⟩) : p = .done a := by
  cases p with
  | done b =>
    cases h
    rfl
  | perform o k =>
    obtain ⟨t, ht, -⟩ := Program.exec_perform_eq.mp h
    cases ht
  | timeout => cases h

/-- **A program that is let run alone** performs the first operations of its trace, and what is
left performs the others. -/
theorem runs_alone (cond : Recorded Reply α σ ι → ι → Prop) (f : ι → Program Reply α) (who : ι)
    (h : List (Performed Op σ ι)) {w v : List Op} {p : Program Reply α} {d : σ}
    (htrace : (Program.exec step p d).trace = w ++ v)
    (hcond : ∀ d' p' h', (∀ e ∈ h', e.who = who) →
      cond (⟨d', Function.update f who p'⟩, h ++ h') who) :
    ∃ p' h', Runs (recorded (turn step) shows) cond (⟨d, Function.update f who p⟩, h)
        (List.replicate w.length who)
        (⟨Program.replay step d w, Function.update f who p'⟩, h ++ h')
      ∧ (∀ e ∈ h', e.who = who)
      ∧ Program.exec step p' (Program.replay step d w)
        = ⟨(Program.exec step p d).result, (Program.exec step p d).state, v⟩ := by
  induction w generalizing p d h with
  | nil =>
    refine ⟨p, [], ?_, by simp, ?_⟩
    · rw [List.append_nil]
      exact .nil
    · rw [← List.nil_append v, ← htrace]
      rfl
  | cons o w ih =>
    cases p with
    | done a => cases htrace
    | timeout => cases htrace
    | perform o' k =>
      obtain ⟨rfl, htail⟩ := List.cons.inj htrace
      set d₁ := (step d o').2 with hd₁
      set p₁ := k (step d o').1 with hp₁
      have hnext : ∀ d' p' h', (∀ e ∈ h', e.who = who) →
          cond (⟨d', Function.update f who p'⟩, (h ++ [⟨who, o', d⟩]) ++ h') who := by
        intro d' p' h' hh'
        rw [List.append_assoc]
        refine hcond d' p' _ (fun e he => ?_)
        rcases List.mem_append.mp he with he | he
        · rw [List.mem_singleton.mp he]
        · exact hh' e he
      obtain ⟨p', h', hruns, hwho, hexec⟩ := ih (h ++ [⟨who, o', d⟩]) htail hnext
      refine ⟨p', ⟨who, o', d⟩ :: h', ?_, ?_, hexec⟩
      · have hfirst : cond (⟨d, Function.update f who (.perform o' k)⟩, h) who := by
          have hnil := hcond d (.perform o' k) [] (by simp)
          rwa [List.append_nil] at hnil
        refine .cons hfirst (recorded_turn (Function.update_self _ _ _)) ?_
        rw [List.append_cons h _ h']
        unfold after
        rw [Function.update_idem]
        exact hruns
      · intro e he
        rcases List.mem_cons.mp he with rfl | he
        · rfl
        · exact hwho e he

/-- **A program that is let run to its end.** -/
theorem runs_done (cond : Recorded Reply α σ ι → ι → Prop) {f : ι → Program Reply α} {who : ι}
    (h : List (Performed Op σ ι)) {d d' : σ} {a : α} {t : List Op}
    (hexec : Program.exec step (f who) d = ⟨some a, d', t⟩)
    (hcond : ∀ d p h', (∀ e ∈ h', e.who = who) →
      cond (⟨d, Function.update f who p⟩, h ++ h') who) :
    ∃ h', Runs (recorded (turn step) shows) cond (⟨d, f⟩, h) (List.replicate t.length who)
        (⟨d', Function.update f who (.done a)⟩, h ++ h')
      ∧ ∀ e ∈ h', e.who = who := by
  have htrace : (Program.exec step (f who) d).trace = t ++ [] := by
    rw [hexec, List.append_nil]
  have hstate : Program.replay step d t = d' := by
    have hreplay := Program.exec_state_eq_replay step (f who) d
    rw [hexec] at hreplay
    exact hreplay.symm
  obtain ⟨p', h', hruns, hwho, hrest⟩ := runs_alone cond f who h htrace hcond
  rw [hexec] at hrest
  rw [eq_done_of_exec hrest, hstate, Function.update_eq_self] at hruns
  exact ⟨h', hruns, hwho⟩

end Shared
