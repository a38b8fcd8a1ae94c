import Mathlib.Data.List.Basic

/-!
# Programs over a device

A program that talks to a device is a tree: it either stops with a value, or
performs an operation of the device and goes on with the reply. Code with
unbounded loops is written with a fuel argument, and `Program.timeout` is where
the fuel ran out.

`Program.exec` runs a program on a device given by its step function. It gives
the result, the final state of the device and the *trace*, the operations in
the order they were performed – also those of a run that timed out. The trace
is what a statement about every intermediate state needs: a run cut short after
any number of operations leaves the device where `Program.replay` of a prefix of
the trace leaves it.

The rules at the end are the ones a proof about a longer program uses: what a
sequence does (`exec_bind`), and that a property of the operations holds of a
sequence as soon as it holds of its parts (`AllOps.bind`).
-/

variable {Op : Type} {Reply : Op → Type} {α β σ : Type}

/-- **A program over a device** with operations `Op`, each with its own type of
replies. -/
inductive Program (Reply : Op → Type) (α : Type) where
  /-- The program stops with a value. -/
  | done (a : α)
  /-- The program performs an operation and goes on with the reply. -/
  | perform (o : Op) (k : Reply o → Program Reply α)
  /-- The fuel of a loop ran out. -/
  | timeout

/-- What running a program gives: its result, unless it timed out, the state it
leaves the device in and the operations it performed. -/
structure Outcome (Op σ α : Type) where
  /-- The value the program stopped with. -/
  result : Option α
  /-- The device afterwards. -/
  state : σ
  /-- The operations performed, in order. -/
  trace : List Op

/-- An outcome continued by a run that starts from its value and state. A run
that timed out is not continued. -/
def Outcome.andThen (x : Outcome Op σ α) (f : α → σ → Outcome Op σ β) :
    Outcome Op σ β :=
  match x.result with
  | some a =>
    ⟨(f a x.state).result, (f a x.state).state, x.trace ++ (f a x.state).trace⟩
  | none => ⟨none, x.state, x.trace⟩

@[simp] theorem Outcome.andThen_some (a : α) (s : σ) (t : List Op)
    (f : α → σ → Outcome Op σ β) :
    (⟨some a, s, t⟩ : Outcome Op σ α).andThen f
      = ⟨(f a s).result, (f a s).state, t ++ (f a s).trace⟩ := rfl

/-- The result of a continued run. -/
theorem Outcome.result_andThen {x : Outcome Op σ α} {a : α} (h : x.result = some a)
    (f : α → σ → Outcome Op σ β) : (x.andThen f).result = (f a x.state).result := by
  rw [Outcome.andThen, h]

@[simp] theorem Outcome.andThen_none (s : σ) (t : List Op)
    (f : α → σ → Outcome Op σ β) :
    (⟨none, s, t⟩ : Outcome Op σ α).andThen f = ⟨none, s, t⟩ := rfl

namespace Program

/-- Sequencing: the second program starts from the first one's value. -/
def bind : Program Reply α → (α → Program Reply β) → Program Reply β
  | .done a, f => f a
  | .perform o k, f => .perform o (fun r => (k r).bind f)
  | .timeout, _ => .timeout

instance : Monad (Program Reply) where
  pure := .done
  bind := Program.bind

/-- A single operation, whose value is the reply. -/
def op (o : Op) : Program Reply (Reply o) := .perform o .done

/-- **Running a program** on the device that answers with `step`. -/
def exec (step : σ → (o : Op) → Reply o × σ) :
    Program Reply α → σ → Outcome Op σ α
  | .done a, s => ⟨some a, s, []⟩
  | .perform o k, s =>
    ⟨(exec step (k (step s o).1) (step s o).2).result,
      (exec step (k (step s o).1) (step s o).2).state,
      o :: (exec step (k (step s o).1) (step s o).2).trace⟩
  | .timeout, s => ⟨none, s, []⟩

/-- The device after a list of operations, whatever it replied. -/
def replay (step : σ → (o : Op) → Reply o × σ) (s : σ) (os : List Op) : σ :=
  os.foldl (fun s o => (step s o).2) s

variable (step : σ → (o : Op) → Reply o × σ)

@[simp] theorem exec_pure (a : α) (s : σ) :
    exec step (pure a : Program Reply α) s = ⟨some a, s, []⟩ := rfl

@[simp] theorem exec_timeout (s : σ) :
    exec step (timeout : Program Reply α) s = ⟨none, s, []⟩ := rfl

@[simp] theorem exec_op (o : Op) (s : σ) :
    exec step (op o : Program Reply (Reply o)) s
      = ⟨some (step s o).1, (step s o).2, [o]⟩ := rfl

/-- **A sequence runs its parts one after the other.** -/
theorem exec_bind (p : Program Reply α) (f : α → Program Reply β) (s : σ) :
    exec step (p >>= f) s = (exec step p s).andThen (fun a => exec step (f a)) := by
  show exec step (p.bind f) s = _
  induction p generalizing s with
  | done a => rfl
  | timeout => rfl
  | perform o k ih =>
    rw [Program.bind, exec, ih, exec]
    cases h : (exec step (k (step s o).1) (step s o).2).result with
    | none => simp only [Outcome.andThen, h]
    | some a => simp only [Outcome.andThen, h, List.cons_append]

/-- The state a run ends in is the one its trace leads to. -/
theorem exec_state_eq_replay (p : Program Reply α) (s : σ) :
    (exec step p s).state = replay step s (exec step p s).trace := by
  induction p generalizing s with
  | done a => rfl
  | timeout => rfl
  | perform o k ih => exact ih _ _

/-! ## Properties of every operation of a run -/

/-- Every operation the run performs satisfies `P`. -/
def AllOps (P : Op → Prop) (p : Program Reply α) (s : σ) : Prop :=
  ∀ o ∈ (exec step p s).trace, P o

variable {step} {P : Op → Prop}

/-- A run known in full has the property as soon as its trace has. -/
theorem AllOps.of_exec {p : Program Reply α} {s : σ} {x : Outcome Op σ α}
    (h : exec step p s = x) (ht : ∀ o ∈ x.trace, P o) : AllOps step P p s := by
  unfold AllOps
  rw [h]
  exact ht

/-- **A sequence performs what its parts perform.** -/
theorem AllOps.bind {p : Program Reply α} {f : α → Program Reply β} {s : σ}
    (hp : AllOps step P p s)
    (hf : ∀ a s', (exec step p s).result = some a → (exec step p s).state = s' →
      AllOps step P (f a) s') :
    AllOps step P (p >>= f) s := by
  intro o ho
  rw [exec_bind] at ho
  unfold Outcome.andThen at ho
  cases hr : (exec step p s).result with
  | none =>
    rw [hr] at ho
    exact hp o ho
  | some a =>
    rw [hr] at ho
    rcases List.mem_append.mp ho with ho | ho
    · exact hp o ho
    · exact hf a _ hr rfl o ho

/-- What the first part of a sequence performs, the sequence performs. -/
theorem trace_subset_bind (p : Program Reply α) (f : α → Program Reply β) (s : σ)
    {o : Op} (ho : o ∈ (exec step p s).trace) :
    o ∈ (exec step (p >>= f) s).trace := by
  rw [exec_bind]
  unfold Outcome.andThen
  cases (exec step p s).result with
  | none => exact ho
  | some a => exact List.mem_append.mpr (Or.inl ho)

/-! ## What holds at the end of a run -/

variable (step P) in
/-- **The run ends**, with a value and a state that satisfy `Q`, and performs only
operations that satisfy `P`. -/
def Ends (p : Program Reply α) (s : σ) (Q : α → σ → Prop) : Prop :=
  ∃ a, (exec step p s).result = some a ∧ Q a (exec step p s).state ∧ AllOps step P p s

theorem Ends.pure {a : α} {s : σ} {Q : α → σ → Prop} (h : Q a s) :
    Ends step P (pure a : Program Reply α) s Q :=
  ⟨a, rfl, h, fun _ ho => nomatch ho⟩

theorem Ends.op {o : Op} {s : σ} {Q : Reply o → σ → Prop} (hP : P o)
    (h : Q (step s o).1 (step s o).2) : Ends step P (op o : Program Reply (Reply o)) s Q :=
  ⟨(step s o).1, rfl, h, fun _ ho => List.mem_singleton.mp ho ▸ hP⟩

/-- More is known of fewer runs: a stronger condition implies a weaker one. -/
theorem Ends.mono {p : Program Reply α} {s : σ} {Q R : α → σ → Prop} (h : Ends step P p s Q)
    (hQR : ∀ a s', Q a s' → R a s') : Ends step P p s R := by
  obtain ⟨a, hresult, hQ, hops⟩ := h
  exact ⟨a, hresult, hQR a _ hQ, hops⟩

/-- **A sequence ends** when its first part does and the second part ends from every
value and state that the first one may leave. -/
theorem Ends.bind {p : Program Reply α} {f : α → Program Reply β} {s : σ} {Q : α → σ → Prop}
    {R : β → σ → Prop} (hp : Ends step P p s Q)
    (hf : ∀ a s', Q a s' → Ends step P (f a) s' R) : Ends step P (p >>= f) s R := by
  obtain ⟨a, hresult, hQ, hops⟩ := hp
  obtain ⟨b, hresult', hR, hops'⟩ := hf a _ hQ
  refine ⟨b, ?_, ?_, hops.bind ?_⟩
  · rw [exec_bind, Outcome.result_andThen hresult]
    exact hresult'
  · rw [exec_bind, Outcome.andThen, hresult]
    exact hR
  · intro a' s' hresult'' hstate
    rw [hresult] at hresult''
    cases hresult''
    exact hstate ▸ hops'

end Program
