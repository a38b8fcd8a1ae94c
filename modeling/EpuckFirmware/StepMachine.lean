import Mathlib.Data.List.Basic

/-!
# Runs of a machine whose steps may fail

A step takes a state and an input to a new state or fails. `StepMachine.run`
evaluates a list of inputs; `StepMachine.Runs` is the relation of the runs that
do not fail and in which every step is taken under a given condition. What one
step preserves, a run preserves (`Runs.invariant`), and a run that fails does so
at a step from a state it reached (`run_eq_error`).
-/

namespace StepMachine

variable {σ ι ε : Type} (step : σ → ι → Except ε σ)

/-- The run over a list of inputs. -/
def run : σ → List ι → Except ε σ
  | s, [] => .ok s
  | s, i :: is => (step s i).bind (fun s' => run s' is)

/-- How often the steps of a run were taken from a state and with an input of the
kind `p`. -/
def count (p : σ → ι → Bool) : σ → List ι → ℕ
  | _, [] => 0
  | s, i :: is =>
    (if p s i then 1 else 0) + (match step s i with
      | .ok s' => count p s' is
      | .error _ => 0)

/-- **The runs that do not fail**, each step taken from a state and with an input
that `cond` allows. -/
inductive Runs (cond : σ → ι → Prop) : σ → List ι → σ → Prop
  | nil {s : σ} : Runs cond s [] s
  | cons {s s' s'' : σ} {i : ι} {is : List ι} :
      cond s i → step s i = .ok s' → Runs cond s' is s'' → Runs cond s (i :: is) s''

variable {step}

@[simp] theorem run_nil (s : σ) : run step s [] = .ok s := rfl

theorem run_cons_of_step {s s' : σ} {i : ι} (h : step s i = .ok s') (is : List ι) :
    run step s (i :: is) = run step s' is := by
  show (step s i).bind _ = _
  rw [h]
  rfl

theorem count_cons_of_step {p : σ → ι → Bool} {s s' : σ} {i : ι} (h : step s i = .ok s')
    (is : List ι) :
    count step p s (i :: is) = (if p s i then 1 else 0) + count step p s' is := by
  unfold count
  rw [h]
  cases is <;> rfl

theorem run_cons_of_error {s : σ} {i : ι} {e : ε} (h : step s i = .error e) (is : List ι) :
    run step s (i :: is) = .error e := by
  show (step s i).bind _ = _
  rw [h]
  rfl

/-- A run over a nonempty list begins with a step. -/
theorem run_cons_eq_ok {s s'' : σ} {i : ι} {is : List ι}
    (h : run step s (i :: is) = .ok s'') :
    ∃ s', step s i = .ok s' ∧ run step s' is = .ok s'' := by
  cases hstep : step s i with
  | error e =>
    rw [run_cons_of_error hstep] at h
    exact absurd h (by simp)
  | ok s' => exact ⟨s', rfl, (run_cons_of_step hstep is).symm.trans h⟩

/-- A run over two lists of inputs goes on from where the first one led. -/
theorem run_append {s t : σ} {is : List ι} (h : run step s is = .ok t) (js : List ι) :
    run step s (is ++ js) = run step t js := by
  induction is generalizing s with
  | nil =>
    cases h
    rfl
  | cons i is ih =>
    obtain ⟨s', hstep, hrest⟩ := run_cons_eq_ok h
    rw [List.cons_append, run_cons_of_step hstep, ih hrest]

/-- **A run that fails** does so at a step from a state that it reached. -/
theorem run_eq_error {s : σ} {is : List ι} {e : ε} (h : run step s is = .error e) :
    ∃ js i ks s', is = js ++ i :: ks ∧ run step s js = .ok s' ∧ step s' i = .error e := by
  induction is generalizing s with
  | nil => exact absurd h (by simp)
  | cons i is ih =>
    cases hstep : step s i with
    | error e' =>
      rw [run_cons_of_error hstep] at h
      cases h
      exact ⟨[], i, is, s, rfl, rfl, hstep⟩
    | ok s' =>
      rw [run_cons_of_step hstep] at h
      obtain ⟨js, j, ks, t, rfl, hrun, hlast⟩ := ih h
      exact ⟨i :: js, j, ks, t, rfl, (run_cons_of_step hstep js).trans hrun, hlast⟩

namespace Runs

variable {cond : σ → ι → Prop}

/-- **What every step preserves, a run preserves.** -/
theorem invariant {P : σ → Prop}
    (hstep : ∀ s i s', P s → cond s i → step s i = .ok s' → P s')
    {s s' : σ} {is : List ι} (h : Runs step cond s is s') (hs : P s) : P s' := by
  induction h with
  | nil => exact hs
  | cons hcond hone _ ih => exact ih (hstep _ _ _ hs hcond hone)

/-- **A run is no longer than a measure that every step decreases**, as long as the steps
also preserve what they need for it. -/
theorem length_add_le {P : σ → Prop} (measure : σ → ℕ)
    (hstep : ∀ s i s', P s → cond s i → step s i = .ok s' → P s' ∧ measure s' < measure s)
    {s s' : σ} {is : List ι} (h : Runs step cond s is s') (hs : P s) :
    is.length + measure s' ≤ measure s := by
  induction h with
  | nil => exact Nat.le_of_eq (Nat.zero_add _)
  | cons hcond hone _ ih =>
    obtain ⟨hs', hlt⟩ := hstep _ _ _ hs hcond hone
    have hrest := ih hs'
    rw [List.length_cons]
    omega

theorem mono {cond' : σ → ι → Prop} (himp : ∀ s i, cond s i → cond' s i) {s s' : σ}
    {is : List ι} (h : Runs step cond s is s') : Runs step cond' s is s' := by
  induction h with
  | nil => exact nil
  | cons hcond hone _ ih => exact cons (himp _ _ hcond) hone ih

/-- A run to some state, after a step. -/
theorem exists_cons {P : σ → Prop} {s t : σ} {i : ι} {is : List ι} (hcond : cond s i)
    (hstep : step s i = .ok t) (h : ∃ s', Runs step cond t is s' ∧ P s') :
    ∃ s', Runs step cond s (i :: is) s' ∧ P s' := by
  obtain ⟨s', hruns, hs'⟩ := h
  exact ⟨s', cons hcond hstep hruns, hs'⟩

theorem run_eq_ok {s s' : σ} {is : List ι} (h : Runs step cond s is s') :
    run step s is = .ok s' := by
  induction h with
  | nil => rfl
  | cons _ hone _ ih => rw [run_cons_of_step hone, ih]

/-- A run that does not fail, without a condition on its steps. -/
theorem of_run {s s' : σ} {is : List ι} (hcond : ∀ s i, cond s i)
    (h : run step s is = .ok s') : Runs step cond s is s' := by
  induction is generalizing s with
  | nil =>
    cases h
    exact nil
  | cons i is ih =>
    obtain ⟨s₁, hstep, hrun⟩ := run_cons_eq_ok h
    exact cons (hcond _ _) hstep (ih hrun)

/-- A run followed by a run. -/
theorem append {s t s' : σ} {is js : List ι} (h : Runs step cond s is t)
    (h' : Runs step cond t js s') : Runs step cond s (is ++ js) s' := by
  induction h with
  | nil => exact h'
  | cons hcond hone _ ih => exact cons hcond hone (ih h')

/-- A run over two lists of inputs is a run over the first, followed by one over the
second. -/
theorem of_append {s s' : σ} {is js : List ι} (h : Runs step cond s (is ++ js) s') :
    ∃ t, Runs step cond s is t ∧ Runs step cond t js s' := by
  induction is generalizing s with
  | nil => exact ⟨s, nil, h⟩
  | cons i is ih =>
    cases h with
    | cons hcond hone hrest =>
      obtain ⟨t, hfirst, hsecond⟩ := ih hrest
      exact ⟨t, cons hcond hone hfirst, hsecond⟩

end Runs

/-- **Two runs show the same** if they start in related states and steps from related
states fail together or lead to related states. -/
theorem run_map_congr {β : Type} {R : σ → σ → Prop} {observe : σ → β}
    (hobserve : ∀ s t, R s t → observe s = observe t)
    (hstep : ∀ s t i, R s t → (∃ e, step s i = .error e ∧ step t i = .error e)
      ∨ ∃ s' t', step s i = .ok s' ∧ step t i = .ok t' ∧ R s' t')
    {s t : σ} (h : R s t) (is : List ι) :
    (run step s is).map observe = (run step t is).map observe := by
  induction is generalizing s t with
  | nil => exact congrArg Except.ok (hobserve s t h)
  | cons i is ih =>
    obtain ⟨e, hs, ht⟩ | ⟨s', t', hs, ht, hR⟩ := hstep s t i h
    · rw [run_cons_of_error hs, run_cons_of_error ht]
    · rw [run_cons_of_step hs, run_cons_of_step ht]
      exact ih hR

theorem map_eq_ok {α β : Type} {x : Except ε α} {f : α → β} {b : β} (h : x.map f = .ok b) :
    ∃ a, x = .ok a ∧ f a = b := by
  cases x with
  | error e => cases h
  | ok a => exact ⟨a, rfl, Except.ok.inj h⟩

/-- **What every step preserves holds in every state that is reached.** -/
theorem run_invariant {P : σ → Prop} (hstep : ∀ s i s', P s → step s i = .ok s' → P s')
    {s s' : σ} {is : List ι} (h : run step s is = .ok s') (hs : P s) : P s' := by
  have hruns : Runs step (fun _ _ => True) s is s' := Runs.of_run (fun _ _ => trivial) h
  exact hruns.invariant (fun s i s' hs _ hone => hstep s i s' hs hone) hs

/-- **A machine whose steps do not fail** from states that they keep has a run over every
list of inputs. -/
theorem run_total {P : σ → Prop} (hstep : ∀ s i, P s → ∃ s', step s i = .ok s' ∧ P s') {s : σ}
    (hs : P s) (is : List ι) : ∃ s', run step s is = .ok s' ∧ P s' := by
  induction is generalizing s with
  | nil => exact ⟨s, rfl, hs⟩
  | cons i is ih =>
    obtain ⟨t, hone, ht⟩ := hstep s i hs
    obtain ⟨s', hrest, hs'⟩ := ih ht
    exact ⟨s', (run_cons_of_step hone is).trans hrest, hs'⟩

/-- **A machine whose steps fail only in a known way** from states that they keep has a run
over every list of inputs, or one that a step of that kind ends. -/
theorem run_total_or_error {P : σ → Prop} {E : σ → ε → Prop}
    (hstep : ∀ s i, P s → (∃ s', step s i = .ok s' ∧ P s') ∨ ∃ e, step s i = .error e ∧ E s e)
    {s : σ} (hs : P s) (is : List ι) :
    (∃ s', run step s is = .ok s' ∧ P s')
      ∨ ∃ js i ks t e, is = js ++ i :: ks ∧ run step s js = .ok t ∧ P t
        ∧ step t i = .error e ∧ E t e := by
  induction is generalizing s with
  | nil => exact Or.inl ⟨s, rfl, hs⟩
  | cons i is ih =>
    obtain ⟨t, hone, ht⟩ | ⟨e, hone, he⟩ := hstep s i hs
    · obtain ⟨s', hrest, hs'⟩ | ⟨js, j, ks, t', e, rfl, hrest, ht', he⟩ := ih ht
      · exact Or.inl ⟨s', (run_cons_of_step hone is).trans hrest, hs'⟩
      · exact Or.inr ⟨i :: js, j, ks, t', e, rfl, (run_cons_of_step hone js).trans hrest, ht', he⟩
    · exact Or.inr ⟨[], i, is, s, e, rfl, rfl, hs, hone, he⟩

/-- **A machine gets to its goal** when from every state some allowed step brings it nearer:
in at most as many steps as the rank says. -/
theorem exists_run_of_rank {P Q : σ → Prop} {allowed : ι → Prop} (rank : σ → ℕ)
    (hstep : ∀ s, P s → ¬ Q s → ∃ i s', allowed i ∧ step s i = .ok s' ∧ P s' ∧ rank s' < rank s)
    {s : σ} (hs : P s) :
    ∃ is s', run step s is = .ok s' ∧ P s' ∧ Q s' ∧ is.length ≤ rank s ∧ ∀ i ∈ is, allowed i := by
  induction hn : rank s using Nat.strongRecOn generalizing s with
  | ind n ih =>
    by_cases hgoal : Q s
    · exact ⟨[], s, rfl, hs, hgoal, Nat.zero_le _, fun i hi => nomatch hi⟩
    · obtain ⟨i, t, hallowed, hone, ht, hlt⟩ := hstep s hs hgoal
      obtain ⟨is, s', hrun, hs', hQ, hlength, hall⟩ := ih _ (hn ▸ hlt) ht rfl
      refine ⟨i :: is, s', (run_cons_of_step hone is).trans hrun, hs', hQ, ?_, ?_⟩
      · rw [List.length_cons]
        omega
      · intro j hj
        obtain rfl | hj := List.mem_cons.mp hj
        · exact hallowed
        · exact hall j hj

end StepMachine
