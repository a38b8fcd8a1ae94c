import EpuckFirmware.Program

/-!
# Carrying out a program on another device

A driver offers the operations of a device that does not exist as such: each is
carried out by a program for the device underneath. `Program.lower` replaces every
operation of a program by what carries it out.

`Program.Simulates` compares a run on the device underneath with a run on the
device that the driver offers. They give the same result, and whatever is seen of
the device underneath at some point of the run, after any number of its operations,
was to be seen of the other one at some point of its run. The last part is what
makes a run cut short underneath one that was cut short above.

A program that is written in terms of a driver is one that `Program.lower` makes of
some program of calls (`Program.Via`). This holds of a sequence as soon as it holds
of its parts.
-/

variable {Op Op' Call : Type} {Reply : Op → Type} {Reply' : Op' → Type}
  {Answer : Call → Type} {α β σ σ' ω : Type}

namespace Program

/-! ## Lowering -/

/-- **A program in which every operation is carried out by a program** for another
device. -/
def lower (impl : (c : Call) → Program Reply (Answer c)) : Program Answer α → Program Reply α
  | .done a => .done a
  | .perform c k => (impl c).bind (fun r => (k r).lower impl)
  | .timeout => .timeout

theorem bind_assoc (p : Program Reply α) (f : α → Program Reply β) {γ : Type}
    (g : β → Program Reply γ) :
    (p >>= f) >>= g = p >>= fun a => f a >>= g := by
  show (p.bind f).bind g = p.bind (fun a => (f a).bind g)
  induction p with
  | done a => rfl
  | timeout => rfl
  | perform o k ih => exact congrArg (perform o) (funext ih)

theorem bind_pure (p : Program Reply α) : p >>= pure = p := by
  show p.bind done = p
  induction p with
  | done a => rfl
  | timeout => rfl
  | perform o k ih => exact congrArg (perform o) (funext ih)

/-- **Sequences are carried out part by part.** -/
theorem lower_bind (impl : (c : Call) → Program Reply (Answer c)) (p : Program Answer α)
    (f : α → Program Answer β) :
    (p >>= f).lower impl = p.lower impl >>= fun a => (f a).lower impl := by
  show (p.bind f).lower impl = (p.lower impl).bind (fun a => (f a).lower impl)
  induction p with
  | done a => rfl
  | timeout => rfl
  | perform c k ih =>
    rw [bind, lower, lower, funext ih]
    exact (bind_assoc (impl c) _ _).symm

@[simp] theorem lower_op (impl : (c : Call) → Program Reply (Answer c)) (c : Call) :
    (op c : Program Answer (Answer c)).lower impl = impl c := bind_pure (impl c)

/-! ## Programs in terms of a driver -/

/-- The program is written in terms of the calls of a driver. -/
def Via (impl : (c : Call) → Program Reply (Answer c)) (p : Program Reply α) : Prop :=
  ∃ calls : Program Answer α, calls.lower impl = p

section Via

variable {impl : (c : Call) → Program Reply (Answer c)}

theorem Via.pure (a : α) : Via impl (pure a : Program Reply α) := ⟨.done a, rfl⟩

theorem Via.timeout : Via impl (timeout : Program Reply α) := ⟨.timeout, rfl⟩

theorem Via.call (c : Call) : Via impl (impl c) := ⟨op c, lower_op impl c⟩

/-- A sequence of programs in terms of a driver is one. -/
theorem Via.bind {p : Program Reply α} {f : α → Program Reply β} (hp : Via impl p)
    (hf : ∀ a, Via impl (f a)) : Via impl (p >>= f) := by
  obtain ⟨calls, rfl⟩ := hp
  choose next hnext using hf
  refine ⟨calls >>= next, ?_⟩
  rw [lower_bind]
  exact congrArg (calls.lower impl >>= ·) (funext hnext)

theorem Via.ite {c : Prop} [Decidable c] {p q : Program Reply α} (hp : Via impl p)
    (hq : Via impl q) : Via impl (if c then p else q) := by
  split
  · exact hp
  · exact hq

end Via

/-! ## Simulation -/

theorem replay_append (step : σ → (o : Op) → Reply o × σ) (s : σ) (os us : List Op) :
    replay step s (os ++ us) = replay step (replay step s os) us := List.foldl_append

/-- A run that is cut short within a sequence is cut in one of its parts. -/
theorem prefix_append {γ : Type} {t xs ys : List γ} (h : t <+: xs ++ ys) :
    t <+: xs ∨ ∃ u, u <+: ys ∧ t = xs ++ u := by
  obtain ⟨r, hr⟩ := h
  rcases List.append_eq_append_iff.mp hr with ⟨u, hu, -⟩ | ⟨u, hu, hv⟩
  · exact Or.inl ⟨u, hu.symm⟩
  · exact Or.inr ⟨u, ⟨r, hv.symm⟩, hu⟩

/-- What a sequence does whose first part ends. -/
theorem exec_bind_of_result {step : σ → (o : Op) → Reply o × σ} {p : Program Reply α}
    (f : α → Program Reply β) {s : σ} {a : α} (h : (exec step p s).result = some a) :
    exec step (p >>= f) s
      = ⟨(exec step (f a) (exec step p s).state).result,
          (exec step (f a) (exec step p s).state).state,
          (exec step p s).trace ++ (exec step (f a) (exec step p s).state).trace⟩ := by
  rw [exec_bind, Outcome.andThen, h]

section Simulates

variable (low : σ' → (o : Op') → Reply' o × σ') (up : σ → (o : Op) → Reply o × σ)
  (obs' : σ' → ω) (obs : σ → ω)

/-- **A run on one device simulates a run on another**, each from its state: they give
the same result, which together with the states at the end satisfies `Q`, and
whatever is seen in the course of the one is seen in the course of the other. -/
structure Simulates (s' : σ') (s : σ) (p : Program Reply' α) (q : Program Reply α)
    (Q : α → σ' → σ → Prop) : Prop where
  /-- The results are the same. -/
  result : (exec low p s').result = (exec up q s).result
  /-- The states at the end are related. -/
  state : ∀ a, (exec up q s).result = some a →
    Q a (exec low p s').state (exec up q s).state
  /-- Cut short anywhere, the run shows what the other one shows somewhere. -/
  seen : ∀ t', t' <+: (exec low p s').trace →
    ∃ t, t <+: (exec up q s).trace ∧ obs' (replay low s' t') = obs (replay up s t)

variable {low up obs' obs} {s' : σ'} {s : σ}

theorem Simulates.pure {a : α} {Q : α → σ' → σ → Prop} (hobs : obs' s' = obs s) (h : Q a s' s) :
    Simulates low up obs' obs s' s (pure a) (pure a) Q where
  result := rfl
  state b hb := by
    obtain rfl := Option.some.inj hb
    exact h
  seen t' ht' := by
    rw [List.prefix_nil.mp ht']
    exact ⟨[], List.nil_prefix, hobs⟩

theorem Simulates.timeout {Q : α → σ' → σ → Prop} (hobs : obs' s' = obs s) :
    Simulates low up obs' obs s' s timeout timeout Q where
  result := rfl
  state a hb := absurd hb (Option.some_ne_none a).symm
  seen t' ht' := by
    rw [List.prefix_nil.mp ht']
    exact ⟨[], List.nil_prefix, hobs⟩

/-- More is known of fewer states at the end. -/
theorem Simulates.mono {p : Program Reply' α} {q : Program Reply α} {Q R : α → σ' → σ → Prop}
    (h : Simulates low up obs' obs s' s p q Q) (hQR : ∀ a t' t, Q a t' t → R a t' t) :
    Simulates low up obs' obs s' s p q R :=
  ⟨h.result, fun a ha => hQR a _ _ (h.state a ha), h.seen⟩

/-- **An operation underneath that does not show** is one that the other run lacks. -/
theorem Simulates.access {o : Op'} {k : Reply' o → Program Reply' α} {q : Program Reply α}
    {Q : α → σ' → σ → Prop} (hobs : obs' s' = obs s)
    (h : Simulates low up obs' obs (low s' o).2 s (k (low s' o).1) q Q) :
    Simulates low up obs' obs s' s (perform o k) q Q where
  result := h.result
  state := h.state
  seen t' ht' := by
    cases t' with
    | nil => exact ⟨[], List.nil_prefix, hobs⟩
    | cons o₁ t' =>
      obtain ⟨rfl, ht'⟩ := List.cons_prefix_cons.mp ht'
      exact h.seen t' ht'

/-- **An operation of each device**, with the same reply. -/
theorem Simulates.both {o : Op'} {u : Op} {k : Reply' o → Program Reply' α}
    {l : Reply u → Program Reply α} {Q : α → σ' → σ → Prop} (hobs : obs' s' = obs s)
    (h : Simulates low up obs' obs (low s' o).2 (up s u).2 (k (low s' o).1) (l (up s u).1) Q) :
    Simulates low up obs' obs s' s (perform o k) (perform u l) Q where
  result := h.result
  state := h.state
  seen t' ht' := by
    cases t' with
    | nil => exact ⟨[], List.nil_prefix, hobs⟩
    | cons o₁ t' =>
      obtain ⟨rfl, ht'⟩ := List.cons_prefix_cons.mp ht'
      obtain ⟨t, ht, hseen⟩ := h.seen t' ht'
      exact ⟨u :: t, List.cons_prefix_cons.mpr ⟨rfl, ht⟩, hseen⟩

/-- **Sequences simulate each other part by part.** -/
theorem Simulates.bind {p : Program Reply' α} {q : Program Reply α} {f : α → Program Reply' β}
    {g : α → Program Reply β} {Q : α → σ' → σ → Prop} {R : β → σ' → σ → Prop}
    (h : Simulates low up obs' obs s' s p q Q)
    (hf : ∀ a t' t, Q a t' t → Simulates low up obs' obs t' t (f a) (g a) R) :
    Simulates low up obs' obs s' s (p >>= f) (q >>= g) R := by
  cases hr : (exec up q s).result with
  | none =>
    have hr' := h.result.trans hr
    refine ⟨?_, fun b hb => ?_, fun t' ht' => ?_⟩
    · rw [exec_bind, exec_bind, Outcome.andThen, Outcome.andThen, hr, hr']
    · rw [exec_bind, Outcome.andThen, hr] at hb
      exact absurd hb (Option.some_ne_none b).symm
    · rw [exec_bind, Outcome.andThen, hr'] at ht'
      rw [exec_bind, Outcome.andThen, hr]
      exact h.seen t' ht'
  | some a =>
    have hr' := h.result.trans hr
    have hrest := hf a _ _ (h.state a hr)
    refine ⟨?_, fun b hb => ?_, fun t' ht' => ?_⟩
    · rw [exec_bind_of_result f hr', exec_bind_of_result g hr]
      exact hrest.result
    · rw [exec_bind_of_result g hr] at hb
      rw [exec_bind_of_result f hr', exec_bind_of_result g hr]
      exact hrest.state b hb
    · rw [exec_bind_of_result f hr'] at ht'
      rw [exec_bind_of_result g hr]
      rcases prefix_append ht' with ht' | ⟨u', hu', rfl⟩
      · -- cut within the first part
        obtain ⟨t, ht, hseen⟩ := h.seen t' ht'
        exact ⟨t, ht.trans (List.prefix_append _ _), hseen⟩
      · -- cut within the second part
        obtain ⟨u, hu, hseen⟩ := hrest.seen u' hu'
        refine ⟨_ ++ u, List.prefix_append_right_inj _ |>.mpr hu, ?_⟩
        rw [replay_append, replay_append, ← exec_state_eq_replay, ← exec_state_eq_replay]
        exact hseen

/-- A first part that does not show. -/
theorem Simulates.bind_left {p : Program Reply' α} {a : α} {f : α → Program Reply' β}
    {q : Program Reply β} {Q : α → σ' → σ → Prop} {R : β → σ' → σ → Prop}
    (h : Simulates low up obs' obs s' s p (Pure.pure a) Q)
    (hf : ∀ t' t, Q a t' t → Simulates low up obs' obs t' t (f a) q R) :
    Simulates low up obs' obs s' s (p >>= f) q R := by
  have hrest : ∀ b t' t, (b = a ∧ Q b t' t) → Simulates low up obs' obs t' t (f b) q R := by
    rintro b t' t ⟨rfl, ht⟩
    exact hf t' t ht
  have h' : Simulates low up obs' obs s' s p (Pure.pure a) (fun b t' t => b = a ∧ Q b t' t) :=
    ⟨h.result, fun b hb => ⟨(Option.some.inj hb).symm, h.state b hb⟩, h.seen⟩
  exact h'.bind hrest

/-- A last part that does not show. -/
theorem Simulates.bind_right {p : Program Reply' α} {q : Program Reply α}
    {f : α → Program Reply' α} {Q R : α → σ' → σ → Prop}
    (h : Simulates low up obs' obs s' s p q Q)
    (hf : ∀ a t' t, Q a t' t → Simulates low up obs' obs t' t (f a) (Pure.pure a) R) :
    Simulates low up obs' obs s' s (p >>= f) q R := by
  rw [← bind_pure q]
  exact h.bind hf

/-- **What simulates each call simulates every program of calls**: related states lead
to related states. -/
theorem Simulates.lower {impl' : (c : Call) → Program Reply' (Answer c)}
    {impl : (c : Call) → Program Reply (Answer c)} {R : σ' → σ → Prop}
    (hobs : ∀ s' s, R s' s → obs' s' = obs s)
    (himpl : ∀ c s' s, R s' s → Simulates low up obs' obs s' s (impl' c) (impl c) (fun _ => R))
    (calls : Program Answer α) (h : R s' s) :
    Simulates low up obs' obs s' s (calls.lower impl') (calls.lower impl) (fun _ => R) := by
  induction calls generalizing s' s with
  | done a => exact Simulates.pure (hobs s' s h) h
  | timeout => exact Simulates.timeout (hobs s' s h)
  | perform c k ih => exact (himpl c s' s h).bind (fun r _ _ ht => ih r ht)

end Simulates

end Program
