import EpuckFirmware.StepMachine
import Mathlib.Tactic

/-!
# Counting loops

The loop `for (i = 0; i < n; i += stride)`, the body of which may fail, is a run of
its body over the values of `i`. An invariant is stated for the number of turns that
were taken: it gives the state after the last one (`loop_ok`), or shows that the loop
fails in a certain turn (`loop_error`).
-/

namespace CountingLoop

open StepMachine

variable {σ ε : Type}

/-- The number of turns that the loop takes. -/
def turns (stride n : ℕ) : ℕ := (n + stride - 1) / stride

/-- The values of `i`. -/
def indices (stride n : ℕ) : List ℕ := (List.range (turns stride n)).map (stride * ·)

/-- `for (i = 0; i < n; i += stride)`, from the state `s` on. -/
def loop (body : σ → ℕ → Except ε σ) (stride n : ℕ) (s : σ) : Except ε σ :=
  run body s (indices stride n)

variable {stride n : ℕ}

/-- A turn is taken as long as `i` is below the bound. -/
theorem lt_turns (hstride : 0 < stride) (k : ℕ) : k < turns stride n ↔ stride * k < n := by
  have hiff : k < turns stride n ↔ (k + 1) * stride ≤ n + stride - 1 :=
    Nat.le_div_iff_mul_le hstride
  have hcomm : (k + 1) * stride = stride * k + stride := by ring
  rw [hiff, hcomm]
  omega

/-- **The values of `i`** are the multiples of the stride below the bound. -/
theorem mem_indices (hstride : 0 < stride) (i : ℕ) :
    i ∈ indices stride n ↔ stride ∣ i ∧ i < n := by
  rw [indices, List.mem_map]
  constructor
  · rintro ⟨k, hk, rfl⟩
    exact ⟨Dvd.intro k rfl, (lt_turns hstride k).mp (List.mem_range.mp hk)⟩
  · rintro ⟨⟨k, rfl⟩, hk⟩
    exact ⟨k, List.mem_range.mpr ((lt_turns hstride k).mpr hk), rfl⟩

@[simp] theorem turns_one (n : ℕ) : turns 1 n = n := by
  rw [turns, Nat.div_one, Nat.add_sub_cancel]

section Rules

variable {body : σ → ℕ → Except ε σ} {Inv : ℕ → σ → Prop} {s : σ}

/-- The state after the first `count` turns, the turns before which keep the invariant. -/
theorem exists_run_range (count : ℕ) (hinit : Inv 0 s)
    (hturn : ∀ k < count, ∀ t, Inv k t → ∃ t', body t (stride * k) = .ok t' ∧ Inv (k + 1) t') :
    ∃ t, run body s ((List.range count).map (stride * ·)) = .ok t ∧ Inv count t := by
  induction count with
  | zero => exact ⟨s, rfl, hinit⟩
  | succ count ih =>
    obtain ⟨t, hrun, ht⟩ := ih (fun k hk => hturn k (Nat.lt_succ_of_lt hk))
    obtain ⟨t', hlast, ht'⟩ := hturn count (Nat.lt_succ_self count) t ht
    refine ⟨t', ?_, ht'⟩
    rw [List.range_succ, List.map_append, run_append hrun]
    exact run_cons_of_step hlast []

/-- **An invariant that every turn keeps** holds at the end. -/
theorem loop_ok (hstride : 0 < stride) (hinit : Inv 0 s)
    (hturn : ∀ k, stride * k < n → ∀ t, Inv k t →
      ∃ t', body t (stride * k) = .ok t' ∧ Inv (k + 1) t') :
    ∃ t, loop body stride n s = .ok t ∧ Inv (turns stride n) t :=
  exists_run_range (turns stride n) hinit
    (fun k hk => hturn k ((lt_turns hstride k).mp hk))

/-- **A loop fails** in the turn in which its body does. -/
theorem loop_error (hstride : 0 < stride) (hinit : Inv 0 s) {m : ℕ} (hm : stride * m < n)
    (hturn : ∀ k < m, ∀ t, Inv k t → ∃ t', body t (stride * k) = .ok t' ∧ Inv (k + 1) t')
    (hfail : ∀ t, Inv m t → ∃ e, body t (stride * m) = .error e) :
    ∃ e, loop body stride n s = .error e := by
  obtain ⟨t, hrun, ht⟩ := exists_run_range m hinit hturn
  obtain ⟨e, he⟩ := hfail t ht
  have hle : m + 1 ≤ turns stride n := (lt_turns hstride m).mpr hm
  obtain ⟨rest, hrest⟩ : ∃ rest, turns stride n = m + (1 + rest) :=
    ⟨turns stride n - (m + 1), by omega⟩
  refine ⟨e, ?_⟩
  rw [loop, indices, hrest, List.range_add, List.map_append, run_append hrun,
    Nat.add_comm 1 rest, List.range_succ_eq_map, List.map_cons, List.map_cons]
  exact run_cons_of_error he _

/-- The loop over all numbers below the bound. -/
theorem loop_one_ok (hinit : Inv 0 s)
    (hturn : ∀ k < n, ∀ t, Inv k t → ∃ t', body t k = .ok t' ∧ Inv (k + 1) t') :
    ∃ t, loop body 1 n s = .ok t ∧ Inv n t := by
  obtain ⟨t, hloop, ht⟩ : ∃ t, loop body 1 n s = .ok t ∧ Inv (turns 1 n) t :=
    loop_ok Nat.one_pos hinit (fun k hk t ht => by
      rw [Nat.one_mul] at hk ⊢
      exact hturn k hk t ht)
  rw [turns_one] at ht
  exact ⟨t, hloop, ht⟩

theorem loop_one_error (hinit : Inv 0 s) {m : ℕ} (hm : m < n)
    (hturn : ∀ k < m, ∀ t, Inv k t → ∃ t', body t k = .ok t' ∧ Inv (k + 1) t')
    (hfail : ∀ t, Inv m t → ∃ e, body t m = .error e) :
    ∃ e, loop body 1 n s = .error e := by
  rw [← Nat.one_mul m] at hm
  refine loop_error Nat.one_pos hinit hm (fun k hk t ht => ?_) (fun t ht => ?_)
  · rw [Nat.one_mul]
    exact hturn k hk t ht
  · rw [Nat.one_mul]
    exact hfail t ht

end Rules

end CountingLoop
