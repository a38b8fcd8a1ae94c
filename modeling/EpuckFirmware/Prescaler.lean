import Mathlib.Data.List.Infix
import Mathlib.Tactic

/-!
# A prescaler

A counter that is incremented at every tick. When the ticks are enabled and the
counter has reached the divider, the prescaler fires and the counter starts again
from zero. While the ticks are not enabled the counter keeps growing.

A prescaler with divider `d` fires exactly once in `d` consecutive enabled ticks,
whatever the counter was before (`firings_enabled`), and its counter is bounded by
the divider and the longest time for which it was not enabled (`counter_le`).
-/

namespace Prescaler

variable (d : ℤ)

/-- Whether a tick makes the prescaler fire, `n` being the counter before it. -/
def fires (n : ℤ) (enabled : Bool) : Bool := enabled && decide (d ≤ n + 1)

/-- The counter after a tick. -/
def next (n : ℤ) (enabled : Bool) : ℤ := if fires d n enabled then 0 else n + 1

/-- The counter after a list of ticks. -/
def counter (n : ℤ) (ticks : List Bool) : ℤ := ticks.foldl (next d) n

/-- **The counter never overflows**: no tick finds it at the bound `m`. -/
def Fits (m n : ℤ) (ticks : List Bool) : Prop :=
  ∀ front t, front ++ [t] <+: ticks → counter d n front < m

/-- No more than `L` consecutive ticks are not enabled. -/
def WaitsAtMost (L : ℤ) (ticks : List Bool) : Prop :=
  ∀ k : ℕ, List.replicate k false <:+: ticks → (k : ℤ) ≤ L

/-- How often the prescaler fires in a list of ticks. -/
def firings : ℤ → List Bool → ℕ
  | _, [] => 0
  | n, t :: ticks => (if fires d n t then 1 else 0) + firings (next d n t) ticks

variable {d}

@[simp] theorem counter_nil (n : ℤ) : counter d n [] = n := rfl

theorem counter_cons (n : ℤ) (t : Bool) (ticks : List Bool) :
    counter d n (t :: ticks) = counter d (next d n t) ticks := rfl

theorem counter_append (n : ℤ) (front back : List Bool) :
    counter d n (front ++ back) = counter d (counter d n front) back :=
  List.foldl_append

theorem counter_snoc (n : ℤ) (ticks : List Bool) (t : Bool) :
    counter d n (ticks ++ [t]) = next d (counter d n ticks) t :=
  List.foldl_append

theorem next_disabled (n : ℤ) : next d n false = n + 1 := rfl

theorem fires_enabled (n : ℤ) : fires d n true = decide (d ≤ n + 1) := Bool.true_and _

theorem next_of_fires {n : ℤ} (h : d ≤ n + 1) : next d n true = 0 := by
  unfold next
  rw [fires_enabled, decide_eq_true h]
  rfl

theorem next_of_not_fires {n : ℤ} (h : n + 1 < d) : next d n true = n + 1 := by
  unfold next
  rw [fires_enabled, decide_eq_false (not_le_of_gt h)]
  rfl

/-- The next counter as a program computes it, testing the condition `p` that enables
the tick and the incremented counter. -/
theorem next_decide (n : ℤ) (p : Prop) [Decidable p] :
    next d n (decide p) = if p ∧ d ≤ n + 1 then 0 else n + 1 := by
  unfold next fires
  rw [← Bool.decide_and]
  by_cases h : p ∧ d ≤ n + 1
  · rw [decide_eq_true h, if_pos h, if_pos rfl]
  · rw [decide_eq_false h, if_neg h, if_neg Bool.false_ne_true]

theorem next_nonneg {n : ℤ} (h : 0 ≤ n) (t : Bool) : 0 ≤ next d n t := by
  unfold next
  split
  · exact le_refl 0
  · exact h.trans (Int.le.intro 1 rfl)

theorem counter_nonneg {n : ℤ} (h : 0 ≤ n) (ticks : List Bool) : 0 ≤ counter d n ticks := by
  induction ticks generalizing n with
  | nil => exact h
  | cons t ticks ih => exact ih (next_nonneg h t)

/-- While the ticks are not enabled, the counter counts them. -/
theorem counter_disabled (n : ℤ) (k : ℕ) : counter d n (List.replicate k false) = n + k := by
  induction k generalizing n with
  | zero => rw [List.replicate_zero, counter_nil, Nat.cast_zero, add_zero]
  | succ k ih => rw [List.replicate_succ, counter_cons, next_disabled, ih, Nat.cast_succ]; ring

/-- **Consecutive enabled ticks**, no more than the divider: the prescaler fires
once if the counter reaches the divider, and otherwise not at all. -/
theorem firings_enabled {n : ℤ} (h : 0 ≤ n) (k : ℕ) (hk : (k : ℤ) + 1 ≤ d) :
    firings d n (List.replicate (k + 1) true) = if d ≤ n + (k + 1) then 1 else 0 := by
  induction k generalizing n with
  | zero =>
    show (if fires d n true then 1 else 0) + 0 = _
    rw [fires_enabled]
    simp
  | succ k ih =>
    rw [Nat.cast_succ] at hk ⊢
    show (if fires d n true then 1 else 0)
      + firings d (next d n true) (List.replicate (k + 1) true) = _
    rw [fires_enabled]
    by_cases hd : d ≤ n + 1
    · -- it fires now, and the ticks that remain are too few for another time
      have hrest : ¬ d ≤ 0 + ((k : ℤ) + 1) := by omega
      have hall : d ≤ n + (k + 1 + 1) := by omega
      rw [next_of_fires hd, ih (le_refl 0) (by omega), decide_eq_true hd, if_neg hrest,
        if_pos hall]
      rfl
    · have hlt : n + 1 < d := lt_of_not_ge hd
      rw [next_of_not_fires hlt, ih (by omega) (by omega), decide_eq_false hd,
        show n + 1 + ((k : ℤ) + 1) = n + (k + 1 + 1) by ring]
      exact Nat.zero_add _

/-- **Exactly one firing** in as many consecutive enabled ticks as the divider says. -/
theorem firings_window {n : ℤ} (h : 0 ≤ n) {k : ℕ} (hk : 1 ≤ k) (hd : (k : ℤ) = d) :
    firings d n (List.replicate k true) = 1 := by
  obtain ⟨m, rfl⟩ : ∃ m, k = m + 1 := ⟨k - 1, by omega⟩
  rw [Nat.cast_succ] at hd
  rw [firings_enabled h m hd.le, if_pos (by omega)]

/-- The counter and the ticks that were last not enabled. -/
theorem counter_le_trailing (hd : 1 ≤ d) (ticks : List Bool) :
    ∃ k : ℕ, List.replicate k false <:+ ticks ∧ counter d 0 ticks ≤ d - 1 + k := by
  induction ticks using List.reverseRecOn with
  | nil => exact ⟨0, List.suffix_refl _, by rw [counter_nil]; omega⟩
  | append_singleton ticks t ih =>
    obtain ⟨k, hsuffix, hle⟩ := ih
    rw [counter_snoc]
    cases t with
    | false =>
      refine ⟨k + 1, ?_, ?_⟩
      · rw [List.replicate_succ']
        obtain ⟨front, rfl⟩ := hsuffix
        exact ⟨front, by rw [List.append_assoc]⟩
      · rw [next_disabled, Nat.cast_succ]
        omega
    | true =>
      -- an enabled tick leaves a counter below the divider
      refine ⟨0, List.nil_suffix, ?_⟩
      by_cases hfire : d ≤ counter d 0 ticks + 1
      · rw [next_of_fires hfire]
        omega
      · rw [next_of_not_fires (lt_of_not_ge hfire)]
        omega

/-- **The counter is bounded** by the divider and the longest stretch of ticks for
which the prescaler was not enabled. -/
theorem counter_le (hd : 1 ≤ d) {L : ℤ} {ticks : List Bool} (hL : WaitsAtMost L ticks)
    {front : List Bool} (hfront : front <+: ticks) : counter d 0 front ≤ d - 1 + L := by
  obtain ⟨k, hsuffix, hle⟩ := counter_le_trailing hd front
  have hk := hL k (hsuffix.isInfix.trans hfront.isInfix)
  omega

/-- Short stretches without an enabled tick leave room in the counter. -/
theorem fits_of_waitsAtMost (hd : 1 ≤ d) {m : ℤ} {ticks : List Bool}
    (h : WaitsAtMost (m - d) ticks) : Fits d m 0 ticks := by
  intro front t hfront
  have hle := counter_le hd h ((List.prefix_append front [t]).trans hfront)
  omega

theorem fits_nil (m n : ℤ) : Fits d m n [] := by
  intro front t hfront
  have hnil := List.prefix_nil.mp hfront
  exact absurd hnil (by simp)

theorem fits_cons {m n : ℤ} {t : Bool} {ticks : List Bool} :
    Fits d m n (t :: ticks) ↔ n < m ∧ Fits d m (next d n t) ticks := by
  constructor
  · intro h
    refine ⟨h [] t (List.prefix_append [t] ticks), fun front t' hfront => ?_⟩
    exact h (t :: front) t' (List.cons_prefix_cons.mpr ⟨rfl, hfront⟩)
  · rintro ⟨hn, h⟩ front t' hfront
    cases front with
    | nil => exact hn
    | cons b front =>
      obtain ⟨rfl, hrest⟩ := List.cons_prefix_cons.mp hfront
      exact h front t' hrest

/-- **A counter that never overflows** was not waiting for longer than its bound. -/
theorem waitsAtMost_of_fits {m n : ℤ} (hn : 0 ≤ n) (hm : 0 ≤ m) {ticks : List Bool}
    (h : Fits d m n ticks) : WaitsAtMost m ticks := by
  intro k hk
  cases k with
  | zero => exact hm
  | succ k =>
    obtain ⟨front, back, rfl⟩ := hk
    have hlt := h (front ++ List.replicate k false) false
      ⟨back, by rw [List.replicate_succ']; simp⟩
    rw [counter_append, counter_disabled] at hlt
    have hnonneg := counter_nonneg hn front (d := d)
    rw [Nat.cast_succ]
    omega

end Prescaler
