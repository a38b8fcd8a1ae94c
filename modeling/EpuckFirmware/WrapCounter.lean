import Mathlib.Algebra.Order.Group.Unbundled.Int
import Mathlib.Tactic

/-!
# Counters that wrap

A quantity is read through a counter that holds it modulo `m`. Between two readings
it moved by the *balanced residue* of their difference, provided that it moved by
less than half a turn (`delta_reading`). The deltas add up to how far the quantity
moved, however often the counter wrapped on the way (`displacement_eq`).
-/

namespace WrapCounter

/-- The balanced residue of the difference of two readings. -/
def delta (m : ℕ) (old new : ℤ) : ℤ := (new - old).bmod m

/-- The sum of the first `n` deltas. -/
def displacement (m : ℕ) (reading : ℕ → ℤ) : ℕ → ℤ
  | 0 => 0
  | n + 1 => displacement m reading n + delta m (reading n) (reading (n + 1))

theorem delta_eq_of_range {m : ℕ} {old new : ℤ} (hlow : -(m : ℤ) ≤ 2 * (new - old))
    (hhigh : 2 * (new - old) < m) : delta m old new = new - old :=
  Int.bmod_eq_of_le (by omega) (by omega)

/-- **Less than half a turn is seen through the readings.** -/
theorem delta_reading {m : ℕ} {p q : ℤ} (hlow : -(m : ℤ) ≤ 2 * (q - p))
    (hhigh : 2 * (q - p) < m) : delta m (p % m) (q % m) = q - p := by
  rw [← delta_eq_of_range hlow hhigh]
  show (q % (m : ℤ) - p % (m : ℤ)).bmod m = (q - p).bmod m
  rw [Int.emod_sub_bmod, Int.sub_emod_bmod]

/-- **The deltas add up.** -/
theorem displacement_eq {m : ℕ} {p : ℕ → ℤ} {n : ℕ}
    (h : ∀ k < n, -(m : ℤ) ≤ 2 * (p (k + 1) - p k) ∧ 2 * (p (k + 1) - p k) < m) :
    displacement m (fun k => p k % m) n = p n - p 0 := by
  induction n with
  | zero => exact (sub_self _).symm
  | succ n ih =>
    obtain ⟨hlow, hhigh⟩ := h n (Nat.lt_succ_self n)
    rw [displacement, ih (fun k hk => h k (Nat.lt_succ_of_lt hk)), delta_reading hlow hhigh]
    ring

end WrapCounter
