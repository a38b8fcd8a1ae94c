import Mathlib.Tactic

/-!
# Consecutive ranges

A list of sizes cuts a range of numbers into consecutive ranges, numbered in their
order. A number below the sum of the sizes is in exactly one of them, and a larger
number in none before it.
-/

namespace ConsecutiveRanges

variable {M : Type} [AddCommMonoid M] [LinearOrder M] [CanonicallyOrderedAdd M]
variable {sizes : List M} {i j : ℕ} {a b : M}

/-- Where a range starts. -/
def start (sizes : List M) (i : ℕ) : M := (sizes.take i).sum

/-- The number is in the range. -/
structure Contains (sizes : List M) (i : ℕ) (a : M) : Prop where
  start_le : start sizes i ≤ a
  lt_start : a < start sizes (i + 1)

instance (sizes : List M) (i : ℕ) (a : M) : Decidable (Contains sizes i a) :=
  decidable_of_iff (start sizes i ≤ a ∧ a < start sizes (i + 1))
    ⟨fun h => ⟨h.1, h.2⟩, fun h => ⟨h.start_le, h.lt_start⟩⟩

omit [LinearOrder M] [CanonicallyOrderedAdd M] in
theorem start_length (sizes : List M) : start sizes sizes.length = sizes.sum := by
  rw [start, List.take_length]

theorem start_mono (sizes : List M) : Monotone (start sizes) := by
  refine monotone_nat_of_le_succ (fun i => ?_)
  unfold start
  rw [List.take_add_one, List.sum_append]
  exact le_self_add

/-- **A larger number is in no range before.** -/
theorem Contains.le_of_le (ha : Contains sizes i a) (hb : Contains sizes j b) (hab : a ≤ b) :
    i ≤ j := by
  by_contra hlt
  have hstart : start sizes (j + 1) ≤ start sizes i := start_mono sizes (by omega)
  have hlt' : b < a := (hb.lt_start.trans_le hstart).trans_le ha.start_le
  exact absurd hab (not_le_of_gt hlt')

/-- **A number is in one range only.** -/
theorem Contains.unique (hi : Contains sizes i a) (hj : Contains sizes j a) : i = j :=
  le_antisymm (hi.le_of_le hj le_rfl) (hj.le_of_le hi le_rfl)

/-- The numbers before a range are in the ranges before it. -/
theorem exists_contains (i : ℕ) (h : a < start sizes i) : ∃ j < i, Contains sizes j a := by
  induction i with
  | zero => exact absurd h (not_lt_of_ge (zero_le (a := a)))
  | succ i ih =>
    rcases lt_or_ge a (start sizes i) with hlt | hge
    · obtain ⟨j, hj, hcontains⟩ := ih hlt
      exact ⟨j, Nat.lt_succ_of_lt hj, hcontains⟩
    · exact ⟨i, Nat.lt_succ_self i, hge, h⟩

omit [CanonicallyOrderedAdd M] in
/-- There are as many ranges as sizes. -/
theorem Contains.lt_length (h : Contains sizes i a) : i < sizes.length := by
  by_contra hge
  have hstart : start sizes (i + 1) = start sizes i := by
    rw [start, start, List.take_of_length_le (by omega), List.take_of_length_le (by omega)]
  have hlt := h.lt_start
  rw [hstart] at hlt
  exact absurd h.start_le (not_le_of_gt hlt)

/-- **The ranges cover** the numbers below the sum of the sizes. -/
theorem exists_contains_iff : (∃ i, Contains sizes i a) ↔ a < sizes.sum := by
  rw [← start_length]
  constructor
  · rintro ⟨i, hi⟩
    exact hi.lt_start.trans_le (start_mono sizes hi.lt_length)
  · intro h
    obtain ⟨j, -, hj⟩ := exists_contains sizes.length h
    exact ⟨j, hj⟩

end ConsecutiveRanges
