import Mathlib.Data.List.Range
import Mathlib.Tactic

/-!
# Segments of a memory

A memory gives a value for each address. A segment is the list of the values from an
address up to, and without, another. Segments that follow each other are appended, and a
segment does not change where the memory does not.
-/

namespace MemorySegment

variable {α : Type}

/-- The values from `a` up to, and without, `b`. -/
def segment (memory : ℕ → α) (a b : ℕ) : List α := (List.range' a (b - a)).map memory

@[simp] theorem segment_self (memory : ℕ → α) (a : ℕ) : segment memory a a = [] := by
  simp [segment]

@[simp] theorem length_segment (memory : ℕ → α) (a b : ℕ) :
    (segment memory a b).length = b - a := by
  simp [segment]

theorem segment_cons {a b : ℕ} (h : a < b) (memory : ℕ → α) :
    segment memory a b = memory a :: segment memory (a + 1) b := by
  obtain ⟨n, rfl⟩ : ∃ n, b = a + 1 + n := ⟨b - (a + 1), by omega⟩
  unfold segment
  rw [show a + 1 + n - a = n + 1 by omega, show a + 1 + n - (a + 1) = n by omega,
    List.range'_succ, List.map_cons]

theorem segment_append {a b c : ℕ} (hab : a ≤ b) (hbc : b ≤ c) (memory : ℕ → α) :
    segment memory a b ++ segment memory b c = segment memory a c := by
  obtain ⟨m, rfl⟩ : ∃ m, b = a + m := ⟨b - a, by omega⟩
  obtain ⟨n, rfl⟩ : ∃ n, c = a + m + n := ⟨c - (a + m), by omega⟩
  unfold segment
  rw [← List.map_append, show a + m - a = m by omega, show a + m + n - (a + m) = n by omega,
    show a + m + n - a = m + n by omega, List.range'_append_1]

theorem segment_congr {memory memory' : ℕ → α} {a b : ℕ}
    (h : ∀ i, a ≤ i → i < b → memory i = memory' i) : segment memory a b = segment memory' a b := by
  refine List.map_congr_left (fun i hi => ?_)
  rw [List.mem_range'_1] at hi
  exact h i hi.1 (by omega)

/-- Two memories with the same values, each from its own address on. -/
theorem segment_shift {memory memory' : ℕ → α} {a b m : ℕ}
    (h : ∀ i < m, memory (a + i) = memory' (b + i)) :
    segment memory a (a + m) = segment memory' b (b + m) := by
  refine List.ext_getElem (by simp) (fun i h₁ h₂ => ?_)
  rw [length_segment] at h₁
  simp only [segment, List.getElem_map, List.getElem_range', one_mul]
  exact h i (by omega)

theorem segment_map (memory : ℕ → α) (f : α → α) (a b : ℕ) :
    segment (fun i => f (memory i)) a b = (segment memory a b).map f := by
  unfold segment
  rw [List.map_map]
  rfl

/-- The first values of a segment. -/
theorem take_segment {a b : ℕ} (memory : ℕ → α) {n : ℕ} (h : a + n ≤ b) :
    (segment memory a b).take n = segment memory a (a + n) := by
  rw [← segment_append (Nat.le_add_right a n) h, List.take_left' (by simp)]

/-- The last values of a segment. -/
theorem drop_segment {a b : ℕ} (memory : ℕ → α) {n : ℕ} (h : a + n ≤ b) :
    (segment memory a b).drop n = segment memory (a + n) b := by
  rw [← segment_append (Nat.le_add_right a n) h, List.drop_left' (by simp)]

/-- Cutting off as many values as there are, or more than that. -/
theorem take_drop_segment {a b : ℕ} (memory : ℕ → α) (hab : a ≤ b) (n : ℕ) :
    (segment memory a b).take n = segment memory a (a + min n (b - a))
      ∧ (segment memory a b).drop n = segment memory (a + min n (b - a)) b := by
  by_cases hn : n ≤ b - a
  · rw [min_eq_left hn]
    exact ⟨take_segment memory (by omega), drop_segment memory (by omega)⟩
  · have hlength : (segment memory a b).length ≤ n := by
      rw [length_segment]
      omega
    rw [min_eq_right (by omega), Nat.add_sub_cancel' hab, segment_self]
    exact ⟨List.take_of_length_le hlength, List.drop_eq_nil_of_le hlength⟩

end MemorySegment
