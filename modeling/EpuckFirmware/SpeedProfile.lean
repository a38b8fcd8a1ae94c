import Mathlib.Algebra.Order.Floor.Ring
import Mathlib.Algebra.Order.Floor.Semiring
import Mathlib.Data.Nat.Sqrt
import Mathlib.Tactic

/-!
# Speed profiles in whole steps

A body approaches a point in steps of unit time. Its speed is a whole number, no
greater than `M`, and changes by at most 1 in a step. It accelerates until the
distance that remains is at most the distance in which it can brake, `k ^ 2 / 2` at
speed `k`, and brakes from then on. From rest within `1 / 2` of the point it does not
start.

It brakes a little late, because it looks at the distance once a step. `overshoot`
says at which distance behind the point it comes to rest when it starts at rest at a
given distance, and the whole motion is the iteration of this map: the body settles
when some iterate is at most `1 / 2`, and swings forever when some iterate is in a
`Trapped` interval (`exists_settled`, `trapped_overshoot`).
-/

namespace SpeedProfile

variable {K : Type} [Field K] [LinearOrder K]

/-- One step of the profile, on the distance that remains (negative behind the point)
and the speed. -/
def step (M : ℕ) : K × ℕ → K × ℕ
  | (y, 0) => if |y| ≤ 1 / 2 then (y, 0) else (|y| - 1 / 2, 1)
  | (y, k + 1) =>
    if y ≤ ((k + 1 : ℕ) : K) ^ 2 / 2 then (y - (k + 1 : ℕ) + 1 / 2, k)
    else if M ≤ k + 1 then (y - (k + 1 : ℕ), k + 1)
    else (y - (k + 1 : ℕ) - 1 / 2, k + 2)

variable {M : ℕ}

theorem step_rest {y : K} (h : |y| ≤ 1 / 2) : step M (y, 0) = (y, 0) := if_pos h

theorem step_start {y : K} (h : 1 / 2 < |y|) : step M (y, 0) = (|y| - 1 / 2, 1) :=
  if_neg (not_le_of_gt h)

theorem step_brake {y : K} {k : ℕ} (h : y ≤ ((k + 1 : ℕ) : K) ^ 2 / 2) :
    step M (y, k + 1) = (y - (k + 1 : ℕ) + 1 / 2, k) :=
  if_pos h

theorem step_cruise {y : K} {k : ℕ} (h : ((k + 1 : ℕ) : K) ^ 2 / 2 < y) (hM : M ≤ k + 1) :
    step M (y, k + 1) = (y - (k + 1 : ℕ), k + 1) :=
  (if_neg (not_le_of_gt h)).trans (if_pos hM)

theorem step_accelerate {y : K} {k : ℕ} (h : ((k + 1 : ℕ) : K) ^ 2 / 2 < y) (hM : k + 1 < M) :
    step M (y, k + 1) = (y - (k + 1 : ℕ) - 1 / 2, k + 2) :=
  (if_neg (not_le_of_gt h)).trans (if_neg (not_le_of_gt hM))

/-! ## The phases of a motion -/

variable [IsStrictOrderedRing K]

theorem accelerate {d : K} (hd : 1 / 2 < d) {n : ℕ} (hn : n ≤ M)
    (hsq : ∀ i < n, (i : K) ^ 2 < d) : (step M)^[n] (d, 0) = (d - (n : K) ^ 2 / 2, n) := by
  induction n with
  | zero => simp
  | succ n ih =>
    rw [Function.iterate_succ_apply', ih (Nat.le_of_succ_le hn)
      (fun i hi => hsq i (Nat.lt_succ_of_lt hi))]
    cases n with
    | zero =>
      have hfirst : d - ((0 : ℕ) : K) ^ 2 / 2 = d := by norm_num
      have habs : |d| = d := abs_of_pos (by linarith)
      rw [hfirst, step_start (by rw [habs]; exact hd), habs]
      norm_num
    | succ k =>
      have hlt := hsq (k + 1) (Nat.lt_succ_self _)
      rw [step_accelerate (by linarith) hn]
      refine Prod.ext ?_ rfl
      push_cast
      ring

/-- At the greatest speed, as long as the body is too far away to brake. -/
theorem cruise (hM : 1 ≤ M) {y : K} {c : ℕ}
    (hfar : ∀ i < c, (M : K) ^ 2 / 2 < y - i * M) : (step M)^[c] (y, M) = (y - c * M, M) := by
  obtain ⟨m, rfl⟩ : ∃ m, M = m + 1 := ⟨M - 1, by omega⟩
  induction c with
  | zero => simp
  | succ c ih =>
    rw [Function.iterate_succ_apply', ih (fun i hi => hfar i (Nat.lt_succ_of_lt hi))]
    rw [step_cruise (hfar c (Nat.lt_succ_self c)) (le_refl _)]
    refine Prod.ext ?_ rfl
    push_cast
    ring

/-- **A body that brakes comes to rest**, half the square of its speed further on. -/
theorem brake {y : K} {k : ℕ} (hnear : y ≤ (k : K) ^ 2 / 2) :
    (step M)^[k] (y, k) = (y - (k : K) ^ 2 / 2, 0) := by
  induction k generalizing y with
  | zero => simp
  | succ k ih =>
    have hnear' : y - (k + 1 : ℕ) + 1 / 2 ≤ (k : K) ^ 2 / 2 := by
      push_cast at hnear ⊢
      linarith
    rw [Function.iterate_succ_apply, step_brake hnear, ih hnear']
    refine Prod.ext ?_ rfl
    push_cast
    ring

/-! ## The speed that is reached -/

variable [FloorRing K]

/-- The greatest speed of a motion over the distance `d`, if nothing limits it: the
least whole number whose square is at least `d`. -/
def peak (d : K) : ℕ := Nat.sqrt (⌈d⌉₊ - 1) + 1

/-- **Where a motion over the distance `d` ends**: how far behind the point the body
comes to rest. -/
def overshoot (M : ℕ) (d : K) : K :=
  if d ≤ (M : K) ^ 2 then (peak d : K) ^ 2 - d else M * ⌈d / M⌉₊ - d

/-- **The distances from which the body never settles**: twice as fast as a step can
stop, it comes to rest at `4 - d` behind the point and returns to `d`; likewise at
three times the speed. -/
def Trapped (M : ℕ) (d : K) : Prop :=
  2 ≤ M ∧ 1 < d ∧ d < 3 ∨ 3 ≤ M ∧ 4 < d ∧ d < 5

omit [IsStrictOrderedRing K] in
theorem lt_of_lt_peak {d : K} (hd : 0 < d) {i : ℕ} (hi : i < peak d) : (i : K) ^ 2 < d := by
  have hceil : 1 ≤ ⌈d⌉₊ := Nat.one_le_ceil_iff.mpr hd
  have hsqrt : i ≤ Nat.sqrt (⌈d⌉₊ - 1) := Nat.lt_succ_iff.mp hi
  have hlt : i ^ 2 < ⌈d⌉₊ := by
    have hle := Nat.le_sqrt'.mp hsqrt
    omega
  exact_mod_cast Nat.lt_ceil.mp hlt

theorem le_peak_sq (d : K) : d ≤ (peak d : K) ^ 2 := by
  have hlt : ⌈d⌉₊ - 1 < peak d ^ 2 := Nat.lt_succ_sqrt' _
  have hle : ⌈d⌉₊ ≤ peak d ^ 2 := by omega
  exact (Nat.le_ceil d).trans (by exact_mod_cast hle)

/-- The speed that is reached is the only one whose square is next to the distance. -/
theorem peak_eq {d : K} {n : ℕ} (hn : (n : K) ^ 2 < d) (hd : d ≤ ((n + 1 : ℕ) : K) ^ 2) :
    peak d = n + 1 := by
  have hpos : 0 < d := (sq_nonneg (n : K)).trans_lt hn
  refine le_antisymm (le_of_not_gt fun hlt => ?_) (Nat.succ_le_of_lt (lt_of_not_ge fun hle => ?_))
  · exact absurd hd (not_le_of_gt (lt_of_lt_peak hpos hlt))
  · have hsq : d ≤ (n : K) ^ 2 :=
      (le_peak_sq d).trans (pow_le_pow_left₀ (Nat.cast_nonneg _) (Nat.cast_le.mpr hle) 2)
    exact absurd hn (not_lt_of_ge hsq)

theorem peak_le_iff {d : K} (hd : 0 < d) : peak d ≤ M ↔ d ≤ (M : K) ^ 2 := by
  constructor
  · intro hle
    exact (le_peak_sq d).trans (pow_le_pow_left₀ (Nat.cast_nonneg _) (Nat.cast_le.mpr hle) 2)
  · intro hle
    by_contra hlt
    exact absurd hle (not_le_of_gt (lt_of_lt_peak hd (Nat.lt_of_not_le hlt)))

/-! ## From rest to rest -/

/-- A motion that does not reach the greatest speed. -/
theorem short_motion {d : K} (hd : 1 / 2 < d) (hM : d ≤ (M : K) ^ 2) :
    (step M)^[peak d + peak d] (d, 0) = (d - (peak d : K) ^ 2, 0) := by
  have hpos : 0 < d := by linarith
  have haccelerate : (step M)^[peak d] (d, 0) = (d - (peak d : K) ^ 2 / 2, peak d) :=
    accelerate hd ((peak_le_iff hpos).mpr hM) (fun i hi => lt_of_lt_peak hpos hi)
  have hnear : d - (peak d : K) ^ 2 / 2 ≤ (peak d : K) ^ 2 / 2 := by
    have hpeak := le_peak_sq d
    linarith
  rw [Function.iterate_add_apply, haccelerate, brake hnear]
  refine Prod.ext ?_ rfl
  show d - (peak d : K) ^ 2 / 2 - (peak d : K) ^ 2 / 2 = d - (peak d : K) ^ 2
  ring

/-- A motion that reaches the greatest speed, and cruises for `c` steps. -/
theorem long_motion (hM : 1 ≤ M) {d : K} (hd : (M : K) ^ 2 < d) {c : ℕ}
    (hc : ⌈d / (M : K)⌉₊ = M + c) :
    (step M)^[M + (c + M)] (d, 0) = (d - M * (M + c : ℕ), 0) := by
  have hM1 : (1 : K) ≤ M := Nat.one_le_cast.mpr hM
  have hM0 : (0 : K) < M := zero_lt_one.trans_le hM1
  have haccelerate : (step M)^[M] (d, 0) = (d - (M : K) ^ 2 / 2, M) := by
    refine accelerate (by nlinarith) (le_refl M) (fun i hi => lt_of_le_of_lt ?_ hd)
    exact pow_le_pow_left₀ (Nat.cast_nonneg _) (Nat.cast_le.mpr hi.le) 2
  have hcruise : (step M)^[c] (d - (M : K) ^ 2 / 2, M)
      = (d - (M : K) ^ 2 / 2 - c * M, M) := by
    refine cruise hM (fun i hi => ?_)
    have hceil : M + i < ⌈d / (M : K)⌉₊ := by
      rw [hc]
      exact Nat.add_lt_add_left hi M
    have hfar := Nat.lt_ceil.mp hceil
    rw [lt_div_iff₀ hM0] at hfar
    push_cast at hfar
    linarith
  have hnear : d - (M : K) ^ 2 / 2 - c * M ≤ (M : K) ^ 2 / 2 := by
    have hceil := Nat.le_ceil (d / (M : K))
    rw [div_le_iff₀ hM0, hc] at hceil
    push_cast at hceil
    linarith
  rw [Function.iterate_add_apply, Function.iterate_add_apply, haccelerate, hcruise, brake hnear]
  refine Prod.ext ?_ rfl
  push_cast
  ring

/-- **From rest to rest**: a motion ends at `overshoot` behind the point. -/
theorem rest_to_rest (hM : 1 ≤ M) {d : K} (hd : 1 / 2 < d) :
    ∃ n, 1 ≤ n ∧ (step M)^[n] (d, 0) = (-overshoot M d, 0) := by
  by_cases hle : d ≤ (M : K) ^ 2
  · refine ⟨peak d + peak d, (Nat.le_add_left 1 _).trans (Nat.le_add_right _ _), ?_⟩
    rw [short_motion hd hle, overshoot, if_pos hle, neg_sub]
  · have hlt : (M : K) ^ 2 < d := lt_of_not_ge hle
    have hceil : M ≤ ⌈d / (M : K)⌉₊ := by
      have hdiv : (M : K) ≤ d / M := by
        rw [le_div_iff₀ (Nat.cast_pos.mpr hM), ← sq]
        exact hlt.le
      exact_mod_cast hdiv.trans (Nat.le_ceil _)
    obtain ⟨c, hc⟩ := Nat.exists_eq_add_of_le hceil
    refine ⟨M + (c + M), hM.trans (Nat.le_add_right _ _), ?_⟩
    rw [long_motion hM hlt hc, overshoot, if_neg hle, hc, neg_sub]

/-! ## The distances at rest -/

theorem overshoot_of_sq {d : K} {n : ℕ} (hn : (n : K) ^ 2 < d)
    (hd : d ≤ ((n + 1 : ℕ) : K) ^ 2) (hM : n + 1 ≤ M) :
    overshoot M d = ((n + 1 : ℕ) : K) ^ 2 - d := by
  have hle : d ≤ (M : K) ^ 2 :=
    hd.trans (pow_le_pow_left₀ (Nat.cast_nonneg _) (Nat.cast_le.mpr hM) 2)
  rw [overshoot, if_pos hle, peak_eq hn hd]

/-- A body that cruised comes to rest within one step of the point. -/
theorem overshoot_of_long (hM : 1 ≤ M) {d : K} (hd : (M : K) ^ 2 < d) :
    0 ≤ overshoot M d ∧ overshoot M d < M := by
  have hM0 : (0 : K) < M := Nat.cast_pos.mpr hM
  have hpos : 0 ≤ d / (M : K) := div_nonneg ((sq_nonneg (M : K)).trans hd.le) hM0.le
  have hle := Nat.le_ceil (d / (M : K))
  have hlt := Nat.ceil_lt_add_one hpos
  rw [div_le_iff₀ hM0] at hle
  rw [div_add_one hM0.ne', lt_div_iff₀ hM0] at hlt
  rw [overshoot, if_neg (not_le_of_gt hd)]
  exact ⟨by linarith, by linarith⟩

theorem overshoot_nonneg (hM : 1 ≤ M) (d : K) : 0 ≤ overshoot M d := by
  by_cases hle : d ≤ (M : K) ^ 2
  · rw [overshoot, if_pos hle]
    exact sub_nonneg.mpr (le_peak_sq d)
  · exact (overshoot_of_long hM (lt_of_not_ge hle)).1

/-- A body that is at most one unit away stays there. -/
theorem overshoot_le_one (hM : 1 ≤ M) {d : K} (h0 : 0 ≤ d) (h1 : d ≤ 1) :
    overshoot M d ≤ 1 := by
  have hM1 : (1 : K) ≤ M := Nat.one_le_cast.mpr hM
  have hle : d ≤ (M : K) ^ 2 := h1.trans (one_le_pow₀ hM1)
  have hpeak : peak d = 1 := by
    have hceil : ⌈d⌉₊ ≤ 1 := Nat.ceil_le.mpr (by rw [Nat.cast_one]; exact h1)
    unfold peak
    rw [Nat.sub_eq_zero_of_le hceil]
    rfl
  rw [overshoot, if_pos hle, hpeak]
  norm_num
  exact h0

/-- **The trapped distances are exchanged by pairs.** -/
theorem trapped_overshoot {d : K} (h : Trapped M d) : Trapped M (overshoot M d) := by
  obtain ⟨hM, h1, h3⟩ | ⟨hM, h4, h5⟩ := h
  · rw [overshoot_of_sq (n := 1) (by norm_num; exact h1) (by norm_num; linarith) hM]
    exact Or.inl ⟨hM, by norm_num; linarith, by norm_num; linarith⟩
  · rw [overshoot_of_sq (n := 2) (by norm_num; exact h4) (by norm_num; linarith) hM]
    exact Or.inr ⟨hM, by norm_num; linarith, by norm_num; linarith⟩

theorem one_lt_of_trapped {d : K} (h : Trapped M d) : 1 < d := by
  obtain ⟨-, h1, -⟩ | ⟨-, h4, -⟩ := h
  · exact h1
  · linarith

theorem iterate_trapped {d : K} (h : Trapped M d) (j : ℕ) : Trapped M ((overshoot M)^[j] d) := by
  induction j with
  | zero => exact h
  | succ j ih =>
    rw [Function.iterate_succ_apply']
    exact trapped_overshoot ih

/-- An orbit that comes within one unit stays there. -/
theorem iterate_le_one (hM : 1 ≤ M) {d : K} (h0 : 0 ≤ d) (h1 : d ≤ 1) (j : ℕ) :
    (overshoot M)^[j] d ≤ 1 := by
  have hboth : 0 ≤ (overshoot M)^[j] d ∧ (overshoot M)^[j] d ≤ 1 := by
    induction j with
    | zero => exact ⟨h0, h1⟩
    | succ j ih =>
      rw [Function.iterate_succ_apply']
      exact ⟨overshoot_nonneg hM _, overshoot_le_one hM ih.1 ih.2⟩
  exact hboth.2

theorem iterate_nonneg (hM : 1 ≤ M) {d : K} (h0 : 0 ≤ d) (j : ℕ) :
    0 ≤ (overshoot M)^[j] d := by
  cases j with
  | zero => exact h0
  | succ j =>
    rw [Function.iterate_succ_apply']
    exact overshoot_nonneg hM _

/-- **An orbit that meets a trapped distance** is never at rest for good. -/
theorem half_lt_of_trapped (hM : 1 ≤ M) {d : K} (h0 : 0 ≤ d) {i : ℕ}
    (h : Trapped M ((overshoot M)^[i] d)) (j : ℕ) : 1 / 2 < (overshoot M)^[j] d := by
  by_contra hle
  have hj : (overshoot M)^[j] d ≤ 1 := (le_of_not_gt hle).trans (by norm_num)
  obtain ⟨k, rfl⟩ | ⟨k, rfl⟩ : (∃ k, i = k + j) ∨ ∃ k, j = k + i := by
    obtain hij | hij := le_total i j
    · exact Or.inr ⟨j - i, (Nat.sub_add_cancel hij).symm⟩
    · exact Or.inl ⟨i - j, (Nat.sub_add_cancel hij).symm⟩
  · rw [Function.iterate_add_apply] at h
    exact absurd (iterate_le_one hM (iterate_nonneg hM h0 j) hj k)
      (not_le_of_gt (one_lt_of_trapped h))
  · rw [Function.iterate_add_apply] at hj
    exact absurd hj (not_le_of_gt (one_lt_of_trapped (iterate_trapped h k)))

/-- **The square of the speed that is reached drops**, from motion to motion, until
the body is at rest: the induction is on that speed. -/
theorem exists_settled_of_sq {n : ℕ} (hn : n ≤ M) {d : K} (h0 : 0 ≤ d) (hd : d ≤ (n : K) ^ 2)
    (h : ∀ i, ¬ Trapped M ((overshoot M)^[i] d)) : ∃ i, (overshoot M)^[i] d ≤ 1 / 2 := by
  induction n generalizing d with
  | zero => exact ⟨0, hd.trans (by norm_num)⟩
  | succ n ih =>
    by_cases hle : d ≤ (n : K) ^ 2
    · exact ih (Nat.le_of_succ_le hn) h0 hle h
    · have hlt : (n : K) ^ 2 < d := lt_of_not_ge hle
      have hover : overshoot M d = ((n + 1 : ℕ) : K) ^ 2 - d := overshoot_of_sq hlt hd hn
      have hnext : ∀ i, ¬ Trapped M ((overshoot M)^[i] (overshoot M d)) := fun i => h (i + 1)
      have hshift : overshoot M d ≤ (n : K) ^ 2 → ∃ i, (overshoot M)^[i] d ≤ 1 / 2 := by
        intro hsq
        have hM : 1 ≤ M := (Nat.le_add_left 1 n).trans hn
        obtain ⟨i, hi⟩ := ih (Nat.le_of_succ_le hn) (overshoot_nonneg hM d) hsq hnext
        exact ⟨i + 1, hi⟩
      rw [hover] at hshift
      have hd0 : ¬ Trapped M d := h 0
      -- up to speed 3 the overshoot need not be smaller, unless the distance is not trapped
      match n, hn, hlt, hd, hover, hshift with
      | 0, hn, hlt, hd, hover, hshift =>
        by_cases hhalf : d ≤ 1 / 2
        · exact ⟨0, hhalf⟩
        · refine ⟨1, ?_⟩
          show overshoot M d ≤ 1 / 2
          rw [hover]
          norm_num
          linarith
      | 1, hn, hlt, hd, hover, hshift =>
        refine hshift ?_
        norm_num at hlt ⊢
        by_contra hfar
        exact hd0 (Or.inl ⟨hn, hlt, by linarith⟩)
      | 2, hn, hlt, hd, hover, hshift =>
        refine hshift ?_
        norm_num at hlt ⊢
        by_contra hfar
        exact hd0 (Or.inr ⟨hn, hlt, by linarith⟩)
      | n + 3, hn, hlt, hd, hover, hshift =>
        refine hshift ?_
        have hn0 : (0 : K) ≤ n := Nat.cast_nonneg n
        push_cast at hlt ⊢
        nlinarith

/-- **An orbit that meets no trapped distance** comes to rest for good. -/
theorem exists_settled (hM : 1 ≤ M) {d : K} (h0 : 0 ≤ d)
    (h : ∀ i, ¬ Trapped M ((overshoot M)^[i] d)) : ∃ i, (overshoot M)^[i] d ≤ 1 / 2 := by
  by_cases hle : d ≤ (M : K) ^ 2
  · exact exists_settled_of_sq (le_refl M) h0 hle h
  · obtain ⟨hnonneg, hlt⟩ := overshoot_of_long hM (lt_of_not_ge hle)
    have hM1 : (1 : K) ≤ M := Nat.one_le_cast.mpr hM
    have hsq : overshoot M d ≤ (M : K) ^ 2 := hlt.le.trans (le_self_pow₀ hM1 two_ne_zero)
    obtain ⟨i, hi⟩ := exists_settled_of_sq (le_refl M) hnonneg hsq (fun i => h (i + 1))
    exact ⟨i + 1, hi⟩

end SpeedProfile
