import EpuckFirmware.StepMachine
import Mathlib.Tactic

/-!
# Histories

A history is the list of what happened so far, the oldest first. `Since p Q` says
that something happened with a past as `Q` asks, and that everything after it was `p`;
`Always Q` that everything happened with such a past; `latest f` is what `f` makes of
the latest thing it applies to. Each comes with what the next entry does to it, which is
how an invariant about the history is carried from one step to the next.

A machine keeps its history when every step appends what it shows (`recorded`).
-/

namespace History

variable {α β : Type}

/-- Some entry and the history before it satisfy `Q`, and all entries after it satisfy
`p`. -/
def Since (p : α → Prop) (Q : List α → α → Prop) (h : List α) : Prop :=
  ∃ a x b, h = a ++ x :: b ∧ Q a x ∧ ∀ y ∈ b, p y

/-- Every entry and the history before it satisfy `Q`. -/
def Always (Q : List α → α → Prop) (h : List α) : Prop :=
  ∀ a x b, h = a ++ x :: b → Q a x

/-- What `f` makes of the latest entry that it applies to. -/
def latest (f : α → Option β) (h : List α) : Option β := h.reverse.findSome? f

/-- An entry of a history one longer is an entry of the history or the last one. -/
theorem append_cons_eq_concat {a b h : List α} {x y : α} (heq : h ++ [y] = a ++ x :: b) :
    (a = h ∧ x = y ∧ b = []) ∨ ∃ b', h = a ++ x :: b' ∧ b = b' ++ [y] := by
  rcases List.eq_nil_or_concat b with rfl | ⟨b', z, rfl⟩
  · obtain ⟨hh, hy⟩ := List.append_inj' heq rfl
    exact Or.inl ⟨hh.symm, (List.cons.inj hy).1.symm, rfl⟩
  · rw [List.concat_eq_append] at heq ⊢
    have hassoc : h ++ [y] = (a ++ x :: b') ++ [z] := by
      rw [heq, List.append_assoc, List.cons_append]
    obtain ⟨hh, hy⟩ := List.append_inj' hassoc rfl
    exact Or.inr ⟨b', hh, by rw [(List.cons.inj hy).1]⟩

@[simp] theorem not_since_nil (p : α → Prop) (Q : List α → α → Prop) : ¬ Since p Q [] := by
  rintro ⟨a, x, b, h, -, -⟩
  exact absurd h.symm (by simp)

theorem since_concat {p : α → Prop} {Q : List α → α → Prop} {h : List α} {y : α} :
    Since p Q (h ++ [y]) ↔ Q h y ∨ (p y ∧ Since p Q h) := by
  constructor
  · rintro ⟨a, x, b, heq, hq, hp⟩
    rcases append_cons_eq_concat heq with ⟨rfl, rfl, -⟩ | ⟨b', rfl, rfl⟩
    · exact Or.inl hq
    · exact Or.inr ⟨hp y (by simp), a, x, b', rfl, hq, fun z hz => hp z (by simp [hz])⟩
  · rintro (hq | ⟨hy, a, x, b, rfl, hq, hp⟩)
    · exact ⟨h, y, [], rfl, hq, by simp⟩
    · refine ⟨a, x, b ++ [y], by simp, hq, fun z hz => ?_⟩
      rcases List.mem_append.mp hz with hz | hz
      · exact hp z hz
      · rw [List.mem_singleton.mp hz]
        exact hy

theorem always_nil (Q : List α → α → Prop) : Always Q [] := by
  intro a x b h
  exact absurd h.symm (by simp)

theorem always_concat {Q : List α → α → Prop} {h : List α} {y : α} :
    Always Q (h ++ [y]) ↔ Always Q h ∧ Q h y := by
  constructor
  · intro hall
    exact ⟨fun a x b heq => hall a x (b ++ [y]) (by simp [heq]), hall h y [] rfl⟩
  · rintro ⟨hall, hy⟩ a x b heq
    rcases append_cons_eq_concat heq with ⟨rfl, rfl, -⟩ | ⟨b', hh, -⟩
    · exact hy
    · exact hall a x b' hh

/-- Entries that may happen whatever was before. -/
theorem always_append {Q : List α → α → Prop} {h events : List α} (hall : Always Q h)
    (hevents : ∀ x ∈ events, ∀ past, Q past x) : Always Q (h ++ events) := by
  induction events using List.reverseRecOn with
  | nil =>
    rw [List.append_nil]
    exact hall
  | append_singleton events x ih =>
    rw [← List.append_assoc, always_concat]
    exact ⟨ih (fun y hy => hevents y (List.mem_append_left _ hy)), hevents x (by simp) _⟩

theorem always_congr {Q R : List α → α → Prop} {h : List α}
    (hiff : Always (fun past x => Q past x ↔ R past x) h) : Always Q h ↔ Always R h := by
  constructor
  · intro hall a x b heq
    exact (hiff a x b heq).mp (hall a x b heq)
  · intro hall a x b heq
    exact (hiff a x b heq).mpr (hall a x b heq)

@[simp] theorem latest_nil (f : α → Option β) : latest f [] = none := rfl

theorem latest_concat (f : α → Option β) (h : List α) (y : α) :
    latest f (h ++ [y]) = (f y).or (latest f h) := by
  unfold latest
  rw [List.reverse_append, List.reverse_singleton, List.singleton_append, List.findSome?_cons]
  cases f y <;> rfl

/-- Entries that `f` does not apply to. -/
theorem latest_append_of_none {f : α → Option β} {events : List α}
    (hevents : ∀ x ∈ events, f x = none) (h : List α) : latest f (h ++ events) = latest f h := by
  induction events using List.reverseRecOn with
  | nil => rw [List.append_nil]
  | append_singleton events x ih =>
    rw [← List.append_assoc, latest_concat, hevents x (by simp), Option.none_or,
      ih (fun y hy => hevents y (List.mem_append_left _ hy))]

/-- What can be made of the latest thing that `f` applies to. -/
theorem latest_bind_of_latest {γ : Type} {f : α → Option β} (g : β → Option γ) {h : List α}
    {x : β} {y : γ} (hlatest : latest f h = some x) (hg : g x = some y) :
    latest (fun a => (f a).bind g) h = some y := by
  induction h using List.reverseRecOn with
  | nil => exact absurd hlatest (by simp)
  | append_singleton h a ih =>
    rw [latest_concat] at hlatest ⊢
    cases hf : f a with
    | none =>
      rw [hf, Option.none_or] at hlatest
      rw [Option.bind_none, Option.none_or, ih hlatest]
    | some x' =>
      rw [hf, Option.some_or] at hlatest
      rw [Option.some.inj hlatest, Option.bind_some, hg, Option.some_or]

theorem latest_bind_of_none {γ : Type} {f : α → Option β} (g : β → Option γ) {h : List α}
    (hlatest : latest f h = none) : latest (fun a => (f a).bind g) h = none := by
  induction h using List.reverseRecOn with
  | nil => rfl
  | append_singleton h a ih =>
    rw [latest_concat, Option.or_eq_none_iff] at hlatest
    rw [latest_concat, hlatest.1, Option.bind_none, Option.none_or, ih hlatest.2]

section Recorded

variable {σ ι ε : Type} (step : σ → ι → Except ε σ) (shows : σ → ι → List α)

/-- The machine that keeps its history. -/
def recorded (s : σ × List α) (i : ι) : Except ε (σ × List α) :=
  (step s.1 i).map (fun s' => (s', s.2 ++ shows s.1 i))

variable {step shows}

theorem recorded_eq_ok {s s' : σ × List α} {i : ι} :
    recorded step shows s i = .ok s' ↔ step s.1 i = .ok s'.1 ∧ s'.2 = s.2 ++ shows s.1 i := by
  unfold recorded
  cases hstep : step s.1 i with
  | error e => simp [Except.map]
  | ok t =>
    constructor
    · intro h
      cases h
      exact ⟨rfl, rfl⟩
    · rintro ⟨h, hs⟩
      cases h
      rw [← hs]
      rfl

end Recorded

end History
