import Mathlib

/-!
# Bounded logs

A log of limited capacity: an entry is appended as long as there is room, and
otherwise the log is started afresh with that entry alone. It is what a store
that writes in place only after an erase can offer: nothing but the last entry is
promised, and that one always.

The entries are arbitrary and `size` says how much room each takes.
-/

namespace BoundedLog

variable {ε : Type} (size : ε → ℕ)

/-- The room a log takes. -/
def used (log : List ε) : ℕ := (log.map size).sum

/-- **Adding an entry**: append it if it fits, start afresh if not. -/
def push (cap : ℕ) (log : List ε) (e : ε) : List ε :=
  if used size log + size e ≤ cap then log ++ [e] else [e]

/-- Adding entries one after the other. -/
def pushAll (cap : ℕ) (log es : List ε) : List ε := es.foldl (push size cap) log

variable {size}

@[simp] theorem used_nil : used size ([] : List ε) = 0 := rfl

@[simp] theorem used_cons (e : ε) (log : List ε) :
    used size (e :: log) = size e + used size log := by
  simp [used]

@[simp] theorem used_append (log log' : List ε) :
    used size (log ++ log') = used size log + used size log' := by
  simp [used]

/-- The entry added last is the last one. -/
@[simp] theorem getLast?_push (cap : ℕ) (log : List ε) (e : ε) :
    (push size cap log e).getLast? = some e := by
  unfold push
  split <;> simp

@[simp] theorem pushAll_nil (cap : ℕ) (log : List ε) : pushAll size cap log [] = log := rfl

/-- The entry added last is the last one, however many there were. -/
theorem getLast?_pushAll (cap : ℕ) (es : List ε) :
    (pushAll size cap [] es).getLast? = es.getLast? := by
  rcases List.eq_nil_or_concat es with rfl | ⟨es, e, rfl⟩
  · rfl
  · rw [List.concat_eq_append, pushAll, List.foldl_append, List.foldl_cons, List.foldl_nil,
      getLast?_push, List.getLast?_concat]

end BoundedLog
