import Mathlib.Data.Option.Basic

/-!
# Topics of a message bus

A topic holds the last message that was published on it. Reading copies the message into
a buffer, or leaves the buffer if nothing was published yet. Waiting lasts until the next
message is published; the thread then reads what the topic holds when it is its turn,
which may be a later message.
-/

namespace MessageBus

variable {α : Type}

/-- A topic, and the last message if there was one. -/
structure Topic (α : Type) where
  /-- The topic can be found on the bus. -/
  advertised : Bool
  message : Option α
  deriving DecidableEq

namespace Topic

/-- A topic that nobody advertised yet. -/
def init : Topic α := ⟨false, none⟩

def advertise (t : Topic α) : Topic α := { t with advertised := true }

def publish (t : Topic α) (m : α) : Topic α := { t with message := some m }

/-- What the buffer holds after reading the topic into it. -/
def read (t : Topic α) (buffer : α) : α := t.message.getD buffer

@[simp] theorem message_init : (init : Topic α).message = none := rfl

@[simp] theorem message_publish (t : Topic α) (m : α) : (t.publish m).message = some m := rfl

theorem read_of_message {t : Topic α} {m : α} (h : t.message = some m) (buffer : α) :
    t.read buffer = m := by
  rw [read, h]
  rfl

theorem read_of_none {t : Topic α} (h : t.message = none) (buffer : α) :
    t.read buffer = buffer := by
  rw [read, h]
  rfl

end Topic

end MessageBus
