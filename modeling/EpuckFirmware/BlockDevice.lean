import EpuckFirmware.MemorySegment
import EpuckFirmware.Program
import Mathlib.Data.List.GetD

/-!
# Block devices that may fail

A block device keeps numbered blocks of `n` bytes each. It reads blocks that follow each
other, writes one block, and says whether it is ready. Any operation can fail, as those of
a memory card do that is pulled out: the device carries the list of the failures to come,
which is arbitrary. What a failed reading leaves in the buffer is a part of the failure.

The bytes are numbered through the blocks (`byteAt`), and blocks that follow each other are
a segment of them (`flatMap_blocks`).
-/

/-- A block of `n` bytes. -/
structure Block (n : ℕ) where
  bytes : List UInt8
  length_bytes : bytes.length = n

namespace BlockDevice

open MemorySegment

variable {n : ℕ}

/-- The operations of a device. -/
inductive Op (n : ℕ)
  | ready
  | read (first count : ℕ)
  | write (first : ℕ) (block : Block n)

/-- What the operations reply: whether the device is ready, the blocks that were read or
what a failed reading left in the buffer, and whether the block was written. -/
abbrev Op.Reply : Op n → Type
  | .ready => Bool
  | .read _ _ => Except (List (Block n)) (List (Block n))
  | .write _ _ => Bool

/-- **A device**: its blocks, and for each of its next operations whether it fails. -/
structure Device (n : ℕ) where
  blocks : ℕ → Block n
  /-- The failures, with what is left in the buffer of a failed reading. -/
  faults : List (Option (List (Block n)))

/-- Without the failure of the operation that was performed. -/
def Device.rest (d : Device n) : Device n := { d with faults := d.faults.tail }

def Device.step (d : Device n) : (o : Op n) → o.Reply × Device n
  | .ready => ((d.faults.headD none).isNone, d.rest)
  | .read first count =>
    (match d.faults.headD none with
      | none => .ok ((List.range' first count).map d.blocks)
      | some left => .error left, d.rest)
  | .write first block =>
    match d.faults.headD none with
    | none => (true, { d.rest with blocks := Function.update d.blocks first block })
    | some _ => (false, d.rest)

/-- A program that uses a device. -/
abbrev Access (n : ℕ) (α : Type) : Type := Program (Op.Reply (n := n)) α

/-- Asking whether the device is ready. -/
def isReady : Access n Bool := Program.op Op.ready

/-- Reading blocks that follow each other. -/
def readBlocks (first count : ℕ) : Access n (Except (List (Block n)) (List (Block n))) :=
  Program.op (Op.read first count)

/-- Writing one block. -/
def writeBlock (first : ℕ) (block : Block n) : Access n Bool := Program.op (Op.write first block)

/-- The operation does not change a block. -/
def Op.ReadsOnly : Op n → Prop
  | .write _ _ => False
  | _ => True

/-- The byte at a position, 0 in blocks of no bytes. -/
def byteAt (blocks : ℕ → Block n) (position : ℕ) : UInt8 :=
  (blocks (position / n)).bytes.getD (position % n) 0

/-- **What is known of a device that is only read**: its blocks, and that nothing fails
when `good` holds. -/
structure Device.Holds (blocks : ℕ → Block n) (good : Prop) (d : Device n) : Prop where
  blocks : d.blocks = blocks
  works : good → d.faults = []

theorem Device.Holds.rest {blocks : ℕ → Block n} {good : Prop} {d : Device n}
    (h : d.Holds blocks good) : d.rest.Holds blocks good where
  blocks := h.blocks
  works := fun hgood => by
    show d.faults.tail = []
    rw [h.works hgood]
    rfl

/-! ## The bytes of blocks -/

/-- The byte at an index of a block. -/
theorem byteAt_mul_add (blocks : ℕ → Block n) (k : ℕ) {i : ℕ} (hi : i < n) :
    byteAt blocks (k * n + i) = (blocks k).bytes.getD i 0 := by
  have hdiv : (k * n + i) / n = k := by
    rw [mul_comm, Nat.mul_add_div (by omega), Nat.div_eq_of_lt hi, add_zero]
  have hmod : (k * n + i) % n = i := by
    rw [mul_comm, Nat.mul_add_mod, Nat.mod_eq_of_lt hi]
  rw [byteAt, hdiv, hmod]

/-- **A part of a block** is a segment of the bytes. -/
theorem take_drop_block (blocks : ℕ → Block n) (k : ℕ) {i m : ℕ} (h : i + m ≤ n) :
    ((blocks k).bytes.drop i).take m = segment (byteAt blocks) (k * n + i) (k * n + i + m) := by
  have hlength := (blocks k).length_bytes
  refine List.ext_getElem ?_ (fun j h₁ h₂ => ?_)
  · rw [length_segment, List.length_take, List.length_drop]
    omega
  · rw [List.length_take] at h₁
    simp only [MemorySegment.segment, List.getElem_map, List.getElem_range', one_mul,
      List.getElem_take, List.getElem_drop]
    rw [add_assoc, byteAt_mul_add blocks k (by omega), List.getD_eq_getElem _ _ (by omega)]

theorem block_eq_segment (blocks : ℕ → Block n) (k : ℕ) :
    (blocks k).bytes = segment (byteAt blocks) (k * n) (k * n + n) := by
  rw [← add_zero (k * n), ← take_drop_block blocks k (by omega), List.drop_zero,
    List.take_of_length_le ((blocks k).length_bytes.le)]

/-- **Blocks that follow each other** are a segment of the bytes. -/
theorem flatMap_blocks (blocks : ℕ → Block n) (first count : ℕ) :
    ((List.range' first count).map blocks).flatMap (·.bytes)
      = segment (byteAt blocks) (first * n) ((first + count) * n) := by
  induction count generalizing first with
  | zero => simp
  | succ count ih =>
    have hfirst : first * n + n = (first + 1) * n := by ring
    rw [List.range'_succ, List.map_cons, List.flatMap_cons, ih, block_eq_segment blocks first,
      hfirst, segment_append (by omega) (Nat.mul_le_mul_right n (by omega)),
      show first + 1 + count = first + (count + 1) by omega]

/-! ## What each operation ends with -/

section Ends

variable {P : Op n → Prop} {blocks : ℕ → Block n} {good : Prop} {d : Device n}

theorem ends_isReady (hP : P .ready) (h : d.Holds blocks good) :
    Program.Ends Device.step P isReady d
      (fun ready d' => d'.Holds blocks good ∧ (good → ready = true)) := by
  refine Program.Ends.op hP ⟨h.rest, fun hgood => ?_⟩
  show (d.faults.headD none).isNone = true
  rw [h.works hgood]
  rfl

/-- **Reading** gives the blocks, unless it fails. -/
theorem ends_readBlocks {first count : ℕ} (hP : P (.read first count)) (h : d.Holds blocks good) :
    Program.Ends Device.step P (readBlocks first count) d
      (fun r d' => d'.Holds blocks good
        ∧ (r = .ok ((List.range' first count).map blocks)
          ∨ (∃ left, r = .error left) ∧ ¬ good)) := by
  have hreply : (d.step (.read first count)).1 = match d.faults.headD none with
      | none => Except.ok ((List.range' first count).map d.blocks)
      | some left => Except.error left := rfl
  refine Program.Ends.op hP ⟨h.rest, ?_⟩
  rw [hreply]
  cases hfault : d.faults.headD none with
  | none => exact Or.inl (by rw [h.blocks])
  | some left =>
    refine Or.inr ⟨⟨left, rfl⟩, fun hgood => ?_⟩
    rw [h.works hgood] at hfault
    exact nomatch hfault

end Ends

end BlockDevice
