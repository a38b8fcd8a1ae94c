import EpuckFirmware.AsebaBytecode

/-!
# Loading whatever the bytecode sector holds

`aseba_vm_init` compares the stored size with that of an erased sector and takes it as it
is otherwise, so that the copy stays in the array only for the sizes up to the one of the
array. `AsebaWriteBytecode` stores the size first: once both of its bytes are written, what
is loaded is the beginning of the image, however much of it was written, and erased bytes
behind it. With one byte of it written, the other one still erased, the size is 65534.
-/

namespace Aseba

open Memory

/-! ## What is copied -/

/-- The bytes that `aseba_vm_init` copies to the array. -/
def asebaLoadData : Flash (List UInt8) := do
  let size ← readBytes asebaBytecodeStart 2
  let bytecodeSize := leHalf size
  let pos := asebaBytecodeStart + 2
  if bytecodeSize ≠ 0xffff then readBytes pos bytecodeSize.toNat else pure []

/-- The size in front of the bytecode. -/
def storedSize (s : FlashState) : UInt16 := leHalf (s.mem.peek asebaBytecodeStart 2)

theorem exec_asebaLoadData (s : FlashState) :
    (Program.exec (FlashState.step flashGeometry) asebaLoadData s).result
      = some (if storedSize s ≠ 0xffff then
          s.mem.peek (asebaBytecodeStart + 2) (storedSize s).toNat else []) := by
  unfold asebaLoadData storedSize
  rw [Program.exec_bind, exec_readBytes, Outcome.andThen_some]
  dsimp only
  split
  · rw [exec_readBytes]
  · rfl

/-- Loading copies these bytes to the start of the array. -/
theorem asebaLoadBytecode_result (vm : AsebaVMState) (s : FlashState) :
    (Program.exec (FlashState.step flashGeometry) (asebaLoadBytecode vm) s).result
      = some (if storedSize s ≠ 0xffff then
          ⟨vm.bytecodeSize,
            memcpy vm.bytecode (s.mem.peek (asebaBytecodeStart + 2) (storedSize s).toNat)⟩
        else vm) := by
  unfold asebaLoadBytecode storedSize
  rw [Program.exec_bind, exec_readBytes, Outcome.andThen_some]
  dsimp only
  split
  · rw [Program.exec_bind, exec_readBytes, Outcome.andThen_some]
    rfl
  · rfl

/-- **The copy stays in the array**: it has no more bytes than the array. -/
def CopyInside (s : FlashState) : Prop :=
  ∃ data, (Program.exec (FlashState.step flashGeometry) asebaLoadData s).result = some data
    ∧ data.length ≤ 2 * vmBytecodeSize

theorem copyInside_iff (s : FlashState) :
    CopyInside s ↔ storedSize s = 0xffff ∨ (storedSize s).toNat ≤ 2 * vmBytecodeSize := by
  unfold CopyInside
  rw [exec_asebaLoadData]
  by_cases hsize : storedSize s = 0xffff
  · rw [if_neg (not_not_intro hsize)]
    exact iff_of_true ⟨[], rfl, Nat.zero_le _⟩ (Or.inl hsize)
  · rw [if_pos hsize, or_iff_right hsize]
    constructor
    · rintro ⟨data, hdata, hle⟩
      rwa [← Option.some.inj hdata, length_peek] at hle
    · exact fun hle => ⟨_, rfl, (length_peek _ _ _).trans_le hle⟩

/-! ## A cut write -/

/-- **The flash after a reset during `AsebaWriteBytecode`**, when the sector was erased and
`n` bytes were written. -/
def cutWrite (bytecode : Vector UInt16 vmBytecodeSize) (s : FlashState) (n : ℕ) : FlashState :=
  Program.replay (FlashState.step flashGeometry) s
    ((Program.exec (FlashState.step flashGeometry) (asebaWriteBytecode (vmState bytecode)) s).trace.take
      (2 + n))

/-- What the writes of some bytes leave in an unlocked flash. -/
theorem replay_writes (g : Geometry) (a : UInt32) (bs : List UInt8) {s : FlashState}
    (hs : s.locked = false) :
    Program.replay (FlashState.step g) s (writes a bs) = { s with mem := s.mem.burn a bs } := by
  have hexec := Program.exec_state_eq_replay (FlashState.step g) (programBytes a bs) s
  rw [exec_programBytes g a bs hs] at hexec
  exact hexec.symm

theorem take_writes (a : UInt32) (bs : List UInt8) (n : ℕ) :
    (writes a bs).take n = writes a (bs.take n) := by
  unfold writes
  rw [← List.map_take, take_cells]

theorem trace_asebaWriteBytecode (vm : AsebaVMState) (s : FlashState) :
    (Program.exec (FlashState.step flashGeometry) (asebaWriteBytecode vm) s).trace
      = .unlock :: .erase (flashAddrToSector asebaBytecodeStart)
        :: (writes asebaBytecodeStart (bytecodeImage vm) ++ [.lock]) := by
  have himage : writes asebaBytecodeStart (bytecodeImage vm)
      = writes asebaBytecodeStart (leHalfBytes vm.bytecodeSize)
        ++ writes (asebaBytecodeStart + 2) (savedBytes vm) := by
    unfold writes
    rw [bytecodeImage, cells_append, List.map_append, length_leHalfBytes]
    rfl
  rw [himage, List.append_assoc, asebaWriteBytecode, Program.exec_bind, exec_flashUnlock,
    Outcome.andThen_some, Program.exec_bind, exec_flashSectorErase _ _ rfl, Outcome.andThen_some,
    Program.exec_bind, exec_flashWrite _ _ _ rfl, Outcome.andThen_some,
    Program.exec_bind, exec_flashWrite _ _ _ rfl, Outcome.andThen_some, exec_flashLock]
  rfl

/-- **A cut write** leaves the beginning of the image in the erased sector. -/
theorem mem_cutWrite (bytecode : Vector UInt16 vmBytecodeSize) (s : FlashState) (n : ℕ) :
    (cutWrite bytecode s n).mem
      = (bytecodeSector.wipe s.mem).burn asebaBytecodeStart
        ((bytecodeImage (vmState bytecode)).take n) := by
  have htake : (FlashOp.unlock :: .erase (flashAddrToSector asebaBytecodeStart)
        :: (writes asebaBytecodeStart (bytecodeImage (vmState bytecode)) ++ [.lock])).take (2 + n)
      = .unlock :: .erase (flashAddrToSector asebaBytecodeStart)
        :: ((writes asebaBytecodeStart (bytecodeImage (vmState bytecode))).take n
          ++ [FlashOp.lock].take
            (n - (writes asebaBytecodeStart (bytecodeImage (vmState bytecode))).length)) := by
    rw [Nat.add_comm, List.take_succ_cons, List.take_succ_cons, List.take_append]
  have hlock (t : FlashState) (k : ℕ) :
      (Program.replay (FlashState.step flashGeometry) t ([FlashOp.lock].take k)).mem = t.mem := by
    cases k with
    | zero => rfl
    | succ k => cases k <;> rfl
  unfold cutWrite
  rw [trace_asebaWriteBytecode, htake, take_writes]
  show (Program.replay _ (FlashState.mk (bytecodeSector.wipe s.mem) false) (_ ++ _)).mem = _
  unfold Program.replay
  rw [List.foldl_append]
  refine (hlock _ _).trans ?_
  exact congrArg FlashState.mem (replay_writes flashGeometry asebaBytecodeStart _ rfl)

/-- Reading it back. -/
theorem peek_cutWrite (bytecode : Vector UInt16 vmBytecodeSize) (s : FlashState) (n : ℕ) :
    (cutWrite bytecode s n).mem.peek asebaBytecodeStart 2
        = torn n (leHalfBytes (vmState bytecode).bytecodeSize)
      ∧ (cutWrite bytecode s n).mem.peek (asebaBytecodeStart + 2)
          (savedBytes (vmState bytecode)).length
        = torn (n - 2) (savedBytes (vmState bytecode)) := by
  have hlen := length_bytecodeImage_le (vmState bytecode)
  have hsize : (bytecodeImage (vmState bytecode)).length ≤ 128 * 1024 := hlen.trans (by decide)
  have herased : (bytecodeSector.wipe s.mem).Erased asebaBytecodeStart
      (bytecodeImage (vmState bytecode)).length :=
    fun i hi => bytecodeSector.erased_wipe s.mem i (lt_of_lt_of_le hi hsize)
  have himage := Erased.peek_burn_take (by omega) herased n
  rw [← mem_cutWrite, bytecodeImage, List.length_append, torn_append] at himage
  have hfront : (torn n (leHalfBytes (vmState bytecode).bytecodeSize)).length = 2 :=
    (length_torn _ _).trans (length_leHalfBytes _)
  rw [length_leHalfBytes, peek_add] at himage
  exact List.append_inj himage ((length_peek _ _ _).trans hfront.symm)

/-! ## What is loaded after a cut write -/

/-- Bytes two by two are the bytes of words. -/
theorem leArray_leHalves {bs : List UInt8} (h : 2 ∣ bs.length) : leArray (leHalves bs) = bs := by
  induction bs using leHalves.induct with
  | case1 a b bs ih =>
    have hbs : 2 ∣ bs.length := by
      simp only [List.length_cons] at h
      omega
    have hhalf : leHalfBytes (leHalf [a, b]) = [a, b] := by
      have hlt : leNat [a, b] < 2 ^ 16 := by
        have ha := a.toNat_lt
        have hb := b.toNat_lt
        simp only [leNat]
        omega
      rw [leHalfBytes, leHalf, UInt16.toNat_ofNat', Nat.mod_eq_of_lt hlt]
      exact leDigits_leNat [a, b]
    show leHalfBytes (leHalf [a, b]) ++ leArray (leHalves bs) = a :: b :: bs
    rw [hhalf, ih hbs]
    rfl
  | case2 bs hshort =>
    cases bs with
    | nil => rfl
    | cons a bs =>
      cases bs with
      | nil => exact absurd h (by simp)
      | cons b bs => exact absurd rfl (hshort a b bs)

/-- **What a copy leaves**: the bytes copied, and behind them what the array held. -/
theorem memcpy_eq_iff_bytes {n k : ℕ} (dst target : Vector UInt16 n) {src : List UInt8}
    (hsrc : src.length = 2 * k) (hk : k ≤ n) :
    memcpy dst src = target
      ↔ src = (leArray target.toList).take (2 * k)
        ∧ ∀ i (h : i < n), k ≤ i → dst[i] = target[i] := by
  have hbytes : leArray (leHalves src) = src := leArray_leHalves (hsrc ▸ Nat.dvd_mul_right 2 k)
  have hwords : (leHalves src).length = k := by
    rw [length_leHalves, hsrc, Nat.mul_div_cancel_left k (by decide)]
  constructor
  · intro h
    have hfront : src = (leArray target.toList).take (2 * k) := by
      rw [← h, ← hbytes, take_leArray, toList_memcpy dst (hwords.trans_le hk),
        List.take_left' hwords]
    rw [hfront, take_leArray] at h
    exact ⟨hfront, (memcpy_eq_iff dst target hk).mp h⟩
  · rintro ⟨rfl, hrest⟩
    rw [take_leArray]
    exact (memcpy_eq_iff dst target hk).mpr hrest

/-- A list torn somewhere is complete if the bytes that are missing are erased ones. -/
theorem torn_eq_self_iff {k : ℕ} {bs : List UInt8} :
    torn k bs = bs ↔ ∀ b ∈ bs.drop k, b = 0xff := by
  have hsplit : torn k bs = bs
      ↔ List.replicate (bs.length - k) 0xff = bs.drop k := by
    refine ⟨fun h => List.append_cancel_left (h.trans (List.take_append_drop k bs).symm),
      fun h => ?_⟩
    rw [torn, h, List.take_append_drop]
  rw [hsplit, ← List.length_drop, eq_comm, List.eq_replicate_iff, and_iff_right rfl]

/-- **After a cut write** the copy stays in the array, which is then as it was before or
holds the image. -/
def LoadsSafely (bytecode : Vector UInt16 vmBytecodeSize) (s : FlashState) (vm : AsebaVMState)
    (n : ℕ) : Prop :=
  CopyInside (cutWrite bytecode s n)
    ∧ ∃ vm', (Program.exec (FlashState.step flashGeometry) (asebaLoadBytecode vm)
        (cutWrite bytecode s n)).result = some vm'
      ∧ (vm'.bytecode = vm.bytecode ∨ vm'.bytecode = bytecode)

/-- Nothing is loaded from a sector that was only erased. -/
theorem loadsSafely_zero (bytecode : Vector UInt16 vmBytecodeSize) (s : FlashState)
    (vm : AsebaVMState) : LoadsSafely bytecode s vm 0 := by
  have hsize : storedSize (cutWrite bytecode s 0) = 0xffff := by
    rw [storedSize, (peek_cutWrite bytecode s 0).1]
    rfl
  refine ⟨(copyInside_iff _).mpr (Or.inl hsize), vm, ?_, Or.inl rfl⟩
  rw [asebaLoadBytecode_result, if_neg (not_not_intro hsize)]

/-- With one byte of the size the copy leaves the array. -/
theorem not_copyInside_one (bytecode : Vector UInt16 vmBytecodeSize) (s : FlashState) :
    ¬ CopyInside (cutWrite bytecode s 1) := by
  have hsize : storedSize (cutWrite bytecode s 1) = 0xfffe := by
    rw [storedSize, (peek_cutWrite bytecode s 1).1]
    show leHalf (torn 1 (leHalfBytes (UInt16.ofNat vmBytecodeSize))) = 0xfffe
    decide
  rw [copyInside_iff, hsize]
  decide

/-- **With the size**, what was written of the image is loaded, and erased bytes for the
rest of it. -/
theorem loadsSafely_of_two_le (bytecode : Vector UInt16 vmBytecodeSize) (s : FlashState)
    (vm : AsebaVMState) {n : ℕ} (hn : 2 ≤ n) :
    LoadsSafely bytecode s vm n
      ↔ memcpy vm.bytecode (torn (n - 2) (savedBytes (vmState bytecode))) = vm.bytecode
        ∨ memcpy vm.bytecode (torn (n - 2) (savedBytes (vmState bytecode))) = bytecode := by
  obtain ⟨hfront, hback⟩ := peek_cutWrite bytecode s n
  have hsize : storedSize (cutWrite bytecode s n) = UInt16.ofNat vmBytecodeSize := by
    rw [torn_of_length_le (by rw [length_leHalfBytes]; exact hn)] at hfront
    rw [storedSize, hfront, leHalf_leHalfBytes]
    rfl
  have hlength : (savedBytes (vmState bytecode)).length = (UInt16.ofNat vmBytecodeSize).toNat := by
    rw [savedBytes_vmState, length_leArray, List.length_take, Vector.length_toList]
    rfl
  have hinside : CopyInside (cutWrite bytecode s n) := by
    rw [copyInside_iff, hsize]
    exact Or.inr (by decide)
  have hne : storedSize (cutWrite bytecode s n) ≠ 0xffff := by
    rw [hsize]
    decide
  have hresult := asebaLoadBytecode_result vm (cutWrite bytecode s n)
  rw [if_pos hne, hsize, ← hlength, hback] at hresult
  unfold LoadsSafely
  rw [hresult, and_iff_right hinside]
  constructor
  · rintro ⟨vm', hvm', h⟩
    rwa [← Option.some.inj hvm'] at h
  · exact fun h => ⟨_, rfl, h⟩

/-- **When loading is safe**: the copy stays in the array for the sizes up to that of the
array; and after a cut write the array is as it was or holds the image if nothing but the
erased sector was left, or if at least the size was written and the words of the array are
the ones loaded anyway, or nothing is missing in the image but erased bytes and the half of
the array that is not loaded. -/
theorem load_safe_iff (s : FlashState) (bytecode : Vector UInt16 vmBytecodeSize)
    (vm : AsebaVMState) (n : ℕ) :
    (CopyInside s ↔ storedSize s = 0xffff ∨ (storedSize s).toNat ≤ 2 * vmBytecodeSize)
      ∧ (LoadsSafely bytecode s vm n
        ↔ n = 0 ∨ 2 ≤ n
          ∧ (torn (n - 2) (savedBytes (vmState bytecode))
              = (leArray vm.bytecode.toList).take vmBytecodeSize
            ∨ (∀ b ∈ (savedBytes (vmState bytecode)).drop (n - 2), b = 0xff)
              ∧ ∀ i (h : i < vmBytecodeSize), vmBytecodeSize / 2 ≤ i →
                vm.bytecode[i] = bytecode[i])) := by
  refine ⟨copyInside_iff s, ?_⟩
  have hlength : (torn (n - 2) (savedBytes (vmState bytecode))).length
      = 2 * (vmBytecodeSize / 2) := by
    rw [length_torn, savedBytes_vmState, length_leArray, List.length_take, Vector.length_toList]
    rfl
  have hhalf : 2 * (vmBytecodeSize / 2) = vmBytecodeSize := rfl
  have hsaved : savedBytes (vmState bytecode) = (leArray bytecode.toList).take vmBytecodeSize :=
    rfl
  match n with
  | 0 => exact iff_of_true (loadsSafely_zero bytecode s vm) (Or.inl rfl)
  | 1 => exact iff_of_false (fun h => not_copyInside_one bytecode s h.1) (by omega)
  | n + 2 =>
    rw [loadsSafely_of_two_le bytecode s vm (Nat.le_add_left 2 n),
      memcpy_eq_iff_bytes _ _ hlength (by decide), memcpy_eq_iff_bytes _ _ hlength (by decide),
      hhalf, ← hsaved, torn_eq_self_iff]
    simp

/-- From an erased sector, after one byte of the size of an image. -/
theorem not_load_safe :
    ¬ ∀ (s : FlashState) (bytecode : Vector UInt16 vmBytecodeSize) (vm : AsebaVMState) (n : ℕ),
      CopyInside s ∧ LoadsSafely bytecode s vm n := by
  intro h
  exact not_copyInside_one (Vector.replicate _ 0) ⟨fun _ => 0xff, true⟩
    (h ⟨fun _ => 0xff, true⟩ (Vector.replicate _ 0) (vmState (Vector.replicate _ 0)) 1).2.1

end Aseba
