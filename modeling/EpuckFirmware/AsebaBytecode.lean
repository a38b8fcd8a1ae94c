import EpuckFirmware.Flash
import Mathlib.Tactic

/-!
# The bytecode of the virtual machine in flash

`AsebaWriteBytecode` of `aseba_node.c` keeps the bytecode array in a sector of its
own, and `aseba_vm_init` loads it at the next start. The size stored in front of the
array counts its words, and both functions take it for a number of bytes: half of the
array is written and loaded.
-/

namespace Aseba

/-- `VM_BYTECODE_SIZE`, a number of opcodes. -/
def vmBytecodeSize : ℕ := 766 + 768

/-- The members of `AsebaVMState` that saving and loading touch. -/
structure AsebaVMState where
  bytecodeSize : UInt16
  bytecode : Vector UInt16 vmBytecodeSize

/-- `vmState`, with what its array holds. -/
def vmState (bytecode : Vector UInt16 vmBytecodeSize) : AsebaVMState where
  bytecodeSize := UInt16.ofNat vmBytecodeSize
  bytecode := bytecode

/-- `_aseba_bytecode_start` of the linker scripts. -/
def asebaBytecodeStart : UInt32 := 0x080c0000

/-- `AsebaWriteBytecode`. -/
def asebaWriteBytecode (vm : AsebaVMState) : Flash Unit := do
  flashUnlock
  flashSectorErase asebaBytecodeStart
  flashWrite asebaBytecodeStart (leHalfBytes vm.bytecodeSize)
  flashWrite (asebaBytecodeStart + 2)
    ((leArray vm.bytecode.toList).take vm.bytecodeSize.toNat)
  flashLock

/-- `memcpy` to an array of words. What goes beyond its end is not part of it. -/
def memcpy {n : ℕ} (dst : Vector UInt16 n) (src : List UInt8) : Vector UInt16 n :=
  ⟨((leHalves (src ++ (leArray dst.toList).drop src.length)).take n).toArray, by
    rw [List.size_toArray, List.length_take, length_leHalves, List.length_append,
      List.length_drop, length_leArray, Vector.length_toList]
    omega⟩

/-- The part of `aseba_vm_init` that loads the bytecode, unless the sector is erased. -/
def asebaLoadBytecode (vm : AsebaVMState) : Flash AsebaVMState := do
  let size ← readBytes asebaBytecodeStart 2
  let bytecodeSize := leHalf size
  let pos := asebaBytecodeStart + 2
  if bytecodeSize ≠ 0xffff then do
    let data ← readBytes pos bytecodeSize.toNat
    pure { vm with bytecode := memcpy vm.bytecode data }
  else
    pure vm

/-! ## The sector -/

/-- The sector of the bytecode. -/
def bytecodeSector : Sector flashGeometry where
  base := asebaBytecodeStart
  size := 128 * 1024
  fits := by decide
  erase_iff := flashGeometry_large ⟨by decide, by decide⟩ (show _ = 0x08000000 + 6 * 0x20000 by decide)

/-! ## What the sector holds -/

/-- The bytes of the array that are written: as many as it has words. -/
def savedBytes (vm : AsebaVMState) : List UInt8 :=
  (leArray vm.bytecode.toList).take vm.bytecodeSize.toNat

/-- The bytes that are written for a machine. -/
def bytecodeImage (vm : AsebaVMState) : List UInt8 :=
  leHalfBytes vm.bytecodeSize ++ savedBytes vm

theorem length_bytecodeImage_le (vm : AsebaVMState) :
    (bytecodeImage vm).length ≤ 2 + 2 * vmBytecodeSize := by
  rw [bytecodeImage, savedBytes, List.length_append, length_leHalfBytes, List.length_take,
    length_leArray, Vector.length_toList]
  omega

/-- **Writing the bytecode** leaves its image at the start of the erased sector. -/
theorem exec_asebaWriteBytecode (vm : AsebaVMState) (s : FlashState) :
    (Program.exec (FlashState.step flashGeometry) (asebaWriteBytecode vm) s).result = some ()
      ∧ (Program.exec (FlashState.step flashGeometry) (asebaWriteBytecode vm) s).state.mem
        = (bytecodeSector.wipe s.mem).burn asebaBytecodeStart (bytecodeImage vm) := by
  have hburn : ∀ m : Memory,
      (m.burn asebaBytecodeStart (leHalfBytes vm.bytecodeSize)).burn (asebaBytecodeStart + 2)
          (savedBytes vm)
        = m.burn asebaBytecodeStart (bytecodeImage vm) := by
    intro m
    rw [bytecodeImage, Memory.burn_append, length_leHalfBytes]
    rfl
  rw [← hburn, asebaWriteBytecode, Program.exec_bind, exec_flashUnlock, Outcome.andThen_some,
    Program.exec_bind, exec_flashSectorErase _ _ rfl, Outcome.andThen_some,
    Program.exec_bind, exec_flashWrite _ _ _ rfl, Outcome.andThen_some,
    Program.exec_bind, exec_flashWrite _ _ _ rfl, Outcome.andThen_some, exec_flashLock]
  exact ⟨rfl, rfl⟩

/-- The image reads back. -/
theorem peek_bytecodeImage (vm : AsebaVMState) (m : Memory) :
    ((bytecodeSector.wipe m).burn asebaBytecodeStart (bytecodeImage vm)).peek asebaBytecodeStart
        (bytecodeImage vm).length
      = bytecodeImage vm := by
  have hlen := length_bytecodeImage_le vm
  have hsize : (bytecodeImage vm).length ≤ 128 * 1024 := hlen.trans (by decide)
  refine (Memory.peek_burn_eq_iff (by omega)).mpr (Memory.Erased.takes (fun i hi => ?_))
  exact bytecodeSector.erased_wipe m i (lt_of_lt_of_le hi hsize)

/-- **Loading the bytecode** copies the bytes that were written. -/
theorem exec_asebaLoadBytecode {saved : AsebaVMState} (hsize : saved.bytecodeSize ≠ 0xffff)
    (hfit : saved.bytecodeSize.toNat ≤ 2 * vmBytecodeSize) (vm : AsebaVMState) {s : FlashState}
    (hs : s.mem.peek asebaBytecodeStart (bytecodeImage saved).length = bytecodeImage saved) :
    (Program.exec (FlashState.step flashGeometry) (asebaLoadBytecode vm) s).result
      = some { vm with bytecode := memcpy vm.bytecode (savedBytes saved) } := by
  have hlen : (savedBytes saved).length = saved.bytecodeSize.toNat := by
    rw [savedBytes, List.length_take, length_leArray, Vector.length_toList]
    omega
  rw [bytecodeImage, List.length_append] at hs
  obtain ⟨hfront, hback⟩ := Memory.peek_of_append hs
  rw [length_leHalfBytes] at hfront hback
  rw [hlen] at hback
  have hback' : s.mem.peek (asebaBytecodeStart + 2) saved.bytecodeSize.toNat = savedBytes saved :=
    hback
  rw [asebaLoadBytecode, Program.exec_bind, exec_readBytes, Outcome.andThen_some, hfront,
    leHalf_leHalfBytes, if_pos hsize, Program.exec_bind, exec_readBytes, Outcome.andThen_some,
    hback']
  rfl

/-! ## What survives -/

/-- A copy of the first words of another array. -/
theorem toList_memcpy {n : ℕ} (dst : Vector UInt16 n) {ws : List UInt16} (h : ws.length ≤ n) :
    (memcpy dst (leArray ws)).toList = ws ++ dst.toList.drop ws.length := by
  have hlen : (ws ++ dst.toList.drop ws.length).length = n := by
    rw [List.length_append, List.length_drop, Vector.length_toList]
    omega
  show (leHalves (leArray ws ++ (leArray dst.toList).drop (leArray ws).length)).take n = _
  rw [length_leArray, drop_leArray, leHalves_leArray_append, leHalves_leArray,
    List.take_of_length_le hlen.le]

/-- The bytes that are written are those of the first half of the array. -/
theorem savedBytes_vmState (bytecode : Vector UInt16 vmBytecodeSize) :
    savedBytes (vmState bytecode)
      = leArray (bytecode.toList.take (vmBytecodeSize / 2)) := by
  rw [← take_leArray]
  rfl

theorem memcpy_eq_iff {n k : ℕ} (dst src : Vector UInt16 n) (hk : k ≤ n) :
    memcpy dst (leArray (src.toList.take k)) = src
      ↔ ∀ i (h : i < n), k ≤ i → dst[i] = src[i] := by
  have hlen : (src.toList.take k).length = k := by
    rw [List.length_take, Vector.length_toList]
    exact min_eq_left hk
  rw [← Vector.toList_inj, toList_memcpy dst (hlen.trans_le hk), hlen]
  constructor
  · intro h i hi hki
    have hdrop : dst.toList.drop k = src.toList.drop k :=
      List.append_cancel_left (h.trans (List.take_append_drop k src.toList).symm)
    have hget := congrArg (fun l => l[i - k]?) hdrop
    simpa [List.getElem?_drop, Nat.add_sub_cancel' hki, hi] using hget
  · intro h
    have hdrop : dst.toList.drop k = src.toList.drop k := by
      refine List.ext_getElem (by simp) (fun j hj _ => ?_)
      rw [List.length_drop, Vector.length_toList] at hj
      simpa using h (k + j) (by omega) (Nat.le_add_right k j)
    rw [hdrop, List.take_append_drop]

/-- Writing the bytecode of one machine and loading it into another. -/
def saveAndLoad (bytecode : Vector UInt16 vmBytecodeSize) (vm : AsebaVMState) :
    Flash AsebaVMState := do
  asebaWriteBytecode (vmState bytecode)
  asebaLoadBytecode vm

theorem exec_saveAndLoad (bytecode : Vector UInt16 vmBytecodeSize)
    (vm : AsebaVMState) (s : FlashState) :
    (Program.exec (FlashState.step flashGeometry) (saveAndLoad bytecode vm) s).result
      = some { vm with
          bytecode := memcpy vm.bytecode (leArray (bytecode.toList.take (vmBytecodeSize / 2))) } := by
  obtain ⟨hresult, hmem⟩ := exec_asebaWriteBytecode (vmState bytecode) s
  have himage := peek_bytecodeImage (vmState bytecode) s.mem
  rw [← hmem] at himage
  have hload := exec_asebaLoadBytecode (show UInt16.ofNat vmBytecodeSize ≠ 0xffff by decide)
    (show (UInt16.ofNat vmBytecodeSize).toNat ≤ 2 * vmBytecodeSize by decide) vm himage
  rw [saveAndLoad, Program.exec_bind, ← savedBytes_vmState, Outcome.result_andThen hresult]
  exact hload

/-- **What survives a reboot**: the array is restored exactly if the one that it is
loaded into already has the words of its second half. -/
theorem bytecode_restored_iff (bytecode : Vector UInt16 vmBytecodeSize)
    (s : FlashState) (vm : AsebaVMState) :
    (Program.exec (FlashState.step flashGeometry) (saveAndLoad bytecode vm) s).result
        = some { vm with bytecode := bytecode }
      ↔ ∀ i (h : i < vmBytecodeSize), vmBytecodeSize / 2 ≤ i → vm.bytecode[i] = bytecode[i] := by
  rw [exec_saveAndLoad, ← memcpy_eq_iff vm.bytecode bytecode (by decide), Option.some_inj]
  constructor
  · exact fun h => congrArg AsebaVMState.bytecode h
  · intro h
    rw [h]

/-- A machine that starts with a cleared array does not get back a full one. -/
theorem not_bytecode_restored : ¬ ∀ (bytecode : Vector UInt16 vmBytecodeSize)
    (s : FlashState) (vm : AsebaVMState),
    (Program.exec (FlashState.step flashGeometry) (saveAndLoad bytecode vm) s).result
      = some { vm with bytecode := bytecode } := by
  intro h
  have hload := h (Vector.replicate _ 1) ⟨fun _ => 0xff, true⟩ (vmState (Vector.replicate _ 0))
  rw [exec_saveAndLoad, Option.some_inj] at hload
  have hlast := (memcpy_eq_iff (k := vmBytecodeSize / 2) _ _ (by decide)).mp
    (congrArg AsebaVMState.bytecode hload) (vmBytecodeSize - 1) (by decide) (by decide)
  rw [vmState, Vector.getElem_replicate, Vector.getElem_replicate] at hlast
  exact absurd hlast (by decide)

end Aseba
