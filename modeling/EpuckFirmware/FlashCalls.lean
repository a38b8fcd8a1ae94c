import EpuckFirmware.AsebaBytecode
import EpuckFirmware.ConfigFlashStorage
import EpuckFirmware.ProgramRefinement

/-!
# Programs in terms of the flash driver

The rest of the firmware reads the flash through pointers and changes it by calls of
`flash/flash.c` only. `FlashCall` is such a call, and a program in terms of the driver
(`UsesDriver`) is one that programs of calls are lowered to. Saving, loading and erasing
the configuration are such programs, and so are writing and loading the bytecode.
-/

open Program

/-- **What the firmware does with the flash.** -/
inductive FlashCall where
  /-- Reading a byte through a pointer. -/
  | load (a : UInt32)
  /-- `flash_write`. -/
  | write (addr : UInt32) (data : List UInt8)
  /-- `flash_sector_erase`. -/
  | sectorErase (addr : UInt32)
  /-- `flash_lock`. -/
  | lock
  /-- `flash_unlock`. -/
  | unlock

abbrev FlashCall.Answer : FlashCall → Type
  | .load _ => UInt8
  | _ => Unit

/-- The calls on the device that the driver offers. -/
def FlashCall.device : (call : FlashCall) → Flash call.Answer
  | .load a => readByte a
  | .write addr data => flashWrite addr data
  | .sectorErase addr => flashSectorErase addr
  | .lock => flashLock
  | .unlock => flashUnlock

/-- **The program is written in terms of the driver.** -/
abbrev UsesDriver {α : Type} (p : Flash α) : Prop := Via FlashCall.device p

section UsesDriver

variable {α : Type}

theorem usesDriver_readByte (a : UInt32) : UsesDriver (readByte a) := Via.call (FlashCall.load a)

theorem usesDriver_flashWrite (addr : UInt32) (data : List UInt8) :
    UsesDriver (flashWrite addr data) := Via.call (FlashCall.write addr data)

theorem usesDriver_flashSectorErase (addr : UInt32) : UsesDriver (flashSectorErase addr) :=
  Via.call (FlashCall.sectorErase addr)

theorem usesDriver_flashLock : UsesDriver flashLock := Via.call FlashCall.lock

theorem usesDriver_flashUnlock : UsesDriver flashUnlock := Via.call FlashCall.unlock

theorem usesDriver_readBytes (a : UInt32) (n : ℕ) : UsesDriver (readBytes a n) := by
  induction n generalizing a with
  | zero => exact Via.pure _
  | succ n ih => exact (usesDriver_readByte a).bind (fun _ => (ih _).bind (fun _ => Via.pure _))

theorem usesDriver_readWord (a : UInt32) : UsesDriver (readWord a) :=
  (usesDriver_readBytes a 4).bind (fun _ => Via.pure _)

/-! ## The bytecode -/

theorem usesDriver_asebaWriteBytecode (vm : Aseba.AsebaVMState) :
    UsesDriver (Aseba.asebaWriteBytecode vm) :=
  usesDriver_flashUnlock.bind fun _ =>
    (usesDriver_flashSectorErase _).bind fun _ =>
      (usesDriver_flashWrite _ _).bind fun _ =>
        (usesDriver_flashWrite _ _).bind fun _ => usesDriver_flashLock

theorem usesDriver_asebaLoadBytecode (vm : Aseba.AsebaVMState) :
    UsesDriver (Aseba.asebaLoadBytecode vm) :=
  (usesDriver_readBytes _ 2).bind fun _ =>
    Via.ite ((usesDriver_readBytes _ _).bind fun _ => Via.pure _) (Via.pure _)

/-! ## The configuration -/

variable (crc32 : UInt32 → List UInt8 → UInt32)

theorem usesDriver_cmpFlashWriter (mem : CmpMemAccess) (data : List UInt8) :
    UsesDriver (cmpFlashWriter mem data) :=
  Via.ite ((usesDriver_flashWrite _ _).bind fun _ => Via.pure _) (Via.pure _)

/-- The encoder writes through its writer only. -/
theorem usesDriver_parameterMsgpackWriteCmp (w : MsgpackWriter) (mem : CmpMemAccess)
    (success : Bool) : UsesDriver (parameterMsgpackWriteCmp w mem success) := by
  induction w generalizing mem success with
  | done => exact Via.pure _
  | write data next ih =>
    exact (usesDriver_cmpFlashWriter mem data).bind fun _ => Via.ite (ih _ _ _) (ih _ _ _)

theorem usesDriver_configBlockIsValid (block : UInt32) :
    UsesDriver (configBlockIsValid crc32 block) :=
  (usesDriver_readWord _).bind fun _ => (usesDriver_readWord _).bind fun _ =>
    Via.ite (Via.pure _) ((usesDriver_readWord _).bind fun _ =>
      (usesDriver_readBytes _ _).bind fun _ => Via.pure _)

theorem usesDriver_configWriteBlockHeader (dst len : UInt32) :
    UsesDriver (configWriteBlockHeader crc32 dst len) :=
  (usesDriver_flashWrite _ _).bind fun _ => (usesDriver_flashWrite _ _).bind fun _ =>
    (usesDriver_readBytes _ _).bind fun _ => usesDriver_flashWrite _ _

theorem usesDriver_configBlockFindLastUsedLoop (fuel : ℕ) (block : UInt32)
    (last : Option UInt32) : UsesDriver (configBlockFindLastUsedLoop crc32 fuel block last) := by
  induction fuel generalizing block last with
  | zero => exact Via.timeout
  | succ fuel ih =>
    exact (usesDriver_configBlockIsValid crc32 block).bind fun _ =>
      Via.ite ((usesDriver_readWord _).bind fun _ => ih _ _) (Via.pure _)

theorem usesDriver_configBlockFindFirstFree (fuel : ℕ) (block : UInt32) :
    UsesDriver (configBlockFindFirstFree crc32 fuel block) := by
  induction fuel generalizing block with
  | zero => exact Via.timeout
  | succ fuel ih =>
    exact (usesDriver_configBlockIsValid crc32 block).bind fun _ =>
      Via.ite ((usesDriver_readWord _).bind fun _ => ih _) (Via.pure _)

theorem usesDriver_configSave (ns : ParameterNamespace) (fuel : ℕ) (dst dstLen : UInt32) :
    UsesDriver (configSave crc32 ns fuel dst dstLen) := by
  induction fuel with
  | zero => exact Via.timeout
  | succ fuel ih =>
    refine usesDriver_flashUnlock.bind fun _ =>
      (usesDriver_configBlockFindLastUsedLoop crc32 _ _ _).bind fun _ =>
      (Via.ite (usesDriver_flashSectorErase _) (Via.pure _)).bind fun _ =>
      (usesDriver_configBlockFindFirstFree crc32 _ _).bind fun _ =>
      (Via.ite ((usesDriver_flashSectorErase _).bind fun _ => Via.pure _) (Via.pure _)).bind
        fun _ => (usesDriver_parameterMsgpackWriteCmp _ _ _).bind fun _ => Via.ite ?_ ?_
    · exact (usesDriver_flashSectorErase _).bind fun _ => usesDriver_flashLock.bind fun _ => ih
    · exact (usesDriver_configWriteBlockHeader crc32 _ _).bind fun _ => usesDriver_flashLock

theorem usesDriver_configErase (dst : UInt32) : UsesDriver (configErase dst) :=
  usesDriver_flashUnlock.bind fun _ =>
    (usesDriver_flashSectorErase dst).bind fun _ => usesDriver_flashLock

theorem usesDriver_configLoad {τ : Type} (read : τ → List UInt8 → ℤ × τ) (fuel : ℕ) (ns : τ)
    (src : UInt32) : UsesDriver (configLoad crc32 read fuel ns src) := by
  refine (usesDriver_configBlockFindLastUsedLoop crc32 _ _ _).bind fun block => ?_
  cases block with
  | none => exact Via.pure _
  | some src =>
    exact (usesDriver_readWord _).bind fun _ => (usesDriver_readBytes _ _).bind fun _ =>
      Via.ite (Via.pure _) (Via.pure _)

end UsesDriver
