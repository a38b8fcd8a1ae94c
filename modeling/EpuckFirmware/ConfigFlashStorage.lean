import EpuckFirmware.Flash

/-!
# The configuration store

`config_flash_storage.c`: the parameter tree is kept in one flash sector as a
sequence of blocks, each a header followed by an encoding of the tree. A header
is three 32-bit words: a checksum of the length, the length, and a checksum of
the data. Saving appends a block, or erases the sector first when there is no
valid block or no room; loading takes the last block of the sequence.

Two libraries are not part of the repository. `crc32` is a parameter of every
function that uses it. `parameter_msgpack_write_cmp` is known through the calls
of `cmp.write` it makes: `MsgpackWriter` is the tree of these calls, each of which may
depend on whether the earlier ones succeeded, and `encode` is what it emits when
they all do. It calls the error callback when, and only when, a write returns 0.

The loops of the source have no bound, so the functions that contain one take a
fuel argument. Running out of it is `Program.timeout`, so that a run which
completes is one whose result is not `none`.
-/

/-- `CRC_INITIAL_VALUE`. -/
def crcInitialValue : UInt32 := 0xdeadbeef

/-- `CONFIG_HEADER_SIZE`, three 32-bit words. -/
def configHeaderSize : UInt32 := 3 * 4

/-- `cmp_mem_access_t`: a buffer, its size and the position in it. -/
structure CmpMemAccess where
  /-- Where the buffer starts. -/
  buf : UInt32
  /-- How many bytes it has. -/
  size : UInt32
  /-- How many were written. -/
  index : UInt32

/-- `cmp_mem_access_init`. -/
def cmpMemAccessInit (buf size : UInt32) : CmpMemAccess := ⟨buf, size, 0⟩

/-- `cmp_mem_access_get_pos`. -/
def cmpMemAccessGetPos (mem : CmpMemAccess) : UInt32 := mem.index

/-- **The writes of an encoder**: it stops, or writes some bytes and goes on in
a way that may depend on whether the write succeeded. -/
inductive MsgpackWriter where
  /-- Nothing more to write. -/
  | done
  /-- Write `data`, then go on. -/
  | write (data : List UInt8) (next : Bool → MsgpackWriter)

namespace MsgpackWriter

/-- What is emitted when every write succeeds. -/
def encode : MsgpackWriter → List UInt8
  | .done => []
  | .write data next => data ++ (next true).encode

/-- The most bytes the encoder ever hands to `cmp.write`. -/
def total : MsgpackWriter → ℕ
  | .done => 0
  | .write data next => data.length + max (next true).total (next false).total

/-- No write of the encoding is empty. -/
def NoEmptyWrite : MsgpackWriter → Prop
  | .done => True
  | .write data next => data ≠ [] ∧ (next true).NoEmptyWrite

end MsgpackWriter

/-- **A parameter tree to be saved**, known through its encoder: it emits at
least one byte, and never as many as there are addresses. -/
structure ParameterNamespace where
  /-- The writes `parameter_msgpack_write_cmp` makes. -/
  writer : MsgpackWriter
  /-- The encoding is not empty. -/
  nonempty : writer.encode ≠ []
  /-- It can be counted in a `size_t`. -/
  bounded : writer.total < 2 ^ 32

/-- The encoding of a parameter tree. -/
def ParameterNamespace.enc (ns : ParameterNamespace) : List UInt8 := ns.writer.encode

/-- `cmp_flash_writer`: the bytes written, or 0 when they do not fit, and the
buffer afterwards. -/
def cmpFlashWriter (mem : CmpMemAccess) (data : List UInt8) : Flash (UInt32 × CmpMemAccess) :=
  let len := UInt32.ofNat data.length
  if mem.index + len ≤ mem.size then do
    flashWrite (mem.buf + mem.index) data
    pure (len, { mem with index := mem.index + len })
  else
    pure (0, mem)

/-- `err_mark_false`, the error callback. -/
def errMarkFalse (_ : Bool) : Bool := false

/-- `parameter_msgpack_write_cmp` with `cmp_flash_writer` as its writer and
`err_mark_false` as its error callback: the buffer and the success flag. -/
def parameterMsgpackWriteCmp :
    MsgpackWriter → CmpMemAccess → Bool → Flash (CmpMemAccess × Bool)
  | .done, mem, success => pure (mem, success)
  | .write data next, mem, success => do
    let ret ← cmpFlashWriter mem data
    if ret.1 = 0 then
      parameterMsgpackWriteCmp (next false) ret.2 (errMarkFalse success)
    else
      parameterMsgpackWriteCmp (next true) ret.2 success

section Crc

variable (crc32 : UInt32 → List UInt8 → UInt32)

/-- `config_block_is_valid`. -/
def configBlockIsValid (block : UInt32) : Flash Bool := do
  let crc ← readWord block
  let length ← readWord (block + 4)
  -- check that the length is valid
  if crc ≠ crc32 crcInitialValue (leBytes length) then
    pure false
  else do
    -- check that the data checksum is valid
    let crc ← readWord (block + 8)
    let data ← readBytes (block + configHeaderSize) length.toNat
    pure (crc = crc32 crcInitialValue data)

/-- `config_write_block_header`: the data checksum is taken from what the flash
holds behind the header. -/
def configWriteBlockHeader (dst len : UInt32) : Flash Unit := do
  flashWrite dst (leBytes (crc32 crcInitialValue (leBytes len)))
  flashWrite (dst + 4) (leBytes len)
  let data ← readBytes (dst + configHeaderSize) len.toNat
  flashWrite (dst + 8) (leBytes (crc32 crcInitialValue data))

/-- `config_block_get_length`. -/
def configBlockGetLength (block : UInt32) : Flash UInt32 := readWord (block + 4)

/-- The loop of `config_block_find_last_used`. -/
def configBlockFindLastUsedLoop : ℕ → UInt32 → Option UInt32 → Flash (Option UInt32)
  | 0, _, _ => .timeout
  | fuel + 1, block, last => do
    let valid ← configBlockIsValid crc32 block
    if valid then do
      let length ← configBlockGetLength block
      configBlockFindLastUsedLoop fuel (block + length + configHeaderSize) (some block)
    else
      pure last

/-- `config_block_find_last_used`: `none` is the null pointer. -/
def configBlockFindLastUsed (fuel : ℕ) (p : UInt32) : Flash (Option UInt32) :=
  configBlockFindLastUsedLoop crc32 fuel p none

/-- `config_block_find_first_free`. -/
def configBlockFindFirstFree : ℕ → UInt32 → Flash UInt32
  | 0, _ => .timeout
  | fuel + 1, block => do
    let valid ← configBlockIsValid crc32 block
    if valid then do
      let length ← configBlockGetLength block
      configBlockFindFirstFree fuel (block + length + configHeaderSize)
    else
      pure block

/-- `config_save`. -/
def configSave (ns : ParameterNamespace) : ℕ → UInt32 → UInt32 → Flash Unit
  | 0, _, _ => .timeout
  | fuel + 1, origDst, dstLen => do
    flashUnlock
    -- no valid block: erase, just to start from a pristine state
    let last ← configBlockFindLastUsed crc32 fuel origDst
    (if last = none then flashSectorErase origDst else pure ())
    let free ← configBlockFindFirstFree crc32 fuel origDst
    -- too small to fit even the header: erase
    let (dst, len) ←
      (if dstLen - (free - origDst) ≤ configHeaderSize then do
        flashSectorErase origDst
        pure (origDst, dstLen)
      else
        pure (free, dstLen - (free - origDst)))
    let mem := cmpMemAccessInit (dst + configHeaderSize) (len - configHeaderSize)
    let (mem, success) ← parameterMsgpackWriteCmp ns.writer mem true
    if success = false then do
      flashSectorErase origDst
      flashLock
      configSave ns fuel origDst dstLen
    else do
      configWriteBlockHeader crc32 dst (cmpMemAccessGetPos mem)
      flashLock

/-- `config_erase`. -/
def configErase (dst : UInt32) : Flash Unit := do
  flashUnlock
  flashSectorErase dst
  flashLock

/-- `config_load`: the success flag and the parameter tree afterwards. What
`parameter_msgpack_read` does with the bytes it is handed is a parameter; it
replies 0 when it could assign them. -/
def configLoad {τ : Type} (parameterMsgpackRead : τ → List UInt8 → ℤ × τ) (fuel : ℕ)
    (ns : τ) (src : UInt32) : Flash (Bool × τ) := do
  let block ← configBlockFindLastUsed crc32 fuel src
  match block with
  | none => pure (false, ns)
  | some src => do
    let srcLen ← configBlockGetLength src
    let data ← readBytes (src + configHeaderSize) srcLen.toNat
    let (res, ns) := parameterMsgpackRead ns data
    if res ≠ 0 then pure (false, ns) else pure (true, ns)

/-! ## The two places that save -/

/-- `_config_start` of the linker scripts. -/
def configStart : UInt32 := 0x080e0000

/-- `_config_end`, 128 KiB further. -/
def configEnd : UInt32 := configStart + 128 * 1024

/-- The sector of the configuration. -/
def configSector : Sector flashGeometry where
  base := configStart
  size := 128 * 1024
  fits := by decide
  erase_iff := flashGeometry_last

/-- Who asks for the configuration to be saved. -/
inductive Saver where
  /-- The command `config_save` of the shell. -/
  | shell
  /-- The native function `_system.settings.flash` of the virtual machine. -/
  | aseba
  deriving DecidableEq

/-- The length each of them passes for the sector. Both subtract the two linker
symbols: the shell as pointers to bytes, the virtual machine as pointers to
32-bit words. -/
def Saver.dstLen : Saver → UInt32
  | .shell => configEnd - configStart
  | .aseba => (configEnd - configStart) / 4

/-- `cmd_config_save` and `AsebaNative_settings_save`: save, then load what was
saved to see whether it failed. They differ in the length they pass. -/
def settingsSave {τ : Type} (parameterMsgpackRead : τ → List UInt8 → ℤ × τ) (fuel : ℕ)
    (who : Saver) (ns : ParameterNamespace) (root : τ) : Flash (Bool × τ) := do
  configSave crc32 ns fuel configStart who.dstLen
  configLoad crc32 parameterMsgpackRead fuel root configStart

/-- `cmd_config_save`: the text printed and the parameter tree afterwards. -/
def cmdConfigSave {τ : Type} (parameterMsgpackRead : τ → List UInt8 → ℤ × τ) (fuel : ℕ)
    (ns : ParameterNamespace) (root : τ) : Flash (String × τ) := do
  let (success, root) ← settingsSave crc32 parameterMsgpackRead fuel .shell ns root
  pure (if success then "OK.\r\n" else "Save failed.\r\n", root)

/-- `AsebaNative_settings_save`: the error emitted, if any, and the parameter
tree afterwards. -/
def asebaNativeSettingsSave {τ : Type} (parameterMsgpackRead : τ → List UInt8 → ℤ × τ)
    (fuel : ℕ) (ns : ParameterNamespace) (root : τ) : Flash (Option String × τ) := do
  let (success, root) ← settingsSave crc32 parameterMsgpackRead fuel .aseba ns root
  pure (if success then none else some "Config save failed!", root)

end Crc
