import EpuckFirmware.ConfigLog

/-!
# What one attempt to save does

The writing half of the store. `config_save` makes an *attempt*: it chooses a
place, hands the encoder a buffer behind the header, and writes the header if no
write was refused. If one was, it erases the sector and calls itself again.

An attempt succeeds exactly when no write of the encoding is empty – `cmp.write`
returning 0 is its only sign of failure – and the encoding fits in the buffer
(`Fits`, `exec_writer_place`). `exec_saveAt_success` and `exec_saveAt_retry` say
what an attempt of either kind does, and every later fact about saving is derived
from them.
-/

namespace ConfigStore

open BoundedLog

variable (g : Geometry)

/-! ## The encoder's writes -/

/-- Every operation of a list programs a byte of the buffer of `size` bytes at
`buf`. -/
def WritesInto (buf : UInt32) (size : ℕ) (os : List FlashOp) : Prop :=
  ∀ o ∈ os, ∃ j < size, ∃ b, o = .program (buf + UInt32.ofNat j) b

theorem writesInto_nil (buf : UInt32) (size : ℕ) : WritesInto buf size [] := by
  intro o ho
  cases ho

theorem WritesInto.append {buf : UInt32} {size : ℕ} {xs ys : List FlashOp}
    (hx : WritesInto buf size xs) (hy : WritesInto buf size ys) :
    WritesInto buf size (xs ++ ys) := by
  intro o ho
  rcases List.mem_append.mp ho with ho | ho
  · exact hx o ho
  · exact hy o ho

/-- Writing some bytes at a position of the buffer where they fit. -/
theorem writesInto_writes (buf : UInt32) {size i : ℕ} {data : List UInt8}
    (h : i + data.length ≤ size) :
    WritesInto buf size (writes (buf + UInt32.ofNat i) data) := by
  intro o ho
  obtain ⟨⟨x, b⟩, hp, rfl⟩ := List.mem_map.mp ho
  obtain ⟨j, hj, rfl, -⟩ := Memory.mem_cells.mp hp
  exact ⟨i + j, by omega, b, by rw [UInt32.ofNat_add, UInt32.add_assoc]⟩

/-- A write that fits, on an unlocked device. -/
theorem exec_cmpFlashWriter_fits {mem : CmpMemAccess} {data : List UInt8} {s : FlashState}
    (hs : s.locked = false) (h : mem.index.toNat + data.length ≤ mem.size.toNat) :
    Program.exec (FlashState.step g) (cmpFlashWriter mem data) s
      = ⟨some (UInt32.ofNat data.length,
            { mem with index := mem.index + UInt32.ofNat data.length }),
          { s with mem := s.mem.burn (mem.buf + mem.index) data },
          writes (mem.buf + mem.index) data⟩ := by
  have hsize := mem.size.toNat_lt
  have hle : mem.index + UInt32.ofNat data.length ≤ mem.size := by
    rw [UInt32.le_iff_toNat_le, UInt32.toNat_add, UInt32.toNat_ofNat']
    omega
  simp only [cmpFlashWriter, hle, if_true, Program.exec_bind, exec_flashWrite g _ _ hs,
    Outcome.andThen_some, Program.exec_pure, List.append_nil]

/-- A write that does not fit, its end being countable. -/
theorem exec_cmpFlashWriter_full {mem : CmpMemAccess} {data : List UInt8} (s : FlashState)
    (hlt : mem.index.toNat + data.length < 2 ^ 32)
    (h : mem.size.toNat < mem.index.toNat + data.length) :
    Program.exec (FlashState.step g) (cmpFlashWriter mem data) s
      = ⟨some (0, mem), s, []⟩ := by
  have hle : ¬ mem.index + UInt32.ofNat data.length ≤ mem.size := by
    rw [UInt32.le_iff_toNat_le, UInt32.toNat_add, UInt32.toNat_ofNat']
    omega
  simp only [cmpFlashWriter, hle, if_false, Program.exec_pure]

/-- After a failed write the encoder does not succeed any more. -/
theorem ne_true_of_errMarkFalse {ok ok' : Bool} {p : Prop}
    (h : ok' = true ↔ errMarkFalse ok = true ∧ p) : ok' ≠ true := by
  intro hok
  have hfalse : false = true := (h.mp hok).1
  cases hfalse

/-- What the encoder returns and leaves behind, on an unlocked device: it
completes, keeps the buffer where it is, and programs only bytes of it. -/
theorem exec_writer (w : MsgpackWriter) (mem : CmpMemAccess) (ok : Bool) (s : FlashState)
    (hs : s.locked = false) (hidx : mem.index.toNat ≤ mem.size.toNat)
    (hw : mem.index.toNat + w.total < 2 ^ 32) :
    ∃ mem' ok' m' t,
      Program.exec (FlashState.step g) (parameterMsgpackWriteCmp w mem ok) s
          = ⟨some (mem', ok'), { s with mem := m' }, t⟩
        ∧ WritesInto mem.buf mem.size.toNat t
        ∧ (ok' = true ↔ ok = true ∧ w.NoEmptyWrite
            ∧ mem.index.toNat + w.encode.length ≤ mem.size.toNat)
        ∧ (ok' = true → mem'.index = mem.index + UInt32.ofNat w.encode.length
            ∧ m' = s.mem.burn (mem.buf + mem.index) w.encode
            ∧ t = writes (mem.buf + mem.index) w.encode) := by
  induction w generalizing mem ok s with
  | done =>
    refine ⟨mem, ok, s.mem, [], rfl, writesInto_nil _ _, ?_, ?_⟩
    · simp [MsgpackWriter.NoEmptyWrite, MsgpackWriter.encode, hidx]
    · intro _
      refine ⟨?_, rfl, rfl⟩
      rw [MsgpackWriter.encode, show UInt32.ofNat ([] : List UInt8).length = 0 from rfl,
        UInt32.add_zero]
  | write data next ih =>
    rw [MsgpackWriter.total] at hw
    by_cases hfit : mem.index.toNat + data.length ≤ mem.size.toNat
    · -- the write is accepted; it counts as a failure only when it is empty
      have hsize := mem.size.toNat_lt
      have hlen : (UInt32.ofNat data.length).toNat = data.length := by
        rw [UInt32.toNat_ofNat']
        exact Nat.mod_eq_of_lt (by omega)
      have hidx' : (mem.index + UInt32.ofNat data.length).toNat
          = mem.index.toNat + data.length := by
        rw [UInt32.toNat_add, hlen]
        exact Nat.mod_eq_of_lt (by omega)
      have hwrites : WritesInto mem.buf mem.size.toNat (writes (mem.buf + mem.index) data) := by
        have hin := writesInto_writes mem.buf hfit
        rwa [UInt32.ofNat_toNat] at hin
      by_cases hempty : data = []
      · subst hempty
        obtain ⟨mem', ok', m', t, hex, hin, hok, -⟩ :=
          ih false { mem with index := mem.index + UInt32.ofNat ([] : List UInt8).length }
            (errMarkFalse ok)
            { s with mem := s.mem.burn (mem.buf + mem.index) [] } hs
            (by rw [hidx']; exact hfit) (by rw [hidx']; omega)
        refine ⟨mem', ok', m', writes (mem.buf + mem.index) [] ++ t, ?_, hwrites.append hin, ?_, ?_⟩
        · simp only [parameterMsgpackWriteCmp, Program.exec_bind,
            exec_cmpFlashWriter_fits g hs hfit, Outcome.andThen_some, List.length_nil,
            show UInt32.ofNat 0 = 0 from rfl, if_true]
          simp only [List.length_nil, show UInt32.ofNat 0 = 0 from rfl] at hex
          rw [hex]
        · simp [ne_true_of_errMarkFalse hok, MsgpackWriter.NoEmptyWrite]
        · exact fun h => absurd h (ne_true_of_errMarkFalse hok)
      · have hret : UInt32.ofNat data.length ≠ 0 := by
          intro h0
          have h1 := congrArg UInt32.toNat h0
          rw [hlen] at h1
          exact hempty (List.length_eq_zero_iff.mp h1)
        obtain ⟨mem', ok', m', t, hex, hin, hok, hdone⟩ :=
          ih true { mem with index := mem.index + UInt32.ofNat data.length } ok
            { s with mem := s.mem.burn (mem.buf + mem.index) data } hs
            (by rw [hidx']; exact hfit) (by rw [hidx']; omega)
        refine ⟨mem', ok', m', writes (mem.buf + mem.index) data ++ t, ?_, hwrites.append hin,
          ?_, ?_⟩
        · simp only [parameterMsgpackWriteCmp, Program.exec_bind,
            exec_cmpFlashWriter_fits g hs hfit, Outcome.andThen_some, hret, if_false, hex]
        · rw [hok, hidx', MsgpackWriter.NoEmptyWrite, MsgpackWriter.encode, List.length_append]
          refine and_congr_right (fun _ => and_congr ?_ ?_)
          · exact (and_iff_right hempty).symm
          · rw [Nat.add_assoc]
        · intro h
          obtain ⟨hi, hm, ht⟩ := hdone h
          rw [MsgpackWriter.encode, List.length_append]
          have hcat : mem.buf + (mem.index + UInt32.ofNat data.length)
              = mem.buf + mem.index + UInt32.ofNat data.length := (UInt32.add_assoc _ _ _).symm
          refine ⟨?_, ?_, ?_⟩
          · rw [hi, UInt32.ofNat_add, UInt32.add_assoc]
          · rw [hm, hcat, Memory.burn_append]
          · rw [ht, hcat, writes, writes, writes, Memory.cells_append, List.map_append]
    · -- the write is refused
      obtain ⟨mem', ok', m', t, hex, hin, hok, -⟩ := ih false mem (errMarkFalse ok) s hs hidx
        (by omega)
      have hfull : Program.exec (FlashState.step g) (cmpFlashWriter mem data) s
          = ⟨some (0, mem), s, []⟩ := exec_cmpFlashWriter_full g s (by omega) (by omega)
      refine ⟨mem', ok', m', t, ?_, hin, ?_, ?_⟩
      · simp only [parameterMsgpackWriteCmp, Program.exec_bind, hfull, Outcome.andThen_some,
          if_true, hex, List.nil_append]
      · have hlong : ¬ mem.index.toNat + (MsgpackWriter.write data next).encode.length
            ≤ mem.size.toNat := by
          rw [MsgpackWriter.encode, List.length_append]
          omega
        simp [ne_true_of_errMarkFalse hok, hlong]
      · exact fun h => absurd h (ne_true_of_errMarkFalse hok)

section Crc

variable (crc32 : UInt32 → List UInt8 → UInt32)

/-! ## The header -/

/-- What writing a header does to the device, in order: the length checksum, the
length, reading the data back, the data checksum. -/
def headerOps (m : Memory) (dst len : UInt32) : List FlashOp :=
  writes dst (leBytes (crc32 crcInitialValue (leBytes len)))
    ++ writes (dst + 4) (leBytes len)
    ++ reads (dst + configHeaderSize) len.toNat
    ++ writes (dst + 8)
        (leBytes (crc32 crcInitialValue (m.peek (dst + configHeaderSize) len.toNat)))

/-- **Writing a header**, on an unlocked device: its data checksum is that of
the bytes the flash holds. -/
theorem exec_configWriteBlockHeader {dst len : UInt32} {s : FlashState}
    (hs : s.locked = false) (hlen : 12 + len.toNat ≤ 2 ^ 32) :
    Program.exec (FlashState.step g) (configWriteBlockHeader crc32 dst len) s
      = ⟨some (),
          ⟨s.mem.burn dst
            (headerOf crc32 len (s.mem.peek (dst + configHeaderSize) len.toNat)), s.locked⟩,
          headerOps crc32 s.mem dst len⟩ := by
  set lenCrc := leBytes (crc32 crcInitialValue (leBytes len)) with hlenCrc
  -- the two words written first leave the data alone
  have hcat : ∀ m : Memory, (m.burn dst lenCrc).burn (dst + 4) (leBytes len)
      = m.burn dst (lenCrc ++ leBytes len) := by
    intro m
    rw [Memory.burn_append, hlenCrc, length_leBytes]
    rfl
  have hback : (s.mem.burn dst (lenCrc ++ leBytes len)).peek (dst + configHeaderSize) len.toNat
      = s.mem.peek (dst + configHeaderSize) len.toNat :=
    Memory.peek_burn_behind s.mem dst (by simp [hlenCrc]) hlen
  have hdata : ∀ d : List UInt8,
      (s.mem.burn dst (lenCrc ++ leBytes len)).burn (dst + 8) (leBytes (crc32 crcInitialValue d))
        = s.mem.burn dst (headerOf crc32 len d) := by
    intro d
    rw [headerOf, Memory.burn_append _ _ (lenCrc ++ leBytes len)]
    simp only [hlenCrc, List.length_append, length_leBytes]
    rfl
  unfold configWriteBlockHeader headerOps
  rw [Program.exec_bind, exec_flashWrite g _ _ hs, Outcome.andThen_some, Program.exec_bind,
    exec_flashWrite g _ _ (by exact hs), Outcome.andThen_some, Program.exec_bind, exec_readBytes,
    Outcome.andThen_some, exec_flashWrite g _ _ (by exact hs)]
  simp only [← hlenCrc, hcat, hback, hdata, List.append_assoc]

/-! ## The attempt -/

variable {g} (S : Sector g)

/-- The memory the place is looked for in: the sector is erased first when no
valid block was found. -/
def pristine (m : Memory) (as : List UInt32) : Memory := if as = [] then S.wipe m else m

/-- Where the block goes, how much room there is from there on, and the memory
it is written to. -/
structure Place where
  /-- The memory before the block is written. -/
  mem : Memory
  /-- Where the block starts. -/
  dst : UInt32
  /-- The room for header and data. -/
  len : UInt32

/-- **The place chosen**: the end of the walk, or the start of the sector,
erased, when the room there does not exceed a header. The room is computed as
the code does, without a sign. -/
def choosePlace (dstLen : UInt32) (m : Memory) (free : UInt32) : Place :=
  if dstLen - (free - S.base) ≤ configHeaderSize then ⟨S.wipe m, S.base, dstLen⟩
  else ⟨m, free, dstLen - (free - S.base)⟩

/-- What an attempt does to the device before it writes. -/
def placeOps (dstLen : UInt32) (m : Memory) (as as' : List UInt32) (e e' : UInt32) :
    List FlashOp :=
  .unlock :: (walkReads crc32 m as e
    ++ ((if as = [] then [.erase (flashAddrToSector S.base)] else [])
    ++ (walkReads crc32 (pristine S m as) as' e'
    ++ if dstLen - (e' - S.base) ≤ configHeaderSize then [.erase (flashAddrToSector S.base)]
      else [])))

/-- The rest of `config_save`, from the choice of the place on. -/
def saveAt (ns : ParameterNamespace) (fuel : ℕ) (origDst dstLen dst len : UInt32) :
    Flash Unit := do
  let mem := cmpMemAccessInit (dst + configHeaderSize) (len - configHeaderSize)
  let (mem, success) ← parameterMsgpackWriteCmp ns.writer mem true
  if success = false then do
    flashSectorErase origDst
    flashLock
    configSave crc32 ns fuel origDst dstLen
  else do
    configWriteBlockHeader crc32 dst (cmpMemAccessGetPos mem)
    flashLock

variable {crc32 S}

/-- **`config_save` looks for a place and writes there.** -/
theorem exec_configSave_place {ns : ParameterNamespace} {dstLen : UInt32} {s : FlashState}
    {as as' : List UInt32} {e e' : UInt32} (h : Walk crc32 s.mem S.base as e)
    (h' : Walk crc32 (pristine S s.mem as) S.base as' e') {fuel : ℕ} (hf : as.length < fuel)
    (hf' : as'.length < fuel) {x : Outcome FlashOp FlashState Unit}
    (hx : Program.exec (FlashState.step g)
      (saveAt crc32 ns fuel S.base dstLen
        (choosePlace S dstLen (pristine S s.mem as) e').dst
        (choosePlace S dstLen (pristine S s.mem as) e').len)
      ⟨(choosePlace S dstLen (pristine S s.mem as) e').mem, false⟩ = x) :
    Program.exec (FlashState.step g) (configSave crc32 ns (fuel + 1) S.base dstLen) s
      = ⟨x.result, x.state, placeOps crc32 S dstLen s.mem as as' e e' ++ x.trace⟩ := by
  have hlast : as.getLast? = none ↔ as = [] := List.getLast?_eq_none_iff
  -- the erase of a sector without a valid block
  have herase : Program.exec (FlashState.step g)
      (if as.getLast? = none then flashSectorErase S.base else pure () : Flash Unit)
      ⟨s.mem, false⟩
      = ⟨some (), ⟨pristine S s.mem as, false⟩,
          if as = [] then [.erase (flashAddrToSector S.base)] else []⟩ := by
    by_cases has : as = []
    · rw [if_pos (hlast.mpr has), exec_flashSectorErase g S.base (by rfl), pristine,
        if_pos has, if_pos has]
      rfl
    · rw [if_neg (fun hc => has (hlast.mp hc)), pristine, if_neg has, if_neg has]
      rfl
  -- the choice between the end of the walk and the erased sector
  have hchoose : Program.exec (FlashState.step g)
      (if dstLen - (e' - S.base) ≤ configHeaderSize then do
        flashSectorErase S.base
        pure (S.base, dstLen)
      else pure (e', dstLen - (e' - S.base)) : Flash (UInt32 × UInt32))
      ⟨pristine S s.mem as, false⟩
      = ⟨some ((choosePlace S dstLen (pristine S s.mem as) e').dst,
            (choosePlace S dstLen (pristine S s.mem as) e').len),
          ⟨(choosePlace S dstLen (pristine S s.mem as) e').mem, false⟩,
          if dstLen - (e' - S.base) ≤ configHeaderSize then
            [.erase (flashAddrToSector S.base)] else []⟩ := by
    unfold choosePlace
    by_cases hroom : dstLen - (e' - S.base) ≤ configHeaderSize
    · simp only [if_pos hroom, Program.exec_bind,
        exec_flashSectorErase g S.base (s := ⟨_, false⟩) rfl, Outcome.andThen_some,
        Program.exec_pure, List.append_nil]
      rfl
    · simp only [if_neg hroom, Program.exec_pure]
  unfold saveAt at hx
  unfold configSave placeOps
  simp only [Program.exec_bind, exec_flashUnlock, Outcome.andThen_some,
    exec_configBlockFindLastUsed g (s := ⟨s.mem, false⟩) h hf, herase,
    exec_configBlockFindFirstFree g (s := ⟨pristine S s.mem as, false⟩) h' hf', hchoose,
    ← hx, List.append_assoc, List.cons_append, List.nil_append]

/-- The memory after a block was written: the data first, then the header, whose
data checksum is taken from the memory. -/
def storeBlock (crc32 : UInt32 → List UInt8 → UInt32) (m : Memory) (dst : UInt32)
    (data : List UInt8) : Memory :=
  (m.burn (dst + configHeaderSize) data).burn dst
    (headerOf crc32 (UInt32.ofNat data.length)
      ((m.burn (dst + configHeaderSize) data).peek (dst + configHeaderSize) data.length))

/-- What writing a block does to the device. -/
def storeOps (crc32 : UInt32 → List UInt8 → UInt32) (m : Memory) (dst : UInt32)
    (data : List UInt8) : List FlashOp :=
  writes (dst + configHeaderSize) data
    ++ (headerOps crc32 (m.burn (dst + configHeaderSize) data) dst (UInt32.ofNat data.length)
    ++ [.lock])

/-- The encoding fits into the room, and the encoder makes no write that looks
like a failure. -/
def Fits (ns : ParameterNamespace) (len : UInt32) : Prop :=
  ns.writer.NoEmptyWrite ∧ ns.enc.length ≤ (len - configHeaderSize).toNat

theorem total_ge_length (w : MsgpackWriter) : w.encode.length ≤ w.total := by
  induction w with
  | done => exact Nat.le_refl 0
  | write data next ih =>
    have hnext := ih true
    rw [MsgpackWriter.encode, MsgpackWriter.total, List.length_append]
    omega

/-- An encoding is shorter than the address space. -/
theorem length_enc_lt (ns : ParameterNamespace) : ns.enc.length < 2 ^ 32 :=
  lt_of_le_of_lt (total_ge_length ns.writer) ns.bounded

/-- **The encoder at the place chosen**: it succeeds exactly when the encoding
fits there. -/
theorem exec_writer_place (g : Geometry) (ns : ParameterNamespace) (dst len : UInt32)
    (m : Memory) :
    ∃ mem' ok m' t,
      Program.exec (FlashState.step g)
          (parameterMsgpackWriteCmp ns.writer
            (cmpMemAccessInit (dst + configHeaderSize) (len - configHeaderSize)) true) ⟨m, false⟩
          = ⟨some (mem', ok), ⟨m', false⟩, t⟩
        ∧ WritesInto (dst + configHeaderSize) (len - configHeaderSize).toNat t
        ∧ (ok = true ↔ Fits ns len)
        ∧ (ok = true → cmpMemAccessGetPos mem' = UInt32.ofNat ns.enc.length
            ∧ m' = m.burn (dst + configHeaderSize) ns.enc
            ∧ t = writes (dst + configHeaderSize) ns.enc) := by
  have hzero : (cmpMemAccessInit (dst + configHeaderSize)
      (len - configHeaderSize)).index.toNat = 0 := rfl
  obtain ⟨mem', ok, m', t, hex, hin, hok, hdone⟩ := exec_writer g ns.writer
    (cmpMemAccessInit (dst + configHeaderSize) (len - configHeaderSize)) true ⟨m, false⟩ rfl
    (Nat.zero_le _) (by rw [hzero, Nat.zero_add]; exact ns.bounded)
  refine ⟨mem', ok, m', t, hex, hin, ?_, fun h => ?_⟩
  · rw [hok, hzero, Nat.zero_add]
    exact and_iff_right rfl
  · obtain ⟨hi, hm, ht⟩ := hdone h
    have hbuf : (cmpMemAccessInit (dst + configHeaderSize) (len - configHeaderSize)).buf
        + (cmpMemAccessInit (dst + configHeaderSize) (len - configHeaderSize)).index
        = dst + configHeaderSize := UInt32.add_zero _
    rw [hbuf] at hm ht
    refine ⟨?_, hm, ht⟩
    rw [cmpMemAccessGetPos, hi]
    exact UInt32.zero_add _

/-- **An attempt that fits writes the block and completes.** -/
theorem exec_saveAt_success {ns : ParameterNamespace} {dst len : UInt32} (hfits : Fits ns len)
    (hlen : blockSize ns.enc ≤ 2 ^ 32) (fuel : ℕ) (dstLen : UInt32) (m : Memory) :
    Program.exec (FlashState.step g) (saveAt crc32 ns fuel S.base dstLen dst len) ⟨m, false⟩
      = ⟨some (), ⟨storeBlock crc32 m dst ns.enc, true⟩, storeOps crc32 m dst ns.enc⟩ := by
  obtain ⟨mem', ok, m', t, hex, -, hok, hdone⟩ := exec_writer_place g ns dst len m
  have hsucc : ok = true := hok.mpr hfits
  obtain ⟨hpos, hm, ht⟩ := hdone hsucc
  have hnat : (UInt32.ofNat ns.enc.length).toNat = ns.enc.length := by
    rw [UInt32.toNat_ofNat']
    exact Nat.mod_eq_of_lt (length_enc_lt ns)
  have hhead : Program.exec (FlashState.step g)
      (configWriteBlockHeader crc32 dst (UInt32.ofNat ns.enc.length)) ⟨m', false⟩ = _ :=
    exec_configWriteBlockHeader g crc32 rfl (by rw [hnat]; exact hlen)
  unfold saveAt
  simp only [Program.exec_bind, hex, Outcome.andThen_some, hsucc, Bool.true_eq_false, if_false,
    hpos, hhead, exec_flashLock, hnat]
  rw [hm, ht]
  rfl

/-- **An attempt that does not fit erases the sector and saves again**, having
programmed at most bytes of its buffer. -/
theorem exec_saveAt_retry {ns : ParameterNamespace} {dst len : UInt32} (hfits : ¬ Fits ns len)
    (fuel : ℕ) (dstLen : UInt32) (m : Memory) :
    ∃ m' t, WritesInto (dst + configHeaderSize) (len - configHeaderSize).toNat t
      ∧ m' = (Program.replay (FlashState.step g) ⟨m, false⟩ t).mem
      ∧ Program.exec (FlashState.step g) (saveAt crc32 ns fuel S.base dstLen dst len) ⟨m, false⟩
        = ⟨(Program.exec (FlashState.step g) (configSave crc32 ns fuel S.base dstLen)
              ⟨S.wipe m', true⟩).result,
            (Program.exec (FlashState.step g) (configSave crc32 ns fuel S.base dstLen)
              ⟨S.wipe m', true⟩).state,
            t ++ .erase (flashAddrToSector S.base) :: .lock ::
              (Program.exec (FlashState.step g) (configSave crc32 ns fuel S.base dstLen)
                ⟨S.wipe m', true⟩).trace⟩ := by
  obtain ⟨mem', ok, m', t, hex, hin, hok, -⟩ := exec_writer_place g ns dst len m
  have hfail : ok = false := by
    cases ok with
    | false => rfl
    | true => exact absurd (hok.mp rfl) hfits
  have hreplay := Program.exec_state_eq_replay (FlashState.step g)
    (parameterMsgpackWriteCmp ns.writer
      (cmpMemAccessInit (dst + configHeaderSize) (len - configHeaderSize)) true) ⟨m, false⟩
  rw [hex] at hreplay
  refine ⟨m', t, hin, congrArg FlashState.mem hreplay, ?_⟩
  have herase : Program.exec (FlashState.step g) (flashSectorErase S.base) ⟨m', false⟩
      = ⟨some (), ⟨S.wipe m', false⟩, [.erase (flashAddrToSector S.base)]⟩ :=
    exec_flashSectorErase g S.base rfl
  unfold saveAt
  simp only [Program.exec_bind, hex, Outcome.andThen_some, hfail, if_true, herase, exec_flashLock,
    List.cons_append, List.nil_append]

/-! ## Attempts on a sector

From here on an erased header is not valid and the sector has room for one, so
that the walk over an erased sector stops at once. -/

/-- An erased sector has no valid block. -/
theorem walk_wipe (hcrc : ErasedInvalid crc32) (h8 : 8 ≤ S.size) (m : Memory) :
    Walk crc32 (S.wipe m) S.base [] S.base := by
  refine Walk.stop (not_blockValid_of_erased hcrc ?_)
  intro i hi
  exact S.erased_wipe m i (by omega)

/-- The place is the end of the walk exactly when there is a valid block and the
room behind the last one exceeds a header. -/
def Appends (S : Sector g) (dstLen : UInt32) (as : List UInt32) (e : UInt32) : Prop :=
  as ≠ [] ∧ ¬ dstLen - (e - S.base) ≤ configHeaderSize

theorem choosePlace_of_appends {dstLen : UInt32} {m : Memory} {as : List UInt32} {e : UInt32}
    (h : Appends S dstLen as e) :
    choosePlace S dstLen (pristine S m as) e = ⟨m, e, dstLen - (e - S.base)⟩ := by
  rw [choosePlace, if_neg h.2, pristine, if_neg h.1]

theorem choosePlace_of_not_appends {dstLen : UInt32} {m : Memory} {as : List UInt32}
    {e : UInt32} (hw : Walk crc32 m S.base as e) (h : ¬ Appends S dstLen as e) :
    choosePlace S dstLen (pristine S m as) e = ⟨S.wipe m, S.base, dstLen⟩ := by
  by_cases has : as = []
  · subst has
    rw [hw.eq_of_nil, choosePlace, pristine, if_pos rfl, Sector.wipe_wipe, UInt32.sub_self,
      UInt32.sub_zero, ite_self]
  · have hroom : dstLen - (e - S.base) ≤ configHeaderSize := by
      by_contra hc
      exact h ⟨has, hc⟩
    rw [choosePlace, if_pos hroom, pristine, if_neg has]

/-- **`config_save` makes an attempt**, on any memory whose walk ends. -/
theorem exec_configSave_attempt (hcrc : ErasedInvalid crc32) (h8 : 8 ≤ S.size)
    {ns : ParameterNamespace} {dstLen : UInt32} {s : FlashState} {as : List UInt32} {e : UInt32}
    (h : Walk crc32 s.mem S.base as e) {fuel : ℕ} (hf : as.length < fuel) {P : Place}
    (hP : choosePlace S dstLen (pristine S s.mem as) e = P)
    {x : Outcome FlashOp FlashState Unit}
    (hx : Program.exec (FlashState.step g) (saveAt crc32 ns fuel S.base dstLen P.dst P.len)
      ⟨P.mem, false⟩ = x) :
    Program.exec (FlashState.step g) (configSave crc32 ns (fuel + 1) S.base dstLen) s
      = ⟨x.result, x.state, placeOps crc32 S dstLen s.mem as as e e ++ x.trace⟩ := by
  subst hP
  refine exec_configSave_place h ?_ hf hf hx
  by_cases has : as = []
  · subst has
    rw [pristine, if_pos rfl, h.eq_of_nil]
    exact walk_wipe hcrc h8 s.mem
  · rw [pristine, if_neg has]
    exact h

/-- A completed save made a walk, and had fuel for it. -/
theorem walk_of_configSave {ns : ParameterNamespace} {dstLen src : UInt32} {s : FlashState}
    {fuel : ℕ}
    (h : (Program.exec (FlashState.step g)
      (configSave crc32 ns (fuel + 1) src dstLen) s).result = some ()) :
    ∃ as e, Walk crc32 s.mem src as e ∧ as.length < fuel := by
  unfold configSave at h
  simp only [Program.exec_bind, exec_flashUnlock, Outcome.andThen_some] at h
  cases hr : (Program.exec (FlashState.step g) (configBlockFindLastUsed crc32 fuel src)
      ⟨s.mem, false⟩).result with
  | none =>
    unfold Outcome.andThen at h
    rw [hr] at h
    cases h
  | some last => exact walk_of_findLastUsedLoop (s := ⟨s.mem, false⟩) g hr

/-- **Saving to an erased sector** writes the block at its start, if it fits. -/
theorem exec_configSave_wiped (hcrc : ErasedInvalid crc32) (h8 : 8 ≤ S.size)
    {ns : ParameterNamespace} {dstLen : UInt32} (hfits : Fits ns dstLen)
    (hlen : blockSize ns.enc ≤ 2 ^ 32) (m : Memory) (l : Bool) (fuel : ℕ) :
    Program.exec (FlashState.step g) (configSave crc32 ns (fuel + 2) S.base dstLen)
        ⟨S.wipe m, l⟩
      = ⟨some (), ⟨storeBlock crc32 (S.wipe m) S.base ns.enc, true⟩,
          placeOps crc32 S dstLen (S.wipe m) [] [] S.base S.base
            ++ storeOps crc32 (S.wipe m) S.base ns.enc⟩ := by
  have hw := walk_wipe hcrc h8 m
  have hplace : choosePlace S dstLen (pristine S (S.wipe m) []) S.base
      = ⟨S.wipe m, S.base, dstLen⟩ := by
    rw [choosePlace_of_not_appends hw (fun h => h.1 rfl), Sector.wipe_wipe]
  exact exec_configSave_attempt (s := ⟨S.wipe m, l⟩) hcrc h8 hw (Nat.succ_pos fuel) hplace
    (exec_saveAt_success hfits hlen (fuel + 1) dstLen _)

/-- **Saving to an erased sector what does not fit never completes**: every
attempt fails like the one before. -/
theorem configSave_wiped_diverges (hcrc : ErasedInvalid crc32) (h8 : 8 ≤ S.size)
    {ns : ParameterNamespace} {dstLen : UInt32} (hfits : ¬ Fits ns dstLen) (fuel : ℕ)
    (m : Memory) (l : Bool) :
    (Program.exec (FlashState.step g) (configSave crc32 ns fuel S.base dstLen)
      ⟨S.wipe m, l⟩).result = none := by
  induction fuel generalizing m l with
  | zero => rfl
  | succ fuel ih =>
    have hw := walk_wipe hcrc h8 m
    cases fuel with
    | zero => rfl
    | succ fuel =>
      have hplace : choosePlace S dstLen (pristine S (S.wipe m) []) S.base
          = ⟨S.wipe m, S.base, dstLen⟩ := by
        rw [choosePlace_of_not_appends hw (fun h => h.1 rfl), Sector.wipe_wipe]
      obtain ⟨m', t, -, -, hex⟩ : ∃ m' t, _ ∧ _ ∧ Program.exec (FlashState.step g)
          (saveAt crc32 ns (fuel + 1) S.base dstLen S.base dstLen) ⟨S.wipe m, false⟩ = _ :=
        exec_saveAt_retry hfits (fuel + 1) dstLen (S.wipe m)
      rw [exec_configSave_attempt (s := ⟨S.wipe m, l⟩) hcrc h8 hw (Nat.succ_pos fuel) hplace hex]
      exact ih m' true

/-- Programming that stays in a buffer inside the sector leaves the rest of the
memory alone. -/
theorem replay_outside_of_writesInto {o size : ℕ} (hin : o + size ≤ S.size) {m : Memory}
    {l : Bool} {t : List FlashOp}
    (ht : WritesInto (S.base + UInt32.ofNat o) size t) {x : UInt32}
    (hx : S.size ≤ (x - S.base).toNat) :
    (Program.replay (FlashState.step g) ⟨m, l⟩ t).mem x = m x := by
  have hfits := S.fits
  refine replay_mem_of_untouched g (fun b hb => ?_) (fun n hn => ?_)
  · obtain ⟨j, hj, b', heq⟩ := ht _ hb
    obtain ⟨rfl, -⟩ := FlashOp.program.inj heq
    rw [UInt32.add_assoc, ← UInt32.ofNat_add, Memory.toNat_sub_base _ (by omega)] at hx
    omega
  · obtain ⟨j, hj, b', heq⟩ := ht _ hn
    cases heq

end Crc

end ConfigStore
