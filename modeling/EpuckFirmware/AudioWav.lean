import EpuckFirmware.LittleEndian
import EpuckFirmware.MemorySegment

/-!
# Reading a WAV file

`wav_read_header` accepts the header of a file, and each call of `wav_read_cb` reads the
next samples of its data to the buffer of the converter, up to the length of the data or
the end of the file. The samples of the file are signed, those of the converter are not.

A file is the list of the bytes that were not read yet. A buffer is a part of a memory of
samples, and reading an odd number of bytes changes half of a sample.
-/

namespace Audio

open MemorySegment

/-- `struct wav_data`. -/
structure WavData where
  /-- What was not read of the file yet. -/
  file : List UInt8
  sampleRate : UInt32
  sampleSize : UInt8
  dataLen : UInt32
  dataPos : UInt32

/-- `WAV_HEADER_LEN`. -/
def wavHeaderLen : ℕ := 44

/-- `u32_little_endian`, of the bytes at an offset. -/
def u32LittleEndian (buf : List UInt8) (offset : ℕ) : UInt32 :=
  (buf.getD offset 0).toUInt32 ||| (buf.getD (offset + 1) 0).toUInt32 <<< 8
    ||| (buf.getD (offset + 2) 0).toUInt32 <<< 16 ||| (buf.getD (offset + 3) 0).toUInt32 <<< 24

/-- `u16_little_endian`, of the bytes at an offset. -/
def u16LittleEndian (buf : List UInt8) (offset : ℕ) : UInt16 :=
  (buf.getD offset 0).toUInt16 ||| (buf.getD (offset + 1) 0).toUInt16 <<< 8

/-- `memcmp` with four characters finds no difference. -/
def matchesAt (buf : List UInt8) (offset : ℕ) (text : List UInt8) : Bool :=
  (buf.drop offset).take 4 = text

/-- `RIFF`. -/
def riff : List UInt8 := [0x52, 0x49, 0x46, 0x46]

/-- `WAVE`. -/
def wave : List UInt8 := [0x57, 0x41, 0x56, 0x45]

/-- `fmt ` -/
def fmt : List UInt8 := [0x66, 0x6d, 0x74, 0x20]

/-- `data`. -/
def data : List UInt8 := [0x64, 0x61, 0x74, 0x61]

/-- `wav_read_header`: nothing for the result -1. `readOk` says whether `f_read` returns
`FR_OK`. -/
def wavReadHeader (readOk : Bool) (file : List UInt8) : Option WavData :=
  let buf := file.take wavHeaderLen
  if !readOk || buf.length ≠ wavHeaderLen then none
  else if !matchesAt buf 0 riff || !matchesAt buf 8 wave then none
  else if !matchesAt buf 12 fmt then none
  else if u32LittleEndian buf 16 ≠ 16 then none
  else if u16LittleEndian buf 20 ≠ 1 then none
  else if u16LittleEndian buf 22 ≠ 1 then none
  else
    let sampleSize := (u16LittleEndian buf 34 / 8).toUInt8
    if sampleSize ≠ 2 then none
    else if !matchesAt buf 36 data then none
    else some {
      file := file.drop wavHeaderLen
      sampleRate := u32LittleEndian buf 24
      sampleSize := sampleSize
      dataLen := u32LittleEndian buf 40
      dataPos := 0 }

/-- The samples of the buffer, by their index. -/
abbrev SampleMemory : Type := ℕ → UInt16

/-- What `f_read` makes of the buffer at an index, with the bytes that it reads. -/
def storeBytes (memory : SampleMemory) (start : ℕ) (bytes : List UInt8) : SampleMemory :=
  fun i =>
    if i < start then memory i
    else match bytes.drop (2 * (i - start)) with
      | low :: high :: _ => leHalf [low, high]
      | [low] => leHalf (low :: (leHalfBytes (memory i)).drop 1)
      | [] => memory i

/-- `-INT16_MIN`, added to a sample. -/
def unsignedSample (x : UInt16) : UInt16 := x + 0x8000

/-- The loop that adds the offset to samples. -/
def addOffset (memory : SampleMemory) (start count : ℕ) : SampleMemory :=
  fun i => if start ≤ i ∧ i < start + count then unsignedSample (memory i) else memory i

/-- What a call of `wav_read_cb` returns and leaves. -/
structure ReadResult where
  /-- The result: the samples are the last ones. -/
  last : Bool
  samplesWritten : ℕ
  wav : WavData
  memory : SampleMemory

/-- `wav_read_cb`, for the buffer at the given index. -/
def wavReadCb (readOk : Bool) (wav : WavData) (memory : SampleMemory) (buffer bufLen : ℕ) :
    ReadResult :=
  let len := bufLen * 2
  let len := if len > (wav.dataLen - wav.dataPos).toNat then (wav.dataLen - wav.dataPos).toNat
    else len
  if !readOk then ⟨true, 0, wav, memory⟩
  else
    let bytes := wav.file.take len
    let n := bytes.length
    let memory := addOffset (storeBytes memory buffer bytes) buffer (n / 2)
    let wav := { wav with file := wav.file.drop len, dataPos := wav.dataPos + UInt32.ofNat n }
    ⟨n ≠ len || wav.dataPos = wav.dataLen, n / 2, wav, memory⟩

/-! ## The buffer after reading -/

theorem storeBytes_of_lt (memory : SampleMemory) {start i : ℕ} (h : i < start)
    (bytes : List UInt8) : storeBytes memory start bytes i = memory i :=
  if_pos h

theorem storeBytes_of_ge (memory : SampleMemory) {start i : ℕ} {bytes : List UInt8}
    (h : start + (bytes.length + 1) / 2 ≤ i) : storeBytes memory start bytes i = memory i := by
  unfold storeBytes
  rw [if_neg (by omega), List.drop_eq_nil_of_le (by omega)]

theorem storeBytes_cons_cons (memory : SampleMemory) (start : ℕ) (low high : UInt8)
    (bytes : List UInt8) {i : ℕ} (h : start + 1 ≤ i) :
    storeBytes memory start (low :: high :: bytes) i = storeBytes memory (start + 1) bytes i := by
  unfold storeBytes
  obtain ⟨k, rfl⟩ : ∃ k, i = start + 1 + k := ⟨i - (start + 1), by omega⟩
  rw [if_neg (by omega), if_neg (by omega), show start + 1 + k - start = k + 1 by omega,
    show start + 1 + k - (start + 1) = k by omega, Nat.mul_succ, List.drop_succ_cons,
    List.drop_succ_cons]

/-- **The samples that were read** are those of the bytes. -/
theorem segment_storeBytes (memory : SampleMemory) (start : ℕ) (bytes : List UInt8) :
    segment (storeBytes memory start bytes) start (start + bytes.length / 2) = leHalves bytes := by
  induction bytes using leHalves.induct generalizing start with
  | case1 low high bytes ih =>
    have hlength : (low :: high :: bytes).length / 2 = bytes.length / 2 + 1 := by
      simp only [List.length_cons]
      omega
    rw [hlength, segment_cons (by omega), leHalves, ← ih (start + 1)]
    refine congrArg₂ List.cons ?_ ?_
    · unfold storeBytes
      rw [if_neg (Nat.lt_irrefl _), Nat.sub_self]
      rfl
    · rw [show start + 1 + bytes.length / 2 = start + (bytes.length / 2 + 1) by omega]
      exact segment_congr (fun i hi _ => storeBytes_cons_cons memory start low high bytes hi)
  | case2 bytes hshort =>
    have hlength : bytes.length / 2 = 0 := by
      rw [← length_leHalves]
      cases bytes with
      | nil => rfl
      | cons low bytes =>
        cases bytes with
        | nil => rfl
        | cons high bytes => exact absurd rfl (hshort low high bytes)
    rw [hlength, Nat.add_zero, segment_self]
    rw [← length_leHalves, List.length_eq_zero_iff] at hlength
    exact hlength.symm

theorem segment_addOffset (memory : SampleMemory) (start count : ℕ) :
    segment (addOffset memory start count) start (start + count)
      = (segment memory start (start + count)).map unsignedSample := by
  rw [← segment_map]
  exact segment_congr (fun i hlow hhigh => if_pos ⟨hlow, hhigh⟩)

/-! ## What a call reads -/

/-- The number of bytes that are left of the data. -/
def WavData.left (w : WavData) : ℕ := w.dataLen.toNat - w.dataPos.toNat

/-- **The samples that are left**: up to the length of the data or the end of the file. -/
def WavData.samples (w : WavData) : List UInt16 :=
  (leHalves (w.file.take w.left)).map unsignedSample

/-- How many bytes a call reads to a buffer. -/
def WavData.readLen (w : WavData) (bufLen : ℕ) : ℕ := min (min (bufLen * 2) w.left) w.file.length

/-- A call does not find what it asked for, or reaches the length of the data. -/
def WavData.AtEnd (w : WavData) (bufLen : ℕ) : Prop :=
  w.readLen bufLen ≠ min (bufLen * 2) w.left ∨ w.readLen bufLen = w.left

/-- **What a call of `wav_read_cb` does**, if there is no error. -/
structure ChunkRead (w : WavData) (memory : SampleMemory) (buffer bufLen : ℕ) (r : ReadResult) :
    Prop where
  last : r.last = true ↔ w.AtEnd bufLen
  written : r.samplesWritten = w.readLen bufLen / 2
  dataLen : r.wav.dataLen = w.dataLen
  sampleRate : r.wav.sampleRate = w.sampleRate
  dataPos : r.wav.dataPos.toNat = w.dataPos.toNat + w.readLen bufLen
  file : r.wav.file = w.file.drop (w.readLen bufLen)
  samples : segment r.memory buffer (buffer + w.readLen bufLen / 2)
    = (leHalves (w.file.take (w.readLen bufLen))).map unsignedSample
  frame : ∀ i, i < buffer ∨ buffer + bufLen ≤ i → r.memory i = memory i

theorem chunkRead (w : WavData) (hpos : w.dataPos ≤ w.dataLen) (memory : SampleMemory)
    (buffer bufLen : ℕ) :
    ChunkRead w memory buffer bufLen (wavReadCb true w memory buffer bufLen) := by
  have hleft : (w.dataLen - w.dataPos).toNat = w.left := UInt32.toNat_sub_of_le _ _ hpos
  have hle : w.dataPos.toNat ≤ w.dataLen.toNat := hpos
  have hlen : (if bufLen * 2 > (w.dataLen - w.dataPos).toNat then (w.dataLen - w.dataPos).toNat
      else bufLen * 2) = min (bufLen * 2) w.left := by
    rw [hleft]
    split <;> omega
  have hbytes : (w.file.take (min (bufLen * 2) w.left)).length = w.readLen bufLen :=
    List.length_take
  have htake : w.file.take (min (bufLen * 2) w.left) = w.file.take (w.readLen bufLen) := by
    rw [WavData.readLen, List.take_eq_take_min]
  have hdrop : w.file.drop (min (bufLen * 2) w.left) = w.file.drop (w.readLen bufLen) := by
    rw [WavData.readLen, List.drop_eq_drop_min]
  have hread : w.readLen bufLen ≤ w.left :=
    (Nat.min_le_left _ _).trans (Nat.min_le_right _ _)
  have hpos' : (w.dataPos + UInt32.ofNat (w.readLen bufLen)).toNat
      = w.dataPos.toNat + w.readLen bufLen := by
    have hlt := w.dataLen.toNat_lt
    unfold WavData.left at hread
    rw [UInt32.toNat_add, UInt32.toNat_ofNat']
    omega
  have heq : (w.dataPos + UInt32.ofNat (w.readLen bufLen) = w.dataLen)
      ↔ w.readLen bufLen = w.left := by
    rw [← UInt32.toNat_inj, hpos']
    unfold WavData.left at hread ⊢
    omega
  unfold wavReadCb
  dsimp only
  rw [hlen, hbytes, htake, hdrop]
  constructor
  · simp [WavData.AtEnd, heq]
  · rfl
  · rfl
  · rfl
  · exact hpos'
  · rfl
  · show segment (addOffset _ _ _) _ _ = _
    rw [segment_addOffset]
    have hlength : (w.file.take (w.readLen bufLen)).length = w.readLen bufLen := by
      rw [← htake, hbytes]
    have hsegment := segment_storeBytes memory buffer (w.file.take (w.readLen bufLen))
    rw [hlength] at hsegment
    rw [hsegment]
  · intro i hi
    show addOffset _ _ _ i = _
    have hshort : w.readLen bufLen ≤ bufLen * 2 :=
      (Nat.min_le_left _ _).trans (Nat.min_le_left _ _)
    unfold addOffset
    rw [if_neg (by omega)]
    obtain hlow | hhigh := hi
    · exact storeBytes_of_lt memory hlow _
    · refine storeBytes_of_ge memory ?_
      rw [← htake, hbytes]
      omega

/-! ## One call after the other -/

/-- The number of bytes of the last chunk, if the chunks before are full. -/
def WavData.lastChunk (w : WavData) (bufLen : ℕ) : ℕ :=
  if w.left ≤ w.file.length then (w.left - 1) % (bufLen * 2) + 1 else w.file.length % (bufLen * 2)

section Calls

variable {w : WavData} {memory : SampleMemory} {buffer bufLen : ℕ} {r : ReadResult}

theorem atEnd_iff : w.AtEnd bufLen ↔ w.left ≤ bufLen * 2 ∨ w.file.length < bufLen * 2 := by
  unfold WavData.AtEnd WavData.readLen
  omega

/-- At the end, a call reads all that is left. -/
theorem readLen_of_atEnd (h : w.AtEnd bufLen) : w.readLen bufLen = min w.left w.file.length := by
  rw [atEnd_iff] at h
  unfold WavData.readLen
  omega

/-- Before the end, a call fills the buffer. -/
theorem readLen_of_not_atEnd (h : ¬ w.AtEnd bufLen) : w.readLen bufLen = bufLen * 2 := by
  rw [atEnd_iff] at h
  unfold WavData.readLen
  omega

/-- **At the end, the samples that are read are all that are left.** -/
theorem samples_of_atEnd (h : w.AtEnd bufLen) :
    w.samples = (leHalves (w.file.take (w.readLen bufLen))).map unsignedSample := by
  rw [readLen_of_atEnd h, WavData.samples, List.take_eq_take_min]

theorem left_of_chunkRead (hr : ChunkRead w memory buffer bufLen r) :
    r.wav.left = w.left - w.readLen bufLen := by
  unfold WavData.left
  rw [hr.dataLen, hr.dataPos]
  omega

/-- The position does not go beyond the length of the data. -/
theorem dataPos_le_of_chunkRead (hpos : w.dataPos ≤ w.dataLen)
    (hr : ChunkRead w memory buffer bufLen r) : r.wav.dataPos ≤ r.wav.dataLen := by
  have hle : w.dataPos.toNat ≤ w.dataLen.toNat := hpos
  show r.wav.dataPos.toNat ≤ r.wav.dataLen.toNat
  have hread : w.readLen bufLen ≤ w.left := (Nat.min_le_left _ _).trans (Nat.min_le_right _ _)
  unfold WavData.left at hread
  rw [hr.dataLen, hr.dataPos]
  omega

/-- **Before the end, the samples that are read come before those that are left.** -/
theorem samples_of_not_atEnd (h : ¬ w.AtEnd bufLen) (hr : ChunkRead w memory buffer bufLen r) :
    w.samples = segment r.memory buffer (buffer + bufLen) ++ r.wav.samples := by
  have hread := readLen_of_not_atEnd h
  have hsegment := hr.samples
  rw [hread, Nat.mul_div_cancel _ (by decide)] at hsegment
  rw [atEnd_iff, not_or, not_le, not_lt] at h
  have hleft : w.left = bufLen * 2 + r.wav.left := by
    rw [left_of_chunkRead hr, hread]
    omega
  have htake : w.file.take w.left
      = w.file.take (bufLen * 2) ++ r.wav.file.take r.wav.left := by
    rw [hleft, List.take_add, hr.file, hread]
  rw [hsegment, WavData.samples, htake, leHalves_append, List.map_append, WavData.samples]
  rw [List.length_take, Nat.min_eq_left h.2]
  exact Nat.dvd_mul_left 2 bufLen

/-- **The last chunk does not depend on the full chunks before.** -/
theorem lastChunk_of_not_atEnd (h : ¬ w.AtEnd bufLen) (hr : ChunkRead w memory buffer bufLen r) :
    r.wav.lastChunk bufLen = w.lastChunk bufLen := by
  have hread := readLen_of_not_atEnd h
  have hleft := left_of_chunkRead hr
  have hfile : r.wav.file.length = w.file.length - bufLen * 2 := by
    rw [hr.file, hread, List.length_drop]
  rw [atEnd_iff, not_or, not_le, not_lt] at h
  rw [hread] at hleft
  unfold WavData.lastChunk
  rw [hleft, hfile]
  by_cases hle : w.left ≤ w.file.length
  · rw [if_pos hle, if_pos (by omega), show w.left - bufLen * 2 - 1 = w.left - 1 - bufLen * 2
      by omega, ← Nat.mod_eq_sub_mod (by omega)]
  · rw [if_neg hle, if_neg (by omega), ← Nat.mod_eq_sub_mod h.2]

theorem lastChunk_of_atEnd (h : w.AtEnd bufLen) (hleft : 0 < w.left) :
    w.lastChunk bufLen = w.readLen bufLen := by
  rw [readLen_of_atEnd h]
  rw [atEnd_iff] at h
  unfold WavData.lastChunk
  by_cases hle : w.left ≤ w.file.length
  · rw [if_pos hle, Nat.mod_eq_of_lt (by omega)]
    omega
  · rw [if_neg hle, Nat.mod_eq_of_lt (by omega)]
    omega

end Calls

end Audio
