import EpuckFirmware.AudioFaithful

/-!
# What a WAV header is accepted for

`wav_read_header` checks the format, the number of channels and the size of a sample, and
takes the sample rate and the length of the data as they are. The size of a sample is the
field of the header divided by 8, in a byte, so that more than one field passes for two
bytes. The sample rate becomes the divisor of the frequency of the timer that triggers the
DAC; nothing between the header and the division looks at it.
-/

namespace Audio

open StepMachine

/-! ## The fields of a header -/

/-- The field of the given size at an offset of a file. -/
def field (file : List UInt8) (offset size : ℕ) : ℕ := leNat ((file.drop offset).take size)

/-- Bits that do not overlap add up. -/
theorem or_shiftLeft {x i : ℕ} (hx : x < 2 ^ i) (y : ℕ) : x ||| y <<< i = x + 2 ^ i * y := by
  rw [Nat.or_comm, ← Nat.shiftLeft_add_eq_or_of_lt hx, Nat.shiftLeft_eq, Nat.add_comm,
    Nat.mul_comm]

/-- **The shifts of `u32_little_endian`** lose nothing. -/
theorem toNat_u32 (a b c d : UInt8) :
    (a.toUInt32 ||| b.toUInt32 <<< 8 ||| c.toUInt32 <<< 16 ||| d.toUInt32 <<< 24).toNat
      = leNat [a, b, c, d] := by
  have ha := a.toNat_lt
  have hb := b.toNat_lt
  have hc := c.toNat_lt
  have hd := d.toNat_lt
  have hshift (x : UInt8) {i : ℕ} (hi : i ≤ 24) : x.toNat <<< i % 2 ^ 32 = x.toNat <<< i := by
    rw [Nat.shiftLeft_eq]
    refine Nat.mod_eq_of_lt ?_
    calc x.toNat * 2 ^ i < 2 ^ 8 * 2 ^ i := Nat.mul_lt_mul_of_pos_right x.toNat_lt (by positivity)
      _ ≤ 2 ^ 8 * 2 ^ 24 := Nat.mul_le_mul_left _ (Nat.pow_le_pow_right (by decide) hi)
  have h8 : (8 : UInt32).toNat % 32 = 8 := rfl
  have h16 : (16 : UInt32).toNat % 32 = 16 := rfl
  have h24 : (24 : UInt32).toNat % 32 = 24 := rfl
  simp only [UInt32.toNat_or, UInt32.toNat_shiftLeft, UInt8.toNat_toUInt32, h8, h16, h24]
  rw [hshift b (by decide), hshift c (by decide), hshift d (by decide), or_shiftLeft ha,
    or_shiftLeft (by omega : a.toNat + 2 ^ 8 * b.toNat < 2 ^ 16),
    or_shiftLeft (by omega : a.toNat + 2 ^ 8 * b.toNat + 2 ^ 16 * c.toNat < 2 ^ 24)]
  simp only [leNat]
  omega

theorem toNat_u16 (a b : UInt8) :
    (a.toUInt16 ||| b.toUInt16 <<< 8).toNat = leNat [a, b] := by
  have ha := a.toNat_lt
  have hb := b.toNat_lt
  have h8 : (8 : UInt16).toNat % 16 = 8 := rfl
  have hshift : b.toNat <<< 8 % 2 ^ 16 = b.toNat <<< 8 := by
    rw [Nat.shiftLeft_eq]
    omega
  simp only [UInt16.toNat_or, UInt16.toNat_shiftLeft, UInt8.toNat_toUInt16, h8]
  rw [hshift, or_shiftLeft ha]
  simp only [leNat]
  omega

theorem take_drop_getD (file : List UInt8) {offset size : ℕ}
    (h : offset + (size + 1) ≤ file.length) :
    (file.drop offset).take (size + 1)
      = file.getD offset 0 :: (file.drop (offset + 1)).take size := by
  have hlt : offset < file.length := by omega
  rw [List.drop_eq_getElem_cons hlt, List.take_succ_cons,
    List.getD_eq_getElem?_getD, List.getElem?_eq_getElem hlt, Option.getD_some]

theorem toNat_u32LittleEndian {buf : List UInt8} {offset : ℕ} (h : offset + 4 ≤ buf.length) :
    (u32LittleEndian buf offset).toNat = field buf offset 4 := by
  unfold u32LittleEndian field
  rw [toNat_u32, take_drop_getD buf h, take_drop_getD buf (by omega),
    take_drop_getD buf (by omega), take_drop_getD buf (by omega), List.take_zero]

theorem toNat_u16LittleEndian {buf : List UInt8} {offset : ℕ} (h : offset + 2 ≤ buf.length) :
    (u16LittleEndian buf offset).toNat = field buf offset 2 := by
  unfold u16LittleEndian field
  rw [toNat_u16, take_drop_getD buf h, take_drop_getD buf (by omega), List.take_zero]

/-- The fields of the header are those of the file. -/
theorem field_take {file : List UInt8} {offset size n : ℕ} (h : offset + size ≤ n) :
    field (file.take n) offset size = field file offset size := by
  unfold field
  rw [List.drop_take, List.take_take, Nat.min_eq_left (by omega)]

/-- **What an accepted header says**, and what is taken from it. -/
structure Accepted (file : List UInt8) (wav : WavData) : Prop where
  format : field file 20 2 = 1
  channels : field file 22 2 = 1
  sampleSize : field file 34 2 / 8 % 256 = 2
  sampleRate : wav.sampleRate.toNat = field file 24 4
  dataLen : wav.dataLen.toNat = field file 40 4

theorem accepted_of_wavReadHeader {readOk : Bool} {file : List UInt8} {wav : WavData}
    (h : wavReadHeader readOk file = some wav) : Accepted file wav := by
  unfold wavReadHeader at h
  dsimp only at h
  split_ifs at h with hread _ _ _ hformat hchannels hsize
  have hlength : (file.take wavHeaderLen).length = 44 := by
    simp only [Bool.or_eq_true, decide_eq_true_eq, not_or, ne_eq, not_not] at hread
    exact hread.2
  have hword (offset : ℕ) (hoffset : offset + 4 ≤ 44) :
      (u32LittleEndian (file.take wavHeaderLen) offset).toNat = field file offset 4 := by
    rw [toNat_u32LittleEndian (by omega)]
    exact field_take hoffset
  have hhalf (offset : ℕ) (hoffset : offset + 2 ≤ 44) :
      (u16LittleEndian (file.take wavHeaderLen) offset).toNat = field file offset 2 := by
    rw [toNat_u16LittleEndian (by omega)]
    exact field_take hoffset
  rw [ne_eq, not_not] at hformat hchannels hsize
  obtain rfl := Option.some.inj h
  refine ⟨?_, ?_, ?_, hword 24 (by decide), hword 40 (by decide)⟩
  · rw [← hhalf 20 (by decide), hformat]
    rfl
  · rw [← hhalf 22 (by decide), hchannels]
    rfl
  · have htwo := congrArg UInt8.toNat hsize
    rw [UInt16.toNat_toUInt8, UInt16.toNat_div, hhalf 34 (by decide)] at htwo
    exact htwo

/-! ## The timer of the DAC -/

/-- `STM32_TIMCLK1`. -/
def stm32Timclk1 : UInt32 := 84000000

/-- The interval of the timer, `STM32_TIMCLK1 / sample_rate`: nothing for a division by
zero. -/
def timerInterval (sampleRate : UInt32) : Option UInt32 :=
  if sampleRate = 0 then none else some (stm32Timclk1 / sampleRate)

theorem timerInterval_iff (sampleRate : UInt32) :
    (∃ interval, timerInterval sampleRate = some interval ∧ 1 ≤ interval)
      ↔ 1 ≤ sampleRate.toNat ∧ sampleRate.toNat ≤ 84000000 := by
  have hle (interval : UInt32) : 1 ≤ interval ↔ 1 ≤ interval.toNat := UInt32.le_iff_toNat_le
  unfold timerInterval
  by_cases hzero : sampleRate = 0
  · rw [if_pos hzero, hzero]
    simp
  · have hpos : 0 < sampleRate.toNat :=
      Nat.pos_of_ne_zero (fun h => hzero (UInt32.toNat_inj.mp h))
    have hinterval : 1 ≤ stm32Timclk1 / sampleRate ↔ sampleRate.toNat ≤ 84000000 := by
      rw [hle, UInt32.toNat_div, Nat.le_div_iff_mul_le hpos, Nat.one_mul]
      rfl
    have hone : 1 ≤ sampleRate.toNat := hpos
    rw [if_neg hzero, and_iff_right hone]
    exact ⟨fun ⟨_, hsome, h⟩ => hinterval.mp (Option.some.inj hsome ▸ h),
      fun h => ⟨_, rfl, hinterval.mpr h⟩⟩

theorem wavReadCb_sampleRate (readOk : Bool) (w : WavData) (memory : SampleMemory)
    (buffer bufLen : ℕ) :
    (wavReadCb readOk w memory buffer bufLen).wav.sampleRate = w.sampleRate := by
  unfold wavReadCb
  dsimp only
  split <;> rfl

/-- Playing does not change the sample rate. -/
theorem sampleRate_of_step {bufferLen : ℕ} {s s' : Playback} {i : PlaybackStep}
    (h : s.step bufferLen i = .ok s') : s'.wav.sampleRate = s.wav.sampleRate := by
  cases i with
  | convert => rw [(frame_of_convert h).1]
  | thread readOk =>
    unfold Playback.step Playback.threadStep at h
    dsimp only at h
    cases hthread : s.thread with
    | start =>
      rw [hthread] at h
      dsimp only at h
      split at h
      · rw [← Except.ok.inj h]
      · rw [← Except.ok.inj h]
    | fill =>
      rw [hthread] at h
      rw [← Except.ok.inj h]
      exact wavReadCb_sampleRate _ _ _ _ _
    | filled last nb =>
      rw [hthread] at h
      cases last with
      | true => rw [(dacSingleConversion_eq_ok h).1]
      | false =>
        obtain ⟨t, ht, rfl⟩ := map_eq_ok h
        unfold dacContinuousConversion at ht
        have hwav := dacStartConversion_wav ht
        exact congrArg WavData.sampleRate hwav
    | wait =>
      rw [hthread] at h
      rw [(semWait_eq_ok h).2]
    | read buf =>
      rw [hthread] at h
      rw [← Except.ok.inj h]
      exact wavReadCb_sampleRate _ _ _ _ _
    | readDone buf last nb =>
      rw [hthread] at h
      cases last with
      | true =>
        rw [← Except.ok.inj h]
        exact congrArg WavData.sampleRate (dacLastConversion_leaves s buf nb).1
      | false => rw [← Except.ok.inj h]
    | finalWait =>
      rw [hthread] at h
      rw [(semWait_eq_ok h).2]
    | stop =>
      rw [hthread] at h
      rw [← Except.ok.inj h]
    | returned result =>
      rw [hthread] at h
      cases h

/-! ## Headers that can be played -/

/-- **An accepted header can be played**: its fields are what the player takes them for,
and in every state of every call of `audio_dac_convert` for it, the interval of the timer is
defined and not zero. -/
structure Playable (file : List UInt8) (wav : WavData) : Prop where
  bitsPerSample : field file 34 2 = 16
  channels : field file 22 2 = 1
  format : field file 20 2 = 1
  sampleRate : wav.sampleRate.toNat = field file 24 4
  dataLen : wav.dataLen.toNat = field file 40 4
  timer : ∀ bufferLen globals memory steps s,
    run (Playback.step bufferLen) (playbackInit globals memory wav) steps = .ok s →
      ∃ interval, timerInterval s.wav.sampleRate = some interval ∧ 1 ≤ interval

/-- A header without samples, with the given fields for the sample rate and for the bits per
sample. -/
def headerOf (sampleRate bitsPerSample : List UInt8) : List UInt8 :=
  riff ++ [36, 0, 0, 0] ++ wave ++ fmt ++ [16, 0, 0, 0, 1, 0, 1, 0] ++ sampleRate
    ++ [0, 0, 0, 0, 2, 0] ++ bitsPerSample ++ data ++ [0, 0, 0, 0]

end Audio
