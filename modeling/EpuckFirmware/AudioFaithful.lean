import EpuckFirmware.AudioPlayback

/-!
# Playback is faithful

Every run of the thread and the DAC keeps the samples where a `Mode` says that they are.
What was converted is therefore a beginning of the samples to play at any time. There is
a bound on the length of a run, and a run can only end after all of them were converted,
when `audio_dac_convert` has returned.

The last half is handed over with the semaphore taken: a half that is finished between
the return of the last `data_cb` and `dac_last_conversion` leaves it signaled, and
`dac_last_conversion` does not wait.
-/

namespace Audio

open StepMachine History MemorySegment

/-! ## What a step leaves -/

section Steps

variable {s s' : Playback}

theorem callEndCb_wav (s : Playback) (prev n : ℕ) : (callEndCb s prev n).wav = s.wav := by
  unfold callEndCb
  split <;> rfl

theorem callEndCb_thread (s : Playback) (prev n : ℕ) :
    (callEndCb s prev n).thread = s.thread := by
  unfold callEndCb
  split <;> rfl

/-- The DAC neither reads the file nor runs the thread. -/
theorem frame_of_convert (h : s.convert = .ok s') : s'.wav = s.wav ∧ s'.thread = s.thread := by
  unfold Playback.convert at h
  split at h
  · cases h
  · dsimp only at h
    split at h
    · rw [← Except.ok.inj h]
      exact ⟨callEndCb_wav _ _ _, callEndCb_thread _ _ _⟩
    · split at h
      · rw [← Except.ok.inj h]
        exact ⟨callEndCb_wav _ _ _, callEndCb_thread _ _ _⟩
      · rw [← Except.ok.inj h]
        exact ⟨rfl, rfl⟩

/-- How many steps the thread can take, at most. -/
def Playback.threadLeft (s : Playback) : ℕ :=
  match s.thread with
  | .start => 3 * s.wav.file.length + 12
  | .fill => 3 * s.wav.file.length + 11
  | .filled true _ => 3
  | .filled false _ => 3 * s.wav.file.length + 10
  | .wait => 3 * s.wav.file.length + 9
  | .read _ => 3 * s.wav.file.length + 8
  | .readDone _ true _ => 3
  | .readDone _ false _ => 3 * s.wav.file.length + 10
  | .finalWait => 2
  | .stop => 1
  | .returned _ => 0

/-- What a step of the thread does to the file, and to the steps that the thread can take. -/
structure ThreadStepped (s s' : Playback) : Prop where
  dataPos_le : s'.wav.dataPos ≤ s'.wav.dataLen
  sampleRate : s'.wav.sampleRate = s.wav.sampleRate
  threadLeft_lt : s'.threadLeft < s.threadLeft

/-- A call of `data_cb` does not find the end, and the file gets shorter. -/
theorem length_file_of_not_last {w : WavData} {memory : SampleMemory} {buffer len : ℕ}
    {r : ReadResult} (hlen : 0 < len) (hr : ChunkRead w memory buffer len r)
    (hlast : r.last = false) : r.wav.file.length < w.file.length := by
  have hend : ¬ w.AtEnd len := by
    rw [← hr.last, hlast]
    exact Bool.false_ne_true
  rw [hr.file, readLen_of_not_atEnd hend, List.length_drop]
  rw [atEnd_iff] at hend
  omega

theorem dacStartConversion_wav {buf len : ℕ} (h : dacStartConversion s buf len = .ok s') :
    s'.wav = s.wav := by
  unfold dacStartConversion at h
  split at h
  · cases h
  · rw [← Except.ok.inj h]

theorem dacSingleConversion_eq_ok {buf len : ℕ} (h : dacSingleConversion s buf len = .ok s') :
    s'.wav = s.wav ∧ (s'.thread = .stop ∨ s'.thread = .finalWait) := by
  unfold dacSingleConversion at h
  dsimp only at h
  split at h
  · rw [← Except.ok.inj h]
    exact ⟨rfl, Or.inl rfl⟩
  · obtain ⟨t, ht, rfl⟩ := map_eq_ok h
    have hwav := dacStartConversion_wav ht
    exact ⟨hwav, Or.inr rfl⟩

theorem dacLastConversion_leaves (s : Playback) (buf len : ℕ) :
    (dacLastConversion s buf len).wav = s.wav
      ∧ ((dacLastConversion s buf len).thread = .stop
        ∨ (dacLastConversion s buf len).thread = .finalWait) := by
  unfold dacLastConversion
  dsimp only
  split
  · split
    · exact ⟨rfl, Or.inl rfl⟩
    · exact ⟨rfl, Or.inr rfl⟩
  · split
    · exact ⟨rfl, Or.inl rfl⟩
    · exact ⟨rfl, Or.inr rfl⟩

/-- **The thread gets on**: every step of it leaves fewer. -/
theorem threadStepped {bufferLen : ℕ} (hlen : 2 ≤ bufferLen)
    (hpos : s.wav.dataPos ≤ s.wav.dataLen) (h : s.threadStep bufferLen true = .ok s') :
    ThreadStepped s s' := by
  unfold Playback.threadStep at h
  dsimp only at h
  cases hthread : s.thread with
  | start =>
    rw [hthread, if_neg (by omega)] at h
    rw [← Except.ok.inj h]
    exact ⟨hpos, rfl, by simp [Playback.threadLeft, hthread]⟩
  | fill =>
    rw [hthread] at h
    have hr := chunkRead s.wav hpos s.memory 0 (bufferLen - bufferLen % 2)
    rw [← Except.ok.inj h]
    refine ⟨dataPos_le_of_chunkRead hpos hr, hr.sampleRate, ?_⟩
    cases hlast : (wavReadCb true s.wav s.memory 0 (bufferLen - bufferLen % 2)).last with
    | true => simp [Playback.threadLeft, hthread]
    | false =>
      have hfile := length_file_of_not_last (by omega) hr hlast
      simp only [Playback.threadLeft, hthread]
      omega
  | filled last nb =>
    rw [hthread] at h
    cases last with
    | true =>
      obtain ⟨hwav, hnext⟩ := dacSingleConversion_eq_ok h
      refine ⟨hwav ▸ hpos, by rw [hwav], ?_⟩
      obtain hnext | hnext := hnext
      · simp [Playback.threadLeft, hthread, hnext]
      · simp [Playback.threadLeft, hthread, hnext]
    | false =>
      obtain ⟨t, ht, rfl⟩ := map_eq_ok h
      unfold dacContinuousConversion at ht
      have hwav := dacStartConversion_wav ht
      have hwav : t.wav = s.wav := hwav
      refine ⟨?_, ?_, ?_⟩
      · exact hwav ▸ hpos
      · exact congrArg WavData.sampleRate hwav
      · simp [Playback.threadLeft, hthread, hwav]
  | wait =>
    rw [hthread] at h
    rw [(semWait_eq_ok h).2]
    exact ⟨hpos, rfl, by simp [Playback.threadLeft, hthread]⟩
  | read buf =>
    rw [hthread] at h
    have hr := chunkRead s.wav hpos s.memory buf ((bufferLen - bufferLen % 2) / 2)
    rw [← Except.ok.inj h]
    refine ⟨dataPos_le_of_chunkRead hpos hr, hr.sampleRate, ?_⟩
    cases hlast : (wavReadCb true s.wav s.memory buf ((bufferLen - bufferLen % 2) / 2)).last with
    | true =>
      simp only [Playback.threadLeft, hthread]
      omega
    | false =>
      have hfile := length_file_of_not_last (by omega) hr hlast
      simp only [Playback.threadLeft, hthread]
      omega
  | readDone buf last nb =>
    rw [hthread] at h
    cases last with
    | true =>
      rw [← Except.ok.inj h]
      obtain ⟨hwav, hnext⟩ := dacLastConversion_leaves s buf nb
      refine ⟨hwav ▸ hpos, by rw [hwav], ?_⟩
      obtain hnext | hnext := hnext
      · simp [Playback.threadLeft, hthread, hnext]
      · simp [Playback.threadLeft, hthread, hnext]
    | false =>
      rw [← Except.ok.inj h]
      exact ⟨hpos, rfl, by simp [Playback.threadLeft, hthread]⟩
  | finalWait =>
    rw [hthread] at h
    rw [(semWait_eq_ok h).2]
    exact ⟨hpos, rfl, by simp [Playback.threadLeft, hthread]⟩
  | stop =>
    rw [hthread] at h
    rw [← Except.ok.inj h]
    exact ⟨hpos, rfl, by simp [Playback.threadLeft, hthread]⟩
  | returned result =>
    rw [hthread] at h
    cases h

end Steps

/-! ## What was converted -/

section Modes

variable {half final : ℕ} {samples playable out : List UInt16} {s s' : Playback}

/-- The last sample is not among those that were converted as long as there is another. -/
theorem prefix_take {rest : List UInt16} (h : samples = out ++ rest) (hrest : 0 < rest.length)
    (k : ℕ) : out <+: samples.take (samples.length - k % 2) := by
  have hodd : k % 2 < 2 := Nat.mod_lt k (by decide)
  rw [List.prefix_take_iff]
  refine ⟨⟨rest, h.symm⟩, ?_⟩
  rw [h, List.length_append]
  omega

theorem length_rest_pos {c : Conversion} (h : c.Valid) (memory : SampleMemory) :
    0 < (c.rest memory).length := by
  have hlt := pos_lt_halfEnd h
  unfold Conversion.rest
  rw [length_segment]
  omega

/-- **What was converted is a beginning of the samples to play.** -/
theorem Mode.prefix_playable (hhalf : 0 < half) (hs : Mode half final samples playable s out)
    (hplayable : playable = samples.take (samples.length - final / 2 % 2)) : out <+: playable := by
  cases hs with
  | start _ _ hout =>
    rw [hout]
    exact List.nil_prefix
  | filledLast nb _ _ hfinal hsamples =>
    rw [hplayable, ← hfinal, playable_eq hsamples]
    exact List.prefix_append _ _
  | filled _ _ _ _ hsamples =>
    rw [hplayable]
    rw [List.append_assoc] at hsamples
    refine prefix_take hsamples ?_ _
    rw [List.length_append, length_segment]
    omega
  | full pos hrepeats _ _ _ hsamples =>
    rw [hplayable]
    rw [List.append_assoc, List.append_assoc] at hsamples
    refine prefix_take hsamples ?_ _
    have hrest := length_rest_pos (valid_whole hrepeats.pos_lt) s.memory
    rw [List.length_append]
    omega
  | due pos hrepeats _ _ hsamples =>
    rw [hplayable]
    rw [List.append_assoc] at hsamples
    refine prefix_take hsamples ?_ _
    have hrest := length_rest_pos (valid_whole hrepeats.pos_lt) s.memory
    rw [List.length_append]
    omega
  | handing pos nb _ _ _ hfinal hsamples =>
    rw [hplayable, ← hfinal, playable_eq hsamples, List.append_assoc]
    exact List.prefix_append _ _
  | last _ _ _ _ _ _ _ _ _ _ _ hout =>
    rw [hout, List.append_assoc]
    exact List.prefix_append _ _
  | single _ _ _ _ _ _ _ hout =>
    rw [hout]
    exact List.prefix_append _ _
  | stopping _ _ _ _ _ _ hout =>
    rw [hout]
    exact List.prefix_append _ _
  | stopped _ _ _ hout => exact hout ▸ List.prefix_rfl
  | finished _ _ hout => exact hout ▸ List.prefix_rfl

/-- **When the function has returned, all samples were converted.** -/
theorem Mode.eq_playable (hs : Mode half final samples playable s out) {result : AudioDacResult}
    (hreturned : s.thread = .returned result) : result = .ok ∧ out = playable := by
  cases hs with
  | finished _ hthread hout =>
    rw [hreturned] at hthread
    obtain hthread | hthread := hthread
    · cases hthread
    · exact ⟨DacThd.returned.inj hthread, hout.symm⟩
  | start hthread => grind
  | filledLast nb hthread => grind
  | filled nb hthread => grind
  | full _ _ _ hthread => grind
  | due _ _ hthread => grind
  | handing _ _ _ _ hthread => grind
  | last _ _ _ _ _ _ hthread => grind
  | single _ _ _ _ _ _ hthread => grind
  | stopping _ _ _ _ _ hthread => grind
  | stopped _ _ hthread => grind

/-! ## Some step is allowed -/

theorem allowed_thread (s : Playback) (out : List UInt16) :
    InTime (s, out) (.thread true) ∧ HandsOver (s, out) (.thread true) := by
  refine ⟨⟨fun readOk h => (PlaybackStep.thread.inj h).symm, ?_⟩, ?_⟩
  · rintro ⟨h, -⟩
    cases h
  · rintro ⟨h, -⟩
    cases h

/-- A sample can be converted while the thread waits for it. -/
theorem allowed_convert (hwait : s.thread = .wait ∨ s.thread = .finalWait)
    (hsignal : s.dacSignal = false) : InTime (s, out) .convert ∧ HandsOver (s, out) .convert := by
  refine ⟨⟨?_, ?_⟩, ?_⟩
  · intro readOk h
    cases h
  · rintro - (⟨buf, hread⟩ | ⟨hsignaled, -⟩)
    · have hread : s.thread = .read buf := hread
      simp [hread] at hwait
    · have hsignaled : s.dacSignal = true := hsignaled
      simp [hsignaled] at hsignal
  · intro hcompletes buf nb hdone
    have hdone : s.thread = .readDone buf true nb := hdone
    simp [hdone] at hwait

/-- The time between the return of `data_cb` and what follows is not limited by reading. -/
theorem inTime_readDone {buf nb : ℕ} (hthread : s.thread = .readDone buf true nb) :
    InTime (s, out) .convert := by
  refine ⟨?_, ?_⟩
  · intro readOk h
    cases h
  · rintro - (⟨buf', hread⟩ | ⟨-, hwait⟩)
    · have hread : s.thread = .read buf' := hread
      simp [hthread] at hread
    · simp [hthread] at hwait

theorem convert_of_conversion {c : Conversion} (hc : s.conversion = some c) :
    ∃ s', s.convert = .ok s' := by
  unfold Playback.convert
  rw [hc]
  dsimp only
  split
  · exact ⟨_, rfl⟩
  · split
    · exact ⟨_, rfl⟩
    · exact ⟨_, rfl⟩

/-- Some step keeps the promises and is taken. -/
def Playback.Continues (bufferLen : ℕ) (s : Playback × List UInt16) : Prop :=
  ∃ i s', InTime s i ∧ HandsOver s i ∧ s.1.step bufferLen i = .ok s'

theorem continues_thread {bufferLen : ℕ} (h : s.threadStep bufferLen true = .ok s') :
    Playback.Continues bufferLen (s, out) :=
  ⟨.thread true, s', (allowed_thread s out).1, (allowed_thread s out).2, h⟩

theorem continues_convert {bufferLen : ℕ} {c : Conversion} (hc : s.conversion = some c)
    (hwait : s.thread = .wait ∨ s.thread = .finalWait) (hsignal : s.dacSignal = false) :
    Playback.Continues bufferLen (s, out) := by
  obtain ⟨t, ht⟩ := convert_of_conversion hc
  exact ⟨.convert, t, (allowed_convert hwait hsignal).1, (allowed_convert hwait hsignal).2, ht⟩

/-- The thread does not fail but where it waits: the sample rate is not zero. -/
theorem threadStep_total {bufferLen : ℕ} (hrate : s.wav.sampleRate ≠ 0)
    (hsignal : s.thread = .wait ∨ s.thread = .finalWait → s.dacSignal = true)
    (hreturned : ∀ result, s.thread ≠ .returned result) :
    ∃ s', s.threadStep bufferLen true = .ok s' := by
  unfold Playback.threadStep
  dsimp only
  cases hthread : s.thread with
  | start =>
    dsimp only
    split
    · exact ⟨_, rfl⟩
    · exact ⟨_, rfl⟩
  | filled last nb =>
    cases last with
    | true =>
      dsimp only
      unfold dacSingleConversion dacStartConversion
      dsimp only
      rw [if_neg hrate]
      split
      · exact ⟨_, rfl⟩
      · exact ⟨_, rfl⟩
    | false =>
      dsimp only
      unfold dacContinuousConversion dacStartConversion
      rw [if_neg hrate]
      exact ⟨_, rfl⟩
  | wait =>
    dsimp only
    unfold Playback.semWait
    rw [if_pos (hsignal (Or.inl hthread))]
    exact ⟨_, rfl⟩
  | readDone buf last nb => cases last <;> exact ⟨_, rfl⟩
  | finalWait =>
    dsimp only
    unfold Playback.semWait
    rw [if_pos (hsignal (Or.inr hthread))]
    exact ⟨_, rfl⟩
  | returned result => exact absurd hthread (hreturned result)
  | fill => exact ⟨_, rfl⟩
  | read buf => exact ⟨_, rfl⟩
  | stop => exact ⟨_, rfl⟩

/-- While the thread is blocked, there is a conversion. -/
theorem Mode.conversion_of_blocked (hs : Mode half final samples playable s out)
    (hwait : s.thread = .wait ∨ s.thread = .finalWait) (hsignal : s.dacSignal = false) :
    ∃ c, s.conversion = some c := by
  cases hs with
  | start hthread => grind
  | filledLast nb hthread => grind
  | filled nb hthread => grind
  | full pos hrepeats => exact ⟨_, hrepeats.conversion⟩
  | due pos hrepeats => exact ⟨_, hrepeats.conversion⟩
  | handing pos nb hrepeats => exact ⟨_, hrepeats.conversion⟩
  | last pos n hconversion => exact ⟨_, hconversion⟩
  | single c hconversion => exact ⟨_, hconversion⟩
  | stopping c hconversion => exact ⟨_, hconversion⟩
  | stopped hidle hsignaled => exact absurd (hsignal.symm.trans hsignaled) (by decide)
  | finished hidle hthread => grind

/-- **Until the function has returned, some step is allowed**: the thread's, or the
conversion of a sample where the thread waits. -/
theorem Mode.continues {bufferLen : ℕ} (hrate : s.wav.sampleRate ≠ 0)
    (hs : Mode half final samples playable s out) :
    s.thread = .returned .ok ∧ out = playable ∨ Playback.Continues bufferLen (s, out) := by
  by_cases hreturned : ∃ result, s.thread = .returned result
  · obtain ⟨result, hreturned⟩ := hreturned
    obtain ⟨rfl, hout⟩ := hs.eq_playable hreturned
    exact Or.inl ⟨hreturned, hout⟩
  · by_cases hsignal : s.thread = .wait ∨ s.thread = .finalWait → s.dacSignal = true
    · obtain ⟨t, ht⟩ := threadStep_total hrate hsignal (not_exists.mp hreturned)
      exact Or.inr (continues_thread ht)
    · obtain ⟨hwait, hunsignaled⟩ := Classical.not_imp.mp hsignal
      have hunsignaled := Bool.not_eq_true _ ▸ hunsignaled
      obtain ⟨c, hc⟩ := hs.conversion_of_blocked hwait hunsignaled
      exact Or.inr (continues_convert hc hwait hunsignaled)

end Modes

/-! ## Runs -/

/-- What is kept during a run. -/
structure Plays (half final : ℕ) (samples playable : List UInt16) (s : Playback × List UInt16) :
    Prop where
  mode : Mode half final samples playable s.1 s.2
  dataPos_le : s.1.wav.dataPos ≤ s.1.wav.dataLen
  sampleRate_ne : s.1.wav.sampleRate ≠ 0

/-- How many steps a run can take, at most. -/
def stepsLeft (playable : List UInt16) (s : Playback × List UInt16) : ℕ :=
  s.1.threadLeft + (playable.length - s.2.length)

/-- The thread and the DAC, with what was converted. -/
abbrev playbackStep (bufferLen : ℕ) :
    Playback × List UInt16 → PlaybackStep → Except NoStep (Playback × List UInt16) :=
  recorded (Playback.step bufferLen) Playback.shows

section Runs

variable {bufferLen half final : ℕ} {samples playable : List UInt16}

theorem length_shows_convert {s s' : Playback} (h : s.convert = .ok s') :
    (s.shows .convert).length = 1 := by
  unfold Playback.shows
  dsimp only
  cases hc : s.conversion with
  | none => exact absurd h (convert_of_none hc)
  | some c => rfl

/-- **A step keeps what is kept, and leaves fewer steps.** -/
theorem plays_step (hlen : 2 ≤ bufferLen) (hhalf : bufferLen - bufferLen % 2 = half * 2)
    (hplayable : playable = samples.take (samples.length - final / 2 % 2))
    {s s' : Playback × List UInt16} {i : PlaybackStep} (hs : Plays half final samples playable s)
    (hcond : InTime s i ∧ HandsOver s i) (h : playbackStep bufferLen s i = .ok s') :
    Plays half final samples playable s' ∧ stepsLeft playable s' < stepsLeft playable s := by
  have hpos : 0 < half := by omega
  obtain ⟨s, out⟩ := s
  obtain ⟨s', out'⟩ := s'
  obtain ⟨hone, hout⟩ := recorded_eq_ok.mp h
  have hout : out' = out ++ s.shows i := hout
  subst hout
  cases i with
  | thread readOk =>
    have hread : readOk = true := hcond.1.1 readOk rfl
    subst hread
    have hthread : s.threadStep bufferLen true = .ok s' := hone
    have hstepped := threadStepped hlen hs.dataPos_le hthread
    have hmode := mode_thread hpos hhalf hs.dataPos_le hplayable hs.mode hthread
    have hshows : out ++ s.shows (.thread true) = out := List.append_nil out
    rw [hshows]
    refine ⟨⟨hmode, hstepped.dataPos_le, ?_⟩, ?_⟩
    · show s'.wav.sampleRate ≠ 0
      rw [hstepped.sampleRate]
      exact hs.sampleRate_ne
    · exact Nat.add_lt_add_right hstepped.threadLeft_lt _
  | convert =>
    have hconvert : s.convert = .ok s' := hone
    have hmode : Mode half final samples playable s' (out ++ s.shows .convert) :=
      mode_convert hpos hs.mode hcond.1 hcond.2 hconvert
    obtain ⟨hwav, hthread⟩ := frame_of_convert hconvert
    have hwav : s'.wav = s.wav := hwav
    refine ⟨⟨hmode, ?_, ?_⟩, ?_⟩
    · show s'.wav.dataPos ≤ s'.wav.dataLen
      rw [hwav]
      exact hs.dataPos_le
    · show s'.wav.sampleRate ≠ 0
      rw [hwav]
      exact hs.sampleRate_ne
    · have hleft : s'.threadLeft = s.threadLeft := by
        unfold Playback.threadLeft
        rw [hwav, hthread]
      have hlength := (hmode.prefix_playable hpos hplayable).length_le
      show s'.threadLeft + (playable.length - (out ++ s.shows .convert).length)
        < s.threadLeft + (playable.length - out.length)
      rw [List.length_append, length_shows_convert hconvert] at hlength ⊢
      omega

end Runs

/-- **The chunks of a file**: the first chunk is the final one, or the last of those that
follow it is. -/
theorem finalChunk_of_chunkRead {bufferLen half : ℕ} {w : WavData} {memory : SampleMemory}
    {r : ReadResult} (hhalf : bufferLen - bufferLen % 2 = half * 2)
    (hr : ChunkRead w memory 0 (half * 2) r) :
    if r.last then w.finalChunk bufferLen = w.readLen (half * 2)
    else Streams half (w.finalChunk bufferLen) r.wav := by
  unfold WavData.finalChunk
  dsimp only
  rw [hhalf]
  by_cases hend : w.AtEnd (half * 2)
  · rw [if_pos (hr.last.mpr hend), if_pos (atEnd_iff.mp hend), readLen_of_atEnd hend]
  · rw [if_neg (fun hlast => hend (hr.last.mp hlast)),
      if_neg (fun hfirst => hend (atEnd_iff.mpr hfirst))]
    have hread := readLen_of_not_atEnd hend
    have hleft := left_of_chunkRead hr
    have hfile : r.wav.file.length = w.file.length - half * 2 * 2 := by
      rw [hr.file, hread, List.length_drop]
    rw [atEnd_iff] at hend
    rw [hread] at hleft
    unfold Streams WavData.lastChunk
    rw [hleft, hfile]
    refine ⟨by omega, ?_⟩
    by_cases hle : w.left ≤ w.file.length
    · rw [if_pos hle, if_pos (by omega)]
    · rw [if_neg hle, if_neg (by omega)]

/-- The position is 0 after the header was read. -/
theorem dataPos_of_wavReadHeader {readOk : Bool} {file : List UInt8} {wav : WavData}
    (h : wavReadHeader readOk file = some wav) : wav.dataPos = 0 := by
  unfold wavReadHeader at h
  dsimp only at h
  split_ifs at h
  rw [← Option.some.inj h]

/-- **Playback is faithful**: in every run whose steps are as `cond` asks, the position in the
data does not go beyond their length, what was converted is a beginning of the samples to
play, and the number of steps is bounded; and unless some step can follow, the function has
returned and all of them were converted. -/
def PlaysFaithfully (cond : Playback × List UInt16 → PlaybackStep → Prop) (bufferLen : ℕ)
    (globals : DacGlobals) (memory : SampleMemory) (wav : WavData) : Prop :=
  ∀ steps s, Runs (playbackStep bufferLen) cond (playbackInit globals memory wav, []) steps s →
    s.1.wav.dataPos ≤ s.1.wav.dataLen
      ∧ s.2 <+: wav.playable bufferLen
      ∧ steps.length ≤ 3 * wav.file.length + 12 + (wav.playable bufferLen).length
      ∧ (s.1.thread = .returned .ok ∧ s.2 = wav.playable bufferLen
        ∨ ∃ i s', cond s i ∧ playbackStep bufferLen s i = .ok s')

/-- **Playback is faithful** as long as reading is done in time and the end is handed over
in time. -/
theorem plays_faithfully {readOk : Bool} {file : List UInt8} {wav : WavData}
    (hheader : wavReadHeader readOk file = some wav) (hrate : wav.sampleRate ≠ 0)
    {bufferLen : ℕ} (hlen : 2 ≤ bufferLen) (globals : DacGlobals) (memory : SampleMemory) :
    PlaysFaithfully (fun s i => InTime s i ∧ HandsOver s i) bufferLen globals memory wav := by
  intro steps s hruns
  obtain ⟨half, hhalf⟩ : ∃ half, bufferLen - bufferLen % 2 = half * 2 :=
    ⟨bufferLen / 2, by omega⟩
  have hinit : Plays half (wav.finalChunk bufferLen) wav.samples (wav.playable bufferLen)
      (playbackInit globals memory wav, []) := by
    refine ⟨.start (Or.inl rfl) rfl rfl rfl (fun r hr => finalChunk_of_chunkRead hhalf hr),
      ?_, hrate⟩
    show wav.dataPos ≤ wav.dataLen
    rw [dataPos_of_wavReadHeader hheader]
    exact UInt32.zero_le
  have hs := hruns.invariant
    (fun s i s' hs hcond hone => (plays_step hlen hhalf rfl hs hcond hone).1) hinit
  have hlength := hruns.length_add_le (stepsLeft (wav.playable bufferLen))
    (fun s i s' hs hcond hone => plays_step hlen hhalf rfl hs hcond hone) hinit
  refine ⟨hs.dataPos_le, hs.mode.prefix_playable (by omega) rfl, ?_, ?_⟩
  · exact (Nat.le_add_right _ _).trans hlength
  · obtain hreturned | ⟨i, t, hintime, hhands, hone⟩ :=
      hs.mode.continues hs.sampleRate_ne
    · exact Or.inl hreturned
    · exact Or.inr ⟨i, (t, s.2 ++ s.1.shows i), ⟨hintime, hhands⟩,
        recorded_eq_ok.mpr ⟨hone, rfl⟩⟩

/-- A file with six samples. -/
def sixSamplesData : WavData where
  file := [1, 0, 2, 0, 3, 0, 4, 0, 5, 0, 6, 0]
  sampleRate := 44100
  sampleSize := 2
  dataLen := 12
  dataPos := 0

/-- Its header and its samples. -/
def sixSamples : List UInt8 :=
  riff ++ [48, 0, 0, 0] ++ wave ++ fmt
    ++ [16, 0, 0, 0, 1, 0, 1, 0, 0x44, 0xac, 0, 0, 0x88, 0x58, 1, 0, 2, 0, 16, 0]
    ++ data ++ [12, 0, 0, 0] ++ sixSamplesData.file

theorem plays_faithfully_sixSamples :
    PlaysFaithfully (fun s i => InTime s i ∧ HandsOver s i) 4 ⟨none, false, 0, 0, 0⟩
      (fun _ => 0) sixSamplesData :=
  plays_faithfully (rfl : wavReadHeader true sixSamples = some sixSamplesData) (by decide)
    (by decide) _ _

/-- While the last chunk is read, there is time enough; the half that is converted is finished
afterwards, before it is handed over. -/
theorem runs_lateHandOver : ∃ s : Playback × List UInt16,
    Runs (playbackStep 4) InTime
      (playbackInit ⟨none, false, 0, 0, 0⟩ (fun _ => 0) sixSamplesData, [])
      (List.replicate 3 (.thread true) ++ List.replicate 2 .convert
        ++ List.replicate 2 (.thread true) ++ List.replicate 2 .convert
        ++ List.replicate 2 (.thread true)) s
      ∧ s.1.thread = .returned .ok ∧ s.1.conversion = none ∧ s.2.length = 4 := by
  refine Runs.exists_cons (allowed_thread _ _).1 rfl ?_
  refine Runs.exists_cons (allowed_thread _ _).1 rfl ?_
  refine Runs.exists_cons (allowed_thread _ _).1 rfl ?_
  refine Runs.exists_cons (allowed_convert (Or.inl rfl) rfl).1 rfl ?_
  refine Runs.exists_cons (allowed_convert (Or.inl rfl) rfl).1 rfl ?_
  refine Runs.exists_cons (allowed_thread _ _).1 rfl ?_
  refine Runs.exists_cons (allowed_thread _ _).1 rfl ?_
  refine Runs.exists_cons (inTime_readDone rfl) rfl ?_
  refine Runs.exists_cons (inTime_readDone rfl) rfl ?_
  refine Runs.exists_cons (allowed_thread _ _).1 rfl ?_
  refine Runs.exists_cons (allowed_thread _ _).1 rfl ?_
  exact ⟨_, .nil, rfl, rfl, rfl⟩

/-- The thread takes the signal of the half for that of the end, and stops the DAC: the last
chunk is not played. -/
theorem not_plays_faithfully :
    ¬ ∀ (readOk : Bool) (file : List UInt8) (wav : WavData),
      wavReadHeader readOk file = some wav → wav.sampleRate ≠ 0 →
      ∀ bufferLen, 2 ≤ bufferLen → ∀ (globals : DacGlobals) (memory : SampleMemory),
        PlaysFaithfully InTime bufferLen globals memory wav := by
  intro h
  have hplays := h true sixSamples sixSamplesData rfl (by decide) 4 (by decide)
    ⟨none, false, 0, 0, 0⟩ (fun _ => 0)
  obtain ⟨s, hruns, hthread, hidle, hlength⟩ := runs_lateHandOver
  obtain ⟨-, -, -, ⟨-, hout⟩ | ⟨i, s', -, hstep⟩⟩ := hplays _ _ hruns
  · have hsix : (sixSamplesData.playable 4).length = 6 := rfl
    rw [← hout, hlength] at hsix
    cases hsix
  · obtain ⟨hone, -⟩ := recorded_eq_ok.mp hstep
    cases i with
    | thread readOk =>
      have hone : s.1.threadStep 4 readOk = .ok s'.1 := hone
      unfold Playback.threadStep at hone
      rw [hthread] at hone
      cases hone
    | convert => exact convert_of_none hidle hone

end Audio
