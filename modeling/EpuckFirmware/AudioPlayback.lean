import EpuckFirmware.AudioDac

/-!
# What is played of a file

The samples that were converted, those in the buffer that are still to be converted, and
those that were not read yet are the samples of the file, in this order: a `Mode` says
where in the buffer they are, for each way in which the thread and the callbacks can
stand to each other. Converting, reading and handing over keep this. At the end nothing
is left in the buffer or to be read, but for a sample that does not fit in a conversion
of even length.
-/

namespace Audio

open StepMachine History MemorySegment

/-! ## Halves of a buffer -/

/-- The end of the half that is converted. -/
def Conversion.halfEnd (c : Conversion) : ℕ := if c.pos < c.depth / 2 then c.depth / 2 else c.depth

/-- What is left to convert of the half. -/
def Conversion.rest (c : Conversion) (memory : SampleMemory) : List UInt16 :=
  segment memory (c.start + c.pos) (c.start + c.halfEnd)

/-- The conversion after the next sample. -/
def Conversion.next (c : Conversion) : Conversion := { c with pos := c.pos + 1 }

/-- Conversions have an even number of samples, and a next one. -/
structure Conversion.Valid (c : Conversion) : Prop where
  even : c.depth % 2 = 0
  pos_lt : c.pos < c.depth

/-- The conversion of a buffer with halves of the given length. -/
def whole (half pos : ℕ) : Conversion := ⟨0, half * 2, pos⟩

/-- The start of the half that is not converted. -/
def other (half pos : ℕ) : ℕ := if pos < half then half else 0

section Halves

variable {c : Conversion} {memory : SampleMemory}

theorem pos_lt_halfEnd (h : c.Valid) : c.pos < c.halfEnd := by
  have hlt := h.pos_lt
  unfold Conversion.halfEnd
  split
  · assumption
  · exact hlt

theorem halfEnd_next (h : c.pos + 1 < c.halfEnd) : c.next.halfEnd = c.halfEnd := by
  unfold Conversion.halfEnd at h ⊢
  unfold Conversion.next
  dsimp only
  split at h <;> split <;> omega

theorem valid_next (h : c.Valid) (hpos : c.pos + 1 < c.halfEnd) : c.next.Valid := by
  refine ⟨h.even, ?_⟩
  have hhalf : c.halfEnd ≤ c.depth := by
    unfold Conversion.halfEnd
    split <;> omega
  exact lt_of_lt_of_le hpos hhalf

/-- Within a half, the next sample is converted before the others. -/
theorem append_rest_next (h : c.Valid) (hpos : c.pos + 1 < c.halfEnd) (out : List UInt16) :
    out ++ c.rest memory = out ++ [memory (c.start + c.pos)] ++ c.next.rest memory := by
  have hlt := pos_lt_halfEnd h
  unfold Conversion.rest
  rw [halfEnd_next hpos, segment_cons (by omega), List.append_assoc, List.singleton_append]
  rfl

/-- The last sample of a half. -/
theorem rest_last (hpos : c.pos + 1 = c.halfEnd) :
    c.rest memory = [memory (c.start + c.pos)] := by
  unfold Conversion.rest
  rw [← hpos, segment_cons (by omega), ← Nat.add_assoc, segment_self]

theorem rest_congr {memory' : SampleMemory}
    (h : ∀ i, c.start + c.pos ≤ i → i < c.start + c.halfEnd → memory' i = memory i) :
    c.rest memory' = c.rest memory :=
  segment_congr h

variable {half pos : ℕ}

theorem halfEnd_whole : (whole half pos).halfEnd = if pos < half then half else half * 2 := by
  unfold Conversion.halfEnd whole
  dsimp only
  rw [Nat.mul_div_cancel _ (by decide)]

theorem valid_whole (h : pos < half * 2) : (whole half pos).Valid :=
  ⟨Nat.mul_mod_left half 2, h⟩

theorem other_lt (h : 0 < half) : other half pos < half * 2 := by
  unfold other
  split <;> omega

theorem other_next (h : (whole half pos).pos + 1 < (whole half pos).halfEnd) :
    other half (pos + 1) = other half pos := by
  rw [halfEnd_whole] at h
  have h : pos + 1 < if pos < half then half else half * 2 := h
  unfold other
  split at h <;> split <;> omega

/-- The half that is converted next is the other one. -/
theorem rest_other (h : 0 < half) :
    (whole half (other half pos)).rest memory
      = segment memory (other half pos) (other half pos + half) := by
  have hend : (whole half (other half pos)).halfEnd = other half pos + half := by
    rw [halfEnd_whole]
    unfold other
    split
    · rw [if_neg (Nat.lt_irrefl _), Nat.mul_two]
    · rw [Nat.zero_add]
  unfold Conversion.rest
  rw [hend]
  show segment memory (0 + other half pos) (0 + (other half pos + half)) = _
  rw [Nat.zero_add, Nat.zero_add]

/-- Filling the other half leaves what is being converted. -/
theorem rest_whole_congr {memory' : SampleMemory}
    (h : ∀ i, i < other half pos ∨ other half pos + half ≤ i → memory' i = memory i) :
    (whole half pos).rest memory' = (whole half pos).rest memory := by
  refine rest_congr (fun i hlow hhigh => h i ?_)
  rw [halfEnd_whole] at hhigh
  unfold other
  simp only [whole, Nat.zero_add] at hlow hhigh
  split at hhigh <;> split <;> omega

end Halves

/-! ## Converting a sample -/

/-- **What converting a sample does**: within a half it goes on to the next sample, and at
the end of a half it calls the callback. -/
theorem convert_eq_ok {s s' : Playback} {c : Conversion} (hc : s.conversion = some c)
    (hvalid : c.Valid) (h : s.convert = .ok s') :
    s.shows .convert = [s.memory (c.start + c.pos)]
      ∧ ((c.pos + 1 < c.halfEnd ∧ s' = { s with conversion := some c.next })
        ∨ (c.pos + 1 = c.halfEnd ∧ s.Completes .convert
          ∧ ((c.pos < c.depth / 2 ∧ s' = callEndCb
                { s with conversion := some { c with pos := c.depth / 2 } } c.start (c.depth / 2))
            ∨ (¬ c.pos < c.depth / 2 ∧ s' = callEndCb
                { s with conversion := some { c with pos := 0 } } (c.start + c.depth / 2)
                (c.depth / 2))))) := by
  have hlt := hvalid.pos_lt
  have hshows : s.shows .convert = [s.memory (c.start + c.pos)] := by
    unfold Playback.shows
    rw [hc]
    rfl
  refine ⟨hshows, ?_⟩
  unfold Playback.convert at h
  rw [hc] at h
  dsimp only at h
  unfold Conversion.halfEnd
  split at h
  · rename_i hhalf
    refine Or.inr ⟨by rw [if_pos (by omega)]; exact hhalf, ⟨rfl, c, hc, Or.inl hhalf⟩,
      Or.inl ⟨by omega, ?_⟩⟩
    rw [← Except.ok.inj h, hhalf]
  · rename_i hhalf
    split at h
    · rename_i hend
      refine Or.inr ⟨by rw [if_neg (by omega)]; exact hend, ⟨rfl, c, hc, Or.inr hend⟩,
        Or.inr ⟨by omega, (Except.ok.inj h).symm⟩⟩
    · refine Or.inl ⟨?_, (Except.ok.inj h).symm⟩
      split <;> omega

/-- Nothing is converted where there is no conversion. -/
theorem convert_of_none {s s' : Playback} (hc : s.conversion = none) : s.convert ≠ .ok s' := by
  unfold Playback.convert
  rw [hc]
  simp

/-! Which conversion follows does not depend on the half that was completed. -/

theorem callEndCb_last {s : Playback} (hcb : s.endCb = some .lastConversion)
    (c : Conversion) (prev n : ℕ) :
    callEndCb { s with conversion := some c } prev n = { s with
      endCb := some .singleConversion
      conversion := some ⟨s.dacWritePos, s.conversionLen, 0⟩ } := by
  unfold callEndCb
  simp only [hcb, dacLastConversionCb]

theorem callEndCb_single {s : Playback} (hcb : s.endCb = some .singleConversion)
    (c : Conversion) (prev n : ℕ) :
    callEndCb { s with conversion := some c } prev n = { s with
      endCb := some .stop
      conversion := some c } := by
  unfold callEndCb
  simp only [hcb, dacSingleConversionCb]

theorem callEndCb_stop {s : Playback} (hcb : s.endCb = some .stop) (c : Conversion)
    (prev n : ℕ) :
    callEndCb { s with conversion := some c } prev n = { s with
      conversion := none
      dacSignal := true } := by
  unfold callEndCb
  simp only [hcb, dacStopCb]

/-- Completing a half of the buffer in continuous conversion tells the thread to fill it. -/
theorem continuous_completes {s s' : Playback} {half pos : ℕ} (hhalf : 0 < half)
    (hcb : s.endCb = some .continuousConversion) (hbuffer : s.dacBuffer = 0)
    (h : ((whole half pos).pos < (whole half pos).depth / 2 ∧ s' = callEndCb
          { s with conversion := some { whole half pos with pos := (whole half pos).depth / 2 } }
          (whole half pos).start ((whole half pos).depth / 2))
      ∨ (¬ (whole half pos).pos < (whole half pos).depth / 2 ∧ s' = callEndCb
          { s with conversion := some { whole half pos with pos := 0 } }
          ((whole half pos).start + (whole half pos).depth / 2) ((whole half pos).depth / 2))) :
    s' = { s with
      conversion := some (whole half (other half pos))
      dacWritePos := other half (other half pos)
      dacSignal := true } := by
  have hdepth : (whole half pos).depth / 2 = half := Nat.mul_div_cancel _ (by decide)
  rw [hdepth] at h
  unfold other
  obtain ⟨hpos, rfl⟩ | ⟨hpos, rfl⟩ := h
  · have hpos' : pos < half := hpos
    rw [if_pos hpos', if_neg (Nat.lt_irrefl _)]
    unfold callEndCb
    simp only [hcb, dacContinuousConversionCb, hbuffer]
    rfl
  · have hpos' : ¬ pos < half := hpos
    rw [if_neg hpos', if_pos hhalf]
    unfold callEndCb
    simp only [hcb, dacContinuousConversionCb, hbuffer]
    rw [if_neg (by show ¬ 0 + half = 0; omega), Nat.zero_add]
    rfl

/-! ## Where the samples are -/

/-- What the thread and the DAC have in common while the buffer is repeated. -/
structure Repeats (half pos : ℕ) (s : Playback) : Prop where
  conversion : s.conversion = some (whole half pos)
  pos_lt : pos < half * 2
  endCb : s.endCb = some .continuousConversion
  dacBuffer : s.dacBuffer = 0

/-- The thread goes on, and the buffer is repeated. -/
theorem Repeats.congr {half pos : ℕ} {s s' : Playback} (h : Repeats half pos s)
    (hconversion : s'.conversion = s.conversion) (hcb : s'.endCb = s.endCb)
    (hbuffer : s'.dacBuffer = s.dacBuffer) : Repeats half pos s' :=
  ⟨hconversion.trans h.conversion, h.pos_lt, hcb.trans h.endCb, hbuffer.trans h.dacBuffer⟩

/-- There are samples to read, and the last chunk of them is the final one. -/
def Streams (half : ℕ) (final : ℕ) (w : WavData) : Prop := 0 < w.left ∧ w.lastChunk half = final

/-- **Where the samples are**, of all those of the file, or of those to play. `final` is the
number of bytes of the final chunk. -/
inductive Mode (half final : ℕ) (samples playable : List UInt16) (s : Playback)
    (out : List UInt16) : Prop
  | start (hthread : s.thread = .start ∨ s.thread = .fill) (hidle : s.conversion = none)
      (hout : out = []) (hsamples : samples = s.wav.samples)
      (hfinal : ∀ r, ChunkRead s.wav s.memory 0 (half * 2) r → if r.last
        then final = s.wav.readLen (half * 2) else Streams half final r.wav)
  /-- The buffer has all samples. -/
  | filledLast (nb : ℕ) (hthread : s.thread = .filled true nb) (hidle : s.conversion = none)
      (hfinal : nb = final / 2) (hsamples : samples = out ++ segment s.memory 0 (0 + nb))
  /-- The buffer has the first samples. -/
  | filled (nb : ℕ) (hthread : s.thread = .filled false nb) (hidle : s.conversion = none)
      (hstreams : Streams half final s.wav)
      (hsamples : samples = out ++ segment s.memory 0 (half * 2) ++ s.wav.samples)
  /-- Both halves have samples to convert. -/
  | full (pos : ℕ) (hrepeats : Repeats half pos s) (hsignal : s.dacSignal = false)
      (hthread : s.thread = .wait ∨ ∃ buf nb, s.thread = .readDone buf false nb)
      (hstreams : Streams half final s.wav)
      (hsamples : samples = out ++ (whole half pos).rest s.memory
        ++ segment s.memory (other half pos) (other half pos + half) ++ s.wav.samples)
  /-- One half is to be filled. -/
  | due (pos : ℕ) (hrepeats : Repeats half pos s)
      (hthread : s.dacSignal = true ∧ s.dacWritePos = other half pos
          ∧ (s.thread = .wait ∨ ∃ buf nb, s.thread = .readDone buf false nb)
        ∨ s.dacSignal = false ∧ s.thread = .read (other half pos))
      (hstreams : Streams half final s.wav)
      (hsamples : samples = out ++ (whole half pos).rest s.memory ++ s.wav.samples)
  /-- The last samples are in the other half, and it is not handed over yet. -/
  | handing (pos nb : ℕ) (hrepeats : Repeats half pos s) (hsignal : s.dacSignal = false)
      (hthread : s.thread = .readDone (other half pos) true nb) (hfinal : nb = final / 2)
      (hsamples : samples = out ++ (whole half pos).rest s.memory
        ++ segment s.memory (other half pos) (other half pos + nb))
  /-- The last conversion follows the half that is converted. -/
  | last (pos n : ℕ) (hconversion : s.conversion = some (whole half pos)) (hpos : pos < half * 2)
      (hcb : s.endCb = some .lastConversion) (hsignal : s.dacSignal = false)
      (hthread : s.thread = .finalWait) (hwrite : s.dacWritePos = other half pos)
      (hlen : s.conversionLen = n) (hn : 0 < n) (heven : n % 2 = 0)
      (hplayable : playable = out ++ (whole half pos).rest s.memory
        ++ segment s.memory (other half pos) (other half pos + n))
  /-- The first half of a conversion that is not repeated. -/
  | single (c : Conversion) (hconversion : s.conversion = some c) (hvalid : c.Valid)
      (hpos : c.pos < c.depth / 2) (hcb : s.endCb = some .singleConversion)
      (hsignal : s.dacSignal = false) (hthread : s.thread = .finalWait)
      (hplayable : playable = out ++ segment s.memory (c.start + c.pos) (c.start + c.depth))
  /-- The half at whose end the conversion stops. -/
  | stopping (c : Conversion) (hconversion : s.conversion = some c) (hvalid : c.Valid)
      (hcb : s.endCb = some .stop) (hsignal : s.dacSignal = false)
      (hthread : s.thread = .finalWait) (hplayable : playable = out ++ c.rest s.memory)
  | stopped (hidle : s.conversion = none) (hsignal : s.dacSignal = true)
      (hthread : s.thread = .finalWait) (hplayable : playable = out)
  | finished (hidle : s.conversion = none)
      (hthread : s.thread = .stop ∨ s.thread = .returned .ok) (hplayable : playable = out)

/-- **The samples to play are known once the final chunk is read.** -/
theorem playable_eq {samples a : List UInt16} {memory : SampleMemory} {b nb : ℕ}
    (h : samples = a ++ segment memory b (b + nb)) :
    samples.take (samples.length - nb % 2) = a ++ segment memory b (b + (nb - nb % 2)) := by
  have hle : nb % 2 ≤ nb := Nat.mod_le nb 2
  rw [h, List.length_append, length_segment, show a.length + (b + nb - b) - nb % 2
    = a.length + (nb - nb % 2) by omega, List.take_length_add_append, take_segment]
  omega

section Steps

variable {half final : ℕ} {samples playable : List UInt16} {s s' : Playback} {out : List UInt16}

/-- **Converting a sample keeps the mode or leads to the next.** -/
theorem mode_convert (hhalf : 0 < half) (hs : Mode half final samples playable s out)
    (hintime : InTime (s, out) .convert) (hhands : HandsOver (s, out) .convert)
    (h : s.convert = .ok s') :
    Mode half final samples playable s' (out ++ s.shows .convert) := by
  cases hs with
  | start _ hidle => exact absurd h (convert_of_none hidle)
  | filledLast _ _ hidle => exact absurd h (convert_of_none hidle)
  | filled _ _ hidle => exact absurd h (convert_of_none hidle)
  | full pos hrepeats hsignal hthread hstreams hsamples =>
    have hvalid := valid_whole hrepeats.pos_lt
    obtain ⟨hshows, ⟨hin, rfl⟩ | ⟨hend, -, hcall⟩⟩ := convert_eq_ok hrepeats.conversion hvalid h
    · rw [hshows]
      rw [append_rest_next hvalid hin, ← other_next hin] at hsamples
      exact .full (pos + 1) ⟨rfl, (valid_next hvalid hin).pos_lt, hrepeats.endCb,
        hrepeats.dacBuffer⟩ hsignal hthread hstreams hsamples
    · have hs' := continuous_completes hhalf hrepeats.endCb hrepeats.dacBuffer hcall
      rw [hshows, hs']
      rw [rest_last hend, ← rest_other hhalf] at hsamples
      exact .due (other half pos) ⟨rfl, other_lt hhalf, hrepeats.endCb, hrepeats.dacBuffer⟩
        (Or.inl ⟨rfl, rfl, hthread⟩) hstreams hsamples
  | due pos hrepeats hthread hstreams hsamples =>
    have hvalid := valid_whole hrepeats.pos_lt
    obtain ⟨hshows, ⟨hin, rfl⟩ | ⟨-, hcompletes, -⟩⟩ :=
      convert_eq_ok hrepeats.conversion hvalid h
    · rw [hshows]
      rw [append_rest_next hvalid hin] at hsamples
      rw [← other_next hin] at hthread
      exact .due (pos + 1) ⟨rfl, (valid_next hvalid hin).pos_lt, hrepeats.endCb,
        hrepeats.dacBuffer⟩ hthread hstreams hsamples
    · refine absurd ?_ (hintime.2 hcompletes)
      obtain ⟨hsignal, -, hwait⟩ | ⟨-, hread⟩ := hthread
      · exact Or.inr ⟨hsignal, hwait⟩
      · exact Or.inl ⟨_, hread⟩
  | handing pos nb hrepeats hsignal hthread hfinal hsamples =>
    have hvalid := valid_whole hrepeats.pos_lt
    obtain ⟨hshows, ⟨hin, rfl⟩ | ⟨-, hcompletes, -⟩⟩ :=
      convert_eq_ok hrepeats.conversion hvalid h
    · rw [hshows]
      rw [append_rest_next hvalid hin, ← other_next hin] at hsamples
      rw [← other_next hin] at hthread
      exact .handing (pos + 1) nb ⟨rfl, (valid_next hvalid hin).pos_lt, hrepeats.endCb,
        hrepeats.dacBuffer⟩ hsignal hthread hfinal hsamples
    · exact absurd hthread (hhands hcompletes _ _)
  | last pos n hconversion hpos hcb hsignal hthread hwrite hlen hn heven hplayable =>
    have hvalid := valid_whole hpos
    obtain ⟨hshows, ⟨hin, rfl⟩ | ⟨hend, -, hcall⟩⟩ := convert_eq_ok hconversion hvalid h
    · rw [hshows]
      rw [append_rest_next hvalid hin, ← other_next hin] at hplayable
      rw [← other_next hin] at hwrite
      exact .last (pos + 1) n rfl (valid_next hvalid hin).pos_lt hcb hsignal hthread hwrite hlen hn
        heven hplayable
    · have hs' : s' = { s with
          endCb := some .singleConversion, conversion := some ⟨other half pos, n, 0⟩ } := by
        obtain ⟨-, rfl⟩ | ⟨-, rfl⟩ := hcall
        · rw [callEndCb_last hcb, hwrite, hlen]
        · rw [callEndCb_last hcb, hwrite, hlen]
      rw [hshows, hs']
      rw [rest_last hend] at hplayable
      refine .single ⟨other half pos, n, 0⟩ rfl ⟨heven, hn⟩ ?_ rfl hsignal hthread hplayable
      show 0 < n / 2
      omega
  | single c hconversion hvalid hpos hcb hsignal hthread hplayable =>
    have hlt := hvalid.pos_lt
    have hfirst : c.halfEnd = c.depth / 2 := if_pos hpos
    rw [segment_cons (by omega), ← List.singleton_append, ← List.append_assoc,
      Nat.add_assoc] at hplayable
    obtain ⟨hshows, ⟨hin, rfl⟩ | ⟨hend, -, hcall⟩⟩ := convert_eq_ok hconversion hvalid h
    · rw [hshows]
      rw [hfirst] at hin
      exact .single c.next rfl (valid_next hvalid (hfirst ▸ hin)) hin hcb hsignal hthread hplayable
    · rw [hfirst] at hend
      rw [hend] at hplayable
      obtain ⟨-, rfl⟩ | ⟨hsecond, -⟩ := hcall
      · rw [hshows, callEndCb_single hcb]
        refine .stopping { c with pos := c.depth / 2 } rfl ⟨hvalid.even, ?_⟩ rfl hsignal hthread ?_
        · show c.depth / 2 < c.depth
          omega
        · unfold Conversion.rest Conversion.halfEnd
          rw [if_neg (Nat.lt_irrefl _)]
          exact hplayable
      · exact absurd hpos hsecond
  | stopping c hconversion hvalid hcb hsignal hthread hplayable =>
    obtain ⟨hshows, ⟨hin, rfl⟩ | ⟨hend, -, hcall⟩⟩ := convert_eq_ok hconversion hvalid h
    · rw [hshows]
      rw [append_rest_next hvalid hin] at hplayable
      exact .stopping c.next rfl (valid_next hvalid hin) hcb hsignal hthread hplayable
    · rw [hshows]
      rw [rest_last hend] at hplayable
      obtain ⟨-, rfl⟩ | ⟨-, rfl⟩ := hcall
      · rw [callEndCb_stop hcb]
        exact .stopped rfl rfl hthread hplayable
      · rw [callEndCb_stop hcb]
        exact .stopped rfl rfl hthread hplayable
  | stopped hidle => exact absurd h (convert_of_none hidle)
  | finished hidle => exact absurd h (convert_of_none hidle)

/-- **Waiting for the semaphore** takes it. -/
theorem semWait_eq_ok {next : DacThd} (h : s.semWait next = .ok s') :
    s.dacSignal = true ∧ s' = { s with dacSignal := false, thread := next } := by
  unfold Playback.semWait at h
  split at h
  · rename_i hsignal
    exact ⟨hsignal, (Except.ok.inj h).symm⟩
  · cases h

theorem semWait_of_not (hsignal : s.dacSignal = false) (next : DacThd) :
    s.semWait next ≠ .ok s' := by
  intro h
  rw [(semWait_eq_ok h).1] at hsignal
  cases hsignal

/-- **A call of `data_cb` fills the other half**: the half that is converted stays as it is,
and the samples that were read follow it. -/
theorem read_other {w : WavData} {memory : SampleMemory} {pos : ℕ} {r : ReadResult}
    (hr : ChunkRead w memory (other half pos) half r)
    (hsamples : samples = out ++ (whole half pos).rest memory ++ w.samples) :
    samples = out ++ (whole half pos).rest r.memory ++ w.samples := by
  rw [rest_whole_congr hr.frame]
  exact hsamples

/-- **The first chunk** is the final one, or there are more samples than fit in the buffer. -/
theorem mode_fill (hpos : s.wav.dataPos ≤ s.wav.dataLen) (hidle : s.conversion = none)
    (hsamples : samples = s.wav.samples)
    (hfinal : ∀ r, ChunkRead s.wav s.memory 0 (half * 2) r → if r.last
      then final = s.wav.readLen (half * 2) else Streams half final r.wav) :
    Mode half final samples playable { s with
      wav := (wavReadCb true s.wav s.memory 0 (half * 2)).wav
      memory := (wavReadCb true s.wav s.memory 0 (half * 2)).memory
      thread := .filled (wavReadCb true s.wav s.memory 0 (half * 2)).last
        (wavReadCb true s.wav s.memory 0 (half * 2)).samplesWritten } [] := by
  have hr := chunkRead s.wav hpos s.memory 0 (half * 2)
  have hfinal := hfinal _ hr
  cases hlast : (wavReadCb true s.wav s.memory 0 (half * 2)).last with
  | true =>
    have hend := hr.last.mp hlast
    rw [hlast, if_pos rfl] at hfinal
    refine .filledLast _ rfl hidle ?_ ?_
    · rw [hr.written, hfinal]
    · rw [hsamples, samples_of_atEnd hend, List.nil_append, hr.written, hr.samples]
  | false =>
    have hend : ¬ s.wav.AtEnd (half * 2) := by
      rw [← hr.last, hlast]
      exact Bool.false_ne_true
    rw [hlast, if_neg Bool.false_ne_true] at hfinal
    refine .filled _ rfl hidle hfinal ?_
    have hread := samples_of_not_atEnd hend hr
    rw [Nat.zero_add] at hread
    rw [hsamples, hread, List.nil_append]

/-- **A chunk that follows** fills the other half, or is the final one. -/
theorem mode_read {pos : ℕ} (hpos : s.wav.dataPos ≤ s.wav.dataLen)
    (hrepeats : Repeats half pos s) (hsignal : s.dacSignal = false)
    (hstreams : Streams half final s.wav)
    (hsamples : samples = out ++ (whole half pos).rest s.memory ++ s.wav.samples) :
    Mode half final samples playable { s with
      wav := (wavReadCb true s.wav s.memory (other half pos) half).wav
      memory := (wavReadCb true s.wav s.memory (other half pos) half).memory
      thread := .readDone (other half pos)
        (wavReadCb true s.wav s.memory (other half pos) half).last
        (wavReadCb true s.wav s.memory (other half pos) half).samplesWritten } out := by
  have hr := chunkRead s.wav hpos s.memory (other half pos) half
  have hread := read_other hr hsamples
  cases hlast : (wavReadCb true s.wav s.memory (other half pos) half).last with
  | true =>
    have hend := hr.last.mp hlast
    refine .handing pos _ (hrepeats.congr rfl rfl rfl) hsignal rfl ?_ ?_
    · rw [hr.written, ← lastChunk_of_atEnd hend hstreams.1, hstreams.2]
    · rw [hread, samples_of_atEnd hend, hr.written, hr.samples]
  | false =>
    have hend : ¬ s.wav.AtEnd half := by
      rw [← hr.last, hlast]
      exact Bool.false_ne_true
    refine .full pos (hrepeats.congr rfl rfl rfl) hsignal (Or.inr ⟨_, _, rfl⟩) ⟨?_, ?_⟩ ?_
    · rw [left_of_chunkRead hr, readLen_of_not_atEnd hend]
      rw [atEnd_iff] at hend
      omega
    · rw [lastChunk_of_not_atEnd hend hr, hstreams.2]
    · rw [hread, samples_of_not_atEnd hend hr, List.append_assoc _ (segment _ _ _)]

/-- **The last chunk is handed over** to the callback of the conversion: it is played after
the half that is converted, or there is nothing of it to play. -/
theorem mode_dacLastConversion {pos nb : ℕ} (hrepeats : Repeats half pos s)
    (hsignal : s.dacSignal = false)
    (hplayable : playable = out ++ (whole half pos).rest s.memory
      ++ segment s.memory (other half pos) (other half pos + (nb - nb % 2))) :
    Mode half final samples playable (dacLastConversion s (other half pos) nb) out := by
  unfold dacLastConversion
  dsimp only
  by_cases hnb : nb - nb % 2 > 0
  · rw [if_pos hnb]
    dsimp only
    rw [hsignal, if_neg Bool.false_ne_true]
    exact .last pos (nb - nb % 2) hrepeats.conversion hrepeats.pos_lt rfl rfl rfl rfl rfl hnb
      (by omega) hplayable
  · rw [if_neg hnb]
    dsimp only
    rw [hsignal, if_neg Bool.false_ne_true]
    rw [Nat.eq_zero_of_not_pos hnb, Nat.add_zero, segment_self, List.append_nil] at hplayable
    exact .stopping (whole half pos) hrepeats.conversion (valid_whole hrepeats.pos_lt) rfl rfl rfl
      hplayable

/-- **The only chunk** is converted once, or there is nothing of it to play. -/
theorem mode_dacSingleConversion {nb : ℕ} (hidle : s.conversion = none)
    (hplayable : playable = out ++ segment s.memory 0 (0 + (nb - nb % 2)))
    (h : dacSingleConversion s 0 nb = .ok s') : Mode half final samples playable s' out := by
  unfold dacSingleConversion at h
  dsimp only at h
  split at h
  · rename_i hnb
    rw [← Except.ok.inj h]
    rw [hnb, Nat.add_zero, segment_self, List.append_nil] at hplayable
    exact .finished hidle (Or.inl rfl) hplayable
  · rename_i hnb
    obtain ⟨t, ht, rfl⟩ := map_eq_ok h
    unfold dacStartConversion at ht
    split at ht
    · cases ht
    · rw [← Except.ok.inj ht]
      refine .single ⟨0, nb - nb % 2, 0⟩ rfl ⟨?_, Nat.pos_of_ne_zero hnb⟩ ?_ rfl rfl rfl hplayable
      · show (nb - nb % 2) % 2 = 0
        omega
      · show 0 < (nb - nb % 2) / 2
        omega

/-- Continuous conversion begins with the first half of the full buffer. -/
theorem mode_dacContinuousConversion (hhalf : 0 < half) (hstreams : Streams half final s.wav)
    (hsamples : samples = out ++ segment s.memory 0 (half * 2) ++ s.wav.samples)
    (h : (dacContinuousConversion s 0 (half * 2)).map (fun s => { s with thread := .wait })
      = .ok s') :
    Mode half final samples playable s' out := by
  obtain ⟨t, ht, rfl⟩ := map_eq_ok h
  unfold dacContinuousConversion dacStartConversion at ht
  split at ht
  · cases ht
  · rw [← Except.ok.inj ht]
    refine .full 0 ⟨rfl, by omega, rfl, rfl⟩ rfl (Or.inl rfl) hstreams ?_
    have hother : other half 0 = half := if_pos hhalf
    have hrest : (whole half 0).rest s.memory = segment s.memory 0 half := by
      unfold Conversion.rest
      rw [halfEnd_whole, if_pos hhalf]
      show segment s.memory 0 (0 + half) = _
      rw [Nat.zero_add]
    show samples = out ++ (whole half 0).rest s.memory
      ++ segment s.memory (other half 0) (other half 0 + half) ++ s.wav.samples
    rw [hrest, hother, List.append_assoc out, segment_append (Nat.zero_le _) (Nat.le_add_right _ _),
      ← Nat.mul_two]
    exact hsamples

/-- **A step of the thread keeps the mode or leads to the next.** -/
theorem mode_thread {bufferLen : ℕ} (hhalf : 0 < half)
    (hlen : bufferLen - bufferLen % 2 = half * 2) (hpos : s.wav.dataPos ≤ s.wav.dataLen)
    (hplayable : playable = samples.take (samples.length - final / 2 % 2))
    (hs : Mode half final samples playable s out) (h : s.threadStep bufferLen true = .ok s') :
    Mode half final samples playable s' out := by
  unfold Playback.threadStep at h
  dsimp only at h
  rw [hlen, Nat.mul_div_cancel half (by decide)] at h
  cases hs with
  | start hthread hidle hout hsamples hfinal =>
    obtain hthread | hthread := hthread
    · rw [hthread] at h
      dsimp only at h
      rw [if_neg (by omega)] at h
      rw [← Except.ok.inj h]
      exact .start (Or.inr rfl) hidle hout hsamples hfinal
    · rw [hthread] at h
      rw [← Except.ok.inj h, hout]
      exact mode_fill hpos hidle hsamples hfinal
  | filledLast nb hthread hidle hfinal hsamples =>
    rw [hthread] at h
    rw [← hfinal, playable_eq hsamples] at hplayable
    exact mode_dacSingleConversion hidle hplayable h
  | filled nb hthread hidle hstreams hsamples =>
    rw [hthread] at h
    exact mode_dacContinuousConversion hhalf hstreams hsamples h
  | full pos hrepeats hsignal hthread hstreams hsamples =>
    obtain hthread | ⟨buf, nb, hthread⟩ := hthread
    · rw [hthread] at h
      exact absurd h (semWait_of_not hsignal _)
    · rw [hthread] at h
      rw [← Except.ok.inj h]
      exact .full pos (hrepeats.congr rfl rfl rfl)
        hsignal (Or.inl rfl) hstreams hsamples
  | due pos hrepeats hthread hstreams hsamples =>
    obtain ⟨hsignal, hwrite, hthread | ⟨buf, nb, hthread⟩⟩ | ⟨hsignal, hthread⟩ := hthread
    · rw [hthread] at h
      rw [(semWait_eq_ok h).2, hwrite]
      exact .due pos (hrepeats.congr rfl rfl rfl)
        (Or.inr ⟨rfl, rfl⟩) hstreams hsamples
    · rw [hthread] at h
      rw [← Except.ok.inj h]
      exact .due pos (hrepeats.congr rfl rfl rfl)
        (Or.inl ⟨hsignal, hwrite, Or.inl rfl⟩) hstreams hsamples
    · rw [hthread] at h
      rw [← Except.ok.inj h]
      exact mode_read hpos hrepeats hsignal hstreams hsamples
  | handing pos nb hrepeats hsignal hthread hfinal hsamples =>
    rw [hthread] at h
    rw [← hfinal, playable_eq hsamples] at hplayable
    rw [← Except.ok.inj h]
    exact mode_dacLastConversion hrepeats hsignal hplayable
  | last _ _ _ _ _ hsignal hthread =>
    rw [hthread] at h
    exact absurd h (semWait_of_not hsignal _)
  | single _ _ _ _ _ hsignal hthread =>
    rw [hthread] at h
    exact absurd h (semWait_of_not hsignal _)
  | stopping _ _ _ _ hsignal hthread =>
    rw [hthread] at h
    exact absurd h (semWait_of_not hsignal _)
  | stopped hidle hsignal hthread hout =>
    rw [hthread] at h
    rw [(semWait_eq_ok h).2]
    exact .finished hidle (Or.inl rfl) hout
  | finished hidle hthread hout =>
    obtain hthread | hthread := hthread
    · rw [hthread] at h
      rw [← Except.ok.inj h]
      exact .finished rfl (Or.inr rfl) hout
    · rw [hthread] at h
      cases h

end Steps

end Audio
