import EpuckFirmware.AudioWav
import EpuckFirmware.History

/-!
# Playing a sound

`audio_dac_convert` starts the conversion of a buffer, which the DAC repeats from the
beginning when it comes to the end. When it has converted a half of the buffer, it calls
the callback of the conversion; the first one tells the thread which half it can fill
with the next samples. Once there are no more, the thread exchanges the callback, and the
callbacks that follow bring the conversion to an end.

A step is one of the thread, or the conversion of a sample, with the call of the callback
where there is one.
-/

namespace Audio

open StepMachine History

/-- The callbacks of a conversion. -/
inductive EndCb
  | continuousConversion
  | lastConversion
  | singleConversion
  | stop
  deriving DecidableEq

/-- A conversion of the DAC: from which sample of the buffer on, how many samples, and
which of them is next. -/
structure Conversion where
  start : ℕ
  depth : ℕ
  pos : ℕ
  deriving DecidableEq

/-- What `audio_dac_convert` returns. -/
inductive AudioDacResult
  | ok
  | err
  deriving DecidableEq

/-- Where the thread is in `audio_dac_convert`. -/
inductive DacThd
  | start
  /-- Before the first call of `data_cb`. -/
  | fill
  /-- After the first call of `data_cb`. -/
  | filled (last : Bool) (nbSamples : ℕ)
  /-- In `dac_next_write_pos`. -/
  | wait
  /-- Before a call of `data_cb`. -/
  | read (buf : ℕ)
  /-- After a call of `data_cb`. -/
  | readDone (buf : ℕ) (last : Bool) (nbSamples : ℕ)
  /-- In `chBSemWait` of `dac_single_conversion` or of `dac_last_conversion`. -/
  | finalWait
  /-- Before `dacStop`. -/
  | stop
  | returned (result : AudioDacResult)
  deriving DecidableEq

/-- The variables of the driver. The buffer is at the index 0 of its memory. -/
structure DacGlobals where
  /-- `dac_conversion.end_cb`. -/
  endCb : Option EndCb
  dacSignal : Bool
  conversionLen : ℕ
  dacWritePos : ℕ
  dacBuffer : ℕ

/-- The file, the buffer, the driver, the DAC and the thread. -/
structure Playback extends DacGlobals where
  wav : WavData
  memory : SampleMemory
  /-- What the DAC converts. -/
  conversion : Option Conversion
  thread : DacThd

/-- Why a step is not taken. -/
inductive NoStep
  /-- The thread waits for the semaphore, or has returned. -/
  | blocked
  /-- The DAC converts nothing. -/
  | idle
  /-- A division by zero, for which the language defines no result. -/
  | divisionByZero
  deriving DecidableEq

/-! ## The callbacks -/

/-- `dac_continuous_conversion_cb`. -/
def dacContinuousConversionCb (s : Playback) (prev n : ℕ) : Playback :=
  { s with
    dacWritePos := if prev = s.dacBuffer then s.dacBuffer else s.dacBuffer + n
    dacSignal := true }

/-- `dac_last_conversion_cb`. -/
def dacLastConversionCb (s : Playback) : Playback :=
  { s with
    endCb := some .singleConversion
    conversion := some ⟨s.dacWritePos, s.conversionLen, 0⟩ }

/-- `dac_single_conversion_cb`. -/
def dacSingleConversionCb (s : Playback) : Playback := { s with endCb := some .stop }

/-- `dac_stop_cb`. -/
def dacStopCb (s : Playback) : Playback := { s with conversion := none, dacSignal := true }

/-- The call of the callback of the conversion. -/
def callEndCb (s : Playback) (prev n : ℕ) : Playback :=
  match s.endCb with
  | none => s
  | some .continuousConversion => dacContinuousConversionCb s prev n
  | some .lastConversion => dacLastConversionCb s
  | some .singleConversion => dacSingleConversionCb s
  | some .stop => dacStopCb s

/-! ## The DAC -/

/-- The conversion of a sample, and the call of the callback at the half and at the end. -/
def Playback.convert (s : Playback) : Except NoStep Playback :=
  match s.conversion with
  | none => .error .idle
  | some c =>
    let pos := c.pos + 1
    if pos = c.depth / 2 then
      .ok (callEndCb { s with conversion := some { c with pos := pos } } c.start (c.depth / 2))
    else if pos = c.depth then
      .ok (callEndCb { s with conversion := some { c with pos := 0 } } (c.start + c.depth / 2)
        (c.depth / 2))
    else .ok { s with conversion := some { c with pos := pos } }

/-! ## The thread -/

/-- `dac_start_conversion`. The divider of the timer is computed from the sample rate. -/
def dacStartConversion (s : Playback) (buf len : ℕ) : Except NoStep Playback :=
  if s.wav.sampleRate = 0 then .error .divisionByZero
  else .ok { s with dacSignal := false, conversion := some ⟨buf, len, 0⟩ }

/-- `dac_single_conversion`, up to the wait. -/
def dacSingleConversion (s : Playback) (buf len : ℕ) : Except NoStep Playback :=
  let len := len - len % 2
  if len = 0 then .ok { s with thread := .stop }
  else (dacStartConversion { s with endCb := some .singleConversion } buf len).map
    (fun s => { s with thread := .finalWait })

/-- `dac_continuous_conversion`. -/
def dacContinuousConversion (s : Playback) (buf len : ℕ) : Except NoStep Playback :=
  dacStartConversion { s with dacBuffer := buf, endCb := some .continuousConversion } buf len

/-- `chBSemWait`, and where the thread goes on. -/
def Playback.semWait (s : Playback) (next : DacThd) : Except NoStep Playback :=
  if s.dacSignal then .ok { s with dacSignal := false, thread := next } else .error .blocked

/-- `dac_last_conversion`. The semaphore is taken, or waited for, within the critical
section that exchanges the callback. -/
def dacLastConversion (s : Playback) (buf len : ℕ) : Playback :=
  let len := len - len % 2
  let s := if len > 0 then
      { s with dacWritePos := buf, conversionLen := len, endCb := some .lastConversion }
    else { s with endCb := some .stop }
  if s.dacSignal then { s with dacSignal := false, thread := .stop }
  else { s with thread := .finalWait }

/-- A step of the thread in `audio_dac_convert`, with a buffer of the given length.
`readOk` says whether `f_read` returns `FR_OK`, if the step calls it. -/
def Playback.threadStep (bufferLen : ℕ) (s : Playback) (readOk : Bool) :
    Except NoStep Playback :=
  let len := bufferLen - bufferLen % 2
  match s.thread with
  | .start =>
    if bufferLen < 2 then .ok { s with thread := .returned .err }
    else .ok { s with endCb := none, thread := .fill }
  | .fill =>
    let r := wavReadCb readOk s.wav s.memory 0 len
    .ok { s with wav := r.wav, memory := r.memory, thread := .filled r.last r.samplesWritten }
  | .filled true nbSamples => dacSingleConversion s 0 nbSamples
  | .filled false _ =>
    (dacContinuousConversion s 0 len).map (fun s => { s with thread := .wait })
  | .wait => s.semWait (.read s.dacWritePos)
  | .read buf =>
    let r := wavReadCb readOk s.wav s.memory buf (len / 2)
    .ok { s with
      wav := r.wav
      memory := r.memory
      thread := .readDone buf r.last r.samplesWritten }
  | .readDone buf true nbSamples => .ok (dacLastConversion s buf nbSamples)
  | .readDone _ false _ => .ok { s with thread := .wait }
  | .finalWait => s.semWait .stop
  | .stop => .ok { s with conversion := none, thread := .returned .ok }
  | .returned _ => .error .blocked

/-- A step. -/
inductive PlaybackStep
  | thread (readOk : Bool)
  | convert
  deriving DecidableEq

def Playback.step (bufferLen : ℕ) (s : Playback) : PlaybackStep → Except NoStep Playback
  | .thread readOk => s.threadStep bufferLen readOk
  | .convert => s.convert

/-- The sample that a step converts. -/
def Playback.shows (s : Playback) : PlaybackStep → List UInt16
  | .thread _ => []
  | .convert => (s.conversion.map (fun c => s.memory (c.start + c.pos))).toList

/-- The call of `audio_dac_convert` for a file whose header was read. The buffer and the
variables of the driver are as they were left. -/
def playbackInit (globals : DacGlobals) (memory : SampleMemory) (wav : WavData) : Playback where
  toDacGlobals := globals
  wav := wav
  memory := memory
  conversion := none
  thread := .start

/-! ## What is promised of a run -/

/-- The step completes the half of the buffer that is converted. -/
def Playback.Completes (s : Playback) (i : PlaybackStep) : Prop :=
  i = .convert ∧ ∃ c, s.conversion = some c ∧ (c.pos + 1 = c.depth / 2 ∨ c.pos + 1 = c.depth)

/-- The thread was told to fill a half of the buffer, and the call of `data_cb` for it did
not return yet. -/
def Playback.ReadDue (s : Playback) : Prop :=
  (∃ buf, s.thread = .read buf)
    ∨ s.dacSignal = true ∧ (s.thread = .wait ∨ ∃ buf nb, s.thread = .readDone buf false nb)

/-- **The surroundings keep their promises**: reading has no errors, and is done before the
half that is converted meanwhile is finished. -/
def InTime (s : Playback × List UInt16) (i : PlaybackStep) : Prop :=
  (∀ readOk, i = .thread readOk → readOk = true) ∧ (s.1.Completes i → ¬ s.1.ReadDue)

/-- **The end is handed over in time**: no half is finished between the return of the last
call of `data_cb` and `dac_last_conversion`. -/
def HandsOver (s : Playback × List UInt16) (i : PlaybackStep) : Prop :=
  s.1.Completes i → ∀ buf nb, s.1.thread ≠ .readDone buf true nb

/-- The number of bytes of the final chunk of the data, if the first chunk fills the
buffer and the others half of it. -/
def WavData.finalChunk (w : WavData) (bufferLen : ℕ) : ℕ :=
  let len := bufferLen - bufferLen % 2
  if w.left ≤ len * 2 ∨ w.file.length < len * 2 then min w.left w.file.length
  else if w.left ≤ w.file.length then (w.left - len * 2 - 1) % len + 1
  else (w.file.length - len * 2) % len

/-- **The samples to play**: all that are left, but the last one if the final chunk has an
odd number of samples. -/
def WavData.playable (w : WavData) (bufferLen : ℕ) : List UInt16 :=
  w.samples.take (w.samples.length - w.finalChunk bufferLen / 2 % 2)

end Audio
