import EpuckFirmware.AudioRequests
import EpuckFirmware.AudioWav
import EpuckFirmware.FatOpen

/-!
# WAV files on the memory card

`wav_read_header` and `wav_read_cb` read the file through `f_read`. `AudioWav` models them
over the list of the bytes that were not read yet; here they run on the card. On a card
without failures both give the same results, call after call (`ends_playFrom`), so what is
known of the playback of a list of bytes holds of the playback of a file.

The audio thread opens, plays and closes a file for each request. `playFiles_serve_requests` says
what a run of requests plays on a card that works: each one the file that its path leads to,
whatever was requested before it.
-/

namespace Fat

open Audio BlockDevice MemorySegment

/-- `wav_read_header`, of a file on the card. The bytes that it keeps for later are none. -/
def wavReadHeaderFrom (fs : Fatfs) (fp : Fil) : Card (Option WavData × Fatfs × Fil) := do
  let r ← fRead fs fp (UInt32.ofNat wavHeaderLen)
  pure (wavReadHeader (r.res = .ok) r.bytes, r.fs, r.fp)

/-- The length that `wav_read_cb` asks `f_read` for. -/
def readLength (wav : WavData) (bufLen : ℕ) : ℕ :=
  let len := bufLen * 2
  if len > (wav.dataLen - wav.dataPos).toNat then (wav.dataLen - wav.dataPos).toNat else len

/-- `wav_read_cb`, of a file on the card. -/
def wavReadCbFrom (fs : Fatfs) (fp : Fil) (wav : WavData) (memory : SampleMemory)
    (buffer bufLen : ℕ) : Card (ReadResult × Fatfs × Fil) := do
  let r ← fRead fs fp (UInt32.ofNat (readLength wav bufLen))
  pure (wavReadCb (r.res = .ok) { wav with file := r.bytes } memory buffer bufLen, r.fs, r.fp)

/-- Without the bytes that were not read yet. -/
def withoutFile (wav : WavData) : WavData := { wav with file := [] }

/-- What the caller of `wav_read_cb` sees of a result. -/
def seen (r : ReadResult) : ReadResult := { r with wav := withoutFile r.wav }

/-- Calls of `wav_read_cb`, one after the other, with the index and the length of the
buffer of each. -/
def chunksFrom : Fatfs → Fil → WavData → SampleMemory → List (ℕ × ℕ) →
    Card (List ReadResult × Fatfs × Fil)
  | fs, fp, _, _, [] => pure ([], fs, fp)
  | fs, fp, wav, memory, (buffer, bufLen) :: calls => do
    let (r, fs, fp) ← wavReadCbFrom fs fp wav memory buffer bufLen
    let (rs, fs, fp) ← chunksFrom fs fp r.wav r.memory calls
    pure (seen r :: rs, fs, fp)

/-- The same calls for a file that is a list of bytes. -/
def chunks : WavData → SampleMemory → List (ℕ × ℕ) → List ReadResult
  | _, _, [] => []
  | wav, memory, (buffer, bufLen) :: calls =>
    let r := wavReadCb true wav memory buffer bufLen
    seen r :: chunks r.wav r.memory calls

/-- Reading the header of a file on the card, and then its samples. -/
def playFrom (fs : Fatfs) (fp : Fil) (memory : SampleMemory) (calls : List (ℕ × ℕ)) :
    Card (Option (WavData × List ReadResult) × Fatfs × Fil) := do
  let (wav, fs, fp) ← wavReadHeaderFrom fs fp
  match wav with
  | none => pure (none, fs, fp)
  | some wav => do
    let (rs, fs, fp) ← chunksFrom fs fp wav memory calls
    pure (some (withoutFile wav, rs), fs, fp)

/-- The same for a file that is a list of bytes. -/
def play (file : List UInt8) (memory : SampleMemory) (calls : List (ℕ × ℕ)) :
    Option (WavData × List ReadResult) :=
  (wavReadHeader true file).map (fun wav => (withoutFile wav, chunks wav memory calls))

/-- `f_close`, of a file that was not written: `f_sync` leaves it as it is. -/
def fClose (fs : Fatfs) (fp : Fil) : Card Fil := do
  let res ← validate fs fp
  if res ≠ .ok then pure fp
  else do
    let res ← validate fs fp
    if res ≠ .ok then pure fp else pure { fp with opened := false }

/-- A request of the audio thread: the names of the path, and what the converter asks the
reader for while it plays the file. -/
structure PlayRequest where
  fn : List UInt8
  names : List (List UInt8)
  memory : SampleMemory
  calls : List (ℕ × ℕ)

/-- What a request ends with: the status that is published, and what was read. -/
structure Served where
  status : AudioPlayStatus
  played : Option (WavData × List ReadResult)

/-- A turn of `audio_thd_main`. -/
def playFile (fs : Fatfs) (fsid : UInt16) (fp : Fil) (request : PlayRequest) :
    Card (Served × Fatfs × UInt16 × Fil) := do
  let r ← fOpen fs fsid fp request.fn request.names
  if r.res ≠ .ok then pure (⟨playStatus false false, none⟩, r.fs, r.fsid, r.fp)
  else do
    let (played, fs, fp) ← playFrom r.fs r.fp request.memory request.calls
    let fp ← fClose fs fp
    pure (⟨playStatus true played.isSome, played⟩, fs, r.fsid, fp)

/-- Turns of `audio_thd_main`, one after the other. -/
def playFiles : Fatfs → UInt16 → Fil → List PlayRequest → Card (List Served)
  | _, _, _, [] => pure []
  | fs, fsid, fp, request :: requests => do
    let (served, fs, fsid, fp) ← playFile fs fsid fp request
    let rest ← playFiles fs fsid fp requests
    pure (served :: rest)

/-! ## Reading as from a list -/

theorem readLength_lt (wav : WavData) (bufLen : ℕ) : readLength wav bufLen < 2 ^ 32 := by
  have hlt := (wav.dataLen - wav.dataPos).toNat_lt
  show (if bufLen * 2 > (wav.dataLen - wav.dataPos).toNat then _ else bufLen * 2) < 2 ^ 32
  split <;> omega

/-- `wav_read_cb` sees no more of the file than it asks for. -/
theorem wavReadCb_take (wav : WavData) (file : List UInt8) (memory : SampleMemory)
    (buffer bufLen : ℕ) :
    seen (wavReadCb true { wav with file := file.take (readLength wav bufLen) } memory buffer bufLen)
      = seen (wavReadCb true { wav with file := file } memory buffer bufLen) := by
  unfold wavReadCb
  simp only [seen, withoutFile, readLength, List.take_take, min_self]
  rfl

/-- What is left of the file behind a call. -/
theorem file_wavReadCb (wav : WavData) (memory : SampleMemory) (buffer bufLen : ℕ) :
    (wavReadCb true wav memory buffer bufLen).wav.file = wav.file.drop (readLength wav bufLen) := by
  rw [wavReadCb, if_neg (by simp)]
  rfl

theorem eq_of_withoutFile {wav wav' : WavData} (h : withoutFile wav = withoutFile wav') :
    { wav with file := wav'.file } = wav' := by
  cases wav
  cases wav'
  simp only [withoutFile, WavData.mk.injEq] at h ⊢
  exact ⟨trivial, h.2⟩

/-- `wav_read_header` sees no more of the file than the header. -/
theorem wavReadHeader_take (file : List UInt8) :
    wavReadHeader true (file.take wavHeaderLen) = (wavReadHeader true file).map withoutFile := by
  unfold wavReadHeader
  simp only [List.take_take, min_self, apply_ite (Option.map withoutFile), Option.map_none,
    Option.map_some, withoutFile, List.drop_take, Nat.sub_self, List.take_zero]

/-- What is left of an accepted file. -/
theorem file_wavReadHeader {file : List UInt8} {wav : WavData}
    (h : wavReadHeader true file = some wav) : wav.file = file.drop wavHeaderLen := by
  unfold wavReadHeader at h
  simp only [Option.ite_none_left_eq_some] at h
  obtain ⟨-, -, -, -, -, -, -, -, h⟩ := h
  cases h
  rfl

section Playing

variable {v : Volume} {blocks : ℕ → Sector} {good : Prop} {first size : ℕ}

/-- A call of `f_read` on a file without faults. -/
theorem ends_fRead_linked (hv : v.WellFormed) (hlinked : Linked v blocks first size) (hgood : good)
    {d : Device ss} {fs : Fatfs} {fp : Fil} {p : ℕ} (hfs : fs.toVolume = v)
    (hclean : fs.Clean blocks) (h : d.Holds blocks good) (hfp : fp.At v blocks first size p)
    {n : ℕ} (hn : n < 2 ^ 32) :
    Program.Ends Device.step Op.ReadsOnly (fRead fs fp (UInt32.ofNat n)) d (fun r d' =>
      d'.Holds blocks good ∧ r.fs.toVolume = v ∧ r.fs.Clean blocks ∧ r.res = .ok
        ∧ r.bytes = (segment (fileByte v blocks first) p size).take n
        ∧ r.fp.At v blocks first size (p + min n (size - p))) := by
  have hle := hfp.le
  refine (ends_fRead hfs hv hclean h hfp (UInt32.ofNat n)).mono (fun r d' hr => ?_)
  rw [UInt32.toNat_ofNat_of_lt' hn] at hr
  obtain ⟨h', ⟨-, hbad⟩ | ⟨m, hr⟩⟩ := hr
  · exact absurd hgood hbad
  obtain ⟨hok, rfl, hclean', hat⟩ | ⟨-, -, hfew, hwhy⟩ := hr.ends
  · refine ⟨h', hr.volume, hclean', hok, ?_, hat⟩
    rw [hr.bytes, (take_drop_segment _ hle n).1]
  · exact absurd (hlinked (p + m) (by omega)) (hwhy.resolve_left (not_not_intro hgood))

/-- **Reading samples from the card** gives what reading them from the list gives. -/
theorem ends_chunksFrom (hv : v.WellFormed) (hlinked : Linked v blocks first size) (hgood : good)
    (calls : List (ℕ × ℕ)) :
    ∀ {d : Device ss} {fs : Fatfs} {fp : Fil} {wav wav' : WavData} {memory : SampleMemory} {p : ℕ},
      fs.toVolume = v → fs.Clean blocks → d.Holds blocks good → fp.At v blocks first size p →
      withoutFile wav = withoutFile wav' →
      wav'.file = segment (fileByte v blocks first) p size →
      Program.Ends Device.step Op.ReadsOnly (chunksFrom fs fp wav memory calls) d (fun r d' =>
        d'.Holds blocks good ∧ r.2.1.toVolume = v ∧ r.2.1.Clean blocks
          ∧ r.1 = chunks wav' memory calls) := by
  induction calls with
  | nil => exact fun hfs hclean h _ _ _ => .pure ⟨h, hfs, hclean, rfl⟩
  | cons call calls ih =>
    intro d fs fp wav wav' memory p hfs hclean h hfp hwav hfile
    obtain ⟨buffer, bufLen⟩ := call
    have hlength : readLength wav bufLen = readLength wav' bufLen := by
      rw [← eq_of_withoutFile hwav]
      rfl
    rw [chunksFrom, wavReadCbFrom]
    refine ((ends_fRead_linked hv hlinked hgood hfs hclean h hfp
      (readLength_lt wav bufLen)).bind (fun r d' hr => ?_)).bind
      (Q := fun r d' => d'.Holds blocks good ∧ r.2.1.toVolume = v ∧ r.2.1.Clean blocks
        ∧ seen r.1 = seen (wavReadCb true wav' memory buffer bufLen)
        ∧ r.2.2.At v blocks first size (p + min (readLength wav' bufLen) (size - p)))
      (fun r d' hr => ?_)
    · obtain ⟨h', hvolume, hclean', hok, hbytes, hat⟩ := hr
      refine .pure ⟨h', hvolume, hclean', ?_, hlength ▸ hat⟩
      rw [hok, hbytes, ← hfile]
      show seen (wavReadCb true _ memory buffer bufLen) = _
      rw [wavReadCb_take, eq_of_withoutFile hwav]
    · obtain ⟨r, fs', fp'⟩ := r
      obtain ⟨h', hvolume, hclean', hseen, hat⟩ := hr
      dsimp only at hvolume hclean' hseen hat
      have hmemory : r.memory = (wavReadCb true wav' memory buffer bufLen).memory :=
        (congrArg ReadResult.memory hseen : (seen r).memory = _)
      refine (ih hvolume hclean' h' hat (congrArg ReadResult.wav hseen) ?_).bind
        (fun rs d'' hrs => .pure ⟨hrs.1, hrs.2.1, hrs.2.2.1, ?_⟩)
      · rw [file_wavReadCb, hfile, (take_drop_segment _ hfp.le _).2]
      · rw [hrs.2.2.2, hseen, chunks, hmemory]

/-- **Playing a file of the card is playing the list of its bytes**: on a card that does not
fail, `wav_read_header` and any calls of `wav_read_cb` give the results that they give for
the bytes that the chain of the file leads to. -/
theorem ends_playFrom (hv : v.WellFormed) (hlinked : Linked v blocks first size) (hgood : good)
    {d : Device ss} {fs : Fatfs} {fp : Fil} (hfs : fs.toVolume = v) (hclean : fs.Clean blocks)
    (h : d.Holds blocks good) (hfp : fp.At v blocks first size 0) (memory : SampleMemory)
    (calls : List (ℕ × ℕ)) :
    Program.Ends Device.step Op.ReadsOnly (playFrom fs fp memory calls) d (fun r d' =>
      d'.Holds blocks good ∧ r.2.1.toVolume = v ∧ r.2.1.Clean blocks
        ∧ r.1 = play (segment (fileByte v blocks first) 0 size) memory calls) := by
  unfold playFrom wavReadHeaderFrom
  refine ((ends_fRead_linked hv hlinked hgood hfs hclean h hfp
    (by decide : wavHeaderLen < 2 ^ 32)).bind (fun r d' hr => ?_)).bind
    (Q := fun r d' => d'.Holds blocks good ∧ r.2.1.toVolume = v ∧ r.2.1.Clean blocks
      ∧ r.1 = (wavReadHeader true (segment (fileByte v blocks first) 0 size)).map withoutFile
      ∧ r.2.2.At v blocks first size (0 + min wavHeaderLen (size - 0)))
    (fun r d' hr => ?_)
  · obtain ⟨h', hvolume, hclean', hok, hbytes, hat⟩ := hr
    refine .pure ⟨h', hvolume, hclean', ?_, hat⟩
    rw [hok, hbytes, ← wavReadHeader_take]
    rfl
  · obtain ⟨wav, fs', fp'⟩ := r
    obtain ⟨h', hvolume, hclean', hwav, hat⟩ := hr
    dsimp only at hvolume hclean' hwav hat
    unfold play
    cases hheader : wavReadHeader true (segment (fileByte v blocks first) 0 size) with
    | none =>
      rw [hwav, hheader]
      exact .pure ⟨h', hvolume, hclean', rfl⟩
    | some wav' =>
      rw [hheader] at hwav
      subst hwav
      have hfile := file_wavReadHeader hheader
      rw [(take_drop_segment _ (Nat.zero_le size) _).2] at hfile
      show Program.Ends _ _ (chunksFrom fs' fp' (withoutFile wav') memory calls >>= _) d' _
      refine (ends_chunksFrom hv hlinked hgood calls hvolume hclean' h' hat
        (show withoutFile (withoutFile wav') = withoutFile wav' from rfl) hfile).bind
        (fun rs d'' hrs => .pure ⟨hrs.1, hrs.2.1, hrs.2.2.1, ?_⟩)
      rw [hrs.2.2.2]
      rfl

end Playing

/-! ## A run of requests -/

section Requests

variable {blocks : ℕ → Sector} {good : Prop} {d : Device ss} {fs : Fatfs}

/-- The bytes of a file, by its entry. -/
def fileBytes (v : Volume) (blocks : ℕ → Sector) (entry : List UInt8) : List UInt8 :=
  segment (fileByte v blocks (ldClust v entry).toNat) 0 (ldFileSize entry).toNat

/-- The chains of the files are as long as the files. -/
def Intact (blocks : ℕ → Sector) : Prop :=
  ∀ v fn names entry, IsVolumeOf blocks v → FileAt v blocks fn names entry →
    Linked v blocks (ldClust v entry).toNat (ldFileSize entry).toNat

/-- What serving a file with some bytes gives. -/
def serve (file : List UInt8) (request : PlayRequest) : Served :=
  let played := play file request.memory request.calls
  ⟨playStatus true played.isSome, played⟩

/-- **A request is served as the card says**: with the file at its path, if there is one. -/
def ServedFrom (blocks : ℕ → Sector) (request : PlayRequest) (served : Served) : Prop :=
  (∃ v entry, IsVolumeOf blocks v ∧ FileAt v blocks request.fn request.names entry
      ∧ served = serve (fileBytes v blocks entry) request)
    ∨ (∀ v entry, IsVolumeOf blocks v → ¬ FileAt v blocks request.fn request.names entry)
      ∧ served = ⟨.fileNotFound, none⟩

theorem ends_fClose (h : d.Holds blocks good) (fs : Fatfs) (fp : Fil) :
    Program.Ends Device.step Op.ReadsOnly (fClose fs fp) d (fun _ d' => d'.Holds blocks good) := by
  unfold fClose
  refine (ends_validate h fs fp).bind (fun res d₁ h₁ => ?_)
  split_ifs
  · exact .pure h₁
  refine (ends_validate h₁ fs fp).bind (fun res d₂ h₂ => ?_)
  split_ifs
  · exact .pure h₂
  · exact .pure h₂

/-- **A turn of the audio thread** serves its request, and leaves the volume mounted. -/
theorem ends_playFile (hgood : good) (hrange : BootWithinRange blocks) (hintact : Intact blocks)
    (h : d.Holds blocks good) (hsound : Sound blocks fs) (fsid : UInt16) (fp : Fil)
    (request : PlayRequest) :
    Program.Ends Device.step Op.ReadsOnly (playFile fs fsid fp request) d (fun r d' =>
      d'.Holds blocks good ∧ Sound blocks r.2.1 ∧ ServedFrom blocks request r.1) := by
  unfold playFile
  refine (ends_fOpen hgood h hrange hsound fsid fp request.fn request.names).bind
    (fun r d₁ hr => ?_)
  obtain ⟨h₁, hopen⟩ := hr
  obtain ⟨hok, hmounted, entry, hfile, hat⟩ | ⟨hres, -, hwhy⟩ := hopen.ends
  · rw [if_neg (not_not_intro hok)]
    refine (ends_playFrom (hmounted.volume.wellFormed hrange)
      (hintact _ _ _ _ hmounted.volume hfile) hgood rfl hmounted.clean h₁ hat request.memory
      request.calls).bind (fun r' d₂ hr => ?_)
    obtain ⟨played, fs₂, fp₂⟩ := r'
    obtain ⟨h₂, hvolume, hclean, hplayed⟩ := hr
    refine (ends_fClose h₂ fs₂ fp₂).bind (fun fp₃ d₃ h₃ => .pure ⟨h₃, fun _ => ?_, Or.inl ?_⟩)
    · exact hmounted.of_toVolume hclean hvolume
    · exact ⟨_, entry, hmounted.volume, hfile, by rw [show played = _ from hplayed]; rfl⟩
  · rw [if_pos hres]
    refine .pure ⟨h₁, hopen.sound, Or.inr ⟨fun v entry hv hfile => ?_, rfl⟩⟩
    obtain hnone | ⟨hmounted, hnot⟩ := hwhy
    · exact hnone v hv
    · exact hnot entry (fileAt_of_isVolumeOf hv hmounted.volume hfile)

/-- Every request of a run is served, whatever was requested before it. -/
theorem ends_playFiles (hgood : good) (hrange : BootWithinRange blocks)
    (hintact : Intact blocks) (requests : List PlayRequest) :
    ∀ {d : Device ss} {fs : Fatfs} (fsid : UInt16) (fp : Fil), d.Holds blocks good →
      Sound blocks fs →
      Program.Ends Device.step Op.ReadsOnly (playFiles fs fsid fp requests) d (fun rs d' =>
        d'.Holds blocks good ∧ List.Forall₂ (ServedFrom blocks) requests rs) := by
  induction requests with
  | nil => exact fun _ _ h _ => .pure ⟨h, .nil⟩
  | cons request requests ih =>
    intro d fs fsid fp h hsound
    rw [playFiles]
    refine (ends_playFile hgood hrange hintact h hsound fsid fp request).bind (fun r d₁ hr => ?_)
    obtain ⟨served, fs₁, fsid₁, fp₁⟩ := r
    obtain ⟨h₁, hsound₁, hserved⟩ := hr
    refine (ih fsid₁ fp₁ h₁ hsound₁).bind (fun rest d₂ hrest => ?_)
    exact .pure ⟨hrest.1, .cons hserved hrest.2⟩

end Requests

/-- **A run of requests on a card that works** plays for each request the file that its path
leads to, or says that there is none, whatever was requested before it. The card is left
as it was. -/
theorem playFiles_serve_requests {d : Device ss} {fs : Fatfs} (hworks : d.faults = [])
    (hrange : BootWithinRange d.blocks) (hintact : Intact d.blocks) (hsound : Sound d.blocks fs)
    (fsid : UInt16) (fp : Fil) (requests : List PlayRequest) :
    Program.Ends Device.step Op.ReadsOnly (playFiles fs fsid fp requests) d (fun rs d' =>
      d'.blocks = d.blocks ∧ List.Forall₂ (ServedFrom d.blocks) requests rs) :=
  (ends_playFiles hworks hrange hintact requests fsid fp ⟨rfl, id⟩ hsound).mono
    (fun _ _ hr => ⟨hr.1.blocks, hr.2⟩)

/-- The chain of the file of the small card has its two clusters. -/
theorem linked_smallCard : Linked smallVolume smallCard 2 600 := fun p hp => by
  have hnext : smallVolume.fatEntry smallCard 2 = 3 := by decide +kernel
  have hindex : p / ss / smallVolume.csize.toNat = p / ss := Nat.div_one _
  rw [clusterAt, hindex]
  obtain hsector | hsector : p / ss = 0 ∨ p / ss = 1 := by
    rw [ss]
    omega
  · rw [hsector]
    exact ⟨by decide, by decide⟩
  · rw [hsector, show chain smallVolume smallCard 2 1 = 3 from hnext]
    exact ⟨by decide, by decide⟩

theorem intact_smallCard : Intact smallCard := fun v fn names entry hv hfile => by
  have hclust : ldClust smallVolume (entryAt smallVolume smallCard 0 0) = 2 := by decide +kernel
  have hsize : ldFileSize (entryAt smallVolume smallCard 0 0) = 600 := by decide +kernel
  have hentry := fileAt_smallCard (fileAt_of_isVolumeOf hv isVolumeOf_smallVolume hfile)
  obtain ⟨bsect, w, hboot, hw, hvolume⟩ := hv
  obtain rfl := Option.some.inj (bootSectorOf_smallCard.symm.trans hboot)
  obtain rfl := Option.some.inj (analyzeBpb_smallCard.symm.trans hw)
  rw [hentry, hsize, hvolume]
  show Linked _ _ (ldClust smallVolume (entryAt smallVolume smallCard 0 0)).toNat 600
  rw [hclust]
  exact linked_smallCard

/-- A request for the file of the small card, and one for a file that it does not have. -/
def smallRequests : List PlayRequest :=
  [⟨smallName, [], fun _ => 0, [(0, 100), (100, 100)]⟩, ⟨smallName, [smallName], fun _ => 0, []⟩]

theorem playFiles_serve_requests_smallCard :
    Program.Ends Device.step Op.ReadsOnly (playFiles unmountedFatfs 0 smallFil smallRequests)
      ⟨smallCard, []⟩ (fun rs d' => d'.blocks = smallCard
        ∧ List.Forall₂ (ServedFrom smallCard) smallRequests rs) :=
  playFiles_serve_requests (d := ⟨smallCard, []⟩) rfl bootWithinRange_smallCard intact_smallCard
    (sound_unmountedFatfs smallCard) 0 smallFil smallRequests

end Fat
