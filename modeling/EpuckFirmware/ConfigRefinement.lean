import EpuckFirmware.ConfigSaved
import EpuckFirmware.Crc32

/-!
# The store refines a bounded log

The abstract component is `BoundedLog.push`: a log that keeps as many of the
last entries as its capacity allows and is started afresh when it is full. A
completed save of `config_flash_storage.c` is one `push` on the log the sector
holds (`Holds.step`), so a run of completed saves is a `pushAll`
(`Holds.run`), and loading hands over its last entry.

What the induction carries is `Holds`: the sector represents the log, the log
stays within the length the callers pass, and nothing outside the sector
changed. The last part is what keeps the header that is read past the end of a
full sector invalid.
-/

namespace ConfigStore

open BoundedLog

variable {g : Geometry}

/-! ## Runs of completed saves -/

/-- **A completed save**: it was asked for with a length and a parameter tree,
and this is what it did. -/
def CompletedSave (crc32 : UInt32 → List UInt8 → UInt32) (S : Sector g)
    (r : UInt32 × ParameterNamespace) (s s' : FlashState) (t : List FlashOp) : Prop :=
  ∃ fuel, Program.exec (FlashState.step g) (configSave crc32 r.2 fuel S.base r.1) s
    = ⟨some (), s', t⟩

/-- **A run of completed saves** each of which meets a condition on the state it
starts from and the request, and all that they did. -/
inductive SavesWith (crc32 : UInt32 → List UInt8 → UInt32) (S : Sector g)
    (P : FlashState → UInt32 × ParameterNamespace → Prop) :
    FlashState → List (UInt32 × ParameterNamespace) → FlashState → List FlashOp → Prop
  /-- No save. -/
  | nil {s : FlashState} : SavesWith crc32 S P s [] s []
  /-- A save, and the rest of the run. -/
  | cons {s s' s'' : FlashState} {r : UInt32 × ParameterNamespace}
      {rs : List (UInt32 × ParameterNamespace)} {t u : List FlashOp} :
      P s r → CompletedSave crc32 S r s s' t → SavesWith crc32 S P s' rs s'' u →
        SavesWith crc32 S P s (r :: rs) s'' (t ++ u)

/-- **A run of completed saves**, whatever their states and requests. -/
abbrev Saves (crc32 : UInt32 → List UInt8 → UInt32) (S : Sector g) :
    FlashState → List (UInt32 × ParameterNamespace) → FlashState → List FlashOp → Prop :=
  SavesWith crc32 S (fun _ _ => True)

/-- The requests of one caller: all with the same length. -/
def requests (dstLen : UInt32) (nss : List ParameterNamespace) :
    List (UInt32 × ParameterNamespace) :=
  nss.map (fun ns => (dstLen, ns))

section Invariant

/-! ## The invariant -/

/-- **What holds between saves**: the sector represents the log, which stays
within the length the caller passes, and the memory outside the sector is the
one the run started with. -/
structure Holds (crc32 : UInt32 → List UInt8 → UInt32) (S : Sector g) (cap : ℕ)
    (outside m : Memory) (log : List (List UInt8)) : Prop where
  /-- The sector holds the log. -/
  represents : Represents crc32 S m log
  /-- The log is within the length. -/
  bounded : used blockSize log ≤ cap
  /-- The rest of the memory is untouched. -/
  frame : ∀ x, S.size ≤ (x - S.base).toNat → m x = outside x

variable {S : Sector g} {crc32 : UInt32 → List UInt8 → UInt32}

/-- An erased sector holds the empty log. -/
theorem Holds.of_erased {m : Memory} (cap : ℕ) (h : m.Erased S.base S.size) :
    Holds crc32 S cap m m [] :=
  ⟨Represents.of_erased h, Nat.zero_le _, fun _ _ => rfl⟩

/-- The end of the log is no valid block: its header is erased, or it reaches
into memory that does not read as one. -/
theorem Holds.end_invalid (hcrc : ErasedInvalid crc32) {cap : ℕ} {outside m : Memory}
    {log : List (List UInt8)} (h : Holds crc32 S cap outside m log)
    (hend : used blockSize log + 8 ≤ S.size ∨ NoHeaderPastEnd crc32 S outside) :
    ¬ BlockValid crc32 m (S.base + UInt32.ofNat (used blockSize log)) := by
  refine h.represents.end_invalid hcrc (hend.imp_right (fun hpast => ?_))
  intro m' hm'
  exact hpast m' (fun x hx => (hm' x hx).trans (h.frame x hx))

/-- The walk over the sector passes the blocks of the log. -/
theorem Holds.walk (hcrc : ErasedInvalid crc32) {cap : ℕ} {outside m : Memory}
    {log : List (List UInt8)} (h : Holds crc32 S cap outside m log)
    (hend : used blockSize log + 8 ≤ S.size ∨ NoHeaderPastEnd crc32 S outside) :
    Walk crc32 m S.base (blockAddrs S.base log)
      (S.base + UInt32.ofNat (used blockSize log)) :=
  h.represents.walk (h.end_invalid hcrc hend)

/-- **Storing a block behind the log** adds it to the log. -/
theorem Holds.storeBlock {cap : ℕ} {outside m : Memory} {log : List (List UInt8)}
    (h : Holds crc32 S cap outside m log) (hcap : cap ≤ S.size) {data : List UInt8}
    (hroom : used blockSize log + blockSize data ≤ cap) :
    Holds crc32 S cap outside
      (storeBlock crc32 m (S.base + UInt32.ofNat (used blockSize log)) data) (log ++ [data]) := by
  have hS := S.fits
  refine ⟨h.represents.storeBlock (by omega), ?_, fun x hx => ?_⟩
  · rw [used_append, used_cons, used_nil, Nat.add_zero]
    exact hroom
  · rw [← h.frame x hx, ← Memory.add_ofNat_toNat_sub S.base x]
    exact storeBlock_outside m S.base (by omega) (UInt32.toNat_lt _) (Or.inr (by omega))

/-- Erasing the sector leaves it with the empty log. -/
theorem Holds.wipe {cap : ℕ} {outside m : Memory} {log : List (List UInt8)}
    (h : Holds crc32 S cap outside m log) : Holds crc32 S cap outside (S.wipe m) [] :=
  ⟨Represents.of_erased (S.erased_wipe m), Nat.zero_le _,
    fun x hx => (S.wipe_outside m hx).trans (h.frame x hx)⟩

/-- A completed save went one of the three ways. -/
theorem CompletedSave.saved (hcrc : ErasedInvalid crc32) (h8 : 8 ≤ S.size)
    {r : UInt32 × ParameterNamespace} (h12 : 12 ≤ r.1.toNat) {s s' : FlashState}
    {t : List FlashOp} (h : CompletedSave crc32 S r s s' t) :
    ∃ as e m', Walk crc32 s.mem S.base as e ∧ Saved crc32 S r.2 r.1 s.mem as e m' t
      ∧ s' = ⟨m', true⟩ := by
  obtain ⟨fuel, hex⟩ := h
  have hres : (Program.exec (FlashState.step g) (configSave crc32 r.2 fuel S.base r.1) s).result
      = some () := by
    rw [hex]
  obtain ⟨as, e, m', t', hw, hsaved, hex'⟩ := saved_of_configSave hcrc h8 h12 hres
  rw [hex'] at hex
  obtain rfl : t' = t := congrArg Outcome.trace hex
  exact ⟨as, e, m', hw, hsaved, (congrArg Outcome.state hex).symm⟩

/-- **A completed save is a `push`.** -/
theorem Holds.step (hcrc : ErasedInvalid crc32) {dstLen : UInt32} (h12 : 12 ≤ dstLen.toNat)
    (hdst : dstLen.toNat ≤ S.size) {outside : Memory} {log : List (List UInt8)}
    {ns : ParameterNamespace} {s s' : FlashState} {t : List FlashOp}
    (h : Holds crc32 S dstLen.toNat outside s.mem log)
    (hend : used blockSize log + 8 ≤ S.size ∨ NoHeaderPastEnd crc32 S outside)
    (hs : CompletedSave crc32 S (dstLen, ns) s s' t) :
    Holds crc32 S dstLen.toNat outside s'.mem (push blockSize dstLen.toNat log ns.enc)
      ∧ blockSize ns.enc ≤ dstLen.toNat := by
  have hS := S.fits
  have h8 : 8 ≤ S.size := by omega
  obtain ⟨as, e, m', hw, hsaved, rfl⟩ :
      ∃ as e m', Walk crc32 s.mem S.base as e ∧ Saved crc32 S ns dstLen s.mem as e m' t
        ∧ s' = ⟨m', true⟩ := hs.saved hcrc h8 h12
  -- the walk is the one over the log
  obtain ⟨rfl, rfl⟩ := hw.unique (h.walk hcrc hend)
  have hoff : (S.base + UInt32.ofNat (used blockSize log) - S.base).toNat = used blockSize log :=
    Memory.toNat_sub_base S.base (by have := h.bounded; have := dstLen.toNat_lt; omega)
  have hle : (S.base + UInt32.ofNat (used blockSize log) - S.base).toNat ≤ dstLen.toNat := by
    rw [hoff]
    exact h.bounded
  have hnonempty : 0 < ns.enc.length := List.length_pos_iff.mpr ns.nonempty
  have hsize : blockSize ns.enc = 12 + ns.enc.length := rfl
  rcases hsaved.mem_eq hdst hle with ⟨ha, hfits, rfl⟩ | ⟨hno, hfits, rfl⟩
  · -- the block was appended, so it fitted behind the log
    have hroom := ((fits_iff (Nat.le_of_lt ha.lt_room)).mp hfits).2
    rw [toNat_room hle, hoff] at hroom
    have hlt := ((appends_iff hle).mp ha).2
    rw [hoff] at hlt
    refine ⟨?_, by omega⟩
    rw [push, if_pos (by omega)]
    exact h.storeBlock hdst (by omega)
  · -- it was stored in the erased sector, so it did not fit or there was no log
    obtain ⟨hne, hroom⟩ := (fits_iff h12).mp hfits
    refine ⟨?_, hroom⟩
    have hfirst : used blockSize [] + blockSize ns.enc ≤ dstLen.toNat := by
      rw [used_nil, Nat.zero_add]
      exact hroom
    have hstored := h.wipe.storeBlock hdst hfirst
    rw [used_nil, show S.base + UInt32.ofNat 0 = S.base from UInt32.add_zero _,
      List.nil_append] at hstored
    suffices hpush : push blockSize dstLen.toNat log ns.enc = [ns.enc] by
      rw [hpush]
      exact hstored
    by_cases hlog : log = []
    · subst hlog
      rw [push, if_pos (by rw [used_nil]; omega), List.nil_append]
    · refine if_neg (fun hfull => hno ?_)
      exact ⟨appends_of_room hlog hfull, fits_of_room hne hfull⟩

/-- **A run of completed saves is a `pushAll`.** -/
theorem Holds.run (hcrc : ErasedInvalid crc32) {dstLen : UInt32} (h12 : 12 ≤ dstLen.toNat)
    (hdst : dstLen.toNat ≤ S.size) {outside : Memory} (hpast : NoHeaderPastEnd crc32 S outside)
    {log : List (List UInt8)} {nss : List ParameterNamespace} {s s' : FlashState}
    {t : List FlashOp} (h : Holds crc32 S dstLen.toNat outside s.mem log)
    (hs : Saves crc32 S s (requests dstLen nss) s' t) :
    Holds crc32 S dstLen.toNat outside s'.mem
      (pushAll blockSize dstLen.toNat log (nss.map ParameterNamespace.enc)) := by
  induction nss generalizing s log t with
  | nil =>
    cases hs
    exact h
  | cons ns nss ih =>
    cases hs with
    | cons _ hsave hrest => exact ih (h.step hcrc h12 hdst (Or.inr hpast) hsave).1 hrest

/-- **The next save completes** when its block fits in the erased sector. -/
theorem Holds.completes (hcrc : ErasedInvalid crc32) {dstLen : UInt32} (h12 : 12 ≤ dstLen.toNat)
    (hdst : dstLen.toNat ≤ S.size) {outside : Memory} {log : List (List UInt8)} {s : FlashState}
    (h : Holds crc32 S dstLen.toNat outside s.mem log)
    (hend : used blockSize log + 8 ≤ S.size ∨ NoHeaderPastEnd crc32 S outside)
    {ns : ParameterNamespace} (hne : ns.writer.NoEmptyWrite)
    (hfits : blockSize ns.enc ≤ dstLen.toNat) :
    ∃ s' t, CompletedSave crc32 S (dstLen, ns) s s' t := by
  have hc : Completes S ns dstLen (blockAddrs S.base log)
      (S.base + UInt32.ofNat (used blockSize log)) :=
    Or.inr ((fits_iff h12).mpr ⟨hne, hfits⟩)
  have h8 : 8 ≤ S.size := by omega
  obtain ⟨m', t, -, hex⟩ := exec_configSave_saved hcrc h8 (hc.blockSize_le h12)
    (h.walk hcrc hend) hc (Nat.lt_succ_self _)
  exact ⟨_, _, _, hex⟩

end Invariant

/-! ## The refinement -/

/-- **Saving and loading refine a bounded log**: after any run of completed
saves to an erased sector, the sector holds the blocks of the log of the
encodings and erased bytes behind them, and loading hands over the encoding saved
last. Every further tree whose block fits in the erased sector can be saved. -/
theorem configSave_refines_boundedLog (crc32 : UInt32 → List UInt8 → UInt32)
    (hcrc : ErasedInvalid crc32) (S : Sector g) (dstLen : UInt32) (h12 : 12 < dstLen.toNat)
    (hdst : dstLen.toNat ≤ S.size) (s₀ : FlashState) (herased : s₀.mem.Erased S.base S.size)
    (hpast : NoHeaderPastEnd crc32 S s₀.mem) (nss : List ParameterNamespace) (s : FlashState)
    (t : List FlashOp) (hrun : Saves crc32 S s₀ (requests dstLen nss) s t) :
    Represents crc32 S s.mem
        (pushAll blockSize dstLen.toNat [] (nss.map ParameterNamespace.enc))
      ∧ LoadHands crc32 g s S.base (nss.getLast?.map ParameterNamespace.enc)
      ∧ ∀ ns : ParameterNamespace, ns.writer.NoEmptyWrite → 12 + ns.enc.length ≤ dstLen.toNat →
        ∃ s' t', CompletedSave crc32 S (dstLen, ns) s s' t' := by
  have hholds := (Holds.of_erased dstLen.toNat herased).run hcrc (Nat.le_of_lt h12) hdst hpast hrun
  refine ⟨hholds.represents, ?_, fun ns hne hfits => ?_⟩
  · have hlast := hholds.represents.loadHands (s := s) (hholds.end_invalid hcrc (Or.inr hpast))
    rwa [getLast?_pushAll, List.getLast?_map] at hlast
  · exact hholds.completes hcrc (Nat.le_of_lt h12) hdst (Or.inr hpast) hne hfits

/-! ## An erased device -/

/-- The device as it leaves the factory. -/
def erasedFlash : FlashState := ⟨fun _ => 0xff, true⟩

/-- A tree without parameters, whose encoding is an empty map. -/
def emptyTree : ParameterNamespace where
  writer := .write [0x80] (fun _ => .done)
  nonempty := by decide
  bounded := by decide

/-- A tree whose encoding is one chunk of `n + 1` zeros. -/
def zeroTree (n : ℕ) (h : n + 1 < 2 ^ 32) : ParameterNamespace where
  writer := .write (List.replicate (n + 1) 0) (fun _ => .done)
  nonempty := by
    rw [MsgpackWriter.encode, MsgpackWriter.encode, List.append_nil]
    exact List.cons_ne_nil _ _
  bounded := by
    show (List.replicate (n + 1) (0 : UInt8)).length + max 0 0 < 2 ^ 32
    rw [List.length_replicate]
    exact h

theorem length_enc_zeroTree {n : ℕ} (h : n + 1 < 2 ^ 32) :
    (zeroTree n h).enc.length = n + 1 := by
  rw [ParameterNamespace.enc, zeroTree, MsgpackWriter.encode, MsgpackWriter.encode,
    List.append_nil, List.length_replicate]

theorem noEmptyWrite_zeroTree {n : ℕ} (h : n + 1 < 2 ^ 32) :
    (zeroTree n h).writer.NoEmptyWrite :=
  ⟨List.cons_ne_nil _ _, trivial⟩

theorem erasedInvalid_crc32 : ErasedInvalid crc32 := by
  unfold ErasedInvalid
  decide

/-- Around an erased device nothing reads as a header. -/
theorem noHeaderPastEnd_erasedFlash : NoHeaderPastEnd crc32 configSector erasedFlash.mem :=
  noHeaderPastEnd_of_erased erasedInvalid_crc32 (fun _ _ => rfl) (by decide)

/-- The walk over an erased device stops at once. -/
theorem walk_erasedFlash :
    Walk crc32 erasedFlash.mem configSector.base [] configSector.base :=
  Walk.stop (not_blockValid_of_erased erasedInvalid_crc32 (fun _ _ => rfl))

/-- A tree whose block fits in the sector can be saved to the erased device. -/
theorem save_erasedFlash (ns : ParameterNamespace) (hne : ns.writer.NoEmptyWrite)
    (hfits : 12 + ns.enc.length ≤ 128 * 1024) :
    ∃ s t, CompletedSave crc32 configSector (0x20000, ns) erasedFlash s t
      ∧ Holds crc32 configSector (UInt32.toNat 0x20000) erasedFlash.mem s.mem [ns.enc] := by
  have h12 : 12 ≤ UInt32.toNat 0x20000 := by decide
  have hdst : UInt32.toNat 0x20000 ≤ configSector.size := Nat.le_refl _
  have hstart :
      Holds crc32 configSector (UInt32.toNat 0x20000) erasedFlash.mem erasedFlash.mem [] :=
    Holds.of_erased _ (fun _ _ => rfl)
  have hend : used blockSize [] + 8 ≤ configSector.size := by decide
  obtain ⟨s, t, hsave⟩ := hstart.completes (s := erasedFlash) erasedInvalid_crc32 h12 hdst
    (Or.inl hend) hne hfits
  refine ⟨s, t, hsave, ?_⟩
  have hstep := (hstart.step erasedInvalid_crc32 h12 hdst (Or.inl hend) hsave).1
  rwa [push, if_pos (by rw [used_nil, Nat.zero_add]; exact hfits), List.nil_append] at hstep

theorem configSave_refines_boundedLog_emptyTree :
    ∃ s t, Saves crc32 configSector erasedFlash (requests 0x20000 [emptyTree]) s t
      ∧ Represents crc32 configSector s.mem [[0x80]]
      ∧ LoadHands crc32 flashGeometry s configSector.base (some [0x80]) := by
  have herased : erasedFlash.mem.Erased configSector.base configSector.size := fun _ _ => rfl
  obtain ⟨s, t, hsave, -⟩ := save_erasedFlash emptyTree ⟨by decide, trivial⟩ (by decide)
  have hrun : Saves crc32 configSector erasedFlash (requests 0x20000 [emptyTree]) s (t ++ []) :=
    SavesWith.cons trivial hsave SavesWith.nil
  obtain ⟨hlog, hload, -⟩ := configSave_refines_boundedLog crc32 erasedInvalid_crc32 configSector
    0x20000 (by decide) (Nat.le_refl _) erasedFlash herased noHeaderPastEnd_erasedFlash _ s _ hrun
  exact ⟨s, t ++ [], hrun, hlog, hload⟩

end ConfigStore
