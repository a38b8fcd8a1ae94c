import EpuckFirmware.ConfigSave

/-!
# What a completed save leaves behind

The inversion lemma of `config_save`: a save that completes has gone one of
three ways (`Saved`), and it completes exactly when one of the three is open
(`exec_configSave_saved`, `configSave_diverges`). It appended a block, or it
started with an erased sector, or it tried to append, failed, erased the sector
and started again.

A block that was stored reads back as written when the flash could take it
(`peek_storeBlock`), and storing one behind the log of a represented sector
represents the longer log (`Represents.storeBlock`).
-/

namespace ConfigStore

open BoundedLog

variable {g : Geometry} {S : Sector g} {crc32 : UInt32 → List UInt8 → UInt32}

/-- **The ways a save completes**: the memory it leaves and what it did, given
the walk over the memory it found. -/
inductive Saved (crc32 : UInt32 → List UInt8 → UInt32) (S : Sector g) (ns : ParameterNamespace)
    (dstLen : UInt32) (m : Memory) (as : List UInt32) (e : UInt32) :
    Memory → List FlashOp → Prop
  /-- The block was written behind the last one. -/
  | append : Appends S dstLen as e → Fits ns (dstLen - (e - S.base)) →
      Saved crc32 S ns dstLen m as e (storeBlock crc32 m e ns.enc)
        (placeOps crc32 S dstLen m as as e e ++ storeOps crc32 m e ns.enc)
  /-- The sector was erased before anything was written. -/
  | fresh : ¬ Appends S dstLen as e → Fits ns dstLen →
      Saved crc32 S ns dstLen m as e (storeBlock crc32 (S.wipe m) S.base ns.enc)
        (placeOps crc32 S dstLen m as as e e ++ storeOps crc32 (S.wipe m) S.base ns.enc)
  /-- The block did not fit behind the last one, and the sector was erased. -/
  | retry {m' : Memory} {t : List FlashOp} : Appends S dstLen as e →
      ¬ Fits ns (dstLen - (e - S.base)) → Fits ns dstLen →
      WritesInto (e + configHeaderSize) (dstLen - (e - S.base) - configHeaderSize).toNat t →
      m' = (Program.replay (FlashState.step g) ⟨m, false⟩ t).mem →
      Saved crc32 S ns dstLen m as e (storeBlock crc32 (S.wipe m') S.base ns.enc)
        (placeOps crc32 S dstLen m as as e e
          ++ (t ++ .erase (flashAddrToSector S.base) :: .lock ::
            (placeOps crc32 S dstLen (S.wipe m') [] [] S.base S.base
              ++ storeOps crc32 (S.wipe m') S.base ns.enc)))

/-- A save completes when the block fits behind the last one, or in the erased
sector. -/
def Completes (S : Sector g) (ns : ParameterNamespace) (dstLen : UInt32) (as : List UInt32)
    (e : UInt32) : Prop :=
  (Appends S dstLen as e ∧ Fits ns (dstLen - (e - S.base))) ∨ Fits ns dstLen

/-- **A save that fits completes**, one of the three ways. -/
theorem exec_configSave_saved (hcrc : ErasedInvalid crc32) (h8 : 8 ≤ S.size)
    {ns : ParameterNamespace} {dstLen : UInt32} (hlen : blockSize ns.enc ≤ 2 ^ 32)
    {s : FlashState} {as : List UInt32} {e : UInt32} (h : Walk crc32 s.mem S.base as e)
    (hc : Completes S ns dstLen as e) {fuel : ℕ} (hf : as.length < fuel) :
    ∃ m' t, Saved crc32 S ns dstLen s.mem as e m' t
      ∧ Program.exec (FlashState.step g) (configSave crc32 ns (fuel + 1) S.base dstLen) s
        = ⟨some (), ⟨m', true⟩, t⟩ := by
  by_cases ha : Appends S dstLen as e
  · by_cases hfits : Fits ns (dstLen - (e - S.base))
    · exact ⟨_, _, Saved.append ha hfits, exec_configSave_attempt hcrc h8 h hf
        (choosePlace_of_appends ha) (exec_saveAt_success hfits hlen fuel dstLen _)⟩
    · -- the walk passed a block, so there is fuel for a second attempt
      have hpos : 0 < as.length := List.length_pos_iff.mpr ha.1
      obtain ⟨fuel, rfl⟩ : ∃ k, fuel = k + 2 := ⟨fuel - 2, by omega⟩
      have hfresh : Fits ns dstLen := hc.resolve_left (fun hc => hfits hc.2)
      obtain ⟨m', t, hin, hm', hex⟩ : ∃ m' t, _ ∧ _ ∧ Program.exec (FlashState.step g)
          (saveAt crc32 ns (fuel + 2) S.base dstLen e (dstLen - (e - S.base))) ⟨s.mem, false⟩ = _ :=
        exec_saveAt_retry hfits (fuel + 2) dstLen s.mem
      refine ⟨_, _, Saved.retry ha hfits hfresh hin hm', ?_⟩
      rw [exec_configSave_attempt hcrc h8 h hf (choosePlace_of_appends ha) hex,
        exec_configSave_wiped hcrc h8 hfresh hlen]
  · have hfresh : Fits ns dstLen := hc.resolve_left (fun hc => ha hc.1)
    exact ⟨_, _, Saved.fresh ha hfresh, exec_configSave_attempt hcrc h8 h hf
      (choosePlace_of_not_appends h ha) (exec_saveAt_success hfresh hlen fuel dstLen _)⟩

/-- **A save that does not fit never completes.** -/
theorem configSave_diverges (hcrc : ErasedInvalid crc32) (h8 : 8 ≤ S.size)
    {ns : ParameterNamespace} {dstLen : UInt32} {s : FlashState} {as : List UInt32} {e : UInt32}
    (h : Walk crc32 s.mem S.base as e) (hc : ¬ Completes S ns dstLen as e) (fuel : ℕ) :
    (Program.exec (FlashState.step g) (configSave crc32 ns fuel S.base dstLen) s).result
      = none := by
  have hfresh : ¬ Fits ns dstLen := fun hfits => hc (Or.inr hfits)
  by_contra hsome
  obtain ⟨⟨⟩, hres⟩ := Option.ne_none_iff_exists'.mp hsome
  cases fuel with
  | zero => cases hres
  | succ fuel =>
    obtain ⟨as', e', hw, hf⟩ := walk_of_configSave hres
    obtain ⟨rfl, rfl⟩ := h.unique hw
    -- the first attempt fails, and so do those after it
    have hretry : ∀ {P : Place}, choosePlace S dstLen (pristine S s.mem as) e = P →
        ¬ Fits ns P.len → False := by
      intro P hP hfits
      obtain ⟨m', t, -, -, hex⟩ := exec_saveAt_retry (S := S) hfits fuel dstLen P.mem
      rw [exec_configSave_attempt hcrc h8 h hf hP hex] at hres
      have hdiv := configSave_wiped_diverges hcrc h8 hfresh fuel m' true
      rw [hdiv] at hres
      cases hres
    by_cases ha : Appends S dstLen as e
    · exact hretry (choosePlace_of_appends ha) (fun hfits => hc (Or.inl ⟨ha, hfits⟩))
    · exact hretry (choosePlace_of_not_appends h ha) hfresh

/-- Fitting into a room of at least a header. -/
theorem fits_iff {ns : ParameterNamespace} {len : UInt32} (h12 : 12 ≤ len.toNat) :
    Fits ns len ↔ ns.writer.NoEmptyWrite ∧ blockSize ns.enc ≤ len.toNat := by
  have hsub : (len - configHeaderSize).toNat = len.toNat - 12 :=
    UInt32.toNat_sub_of_le _ _ (UInt32.le_iff_toNat_le.mpr h12)
  rw [Fits, hsub, blockSize]
  refine and_congr_right (fun _ => ?_)
  omega

/-- An append finds room for more than a header. -/
theorem Appends.lt_room {dstLen : UInt32} {as : List UInt32} {e : UInt32}
    (h : Appends S dstLen as e) : 12 < (dstLen - (e - S.base)).toNat := by
  have hlt := h.2
  rw [UInt32.not_le] at hlt
  exact UInt32.lt_iff_toNat_lt.mp hlt

/-- The room behind a walk that ends within the length given. -/
theorem toNat_room {dstLen e : UInt32} (he : (e - S.base).toNat ≤ dstLen.toNat) :
    (dstLen - (e - S.base)).toNat = dstLen.toNat - (e - S.base).toNat :=
  UInt32.toNat_sub_of_le _ _ (UInt32.le_iff_toNat_le.mpr he)

theorem appends_iff {dstLen : UInt32} {as : List UInt32} {e : UInt32}
    (he : (e - S.base).toNat ≤ dstLen.toNat) :
    Appends S dstLen as e ↔ as ≠ [] ∧ (e - S.base).toNat + 12 < dstLen.toNat := by
  have h12 : configHeaderSize.toNat = 12 := rfl
  rw [Appends, UInt32.le_iff_toNat_le, toNat_room he, h12]
  refine and_congr_right (fun _ => ?_)
  omega

section Room

variable {dstLen : UInt32} {log : List (List UInt8)} {ns : ParameterNamespace}

/-- **A block with room behind the log is appended** to it. -/
theorem appends_of_room (hlog : log ≠ [])
    (hroom : used blockSize log + blockSize ns.enc ≤ dstLen.toNat) :
    Appends S dstLen (blockAddrs S.base log) (S.base + UInt32.ofNat (used blockSize log)) := by
  have hlt := dstLen.toNat_lt
  have hsize : blockSize ns.enc = 12 + ns.enc.length := rfl
  have hpos : 0 < ns.enc.length := List.length_pos_iff.mpr ns.nonempty
  have hoff := Memory.toNat_sub_base S.base (show used blockSize log < 2 ^ 32 from by omega)
  refine (appends_iff (by rw [hoff]; omega)).mpr ⟨blockAddrs_ne_nil S.base hlog, ?_⟩
  rw [hoff]
  omega

/-- It fits there. -/
theorem fits_of_room (hne : ns.writer.NoEmptyWrite)
    (hroom : used blockSize log + blockSize ns.enc ≤ dstLen.toNat) :
    Fits ns (dstLen - (S.base + UInt32.ofNat (used blockSize log) - S.base)) := by
  have hlt := dstLen.toNat_lt
  have hsize : blockSize ns.enc = 12 + ns.enc.length := rfl
  have hoff := Memory.toNat_sub_base S.base (show used blockSize log < 2 ^ 32 from by omega)
  have hlen : (dstLen - (S.base + UInt32.ofNat (used blockSize log) - S.base)).toNat
      = dstLen.toNat - used blockSize log := by
    rw [toNat_room (by rw [hoff]; omega), hoff]
  refine (fits_iff (by omega)).mpr ⟨hne, ?_⟩
  omega

end Room

/-- A block whose save completes fits in the address space. -/
theorem Completes.blockSize_le {ns : ParameterNamespace} {dstLen : UInt32} {as : List UInt32}
    {e : UInt32} (h : Completes S ns dstLen as e) (h12 : 12 ≤ dstLen.toNat) :
    blockSize ns.enc ≤ 2 ^ 32 := by
  rcases h with ⟨ha, hfits⟩ | hfits
  · have hle := ((fits_iff (Nat.le_of_lt ha.lt_room)).mp hfits).2
    exact hle.trans (Nat.le_of_lt (UInt32.toNat_lt _))
  · have hle := ((fits_iff h12).mp hfits).2
    exact hle.trans (Nat.le_of_lt (UInt32.toNat_lt _))

/-- **A completed save went one of the three ways.** -/
theorem saved_of_configSave (hcrc : ErasedInvalid crc32) (h8 : 8 ≤ S.size)
    {ns : ParameterNamespace} {dstLen : UInt32} (h12 : 12 ≤ dstLen.toNat)
    {s : FlashState} {fuel : ℕ}
    (h : (Program.exec (FlashState.step g) (configSave crc32 ns fuel S.base dstLen) s).result
      = some ()) :
    ∃ as e m' t, Walk crc32 s.mem S.base as e ∧ Saved crc32 S ns dstLen s.mem as e m' t
      ∧ Program.exec (FlashState.step g) (configSave crc32 ns fuel S.base dstLen) s
        = ⟨some (), ⟨m', true⟩, t⟩ := by
  cases fuel with
  | zero => cases h
  | succ fuel =>
    obtain ⟨as, e, hw, hf⟩ := walk_of_configSave h
    by_cases hc : Completes S ns dstLen as e
    · obtain ⟨m', t, hs, hex⟩ := exec_configSave_saved hcrc h8 (hc.blockSize_le h12) hw hc hf
      exact ⟨as, e, m', t, hw, hs, hex⟩
    · rw [configSave_diverges hcrc h8 hw hc] at h
      cases h

/-- **The memory a save leaves**, when the walk ended within the length given:
what a failed attempt programmed was erased with the sector. -/
theorem Saved.mem_eq {ns : ParameterNamespace} {dstLen : UInt32} {m m' : Memory}
    {as : List UInt32} {e : UInt32} {t : List FlashOp} (hdst : dstLen.toNat ≤ S.size)
    (he : (e - S.base).toNat ≤ dstLen.toNat) (h : Saved crc32 S ns dstLen m as e m' t) :
    (Appends S dstLen as e ∧ Fits ns (dstLen - (e - S.base))
        ∧ m' = storeBlock crc32 m e ns.enc)
      ∨ (¬ (Appends S dstLen as e ∧ Fits ns (dstLen - (e - S.base))) ∧ Fits ns dstLen
        ∧ m' = storeBlock crc32 (S.wipe m) S.base ns.enc) := by
  cases h with
  | append ha hfits => exact Or.inl ⟨ha, hfits, rfl⟩
  | fresh ha hfits => exact Or.inr ⟨fun hc => ha hc.1, hfits, rfl⟩
  | @retry m₁ u ha hno hfits hin hm =>
    refine Or.inr ⟨fun hc => hno hc.2, hfits, ?_⟩
    have hroom := toNat_room he
    have hbig := ha.lt_room
    have hbuf : (dstLen - (e - S.base) - configHeaderSize).toNat
        = dstLen.toNat - (e - S.base).toNat - 12 := by
      rw [← hroom]
      exact UInt32.toNat_sub_of_le _ _ (UInt32.le_iff_toNat_le.mpr (Nat.le_of_lt hbig))
    have haddr : e + configHeaderSize
        = S.base + UInt32.ofNat ((e - S.base).toNat + 12) := by
      rw [UInt32.ofNat_add, ← UInt32.add_assoc, Memory.add_ofNat_toNat_sub]
      rfl
    rw [hbuf, haddr] at hin
    have hwipe : S.wipe m₁ = S.wipe m := by
      refine S.wipe_congr (fun x hx => ?_)
      rw [hm]
      exact replay_outside_of_writesInto (by omega) hin hx
    rw [hwipe]

/-! ## The block in memory -/

/-- A stored block is programmed in two steps, but the order does not show. -/
theorem storeBlock_eq_burn (m : Memory) (dst : UInt32) (data : List UInt8) :
    storeBlock crc32 m dst data
      = m.burn dst (headerOf crc32 (UInt32.ofNat data.length)
          ((m.burn (dst + configHeaderSize) data).peek (dst + configHeaderSize) data.length)
        ++ data) := by
  rw [storeBlock, Memory.burn_comm, Memory.burn_append, length_headerOf]
  rfl

/-- Where the data could be written, they are what the data checksum is about. -/
theorem storeBlock_of_takes {m : Memory} {dst : UInt32} {data : List UInt8}
    (hlen : data.length ≤ 2 ^ 32) (h : m.Takes (dst + configHeaderSize) data) :
    storeBlock crc32 m dst data = m.burn dst (blockBytes crc32 data) := by
  rw [storeBlock_eq_burn, (Memory.peek_burn_eq_iff hlen).mpr h, blockBytes]

/-- **A block that the flash could take reads back as written.** -/
theorem peek_storeBlock {m : Memory} {dst : UInt32} {data : List UInt8}
    (hlen : blockSize data ≤ 2 ^ 32) (h : m.Takes dst (blockBytes crc32 data)) :
    (storeBlock crc32 m dst data).peek dst (blockSize data) = blockBytes crc32 data := by
  have hdata : m.Takes (dst + configHeaderSize) data := by
    have hsplit := (Memory.takes_append.mp h).2
    rwa [length_headerOf] at hsplit
  have hsize : blockSize data = 12 + data.length := rfl
  have hback := (Memory.peek_burn_eq_iff (by rw [length_blockBytes]; exact hlen)).mpr h
  rw [length_blockBytes] at hback
  rw [storeBlock_of_takes (by omega) hdata, hback]

/-- **Behind an erased header a block reads back as a block** of whatever the flash
holds where the data was written. -/
theorem peek_storeBlock_of_erased_header {m : Memory} {dst : UInt32} {data : List UInt8}
    (hlen : blockSize data ≤ 2 ^ 32) (h : m.Erased dst 12) :
    (storeBlock crc32 m dst data).peek dst
        (blockSize ((m.burn (dst + configHeaderSize) data).peek (dst + configHeaderSize)
          data.length))
      = blockBytes crc32 ((m.burn (dst + configHeaderSize) data).peek (dst + configHeaderSize)
          data.length) := by
  have hsize : blockSize data = 12 + data.length := rfl
  set m₁ := m.burn (dst + configHeaderSize) data with hm₁
  set payload := m₁.peek (dst + configHeaderSize) data.length with hpayload
  have hpl : payload.length = data.length := Memory.length_peek _ _ _
  -- writing the data leaves the header erased, so the header can be written
  have htakes : m₁.Takes dst (headerOf crc32 (UInt32.ofNat data.length) payload) := by
    refine Memory.Erased.takes (fun i hi => ?_)
    rw [length_headerOf] at hi
    rw [hm₁, show configHeaderSize = UInt32.ofNat 12 from rfl,
      Memory.burn_of_outside m dst (by omega) (by omega) (Or.inl (by omega))]
    exact h i hi
  have hhead := (Memory.peek_burn_eq_iff (by rw [length_headerOf]; omega)).mpr htakes
  rw [length_headerOf] at hhead
  have hdata : (m₁.burn dst (headerOf crc32 (UInt32.ofNat data.length) payload)).peek
      (dst + UInt32.ofNat 12) data.length = payload :=
    Memory.peek_burn_behind m₁ dst (by rw [length_headerOf]) (by omega)
  rw [blockSize, Memory.peek_add, blockBytes, hpl]
  show (m₁.burn dst (headerOf crc32 (UInt32.ofNat data.length) payload)).peek dst 12
    ++ (m₁.burn dst (headerOf crc32 (UInt32.ofNat data.length) payload)).peek
      (dst + UInt32.ofNat 12) data.length = _
  rw [hhead, hdata]

/-- Storing a block leaves the rest of the memory alone. -/
theorem storeBlock_outside (m : Memory) (base : UInt32) {o j : ℕ} {data : List UInt8}
    (ho : o + blockSize data ≤ 2 ^ 32) (hj : j < 2 ^ 32)
    (h : j < o ∨ o + blockSize data ≤ j) :
    storeBlock crc32 m (base + UInt32.ofNat o) data (base + UInt32.ofNat j)
      = m (base + UInt32.ofNat j) := by
  have hsize : blockSize data = 12 + data.length := rfl
  rw [storeBlock_eq_burn]
  refine Memory.burn_of_outside m base ?_ hj ?_
  · rw [List.length_append, length_headerOf]
    exact ho
  · rw [List.length_append, length_headerOf]
    exact h

/-- **A block behind the log of a sector**, the rest being as it was, makes the log
longer. -/
theorem Represents.snoc {m m' : Memory} {log : List (List UInt8)} {data : List UInt8}
    (h : Represents crc32 S m log)
    (hroom : used blockSize log + blockSize data ≤ S.size)
    (hblock : m'.peek (S.base + UInt32.ofNat (used blockSize log)) (blockSize data)
      = blockBytes crc32 data)
    (hrest : ∀ j < S.size, j < used blockSize log ∨ used blockSize log + blockSize data ≤ j →
      m' (S.base + UInt32.ofNat j) = m (S.base + UInt32.ofNat j)) :
    Represents crc32 S m' (log ++ [data]) := by
  have hpos : 0 < blockSize data := Nat.lt_of_lt_of_le (by decide) (Nat.le_add_right 12 _)
  have hu : used blockSize (log ++ [data]) = used blockSize log + blockSize data := by
    rw [used_append, used_cons, used_nil, Nat.add_zero]
  refine Represents.of_parts (by omega) ?_ ?_
  · -- the blocks before it, and the block itself
    rw [hu, Memory.peek_add, hblock, logBytes_append, logBytes_cons, logBytes_nil,
      List.append_nil, ← h.peek_log]
    congr 1
    exact Memory.peek_congr (fun i hi => hrest i (by omega) (Or.inl hi))
  · -- what is left of the erased bytes
    intro i hi
    rw [UInt32.add_assoc, ← UInt32.ofNat_add, hu, hrest _ (by omega) (Or.inr (by omega))]
    have hback := h.erased (blockSize data + i) (by omega)
    rwa [UInt32.add_assoc, ← UInt32.ofNat_add, ← Nat.add_assoc] at hback

/-- **Storing a block behind the log of a sector** represents the longer log. -/
theorem Represents.storeBlock {m : Memory} {log : List (List UInt8)} {data : List UInt8}
    (h : Represents crc32 S m log)
    (hroom : used blockSize log + blockSize data ≤ S.size) :
    Represents crc32 S
      (storeBlock crc32 m (S.base + UInt32.ofNat (used blockSize log)) data) (log ++ [data]) := by
  have hS := S.fits
  have htakes : m.Takes (S.base + UInt32.ofNat (used blockSize log)) (blockBytes crc32 data) := by
    refine Memory.Erased.takes (fun i hi => h.erased i ?_)
    rw [length_blockBytes] at hi
    omega
  exact h.snoc hroom (peek_storeBlock (by omega) htakes)
    (fun j hj hout => storeBlock_outside m S.base (by omega) (by omega) hout)

/-! ## What a save programs -/

/-- Walking programs nothing. -/
theorem programs_walkReads (m : Memory) (as : List UInt32) (e : UInt32) :
    FlashOp.programs (walkReads crc32 m as e) = [] := by
  refine List.filterMap_eq_nil_iff.mpr (fun o ho => ?_)
  obtain ⟨a, rfl⟩ := read_of_mem_walkReads ho
  rfl

/-- Looking for a place programs nothing. -/
theorem programs_placeOps (dstLen : UInt32) (m : Memory) (as as' : List UInt32)
    (e e' : UInt32) : FlashOp.programs (placeOps crc32 S dstLen m as as' e e') = [] := by
  have herase : ∀ (P : Prop) [Decidable P], FlashOp.programs
      (if P then [FlashOp.erase (flashAddrToSector S.base)] else []) = [] := by
    intro P _
    split <;> rfl
  unfold placeOps
  show FlashOp.programs (_ ++ _) = []
  rw [FlashOp.programs_append, FlashOp.programs_append, FlashOp.programs_append,
    programs_walkReads, programs_walkReads, herase, herase]
  rfl

/-- **Writing a block** programs its bytes: data, then header. -/
theorem programs_storeOps (m : Memory) (dst : UInt32) (data : List UInt8) :
    FlashOp.programs (storeOps crc32 m dst data)
      = Memory.cells (dst + configHeaderSize) data
        ++ Memory.cells dst (headerOf crc32 (UInt32.ofNat data.length)
          ((m.burn (dst + configHeaderSize) data).peek (dst + configHeaderSize)
            (UInt32.ofNat data.length).toNat)) := by
  have h4 : dst + UInt32.ofNat 4 = dst + 4 := rfl
  have h8 : dst + 4 + UInt32.ofNat 4 = dst + 8 := by
    rw [UInt32.add_assoc]
    rfl
  have hlock : FlashOp.programs [FlashOp.lock] = [] := rfl
  unfold storeOps headerOps headerOf
  simp only [FlashOp.programs_append, FlashOp.programs_writes, FlashOp.programs_reads,
    Memory.cells_append, length_leBytes, List.append_assoc, h4, h8, hlock, List.append_nil,
    List.nil_append]

end ConfigStore
