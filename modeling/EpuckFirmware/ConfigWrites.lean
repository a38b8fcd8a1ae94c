import EpuckFirmware.ConfigRefinement

/-!
# Where the store writes

The room behind the last block is `dst_len - (dst - orig_dst)`, without a sign.
When the log already reaches further than the length passed, the difference
wraps, the room is huge and the block is written wherever the walk ended. The
two callers pass different lengths for the same sector, so this happens: the
shell fills the sector, and the virtual machine, which counts in words, appends
to it without a bound.

A save stays in the sector as long as the walk ended within the length passed,
or what it appends still fits (`StaysInside`, `CompletedSave.programsInside`).
-/

namespace ConfigStore

open BoundedLog

/-- Every byte programmed is one of the `n` bytes from `base` on. -/
def ProgramsInside (base : UInt32) (n : ℕ) (os : List FlashOp) : Prop :=
  ∀ p ∈ FlashOp.programs os, (p.1 - base).toNat < n

theorem ProgramsInside.append {base : UInt32} {n : ℕ} {xs ys : List FlashOp} :
    ProgramsInside base n (xs ++ ys) ↔ ProgramsInside base n xs ∧ ProgramsInside base n ys := by
  unfold ProgramsInside
  rw [FlashOp.programs_append]
  constructor
  · intro h
    exact ⟨fun p hp => h p (List.mem_append.mpr (Or.inl hp)),
      fun p hp => h p (List.mem_append.mpr (Or.inr hp))⟩
  · rintro ⟨hx, hy⟩ p hp
    exact (List.mem_append.mp hp).elim (hx p) (hy p)

/-- Nothing is programmed outside when nothing is programmed. -/
theorem programsInside_of_nil {base : UInt32} {n : ℕ} {os : List FlashOp}
    (h : FlashOp.programs os = []) : ProgramsInside base n os := by
  intro p hp
  rw [h] at hp
  cases hp

/-- Erasing and locking program nothing. -/
theorem programsInside_erase_lock {base : UInt32} {n : ℕ} {k : UInt8} {os : List FlashOp} :
    ProgramsInside base n (.erase k :: .lock :: os) ↔ ProgramsInside base n os := Iff.rfl

theorem programsInside_writes (base : UInt32) {n o : ℕ} {bs : List UInt8}
    (h : o + bs.length ≤ n) (hn : n ≤ 2 ^ 32) :
    ProgramsInside base n (writes (base + UInt32.ofNat o) bs) := by
  rintro ⟨x, b⟩ hp
  rw [FlashOp.programs_writes] at hp
  obtain ⟨i, hi, rfl, -⟩ := Memory.mem_cells.mp hp
  rw [UInt32.add_assoc, ← UInt32.ofNat_add, Memory.toNat_sub_base base (by omega)]
  omega

theorem programsInside_writesInto {base : UInt32} {n o size : ℕ} {t : List FlashOp}
    (ht : WritesInto (base + UInt32.ofNat o) size t) (h : o + size ≤ n) (hn : n ≤ 2 ^ 32) :
    ProgramsInside base n t := by
  rintro ⟨x, b⟩ hp
  obtain ⟨j, hj, c, heq⟩ := ht _ (FlashOp.mem_programs.mp hp)
  obtain ⟨rfl, -⟩ := FlashOp.program.inj heq
  rw [UInt32.add_assoc, ← UInt32.ofNat_add, Memory.toNat_sub_base base (by omega)]
  omega

section Save

variable {g : Geometry} {S : Sector g} {crc32 : UInt32 → List UInt8 → UInt32}

theorem programsInside_storeOps {m : Memory} {base : UInt32} {n o : ℕ} {data : List UInt8}
    (h : o + blockSize data ≤ n) (hn : n ≤ 2 ^ 32) :
    ProgramsInside base n (storeOps crc32 m (base + UInt32.ofNat o) data) := by
  have hsize : blockSize data = 12 + data.length := rfl
  intro p hp
  rw [programs_storeOps, show configHeaderSize = UInt32.ofNat 12 from rfl, UInt32.add_assoc,
    ← UInt32.ofNat_add, List.mem_append, ← FlashOp.programs_writes, ← FlashOp.programs_writes] at hp
  rcases hp with hp | hp
  · exact programsInside_writes base (by omega) hn p hp
  · refine programsInside_writes base ?_ hn p hp
    rw [length_headerOf]
    omega

/-! ## One save -/

/-- **The save stays in the sector of `n` bytes**: the walk ends within the length
passed, or what is appended fits in the sector all the same. -/
def StaysInside (crc32 : UInt32 → List UInt8 → UInt32) (S : Sector g) (s : FlashState)
    (r : UInt32 × ParameterNamespace) : Prop :=
  ∀ as e, Walk crc32 s.mem S.base as e →
    (e - S.base).toNat ≤ r.1.toNat ∨ (e - S.base).toNat + blockSize r.2.enc ≤ S.size

/-- The walk ends in the sector. -/
def EndsInside (crc32 : UInt32 → List UInt8 → UInt32) (S : Sector g) (s : FlashState)
    (_ : UInt32 × ParameterNamespace) : Prop :=
  ∀ as e, Walk crc32 s.mem S.base as e → (e - S.base).toNat ≤ S.size

/-- Behind a walk that ended beyond the length passed, the room wraps. -/
theorem toNat_wrapped_room {dstLen : UInt32} {o : ℕ} (ho : o < 2 ^ 32)
    (h : dstLen.toNat < o) :
    (dstLen - (S.base + UInt32.ofNat o - S.base)).toNat = 2 ^ 32 - o + dstLen.toNat := by
  rw [UInt32.toNat_sub, Memory.toNat_sub_base S.base ho]
  omega

/-- **Behind a walk that ended beyond the length passed, the code appends**
whatever fits in the sector. -/
theorem appends_of_wrapped {m : Memory} {as : List UInt32} {o : ℕ} {dstLen : UInt32}
    (hw : Walk crc32 m S.base as (S.base + UInt32.ofNat o)) (hlt : dstLen.toNat < o)
    (ho : o ≤ S.size) (hsize : S.size ≤ 2 ^ 31) (h12 : 12 ≤ dstLen.toNat) :
    Appends S dstLen as (S.base + UInt32.ofNat o)
      ∧ ∀ ns : ParameterNamespace, ns.writer.NoEmptyWrite → blockSize ns.enc ≤ S.size →
        Fits ns (dstLen - (S.base + UInt32.ofNat o - S.base)) := by
  have ho32 : o < 2 ^ 32 := by omega
  have hsub := toNat_wrapped_room (S := S) ho32 hlt
  have happends : Appends S dstLen as (S.base + UInt32.ofNat o) := by
    refine ⟨?_, ?_⟩
    · rintro rfl
      have hoff := Memory.toNat_sub_base S.base ho32
      rw [hw.eq_of_nil, UInt32.sub_self] at hoff
      exact Nat.not_lt_zero _ (hoff ▸ hlt)
    · rw [UInt32.le_iff_toNat_le, hsub, show configHeaderSize.toNat = 12 from rfl]
      omega
  refine ⟨happends, fun ns hne hfits => ?_⟩
  refine (fits_iff (Nat.le_of_lt happends.lt_room)).mpr ⟨hne, ?_⟩
  rw [hsub]
  omega

/-- **A save that stays in the sector** programs nothing outside it. -/
theorem CompletedSave.programsInside (hcrc : ErasedInvalid crc32)
    {r : UInt32 × ParameterNamespace} (h12 : 12 ≤ r.1.toNat) (hdst : r.1.toNat ≤ S.size)
    (hfits : blockSize r.2.enc ≤ S.size) {s s' : FlashState} {t : List FlashOp}
    (h : CompletedSave crc32 S r s s' t) (hin : StaysInside crc32 S s r) :
    ProgramsInside S.base S.size t := by
  have hS := S.fits
  have hbase : S.base = S.base + UInt32.ofNat 0 := (UInt32.add_zero _).symm
  have hplace : ∀ (m : Memory) (as as' : List UInt32) (e e' : UInt32),
      ProgramsInside S.base S.size (placeOps crc32 S r.1 m as as' e e') :=
    fun m as as' e e' => programsInside_of_nil (programs_placeOps r.1 m as as' e e')
  -- a block at the start of the sector
  have hstart : ∀ m, ProgramsInside S.base S.size (storeOps crc32 m S.base r.2.enc) := by
    intro m
    have hstore : ProgramsInside S.base S.size
        (storeOps crc32 m (S.base + UInt32.ofNat 0) r.2.enc) :=
      programsInside_storeOps (by rw [Nat.zero_add]; exact hfits) (by omega)
    rwa [← hbase] at hstore
  obtain ⟨as, e, m', hw, hsaved, -⟩ := h.saved hcrc (by omega) h12
  have hcond := hin as e hw
  obtain ⟨o, ho, rfl⟩ := Memory.exists_offset S.base e
  have hoff := Memory.toNat_sub_base S.base ho
  rw [hoff] at hcond
  cases hsaved with
  | append ha hf =>
    -- a block behind the last one
    have hroom := ((fits_iff (Nat.le_of_lt ha.lt_room)).mp hf).2
    refine ProgramsInside.append.mpr ⟨hplace _ _ _ _ _, ?_⟩
    refine programsInside_storeOps (hcond.elim (fun hle => ?_) id) (by omega)
    rw [toNat_room (by rw [hoff]; exact hle), hoff] at hroom
    omega
  | fresh ha hf => exact ProgramsInside.append.mpr ⟨hplace _ _ _ _ _, hstart _⟩
  | @retry m₁ u ha hno hf hwrites hm =>
    have hlt := ha.lt_room
    have hbuf : (r.1 - (S.base + UInt32.ofNat o - S.base) - configHeaderSize).toNat
        = (r.1 - (S.base + UInt32.ofNat o - S.base)).toNat - 12 :=
      UInt32.toNat_sub_of_le _ _ (UInt32.le_iff_toNat_le.mpr (Nat.le_of_lt hlt))
    have hne := ((fits_iff h12).mp hf).1
    by_cases hle : o ≤ r.1.toNat
    · -- the failed attempt stayed in the buffer, which is in the sector
      have hroom : (r.1 - (S.base + UInt32.ofNat o - S.base)).toNat
          = r.1.toNat - (S.base + UInt32.ofNat o - S.base).toNat := by
        refine toNat_room ?_
        rw [hoff]
        exact hle
      rw [hoff] at hroom
      rw [hbuf, hroom, show configHeaderSize = UInt32.ofNat 12 from rfl, UInt32.add_assoc,
        ← UInt32.ofNat_add] at hwrites
      rw [hroom] at hlt
      have hu : ProgramsInside S.base S.size u :=
        programsInside_writesInto hwrites (by omega) (by omega)
      have hagain := ProgramsInside.append.mpr
        ⟨hplace (S.wipe m₁) [] [] S.base S.base, hstart (S.wipe m₁)⟩
      refine ProgramsInside.append.mpr ⟨hplace _ _ _ _ _, ProgramsInside.append.mpr ⟨hu, ?_⟩⟩
      exact programsInside_erase_lock.mpr hagain
    · -- the room had wrapped, so the block fitted
      have hsum := hcond.resolve_left hle
      have hsub : (r.1 - (S.base + UInt32.ofNat o - S.base)).toNat = 2 ^ 32 - o + r.1.toNat :=
        toNat_wrapped_room ho (Nat.lt_of_not_le hle)
      refine absurd ((fits_iff (Nat.le_of_lt hlt)).mpr ⟨hne, ?_⟩) hno
      rw [hsub]
      omega

/-- **A save that does not stay in the sector** programs a byte outside it. -/
theorem CompletedSave.staysInside (hcrc : ErasedInvalid crc32)
    {r : UInt32 × ParameterNamespace} (h12 : 12 ≤ r.1.toNat) (hdst : r.1.toNat ≤ S.size)
    (hsize : S.size ≤ 2 ^ 31) (hfits : blockSize r.2.enc ≤ S.size) {s s' : FlashState}
    {t : List FlashOp} (h : CompletedSave crc32 S r s s' t) (hend : EndsInside crc32 S s r)
    (hin : ProgramsInside S.base S.size t) : StaysInside crc32 S s r := by
  intro as e hw
  have hinside := hend as e hw
  obtain ⟨o, ho, rfl⟩ := Memory.exists_offset S.base e
  have hoff := Memory.toNat_sub_base S.base ho
  rw [hoff] at hinside ⊢
  refine or_iff_not_imp_left.mpr (fun hle => ?_)
  obtain ⟨as', e', m', hw', hsaved, -⟩ := h.saved hcrc (by omega) h12
  obtain ⟨rfl, rfl⟩ := hw.unique hw'
  -- the room has wrapped, so the block was appended
  obtain ⟨happends, hroom⟩ := appends_of_wrapped hw (Nat.lt_of_not_le hle) hinside hsize h12
  cases hsaved with
  | fresh ha hf => exact absurd happends ha
  | retry ha hno hf hwrites hm => exact absurd (hroom _ ((fits_iff h12).mp hf).1 hfits) hno
  | append ha hf =>
    have hpos : 0 < r.2.enc.length := List.length_pos_iff.mpr r.2.nonempty
    have hbs : blockSize r.2.enc = 12 + r.2.enc.length := rfl
    -- its last byte
    have hlast : (S.base + UInt32.ofNat o + configHeaderSize
        + UInt32.ofNat (r.2.enc.length - 1), r.2.enc[r.2.enc.length - 1])
        ∈ FlashOp.programs (storeOps crc32 s.mem (S.base + UInt32.ofNat o) r.2.enc) := by
      rw [programs_storeOps]
      exact List.mem_append.mpr (Or.inl (Memory.mem_cells.mpr ⟨_, by omega, rfl, rfl⟩))
    have hlt := (ProgramsInside.append.mp hin).2 _ hlast
    simp only at hlt
    rw [show configHeaderSize = UInt32.ofNat 12 from rfl, UInt32.add_assoc,
      UInt32.add_assoc, ← UInt32.ofNat_add, ← UInt32.ofNat_add,
      Memory.toNat_sub_base S.base (by omega)] at hlt
    omega

end Save

/-! ## Runs of the two callers -/

/-- What the two callers ask for. -/
def calls (rs : List (Saver × ParameterNamespace)) : List (UInt32 × ParameterNamespace) :=
  rs.map (fun r => (r.1.dstLen, r.2))

/-- The bytes of the sector are those between the two linker symbols. -/
theorem inside_iff (a : UInt32) :
    (a - configStart).toNat < 128 * 1024 ↔ configStart ≤ a ∧ a < configEnd := by
  have ha := a.toNat_lt
  have hstart : configStart.toNat = 0x080e0000 := rfl
  have hend : configEnd.toNat = 0x08100000 := rfl
  rw [UInt32.le_iff_toNat_le, UInt32.lt_iff_toNat_lt, UInt32.toNat_sub, hstart, hend]
  omega

/-- Either caller passes at least a header and at most the sector. -/
theorem dstLen_bounds (who : Saver) :
    12 ≤ who.dstLen.toNat ∧ who.dstLen.toNat ≤ 128 * 1024 := by
  cases who <;> decide

section Calls

variable {g : Geometry} {S : Sector g} {crc32 : UInt32 → List UInt8 → UInt32}

/-- **A run whose saves stay in the sector** programs nothing outside it. -/
theorem programsInside_of_staysInside (hcrc : ErasedInvalid crc32) (hsize : S.size = 128 * 1024)
    {rs : List (Saver × ParameterNamespace)} (hfits : ∀ r ∈ rs, blockSize r.2.enc ≤ S.size)
    {s₀ s : FlashState} {t : List FlashOp}
    (h : SavesWith crc32 S (StaysInside crc32 S) s₀ (calls rs) s t) :
    ProgramsInside S.base S.size t := by
  induction rs generalizing s₀ t with
  | nil =>
    cases h
    exact programsInside_of_nil rfl
  | cons r rs ih =>
    obtain ⟨h12, hdst⟩ := dstLen_bounds r.1
    cases h with
    | cons hstays hsave hrest =>
      refine ProgramsInside.append.mpr ⟨?_, ih (fun r' hr' => ?_) hrest⟩
      · exact hsave.programsInside hcrc h12 (hdst.trans hsize.ge) (hfits r List.mem_cons_self)
          hstays
      · exact hfits r' (List.mem_cons_of_mem r hr')

/-- **A run that programs nothing outside the sector** consists of saves that stay
in it, provided the walk always ended there. -/
theorem staysInside_of_programsInside (hcrc : ErasedInvalid crc32) (hsize : S.size = 128 * 1024)
    {rs : List (Saver × ParameterNamespace)} (hfits : ∀ r ∈ rs, blockSize r.2.enc ≤ S.size)
    {s₀ s : FlashState} {t : List FlashOp}
    (h : SavesWith crc32 S (EndsInside crc32 S) s₀ (calls rs) s t)
    (hin : ProgramsInside S.base S.size t) :
    SavesWith crc32 S (StaysInside crc32 S) s₀ (calls rs) s t := by
  induction rs generalizing s₀ t with
  | nil =>
    cases h
    exact SavesWith.nil
  | cons r rs ih =>
    obtain ⟨h12, hdst⟩ := dstLen_bounds r.1
    cases h with
    | cons hends hsave hrest =>
      obtain ⟨hhere, hthere⟩ := ProgramsInside.append.mp hin
      refine SavesWith.cons ?_ hsave (ih (fun r' hr' => ?_) hrest hthere)
      · exact hsave.staysInside hcrc h12 (hdst.trans hsize.ge) (by omega)
          (hfits r List.mem_cons_self) hends hhere
      · exact hfits r' (List.mem_cons_of_mem r hr')

/-- **Where runs of the two callers write**: every byte programmed lies between
`_config_start` and `_config_end` if every save found the end of the log within
the length it was passed, or its block fitted behind it all the same – and,
where the walks ended in the sector, only then. -/
theorem configSave_programs_inside (crc32 : UInt32 → List UInt8 → UInt32)
    (hcrc : ErasedInvalid crc32) (S : Sector g) (hbase : S.base = configStart)
    (hsize : S.size = 128 * 1024) (rs : List (Saver × ParameterNamespace))
    (hfits : ∀ r ∈ rs, 12 + r.2.enc.length ≤ 128 * 1024) (s₀ s : FlashState)
    (t : List FlashOp) :
    (SavesWith crc32 S (StaysInside crc32 S) s₀ (calls rs) s t →
        ∀ p ∈ FlashOp.programs t, configStart ≤ p.1 ∧ p.1 < configEnd)
      ∧ (SavesWith crc32 S (EndsInside crc32 S) s₀ (calls rs) s t →
        (∀ p ∈ FlashOp.programs t, configStart ≤ p.1 ∧ p.1 < configEnd) →
          SavesWith crc32 S (StaysInside crc32 S) s₀ (calls rs) s t) := by
  have hinside : ProgramsInside S.base S.size t
      ↔ ∀ p ∈ FlashOp.programs t, configStart ≤ p.1 ∧ p.1 < configEnd := by
    unfold ProgramsInside
    rw [hbase, hsize]
    exact forall_congr' (fun p => imp_congr_right (fun _ => inside_iff p.1))
  have hblocks : ∀ r ∈ rs, blockSize r.2.enc ≤ S.size := by
    rw [hsize]
    exact hfits
  exact ⟨fun h => hinside.mp (programsInside_of_staysInside hcrc hsize hblocks h),
    fun h hin => staysInside_of_programsInside hcrc hsize hblocks h (hinside.mpr hin)⟩

end Calls

theorem configSave_programs_inside_emptyTree :
    ∃ s t, SavesWith crc32 configSector (StaysInside crc32 configSector) erasedFlash
        (calls [(.shell, emptyTree)]) s t
      ∧ ∀ p ∈ FlashOp.programs t, configStart ≤ p.1 ∧ p.1 < configEnd := by
  obtain ⟨s, t, hsave, -⟩ := save_erasedFlash emptyTree ⟨by decide, trivial⟩ (by decide)
  have hstays : StaysInside crc32 configSector erasedFlash (0x20000, emptyTree) := by
    intro as e hw
    obtain ⟨-, rfl⟩ := hw.unique walk_erasedFlash
    exact Or.inl (by rw [UInt32.sub_self]; exact Nat.zero_le _)
  have hrun : SavesWith crc32 configSector (StaysInside crc32 configSector) erasedFlash
      (calls [(.shell, emptyTree)]) s (t ++ []) := SavesWith.cons hstays hsave SavesWith.nil
  refine ⟨s, t ++ [], hrun, ?_⟩
  exact (configSave_programs_inside crc32 erasedInvalid_crc32 configSector rfl rfl
    [(.shell, emptyTree)] (by decide) erasedFlash s _).1 hrun

/-- A tree that takes more than half of the sector, saved by the shell and then
by the virtual machine, is written past the end. -/
theorem programs_outside_of_twice {ns : ParameterNamespace} (hne : ns.writer.NoEmptyWrite)
    (hfits : blockSize ns.enc ≤ 128 * 1024) (htwice : 128 * 1024 < 2 * blockSize ns.enc) :
    ∃ s t, Saves crc32 configSector erasedFlash (calls [(.shell, ns), (.aseba, ns)]) s t
      ∧ ∃ p ∈ FlashOp.programs t, ¬ (configStart ≤ p.1 ∧ p.1 < configEnd) := by
  have hused : used blockSize [ns.enc] = blockSize ns.enc := by
    rw [used_cons, used_nil, Nat.add_zero]
  have haseba : Saver.aseba.dstLen.toNat = 32 * 1024 := by decide
  have hsize : configSector.size = 128 * 1024 := rfl
  obtain ⟨h12, hdst⟩ := dstLen_bounds .aseba
  obtain ⟨s₁, t₁, hsave₁, hholds⟩ := save_erasedFlash _ hne hfits
  -- the walk after the first save ends behind its block
  have hpast : NoHeaderPastEnd crc32 configSector erasedFlash.mem := noHeaderPastEnd_erasedFlash
  have hw := hholds.walk erasedInvalid_crc32 (Or.inr hpast)
  rw [hused] at hw
  obtain ⟨happends, hroom⟩ := appends_of_wrapped hw (by omega) (by omega) (by omega) h12
  obtain ⟨m', t₂, -, hex⟩ := exec_configSave_saved erasedInvalid_crc32 (by omega) (by omega) hw
    (Or.inl ⟨happends, hroom ns hne (by omega)⟩) (Nat.lt_succ_self _)
  have hsave₂ : CompletedSave crc32 configSector (Saver.aseba.dstLen, ns) s₁ ⟨m', true⟩ t₂ :=
    ⟨_, hex⟩
  refine ⟨_, t₁ ++ (t₂ ++ []), SavesWith.cons trivial hsave₁
    (SavesWith.cons trivial hsave₂ SavesWith.nil), ?_⟩
  -- so the second save does not stay in the sector
  by_contra! hall
  have hin : ProgramsInside configSector.base configSector.size t₂ := by
    intro p hp
    refine (inside_iff p.1).mpr (hall p ?_)
    rw [FlashOp.programs_append, FlashOp.programs_append]
    exact List.mem_append.mpr (Or.inr (List.mem_append.mpr (Or.inl hp)))
  have hoff : (configSector.base + UInt32.ofNat (blockSize ns.enc) - configSector.base).toNat
      = blockSize ns.enc := Memory.toNat_sub_base _ (by omega)
  have hends : EndsInside crc32 configSector s₁ (Saver.aseba.dstLen, ns) := by
    intro as e hw'
    obtain ⟨-, rfl⟩ := hw.unique hw'
    rw [hoff]
    exact hfits
  have hstays := hsave₂.staysInside erasedInvalid_crc32 h12 hdst (by omega) hfits hends hin _ _ hw
  simp only [hoff] at hstays
  omega

/-- **The virtual machine writes past the sector** behind a tree that the shell
saved: 66000 bytes twice are more than 128 KiB. -/
theorem configSave_programs_outside :
    ∃ s t, Saves crc32 configSector erasedFlash
        (calls [(.shell, zeroTree 65999 (by decide)), (.aseba, zeroTree 65999 (by decide))]) s t
      ∧ ∃ p ∈ FlashOp.programs t, ¬ (configStart ≤ p.1 ∧ p.1 < configEnd) := by
  have hblock : blockSize (zeroTree 65999 (by decide)).enc = 66012 := by
    rw [blockSize, length_enc_zeroTree]
  exact programs_outside_of_twice (noEmptyWrite_zeroTree _) (by rw [hblock]; decide)
    (by rw [hblock]; decide)

end ConfigStore
