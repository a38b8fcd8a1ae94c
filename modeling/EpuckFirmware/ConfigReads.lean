import EpuckFirmware.ConfigRefinement

/-!
# Where the store reads

Neither search function is told how long the sector is. The walk ends where a
header is not valid, and it has to read that header to find out: the eight bytes
behind the last block. So all reads stay in the sector exactly as long as the
log leaves eight bytes of it (`everyReadInside_iff`); a log that fills the
sector further makes every search read past its end.
-/

namespace ConfigStore

open BoundedLog

/-- A read, if it is one, is of one of the `n` bytes from `base` on. -/
def ReadInside (base : UInt32) (n : ℕ) (o : FlashOp) : Prop :=
  ∀ a, o = .read a → (a - base).toNat < n

theorem readInside_reads (base : UInt32) {n o k : ℕ} (h : o + k ≤ n) (hn : n ≤ 2 ^ 32) :
    ∀ op ∈ reads (base + UInt32.ofNat o) k, ReadInside base n op := by
  intro op hop a ha
  obtain ⟨i, hi, rfl⟩ := mem_reads.mp hop
  obtain rfl := FlashOp.read.inj ha
  rw [UInt32.add_assoc, ← UInt32.ofNat_add, Memory.toNat_sub_base base (by omega)]
  omega

/-- Programming is not reading. -/
theorem readInside_writes (base a : UInt32) (n : ℕ) (bs : List UInt8) :
    ∀ op ∈ writes a bs, ReadInside base n op := by
  intro op hop b hb
  obtain ⟨p, -, rfl⟩ := List.mem_map.mp hop
  cases hb

theorem readInside_writesInto {base buf : UInt32} {n size : ℕ} {t : List FlashOp}
    (h : WritesInto buf size t) : ∀ op ∈ t, ReadInside base n op := by
  intro op hop b hb
  obtain ⟨j, -, c, rfl⟩ := h op hop
  cases hb

section Sector

variable {g : Geometry} {S : Sector g} {crc32 : UInt32 → List UInt8 → UInt32}

/-! ## Walking over a log -/

/-- Checking a block reads the block. -/
theorem readInside_blockReads {m : Memory} {base a : UInt32} {n : ℕ} (hn : n ≤ 2 ^ 32)
    (h : BlockInside m base n a) :
    ∀ op ∈ blockReads crc32 m a ++ reads (a + 4) 4, ReadInside base n op := by
  obtain ⟨o, rfl, hlen⟩ := h
  have hword : ∀ k, o + k + 4 ≤ n →
      ∀ op ∈ reads (base + UInt32.ofNat o + UInt32.ofNat k) 4, ReadInside base n op := by
    intro k hk
    rw [UInt32.add_assoc, ← UInt32.ofNat_add]
    exact readInside_reads base hk hn
  have hdata : ∀ op ∈ reads (base + UInt32.ofNat o + configHeaderSize)
      (lengthAt m (base + UInt32.ofNat o)).toNat, ReadInside base n op := by
    rw [show configHeaderSize = UInt32.ofNat 12 from rfl, UInt32.add_assoc, ← UInt32.ofNat_add]
    exact readInside_reads base hlen hn
  intro op hop
  unfold blockReads at hop
  simp only [List.mem_append] at hop
  rcases hop with ((hop | hop) | hop) | hop
  · exact readInside_reads base (by omega) hn op hop
  · exact hword 4 (by omega) op hop
  · by_cases hok : LengthOk crc32 m (base + UInt32.ofNat o)
    · rw [if_pos hok, List.mem_append] at hop
      rcases hop with hop | hop
      · exact hword 8 (by omega) op hop
      · exact hdata op hop
    · rw [if_neg hok] at hop
      cases hop
  · exact hword 4 (by omega) op hop

/-- Checking an erased header reads no more than length and checksum. -/
theorem readInside_erased (hcrc : ErasedInvalid crc32) {m : Memory} {base : UInt32} {n o : ℕ}
    (ho : o + 8 ≤ n) (hn : n ≤ 2 ^ 32) (h : m.Erased (base + UInt32.ofNat o) 8) :
    ∀ op ∈ blockReads crc32 m (base + UInt32.ofNat o), ReadInside base n op := by
  intro op hop
  rw [blockReads, if_neg (not_lengthOk_of_erased hcrc h), List.append_nil, List.mem_append] at hop
  rcases hop with hop | hop
  · exact readInside_reads base (by omega) hn op hop
  · rw [show (4 : UInt32) = UInt32.ofNat 4 from rfl, UInt32.add_assoc, ← UInt32.ofNat_add] at hop
    exact readInside_reads base (by omega) hn op hop

/-- A walk reads the blocks it passes and the header it stops at. -/
theorem readInside_walkReads {m : Memory} {base e : UInt32} {n : ℕ} (hn : n ≤ 2 ^ 32)
    {as : List UInt32} (has : ∀ a ∈ as, BlockInside m base n a)
    (he : ∀ op ∈ blockReads crc32 m e, ReadInside base n op) :
    ∀ op ∈ walkReads crc32 m as e, ReadInside base n op := by
  induction as with
  | nil => exact he
  | cons a as ih =>
    intro op hop
    rw [walkReads, List.mem_append] at hop
    rcases hop with hop | hop
    · exact readInside_blockReads hn (has a List.mem_cons_self) op hop
    · exact ih (fun b hb => has b (List.mem_cons_of_mem a hb)) op hop

/-- A log that leaves eight bytes: the walk over it reads nothing else. -/
theorem Represents.readInside (hcrc : ErasedInvalid crc32) {m : Memory}
    {log : List (List UInt8)} (h : Represents crc32 S m log) {n : ℕ}
    (hroom : used blockSize log + 8 ≤ n) (hn : n ≤ S.size) :
    (∀ a ∈ blockAddrs S.base log, BlockInside m S.base n a)
      ∧ ∀ op ∈ walkReads crc32 m (blockAddrs S.base log)
          (S.base + UInt32.ofNat (used blockSize log)), ReadInside S.base n op := by
  have hS := S.fits
  have hbase : S.base + UInt32.ofNat 0 = S.base := UInt32.add_zero _
  have hblocks : ∀ a ∈ blockAddrs S.base log, BlockInside m S.base n a := by
    have hpeek := h.peek_log
    rw [← hbase] at hpeek ⊢
    have hall := blockInside_of_log (n := n) (by omega) (by omega) hpeek
    rwa [hbase] at hall ⊢
  refine ⟨hblocks, readInside_walkReads (by omega) hblocks ?_⟩
  exact readInside_erased hcrc hroom (by omega) (fun i hi => h.erased i (by omega))

/-! ## The four functions -/

/-- What a save does before it writes reads what the walk reads. -/
theorem Represents.readInside_placeOps (hcrc : ErasedInvalid crc32) {m : Memory}
    {log : List (List UInt8)} (h : Represents crc32 S m log) {n : ℕ}
    (hroom : used blockSize log + 8 ≤ n) (hn : n ≤ S.size) (dstLen : UInt32) :
    ∀ op ∈ placeOps crc32 S dstLen m (blockAddrs S.base log) (blockAddrs S.base log)
        (S.base + UInt32.ofNat (used blockSize log)) (S.base + UInt32.ofNat (used blockSize log)),
      ReadInside S.base n op := by
  have hpristine : Represents crc32 S (pristine S m (blockAddrs S.base log)) log := by
    by_cases hlog : blockAddrs S.base log = []
    · obtain rfl : log = [] := by
        rw [← List.length_eq_zero_iff, ← length_blockAddrs S.base log, hlog, List.length_nil]
      rw [pristine, if_pos hlog]
      exact Represents.of_erased (S.erased_wipe m)
    · rw [pristine, if_neg hlog]
      exact h
  have hnoread : ∀ (P : Prop) [Decidable P] (op : FlashOp),
      op ∈ (if P then [FlashOp.erase (flashAddrToSector S.base)] else []) →
        ReadInside S.base n op := by
    intro P _ op hop a ha
    split at hop
    · rw [List.mem_singleton.mp hop] at ha
      cases ha
    · cases hop
  intro op hop
  unfold placeOps at hop
  rw [List.mem_cons, List.mem_append, List.mem_append, List.mem_append] at hop
  rcases hop with rfl | hop | hop | hop | hop
  · intro a ha
    cases ha
  · exact (h.readInside hcrc hroom hn).2 op hop
  · exact hnoread _ op hop
  · exact (hpristine.readInside hcrc hroom hn).2 op hop
  · exact hnoread _ op hop

/-- Writing a block reads its data. -/
theorem readInside_storeOps {m : Memory} {base : UInt32} {n o : ℕ} {data : List UInt8}
    (h : o + blockSize data ≤ n) (hn : n ≤ 2 ^ 32) :
    ∀ op ∈ storeOps crc32 m (base + UInt32.ofNat o) data, ReadInside base n op := by
  have hsize : blockSize data = 12 + data.length := rfl
  intro op hop
  unfold storeOps headerOps at hop
  simp only [List.mem_append] at hop
  rcases hop with hop | (((hop | hop) | hop) | hop) | hop
  · exact readInside_writes _ _ _ _ op hop
  · exact readInside_writes _ _ _ _ op hop
  · exact readInside_writes _ _ _ _ op hop
  · rw [show configHeaderSize = UInt32.ofNat 12 from rfl, UInt32.add_assoc, ← UInt32.ofNat_add,
      UInt32.toNat_ofNat'] at hop
    refine readInside_reads base ?_ hn op hop
    exact (Nat.add_le_add_left (Nat.mod_le _ _) _).trans (by omega)
  · exact readInside_writes _ _ _ _ op hop
  · intro a ha
    rw [List.mem_singleton.mp hop] at ha
    cases ha

/-- **Saving** from a log that leaves eight bytes, whether it completes or not. -/
theorem readInside_configSave (hcrc : ErasedInvalid crc32) {dstLen : UInt32}
    (h12 : 12 ≤ dstLen.toNat) (hdst : dstLen.toNat ≤ S.size) (ns : ParameterNamespace) (fuel : ℕ)
    {s : FlashState} {log : List (List UInt8)} (h : Represents crc32 S s.mem log)
    (hroom : used blockSize log + 8 ≤ dstLen.toNat) :
    Program.AllOps (FlashState.step g) (ReadInside S.base dstLen.toNat)
      (configSave crc32 ns fuel S.base dstLen) s := by
  have hS := S.fits
  induction fuel generalizing s log with
  | zero =>
    intro op hop
    cases hop
  | succ fuel ih =>
    have hw := h.walk (h.end_invalid hcrc (Or.inl (by omega)))
    by_cases hf : (blockAddrs S.base log).length < fuel
    · have hoff : (S.base + UInt32.ofNat (used blockSize log) - S.base).toNat
          = used blockSize log := Memory.toNat_sub_base S.base (by omega)
      -- an attempt at a place inside the sector, and what follows it when it fails
      have hattempt : ∀ (P : Place) (o : ℕ), choosePlace S dstLen
          (pristine S s.mem (blockAddrs S.base log))
          (S.base + UInt32.ofNat (used blockSize log)) = P → P.dst = S.base + UInt32.ofNat o →
          12 ≤ P.len.toNat → o + P.len.toNat ≤ dstLen.toNat →
          Program.AllOps (FlashState.step g) (ReadInside S.base dstLen.toNat)
            (configSave crc32 ns (fuel + 1) S.base dstLen) s := by
        intro P o hP ho h12P hin
        by_cases hfits : Fits ns P.len
        · have hle := ((fits_iff h12P).mp hfits).2
          refine Program.AllOps.of_exec (exec_configSave_attempt hcrc (by omega) hw hf hP
            (exec_saveAt_success hfits (by omega) fuel dstLen P.mem)) (fun op hop => ?_)
          rcases List.mem_append.mp hop with hop | hop
          · exact h.readInside_placeOps hcrc hroom hdst dstLen op hop
          · rw [ho] at hop
            exact readInside_storeOps (by omega) (by omega) op hop
        · obtain ⟨m', t, hwrites, -, hex⟩ := exec_saveAt_retry (S := S) hfits fuel dstLen P.mem
          refine Program.AllOps.of_exec (exec_configSave_attempt hcrc (by omega) hw hf hP hex)
            (fun op hop => ?_)
          rcases List.mem_append.mp hop with hop | hop
          · exact h.readInside_placeOps hcrc hroom hdst dstLen op hop
          · rcases List.mem_append.mp hop with hop | hop
            · exact readInside_writesInto hwrites op hop
            · rcases List.mem_cons.mp hop with rfl | hop
              · intro a ha
                cases ha
              · rcases List.mem_cons.mp hop with rfl | hop
                · intro a ha
                  cases ha
                · exact ih (s := ⟨S.wipe m', true⟩) (Represents.of_erased (S.erased_wipe m'))
                    (by rw [used_nil]; omega) op hop
      by_cases ha : Appends S dstLen (blockAddrs S.base log)
          (S.base + UInt32.ofNat (used blockSize log))
      · have hlen := toNat_room (S := S) (hoff.le.trans (by omega : _ ≤ dstLen.toNat))
        rw [hoff] at hlen
        refine hattempt _ _ (choosePlace_of_appends ha) rfl (Nat.le_of_lt ha.lt_room) ?_
        show used blockSize log + (dstLen - _).toNat ≤ _
        rw [hlen]
        omega
      · exact hattempt _ 0 (choosePlace_of_not_appends hw ha) (UInt32.add_zero _).symm h12
          (by rw [Nat.zero_add])
    · -- the first search times out
      unfold configSave
      refine Program.AllOps.bind (fun op hop => ?_) (fun _ s' hr hs => ?_)
      · intro a ha
        rw [exec_flashUnlock, List.mem_singleton] at hop
        rw [hop] at ha
        cases ha
      · rw [exec_flashUnlock] at hs
        subst hs
        refine Program.AllOps.bind ?_ (fun last s' hr' _ => ?_)
        · exact findLastUsedLoop_allOps (s := ⟨s.mem, false⟩) g hw
            (h.readInside hcrc hroom hdst).2 fuel none
        · obtain ⟨as, e, hw', hf'⟩ := walk_of_findLastUsedLoop (s := ⟨s.mem, false⟩) g hr'
          rw [(hw.unique hw').1] at hf
          exact absurd hf' hf

/-- **Loading** from a log that leaves eight bytes. -/
theorem readInside_configLoad (hcrc : ErasedInvalid crc32) {τ : Type}
    (read : τ → List UInt8 → ℤ × τ) (ns : τ) (fuel : ℕ) {s : FlashState}
    {log : List (List UInt8)} (h : Represents crc32 S s.mem log) {n : ℕ}
    (hroom : used blockSize log + 8 ≤ n) (hn : n ≤ S.size) :
    Program.AllOps (FlashState.step g) (ReadInside S.base n)
      (configLoad crc32 read fuel ns S.base) s := by
  have hS := S.fits
  have hw := h.walk (h.end_invalid hcrc (Or.inl (by omega)))
  obtain ⟨hblocks, hreads⟩ := h.readInside hcrc hroom hn
  by_cases hf : (blockAddrs S.base log).length < fuel
  · refine Program.AllOps.of_exec (exec_configLoad g read ns hw hf) (fun op hop => ?_)
    rcases List.mem_append.mp hop with hop | hop
    · exact hreads op hop
    · -- the last block is one the walk passed
      cases hlast : (blockAddrs S.base log).getLast? with
      | none =>
        rw [hlast] at hop
        cases hop
      | some a =>
        rw [hlast] at hop
        obtain ⟨o, rfl, hlen⟩ := hblocks a (List.mem_of_getLast? hlast)
        rcases List.mem_append.mp hop with hop | hop
        · rw [show (4 : UInt32) = UInt32.ofNat 4 from rfl, UInt32.add_assoc,
            ← UInt32.ofNat_add] at hop
          exact readInside_reads S.base (by omega) (by omega) op hop
        · rw [show configHeaderSize = UInt32.ofNat 12 from rfl, UInt32.add_assoc,
            ← UInt32.ofNat_add] at hop
          exact readInside_reads S.base (by omega) (by omega) op hop
  · unfold configLoad
    refine Program.AllOps.bind (findLastUsedLoop_allOps g hw hreads fuel none)
      (fun last s' hr _ => ?_)
    obtain ⟨as, e, hw', hf'⟩ := walk_of_findLastUsedLoop g hr
    rw [(hw.unique hw').1] at hf
    exact absurd hf' hf

/-- **Every read of the store stays in the sector** when it is used in this
state: by the two searches, by loading into any tree and by saving any tree. -/
def EveryReadInside (crc32 : UInt32 → List UInt8 → UInt32) (S : Sector g) (dstLen : UInt32)
    (s : FlashState) : Prop :=
  (∀ fuel, Program.AllOps (FlashState.step g) (ReadInside S.base dstLen.toNat)
      (configBlockFindLastUsed crc32 fuel S.base) s)
    ∧ (∀ fuel, Program.AllOps (FlashState.step g) (ReadInside S.base dstLen.toNat)
      (configBlockFindFirstFree crc32 fuel S.base) s)
    ∧ (∀ (fuel : ℕ) (τ : Type) (read : τ → List UInt8 → ℤ × τ) (ns : τ),
      Program.AllOps (FlashState.step g) (ReadInside S.base dstLen.toNat)
        (configLoad crc32 read fuel ns S.base) s)
    ∧ ∀ (fuel : ℕ) (ns : ParameterNamespace),
      Program.AllOps (FlashState.step g) (ReadInside S.base dstLen.toNat)
        (configSave crc32 ns fuel S.base dstLen) s

/-- A search over a log in memory reads the header behind it. -/
theorem reads_behind_log (fuel : ℕ) {a : UInt32} {log : List (List UInt8)} {s : FlashState}
    (hlen : used blockSize log ≤ 2 ^ 32)
    (hlog : s.mem.peek a (used blockSize log) = logBytes crc32 log) {i : ℕ} (hi : i < 8) :
    .read (a + UInt32.ofNat (used blockSize log) + UInt32.ofNat i)
      ∈ (Program.exec (FlashState.step g)
          (configBlockFindFirstFree crc32 (fuel + 1 + log.length) a) s).trace := by
  induction log generalizing a with
  | nil =>
    rw [used_nil, show a + UInt32.ofNat 0 = a from UInt32.add_zero a]
    exact reads_mem_findFirstFree g hi
  | cons data log ih =>
    have hsize : blockSize data = 12 + data.length := rfl
    rw [used_cons] at hlen hlog
    rw [Memory.peek_add, logBytes_cons] at hlog
    obtain ⟨hblock, hrest⟩ := List.append_inj hlog (by simp)
    obtain ⟨hvalid, hl, -⟩ := blockValid_of_peek crc32 (by omega) hblock
    have hnext := nextBlock_of_length hl
    have hrec := ih (by omega) hrest
    rw [← hnext, nextBlock] at hrec
    have haddr : a + UInt32.ofNat (used blockSize (data :: log))
        = a + lengthAt s.mem a + configHeaderSize + UInt32.ofNat (used blockSize log) := by
      rw [used_cons, UInt32.ofNat_add, ← UInt32.add_assoc, ← hnext, nextBlock]
    rw [haddr, show fuel + 1 + (data :: log).length = fuel + 1 + log.length + 1 from rfl]
    simp only [configBlockFindFirstFree, Program.exec_bind, exec_configBlockIsValid,
      Outcome.andThen_some, hvalid, decide_true, if_true, exec_configBlockGetLength]
    exact List.mem_append.mpr (Or.inr (List.mem_append.mpr (Or.inr hrec)))

/-- **The reads stay in the sector exactly when the log leaves eight bytes.** -/
theorem everyReadInside_iff (hcrc : ErasedInvalid crc32) {dstLen : UInt32}
    (h12 : 12 ≤ dstLen.toNat) (hdst : dstLen.toNat = S.size) {s : FlashState}
    {log : List (List UInt8)} (h : Represents crc32 S s.mem log) :
    EveryReadInside crc32 S dstLen s ↔ used blockSize log + 8 ≤ dstLen.toNat := by
  have hfits := h.fits
  have hlt := dstLen.toNat_lt
  constructor
  · rintro ⟨-, hfree, -, -⟩
    by_contra hfull
    have hread : FlashOp.read _ ∈ _ := reads_behind_log (g := g) 0 (s := s) h.size_le
      h.peek_log (i := dstLen.toNat - used blockSize log) (by omega)
    have hin := hfree _ _ hread _ rfl
    rw [UInt32.add_assoc, ← UInt32.ofNat_add, Memory.toNat_sub_base S.base (by omega)] at hin
    omega
  · intro hroom
    have hw := h.walk (h.end_invalid hcrc (Or.inl (by omega)))
    have hreads := (h.readInside hcrc hroom hdst.le).2
    exact ⟨fun fuel => findLastUsedLoop_allOps g hw hreads fuel none,
      fun fuel => findFirstFree_allOps g hw hreads fuel,
      fun fuel τ read ns => readInside_configLoad hcrc read ns fuel h hroom hdst.le,
      fun fuel ns => readInside_configSave hcrc h12 hdst.le ns fuel h hroom⟩

/-! ## Runs of completed saves -/

/-- A run of completed saves is a `pushAll` as long as every log on the way leaves
eight bytes, whatever is in memory past the end of the sector. -/
theorem Holds.run_of_room (hcrc : ErasedInvalid crc32) {dstLen : UInt32}
    (h12 : 12 ≤ dstLen.toNat) (hdst : dstLen.toNat ≤ S.size) {outside : Memory}
    {log : List (List UInt8)} {nss : List ParameterNamespace} {s s' : FlashState}
    {t : List FlashOp} (h : Holds crc32 S dstLen.toNat outside s.mem log)
    (hroom : ∀ nss', nss' <+: nss →
      used blockSize (pushAll blockSize dstLen.toNat log (nss'.map ParameterNamespace.enc)) + 8
        ≤ dstLen.toNat)
    (hs : Saves crc32 S s (requests dstLen nss) s' t) :
    Holds crc32 S dstLen.toNat outside s'.mem
      (pushAll blockSize dstLen.toNat log (nss.map ParameterNamespace.enc)) := by
  induction nss generalizing s log t with
  | nil =>
    cases hs
    exact h
  | cons ns nss ih =>
    cases hs with
    | cons _ hsave hrest =>
      have hhere := hroom [] List.nil_prefix
      rw [List.map_nil, pushAll_nil] at hhere
      refine ih (h.step hcrc h12 hdst (Or.inl (by omega)) hsave).1 (fun nss' hpre => ?_) hrest
      exact hroom (ns :: nss') (List.cons_prefix_cons.mpr ⟨rfl, hpre⟩)

/-- If the reads stay in the sector throughout a run, every log on the way leaves
eight bytes. -/
theorem Holds.room_of_run (hcrc : ErasedInvalid crc32) {dstLen : UInt32}
    (h12 : 12 ≤ dstLen.toNat) (hdst : dstLen.toNat = S.size) {outside : Memory}
    {log : List (List UInt8)} {nss : List ParameterNamespace} {s s' : FlashState}
    {t : List FlashOp} (h : Holds crc32 S dstLen.toNat outside s.mem log)
    (hs : Saves crc32 S s (requests dstLen nss) s' t)
    (hreads : ∀ nss' s₁ t₁, nss' <+: nss → Saves crc32 S s (requests dstLen nss') s₁ t₁ →
      EveryReadInside crc32 S dstLen s₁) (nss' : List ParameterNamespace) (hpre : nss' <+: nss) :
    used blockSize (pushAll blockSize dstLen.toNat log (nss'.map ParameterNamespace.enc)) + 8
      ≤ dstLen.toNat := by
  induction nss generalizing s log t nss' with
  | nil =>
    obtain rfl := List.prefix_nil.mp hpre
    exact (everyReadInside_iff hcrc h12 hdst h.represents).mp
      (hreads [] s [] List.nil_prefix SavesWith.nil)
  | cons ns nss ih =>
    have hhere := (everyReadInside_iff hcrc h12 hdst h.represents).mp
      (hreads [] s [] List.nil_prefix SavesWith.nil)
    cases nss' with
    | nil => exact hhere
    | cons ns' nss' =>
      obtain ⟨rfl, htail⟩ := List.cons_prefix_cons.mp hpre
      cases hs with
      | cons _ hsave hrest =>
        have hroom : used blockSize log + 8 ≤ S.size := hhere.trans hdst.le
        refine ih (h.step hcrc h12 hdst.le (Or.inl hroom) hsave).1 hrest
          (fun nss'' s₁ t₁ htail' hrun => ?_) nss' htail
        exact hreads _ s₁ _ (List.cons_prefix_cons.mpr ⟨rfl, htail'⟩)
          (SavesWith.cons trivial hsave hrun)

/-- In a sector too short for a header the store reads past the end from the
start. -/
theorem not_everyReadInside_short (hcrc : ErasedInvalid crc32) {dstLen : UInt32}
    (h12 : dstLen.toNat < 12) (hdst : dstLen.toNat = S.size) {s : FlashState}
    (h : s.mem.Erased S.base S.size) : ¬ EveryReadInside crc32 S dstLen s := by
  rintro ⟨-, hfree, -, hsave⟩
  by_cases h8 : dstLen.toNat < 8
  · -- the first header does not fit
    have hin := hfree 1 _ (reads_mem_findFirstFree g h8) _ rfl
    rw [Memory.toNat_sub_base S.base (by omega)] at hin
    omega
  · -- a save takes the room behind the header for huge, and reads its data back
    have hw : Walk crc32 s.mem S.base [] S.base :=
      Walk.stop (not_blockValid_of_erased hcrc (fun i hi => h i (by omega)))
    have hfits : Fits emptyTree dstLen := by
      refine ⟨⟨by decide, trivial⟩, ?_⟩
      have hwrap : (dstLen - configHeaderSize).toNat = 2 ^ 32 + dstLen.toNat - 12 := by
        rw [UInt32.toNat_sub, show configHeaderSize.toNat = 12 from rfl]
        omega
      rw [hwrap, show emptyTree.enc.length = 1 from rfl]
      omega
    have hex := exec_configSave_attempt (s := s) hcrc (by omega) hw (Nat.succ_pos 0)
      (choosePlace_of_not_appends hw (fun ha => ha.1 rfl))
      (exec_saveAt_success hfits (by decide) 1 dstLen _)
    have hmem : FlashOp.read (S.base + configHeaderSize + UInt32.ofNat 0)
        ∈ storeOps crc32 (S.wipe s.mem) S.base emptyTree.enc := by
      unfold storeOps headerOps
      refine List.mem_append.mpr (Or.inr (List.mem_append.mpr (Or.inl ?_)))
      refine List.mem_append.mpr (Or.inl (List.mem_append.mpr (Or.inr ?_)))
      exact mem_reads.mpr ⟨0, by decide, rfl⟩
    have hin := hsave (Nat.succ 0 + 1) emptyTree
    unfold Program.AllOps at hin
    rw [hex] at hin
    have hlt := hin _ (List.mem_append.mpr (Or.inr hmem)) _ rfl
    rw [UInt32.add_assoc, show configHeaderSize + UInt32.ofNat 0 = UInt32.ofNat 12 from rfl,
      Memory.toNat_sub_base S.base (by omega)] at hlt
    omega

/-- **Every read of the store stays in the sector**, in every state a run of
completed saves passes through, exactly when a header fits in the sector and
each log on the way leaves eight bytes of it. -/
theorem everyReadInside_run_iff (crc32 : UInt32 → List UInt8 → UInt32)
    (hcrc : ErasedInvalid crc32) (S : Sector g) (dstLen : UInt32) (hdst : dstLen.toNat = S.size)
    (s₀ : FlashState) (herased : s₀.mem.Erased S.base S.size) (nss : List ParameterNamespace)
    (s : FlashState) (t : List FlashOp) (hrun : Saves crc32 S s₀ (requests dstLen nss) s t) :
    (∀ nss' s' t', nss' <+: nss → Saves crc32 S s₀ (requests dstLen nss') s' t' →
        EveryReadInside crc32 S dstLen s')
      ↔ 12 ≤ dstLen.toNat ∧ ∀ nss', nss' <+: nss →
        used blockSize (pushAll blockSize dstLen.toNat [] (nss'.map ParameterNamespace.enc)) + 8
          ≤ dstLen.toNat := by
  have hstart : Holds crc32 S dstLen.toNat s₀.mem s₀.mem [] := Holds.of_erased _ herased
  constructor
  · intro hreads
    have h12 : 12 ≤ dstLen.toNat := by
      by_contra hshort
      exact not_everyReadInside_short hcrc (Nat.lt_of_not_le hshort) hdst herased
        (hreads [] s₀ [] List.nil_prefix SavesWith.nil)
    exact ⟨h12, hstart.room_of_run hcrc h12 hdst hrun hreads⟩
  · rintro ⟨h12, hroom⟩ nss' s' t' hpre hrun'
    have hholds := hstart.run_of_room hcrc h12 hdst.le
      (fun nss'' hpre' => hroom nss'' (hpre'.trans hpre)) hrun'
    exact (everyReadInside_iff hcrc h12 hdst hholds.represents).mpr (hroom nss' hpre)

end Sector

theorem everyReadInside_run_iff_emptyTree :
    ∃ s t, Saves crc32 configSector erasedFlash (requests 0x20000 [emptyTree]) s t
      ∧ EveryReadInside crc32 configSector 0x20000 s := by
  obtain ⟨s, t, hsave, -⟩ := save_erasedFlash emptyTree ⟨by decide, trivial⟩ (by decide)
  have hrun : Saves crc32 configSector erasedFlash (requests 0x20000 [emptyTree]) s (t ++ []) :=
    SavesWith.cons trivial hsave SavesWith.nil
  refine ⟨s, t ++ [], hrun, ?_⟩
  refine (everyReadInside_run_iff crc32 erasedInvalid_crc32 configSector 0x20000 rfl erasedFlash
    (fun _ _ => rfl) [emptyTree] s _ hrun).mpr ⟨by decide, fun nss' hpre => ?_⟩
    [emptyTree] s _ List.prefix_rfl hrun
  -- no save, or one
  rcases List.prefix_cons_iff.mp hpre with rfl | ⟨nss', rfl, hnil⟩
  · decide
  · obtain rfl := List.prefix_nil.mp hnil
    decide

/-- **A tree that fills the sector** makes every search read past its end: 131060
bytes and their header are the 128 KiB. -/
theorem not_everyReadInside_full :
    ∃ s t, Saves crc32 configSector erasedFlash
        (requests 0x20000 [zeroTree 131059 (by decide)]) s t
      ∧ ¬ EveryReadInside crc32 configSector 0x20000 s := by
  have hlen := length_enc_zeroTree (n := 131059) (by decide)
  obtain ⟨s, t, hsave, hholds⟩ := save_erasedFlash _
    (noEmptyWrite_zeroTree (n := 131059) (by decide)) (by rw [hlen])
  refine ⟨s, t ++ [], SavesWith.cons trivial hsave SavesWith.nil, ?_⟩
  rw [everyReadInside_iff erasedInvalid_crc32 (by decide) rfl hholds.represents, used_cons,
    used_nil, blockSize, hlen]
  decide

end ConfigStore
