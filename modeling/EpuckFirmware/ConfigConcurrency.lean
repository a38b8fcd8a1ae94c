import EpuckFirmware.ConfigDirtySector
import EpuckFirmware.ConfigWrites
import EpuckFirmware.FlashTurns

/-!
# Two saves at the same time

The shell and the virtual machine may both save the configuration. Nothing keeps the two
calls apart: each begins by looking for the first free block, and locks the flash when it is
done, also while the other one programs. If they take turns behind the blocks that are there
(`TakesTurns`), and neither locks the flash while the other still has to write, both blocks
are stored, one behind the other.
-/

namespace ConfigStore

open BoundedLog FlashTurns StepMachine History Shared

variable {g : Geometry}

/-- **The two calls on a device.** -/
def concurrentSaves (crc32 : UInt32 → List UInt8 → UInt32) (S : Sector g)
    (ns : Saver → ParameterNamespace) (dstLen : Saver → UInt32) (fuel : Saver → ℕ)
    (s : FlashState) : Shared FlashOp.Reply Unit FlashState Saver :=
  ⟨s, fun who => configSave crc32 (ns who) (fuel who) S.base (dstLen who)⟩

/-- The room that the blocks of both calls take. -/
def bothSizes (ns : Saver → ParameterNamespace) : ℕ :=
  used blockSize [(ns .shell).enc, (ns .aseba).enc]

/-- **The store is not corrupted**: the flash was unlocked for every erase and program, and
after both calls loading hands over what one of them wrote. -/
def KeepsStore (crc32 : UInt32 → List UInt8 → UInt32) (S : Sector g)
    (ns : Saver → ParameterNamespace) (s : FlashTurns.Recorded Saver) : Prop :=
  WritesUnlocked s.2
    ∧ ((∀ who, s.1.program who = .done ()) →
      ∃ who, LoadHands crc32 g s.1.device S.base (some (ns who).enc))

section Calls

variable {S : Sector g} {crc32 : UInt32 → List UInt8 → UInt32} {n : ℕ}

/-! ## What a call does alone -/

theorem keeps_writes {o : ℕ} (hn : n ≤ o) {bs : List UInt8} (hfits : o + bs.length ≤ 2 ^ 32) :
    ∀ x ∈ writes (S.base + UInt32.ofNat o) bs, x.Keeps S n := by
  intro x hx
  obtain ⟨⟨a, b⟩, hp, rfl⟩ := List.mem_map.mp hx
  obtain ⟨i, hi, rfl, -⟩ := Memory.mem_cells.mp hp
  show n ≤ (S.base + UInt32.ofNat o + UInt32.ofNat i - S.base).toNat
  rw [UInt32.add_assoc, ← UInt32.ofNat_add, Memory.toNat_sub_base S.base (by omega)]
  omega

theorem keeps_of_read {o : FlashOp} (h : ∃ a, o = .read a) : o.Keeps S n := by
  obtain ⟨a, rfl⟩ := h
  trivial

/-- **Looking for a place** erases the sector only if the block is not appended. -/
theorem keeps_placeOps {dstLen : UInt32} {m : Memory} {as as' : List UInt32} {e e' : UInt32}
    (h : n = 0 ∨ as ≠ [] ∧ ¬ dstLen - (e' - S.base) ≤ configHeaderSize) :
    ∀ o ∈ placeOps crc32 S dstLen m as as' e e', o.Keeps S n := by
  have herase : ∀ (p : Prop) [Decidable p], (n = 0 ∨ ¬ p) →
      ∀ o ∈ (if p then [FlashOp.erase (flashAddrToSector S.base)] else []), o.Keeps S n := by
    intro p _ hp o ho
    split at ho
    · rw [List.mem_singleton.mp ho]
      exact hp.resolve_right (fun hno => hno ‹_›)
    · cases ho
  intro o ho
  unfold placeOps at ho
  rcases List.mem_cons.mp ho with rfl | ho
  · trivial
  · rcases List.mem_append.mp ho with ho | ho
    · exact keeps_of_read (read_of_mem_walkReads ho)
    · rcases List.mem_append.mp ho with ho | ho
      · exact herase _ (h.imp_right And.left) o ho
      · rcases List.mem_append.mp ho with ho | ho
        · exact keeps_of_read (read_of_mem_walkReads ho)
        · exact herase _ (h.imp_right And.right) o ho

/-- **Writing a block** behind the first bytes. -/
theorem keeps_storeOps (m : Memory) {o : ℕ} {data : List UInt8} (hn : n ≤ o)
    (hfits : o + blockSize data ≤ 2 ^ 32) :
    ∃ u, storeOps crc32 m (S.base + UInt32.ofNat o) data = u ++ [.lock]
      ∧ (∀ x ∈ u, x.Keeps S n) ∧ (data ≠ [] → ∃ x ∈ u, x.Modifies) := by
  have hsize : blockSize data = 12 + data.length := rfl
  have hoff : ∀ k : ℕ,
      S.base + UInt32.ofNat o + UInt32.ofNat k = S.base + UInt32.ofNat (o + k) := by
    intro k
    rw [UInt32.add_assoc, ← UInt32.ofNat_add]
  have h4 : S.base + UInt32.ofNat o + 4 = S.base + UInt32.ofNat (o + 4) := hoff 4
  have h8 : S.base + UInt32.ofNat o + 8 = S.base + UInt32.ofNat (o + 8) := hoff 8
  have h12 : S.base + UInt32.ofNat o + configHeaderSize = S.base + UInt32.ofNat (o + 12) := hoff 12
  refine ⟨_, (List.append_assoc _ _ _).symm, fun x hx => ?_, fun hne => ?_⟩
  · unfold headerOps at hx
    rw [h4, h8, h12] at hx
    simp only [List.mem_append] at hx
    obtain hx | ((hx | hx) | hx) | hx := hx
    · exact keeps_writes (by omega) (by omega) x hx
    · exact keeps_writes hn (by rw [length_leBytes]; omega) x hx
    · exact keeps_writes (by omega) (by rw [length_leBytes]; omega) x hx
    · exact keeps_of_read (read_of_mem_reads hx)
    · exact keeps_writes (by omega) (by rw [length_leBytes]; omega) x hx
  · obtain ⟨b, bs, rfl⟩ := List.exists_cons_of_ne_nil hne
    refine ⟨.program (S.base + UInt32.ofNat o + configHeaderSize) b, ?_, trivial⟩
    exact List.mem_append_left _ List.mem_cons_self

/-- The room that a call finds behind a log, if its length covers the block or the log is
longer, where the room wraps. -/
theorem blockSize_le_room {dstLen : UInt32} {o size : ℕ} (ho : o < 2 ^ 32)
    (hsize : o + size ≤ 2 ^ 32) (hroom : o + size ≤ dstLen.toNat ∨ dstLen.toNat < o) :
    size ≤ (dstLen - (S.base + UInt32.ofNat o - S.base)).toNat := by
  rcases hroom with hroom | hwraps
  · rw [toNat_room (by rw [Memory.toNat_sub_base S.base ho]; omega),
      Memory.toNat_sub_base S.base ho]
    omega
  · rw [toNat_wrapped_room ho hwraps]
    omega

/-- **A call on its own** stores its block behind the log, and leaves the log alone. -/
theorem locks_configSave (hcrc : ErasedInvalid crc32) {outside m : Memory}
    {log : List (List UInt8)} (h : Holds crc32 S S.size outside m log)
    (hend : used blockSize log + 8 ≤ S.size ∨ NoHeaderPastEnd crc32 S outside)
    {ns : ParameterNamespace} {dstLen : UInt32} (hne : ns.writer.NoEmptyWrite)
    (hsize : used blockSize log + blockSize ns.enc ≤ S.size)
    (hroom : used blockSize log + blockSize ns.enc ≤ dstLen.toNat
      ∨ dstLen.toNat < used blockSize log)
    {fuel : ℕ} (hfuel : log.length + 1 < fuel) (hn : n ≤ used blockSize log) :
    ∃ m' u, Locks g (configSave crc32 ns fuel S.base dstLen) m m' u ∧ (∀ o ∈ u, o.Keeps S n)
      ∧ (∃ o ∈ u, o.Modifies) ∧ Holds crc32 S S.size outside m' (log ++ [ns.enc]) := by
  have hS := S.fits
  have hblock : blockSize ns.enc = 12 + ns.enc.length := rfl
  have hpos : 0 < ns.enc.length := List.length_pos_iff.mpr ns.nonempty
  have hw := h.walk hcrc hend
  have hlen := length_blockAddrs S.base log
  have hfinds := blockSize_le_room (S := S) (by omega) (by omega) hroom
  -- the place is behind the log, in the erased sector if there is no log
  obtain ⟨m₁, len, hplace, hfits, hholds, herases⟩ : ∃ m₁ len,
      choosePlace S dstLen (pristine S m (blockAddrs S.base log))
          (S.base + UInt32.ofNat (used blockSize log))
        = ⟨m₁, S.base + UInt32.ofNat (used blockSize log), len⟩
        ∧ Fits ns len ∧ Holds crc32 S S.size outside m₁ log
        ∧ (n = 0 ∨ blockAddrs S.base log ≠ [] ∧ ¬ dstLen
          - (S.base + UInt32.ofNat (used blockSize log) - S.base) ≤ configHeaderSize) := by
    by_cases hlog : log = []
    · subst hlog
      have hcovers : blockSize ns.enc ≤ dstLen.toNat := by
        rw [used_nil] at hroom
        omega
      refine ⟨S.wipe m, dstLen, ?_, (fits_iff (by omega)).mpr ⟨hne, hcovers⟩, h.wipe,
        Or.inl (Nat.le_zero.mp hn)⟩
      rw [used_nil, show S.base + UInt32.ofNat 0 = S.base from UInt32.add_zero _]
      rw [used_nil, show S.base + UInt32.ofNat 0 = S.base from UInt32.add_zero _] at hw
      exact choosePlace_of_not_appends hw (fun happends => happends.1 rfl)
    · have happends : Appends S dstLen (blockAddrs S.base log)
          (S.base + UInt32.ofNat (used blockSize log)) := by
        refine ⟨blockAddrs_ne_nil S.base hlog, ?_⟩
        rw [UInt32.le_iff_toNat_le, show configHeaderSize.toNat = 12 from rfl]
        omega
      exact ⟨m, _, choosePlace_of_appends happends, (fits_iff (by omega)).mpr ⟨hne, hfinds⟩, h,
        Or.inr happends⟩
  obtain ⟨u, hu, hkeeps, hmodifies⟩ : ∃ u,
      storeOps crc32 m₁ (S.base + UInt32.ofNat (used blockSize log)) ns.enc = u ++ [.lock]
        ∧ (∀ x ∈ u, x.Keeps S n) ∧ (ns.enc ≠ [] → ∃ x ∈ u, x.Modifies) :=
    keeps_storeOps m₁ hn (by omega)
  obtain ⟨o, ho, hmodify⟩ := hmodifies ns.nonempty
  obtain ⟨k, rfl⟩ : ∃ k, fuel = k + 1 := ⟨fuel - 1, by omega⟩
  refine ⟨storeBlock crc32 m₁ (S.base + UInt32.ofNat (used blockSize log)) ns.enc,
    placeOps crc32 S dstLen m (blockAddrs S.base log) (blockAddrs S.base log)
      (S.base + UInt32.ofNat (used blockSize log))
      (S.base + UInt32.ofNat (used blockSize log)) ++ u,
    ?_, fun x hx => ?_, ⟨o, List.mem_append_right _ ho, hmodify⟩,
    hholds.storeBlock (Nat.le_refl _) hsize⟩
  · have h8 : 8 ≤ S.size := by omega
    have hwalked : (blockAddrs S.base log).length < k := by omega
    have hstore : Program.exec (FlashState.step g) (saveAt crc32 ns k S.base dstLen
        (S.base + UInt32.ofNat (used blockSize log)) len) ⟨m₁, false⟩ = _ :=
      exec_saveAt_success hfits (by omega) k dstLen m₁
    unfold Locks
    rw [List.append_assoc, ← hu]
    exact exec_configSave_attempt hcrc h8 (s := ⟨m, false⟩) hw hwalked hplace hstore
  · rcases List.mem_append.mp hx with hx | hx
    · exact keeps_placeOps herases x hx
    · exact hkeeps x hx

/-! ## Both calls -/

/-- What a call finds behind the log and the blocks of the calls before it. -/
theorem used_order (ns : Saver → ParameterNamespace) {order : List Saver} {who : Saver}
    (hnodup : order.Nodup) (hwho : who ∉ order) :
    order.length ≤ 1
      ∧ used blockSize (order.map (fun x => (ns x).enc)) + blockSize (ns who).enc
        ≤ bothSizes ns := by
  have hboth : bothSizes ns = blockSize (ns .shell).enc + blockSize (ns .aseba).enc := by
    unfold bothSizes
    rw [used_cons, used_cons, used_nil, Nat.add_zero]
  match order with
  | [] =>
    rw [hboth, List.map_nil, used_nil, Nat.zero_add]
    refine ⟨by decide, ?_⟩
    cases who with
    | shell => exact Nat.le_add_right _ _
    | aseba => exact Nat.le_add_left _ _
  | [x] =>
    rw [hboth, List.map_singleton, used_cons, used_nil, Nat.add_zero]
    refine ⟨Nat.le_refl 1, ?_⟩
    cases x with
    | shell =>
      cases who with
      | shell => exact absurd (List.mem_singleton_self _) hwho
      | aseba => exact Nat.le_refl _
    | aseba =>
      cases who with
      | shell => exact Nat.le_of_eq (Nat.add_comm _ _)
      | aseba => exact absurd (List.mem_singleton_self _) hwho
  | x :: y :: order =>
    have hxy : x ≠ y := fun heq => (List.nodup_cons.mp hnodup).1 (by rw [heq]; simp)
    have hx : who ≠ x := fun heq => hwho (by rw [heq]; simp)
    have hy : who ≠ y := fun heq => hwho (by rw [heq]; simp)
    revert hxy hx hy
    cases x <;> cases y <;> cases who <;> simp

/-- The blocks behind the log, in the order in which they were stored. -/
def StoredBehind (crc32 : UInt32 → List UInt8 → UInt32) (S : Sector g) (m₀ : Memory)
    (log : List (List UInt8)) (ns : Saver → ParameterNamespace) (order : List Saver)
    (m : Memory) : Prop :=
  order.Nodup ∧ Holds crc32 S S.size m₀ m (log ++ order.map (fun who => (ns who).enc))

/-- **The calls store their blocks one behind the other**, each on its own. -/
theorem storesAlone_configSave (hcrc : ErasedInvalid crc32) {m₀ : Memory}
    {log : List (List UInt8)} (hlog : Represents crc32 S m₀ log)
    {ns : Saver → ParameterNamespace} (hne : ∀ who, (ns who).writer.NoEmptyWrite)
    (hsize : used blockSize log + bothSizes ns ≤ S.size)
    (hend : used blockSize log + bothSizes ns + 8 ≤ S.size ∨ NoHeaderPastEnd crc32 S m₀)
    {dstLen : Saver → UInt32}
    (hroom : ∀ who, used blockSize log + bothSizes ns ≤ (dstLen who).toNat
      ∨ (dstLen who).toNat < used blockSize log)
    {fuel : Saver → ℕ} (hfuel : ∀ who, log.length + 2 < fuel who) :
    StoresAlone S (used blockSize log) m₀
      (fun who => configSave crc32 (ns who) (fuel who) S.base (dstLen who))
      (StoredBehind crc32 S m₀ log ns) where
  start := by
    refine ⟨List.nodup_nil, ?_, ?_, fun _ _ => rfl⟩
    · rw [List.map_nil, List.append_nil]
      exact hlog
    · rw [List.map_nil, List.append_nil]
      exact hlog.fits
  unlocks who := by
    obtain ⟨k, hk⟩ : ∃ k, fuel who = k + 1 := ⟨fuel who - 1, by have := hfuel who; omega⟩
    rw [hk]
    rfl
  stores {order m who} hstored hwho := by
    obtain ⟨hnodup, hholds⟩ := hstored
    obtain ⟨hlength, hboth⟩ := used_order ns hnodup hwho
    have hused : used blockSize (log ++ order.map (fun x => (ns x).enc))
        = used blockSize log + used blockSize (order.map (fun x => (ns x).enc)) := used_append _ _
    have hroom := hroom who
    have hfuel := hfuel who
    have hfinds : used blockSize (log ++ order.map (fun x => (ns x).enc))
          + blockSize (ns who).enc ≤ (dstLen who).toNat
        ∨ (dstLen who).toNat < used blockSize (log ++ order.map (fun x => (ns x).enc)) := by
      omega
    have hwalked : (log ++ order.map (fun x => (ns x).enc)).length + 1 < fuel who := by
      rw [List.length_append, List.length_map]
      omega
    obtain ⟨m', u, hlocks, hkeeps, hmodifies, hholds'⟩ := locks_configSave (n := used blockSize log)
      hcrc hholds (hend.imp_left (fun hend => by omega)) (hne who) (by omega) hfinds hwalked
      (by omega)
    refine ⟨m', u, hlocks, hkeeps, hmodifies, ?_, ?_⟩
    · rw [List.nodup_append]
      refine ⟨hnodup, List.nodup_singleton who, fun x hx y hy => ?_⟩
      rintro rfl
      rw [List.mem_singleton.mp hy] at hx
      exact hwho hx
    · rw [List.map_append, ← List.append_assoc]
      exact hholds'

/-- **Two saves at the same time do not corrupt the store** if the calls take turns behind the
log that the sector holds, and it has room for both blocks. Each call comes to its end. -/
theorem concurrent_saves_keep_store (crc32 : UInt32 → List UInt8 → UInt32)
    (hcrc : ErasedInvalid crc32) (S : Sector g) (log : List (List UInt8)) (s₀ : FlashState)
    (hlog : Represents crc32 S s₀.mem log) (ns : Saver → ParameterNamespace)
    (hne : ∀ who, (ns who).writer.NoEmptyWrite)
    (hsize : used blockSize log + bothSizes ns ≤ S.size)
    (hend : used blockSize log + bothSizes ns + 8 ≤ S.size ∨ NoHeaderPastEnd crc32 S s₀.mem)
    (dstLen : Saver → UInt32)
    (hroom : ∀ who, used blockSize log + bothSizes ns ≤ (dstLen who).toNat
      ∨ (dstLen who).toNat < used blockSize log)
    (fuel : Saver → ℕ) (hfuel : ∀ who, log.length + 2 < fuel who) (whos : List Saver)
    (s : FlashTurns.Recorded Saver)
    (hrun : Runs (recorded (turn (FlashState.step g)) shows)
      (TakesTurns S (used blockSize log)) (concurrentSaves crc32 S ns dstLen fuel s₀, []) whos s) :
    KeepsStore crc32 S ns s ∧ ∀ who, s.1.program who ≠ .timeout := by
  have hstores := storesAlone_configSave hcrc hlog hne hsize hend hroom hfuel
  obtain ⟨order, inside, hs⟩ := Turns.run hstores hrun
  refine ⟨⟨hs.writes, fun hdone => ?_⟩, hs.not_timeout hstores⟩
  obtain ⟨⟨hnodup, hholds⟩, hall⟩ := hs.stored hstores hdone
  obtain rfl | ⟨order, who, rfl⟩ := List.eq_nil_or_concat order
  · exact absurd (hall .shell) (by simp)
  · -- loading hands over the block that was stored last
    rw [List.concat_eq_append] at hnodup hholds
    have hwho : who ∉ order := fun hmem =>
      (List.nodup_append.mp hnodup).2.2 who hmem who (List.mem_singleton_self who) rfl
    obtain ⟨-, hboth⟩ := used_order ns (List.nodup_append.mp hnodup).1 hwho
    have hused : used blockSize (log ++ (order ++ [who]).map (fun x => (ns x).enc))
        = used blockSize log + (used blockSize (order.map (fun x => (ns x).enc))
          + blockSize (ns who).enc) := by
      rw [List.map_append, List.map_singleton, used_append, used_append, used_cons, used_nil,
        Nat.add_zero]
    have hlast : (log ++ (order ++ [who]).map (fun x => (ns x).enc)).getLast?
        = some (ns who).enc := by
      rw [List.map_append, ← List.append_assoc, List.map_singleton, List.getLast?_concat]
    have hload := hholds.represents.loadHands (s := s.1.device)
      (hholds.end_invalid hcrc (hend.imp_left (fun hend => by omega)))
    rw [hlast] at hload
    exact ⟨who, hload⟩

end Calls

/-! ## A flag that is saved by both -/

/-- The shell saves the flag as true, and the virtual machine as false. -/
def flagTrees (who : Saver) : ParameterNamespace := flagTree (who == .shell)

/-- **The device after the flag was saved once**, and the two calls on it. -/
theorem exists_saved_flag :
    ∃ s₁ t, CompletedSave crc32 configSector (0x20000, flagTree false) erasedFlash s₁ t
      ∧ Represents crc32 configSector s₁.mem [(flagTree false).enc]
      ∧ StoresAlone configSector 16 s₁.mem
        (fun who => configSave crc32 (flagTrees who) 4 configSector.base who.dstLen)
        (StoredBehind crc32 configSector s₁.mem [(flagTree false).enc] flagTrees) := by
  obtain ⟨s₁, t, hsave, hholds⟩ := save_erasedFlash _ (noEmptyWrite_flagTree false) (by decide)
  refine ⟨s₁, t, hsave, hholds.represents, ?_⟩
  exact storesAlone_configSave erasedInvalid_crc32 hholds.represents
    (fun who => noEmptyWrite_flagTree _) (by decide) (Or.inl (by decide))
    (fun who => Or.inl (by cases who <;> decide)) (fun _ => by decide)

/-- The shell saves the flag, and then the virtual machine. -/
theorem concurrent_saves_keep_store_flag :
    ∃ s₁ whos s, Runs (recorded (turn (FlashState.step flashGeometry)) shows)
        (TakesTurns configSector 16)
        (concurrentSaves crc32 configSector flagTrees Saver.dstLen (fun _ => 4) s₁, []) whos s
      ∧ (∀ who, s.1.program who = .done ())
      ∧ ∃ who, LoadHands crc32 flashGeometry s.1.device configSector.base
        (some (flagTrees who).enc) := by
  obtain ⟨s₁, t, -, hlog, hstores⟩ := exists_saved_flag
  obtain ⟨whos, s, hruns, hshell, haseba⟩ :=
    exists_runs_takesTurns hstores (show Saver.shell ≠ Saver.aseba by decide) s₁.locked
  have hdone : ∀ who, s.1.program who = .done () := by
    intro who
    cases who with
    | shell => exact hshell
    | aseba => exact haseba
  have hkeeps := concurrent_saves_keep_store crc32 erasedInvalid_crc32 configSector
    [(flagTree false).enc] s₁ hlog flagTrees (fun who => noEmptyWrite_flagTree _) (by decide)
    (Or.inl (by decide)) Saver.dstLen (fun who => Or.inl (by cases who <;> decide)) (fun _ => 4)
    (fun _ => by decide) whos s hruns
  exact ⟨s₁, whos, s, hruns, hdone, hkeeps.1.2 hdone⟩

/-- The virtual machine is about to program its first byte when the shell saves the flag and
locks the flash. -/
theorem not_concurrent_saves_keep_store :
    ¬ ∀ (s₁ : FlashState) (t : List FlashOp) (whos : List Saver) (s : FlashTurns.Recorded Saver),
      CompletedSave crc32 configSector (0x20000, flagTree false) erasedFlash s₁ t →
      run (recorded (turn (FlashState.step flashGeometry)) shows)
        (concurrentSaves crc32 configSector flagTrees Saver.dstLen (fun _ => 4) s₁, []) whos
          = .ok s →
      KeepsStore crc32 configSector flagTrees s := by
  intro h
  obtain ⟨s₁, t, hsave, -, hstores⟩ := exists_saved_flag
  obtain ⟨whos, s, hrun, hlocked⟩ :=
    exists_run_writes_locked hstores (show Saver.aseba ≠ Saver.shell by decide) s₁.locked
  exact hlocked (h s₁ t whos s hsave hrun).1

end ConfigStore
