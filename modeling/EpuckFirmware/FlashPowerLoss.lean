import EpuckFirmware.ConfigConcurrency
import EpuckFirmware.ConfigPowerLoss
import EpuckFirmware.FlashRegisters

/-!
# Power loss on the registers of the flash controller

A reset can hit between any two accesses of the driver to the controller, not only between
two bytes. What the flash holds then is what it holds at some point of the same save on the
device that the driver offers, and there the log is as it was or one block longer.

After the reset the controller is locked again and `PG` is cleared, and loading through the
registers hands over what was saved before or what was being saved, whole.
-/

namespace ConfigStore

open BoundedLog FlashRegisters Program

section Runs

variable {g : Geometry} {S : Sector g} {crc32 : UInt32 → List UInt8 → UInt32}

/-! ## What a save shows on its way -/

/-- Programs that keep the first bytes of the sector burn what they program. -/
theorem replay_of_keeps {n : ℕ} (hn : 0 < n) {os : List FlashOp} (h : ∀ o ∈ os, o.Keeps S n)
    (m : Memory) :
    replay (FlashState.step g) ⟨m, false⟩ os = ⟨m.programAll (FlashOp.programs os), false⟩ := by
  induction os generalizing m with
  | nil => rfl
  | cons o os ih =>
    have hrest := fun m => ih (fun o ho => h o (List.mem_cons_of_mem _ ho)) m
    have ho := h o List.mem_cons_self
    cases o with
    | read a => exact hrest m
    | program a b => exact hrest (m.program a b)
    | erase k => exact absurd ho (Nat.pos_iff_ne_zero.mp hn)
    | unlock => exact hrest m
    | lock => exact absurd ho id

/-- **A run that unlocks the device first, keeps the first bytes of the sector and locks the device
at the end**, cut short anywhere, has programmed some of what it programs. -/
theorem replay_prefix {n : ℕ} (hn : 0 < n) {os rest t : List FlashOp} (hos : os = .unlock :: rest)
    (h : ∀ o ∈ os, o.Keeps S n) (ht : t <+: os ++ [.lock]) (s : FlashState) :
    ∃ ps, ps <+: FlashOp.programs (os ++ [.lock])
      ∧ (replay (FlashState.step g) s t).mem = s.mem.programAll ps := by
  have hprograms : FlashOp.programs (os ++ [.lock]) = FlashOp.programs os := by
    rw [FlashOp.programs_append]
    exact List.append_nil _
  have hunlock : ∀ us, replay (FlashState.step g) s (.unlock :: us)
      = replay (FlashState.step g) ⟨s.mem, false⟩ (.unlock :: us) := fun _ => rfl
  rw [hprograms]
  rcases List.prefix_concat_iff.mp ht with rfl | ht
  · refine ⟨_, List.prefix_refl _, ?_⟩
    rw [hos, List.cons_append, hunlock, ← List.cons_append, ← hos, replay_append,
      replay_of_keeps hn h]
    rfl
  · refine ⟨FlashOp.programs t, ht.filterMap _, ?_⟩
    cases t with
    | nil => rfl
    | cons o us =>
      obtain ⟨rfl, -⟩ := List.cons_prefix_cons.mp (hos ▸ ht)
      rw [hunlock, replay_of_keeps hn (fun o ho => h o (ht.subset ho))]

section Appending

variable {m : Memory} {log : List (List UInt8)} {ns : ParameterNamespace} {dstLen : UInt32}

/-- **A save that appends its block**, cut short anywhere: the search finds the last block of the
log, or the new one. -/
theorem selects_of_prefix (hinj : LengthCrcInjective crc32) (hcrc : ErasedNotTorn crc32)
    (hsize : S.size < 2 ^ 24) (hdst : dstLen.toNat ≤ S.size) {old : List UInt8}
    (hold : log.getLast? = some old) (hlog : Represents crc32 S m log)
    (hpast : NoHeaderPastEnd crc32 S m) (hempty : ns.writer.NoEmptyWrite)
    (hroom : used blockSize log + (12 + ns.enc.length) ≤ dstLen.toNat) {fuel : ℕ}
    (hfuel : log.length < fuel) (locked : Bool) :
    (exec (FlashState.step g) (configSave crc32 ns (fuel + 1) S.base dstLen) ⟨m, locked⟩).result
        = some ()
      ∧ ∀ t, t <+: (exec (FlashState.step g) (configSave crc32 ns (fuel + 1) S.base dstLen)
          ⟨m, locked⟩).trace →
        ∃ data, (data = old ∨ data = ns.enc) ∧
          LoadHands crc32 g ⟨(replay (FlashState.step g) ⟨m, locked⟩ t).mem, true⟩ S.base
            (some data) := by
  have hS := S.fits
  have hbs : blockSize ns.enc = 12 + ns.enc.length := rfl
  have h12 : 12 ≤ dstLen.toNat := by omega
  have hlt := dstLen.toNat_lt
  have hne : log ≠ [] := by
    rintro rfl
    exact nomatch hold
  have hused : 0 < used blockSize log := by
    obtain ⟨front, rfl⟩ : ∃ front, log = front ++ [old] :=
      ⟨_, (List.dropLast_append_getLast? old hold).symm⟩
    rw [used_append, used_cons]
    have : blockSize old = 12 + old.length := rfl
    omega
  have hholds : Holds crc32 S dstLen.toNat m m log := ⟨hlog, by omega, fun _ _ => rfl⟩
  have hw := hholds.walk hcrc.erasedInvalid (Or.inr hpast)
  obtain ⟨a, ha⟩ := Option.ne_none_iff_exists'.mp
    (fun hnone => blockAddrs_ne_nil S.base hne (List.getLast?_eq_none_iff.mp hnone))
  have happends : Appends S dstLen (blockAddrs S.base log)
      (S.base + UInt32.ofNat (used blockSize log)) := appends_of_room hne hroom
  have hfits : Fits ns (dstLen - (S.base + UInt32.ofNat (used blockSize log) - S.base)) :=
    fits_of_room hempty hroom
  have hlen : (blockAddrs S.base log).length < fuel := by
    rw [length_blockAddrs]
    exact hfuel
  have hex : exec (FlashState.step g) (configSave crc32 ns (fuel + 1) S.base dstLen) ⟨m, locked⟩
      = _ :=
    exec_configSave_attempt hcrc.erasedInvalid (by omega) hw hlen
      (choosePlace_of_appends happends) (exec_saveAt_success hfits (by omega) fuel dstLen _)
  obtain ⟨u, hu, hkeeps, -⟩ : ∃ u, storeOps crc32 m
      (S.base + UInt32.ofNat (used blockSize log)) ns.enc = u ++ [.lock]
        ∧ (∀ x ∈ u, x.Keeps S (used blockSize log)) ∧ (ns.enc ≠ [] → ∃ x ∈ u, x.Modifies) :=
    keeps_storeOps m (le_refl _) (by omega)
  rw [hex]
  refine ⟨rfl, fun t ht => ?_⟩
  -- what was programmed until the cut is some of the block
  have hall : ∀ o ∈ placeOps crc32 S dstLen m (blockAddrs S.base log) (blockAddrs S.base log)
      (S.base + UInt32.ofNat (used blockSize log)) (S.base + UInt32.ofNat (used blockSize log))
      ++ u, o.Keeps S (used blockSize log) := by
    intro o ho
    rcases List.mem_append.mp ho with ho | ho
    · exact keeps_placeOps (Or.inr happends) o ho
    · exact hkeeps o ho
  rw [hu, ← List.append_assoc] at ht
  obtain ⟨rest, hstart⟩ : ∃ rest, placeOps crc32 S dstLen m (blockAddrs S.base log)
      (blockAddrs S.base log) (S.base + UInt32.ofNat (used blockSize log))
      (S.base + UInt32.ofNat (used blockSize log)) ++ u = .unlock :: rest := ⟨_, rfl⟩
  obtain ⟨ps, hps, hmem⟩ := replay_prefix hused hstart hall ht ⟨m, locked⟩
  rw [List.append_assoc, ← hu, FlashOp.programs_append, programs_placeOps, List.nil_append] at hps
  have htakes : m.Takes (S.base + UInt32.ofNat (used blockSize log) + configHeaderSize)
      ns.enc := hlog.takes (k := 12) (by omega)
  rw [hmem, List.prefix_iff_eq_take.mp hps, programAll_take_storeOps (by omega) htakes]
  have hwithin : used blockSize log + blockSize ns.enc ≤ S.size := by omega
  rcases selects_tornStore hinj hcrc hsize hlog hpast hwithin ha hold ps.length true with hs | hs
  · exact ⟨old, Or.inl rfl, hs.2⟩
  · exact ⟨ns.enc, Or.inr rfl, hs.2⟩

end Appending

end Runs

/-! ## On the registers -/

/-- **What is loaded after a reset**: through the registers, and whatever is done with the data,
what loading those data gives. -/
def LoadsAfterReset (crc32 : UInt32 → List UInt8 → UInt32) (d : Controller) (polls : ℕ)
    (base : UInt32) (c : ControllerState) (data : List UInt8) : Prop :=
  ∃ fuel, ∀ {τ : Type} (read : τ → List UInt8 → ℤ × τ) (root : τ),
    UsesDriver (configLoad crc32 read fuel root base)
      ∧ ∀ load : Program FlashCall.Answer (Bool × τ),
        load.lower FlashCall.device = configLoad crc32 read fuel root base →
          (exec d.step (load.lower (driver polls)) c.reset).result
            = some (loadAnswer read root (some data))

/-- **A save survives a reset anywhere**: in terms of the driver it completes on the registers, and
after a reset between any two accesses to the controller, which is not misused, the old data are
loaded or the new ones. -/
def SurvivesReset (crc32 : UInt32 → List UInt8 → UInt32) (d : Controller) (polls : ℕ)
    (base : UInt32) (c : ControllerState) (old new : List UInt8) (p : Flash Unit) : Prop :=
  UsesDriver p ∧ ∀ save : Program FlashCall.Answer Unit, save.lower FlashCall.device = p →
    (exec d.step (save.lower (driver polls)) c).result = some ()
      ∧ ∀ t, t <+: (exec d.step (save.lower (driver polls)) c).trace →
        (replay d.step c t).misused = false
          ∧ ∃ data, (data = old ∨ data = new)
            ∧ LoadsAfterReset crc32 d polls base (replay d.step c t) data

/-- After a reset the registers load what the device would. -/
theorem loadsAfterReset_of_loadHands {crc32 : UInt32 → List UInt8 → UInt32} {d : Controller}
    {polls : ℕ} (hdelay : ∀ n, d.delay n < polls) {base : UInt32} {c : ControllerState}
    {data : List UInt8} (hmisused : c.misused = false)
    (h : LoadHands crc32 d.geometry ⟨c.mem, true⟩ base (some data)) :
    LoadsAfterReset crc32 d polls base c data := by
  obtain ⟨fuel, hload⟩ := h
  refine ⟨fuel, fun read root => ⟨usesDriver_configLoad crc32 read fuel root base, ?_⟩⟩
  intro load hloads
  have hafter := driver_offers_device hdelay (idle_reset hmisused) load
  rw [hloads] at hafter
  exact hafter.result.trans (hload read root).1

/-- **A reset anywhere within a save** of a block that fits behind the log: what is loaded
afterwards is what was saved last before or what was being saved. -/
theorem configSave_survives_reset (crc32 : UInt32 → List UInt8 → UInt32)
    (hinj : LengthCrcInjective crc32) (hcrc : ErasedNotTorn crc32) {d : Controller} {polls : ℕ}
    (hdelay : ∀ n, d.delay n < polls) (S : Sector d.geometry) (hsize : S.size < 2 ^ 24)
    (dstLen : UInt32) (hdst : dstLen.toNat ≤ S.size) {c : ControllerState} {locked : Bool}
    (hc : Idle c ⟨c.mem, locked⟩) {log : List (List UInt8)} {old : List UInt8}
    (hold : log.getLast? = some old) (hlog : Represents crc32 S c.mem log)
    (hpast : NoHeaderPastEnd crc32 S c.mem) (ns : ParameterNamespace)
    (hempty : ns.writer.NoEmptyWrite)
    (hroom : used blockSize log + (12 + ns.enc.length) ≤ dstLen.toNat) {fuel : ℕ}
    (hfuel : log.length + 1 < fuel) :
    SurvivesReset crc32 d polls S.base c old ns.enc (configSave crc32 ns fuel S.base dstLen) := by
  obtain ⟨fuel, rfl⟩ : ∃ k, fuel = k + 1 := ⟨fuel - 1, by omega⟩
  refine ⟨usesDriver_configSave crc32 ns (fuel + 1) S.base dstLen, fun save hsave => ?_⟩
  have hruns := driver_offers_device hdelay hc save
  rw [hsave] at hruns
  obtain ⟨hresult, hcut⟩ := selects_of_prefix hinj hcrc hsize hdst hold hlog hpast hempty hroom
    (show log.length < fuel by omega) locked
  refine ⟨hruns.result.trans hresult, fun t ht => ?_⟩
  -- the cut is one of the run on the device
  obtain ⟨u, hu, hshown⟩ := hruns.seen t ht
  obtain ⟨data, hdata, hload⟩ := hcut u hu
  have hmem : (replay d.step c t).mem
      = (replay (FlashState.step d.geometry) ⟨c.mem, locked⟩ u).mem := congrArg Prod.fst hshown
  have hmisused : (replay d.step c t).misused = false := congrArg Prod.snd hshown
  rw [← hmem] at hload
  exact ⟨hmisused, data, hdata, loadsAfterReset_of_loadHands hdelay hmisused hload⟩

/-- The sector of the configuration, on a controller that is busy for three polls. -/
def pollSector : Sector threePolls.geometry where
  base := configStart
  size := 128 * 1024
  fits := configSector.fits
  erase_iff := flashGeometry_last

/-- Saving a tree without parameters once more. -/
theorem configSave_survives_reset_emptyTree :
    ∃ m, Represents crc32 pollSector m [emptyTree.enc]
      ∧ SurvivesReset crc32 threePolls 4 configStart { erasedController with mem := m }
        emptyTree.enc emptyTree.enc (configSave crc32 emptyTree 3 configStart 0x20000) := by
  obtain ⟨s, t, -, hholds⟩ := save_erasedFlash emptyTree ⟨by decide, trivial⟩ (by decide)
  have hlog : Represents crc32 pollSector s.mem [emptyTree.enc] :=
    ⟨hholds.represents.fits, hholds.represents.content⟩
  have hpast : NoHeaderPastEnd crc32 pollSector s.mem :=
    noHeaderPastEnd_of_erased erasedInvalid_crc32 (fun x hx => hholds.frame x hx) (by decide)
  have hidle : Idle { erasedController with mem := s.mem } ⟨s.mem, true⟩ :=
    idle_reset (c := { erasedController with mem := s.mem }) rfl
  exact ⟨s.mem, hlog, configSave_survives_reset crc32 lengthCrcInjective_crc32 erasedNotTorn_crc32
    (fun _ => show 3 < 4 by decide) pollSector (by decide) 0x20000 (le_refl _) hidle rfl hlog hpast
    emptyTree ⟨by decide, trivial⟩ (by decide) (by decide)⟩

end ConfigStore
