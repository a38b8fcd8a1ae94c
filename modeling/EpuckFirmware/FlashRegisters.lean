import EpuckFirmware.FlashCalls

/-!
# The flash driver on the registers of the controller

`flash/flash.c` reaches the flash through a controller: a control register that has to be
unlocked with two keys, a status register with a busy flag, and stores to the memory
itself. A byte store programs while `PG` is set, and setting `STRT` starts an erase of the
sector whose number `SNB` holds. The controller is busy for a while then, and must be left
alone as long as it is.

Here the driver is a program for the controller. What it offers is the device that the
other modules are about, and every program in terms of the driver runs on the registers as
it does there (`Simulates`). The controller is never misused, however long it stays busy.

`SER` is never cleared again. The controller of this model decides by `PG` what a store does.
-/

namespace FlashRegisters

open Program

/-! ## The controller -/

/-- What the driver does on the bus. -/
inductive Access where
  /-- Reading `FLASH_CR`. -/
  | loadCr
  /-- Writing `FLASH_CR`. -/
  | storeCr (value : BitVec 32)
  /-- Writing `FLASH_KEYR`. -/
  | storeKeyr (value : BitVec 32)
  /-- Reading `FLASH_SR`. -/
  | loadSr
  /-- Reading a byte of the flash. -/
  | load (a : UInt32)
  /-- Writing a byte to the flash. -/
  | store (a : UInt32) (byte : UInt8)

abbrev Access.Reply : Access → Type
  | .loadCr => BitVec 32
  | .loadSr => BitVec 32
  | .load _ => UInt8
  | _ => Unit

def flashKey1 : BitVec 32 := 0x45670123

def flashKey2 : BitVec 32 := 0xCDEF89AB

def flashCrSnbPos : ℕ := 3

def flashCrLock : BitVec 32 := 1 <<< 31

def flashCrPsize : BitVec 32 := 0x03 <<< 8

def flashCrPg : BitVec 32 := 1 <<< 0

def flashCrSnb : BitVec 32 := 0x000000F8

def flashCrSer : BitVec 32 := 0x00000002

def flashCrStrt : BitVec 32 := 0x00010000

def flashSrBsy : BitVec 32 := 1 <<< 16

/-- **A controller**: what its sectors are and what the driver cannot foresee. -/
structure Controller where
  /-- Which bytes each sector consists of. -/
  sectors : BitVec 5 → UInt32 → Bool
  /-- How often the busy flag is found set after each operation that was started. -/
  delay : ℕ → ℕ
  /-- The other flags of the status register. -/
  status : ℕ → BitVec 32

/-- The state of a controller and its flash. -/
structure ControllerState where
  /-- `FLASH_CR`. -/
  cr : BitVec 32
  /-- The first of the two keys was written. -/
  half : Bool
  /-- A wrong key was written, which locks the controller for good. -/
  jammed : Bool
  /-- How often the busy flag will still be found set. -/
  busy : ℕ
  /-- How many operations were started. -/
  started : ℕ
  mem : Memory
  /-- An access was made that the controller forbids. -/
  misused : Bool

namespace ControllerState

def locked (c : ControllerState) : Bool := c.cr.getLsbD 31

/-- A single byte is programmed or erased at a time. -/
def parallelism8x (c : ControllerState) : Bool := c.cr.extractLsb' 8 2 = 0

/-- What is seen of a controller: the flash, and whether it was misused. -/
def shown (c : ControllerState) : Memory × Bool := (c.mem, c.misused)

def misuse (c : ControllerState) : ControllerState := { c with misused := true }

/-- `STRT` is cleared when the operation is over. -/
def settle (c : ControllerState) : ControllerState :=
  if c.busy = 0 then { c with cr := c.cr &&& ~~~flashCrStrt } else c

/-- An operation starts that leaves the flash with `mem`. -/
def start (d : Controller) (c : ControllerState) (mem : Memory) : ControllerState :=
  settle { c with mem := mem, busy := d.delay c.started, started := c.started + 1 }

/-- After a reset the controller is locked, and the flash is as it was. -/
def reset (c : ControllerState) : ControllerState where
  cr := flashCrLock
  half := false
  jammed := false
  busy := 0
  started := c.started
  mem := c.mem
  misused := c.misused

end ControllerState

open ControllerState

/-- The controller sets out to do what was written to `FLASH_CR`. -/
def Controller.storeCr (d : Controller) (c : ControllerState) (value : BitVec 32) :
    ControllerState :=
  if c.busy ≠ 0 then
    c.misuse
  else if c.locked then
    c
  else
    let c := { c with cr := value }
    if value.getLsbD 16 then
      if value.getLsbD 1 && !value.getLsbD 0 && !value.getLsbD 31 && c.parallelism8x then
        c.start d (fun x => if d.sectors (value.extractLsb' 3 5) x then 0xff else c.mem x)
      else
        c.misuse
    else
      c

/-- The keys unlock the controller, one after the other. -/
def Controller.storeKeyr (c : ControllerState) (value : BitVec 32) : ControllerState :=
  if c.busy ≠ 0 || !c.locked then
    c.misuse
  else if c.jammed then
    c
  else if c.half then
    if value = flashKey2 then
      { c with cr := c.cr &&& ~~~flashCrLock, half := false }
    else
      { c with jammed := true }
  else if value = flashKey1 then
    { c with half := true }
  else
    { c with jammed := true }

/-- A store to the flash programs a byte. -/
def Controller.store (d : Controller) (c : ControllerState) (a : UInt32) (byte : UInt8) :
    ControllerState :=
  if c.busy ≠ 0 then
    c.misuse
  else if c.locked then
    c
  else if c.cr.getLsbD 0 && c.parallelism8x then
    c.start d (c.mem.program a byte)
  else
    c.misuse

/-- **What the controller does on each access.** -/
def Controller.step (d : Controller) (c : ControllerState) :
    (o : Access) → o.Reply × ControllerState
  | .loadCr => (c.cr, c)
  | .storeCr value => ((), d.storeCr c value)
  | .storeKeyr value => ((), Controller.storeKeyr c value)
  | .loadSr =>
    if c.busy = 0 then (d.status c.started &&& ~~~flashSrBsy, c)
    else (d.status c.started ||| flashSrBsy, settle { c with busy := c.busy - 1 })
  | .load a => (c.mem a, if c.busy ≠ 0 then c.misuse else c)
  | .store a byte => ((), d.store c a byte)

/-- The sectors as the driver numbers them: `SNB` has five bits. -/
def Controller.geometry (d : Controller) : Geometry :=
  fun sector => d.sectors (sector.toBitVec.setWidth 5)

/-! ## The driver -/

abbrev Driver := Program Access.Reply

/-- `FLASH_CR` is read, modified and written. -/
def modifyCr (f : BitVec 32 → BitVec 32) : Driver Unit := do
  let cr ← op Access.loadCr
  op (Access.storeCr (f cr))

/-- `flash_lock`. -/
def flashLock : Driver Unit := modifyCr (· ||| flashCrLock)

/-- `flash_unlock`. -/
def flashUnlock : Driver Unit := do
  -- ensure cleared state
  modifyCr (· ||| flashCrLock)
  op (Access.storeKeyr flashKey1)
  op (Access.storeKeyr flashKey2)

/-- `flash_set_parallelism_8x`. -/
def flashSetParallelism8x : Driver Unit := modifyCr (· &&& ~~~flashCrPsize)

/-- `flash_wait_while_busy`. -/
def flashWaitWhileBusy : ℕ → Driver Unit
  | 0 => .timeout
  | fuel + 1 => do
    let sr ← op Access.loadSr
    if sr &&& flashSrBsy ≠ 0 then flashWaitWhileBusy fuel else pure ()

/-- `flash_write_byte`. -/
def flashWriteByte (fuel : ℕ) (flash : UInt32) (byte : UInt8) : Driver Unit := do
  -- activate flash programming
  modifyCr (· ||| flashCrPg)
  -- perform byte write
  op (Access.store flash byte)
  flashWaitWhileBusy fuel

/-- The loop of `flash_write`. -/
def flashWriteLoop (fuel : ℕ) (w : UInt32) : List UInt8 → Driver Unit
  | [] => pure ()
  | byte :: r => do
    flashWriteByte fuel w byte
    flashWriteLoop fuel (w + 1) r

/-- `flash_write`. -/
def flashWrite (fuel : ℕ) (addr : UInt32) (data : List UInt8) : Driver Unit := do
  flashWaitWhileBusy fuel
  flashSetParallelism8x
  flashWriteLoop fuel addr data
  -- clear flags
  modifyCr (· &&& ~~~flashCrPg)

/-- `flash_sector_erase_number`. -/
def flashSectorEraseNumber (fuel : ℕ) (sector : UInt8) : Driver Unit := do
  flashSetParallelism8x
  flashWaitWhileBusy fuel
  modifyCr (· &&& ~~~flashCrSnb)
  modifyCr (· ||| ((sector.toBitVec.setWidth 32 <<< flashCrSnbPos) &&& flashCrSnb))
  modifyCr (· ||| flashCrSer)
  modifyCr (· ||| flashCrStrt)
  flashWaitWhileBusy fuel

/-- `flash_sector_erase`. -/
def flashSectorErase (fuel : ℕ) (addr : UInt32) : Driver Unit :=
  flashSectorEraseNumber fuel (flashAddrToSector addr)

/-! ## The calls on the controller -/

/-- The calls on the controller. -/
def driver (fuel : ℕ) : (call : FlashCall) → Driver call.Answer
  | .load a => op (Access.load a)
  | .write addr data => flashWrite fuel addr data
  | .sectorErase addr => flashSectorErase fuel addr
  | .lock => flashLock
  | .unlock => flashUnlock

section Refinement

/-! ## The states between accesses -/

variable {d : Controller} {c : ControllerState} {s : FlashState} {fuel : ℕ}

/-- **The controller holds what the device holds**, and has not been misused. -/
structure Agrees (c : ControllerState) (s : FlashState) : Prop where
  mem : c.mem = s.mem
  locked : c.locked = s.locked
  half : c.half = false
  jammed : c.jammed = false
  misused : c.misused = false

theorem Agrees.shown {c : ControllerState} {s : FlashState} (h : Agrees c s) :
    c.shown = (s.mem, false) := Prod.ext h.mem h.misused

/-- **The controller carries out an operation or none.** -/
structure Working (c : ControllerState) (s : FlashState) : Prop extends Agrees c s where
  /-- `STRT` is set during an operation only. -/
  strt : c.busy = 0 → c.cr.getLsbD 16 = false

/-- **The controller carries out no operation.** -/
structure Ready (c : ControllerState) (s : FlashState) : Prop extends Working c s where
  busy : c.busy = 0

/-- **The controller as the driver leaves it**, with `PG` cleared. -/
structure Idle (c : ControllerState) (s : FlashState) : Prop extends Ready c s where
  pg : c.cr.getLsbD 0 = false

/-- The controller as the loop of `flash_write` finds it. -/
structure Writing (c : ControllerState) (s : FlashState) : Prop extends Ready c s where
  parallelism8x : s.locked = false → c.parallelism8x = true
  /-- A locked controller does not take `PG`. -/
  pg : s.locked = true → c.cr.getLsbD 0 = false

/-- After a reset the controller is as the driver leaves it. -/
theorem idle_reset (h : c.misused = false) : Idle c.reset ⟨c.mem, true⟩ where
  mem := rfl
  locked := show flashCrLock.getLsbD 31 = true by decide
  half := rfl
  jammed := rfl
  misused := h
  strt _ := show flashCrLock.getLsbD 16 = false by decide
  busy := rfl
  pg := show flashCrLock.getLsbD 0 = false by decide

/-! ## Bits of the control register -/

theorem getLsbD_andNot_strt (v : BitVec 32) : (v &&& ~~~flashCrStrt).getLsbD 16 = false := by
  simp [flashCrStrt]

theorem and_not_strt {v : BitVec 32} (h : v.getLsbD 16 = false) : v &&& ~~~flashCrStrt = v := by
  refine BitVec.eq_of_getLsbD_eq fun i hi => ?_
  by_cases h16 : i = 16
  · rw [h16, getLsbD_andNot_strt, h]
  · have hbit : flashCrStrt.getLsbD i = false := by
      rw [show flashCrStrt = BitVec.twoPow 32 16 from rfl, BitVec.getLsbD_twoPow]
      simp [Ne.symm h16]
    rw [BitVec.getLsbD_and, BitVec.getLsbD_not, hbit]
    simp [hi]

theorem getLsbD_or_mask {v mask : BitVec 32} {i : ℕ} (h : mask.getLsbD i = false) :
    (v ||| mask).getLsbD i = v.getLsbD i := by
  rw [BitVec.getLsbD_or, h, Bool.or_false]

theorem getLsbD_andNot_mask {v mask : BitVec 32} {i : ℕ} (h : mask.getLsbD i = false)
    (hi : i < 32) : (v &&& ~~~mask).getLsbD i = v.getLsbD i := by
  rw [BitVec.getLsbD_and, BitVec.getLsbD_not, h, decide_eq_true hi]
  exact Bool.and_true _

theorem extractLsb'_or_mask {v mask : BitVec 32} {i n : ℕ} (h : mask.extractLsb' i n = 0) :
    (v ||| mask).extractLsb' i n = v.extractLsb' i n := by
  rw [BitVec.extractLsb'_or, h]
  exact BitVec.or_zero

/-- What is written to `SNB`. -/
def snbOf (sector : UInt8) : BitVec 32 :=
  (sector.toBitVec.setWidth 32 <<< flashCrSnbPos) &&& flashCrSnb

/-- It lies within the field. -/
theorem getLsbD_snbOf (sector : UInt8) {i : ℕ} (h : flashCrSnb.getLsbD i = false) :
    (snbOf sector).getLsbD i = false := by
  rw [snbOf, BitVec.getLsbD_and, h, Bool.and_false]

/-- The five bits of the number. -/
theorem extractLsb'_snbOf (v : BitVec 32) (sector : UInt8) :
    (v &&& ~~~flashCrSnb ||| snbOf sector).extractLsb' 3 5 = sector.toBitVec.setWidth 5 := by
  refine BitVec.eq_of_getLsbD_eq fun i hi => ?_
  have hfield : flashCrSnb.getLsbD (3 + i) = true := by
    interval_cases i <;> decide
  rw [BitVec.getLsbD_extractLsb', BitVec.getLsbD_or, snbOf, BitVec.getLsbD_and, BitVec.getLsbD_and,
    BitVec.getLsbD_not, hfield, BitVec.getLsbD_shiftLeft, BitVec.getLsbD_setWidth,
    BitVec.getLsbD_setWidth, flashCrSnbPos]
  simp [hi, show i < 32 by omega, show 3 + i < 32 by omega, show ¬ 3 + i < 3 by omega]

theorem extractLsb'_andNot_mask {v mask : BitVec 32} {i n : ℕ}
    (h : (~~~mask).extractLsb' i n = BitVec.allOnes n) :
    (v &&& ~~~mask).extractLsb' i n = v.extractLsb' i n := by
  rw [BitVec.extractLsb'_and, h]
  exact BitVec.and_allOnes

theorem extractLsb'_snbOf_psize (sector : UInt8) : (snbOf sector).extractLsb' 8 2 = 0 := by
  rw [snbOf, BitVec.extractLsb'_and]
  exact BitVec.and_zero

theorem extractLsb'_andNot_psize (v : BitVec 32) :
    (v &&& ~~~flashCrPsize).extractLsb' 8 2 = 0 := by
  rw [BitVec.extractLsb'_and]
  exact BitVec.and_zero

/-- What the control register holds when an erase of a sector is started. -/
def eraseCr (v : BitVec 32) (sector : UInt8) : BitVec 32 :=
  ((v &&& ~~~flashCrPsize) &&& ~~~flashCrSnb ||| snbOf sector) ||| flashCrSer

theorem getLsbD_eraseCr_pg (v : BitVec 32) (sector : UInt8) :
    (eraseCr v sector).getLsbD 0 = v.getLsbD 0 := by
  rw [eraseCr, getLsbD_or_mask (by decide), getLsbD_or_mask (getLsbD_snbOf sector (by decide)),
    getLsbD_andNot_mask (by decide) (by decide), getLsbD_andNot_mask (by decide) (by decide)]

theorem getLsbD_eraseCr_ser (v : BitVec 32) (sector : UInt8) :
    (eraseCr v sector).getLsbD 1 = true := by
  rw [eraseCr, BitVec.getLsbD_or]
  exact Bool.or_true _

theorem extractLsb'_eraseCr_psize (v : BitVec 32) (sector : UInt8) :
    (eraseCr v sector).extractLsb' 8 2 = 0 := by
  rw [eraseCr, extractLsb'_or_mask (by decide), extractLsb'_or_mask (extractLsb'_snbOf_psize sector),
    extractLsb'_andNot_mask (by decide), extractLsb'_andNot_psize]

theorem extractLsb'_eraseCr_snb (v : BitVec 32) (sector : UInt8) :
    (eraseCr v sector).extractLsb' 3 5 = sector.toBitVec.setWidth 5 := by
  rw [eraseCr, extractLsb'_or_mask (by decide), extractLsb'_snbOf]

theorem parallelism8x_congr {c c' : ControllerState}
    (h : c'.cr.extractLsb' 8 2 = c.cr.extractLsb' 8 2) : c'.parallelism8x = c.parallelism8x := by
  unfold ControllerState.parallelism8x
  rw [h]

/-! ## What one access does -/

/-- A run on the controller and a run on the device that the driver offers. -/
abbrev Carries (d : Controller) {α : Type} (c : ControllerState) (s : FlashState)
    (p : Driver α) (q : Flash α) (Q : α → ControllerState → FlashState → Prop) : Prop :=
  Simulates d.step (FlashState.step d.geometry) ControllerState.shown
    (fun s => (s.mem, false)) c s p q Q

/-- **Modifying the control register** has no effect when the controller is locked. -/
theorem Ready.carries_modifyCr (h : Ready c s) {f : BitVec 32 → BitVec 32}
    (hlock : (f c.cr).getLsbD 31 = c.cr.getLsbD 31)
    (hstrt : (f c.cr).getLsbD 16 = false) :
    Carries d c s (modifyCr f) (pure ()) (fun _ c' s' => Ready c' s ∧ s = s'
      ∧ c'.cr = if s.locked then c.cr else f c.cr) := by
  refine Simulates.access h.shown (Simulates.access h.shown ?_)
  show Carries d (d.storeCr c (f c.cr)) s _ _ _
  unfold Controller.storeCr
  rw [if_neg (not_not_intro h.busy), h.locked]
  cases hs : s.locked with
  | true => exact Simulates.pure h.shown ⟨h, rfl, rfl⟩
  | false =>
    rw [if_neg Bool.false_ne_true]
    dsimp only
    rw [if_neg (by rw [hstrt]; exact Bool.false_ne_true)]
    refine Simulates.pure h.shown ⟨?_, rfl, rfl⟩
    exact { h with locked := hlock.trans h.locked, strt := fun _ => hstrt }

/-- Setting bits other than `LOCK` and `STRT`. -/
theorem Ready.carries_set (h : Ready c s) {mask : BitVec 32} (hlock : mask.getLsbD 31 = false)
    (hstrt : mask.getLsbD 16 = false) :
    Carries d c s (modifyCr (· ||| mask)) (pure ()) (fun _ c' s' => Ready c' s ∧ s = s'
      ∧ c'.cr = if s.locked then c.cr else c.cr ||| mask) :=
  h.carries_modifyCr (getLsbD_or_mask hlock) ((getLsbD_or_mask hstrt).trans (h.strt h.busy))

/-- Clearing bits other than `LOCK` and `STRT`. -/
theorem Ready.carries_clear (h : Ready c s) {mask : BitVec 32} (hlock : mask.getLsbD 31 = false)
    (hstrt : mask.getLsbD 16 = false) :
    Carries d c s (modifyCr (· &&& ~~~mask)) (pure ()) (fun _ c' s' => Ready c' s ∧ s = s'
      ∧ c'.cr = if s.locked then c.cr else c.cr &&& ~~~mask) :=
  h.carries_modifyCr (getLsbD_andNot_mask hlock (by decide))
    ((getLsbD_andNot_mask hstrt (by decide)).trans (h.strt h.busy))

/-- `STRT` is cleared in time, and nothing else changes. -/
theorem Agrees.settle (h : Agrees c s) :
    Working (settle c) s ∧ (settle c).cr &&& ~~~flashCrStrt = c.cr &&& ~~~flashCrStrt
      ∧ (settle c).busy = c.busy := by
  unfold ControllerState.settle
  split
  · refine ⟨{ h with locked := ?_, strt := fun _ => getLsbD_andNot_strt _ }, ?_, rfl⟩
    · rw [← h.locked]
      show (c.cr &&& ~~~flashCrStrt).getLsbD 31 = c.cr.getLsbD 31
      simp [flashCrStrt]
    · rw [BitVec.and_assoc, BitVec.and_self]
  · exact ⟨{ h with strt := fun hbusy => absurd hbusy ‹_› }, rfl, rfl⟩

/-- What starting an operation leaves. -/
theorem Agrees.start (h : Agrees c s) (m : Memory) :
    Working (c.start d m) { s with mem := m }
      ∧ (c.start d m).cr &&& ~~~flashCrStrt = c.cr &&& ~~~flashCrStrt
      ∧ (c.start d m).busy = d.delay c.started :=
  Agrees.settle { h with mem := rfl }

/-- **Waiting ends** when the controller has been asked often enough. -/
theorem Working.carries_wait (h : Working c s) (hfuel : c.busy < fuel) :
    Carries d c s (flashWaitWhileBusy fuel) (pure ()) (fun _ c' s' => Ready c' s ∧ s = s'
      ∧ c'.cr = c.cr &&& ~~~flashCrStrt) := by
  induction fuel generalizing c with
  | zero => exact absurd hfuel (Nat.not_lt_zero _)
  | succ fuel ih =>
    refine Simulates.access h.shown ?_
    unfold Controller.step
    by_cases hbusy : c.busy = 0
    · have hclear : (d.status c.started &&& ~~~flashSrBsy) &&& flashSrBsy = 0 := by
        rw [BitVec.and_assoc, BitVec.and_comm (~~~flashSrBsy), BitVec.and_not_self]
        simp
      rw [if_pos hbusy]
      show Carries d c s (if _ then _ else _) _ _
      rw [if_neg (not_not_intro hclear)]
      exact Simulates.pure h.shown ⟨⟨h, hbusy⟩, rfl, (and_not_strt (h.strt hbusy)).symm⟩
    · have hset : (d.status c.started ||| flashSrBsy) &&& flashSrBsy ≠ 0 := by
        intro h0
        have hbit := congrArg (BitVec.getLsbD · 16) h0
        simp [flashSrBsy] at hbit
      rw [if_neg hbusy]
      show Carries d (settle { c with busy := c.busy - 1 }) s (if _ then _ else _) _ _
      rw [if_pos hset]
      have hleft : Agrees { c with busy := c.busy - 1 } s := { h with }
      obtain ⟨hworking, hcr, hless⟩ := hleft.settle
      refine (ih hworking (hless ▸ show c.busy - 1 < fuel by omega)).mono ?_
      rintro _ c' _ ⟨hready, rfl, hc'⟩
      exact ⟨hready, rfl, hc'.trans hcr⟩

/-! ## The calls -/

/-- **Storing a byte** starts its programming, unless the controller is locked. -/
theorem Ready.carries_store (hdelay : ∀ n, d.delay n < fuel) (h : Ready c s)
    (h8 : s.locked = false → c.parallelism8x = true)
    (hpg : s.locked = false → c.cr.getLsbD 0 = true) (a : UInt32) (byte : UInt8) :
    Carries d c s (op (Access.store a byte)) (programByte a byte) (fun _ c' s' => Working c' s'
      ∧ s'.locked = s.locked ∧ c'.cr &&& ~~~flashCrStrt = c.cr ∧ c'.busy < fuel) := by
  have hcr : c.cr &&& ~~~flashCrStrt = c.cr := and_not_strt (h.strt h.busy)
  refine Simulates.both h.shown ?_
  show Carries d (d.store c a byte) (s.step d.geometry (.program a byte)).2 (pure ()) (pure ()) _
  unfold Controller.store
  rw [if_neg (not_not_intro h.busy), h.locked]
  cases hs : s.locked with
  | true =>
    have hdevice : (s.step d.geometry (.program a byte)).2 = s := if_pos hs
    rw [if_pos rfl, hdevice]
    refine Simulates.pure h.shown ⟨h.toWorking, hs, hcr, ?_⟩
    rw [h.busy]
    exact Nat.zero_lt_of_lt (hdelay 0)
  | false =>
    have hdevice : (s.step d.geometry (.program a byte)).2
        = { s with mem := c.mem.program a byte } := by
      rw [h.mem]
      exact if_neg (by rw [hs]; exact Bool.false_ne_true)
    rw [if_neg Bool.false_ne_true, if_pos (by rw [hpg hs, h8 hs]; rfl), hdevice]
    obtain ⟨hworking, hcr', hbusy⟩ := h.toAgrees.start (d := d) (c.mem.program a byte)
    exact Simulates.pure hworking.shown ⟨hworking, hs, hcr'.trans hcr, hbusy ▸ hdelay _⟩

/-- **Programming a byte.** -/
theorem Writing.carries_writeByte (hdelay : ∀ n, d.delay n < fuel) (h : Writing c s) (a : UInt32)
    (byte : UInt8) :
    Carries d c s (flashWriteByte fuel a byte) (programByte a byte) (fun _ => Writing) := by
  -- `PG` is set, if the controller is not locked
  have hset : Carries d c s (modifyCr (· ||| flashCrPg)) (pure ()) _ :=
    h.toReady.carries_set (by decide) (by decide)
  refine hset.bind_left ?_
  rintro c₁ _ ⟨hready, rfl, hcr⟩
  have h8 : s.locked = false → c₁.parallelism8x = true := by
    intro hs
    rw [hs, if_neg Bool.false_ne_true] at hcr
    rw [← h.parallelism8x hs]
    exact parallelism8x_congr (hcr ▸ extractLsb'_or_mask (by decide))
  have hpg : s.locked = false → c₁.cr.getLsbD 0 = true := by
    intro hs
    rw [hcr, hs, if_neg Bool.false_ne_true, BitVec.getLsbD_or]
    exact Bool.or_true _
  -- the byte is stored, and waited for
  refine (hready.carries_store hdelay h8 hpg a byte).bind_right ?_
  rintro _ c₂ s₂ ⟨hworking, hlocked, hcr₂, hbusy⟩
  refine (hworking.carries_wait hbusy).mono ?_
  rintro _ c₃ _ ⟨hready₃, rfl, hcr₃⟩
  rw [hcr₂] at hcr₃
  refine { hready₃ with parallelism8x := fun hs => ?_, pg := fun hs => ?_ }
  · rw [ControllerState.parallelism8x, hcr₃]
    exact h8 (hlocked ▸ hs)
  · rw [hcr₃, hcr, if_pos (hlocked ▸ hs)]
    exact h.pg (hlocked ▸ hs)

/-- **The loop of `flash_write`.** -/
theorem Writing.carries_writeLoop (hdelay : ∀ n, d.delay n < fuel) (h : Writing c s) (w : UInt32)
    (r : List UInt8) :
    Carries d c s (flashWriteLoop fuel w r) (programBytes w r) (fun _ => Writing) := by
  induction r generalizing c s w with
  | nil => exact Simulates.pure h.shown h
  | cons byte r ih => exact (h.carries_writeByte hdelay w byte).bind (fun _ _ _ ht => ih ht (w + 1))

/-- **`flash_write`.** -/
theorem Idle.carries_write (hdelay : ∀ n, d.delay n < fuel) (h : Idle c s) (addr : UInt32)
    (data : List UInt8) :
    Carries d c s (flashWrite fuel addr data) (programBytes addr data) (fun _ => Idle) := by
  have hfuel : c.busy < fuel := by
    rw [h.busy]
    exact Nat.zero_lt_of_lt (hdelay 0)
  refine (h.toWorking.carries_wait hfuel).bind_left ?_
  rintro c₁ _ ⟨h₁, rfl, hcr₁⟩
  rw [and_not_strt (h.strt h.busy)] at hcr₁
  have hsize : Carries d c₁ s flashSetParallelism8x (pure ()) _ :=
    h₁.carries_clear (by decide) (by decide)
  refine hsize.bind_left ?_
  rintro c₂ _ ⟨h₂, rfl, hcr₂⟩
  have hwriting : Writing c₂ s := by
    refine { h₂ with parallelism8x := fun hs => ?_, pg := fun hs => ?_ }
    · rw [hs, if_neg Bool.false_ne_true] at hcr₂
      rw [ControllerState.parallelism8x, hcr₂, extractLsb'_andNot_psize]
      exact decide_eq_true rfl
    · rw [hcr₂, if_pos hs, hcr₁]
      exact h.pg
  refine (hwriting.carries_writeLoop hdelay addr data).bind_right ?_
  intro _ c₃ s₃ h₃
  -- `PG` is cleared, if the controller is not locked
  have hclear : Carries d c₃ s₃ (modifyCr (· &&& ~~~flashCrPg)) (pure ()) _ :=
    h₃.toReady.carries_clear (by decide) (by decide)
  refine hclear.mono ?_
  rintro _ c₄ _ ⟨h₄, rfl, hcr₄⟩
  refine { h₄ with pg := ?_ }
  rw [hcr₄]
  split
  · exact h₃.pg ‹_›
  · simp [flashCrPg]

/-- **Starting an erase** erases the sector that `SNB` names. -/
theorem Ready.carries_startErase (hdelay : ∀ n, d.delay n < fuel) (h : Ready c s) {sector : UInt8}
    (hpg : c.cr.getLsbD 0 = false) (h8 : s.locked = false → c.parallelism8x = true)
    (hser : s.locked = false → c.cr.getLsbD 1 = true)
    (hsnb : s.locked = false → c.cr.extractLsb' 3 5 = sector.toBitVec.setWidth 5) :
    Carries d c s (modifyCr (· ||| flashCrStrt)) (op (FlashOp.erase sector))
      (fun _ c' s' => Working c' s' ∧ s'.locked = s.locked
        ∧ c'.cr &&& ~~~flashCrStrt = c.cr ∧ c'.busy < fuel) := by
  have hcr : c.cr &&& ~~~flashCrStrt = c.cr := and_not_strt (h.strt h.busy)
  refine Simulates.access h.shown (Simulates.both h.shown ?_)
  show Carries d (d.storeCr c (c.cr ||| flashCrStrt)) (s.step d.geometry (.erase sector)).2
    (pure ()) (pure ()) _
  unfold Controller.storeCr
  rw [if_neg (not_not_intro h.busy), h.locked]
  cases hs : s.locked with
  | true =>
    have hdevice : (s.step d.geometry (.erase sector)).2 = s := if_pos hs
    rw [if_pos rfl, hdevice]
    refine Simulates.pure h.shown ⟨h.toWorking, hs, hcr, ?_⟩
    rw [h.busy]
    exact Nat.zero_lt_of_lt (hdelay 0)
  | false =>
    have hdevice : (s.step d.geometry (.erase sector)).2
        = { s with mem := c.mem.erase d.geometry sector } := by
      rw [h.mem]
      exact if_neg (by rw [hs]; exact Bool.false_ne_true)
    have hstrt : (c.cr ||| flashCrStrt).getLsbD 16 = true := by
      rw [BitVec.getLsbD_or]
      exact Bool.or_true _
    have hlocked : (c.cr ||| flashCrStrt).getLsbD 31 = s.locked :=
      (getLsbD_or_mask (by decide)).trans h.locked
    have hcheck : ((c.cr ||| flashCrStrt).getLsbD 1 && !(c.cr ||| flashCrStrt).getLsbD 0
        && !(c.cr ||| flashCrStrt).getLsbD 31
        && ({ c with cr := c.cr ||| flashCrStrt } : ControllerState).parallelism8x) = true := by
      rw [getLsbD_or_mask (i := 1) (by decide), getLsbD_or_mask (i := 0) (by decide), hlocked, hs,
        hser hs, hpg, parallelism8x_congr (c := c) (extractLsb'_or_mask (by decide)), h8 hs]
      rfl
    have hmem : (fun x => if d.sectors ((c.cr ||| flashCrStrt).extractLsb' 3 5) x then 0xff
        else c.mem x) = c.mem.erase d.geometry sector := by
      rw [extractLsb'_or_mask (by decide), hsnb hs]
      rfl
    have hagrees : Agrees { c with cr := c.cr ||| flashCrStrt } s :=
      { h with locked := hlocked }
    obtain ⟨hworking, hcr', hbusy⟩ :=
      hagrees.start (d := d) (c.mem.erase d.geometry sector)
    dsimp only
    rw [if_neg Bool.false_ne_true, if_pos hstrt, if_pos hcheck, hmem, hdevice]
    refine Simulates.pure hworking.shown ⟨hworking, hs, hcr'.trans ?_, hbusy ▸ hdelay _⟩
    show (c.cr ||| flashCrStrt) &&& ~~~flashCrStrt = c.cr
    rw [BitVec.and_or_distrib_right, hcr]
    exact BitVec.or_zero

/-- **`flash_sector_erase_number`.** -/
theorem Idle.carries_sectorEraseNumber (hdelay : ∀ n, d.delay n < fuel) (h : Idle c s)
    (sector : UInt8) :
    Carries d c s (flashSectorEraseNumber fuel sector) (op (FlashOp.erase sector))
      (fun _ => Idle) := by
  have hsize : Carries d c s flashSetParallelism8x (pure ()) _ :=
    h.toReady.carries_clear (by decide) (by decide)
  refine hsize.bind_left ?_
  rintro c₁ _ ⟨h₁, rfl, hcr₁⟩
  have hfuel : c₁.busy < fuel := by
    rw [h₁.busy]
    exact Nat.zero_lt_of_lt (hdelay 0)
  refine (h₁.toWorking.carries_wait hfuel).bind_left ?_
  rintro c₂ _ ⟨h₂, rfl, hcr₂⟩
  rw [and_not_strt (h₁.strt h₁.busy)] at hcr₂
  -- the number of the sector
  have hclear : Carries d c₂ s (modifyCr (· &&& ~~~flashCrSnb)) (pure ()) _ :=
    h₂.carries_clear (by decide) (by decide)
  refine hclear.bind_left ?_
  rintro c₃ _ ⟨h₃, rfl, hcr₃⟩
  have hnumber : Carries d c₃ s (modifyCr (· ||| snbOf sector)) (pure ()) _ :=
    h₃.carries_set (getLsbD_snbOf sector (by decide)) (getLsbD_snbOf sector (by decide))
  refine hnumber.bind_left ?_
  rintro c₄ _ ⟨h₄, rfl, hcr₄⟩
  have hser : Carries d c₄ s (modifyCr (· ||| flashCrSer)) (pure ()) _ :=
    h₄.carries_set (by decide) (by decide)
  refine hser.bind_left ?_
  rintro c₅ _ ⟨h₅, rfl, hcr₅⟩
  -- what the register holds by now
  have hcr : c₅.cr = if s.locked then c.cr else eraseCr c.cr sector := by
    rw [hcr₅, hcr₄, hcr₃, hcr₂, hcr₁]
    split <;> rfl
  have hpg : c₅.cr.getLsbD 0 = false := by
    rw [hcr]
    split
    · exact h.pg
    · exact (getLsbD_eraseCr_pg c.cr sector).trans h.pg
  have h8 : s.locked = false → c₅.parallelism8x = true := by
    intro hs
    rw [ControllerState.parallelism8x, hcr, hs, if_neg Bool.false_ne_true,
      extractLsb'_eraseCr_psize]
    exact decide_eq_true rfl
  have hser : s.locked = false → c₅.cr.getLsbD 1 = true := by
    intro hs
    rw [hcr, hs, if_neg Bool.false_ne_true, getLsbD_eraseCr_ser]
  have hsnb : s.locked = false → c₅.cr.extractLsb' 3 5 = sector.toBitVec.setWidth 5 := by
    intro hs
    rw [hcr, hs, if_neg Bool.false_ne_true, extractLsb'_eraseCr_snb]
  refine (h₅.carries_startErase hdelay hpg h8 hser hsnb).bind_right ?_
  rintro _ c₆ s₆ ⟨hworking, -, hcr₆, hbusy⟩
  refine (hworking.carries_wait hbusy).mono ?_
  rintro _ c₇ _ ⟨h₇, rfl, hcr₇⟩
  refine { h₇ with pg := ?_ }
  rw [hcr₇, hcr₆]
  exact hpg

/-- Setting `LOCK` locks the controller, if it is not locked. -/
theorem Idle.storeCr_lock (h : Idle c s) :
    Idle (d.storeCr c (c.cr ||| flashCrLock)) { s with locked := true } := by
  have hlock : (c.cr ||| flashCrLock).getLsbD 31 = true := by
    rw [BitVec.getLsbD_or]
    exact Bool.or_true _
  have hstrt : (c.cr ||| flashCrLock).getLsbD 16 = false :=
    (getLsbD_or_mask (by decide)).trans (h.strt h.busy)
  unfold Controller.storeCr
  rw [if_neg (not_not_intro h.busy), h.locked]
  cases hs : s.locked with
  | true =>
    rw [if_pos rfl]
    exact { h with locked := h.locked.trans hs }
  | false =>
    dsimp only
    rw [if_neg Bool.false_ne_true, if_neg (by rw [hstrt]; exact Bool.false_ne_true)]
    exact { h with
      locked := hlock
      strt := fun _ => hstrt
      pg := (getLsbD_or_mask (by decide)).trans h.pg }

/-- **`flash_lock`.** -/
theorem Idle.carries_lock (h : Idle c s) :
    Carries d c s flashLock (op FlashOp.lock) (fun _ => Idle) :=
  Simulates.access h.shown
    (Simulates.both h.shown (Simulates.pure h.storeCr_lock.shown h.storeCr_lock))

/-- The two keys unlock a locked controller. -/
theorem Idle.storeKeyr (h : Idle c s) (hs : s.locked = true) :
    (Controller.storeKeyr c flashKey1).shown = (s.mem, false)
      ∧ Idle (Controller.storeKeyr (Controller.storeKeyr c flashKey1) flashKey2)
        { s with locked := false } := by
  have hfirst : Controller.storeKeyr c flashKey1 = { c with half := true } := by
    unfold Controller.storeKeyr
    rw [if_neg (by simp [h.busy, h.locked, hs]), if_neg (by simp [h.jammed]),
      if_neg (by simp [h.half]), if_pos rfl]
  have hsecond : Controller.storeKeyr { c with half := true } flashKey2
      = { c with cr := c.cr &&& ~~~flashCrLock, half := false } := by
    have hlocked : ({ c with half := true } : ControllerState).locked = true :=
      h.locked.trans hs
    unfold Controller.storeKeyr
    rw [hlocked, if_neg (by simp [h.busy]), if_neg (by simp [h.jammed]), if_pos rfl, if_pos rfl]
  rw [hfirst, hsecond]
  refine ⟨h.shown, { h with
    locked := ?_
    half := rfl
    strt := fun _ => (getLsbD_andNot_mask (by decide) (by decide)).trans (h.strt h.busy)
    pg := (getLsbD_andNot_mask (by decide) (by decide)).trans h.pg }⟩
  show (c.cr &&& ~~~flashCrLock).getLsbD 31 = false
  rw [BitVec.getLsbD_and]
  exact Bool.and_false _

/-- **`flash_unlock`** locks the controller first, so that the keys are always taken. -/
theorem Idle.carries_unlock (h : Idle c s) :
    Carries d c s flashUnlock (op FlashOp.unlock) (fun _ => Idle) := by
  have hlocked : Idle (d.storeCr c (c.cr ||| flashCrLock)) { s with locked := true } :=
    h.storeCr_lock
  obtain ⟨hfirst, hsecond⟩ := hlocked.storeKeyr rfl
  refine Simulates.access h.shown (Simulates.access h.shown (Simulates.access hlocked.shown ?_))
  exact Simulates.both hfirst (Simulates.pure hsecond.shown hsecond)

/-- Reading a byte. -/
theorem Idle.carries_load (h : Idle c s) (a : UInt32) :
    Carries d c s (op (Access.load a)) (op (FlashOp.read a)) (fun _ => Idle) := by
  refine Simulates.both h.shown ?_
  show Carries d (if c.busy ≠ 0 then c.misuse else c) s (pure (c.mem a)) (pure (s.mem a)) _
  rw [if_neg (not_not_intro h.busy), h.mem]
  exact Simulates.pure h.shown h

/-- **What the driver does in each call** is what it offers. -/
theorem Idle.carries_driver (hdelay : ∀ n, d.delay n < fuel) (h : Idle c s) (call : FlashCall) :
    Carries d c s (driver fuel call) call.device (fun _ => Idle) := by
  cases call with
  | load a => exact h.carries_load a
  | write addr data => exact h.carries_write hdelay addr data
  | sectorErase addr => exact h.carries_sectorEraseNumber hdelay (flashAddrToSector addr)
  | lock => exact h.carries_lock
  | unlock => exact h.carries_unlock

end Refinement

/-- **The driver offers the device**: whatever calls are made, and however long the controller is
busy, the run on the registers gives the same result as the one on the device, leaves the
controller as it was found, and shows at every point what the other run shows somewhere: in
particular, the controller is never misused. -/
theorem driver_offers_device {d : Controller} {fuel : ℕ} (hdelay : ∀ n, d.delay n < fuel)
    {c : ControllerState} {s : FlashState} (h : Idle c s) {α : Type}
    (calls : Program FlashCall.Answer α) :
    Carries d c s (calls.lower (driver fuel)) (calls.lower FlashCall.device) (fun _ => Idle) :=
  Simulates.lower (fun _ _ h => h.shown) (fun call _ _ h => h.carries_driver hdelay call) calls h

/-- A controller with the sectors that the driver counts, which is busy for three polls. -/
def threePolls : Controller where
  sectors := fun n => flashGeometry ⟨n.setWidth 8⟩
  delay := fun _ => 3
  status := fun _ => 0

/-- A controller after a reset, with an erased flash. -/
def erasedController : ControllerState := ⟨flashCrLock, false, false, 0, 0, fun _ => 0xff, false⟩

theorem idle_erasedController : Idle erasedController ⟨erasedController.mem, true⟩ :=
  idle_reset (c := erasedController) rfl

theorem driver_offers_device_threePolls :
    Carries threePolls erasedController ⟨erasedController.mem, true⟩
      ((op (FlashCall.write 0x080e0000 [1, 2])).lower (driver 4))
      ((op (FlashCall.write 0x080e0000 [1, 2])).lower FlashCall.device) (fun _ => Idle) :=
  driver_offers_device (d := threePolls) (fun _ => show 3 < 4 by decide) idle_erasedController
    (op (FlashCall.write 0x080e0000 [1, 2]))

end FlashRegisters
