import EpuckFirmware.NorFlash

/-!
# The flash driver

`flash/flash.c`. The driver programs one byte at a time and erases one sector at
a time; waiting for the busy flag and selecting the access width have no
counterpart in the model, whose operations are atomic. Unlocking writes the two
keys, which is one operation here.

The driver turns an address into a sector number by arithmetic. What that sector
really consists of is the device's `Geometry`, and a `Sector` is a range of
addresses which erasing at its base address erases, no more and no less.
-/

/-- `flash_addr_to_sector`: the number of the sector of an address. -/
def flashAddrToSector (p : UInt32) : UInt8 :=
  let addr := p
  let offset := addr &&& 0xFFFFFF
  let sector : UInt8 :=
    if offset < 0x10000 then
      -- 16K sectors, 0x08000000 to 0x0800FFFF
      (offset / 0x4000).toUInt8
    else if offset < 0x20000 then
      -- 64K sector, 0x08010000 to 0x0801FFFF
      (3 + offset / 0x10000).toUInt8
    else
      -- 128K sectors
      (4 + offset / 0x20000).toUInt8
  if addr ≥ 0x08100000 then
    -- bank 2, same layout
    sector + 12
  else
    sector

/-- `flash_lock`. -/
def flashLock : Flash Unit := Program.op FlashOp.lock

/-- `flash_unlock`. -/
def flashUnlock : Flash Unit := Program.op FlashOp.unlock

/-- `flash_write`: the bytes of `data`, one after the other. -/
def flashWrite (addr : UInt32) (data : List UInt8) : Flash Unit := programBytes addr data

/-- `flash_sector_erase_number`. -/
def flashSectorEraseNumber (sector : UInt8) : Flash Unit := Program.op (FlashOp.erase sector)

/-- `flash_sector_erase`: erase the sector an address belongs to. -/
def flashSectorErase (addr : UInt32) : Flash Unit :=
  flashSectorEraseNumber (flashAddrToSector addr)

section Exec

variable (g : Geometry)

@[simp] theorem exec_flashLock (s : FlashState) :
    Program.exec (FlashState.step g) flashLock s
      = ⟨some (), { s with locked := true }, [.lock]⟩ := rfl

@[simp] theorem exec_flashUnlock (s : FlashState) :
    Program.exec (FlashState.step g) flashUnlock s
      = ⟨some (), { s with locked := false }, [.unlock]⟩ := rfl

theorem exec_flashWrite (addr : UInt32) (data : List UInt8) {s : FlashState}
    (hs : s.locked = false) :
    Program.exec (FlashState.step g) (flashWrite addr data) s
      = ⟨some (), { s with mem := s.mem.burn addr data }, writes addr data⟩ :=
  exec_programBytes g addr data hs

theorem exec_flashSectorErase (addr : UInt32) {s : FlashState} (hs : s.locked = false) :
    Program.exec (FlashState.step g) (flashSectorErase addr) s
      = ⟨some (), { s with mem := s.mem.erase g (flashAddrToSector addr) },
          [.erase (flashAddrToSector addr)]⟩ := by
  rw [flashSectorErase, flashSectorEraseNumber, Program.exec_op]
  simp only [FlashState.step, hs, Bool.false_eq_true, if_false]

end Exec

/-- **A sector of the device**, given by its base address: erasing there sets
exactly its bytes. -/
structure Sector (g : Geometry) where
  /-- The first address. -/
  base : UInt32
  /-- The number of bytes. -/
  size : ℕ
  /-- The sector lies in the address space. -/
  fits : base.toNat + size ≤ 2 ^ 32
  /-- What erasing at the base address erases. -/
  erase_iff : ∀ x, g (flashAddrToSector base) x = true ↔ (x - base).toNat < size

namespace Sector

variable {g : Geometry} (S : Sector g)

/-- The memory after the sector was erased. -/
def wipe (m : Memory) : Memory := m.erase g (flashAddrToSector S.base)

/-- Erasing sets the bytes of the sector. -/
theorem wipe_inside (m : Memory) {j : ℕ} (hj : j < S.size) :
    S.wipe m (S.base + UInt32.ofNat j) = 0xff := by
  have hfits := S.fits
  have hin : g (flashAddrToSector S.base) (S.base + UInt32.ofNat j) = true := by
    rw [S.erase_iff, Memory.toNat_sub_base S.base (by omega)]
    exact hj
  exact if_pos hin

/-- Erasing leaves the bytes outside the sector alone. -/
theorem wipe_outside (m : Memory) {x : UInt32} (hx : S.size ≤ (x - S.base).toNat) :
    S.wipe m x = m x := by
  have hout : ¬ g (flashAddrToSector S.base) x = true := by
    rw [S.erase_iff]
    omega
  exact if_neg hout

/-- Erasing an erased sector changes nothing. -/
@[simp] theorem wipe_wipe (m : Memory) : S.wipe (S.wipe m) = S.wipe m := by
  funext x
  show (if g (flashAddrToSector S.base) x then 0xff else S.wipe m x) = S.wipe m x
  split
  · exact (if_pos ‹_›).symm
  · rfl

/-- Memories that agree outside the sector agree once it is erased. -/
theorem wipe_congr {m m' : Memory} (h : ∀ x, S.size ≤ (x - S.base).toNat → m x = m' x) :
    S.wipe m = S.wipe m' := by
  funext x
  show (if g (flashAddrToSector S.base) x then 0xff else m x)
    = if g (flashAddrToSector S.base) x then 0xff else m' x
  by_cases hx : g (flashAddrToSector S.base) x = true
  · rw [if_pos hx, if_pos hx]
  · rw [if_neg hx, if_neg hx]
    refine h x (Nat.le_of_not_lt (fun hlt => hx ?_))
    exact (S.erase_iff x).mpr hlt

/-- An erased sector is erased throughout. -/
theorem erased_wipe (m : Memory) : (S.wipe m).Erased S.base S.size :=
  fun _ hj => S.wipe_inside m hj

end Sector

/-! ## The device -/

/-- The sectors of the device: the flash of both banks, cut up the way the
driver counts. -/
def flashGeometry : Geometry := fun n x =>
  decide (0x08000000 ≤ x) && decide (x < 0x08200000) && flashAddrToSector x == n

/-- What the driver calls the offset of an address. -/
theorem toNat_and_mask (p : UInt32) : (p &&& 0xFFFFFF).toNat = p.toNat % 2 ^ 24 := by
  rw [UInt32.toNat_and]
  exact Nat.and_two_pow_sub_one_eq_mod p.toNat 24

/-- **The large sectors of the first bank** are the seven ranges of 128 KiB behind its
first 128 KiB. -/
theorem flashGeometry_large {base : UInt32} {k : ℕ} (hk : 1 ≤ k ∧ k ≤ 7)
    (hbase : base.toNat = 0x08000000 + k * 0x20000) (x : UInt32) :
    flashGeometry (flashAddrToSector base) x = true ↔ (x - base).toNat < 128 * 1024 := by
  have hoff := toNat_and_mask
  have hsector : (flashAddrToSector base).toNat = 4 + k := by
    have h := hoff base
    unfold flashAddrToSector
    simp only [UInt32.le_iff_toNat_le, UInt32.lt_iff_toNat_lt, hoff, ge_iff_le,
      UInt32.reduceToNat]
    rw [if_neg (by omega), if_neg (by omega), if_neg (by omega)]
    simp [UInt32.toNat_div, h]
    omega
  have hx := x.toNat_lt
  have hsame : flashAddrToSector x = flashAddrToSector base
      ↔ (flashAddrToSector x).toNat = 4 + k := by
    rw [← hsector, UInt8.toNat_inj]
  unfold flashGeometry
  simp only [Bool.and_eq_true, decide_eq_true_eq, beq_iff_eq, hsame, UInt32.le_iff_toNat_le,
    UInt32.lt_iff_toNat_lt, UInt32.toNat_sub, UInt32.reduceToNat, hbase]
  unfold flashAddrToSector
  simp only [UInt32.le_iff_toNat_le, UInt32.lt_iff_toNat_lt, hoff, ge_iff_le,
    UInt32.reduceToNat]
  constructor
  · rintro ⟨⟨hlo, hhi⟩, hnat⟩
    split_ifs at hnat <;> simp [UInt32.toNat_div, hoff] at hnat <;> omega
  · intro h
    refine ⟨⟨by omega, by omega⟩, ?_⟩
    split_ifs <;> simp [UInt32.toNat_div, hoff] <;> omega

/-- The last sector of the first bank is the 128 KiB from `0x080e0000` on. -/
theorem flashGeometry_last (x : UInt32) :
    flashGeometry (flashAddrToSector 0x080e0000) x = true
      ↔ (x - 0x080e0000).toNat < 128 * 1024 :=
  flashGeometry_large ⟨by decide, le_refl 7⟩ (by decide) x
