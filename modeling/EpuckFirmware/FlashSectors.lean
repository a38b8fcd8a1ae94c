import EpuckFirmware.ConsecutiveRanges
import EpuckFirmware.Flash

/-!
# The sectors of the flash

The flash has two banks of the same layout: four sectors of 16 KiB, one of 64 KiB and
seven of 128 KiB. The driver computes the number of a sector from the low 24 bits of an
address. A bank has only `2 ^ 20` bytes, so that the numbers are right in the first bank
and beyond the last sector in the second.

Which sector the device erases for a number is its `Geometry`. What is assumed of it is
that the numbers below 12 are those of the first bank.
-/

namespace FlashSectors

open ConsecutiveRanges

/-! ## The device -/

/-- The sectors of a bank. -/
def bankSizes : List ℕ :=
  List.replicate 4 (16 * 1024) ++ [64 * 1024] ++ List.replicate 7 (128 * 1024)

/-- The sectors of the flash. -/
def sectorSizes : List ℕ := bankSizes ++ bankSizes

/-- The address is in the flash. -/
def InFlash (a : UInt32) : Prop := 0x08000000 ≤ a ∧ a < 0x08200000

/-- The address is in the physical sector of the number. -/
def InSector (k : ℕ) (a : UInt32) : Prop :=
  InFlash a ∧ Contains sectorSizes k (a.toNat - 0x08000000)

instance (a : UInt32) : Decidable (InFlash a) := inferInstanceAs (Decidable (_ ∧ _))

instance (k : ℕ) (a : UInt32) : Decidable (InSector k a) := inferInstanceAs (Decidable (_ ∧ _))

/-- The addresses are in the same physical sector. -/
def SameSector (a b : UInt32) : Prop := ∃ k, InSector k a ∧ InSector k b

theorem inFlash_iff (a : UInt32) :
    InFlash a ↔ 0x08000000 ≤ a.toNat ∧ a.toNat < 0x08200000 := by
  rw [InFlash, UInt32.le_iff_toNat_le, UInt32.lt_iff_toNat_lt]
  rfl

/-- **Every address of the flash is in a sector.** -/
theorem inFlash_iff_exists (a : UInt32) : InFlash a ↔ ∃ k, InSector k a := by
  constructor
  · intro h
    have hbounds := (inFlash_iff a).mp h
    have hsum : sectorSizes.sum = 0x200000 := by decide
    obtain ⟨k, hk⟩ := exists_contains_iff.mpr
      (show a.toNat - 0x08000000 < sectorSizes.sum by omega)
    exact ⟨k, h, hk⟩
  · rintro ⟨k, h, -⟩
    exact h

theorem InSector.unique {i j : ℕ} {a : UInt32} (hi : InSector i a) (hj : InSector j a) :
    i = j :=
  hi.2.unique hj.2

/-- The sectors are numbered in the order of their addresses. -/
theorem InSector.le_of_le {i j : ℕ} {a b : UInt32} (ha : InSector i a) (hb : InSector j b)
    (hab : a ≤ b) : i ≤ j :=
  ha.2.le_of_le hb.2 (Nat.sub_le_sub_right (UInt32.le_iff_toNat_le.mp hab) _)

/-- The small sectors of the first bank. -/
theorem start_small : ∀ k ≤ 4, start sectorSizes k = k * 0x4000 := by decide

/-- The large sectors of the first bank. -/
theorem start_large : ∀ q ≤ 7, start sectorSizes (5 + q) = (q + 1) * 0x20000 := by decide

/-- The sectors below 12 are in the first bank. -/
theorem InSector.lt_bank {k : ℕ} {a : UInt32} (h : InSector k a) (hk : k < 12) :
    a < 0x08100000 := by
  have hend : start sectorSizes 12 = 0x100000 := start_large 7 le_rfl
  have hle : start sectorSizes (k + 1) ≤ start sectorSizes 12 := start_mono sectorSizes hk
  have hlt := h.2.lt_start
  have hbase := ((inFlash_iff a).mp h.1).1
  exact UInt32.lt_iff_toNat_lt.mpr (show a.toNat < 0x08100000 by omega)

/-! ## The numbers of the driver -/

/-- What the driver computes in the first bank. -/
theorem toNat_flashAddrToSector_low {a : UInt32} {o : ℕ} (ha : a.toNat = 0x08000000 + o)
    (ho : o < 0x100000) :
    (flashAddrToSector a).toNat
      = if o < 0x10000 then o / 0x4000 else if o < 0x20000 then 4 else 4 + o / 0x20000 := by
  have hoff : (a &&& 0xFFFFFF).toNat = o := by
    rw [toNat_and_mask, ha]
    omega
  unfold flashAddrToSector
  simp only [UInt32.le_iff_toNat_le, UInt32.lt_iff_toNat_lt, hoff, ge_iff_le,
    UInt32.reduceToNat]
  rw [if_neg (show ¬ 0x08100000 ≤ a.toNat by omega)]
  split_ifs <;> simp [UInt32.toNat_div, hoff] <;> omega

/-- What the driver computes in the second bank. -/
theorem toNat_flashAddrToSector_high {a : UInt32} {o : ℕ} (ha : a.toNat = 0x08100000 + o)
    (ho : o < 0x100000) : (flashAddrToSector a).toNat = 24 + o / 0x20000 := by
  have hoff : (a &&& 0xFFFFFF).toNat = 0x100000 + o := by
    rw [toNat_and_mask, ha]
    omega
  unfold flashAddrToSector
  simp only [UInt32.le_iff_toNat_le, UInt32.lt_iff_toNat_lt, hoff, ge_iff_le,
    UInt32.reduceToNat]
  rw [if_pos (show 0x08100000 ≤ a.toNat by omega), if_neg (by omega), if_neg (by omega)]
  simp [UInt32.toNat_div, hoff]
  omega

/-- An address of the first bank by its offset. -/
theorem exists_offset_low {a : UInt32} (h : InFlash a) (hbank : a < 0x08100000) :
    ∃ o < 0x100000, a.toNat = 0x08000000 + o := by
  have hlt : a.toNat < 0x08100000 := UInt32.lt_iff_toNat_lt.mp hbank
  have hbounds := (inFlash_iff a).mp h
  exact ⟨a.toNat - 0x08000000, by omega, by omega⟩

/-- An address of the second bank by its offset. -/
theorem exists_offset_high {a : UInt32} (h : InFlash a) (hbank : ¬ a < 0x08100000) :
    ∃ o < 0x100000, a.toNat = 0x08100000 + o := by
  have hge : 0x08100000 ≤ a.toNat :=
    Nat.le_of_not_lt (fun hlt => hbank (UInt32.lt_iff_toNat_lt.mpr hlt))
  have hbounds := (inFlash_iff a).mp h
  exact ⟨a.toNat - 0x08100000, by omega, by omega⟩

/-- The numbers of the first bank are below 12. -/
theorem flashAddrToSector_lt {a : UInt32} (h : InFlash a) (hbank : a < 0x08100000) :
    (flashAddrToSector a).toNat < 12 := by
  obtain ⟨o, ho, ha⟩ := exists_offset_low h hbank
  rw [toNat_flashAddrToSector_low ha ho]
  split_ifs <;> omega

/-- The numbers for the second bank are beyond all sectors. -/
theorem le_flashAddrToSector {a : UInt32} (h : InFlash a) (hbank : ¬ a < 0x08100000) :
    24 ≤ (flashAddrToSector a).toNat := by
  obtain ⟨o, ho, ha⟩ := exists_offset_high h hbank
  rw [toNat_flashAddrToSector_high ha ho]
  exact Nat.le_add_right _ _

/-- **In the first bank the number is the one of the sector.** -/
theorem inSector_flashAddrToSector {a : UInt32} (h : InFlash a) (hbank : a < 0x08100000) :
    InSector (flashAddrToSector a).toNat a := by
  obtain ⟨o, ho, ha⟩ := exists_offset_low h hbank
  have hsub : a.toNat - 0x08000000 = o := by omega
  refine ⟨h, ?_⟩
  rw [toNat_flashAddrToSector_low ha ho, hsub]
  split_ifs with hsmall hmiddle
  · have hlo := start_small (o / 0x4000) (by omega)
    have hhi := start_small (o / 0x4000 + 1) (by omega)
    exact ⟨by omega, by omega⟩
  · have hlo := start_small 4 le_rfl
    have hhi : start sectorSizes (4 + 1) = 0x20000 := start_large 0 (Nat.zero_le 7)
    exact ⟨by omega, by omega⟩
  · obtain ⟨q, hq⟩ : ∃ q, o / 0x20000 = q + 1 := ⟨o / 0x20000 - 1, by omega⟩
    have hlo := start_large q (by omega)
    have hhi := start_large (q + 1) (by omega)
    rw [hq, show 4 + (q + 1) = 5 + q by omega]
    exact ⟨by omega, by rw [Nat.add_assoc]; omega⟩

/-- **The number is monotone** in the address, over both banks. -/
theorem flashAddrToSector_mono {a b : UInt32} (ha : InFlash a) (hb : InFlash b) (hab : a ≤ b) :
    flashAddrToSector a ≤ flashAddrToSector b := by
  rw [UInt8.le_iff_toNat_le]
  have hle := UInt32.le_iff_toNat_le.mp hab
  by_cases hbank : b < 0x08100000
  · have habank : a < 0x08100000 := UInt32.lt_of_le_of_lt hab hbank
    exact (inSector_flashAddrToSector ha habank).le_of_le (inSector_flashAddrToSector hb hbank) hab
  · by_cases habank : a < 0x08100000
    · have hlow := flashAddrToSector_lt ha habank
      have hhigh := le_flashAddrToSector hb hbank
      omega
    · obtain ⟨o, ho, hoa⟩ := exists_offset_high ha habank
      obtain ⟨o', ho', hob⟩ := exists_offset_high hb hbank
      rw [toNat_flashAddrToSector_high hoa ho, toNat_flashAddrToSector_high hob ho']
      have hdiv : o / 0x20000 ≤ o' / 0x20000 := Nat.div_le_div_right (by omega)
      omega

/-- The field of the control register that `flash_sector_erase_number` sets. -/
def crSnb (sector : UInt8) : UInt32 := (sector.toUInt32 <<< 3) &&& 0xF8

/-- The field holds the number of every address of the flash. -/
theorem crSnb_flashAddrToSector {a : UInt32} (h : InFlash a) :
    crSnb (flashAddrToSector a) >>> 3 = (flashAddrToSector a).toUInt32 := by
  have hfield : ∀ n < 32, crSnb (UInt8.ofNat n) >>> 3 = (UInt8.ofNat n).toUInt32 := by decide
  have hlt : (flashAddrToSector a).toNat < 32 := by
    by_cases hbank : a < 0x08100000
    · have hlow := flashAddrToSector_lt h hbank
      omega
    · obtain ⟨o, ho, ha⟩ := exists_offset_high h hbank
      rw [toNat_flashAddrToSector_high ha ho]
      omega
  have hnumber := hfield _ hlt
  rwa [UInt8.ofNat_toNat] at hnumber

/-! ## What the numbers are for -/

/-- **The driver is right at an address**: the number is the one of its sector, it is
the number of no address outside of the sector, larger addresses have no smaller ones,
and erasing at the address leaves everything outside of its sector alone. -/
structure NumbersSector (g : Geometry) (a : UInt32) : Prop where
  inSector : InSector (flashAddrToSector a).toNat a
  eq_iff : ∀ b, InFlash b → (flashAddrToSector a = flashAddrToSector b ↔ SameSector a b)
  le_of_le : ∀ b, InFlash b → a ≤ b → flashAddrToSector a ≤ flashAddrToSector b
  erase : ∀ (s : FlashState) (x : UInt32), ¬ SameSector a x →
    (Program.exec (FlashState.step g) (flashSectorErase a) s).state.mem x = s.mem x

/-- Addresses of the flash have the number of an address of the first bank if they are
in its sector. -/
theorem flashAddrToSector_eq_iff {a b : UInt32} (ha : InFlash a) (hbank : a < 0x08100000)
    (hb : InFlash b) : flashAddrToSector a = flashAddrToSector b ↔ SameSector a b := by
  have hina := inSector_flashAddrToSector ha hbank
  have hlt := flashAddrToSector_lt ha hbank
  constructor
  · intro heq
    have hbbank : b < 0x08100000 := by
      by_contra hge
      have hhigh := le_flashAddrToSector hb hge
      rw [← heq] at hhigh
      omega
    refine ⟨(flashAddrToSector a).toNat, hina, ?_⟩
    rw [heq]
    exact inSector_flashAddrToSector hb hbbank
  · rintro ⟨k, hka, hkb⟩
    have hk : k = (flashAddrToSector a).toNat := hka.unique hina
    have hinb := inSector_flashAddrToSector hb (hkb.lt_bank (by omega))
    exact UInt8.toNat_inj.mp (hk.symm.trans (hkb.unique hinb))

/-- **The driver is right in the first bank, and nowhere in the second.** -/
theorem numbersSector_iff {g : Geometry}
    (hg : ∀ n : UInt8, n < 12 → ∀ x, g n x = true ↔ InSector n.toNat x)
    {a : UInt32} (ha : InFlash a) : NumbersSector g a ↔ a < 0x08100000 := by
  constructor
  · intro h
    by_contra hbank
    have hhigh := le_flashAddrToSector ha hbank
    have hlt : (flashAddrToSector a).toNat < 24 := h.inSector.2.lt_length
    omega
  · intro hbank
    have hin := inSector_flashAddrToSector ha hbank
    refine ⟨hin, fun b => flashAddrToSector_eq_iff ha hbank,
      fun b => flashAddrToSector_mono ha, fun s x hx => ?_⟩
    cases hs : s.locked with
    | false =>
      rw [exec_flashSectorErase g a hs]
      refine if_neg (fun hgx => hx ⟨(flashAddrToSector a).toNat, hin, ?_⟩)
      exact (hg _ (UInt8.lt_iff_toNat_lt.mpr (flashAddrToSector_lt ha hbank)) x).mp hgx
    | true =>
      -- a locked device does not erase at all
      have hstate : (Program.exec (FlashState.step g) (flashSectorErase a) s).state = s :=
        if_pos hs
      rw [hstate]

/-- The sectors that the other modules take the device to have are the physical ones in
the first bank. -/
theorem flashGeometry_iff_inSector {n : UInt8} (hn : n < 12) (x : UInt32) :
    flashGeometry n x = true ↔ InSector n.toNat x := by
  have hlt : n.toNat < 12 := UInt8.lt_iff_toNat_lt.mp hn
  have hgeometry : flashGeometry n x = true ↔ InFlash x ∧ flashAddrToSector x = n := by
    simp only [flashGeometry, InFlash, Bool.and_eq_true, decide_eq_true_eq, beq_iff_eq]
  rw [hgeometry]
  constructor
  · rintro ⟨hx, rfl⟩
    refine inSector_flashAddrToSector hx ?_
    by_contra hbank
    have hhigh := le_flashAddrToSector hx hbank
    omega
  · intro h
    have hin := inSector_flashAddrToSector h.1 (h.lt_bank hlt)
    exact ⟨h.1, UInt8.toNat_inj.mp (hin.unique h)⟩

/-- The device whose numbers are those of the physical sectors. -/
def physicalGeometry : Geometry := fun n x => decide (InSector n.toNat x)

theorem numbersSector_first : NumbersSector physicalGeometry 0x08004000 :=
  (numbersSector_iff (fun _ _ _ => decide_eq_true_iff) (by decide)).mpr (by decide)

/-- The first address of the second bank is in sector 12, and gets the number 24. -/
theorem not_numbersSector_second : ¬ NumbersSector physicalGeometry 0x08100000 := by
  intro h
  exact absurd h.inSector (by decide)

end FlashSectors
