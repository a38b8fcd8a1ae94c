import EpuckFirmware.BlockDevice
import EpuckFirmware.LittleEndian

/-!
# The file allocation table on the memory card

Files are read through the FAT file system. A file is a chain of clusters, and the entry
of a cluster in the table is the number of the next one: `get_fat` reads an entry, of 12,
16 or 32 bits, through a window that holds one sector of the card. `disk_read` and the
functions beside it take the accesses to the card, which may fail at any time.

`Volume.fatEntry` says what an entry is, from the bytes of the card alone. `ends_getFat`
says that `get_fat` returns it, for every volume whose fields fit together
(`Volume.WellFormed`).
-/

namespace Fat

open BlockDevice MemorySegment

/-- `_MAX_SS`, the bytes of a sector. -/
def ss : ℕ := 512

abbrev Sector : Type := Block ss

abbrev Card (α : Type) : Type := Access ss α

/-- `FRESULT`, without the codes of the functions that are left out. -/
inductive FResult
  | ok | diskErr | intErr | notReady | noFile | noPath | invalidName | denied | invalidObject
  | writeProtected | invalidDrive | notEnabled | noFilesystem
  deriving DecidableEq

/-- `DRESULT`. -/
inductive DResult
  | ok | error | wrPrt | notRdy | parErr
  deriving DecidableEq

/-- `fs_type`. -/
inductive FsType
  | unmounted | fat12 | fat16 | fat32
  deriving DecidableEq

/-- The fields of `FATFS` that mounting a volume sets. -/
structure Volume where
  fsType : FsType
  drv : UInt8
  csize : UInt8
  nFats : UInt8
  fsiFlag : UInt8
  id : UInt16
  nRootdir : UInt16
  lastClust : UInt32
  freeClust : UInt32
  nFatent : UInt32
  fsize : UInt32
  volbase : UInt32
  fatbase : UInt32
  dirbase : UInt32
  database : UInt32
  deriving DecidableEq

/-- `FATFS`: a volume and the window to it. -/
structure Fatfs extends Volume where
  /-- `wflag`: the window was changed. -/
  wflag : Bool
  winsect : UInt32
  win : Sector

/-! ## The card -/

/-- The only drive. -/
def sdc : UInt8 := 0

/-- `disk_status`, without the write protection: whether the drive is initialized. -/
def diskStatus (pdrv : UInt8) : Card Bool :=
  if pdrv = sdc then isReady else pure false

/-- `disk_read`, with what it leaves in the buffer. -/
def diskRead (pdrv : UInt8) (sector : UInt32) (count : ℕ) : Card (DResult × List Sector) :=
  if pdrv ≠ sdc then pure (.parErr, [])
  else do
    let ready ← isReady
    if ready = false then pure (.notRdy, [])
    else do
      let reply ← readBlocks sector.toNat count
      match reply with
      | .error left => pure (.error, left)
      | .ok blocks => pure (.ok, blocks)

/-- `disk_write`, of one sector. -/
def diskWrite (pdrv : UInt8) (buff : Sector) (sector : UInt32) : Card DResult :=
  if pdrv ≠ sdc then pure .parErr
  else do
    let ready ← isReady
    if ready = false then pure .notRdy
    else do
      let written ← writeBlock sector.toNat buff
      pure (if written then .ok else .error)

/-! ## The window -/

/-- The writes of `sync_window` to the other copies of the FAT. -/
def mirror (fs : Fatfs) (wsect : UInt32) : ℕ → Card Unit
  | 0 => pure ()
  | copies + 1 => do
    let wsect := wsect + fs.fsize
    let _ ← diskWrite fs.drv fs.win wsect
    mirror fs wsect copies

/-- `sync_window`. -/
def syncWindow (fs : Fatfs) : Card (FResult × Fatfs) :=
  if fs.wflag then do
    let wsect := fs.winsect
    let res ← diskWrite fs.drv fs.win wsect
    if res ≠ .ok then pure (.diskErr, fs)
    else do
      if wsect - fs.fatbase < fs.fsize then mirror fs wsect (fs.nFats.toNat - 1) else pure ()
      pure (.ok, { fs with wflag := false })
  else pure (.ok, fs)

/-- `move_window`. -/
def moveWindow (fs : Fatfs) (sector : UInt32) : Card (FResult × Fatfs) :=
  if sector ≠ fs.winsect then do
    let (res, fs) ← syncWindow fs
    if res ≠ .ok then pure (.diskErr, fs)
    else do
      let (res, buffer) ← diskRead fs.drv sector 1
      let fs := { fs with win := buffer.headD fs.win }
      if res ≠ .ok then pure (.diskErr, fs) else pure (.ok, { fs with winsect := sector })
  else pure (.ok, fs)

theorem moveWindow_self (fs : Fatfs) : moveWindow fs fs.winsect = pure (.ok, fs) :=
  if_neg (not_not_intro rfl)

/-- The byte of the window at an offset. -/
def Fatfs.byte (fs : Fatfs) (offset : UInt32) : UInt8 := fs.win.bytes.getD offset.toNat 0

/-- `LD_WORD`, of the bytes at an offset of a sector. -/
def ldWord (sector : Sector) (offset : ℕ) : UInt16 := leHalf ((sector.bytes.drop offset).take 2)

/-- `LD_DWORD`. -/
def ldDword (sector : Sector) (offset : ℕ) : UInt32 := leWord ((sector.bytes.drop offset).take 4)

/-! ## Clusters -/

/-- `clust2sect`: 0 for the number of no cluster. -/
def clust2sect (v : Volume) (clst : UInt32) : UInt32 :=
  let clst := clst - 2
  if clst ≥ v.nFatent - 2 then 0 else clst * v.csize.toUInt32 + v.database

/-- The number of a cluster. -/
def Volume.Cluster (v : Volume) (c : ℕ) : Prop := 2 ≤ c ∧ c < v.nFatent.toNat

/-- What `get_fat` returns when the card fails. -/
def diskError : UInt32 := 0xFFFFFFFF

/-- `get_fat`. -/
def getFat (fs : Fatfs) (clst : UInt32) : Card (UInt32 × Fatfs) :=
  if clst < 2 ∨ clst ≥ fs.nFatent then pure (1, fs)
  else
    match fs.fsType with
    | .fat12 => do
      let bc := clst + clst / 2
      let (res, fs) ← moveWindow fs (fs.fatbase + bc / 512)
      if res ≠ .ok then pure (diskError, fs)
      else do
        let wc := (fs.byte (bc % 512)).toUInt32
        let bc := bc + 1
        let (res, fs) ← moveWindow fs (fs.fatbase + bc / 512)
        if res ≠ .ok then pure (diskError, fs)
        else
          let wc := wc ||| (fs.byte (bc % 512)).toUInt32 <<< 8
          pure (if clst &&& 1 ≠ 0 then wc >>> 4 else wc &&& 0xFFF, fs)
    | .fat16 => do
      let (res, fs) ← moveWindow fs (fs.fatbase + clst / 256)
      if res ≠ .ok then pure (diskError, fs)
      else pure ((ldWord fs.win (clst * 2 % 512).toNat).toUInt32, fs)
    | .fat32 => do
      let (res, fs) ← moveWindow fs (fs.fatbase + clst / 128)
      if res ≠ .ok then pure (diskError, fs)
      else pure (ldDword fs.win (clst * 4 % 512).toNat &&& 0x0FFFFFFF, fs)
    | .unmounted => pure (1, fs)

/-! ## What the card holds -/

/-- The byte of the FAT at an offset. -/
def Volume.fatByte (v : Volume) (blocks : ℕ → Sector) (i : ℕ) : UInt8 :=
  byteAt blocks (v.fatbase.toNat * ss + i)

/-- **The entry of a cluster** in the FAT. Two entries of 12 bits share three bytes, and the
upper four bits of an entry of 32 bits are reserved. -/
def Volume.fatEntry (v : Volume) (blocks : ℕ → Sector) (c : ℕ) : ℕ :=
  match v.fsType with
  | .fat12 =>
    let word := leNat (segment (v.fatByte blocks) (c + c / 2) (c + c / 2 + 2))
    if c % 2 = 1 then word / 16 else word % 4096
  | .fat16 => leNat (segment (v.fatByte blocks) (c * 2) (c * 2 + 2))
  | .fat32 => leNat (segment (v.fatByte blocks) (c * 4) (c * 4 + 4)) % 2 ^ 28
  | .unmounted => 1

/-- The bytes that the entries of all clusters need. -/
def Volume.fatBytes (v : Volume) : ℕ :=
  match v.fsType with
  | .fat12 => v.nFatent.toNat + (v.nFatent.toNat + 1) / 2
  | .fat16 => v.nFatent.toNat * 2
  | .fat32 => v.nFatent.toNat * 4
  | .unmounted => 0

/-- `MIN_FAT16`, the number of clusters from which on entries have 16 bits. -/
def minFat16 : ℕ := 4086

/-- **The fields of a volume fit together**: the clusters have a number of sectors that
is a power of two, their entries fit into the FAT, the FAT lies before the data and the
data is within the numbers of sectors. A root directory that is no file lies between them. -/
structure Volume.WellFormed (v : Volume) : Prop where
  mounted : v.fsType ≠ .unmounted
  drv : v.drv = sdc
  csize : ∃ k, v.csize.toNat = 2 ^ k
  nFatent : 2 < v.nFatent.toNat
  fat12 : v.fsType = .fat12 → v.nFatent.toNat < minFat16 + 2
  fits : v.fatBytes ≤ v.fsize.toNat * ss
  fatbase : 0 < v.fatbase.toNat
  database : v.fatbase.toNat + v.fsize.toNat ≤ v.database.toNat
  data : v.database.toNat + (v.nFatent.toNat - 2) * v.csize.toNat ≤ 2 ^ 32
  rootdir : v.nRootdir.toNat % 16 = 0
  root : 0 < v.nRootdir.toNat → v.fatbase.toNat + v.fsize.toNat ≤ v.dirbase.toNat
    ∧ v.dirbase.toNat + v.nRootdir.toNat / 16 = v.database.toNat

/-- The window holds what the card does. -/
structure Fatfs.Clean (fs : Fatfs) (blocks : ℕ → Sector) : Prop where
  wflag : fs.wflag = false
  win : fs.win = blocks fs.winsect.toNat

theorem Volume.WellFormed.csize_pos {v : Volume} (hv : v.WellFormed) : 0 < v.csize.toNat := by
  obtain ⟨k, hk⟩ := hv.csize
  rw [hk]
  exact Nat.two_pow_pos k

/-- Masking with one less than the sectors of a cluster gives the rest of the division. -/
theorem toNat_and_csize {v : Volume} (hv : v.WellFormed) (x : UInt32) :
    (x &&& (v.csize.toUInt32 - 1)).toNat = x.toNat % v.csize.toNat := by
  obtain ⟨k, hk⟩ := hv.csize
  have hpos := hv.csize_pos
  have hmask : (v.csize.toUInt32 - 1).toNat = 2 ^ k - 1 := by
    rw [UInt32.toNat_sub_of_le _ _ (by
      rw [UInt32.le_iff_toNat_le, UInt8.toNat_toUInt32]
      exact hpos), UInt8.toNat_toUInt32, hk]
    rfl
  rw [UInt32.toNat_and, hmask, Nat.and_two_pow_sub_one_eq_mod, hk]

/-- The sectors of a cluster have numbers of 32 bits. -/
theorem Volume.WellFormed.sectors_lt {v : Volume} (hv : v.WellFormed) {c : ℕ}
    (h : v.Cluster c) :
    v.database.toNat + (c - 2) * v.csize.toNat + v.csize.toNat ≤ 2 ^ 32 := by
  have hlow := h.1
  have hhigh := h.2
  have hmul : (c - 2 + 1) * v.csize.toNat ≤ (v.nFatent.toNat - 2) * v.csize.toNat :=
    Nat.mul_le_mul_right _ (by omega)
  rw [add_mul, one_mul] at hmul
  have hdata := hv.data
  omega

/-- **The sectors of a cluster** start where `clust2sect` says. -/
theorem toNat_clust2sect {v : Volume} (hv : v.WellFormed) {clst : UInt32}
    (h : v.Cluster clst.toNat) :
    (clust2sect v clst).toNat = v.database.toNat + (clst.toNat - 2) * v.csize.toNat := by
  have hlast := hv.sectors_lt h
  have hsub : ∀ x : UInt32, 2 ≤ x.toNat → (x - 2).toNat = x.toNat - 2 := fun x hx =>
    UInt32.toNat_sub_of_le x 2 hx
  rw [clust2sect, if_neg]
  · have hcsize := hv.csize_pos
    rw [UInt32.toNat_add, UInt32.toNat_mul, hsub clst h.1, UInt8.toNat_toUInt32,
      Nat.mod_eq_of_lt (a := _ * _) (by omega), Nat.mod_eq_of_lt (by omega), add_comm]
  · have hlow := h.1
    have hhigh := h.2
    rw [ge_iff_le, UInt32.le_iff_toNat_le, hsub clst hlow, hsub _ (by omega)]
    omega

/-- `clust2sect` returns 0 for what is no cluster. -/
theorem clust2sect_eq_zero {v : Volume} (hv : v.WellFormed) {clst : UInt32}
    (h : ¬ v.Cluster clst.toNat) : clust2sect v clst = 0 := by
  rw [clust2sect, if_pos]
  have hclst := clst.toNat_lt
  have hnFatent := hv.nFatent
  have hmax := v.nFatent.toNat_lt
  rw [ge_iff_le, UInt32.le_iff_toNat_le, UInt32.toNat_sub, UInt32.toNat_sub]
  show (2 ^ 32 - 2 + _) % 2 ^ 32 ≤ (2 ^ 32 - 2 + _) % 2 ^ 32
  rw [Volume.Cluster] at h
  omega

/-! ## Reading through the window -/

section Reading

variable {blocks : ℕ → Sector} {good : Prop} {d : Device ss}

theorem ends_diskRead (h : d.Holds blocks good) (sector : UInt32) (count : ℕ) :
    Program.Ends Device.step Op.ReadsOnly (diskRead sdc sector count) d
      (fun r d' => d'.Holds blocks good
        ∧ (r = (.ok, (List.range' sector.toNat count).map blocks) ∨ r.1 ≠ .ok ∧ ¬ good)) := by
  rw [diskRead, if_neg (fun hne => hne rfl)]
  refine (ends_isReady trivial h).bind (fun ready d₁ h₁ => ?_)
  obtain ⟨h₁, hready⟩ := h₁
  cases ready with
  | false => exact .pure ⟨h₁, Or.inr ⟨by simp, fun hgood => by simpa using hready hgood⟩⟩
  | true =>
    rw [if_neg (by simp)]
    refine (ends_readBlocks trivial h₁).bind (fun reply d₂ h₂ => ?_)
    obtain ⟨h₂, rfl | ⟨⟨left, rfl⟩, hbad⟩⟩ := h₂
    · exact .pure ⟨h₂, Or.inl rfl⟩
    · exact .pure ⟨h₂, Or.inr ⟨by simp, hbad⟩⟩

/-- **Moving a window without changes** shows the sector, unless the card fails. -/
theorem ends_moveWindow {fs : Fatfs} {sector : UInt32} (hdrv : fs.drv = sdc)
    (hwflag : fs.wflag = false) (hwin : sector = fs.winsect → fs.win = blocks sector.toNat)
    (h : d.Holds blocks good) :
    Program.Ends Device.step Op.ReadsOnly (moveWindow fs sector) d
      (fun r d' => d'.Holds blocks good ∧ r.2.toVolume = fs.toVolume
        ∧ (r.1 = .ok ∧ r.2.Clean blocks ∧ r.2.winsect = sector ∨ r.1 = .diskErr ∧ ¬ good)) := by
  unfold moveWindow
  by_cases hsector : sector = fs.winsect
  · rw [if_neg (not_not_intro hsector)]
    exact .pure ⟨h, rfl, Or.inl ⟨rfl, ⟨hwflag, hsector ▸ hwin hsector⟩, hsector.symm⟩⟩
  rw [if_pos hsector, syncWindow, if_neg (by rw [hwflag]; simp)]
  show Program.Ends _ _ (diskRead fs.drv sector 1 >>= _) d _
  rw [hdrv]
  refine (ends_diskRead h sector 1).bind (fun r d' hr => ?_)
  obtain ⟨h', rfl | ⟨hres, hbad⟩⟩ := hr
  · exact .pure ⟨h', rfl, Or.inl ⟨rfl, ⟨hwflag, rfl⟩, rfl⟩⟩
  · obtain ⟨res, buffer⟩ := r
    show Program.Ends _ _ (if res ≠ .ok then _ else _) d' _
    rw [if_pos hres]
    exact .pure ⟨h', rfl, Or.inr ⟨rfl, hbad⟩⟩

/-- A clean window holds its sector wherever it is moved. -/
theorem Fatfs.Clean.win_of_eq {fs : Fatfs} (hclean : fs.Clean blocks) {sector : UInt32}
    (h : sector = fs.winsect) : fs.win = blocks sector.toNat := by
  rw [h, hclean.win]

/-! ### The entries of the FAT -/

theorem toNat_ldWord (sector : Sector) (offset : ℕ) :
    (ldWord sector offset).toNat = leNat ((sector.bytes.drop offset).take 2) :=
  toNat_leHalf (List.length_take_le _ _)

theorem toNat_ldDword (sector : Sector) (offset : ℕ) :
    (ldDword sector offset).toNat = leNat ((sector.bytes.drop offset).take 4) :=
  toNat_leWord (List.length_take_le _ _)

/-- The sector of the FAT with the byte at an offset. -/
theorem toNat_fatSector {v : Volume} (hv : v.WellFormed) {k : UInt32} {i : ℕ}
    (hk : k.toNat = i / ss) (hi : i < v.fatBytes) :
    (v.fatbase + k).toNat = v.fatbase.toNat + i / ss := by
  have hlt : i / ss < v.fsize.toNat :=
    Nat.div_lt_of_lt_mul (by rw [mul_comm]; exact lt_of_lt_of_le hi hv.fits)
  have hdatabase := hv.database
  have hbound := v.database.toNat_lt
  rw [UInt32.toNat_add, hk, Nat.mod_eq_of_lt (by omega)]

/-- **The window on a sector of the FAT** holds a segment of its bytes. -/
theorem take_drop_win {v : Volume} (hv : v.WellFormed) {fs : Fatfs} (hclean : fs.Clean blocks)
    {k : UInt32} {i m : ℕ} (hsect : fs.winsect = v.fatbase + k) (hk : k.toNat = i / ss)
    (hi : i < v.fatBytes) (hm : i % ss + m ≤ ss) :
    (fs.win.bytes.drop (i % ss)).take m = segment (v.fatByte blocks) i (i + m) := by
  have hposition : (v.fatbase.toNat + i / ss) * ss + i % ss = v.fatbase.toNat * ss + i := by
    rw [add_mul, add_assoc, Nat.div_add_mod']
  rw [hclean.win, hsect, toNat_fatSector hv hk hi, take_drop_block blocks _ hm, hposition]
  exact segment_shift (fun j _ => by rw [Volume.fatByte, add_assoc])

/-- What an access through the window leaves: the same volume, and the value that the card
holds, unless it fails. -/
def Fetched (blocks : ℕ → Sector) (good : Prop) (v : Volume) (entry : ℕ) (r : UInt32 × Fatfs)
    (d : Device ss) : Prop :=
  d.Holds blocks good ∧ r.2.toVolume = v
    ∧ (r.1.toNat = entry ∧ r.2.Clean blocks ∨ r.1 = diskError ∧ ¬ good)

variable {fs : Fatfs} {clst : UInt32}

/-- A clean window that was moved to the part of the FAT with an entry. -/
theorem ends_fetch {v : Volume} (hfs : fs.toVolume = v) (hv : v.WellFormed)
    (hclean : fs.Clean blocks) (h : d.Holds blocks good) {sector : UInt32} {entry : ℕ}
    {f : Fatfs → UInt32}
    (hf : ∀ fs' : Fatfs, fs'.toVolume = v → fs'.Clean blocks → fs'.winsect = sector →
      (f fs').toNat = entry) :
    Program.Ends Device.step Op.ReadsOnly
      (moveWindow fs sector >>= fun r =>
        if r.1 ≠ .ok then pure (diskError, r.2) else pure (f r.2, r.2)) d
      (Fetched blocks good v entry) := by
  have hdrv : fs.drv = sdc := by
    rw [← hv.drv, ← hfs]
  refine (ends_moveWindow hdrv hclean.wflag hclean.win_of_eq h).bind (fun r d' hr => ?_)
  obtain ⟨h', hvolume, ⟨hres, hclean', hsect⟩ | ⟨hres, hbad⟩⟩ := hr
  · rw [if_neg (not_not_intro hres)]
    exact .pure ⟨h', hvolume.trans hfs,
      Or.inl ⟨hf r.2 (hvolume.trans hfs) hclean' hsect, hclean'⟩⟩
  · rw [if_pos (by rw [hres]; decide)]
    exact .pure ⟨h', hvolume.trans hfs, Or.inr ⟨rfl, hbad⟩⟩

theorem ends_getFat_fat16 (hv : fs.WellFormed) (htype : fs.fsType = .fat16)
    (hclean : fs.Clean blocks) (h : d.Holds blocks good) (hlow : 2 ≤ clst.toNat)
    (hhigh : clst.toNat < fs.nFatent.toNat) :
    Program.Ends Device.step Op.ReadsOnly (getFat fs clst) d
      (Fetched blocks good fs.toVolume (fs.fatEntry blocks clst.toNat)) := by
  have hbytes : clst.toNat * 2 < fs.fatBytes := by
    rw [Volume.fatBytes, htype]
    show _ < fs.nFatent.toNat * 2
    omega
  have hsector : (clst / 256).toNat = clst.toNat * 2 / ss := by
    rw [UInt32.toNat_div, show (256 : UInt32).toNat = 256 from rfl, ss]
    omega
  have hoffset : (clst * 2 % 512).toNat = clst.toNat * 2 % ss := by
    rw [UInt32.toNat_mod, UInt32.toNat_mul, show (2 : UInt32).toNat = 2 from rfl,
      show (512 : UInt32).toNat = 512 from rfl, Nat.mod_mod_of_dvd _ (by norm_num), ss]
  rw [getFat, if_neg (not_or.mpr ⟨UInt32.not_lt.mpr hlow, UInt32.not_le.mpr hhigh⟩), htype]
  refine ends_fetch rfl hv hclean h (f := fun fs =>
    (ldWord fs.win (clst * 2 % 512).toNat).toUInt32) (fun fs' hvolume hclean' hsect => ?_)
  rw [UInt16.toNat_toUInt32, toNat_ldWord, hoffset,
    take_drop_win hv hclean' hsect hsector hbytes (by rw [ss]; omega), Volume.fatEntry, htype]

theorem ends_getFat_fat32 (hv : fs.WellFormed) (htype : fs.fsType = .fat32)
    (hclean : fs.Clean blocks) (h : d.Holds blocks good) (hlow : 2 ≤ clst.toNat)
    (hhigh : clst.toNat < fs.nFatent.toNat) :
    Program.Ends Device.step Op.ReadsOnly (getFat fs clst) d
      (Fetched blocks good fs.toVolume (fs.fatEntry blocks clst.toNat)) := by
  have hbytes : clst.toNat * 4 < fs.fatBytes := by
    rw [Volume.fatBytes, htype]
    show _ < fs.nFatent.toNat * 4
    omega
  have hsector : (clst / 128).toNat = clst.toNat * 4 / ss := by
    rw [UInt32.toNat_div, show (128 : UInt32).toNat = 128 from rfl, ss]
    omega
  have hoffset : (clst * 4 % 512).toNat = clst.toNat * 4 % ss := by
    rw [UInt32.toNat_mod, UInt32.toNat_mul, show (4 : UInt32).toNat = 4 from rfl,
      show (512 : UInt32).toNat = 512 from rfl, Nat.mod_mod_of_dvd _ (by norm_num), ss]
  rw [getFat, if_neg (not_or.mpr ⟨UInt32.not_lt.mpr hlow, UInt32.not_le.mpr hhigh⟩), htype]
  refine ends_fetch rfl hv hclean h (f := fun fs =>
    ldDword fs.win (clst * 4 % 512).toNat &&& 0x0FFFFFFF) (fun fs' hvolume hclean' hsect => ?_)
  rw [UInt32.toNat_and, toNat_ldDword, hoffset,
    take_drop_win hv hclean' hsect hsector hbytes (by rw [ss]; omega), Volume.fatEntry, htype]
  exact Nat.and_two_pow_sub_one_eq_mod _ 28

/-- The byte of a clean window on a sector of the FAT. -/
theorem byte_win {v : Volume} (hv : v.WellFormed) (hclean : fs.Clean blocks) {i : UInt32}
    (hsect : fs.winsect = v.fatbase + i / 512) (hi : i.toNat < v.fatBytes) :
    fs.byte (i % 512) = v.fatByte blocks i.toNat := by
  have hlt : i.toNat % ss < ss := Nat.mod_lt _ (by decide)
  have hbyte := take_drop_win hv hclean (m := 1) hsect (UInt32.toNat_div i 512) hi hlt
  rw [segment_cons (by omega), segment_self] at hbyte
  have hhead := congrArg List.head? hbyte
  rw [List.head?_take, if_neg (by decide), List.head?_drop] at hhead
  rw [Fatfs.byte, UInt32.toNat_mod, List.getD_eq_getElem?_getD]
  show (fs.win.bytes[i.toNat % ss]?).getD 0 = _
  rw [hhead]
  rfl

/-- Two bytes as a number. -/
theorem toNat_or_shiftLeft (low high : UInt8) :
    (low.toUInt32 ||| high.toUInt32 <<< 8).toNat = leNat [low, high] := by
  have hlow := low.toNat_lt
  have hhigh := high.toNat_lt
  have hshift : (high.toUInt32 <<< 8).toNat = 2 ^ 8 * high.toNat := by
    rw [UInt32.toNat_shiftLeft, UInt8.toNat_toUInt32, Nat.shiftLeft_eq]
    show high.toNat * 2 ^ 8 % 2 ^ 32 = _
    omega
  rw [UInt32.toNat_or, hshift, UInt8.toNat_toUInt32, Nat.or_comm, ← Nat.two_pow_add_eq_or_of_lt hlow]
  simp only [leNat]
  omega

/-- The half of three bytes that belongs to a cluster. -/
theorem toNat_oddEven (clst wc : UInt32) :
    (if clst &&& 1 ≠ 0 then wc >>> 4 else wc &&& 0xFFF).toNat
      = if clst.toNat % 2 = 1 then wc.toNat / 16 else wc.toNat % 4096 := by
  have hodd : (clst &&& 1 ≠ 0) ↔ clst.toNat % 2 = 1 := by
    rw [ne_eq, ← UInt32.toNat_inj, UInt32.toNat_and]
    show ¬ clst.toNat &&& 1 = 0 ↔ _
    rw [Nat.and_one_is_mod]
    omega
  by_cases h : clst.toNat % 2 = 1
  · rw [if_pos (hodd.mpr h), if_pos h, UInt32.toNat_shiftRight]
    exact Nat.shiftRight_eq_div_pow _ 4
  · rw [if_neg (fun hne => h (hodd.mp hne)), if_neg h, UInt32.toNat_and]
    exact Nat.and_two_pow_sub_one_eq_mod _ 12

theorem ends_getFat_fat12 (hv : fs.WellFormed) (htype : fs.fsType = .fat12)
    (hclean : fs.Clean blocks) (h : d.Holds blocks good) (hlow : 2 ≤ clst.toNat)
    (hhigh : clst.toNat < fs.nFatent.toNat) :
    Program.Ends Device.step Op.ReadsOnly (getFat fs clst) d
      (Fetched blocks good fs.toVolume (fs.fatEntry blocks clst.toNat)) := by
  have hbytes : clst.toNat + clst.toNat / 2 + 1 < fs.fatBytes := by
    rw [Volume.fatBytes, htype]
    show _ < fs.nFatent.toNat + (fs.nFatent.toNat + 1) / 2
    omega
  have hfew := hv.fat12 htype
  rw [minFat16] at hfew
  have hlower : (clst + clst / 2).toNat = clst.toNat + clst.toNat / 2 := by
    rw [UInt32.toNat_add, UInt32.toNat_div]
    exact Nat.mod_eq_of_lt (by simp only [show (2 : UInt32).toNat = 2 from rfl]; omega)
  have hupper : (clst + clst / 2 + 1).toNat = clst.toNat + clst.toNat / 2 + 1 := by
    rw [UInt32.toNat_add, hlower]
    exact Nat.mod_eq_of_lt (by simp only [show (1 : UInt32).toNat = 1 from rfl]; omega)
  rw [getFat, if_neg (not_or.mpr ⟨UInt32.not_lt.mpr hlow, UInt32.not_le.mpr hhigh⟩), htype]
  refine (ends_moveWindow hv.drv hclean.wflag hclean.win_of_eq h).bind (fun r d' hr => ?_)
  obtain ⟨res, fs₁⟩ := r
  obtain ⟨h₁, hvolume, ⟨rfl, hclean₁, hsect⟩ | ⟨rfl, hbad⟩⟩ := hr
  · show Program.Ends _ _ (moveWindow fs₁ (fs₁.fatbase + (clst + clst / 2 + 1) / 512) >>= _) d' _
    have hfatbase : fs₁.fatbase = fs.fatbase := congrArg Volume.fatbase hvolume
    have hfirst : fs₁.byte ((clst + clst / 2) % 512)
        = fs.fatByte blocks (clst.toNat + clst.toNat / 2) := by
      rw [byte_win hv hclean₁ hsect (by omega), hlower]
    refine ends_fetch hvolume hv hclean₁ h₁ (f := fun fs₂ =>
      let wc := (fs₁.byte ((clst + clst / 2) % 512)).toUInt32
        ||| (fs₂.byte ((clst + clst / 2 + 1) % 512)).toUInt32 <<< 8
      if clst &&& 1 ≠ 0 then wc >>> 4 else wc &&& 0xFFF) (fun fs₂ _ hclean₂ hsect₂ => ?_)
    have hsecond : fs₂.byte ((clst + clst / 2 + 1) % 512)
        = fs.fatByte blocks (clst.toNat + clst.toNat / 2 + 1) := by
      rw [byte_win hv hclean₂ (hsect₂.trans (by rw [hfatbase])) (by omega), hupper]
    show (if clst &&& 1 ≠ 0 then _ else _ : UInt32).toNat = _
    rw [toNat_oddEven, hfirst, hsecond, toNat_or_shiftLeft, Volume.fatEntry, htype,
      segment_cons (by omega), segment_cons (by omega), segment_self]
  · exact .pure ⟨h₁, hvolume, Or.inr ⟨rfl, hbad⟩⟩

/-- **`get_fat` returns the entry of a cluster**, unless the card fails. It only reads, and
leaves the window clean. -/
theorem ends_getFat (hv : fs.WellFormed) (hclean : fs.Clean blocks) (h : d.Holds blocks good)
    (hlow : 2 ≤ clst.toNat) (hhigh : clst.toNat < fs.nFatent.toNat) :
    Program.Ends Device.step Op.ReadsOnly (getFat fs clst) d
      (Fetched blocks good fs.toVolume (fs.fatEntry blocks clst.toNat)) := by
  cases htype : fs.fsType with
  | unmounted => exact absurd htype hv.mounted
  | fat12 => exact ends_getFat_fat12 hv htype hclean h hlow hhigh
  | fat16 => exact ends_getFat_fat16 hv htype hclean h hlow hhigh
  | fat32 => exact ends_getFat_fat32 hv htype hclean h hlow hhigh

end Reading

/-! ## A card with one file -/

/-- A sector that starts with some bytes. -/
def padded (bytes : List UInt8) : Sector :=
  ⟨(bytes ++ List.replicate ss 0).take ss, by simp⟩

/-- A card with a volume of 13 clusters of one sector each. The root directory has a file
`A.WAV` of 600 bytes, in the clusters 2 and 3. -/
def smallCard : ℕ → Sector
  | 0 => padded (List.replicate 11 0
      ++ [0x00, 0x02, 0x01, 0x01, 0x00, 0x01, 0x10, 0x00, 0x10, 0x00, 0xF8, 0x01, 0x00]
      ++ List.replicate 30 0 ++ [0x46, 0x41, 0x54] ++ List.replicate 453 0 ++ [0x55, 0xAA])
  | 1 => padded [0xF8, 0xFF, 0xFF, 0x03, 0xF0, 0xFF]
  | 2 => padded ([0x41, 0x20, 0x20, 0x20, 0x20, 0x20, 0x20, 0x20, 0x57, 0x41, 0x56, 0x20]
      ++ List.replicate 14 0 ++ [0x02, 0x00, 0x58, 0x02, 0x00, 0x00])
  | k => padded [UInt8.ofNat k]

/-- The volume of the card. -/
def smallVolume : Volume where
  fsType := .fat12
  drv := sdc
  csize := 1
  nFats := 1
  fsiFlag := 0x80
  id := 0
  nRootdir := 16
  lastClust := 0xFFFFFFFF
  freeClust := 0xFFFFFFFF
  nFatent := 15
  fsize := 1
  volbase := 0
  fatbase := 1
  dirbase := 2
  database := 3

theorem wellFormed_smallVolume : smallVolume.WellFormed where
  mounted := nofun
  drv := rfl
  csize := ⟨0, rfl⟩
  nFatent := by decide
  fat12 := fun _ => by decide
  fits := by decide
  fatbase := by decide
  database := by decide
  data := by decide
  rootdir := by decide
  root := fun _ => by decide

example : smallVolume.fatEntry smallCard 2 = 3 := by decide +kernel

end Fat
