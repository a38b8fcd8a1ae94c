import EpuckFirmware.FatVolume

/-!
# Mounting the volume of the memory card

`find_volume` looks for a boot sector of a FAT volume, at the start of the card or where an
entry of the partition table says, and computes the fields of the volume from it. It
accepts a boot sector only after checks, made with numbers of 32 bits.

`wellFormed_of_analyzeBpb` says what the checks are good for: the fields of every volume
that is accepted fit together, as long as the numbers of the boot sector are those of a
volume within 2³² sectors. `IsVolumeOf` says which volume a card has, from its sectors
alone, and `ends_findVolume` that this is the one that is mounted.
-/

namespace Fat

open BlockDevice

/-- The results of `check_fs`. -/
inductive BootSector
  | fat | notFat | notBoot | diskError
  deriving DecidableEq

/-- The byte of a sector at an offset. -/
def ldByte (sector : Sector) (offset : ℕ) : UInt8 := sector.bytes.getD offset 0

/-- The text "FAT" at an offset. -/
def isFat (win : Sector) (offset : ℕ) : Bool := ldDword win offset &&& 0xFFFFFF = 0x544146

/-- What `check_fs` finds in a sector. -/
def bootFormat (win : Sector) : BootSector :=
  if ldWord win 510 ≠ 0xAA55 then .notBoot
  else if isFat win 54 then .fat
  else if isFat win 82 then .fat
  else .notFat

/-- `check_fs`. -/
def checkFs (fs : Fatfs) (sect : UInt32) : Card (BootSector × Fatfs) := do
  let fs := { fs with wflag := false, winsect := 0xFFFFFFFF }
  let (res, fs) ← moveWindow fs sect
  if res ≠ .ok then pure (.diskError, fs) else pure (bootFormat fs.win, fs)

/-- The check of a partition, unless its entry is empty. -/
def checkPartition (fs : Fatfs) (bsect : UInt32) : Card (BootSector × Fatfs) :=
  if bsect ≠ 0 then checkFs fs bsect else pure (.notBoot, fs)

/-- The loop over the partitions, which ends with the first FAT volume or the last entry. -/
def findPartition (fs : Fatfs) (bsect : UInt32) : List UInt32 → Card (BootSector × UInt32 × Fatfs)
  | [] => do
    let (fmt, fs) ← checkPartition fs bsect
    pure (fmt, bsect, fs)
  | bsect' :: br => do
    let (fmt, fs) ← checkPartition fs bsect
    if fmt ≠ .fat then findPartition fs bsect' br else pure (fmt, bsect, fs)

/-- The start of a partition, 0 for an empty entry of the partition table. -/
def partitionStart (win : Sector) (i : ℕ) : UInt32 :=
  let pt := 446 + i * 16
  if ldByte win (pt + 4) ≠ 0 then ldDword win (pt + 8) else 0

/-- The part of `find_volume` that looks for the boot sector. -/
def findBootSector (fs : Fatfs) : Card (BootSector × UInt32 × Fatfs) := do
  let (fmt, fs) ← checkFs fs 0
  if fmt = .notFat then
    findPartition fs (partitionStart fs.win 0)
      [partitionStart fs.win 1, partitionStart fs.win 2, partitionStart fs.win 3]
  else pure (fmt, 0, fs)

/-! ### The boot sector -/

/-- `BPB_FATSz16`, or `BPB_FATSz32` where it is 0. -/
def bpbFatSz (win : Sector) : UInt32 :=
  if (ldWord win 22).toUInt32 = 0 then ldDword win 36 else (ldWord win 22).toUInt32

/-- `BPB_TotSec16`, or `BPB_TotSec32` where it is 0. -/
def bpbTotSec (win : Sector) : UInt32 :=
  if (ldWord win 19).toUInt32 = 0 then ldDword win 32 else (ldWord win 19).toUInt32

/-- `BPB_NumFATs`. -/
def bpbNumFats (win : Sector) : UInt8 := ldByte win 16

/-- `BPB_SecPerClus`. -/
def bpbSecPerClus (win : Sector) : UInt8 := ldByte win 13

/-- `BPB_RootEntCnt`. -/
def bpbRootEntCnt (win : Sector) : UInt16 := ldWord win 17

/-- `BPB_RsvdSecCnt`. -/
def bpbRsvdSecCnt (win : Sector) : UInt16 := ldWord win 14

/-- The sub type of a FAT with a number of clusters. -/
def subType (nclst : UInt32) : FsType :=
  if nclst ≥ 65526 then .fat32 else if nclst ≥ 4086 then .fat16 else .fat12

/-- `szbfat`, the bytes that a FAT needs. -/
def szbfat (fmt : FsType) (nFatent : UInt32) : UInt32 :=
  match fmt with
  | .fat32 => nFatent * 4
  | .fat16 => nFatent * 2
  | _ => nFatent * 3 / 2 + (nFatent &&& 1)

/-- The part of `find_volume` that sets the fields of the volume from its boot sector:
nothing for `FR_NO_FILESYSTEM`. -/
def analyzeBpb (v : Volume) (win : Sector) (bsect : UInt32) : Option Volume :=
  if ldWord win 11 ≠ 512 then none
  else
    let fsize := bpbFatSz win
    let nFats := bpbNumFats win
    if nFats ≠ 1 ∧ nFats ≠ 2 then none
    else
      let fasize := fsize * nFats.toUInt32
      let csize := bpbSecPerClus win
      if csize = 0 ∨ csize &&& (csize - 1) ≠ 0 then none
      else
        let nRootdir := bpbRootEntCnt win
        if nRootdir % 16 ≠ 0 then none
        else
          let tsect := bpbTotSec win
          let nrsv := bpbRsvdSecCnt win
          if nrsv = 0 then none
          else
            let sysect := nrsv.toUInt32 + fasize + (nRootdir / 16).toUInt32
            if tsect < sysect then none
            else
              let nclst := (tsect - sysect) / csize.toUInt32
              if nclst = 0 then none
              else
                let fmt := subType nclst
                let nFatent := nclst + 2
                let fatbase := bsect + nrsv.toUInt32
                if fmt = .fat32 ∧ nRootdir ≠ 0 ∨ fmt ≠ .fat32 ∧ nRootdir = 0 then none
                else
                  let dirbase := if fmt = .fat32 then ldDword win 44 else fatbase + fasize
                  if fsize < (szbfat fmt nFatent + 511) / 512 then none
                  else some { v with
                    fsType := fmt, csize := csize, nFats := nFats, nRootdir := nRootdir
                    lastClust := 0xFFFFFFFF, freeClust := 0xFFFFFFFF, fsiFlag := 0x80
                    nFatent := nFatent, fsize := fsize, volbase := bsect, fatbase := fatbase
                    dirbase := dirbase, database := bsect + sysect }

/-- The part of `find_volume` that takes the number of free clusters from the FSINFO sector. -/
def readFsInfo (fs : Fatfs) (bpb : Sector) (bsect : UInt32) : Card Fatfs :=
  if fs.fsType = .fat32 ∧ ldWord bpb 48 = 1 then do
    let (res, fs) ← moveWindow fs (bsect + 1)
    if res ≠ .ok then pure fs
    else if ldWord fs.win 510 = 0xAA55 ∧ ldDword fs.win 0 = 0x41615252
        ∧ ldDword fs.win 484 = 0x61417272 then
      pure { fs with fsiFlag := 0, freeClust := ldDword fs.win 488, lastClust := ldDword fs.win 492 }
    else pure { fs with fsiFlag := 0 }
  else pure fs

/-- The part of `find_volume` that mounts the volume, with the number that it gets. When it
fails, `fs_type` is 0, and the other fields are not used. -/
def mountVolume (fs : Fatfs) (fsid : UInt16) : Card (FResult × Fatfs) := do
  let fs := { fs with fsType := .unmounted, drv := sdc }
  let initialized ← diskStatus fs.drv
  if initialized = false then pure (.notReady, fs)
  else do
    let (fmt, bsect, fs) ← findBootSector fs
    if fmt = .diskError then pure (.diskErr, fs)
    else if fmt ≠ .fat then pure (.noFilesystem, fs)
    else
      match analyzeBpb fs.toVolume fs.win bsect with
      | none => pure (.noFilesystem, fs)
      | some v => do
        let fs ← readFsInfo { fs with toVolume := v } fs.win bsect
        pure (.ok, { fs with id := fsid })

/-- Whether the volume is mounted and the drive is still initialized. -/
def isMounted (fs : Fatfs) : Card Bool :=
  if fs.fsType ≠ .unmounted then diskStatus fs.drv else pure false

/-- `find_volume` for reading from the drive, with the number of the last volume that was
mounted. -/
def findVolume (fs : Fatfs) (fsid : UInt16) : Card (FResult × Fatfs × UInt16) := do
  let mounted ← isMounted fs
  if mounted then pure (.ok, fs, fsid)
  else do
    let (res, fs) ← mountVolume fs (fsid + 1)
    pure (res, fs, if res = .ok then fsid + 1 else fsid)

/-! ## The fields of an accepted volume -/

/-- **The numbers of a boot sector are those of a volume within 2³² sectors**: neither the
numbers of sectors nor the numbers of bytes that `find_volume` computes wrap around. -/
structure WithinRange (win : Sector) (bsect : UInt32) : Prop where
  areas : (bpbRsvdSecCnt win).toNat + (bpbFatSz win).toNat * (bpbNumFats win).toNat
    + (bpbRootEntCnt win).toNat / 16 < 2 ^ 32
  volume : bsect.toNat + (bpbTotSec win).toNat < 2 ^ 32
  clusters : (bpbTotSec win).toNat / (bpbSecPerClus win).toNat + 2 < 2 ^ 28

/-- A number without common bits with the one before is a power of two. -/
theorem isPowerOfTwo {c : UInt8} (hpos : c ≠ 0) (h : c &&& (c - 1) = 0) :
    ∃ k, c.toNat = 2 ^ k := by
  have hall : ∀ c : BitVec 8, c ≠ 0 → c &&& (c - 1) = 0 → ∃ k < 8, c.toNat = 2 ^ k := by decide
  obtain ⟨k, -, hk⟩ := hall c.toBitVec (fun hzero => hpos (UInt8.toBitVec_inj.mp hzero))
    (by rw [← UInt8.toBitVec_inj] at h; exact h)
  exact ⟨k, hk⟩

section Analyzing

variable {win : Sector} {bsect : UInt32}

/-- The sectors before the data. -/
theorem toNat_sysect (hrange : WithinRange win bsect) :
    ((bpbRsvdSecCnt win).toUInt32 + bpbFatSz win * (bpbNumFats win).toUInt32
        + (bpbRootEntCnt win / 16).toUInt32).toNat
      = (bpbRsvdSecCnt win).toNat + (bpbFatSz win).toNat * (bpbNumFats win).toNat
        + (bpbRootEntCnt win).toNat / 16 := by
  have hareas := hrange.areas
  rw [UInt32.toNat_add, UInt32.toNat_add, UInt32.toNat_mul, UInt16.toNat_toUInt32,
    UInt16.toNat_toUInt32, UInt8.toNat_toUInt32, UInt16.toNat_div,
    show (16 : UInt16).toNat = 16 from rfl, Nat.mod_eq_of_lt (a := _ * _) (by omega),
    Nat.mod_eq_of_lt (a := _ + _ * _) (by omega), Nat.mod_eq_of_lt hareas]

theorem subType_ne (nclst : UInt32) : subType nclst ≠ .unmounted := by
  unfold subType
  split_ifs <;> exact nofun

/-- FAT12 is for few clusters. -/
theorem lt_of_subType {nclst : UInt32} (h : subType nclst = .fat12) : nclst.toNat < minFat16 := by
  unfold subType at h
  split_ifs at h with h32 h16
  exact Nat.not_le.mp (fun hle => h16 (UInt32.le_iff_toNat_le.mpr hle))

/-- The check of the size of the FAT. -/
theorem fatBytes_le {v : Volume} (hlt : v.nFatent.toNat < 2 ^ 28)
    (h : ¬ v.fsize < (szbfat v.fsType v.nFatent + 511) / 512) :
    v.fatBytes ≤ v.fsize.toNat * ss := by
  have hle := UInt32.le_iff_toNat_le.mp (UInt32.not_lt.mp h)
  have hround : ∀ x : UInt32, x.toNat < 2 ^ 31 → ((x + 511) / 512).toNat = (x.toNat + 511) / 512 := by
    intro x hx
    rw [UInt32.toNat_div, UInt32.toNat_add, Nat.mod_eq_of_lt]
    · rfl
    · change x.toNat + 511 < 2 ^ 32
      omega
  have hmul : ∀ c : UInt32, c.toNat ≤ 4 → (v.nFatent * c).toNat = v.nFatent.toNat * c.toNat := by
    intro c hc
    have : v.nFatent.toNat * c.toNat ≤ v.nFatent.toNat * 4 := Nat.mul_le_mul_left _ hc
    rw [UInt32.toNat_mul, Nat.mod_eq_of_lt (by omega)]
  unfold Volume.fatBytes
  cases htype : v.fsType with
  | unmounted => exact Nat.zero_le _
  | fat32 =>
    have hbytes : (szbfat .fat32 v.nFatent).toNat = v.nFatent.toNat * 4 := hmul 4 le_rfl
    rw [htype, hround _ (by omega), hbytes] at hle
    show v.nFatent.toNat * 4 ≤ v.fsize.toNat * 512
    omega
  | fat16 =>
    have hbytes : (szbfat .fat16 v.nFatent).toNat = v.nFatent.toNat * 2 := hmul 2 (by decide)
    rw [htype, hround _ (by omega), hbytes] at hle
    show v.nFatent.toNat * 2 ≤ v.fsize.toNat * 512
    omega
  | fat12 =>
    have hbytes : (szbfat .fat12 v.nFatent).toNat
        = v.nFatent.toNat * 3 / 2 + v.nFatent.toNat % 2 := by
      show (v.nFatent * 3 / 2 + (v.nFatent &&& 1)).toNat = _
      have hodd : (v.nFatent &&& 1).toNat = v.nFatent.toNat % 2 := by
        rw [UInt32.toNat_and]
        exact Nat.and_one_is_mod _
      have hhalf : (v.nFatent * 3 / 2).toNat = v.nFatent.toNat * 3 / 2 := by
        rw [UInt32.toNat_div, hmul 3 (by decide)]
        rfl
      rw [UInt32.toNat_add, hodd, hhalf, Nat.mod_eq_of_lt (by omega)]
    have hpairs : v.nFatent.toNat * 3 / 2 + v.nFatent.toNat % 2
        = v.nFatent.toNat + (v.nFatent.toNat + 1) / 2 := by
      obtain heven | hodd := Nat.even_or_odd' v.nFatent.toNat |>.choose_spec
      · rw [heven]
        omega
      · rw [hodd]
        omega
    rw [htype, hround _ (by omega), hbytes, hpairs] at hle
    show v.nFatent.toNat + (v.nFatent.toNat + 1) / 2 ≤ v.fsize.toNat * 512
    omega

/-- What the checks of `find_volume` say, in numbers that do not wrap around. -/
structure Analyzed (v : Volume) (win : Sector) (bsect : UInt32) (v' : Volume) (nclst : ℕ) :
    Prop where
  drv : v'.drv = v.drv
  csize : ∃ k, v'.csize.toNat = 2 ^ k
  nclst_pos : 0 < nclst
  nclst_lt : nclst + 2 < 2 ^ 28
  nFatent : v'.nFatent.toNat = nclst + 2
  mounted : v'.fsType ≠ .unmounted
  fat12 : v'.fsType = .fat12 → nclst < minFat16
  fatbase : v'.fatbase.toNat = bsect.toNat + (bpbRsvdSecCnt win).toNat
  nrsv : 0 < (bpbRsvdSecCnt win).toNat
  database : v'.fatbase.toNat + v'.fsize.toNat ≤ v'.database.toNat
  data : v'.database.toNat + nclst * v'.csize.toNat ≤ bsect.toNat + (bpbTotSec win).toNat
  fits : v'.fatBytes ≤ v'.fsize.toNat * ss
  rootdir : v'.nRootdir.toNat % 16 = 0
  root : 0 < v'.nRootdir.toNat → v'.fatbase.toNat + v'.fsize.toNat ≤ v'.dirbase.toNat
    ∧ v'.dirbase.toNat + v'.nRootdir.toNat / 16 = v'.database.toNat

theorem analyzed_of_analyzeBpb {v v' : Volume} (h : analyzeBpb v win bsect = some v')
    (hrange : WithinRange win bsect) : ∃ nclst, Analyzed v win bsect v' nclst := by
  unfold analyzeBpb at h
  simp only [Option.ite_none_left_eq_some, Option.some.injEq] at h
  obtain ⟨-, hnFats, hcsize, hrootdir, hnrsv, htsect, hnclst, htype, hfsize, rfl⟩ := h
  have hareas := hrange.areas
  have hvolume := hrange.volume
  have hclusters := hrange.clusters
  have hsysect := toNat_sysect hrange
  obtain ⟨hcsize0, hpower⟩ := not_or.mp hcsize
  obtain ⟨k, hk⟩ := isPowerOfTwo hcsize0 (not_not.mp hpower)
  have hcsize_pos : 0 < (bpbSecPerClus win).toNat := by
    rw [hk]
    exact Nat.two_pow_pos k
  have htsect' := UInt32.le_iff_toNat_le.mp (UInt32.not_lt.mp htsect)
  generalize (bpbRsvdSecCnt win).toUInt32 + bpbFatSz win * (bpbNumFats win).toUInt32
    + (bpbRootEntCnt win / 16).toUInt32 = sysect at *
  have hquot : ((bpbTotSec win - sysect) / (bpbSecPerClus win).toUInt32).toNat
      = ((bpbTotSec win).toNat - sysect.toNat) / (bpbSecPerClus win).toNat := by
    rw [UInt32.toNat_div, UInt32.toNat_sub_of_le _ _ (UInt32.not_lt.mp htsect),
      UInt8.toNat_toUInt32]
  have hdata : ((bpbTotSec win).toNat - sysect.toNat) / (bpbSecPerClus win).toNat
      * (bpbSecPerClus win).toNat ≤ (bpbTotSec win).toNat - sysect.toNat :=
    Nat.div_mul_le_self _ _
  have hle : ((bpbTotSec win).toNat - sysect.toNat) / (bpbSecPerClus win).toNat
      ≤ (bpbTotSec win).toNat / (bpbSecPerClus win).toNat :=
    Nat.div_le_div_right (Nat.sub_le _ _)
  rw [← hquot] at hdata hle
  generalize (bpbTotSec win - sysect) / (bpbSecPerClus win).toUInt32 = q at *
  have hq : 0 < q.toNat := Nat.pos_of_ne_zero (fun hzero => hnclst (UInt32.toNat_inj.mp hzero))
  have hnFatent : (q + 2).toNat = q.toNat + 2 := by
    rw [UInt32.toNat_add, Nat.mod_eq_of_lt (by change q.toNat + 2 < 2 ^ 32; omega)]
    rfl
  have hnFats' : 1 ≤ (bpbNumFats win).toNat := by
    by_contra hzero
    exact hnFats ⟨fun hone => by rw [hone] at hzero; exact hzero le_rfl,
      fun htwo => by rw [htwo] at hzero; exact hzero (by decide)⟩
  have hfasize : (bpbFatSz win).toNat * 1 ≤ (bpbFatSz win).toNat * (bpbNumFats win).toNat :=
    Nat.mul_le_mul_left _ hnFats'
  have hfatbase : (bsect + (bpbRsvdSecCnt win).toUInt32).toNat
      = bsect.toNat + (bpbRsvdSecCnt win).toNat := by
    rw [UInt32.toNat_add, UInt16.toNat_toUInt32, Nat.mod_eq_of_lt (by omega)]
  have hdatabase : (bsect + sysect).toNat = bsect.toNat + sysect.toNat := by
    rw [UInt32.toNat_add, Nat.mod_eq_of_lt (by omega)]
  refine ⟨q.toNat, rfl, ⟨k, hk⟩, hq, by omega, hnFatent, subType_ne q, lt_of_subType, hfatbase,
    ?_, ?_, ?_, fatBytes_le (by rw [hnFatent]; omega) hfsize, ?_, ?_⟩
  · exact Nat.pos_of_ne_zero (fun hzero => hnrsv (UInt16.toNat_inj.mp hzero))
  · show (bsect + _).toNat + (bpbFatSz win).toNat ≤ (bsect + sysect).toNat
    omega
  · show (bsect + sysect).toNat + q.toNat * (bpbSecPerClus win).toNat ≤ _
    omega
  · rw [not_not, ← UInt16.toNat_inj, UInt16.toNat_mod] at hrootdir
    exact hrootdir
  · intro hroot
    have hfat32 : subType q ≠ .fat32 := fun hfat32 =>
      htype (Or.inl ⟨hfat32, fun hzero => absurd (congrArg UInt16.toNat hzero) hroot.ne'⟩)
    have hdirbase : (bsect + (bpbRsvdSecCnt win).toUInt32
        + bpbFatSz win * (bpbNumFats win).toUInt32).toNat
        = bsect.toNat + (bpbRsvdSecCnt win).toNat
          + (bpbFatSz win).toNat * (bpbNumFats win).toNat := by
      rw [UInt32.toNat_add, hfatbase, UInt32.toNat_mul, UInt8.toNat_toUInt32,
        Nat.mod_eq_of_lt (a := _ * _) (by omega), Nat.mod_eq_of_lt (by omega)]
    simp only [if_neg hfat32, hdirbase, hfatbase, hdatabase]
    omega

/-- **The fields of a volume that is accepted fit together**, when its boot sector is that
of a volume within 2³² sectors. -/
theorem wellFormed_of_analyzeBpb {v v' : Volume} (hdrv : v.drv = sdc)
    (h : analyzeBpb v win bsect = some v') (hrange : WithinRange win bsect) : v'.WellFormed := by
  obtain ⟨nclst, ha⟩ := analyzed_of_analyzeBpb h hrange
  have hnFatent := ha.nFatent
  have hpos := ha.nclst_pos
  have hvolume := hrange.volume
  have hdata := ha.data
  exact {
    mounted := ha.mounted
    drv := ha.drv.trans hdrv
    csize := ha.csize
    nFatent := by omega
    fat12 := fun htype => by rw [hnFatent]; exact Nat.add_lt_add_right (ha.fat12 htype) 2
    fits := ha.fits
    fatbase := by have := ha.nrsv; rw [ha.fatbase]; omega
    database := ha.database
    data := by rw [hnFatent, Nat.add_sub_cancel]; omega
    rootdir := ha.rootdir
    root := ha.root }

theorem drv_of_analyzeBpb {v v' : Volume} (h : analyzeBpb v win bsect = some v') :
    v'.drv = v.drv := by
  unfold analyzeBpb at h
  simp only [Option.ite_none_left_eq_some, Option.some.injEq] at h
  obtain ⟨-, -, -, -, -, -, -, -, -, rfl⟩ := h
  rfl

/-- The boot sector decides all fields but the drive and the number of the volume. -/
theorem analyzeBpb_eq (v w : Volume) (win : Sector) (bsect : UInt32) :
    analyzeBpb v win bsect
      = (analyzeBpb w win bsect).map (fun x => { x with drv := v.drv, id := v.id }) := by
  unfold analyzeBpb
  simp only [apply_ite (Option.map _), Option.map_none, Option.map_some]

/-- The numbers that `find_volume` takes from elsewhere do not matter. -/
theorem Volume.WellFormed.update {v : Volume} (h : v.WellFormed) (fsiFlag : UInt8)
    (freeClust lastClust : UInt32) (id : UInt16) :
    ({ v with fsiFlag := fsiFlag, freeClust := freeClust, lastClust := lastClust,
              id := id } : Volume).WellFormed :=
  ⟨h.mounted, h.drv, h.csize, h.nFatent, h.fat12, h.fits, h.fatbase, h.database, h.data,
    h.rootdir, h.root⟩

end Analyzing

/-! ## The volume of a card -/

section VolumeOf

variable (blocks : ℕ → Sector)

/-- Whether a partition that starts with a sector is checked and found to be a FAT volume. The
number 0xFFFFFFFF stands for no sector: the window is taken for this one, and not read. -/
def isBootSector (bsect : UInt32) : Bool :=
  bsect ≠ 0 && bsect ≠ 0xFFFFFFFF && bootFormat (blocks bsect.toNat) = .fat

/-- The starts of the partitions. -/
def partitionStarts (win : Sector) : List UInt32 :=
  [partitionStart win 0, partitionStart win 1, partitionStart win 2, partitionStart win 3]

/-- **The boot sector of a card**: its first sector, or that of the first partition with a FAT
volume. -/
def bootSectorOf : Option UInt32 :=
  match bootFormat (blocks 0) with
  | .fat => some 0
  | .notFat => (partitionStarts (blocks 0)).find? (isBootSector blocks)
  | _ => none

/-- The fields before mounting. -/
def noVolume : Volume :=
  ⟨.unmounted, sdc, 0, 0, 0, 0, 0, 0, 0, 0, 0, 0, 0, 0, 0⟩

/-- **The volume of a card**, but for the numbers that do not come from the boot sector. -/
def IsVolumeOf (v : Volume) : Prop :=
  ∃ bsect w, bootSectorOf blocks = some bsect
    ∧ analyzeBpb noVolume (blocks bsect.toNat) bsect = some w
    ∧ v = { w with fsiFlag := v.fsiFlag, freeClust := v.freeClust, lastClust := v.lastClust,
                   id := v.id }

/-- The boot sector of the card is that of a volume within 2³² sectors. -/
def BootWithinRange : Prop :=
  ∀ bsect, bootSectorOf blocks = some bsect → WithinRange (blocks bsect.toNat) bsect

end VolumeOf

/-- The fields of the volume of a card fit together. -/
theorem IsVolumeOf.wellFormed {blocks : ℕ → Sector} {v : Volume} (h : IsVolumeOf blocks v)
    (hrange : BootWithinRange blocks) : v.WellFormed := by
  obtain ⟨bsect, w, hboot, hw, hv⟩ := h
  rw [hv]
  exact (wellFormed_of_analyzeBpb rfl hw (hrange bsect hboot)).update _ _ _ _

/-- **A mounted volume** is that of the card, and the window is clean. -/
structure Mounted (blocks : ℕ → Sector) (fs : Fatfs) : Prop where
  clean : fs.Clean blocks
  volume : IsVolumeOf blocks fs.toVolume

/-! ## Mounting on a card that works -/

section Mounting

variable {blocks : ℕ → Sector} {good : Prop} {d : Device ss} {fs : Fatfs} {v : Volume}

/-- **A check of a sector.** -/
theorem ends_checkFs (hgood : good) (hfs : fs.toVolume = v) (hdrv : v.drv = sdc)
    (h : d.Holds blocks good) (sect : UInt32) :
    Program.Ends Device.step Op.ReadsOnly (checkFs fs sect) d (fun r d' =>
      d'.Holds blocks good ∧ r.2.toVolume = v ∧ r.1 = bootFormat r.2.win
        ∧ (sect = 0xFFFFFFFF → r.2.win = fs.win)
        ∧ (sect ≠ 0xFFFFFFFF → r.2.Clean blocks ∧ r.2.winsect = sect)) := by
  unfold checkFs
  by_cases hsect : sect = 0xFFFFFFFF
  · have hself := moveWindow_self { fs with wflag := false, winsect := sect }
    rw [← hsect]
    dsimp only at hself ⊢
    rw [hself]
    exact .pure ⟨h, hfs, rfl, fun _ => rfl, fun hne => absurd rfl hne⟩
  · refine Program.Ends.bind (ends_moveWindow (hfs ▸ hdrv) rfl ?_ h) (fun r d' hr => ?_)
    · exact fun heq => absurd heq hsect
    obtain ⟨res, fs'⟩ := r
    obtain ⟨h', hvolume, ⟨rfl, hclean, hwinsect⟩ | ⟨rfl, hbad⟩⟩ := hr
    · exact .pure ⟨h', Eq.trans hvolume hfs, rfl, fun heq => absurd heq hsect,
        fun _ => ⟨hclean, hwinsect⟩⟩
    · exact absurd hgood hbad

/-- What looking for the boot sector ends with: the window is on it, or there is none. -/
def BootEnds (blocks : ℕ → Sector) (good : Prop) (v : Volume) (boot : Option UInt32)
    (r : BootSector × UInt32 × Fatfs) (d : Device ss) : Prop :=
  d.Holds blocks good ∧ r.2.2.toVolume = v
    ∧ (r.1 = .fat ∧ boot = some r.2.1 ∧ r.2.2.Clean blocks ∧ r.2.2.winsect = r.2.1
      ∨ r.1 ≠ .fat ∧ r.1 ≠ .diskError ∧ boot = none ∧ bootFormat r.2.2.win ≠ .fat)

theorem bootFormat_ne_diskError (win : Sector) : bootFormat win ≠ .diskError := by
  unfold bootFormat
  split_ifs
  · exact nofun
  · exact nofun
  · exact nofun
  · exact nofun

/-- A check of an entry of the partition table. -/
theorem ends_checkPartition (hgood : good) (hfs : fs.toVolume = v) (hdrv : v.drv = sdc)
    (h : d.Holds blocks good) (hwin : bootFormat fs.win ≠ .fat) (bsect : UInt32) :
    Program.Ends Device.step Op.ReadsOnly (checkPartition fs bsect) d (fun r d' =>
      BootEnds blocks good v ([bsect].find? (isBootSector blocks)) (r.1, bsect, r.2) d') := by
  unfold checkPartition
  by_cases hbsect : bsect = 0
  · rw [if_neg (not_not_intro hbsect)]
    refine .pure ⟨h, hfs, Or.inr ⟨nofun, nofun, ?_, hwin⟩⟩
    rw [List.find?_singleton, if_neg (by rw [isBootSector, hbsect]; simp)]
  rw [if_pos hbsect]
  refine (ends_checkFs hgood hfs hdrv h bsect).mono (fun r d' hr => ?_)
  obtain ⟨h', hvolume, hfmt, hstale, hread⟩ := hr
  by_cases hsect : bsect = 0xFFFFFFFF
  · rw [hstale hsect] at hfmt
    refine ⟨h', hvolume, Or.inr ⟨by rw [hfmt]; exact hwin, ?_, ?_, by rw [hstale hsect]; exact hwin⟩⟩
    · rw [hfmt]
      exact bootFormat_ne_diskError _
    · rw [List.find?_singleton, if_neg (by rw [isBootSector, hsect]; simp)]
  obtain ⟨hclean, hwinsect⟩ := hread hsect
  have hboot : isBootSector blocks bsect = decide (r.1 = .fat) := by
    rw [isBootSector, hfmt, hclean.win, hwinsect]
    simp [hbsect, hsect]
  by_cases hfat : r.1 = .fat
  · refine ⟨h', hvolume, Or.inl ⟨hfat, ?_, hclean, hwinsect⟩⟩
    rw [List.find?_singleton, if_pos (by rw [hboot]; exact decide_eq_true hfat)]
  · refine ⟨h', hvolume, Or.inr ⟨hfat, ?_, ?_, hfmt ▸ hfat⟩⟩
    · rw [hfmt]
      exact bootFormat_ne_diskError _
    · rw [List.find?_singleton, if_neg (by rw [hboot]; simpa using hfat)]

/-- **The loop over the partitions** ends on the first FAT volume, or without one. -/
theorem ends_findPartition (hgood : good) (hdrv : v.drv = sdc) (br : List UInt32) :
    ∀ {d : Device ss} {fs : Fatfs} (bsect : UInt32), fs.toVolume = v → d.Holds blocks good →
      bootFormat fs.win ≠ .fat →
      Program.Ends Device.step Op.ReadsOnly (findPartition fs bsect br) d
        (BootEnds blocks good v ((bsect :: br).find? (isBootSector blocks))) := by
  induction br with
  | nil =>
    intro d fs bsect hfs h hwin
    rw [findPartition]
    exact (ends_checkPartition hgood hfs hdrv h hwin bsect).bind (fun r d' hr => .pure hr)
  | cons bsect' br ih =>
    intro d fs bsect hfs h hwin
    rw [findPartition]
    refine (ends_checkPartition hgood hfs hdrv h hwin bsect).bind (fun r d' hr => ?_)
    obtain ⟨fmt, fs'⟩ := r
    show Program.Ends _ _ (if fmt ≠ .fat then _ else _) d' _
    obtain ⟨h', hfs', ⟨hfmt, hboot, hwindow⟩ | ⟨hfmt, -, hnone, hwin'⟩⟩ := hr
    · rw [if_neg (not_not_intro hfmt)]
      refine .pure ⟨h', hfs', Or.inl ⟨hfmt, ?_, hwindow⟩⟩
      rw [List.find?_cons_of_pos (List.find?_some hboot)]
    · rw [if_pos hfmt, List.find?_cons_of_neg (by simpa using hnone)]
      exact ih bsect' hfs' h' hwin'

/-- **Looking for the boot sector** finds that of the card. -/
theorem ends_findBootSector (hgood : good) (hfs : fs.toVolume = v) (hdrv : v.drv = sdc)
    (h : d.Holds blocks good) :
    Program.Ends Device.step Op.ReadsOnly (findBootSector fs) d
      (BootEnds blocks good v (bootSectorOf blocks)) := by
  unfold findBootSector
  refine (ends_checkFs hgood hfs hdrv h 0).bind (fun r d' hr => ?_)
  obtain ⟨fmt, fs'⟩ := r
  obtain ⟨h', hfs', hfmt, -, hread⟩ := hr
  obtain ⟨hclean, hwinsect⟩ := hread (by decide)
  show Program.Ends _ _ (if fmt = .notFat then _ else _) d' _
  dsimp only at hfs' hfmt hclean hwinsect
  have hwin : fs'.win = blocks 0 := by
    rw [hclean.win, hwinsect]
    rfl
  by_cases hnot : fmt = .notFat
  · have hformat : bootFormat (blocks 0) = .notFat := by rw [← hwin, ← hfmt, hnot]
    rw [if_pos hnot, bootSectorOf, hformat, hwin]
    exact ends_findPartition hgood hdrv _ _ hfs' h' (by rw [hwin, hformat]; exact nofun)
  · rw [if_neg hnot]
    by_cases hfat : fmt = .fat
    · have hformat : bootFormat (blocks 0) = .fat := by rw [← hwin, ← hfmt, hfat]
      refine .pure ⟨h', hfs', Or.inl ⟨hfat, ?_, hclean, hwinsect⟩⟩
      rw [bootSectorOf, hformat]
    · refine .pure ⟨h', hfs', Or.inr ⟨hfat, ?_, ?_, hfmt ▸ hfat⟩⟩
      · rw [hfmt]
        exact bootFormat_ne_diskError _
      · rw [hfmt, hwin] at hfat hnot
        unfold bootSectorOf
        split
        · exact absurd ‹_› hfat
        · exact absurd ‹_› hnot
        · rfl

/-- The FSINFO sector changes the numbers of free clusters only. -/
theorem ends_readFsInfo (hgood : good) (hdrv : fs.drv = sdc) (hclean : fs.Clean blocks)
    (h : d.Holds blocks good) (bpb : Sector) (bsect : UInt32) :
    Program.Ends Device.step Op.ReadsOnly (readFsInfo fs bpb bsect) d (fun fs' d' =>
      d'.Holds blocks good ∧ fs'.Clean blocks
        ∧ fs'.toVolume = { fs.toVolume with fsiFlag := fs'.fsiFlag, freeClust := fs'.freeClust,
                                            lastClust := fs'.lastClust }) := by
  unfold readFsInfo
  by_cases hfsinfo : fs.fsType = .fat32 ∧ ldWord bpb 48 = 1
  · rw [if_pos hfsinfo]
    refine (ends_moveWindow hdrv hclean.wflag hclean.win_of_eq h).bind (fun r d' hr => ?_)
    obtain ⟨res, fs'⟩ := r
    obtain ⟨h', hvolume, ⟨rfl, hclean', -⟩ | ⟨rfl, hbad⟩⟩ := hr
    · show Program.Ends _ _ (if _ ∧ _ ∧ _ then _ else _) d' _
      rw [← show fs'.toVolume = fs.toVolume from hvolume]
      split_ifs
      · exact .pure ⟨h', ⟨hclean'.wflag, hclean'.win⟩, rfl⟩
      · exact .pure ⟨h', ⟨hclean'.wflag, hclean'.win⟩, rfl⟩
    · exact absurd hgood hbad
  · rw [if_neg hfsinfo]
    exact .pure ⟨h, hclean, rfl⟩

/-- What mounting ends with: the volume of the card, or none if the card has none. -/
def MountEnds (blocks : ℕ → Sector) (good : Prop) (res : FResult) (fs : Fatfs) (d : Device ss) :
    Prop :=
  d.Holds blocks good ∧ (res = .ok ∧ Mounted blocks fs
    ∨ res ≠ .ok ∧ fs.fsType = .unmounted ∧ ∀ v, ¬ IsVolumeOf blocks v)

/-- **Mounting finds the volume of the card.** -/
theorem ends_mountVolume (hgood : good) (h : d.Holds blocks good) (fsid : UInt16) :
    Program.Ends Device.step Op.ReadsOnly (mountVolume fs fsid) d (fun r d' =>
      MountEnds blocks good r.1 r.2 d') := by
  unfold mountVolume
  show Program.Ends _ _ (diskStatus sdc >>= _) d _
  rw [diskStatus, if_pos rfl]
  refine (ends_isReady trivial h).bind (fun initialized d₁ h₁ => ?_)
  obtain ⟨h₁, hinit⟩ := h₁
  rw [hinit hgood, if_neg (by simp)]
  refine Program.Ends.bind (ends_findBootSector hgood rfl rfl h₁) (fun r d₂ h₂ => ?_)
  obtain ⟨fmt, bsect, fs₂⟩ := r
  obtain ⟨h₂, hfs₂, hboot⟩ := h₂
  dsimp only at hfs₂ hboot
  have hunmounted : fs₂.fsType = .unmounted := congrArg Volume.fsType hfs₂
  have hdrv : fs₂.drv = sdc := congrArg Volume.drv hfs₂
  show Program.Ends _ _ (if fmt = .diskError then _ else if fmt ≠ .fat then _ else _) d₂ _
  obtain ⟨hfat, hfound, hclean, hwinsect⟩ | ⟨hfat, herror, hnone, -⟩ := hboot
  · have hwin : fs₂.win = blocks bsect.toNat := hclean.win.trans (by rw [hwinsect])
    have hbpb := analyzeBpb_eq fs₂.toVolume noVolume fs₂.win bsect
    rw [if_neg (by rw [hfat]; decide), if_neg (not_not_intro hfat)]
    cases hw : analyzeBpb noVolume fs₂.win bsect with
    | none =>
      rw [hw, Option.map_none] at hbpb
      rw [hbpb]
      refine .pure ⟨h₂, Or.inr ⟨nofun, hunmounted, ?_⟩⟩
      rintro v ⟨bsect', w, hfound', hw', -⟩
      obtain rfl := Option.some.inj (hfound.symm.trans hfound')
      rw [← hwin, hw] at hw'
      exact nomatch hw'
    | some w =>
      rw [hw, Option.map_some] at hbpb
      rw [hbpb]
      have hw_drv : w.drv = sdc := drv_of_analyzeBpb hw
      have hclean' : ({ fs₂ with toVolume := { w with drv := fs₂.drv, id := fs₂.id } } :
          Fatfs).Clean blocks := ⟨hclean.wflag, hclean.win⟩
      refine Program.Ends.bind (ends_readFsInfo hgood (by exact hdrv) hclean' h₂ _ _)
        (fun fs₃ d₃ h₃ => ?_)
      obtain ⟨h₃, hclean₃, hvolume₃⟩ := h₃
      refine .pure ⟨h₃, Or.inl ⟨rfl, ⟨hclean₃.wflag, hclean₃.win⟩, bsect, w, hfound,
        hwin ▸ hw, ?_⟩⟩
      have hnumbered := congrArg (fun x : Volume => { x with id := fsid }) hvolume₃
      dsimp only at hnumbered ⊢
      rw [hnumbered, hdrv, ← hw_drv]
  · rw [if_neg herror, if_pos hfat]
    refine .pure ⟨h₂, Or.inr ⟨nofun, hunmounted, ?_⟩⟩
    rintro v ⟨bsect', w, hfound', -⟩
    exact nomatch hnone.symm.trans hfound'

/-- What a call finds before it: no volume, or the one of the card. -/
def Sound (blocks : ℕ → Sector) (fs : Fatfs) : Prop := fs.fsType ≠ .unmounted → Mounted blocks fs

theorem MountEnds.sound {res : FResult} (hr : MountEnds blocks good res fs d) :
    Sound blocks fs := fun hmounted => by
  obtain ⟨-, ⟨-, h⟩ | ⟨-, hunmounted, -⟩⟩ := hr
  · exact h
  · exact absurd hunmounted hmounted

/-- **After `find_volume` the volume of the card is mounted**, unless the card has none. -/
theorem ends_findVolume (hgood : good) (h : d.Holds blocks good) (fsid : UInt16)
    (hsound : Sound blocks fs) :
    Program.Ends Device.step Op.ReadsOnly (findVolume fs fsid) d (fun r d' =>
      MountEnds blocks good r.1 r.2.1 d') := by
  have hcheck : Program.Ends Device.step Op.ReadsOnly (isMounted fs) d (fun mounted d' =>
      d'.Holds blocks good ∧ (mounted = true → Mounted blocks fs)) := by
    unfold isMounted
    by_cases htype : fs.fsType ≠ .unmounted
    · rw [if_pos htype, diskStatus]
      split_ifs
      · exact (ends_isReady trivial h).mono (fun _ d' hd' => ⟨hd'.1, fun _ => hsound htype⟩)
      · exact .pure ⟨h, nofun⟩
    · rw [if_neg htype]
      exact .pure ⟨h, nofun⟩
  unfold findVolume
  refine hcheck.bind (fun mounted d' hr => ?_)
  obtain ⟨h', hmounted⟩ := hr
  cases mounted with
  | true => exact .pure ⟨h', Or.inl ⟨rfl, hmounted rfl⟩⟩
  | false =>
    refine (ends_mountVolume hgood h' (fsid + 1)).bind (fun r d'' hr => ?_)
    exact .pure hr

end Mounting

/-- **On a card that works `find_volume` mounts the volume of the card**, if it has one, and
its fields fit together if its boot sector is that of a volume within 2³² sectors. -/
theorem findVolume_mounts_volume {d : Device ss} {fs : Fatfs} (hworks : d.faults = [])
    (hsound : Sound d.blocks fs) (fsid : UInt16) :
    Program.Ends Device.step Op.ReadsOnly (findVolume fs fsid) d (fun r d' =>
      d'.blocks = d.blocks
        ∧ (r.1 = .ok ∧ r.2.1.Clean d.blocks ∧ IsVolumeOf d.blocks r.2.1.toVolume
            ∧ (BootWithinRange d.blocks → r.2.1.WellFormed)
          ∨ r.1 ≠ .ok ∧ r.2.1.fsType = .unmounted ∧ ∀ v, ¬ IsVolumeOf d.blocks v)) := by
  refine (ends_findVolume hworks ⟨rfl, id⟩ fsid hsound).mono (fun r d' hr => ?_)
  obtain ⟨h', ⟨hok, hmounted⟩ | hnone⟩ := hr
  · exact ⟨h'.blocks, Or.inl ⟨hok, hmounted.clean, hmounted.volume,
      hmounted.volume.wellFormed⟩⟩
  · exact ⟨h'.blocks, Or.inr hnone⟩

/-- A file system that was not mounted. -/
def unmountedFatfs : Fatfs := { noVolume with wflag := false, winsect := 0, win := padded [] }

theorem sound_unmountedFatfs (blocks : ℕ → Sector) : Sound blocks unmountedFatfs := fun h =>
  absurd rfl h

theorem findVolume_mounts_volume_smallCard :
    Program.Ends Device.step Op.ReadsOnly (findVolume unmountedFatfs 0) ⟨smallCard, []⟩
      (fun r d' => d'.blocks = smallCard
        ∧ (r.1 = .ok ∧ r.2.1.Clean smallCard ∧ IsVolumeOf smallCard r.2.1.toVolume
            ∧ (BootWithinRange smallCard → r.2.1.WellFormed)
          ∨ r.1 ≠ .ok ∧ r.2.1.fsType = .unmounted ∧ ∀ v, ¬ IsVolumeOf smallCard v)) :=
  findVolume_mounts_volume (d := ⟨smallCard, []⟩) rfl (sound_unmountedFatfs smallCard) 0

/-! ### The volume of the small card -/

theorem bootSectorOf_smallCard : bootSectorOf smallCard = some 0 := by
  have hformat : bootFormat (smallCard 0) = .fat := by decide +kernel
  rw [bootSectorOf, hformat]

theorem analyzeBpb_smallCard : analyzeBpb noVolume (smallCard 0) 0 = some smallVolume := by
  decide +kernel

theorem isVolumeOf_smallVolume : IsVolumeOf smallCard smallVolume :=
  ⟨0, smallVolume, bootSectorOf_smallCard, analyzeBpb_smallCard, rfl⟩

theorem bootWithinRange_smallCard : BootWithinRange smallCard := fun bsect hboot => by
  obtain rfl := Option.some.inj (bootSectorOf_smallCard.symm.trans hboot)
  exact ⟨by decide +kernel, by decide +kernel, by decide +kernel⟩

end Fat
