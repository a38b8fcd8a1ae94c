import EpuckFirmware.FatMount
import EpuckFirmware.FatRead

/-!
# Opening a file of the memory card

`f_open` mounts the volume if it has to, and follows the names of the path through the
directories. A directory is a table of entries of 32 bytes, in the clusters of a chain or,
for the root directory of the smaller volumes, in sectors of its own. `dir_find` walks over
the entries until it finds the name.

Abstractly the entries of a directory are numbered, and a path leads to an entry when each
of its names is that of the first entry with this name (`Leads`). `ends_fOpen` says that on
a card that works `f_open` opens exactly the files that their path leads to, at their first
byte.
-/

namespace Fat

open BlockDevice MemorySegment

/-- `DIR`, without the file system. -/
structure Dir where
  index : UInt16
  sclust : UInt32
  clust : UInt32
  sect : UInt32
  /-- `dir`, as the offset in the window. -/
  dir : ℕ
  /-- `fn`: the name that is looked for. -/
  fn : List UInt8

/-- `AM_VOL`. -/
def amVol : UInt8 := 0x08

/-- `AM_DIR`. -/
def amDir : UInt8 := 0x10

/-- The byte of an entry at an offset. -/
def entryByte (entry : List UInt8) (i : ℕ) : UInt8 := entry.getD i 0

/-- The entry has the name, and is not the label of the volume. -/
def isNamed (fn entry : List UInt8) : Bool :=
  entryByte entry 11 &&& amVol = 0 && entry.take 11 = fn

/-- `ld_clust`. -/
def ldClust (v : Volume) (entry : List UInt8) : UInt32 :=
  let cl := (leHalf ((entry.drop 26).take 2)).toUInt32
  if v.fsType = .fat32 then cl ||| (leHalf ((entry.drop 20).take 2)).toUInt32 <<< 16 else cl

/-- The size of a file. -/
def ldFileSize (entry : List UInt8) : UInt32 := leWord ((entry.drop 28).take 4)

/-- `dir_sdi`, to the first entry. -/
def dirSdi (v : Volume) (dp : Dir) : FResult × Dir :=
  let dp := { dp with index := 0 }
  let clst := dp.sclust
  if clst = 1 ∨ clst ≥ v.nFatent then (.intErr, dp)
  else
    let clst := if clst = 0 ∧ v.fsType = .fat32 then v.dirbase else clst
    if clst = 0 ∧ v.nRootdir = 0 then (.intErr, dp)
    else
      let sect := if clst = 0 then v.dirbase else clust2sect v clst
      let dp := { dp with clust := clst }
      if sect = 0 then (.intErr, dp) else (.ok, { dp with sect := sect, dir := 0 })

/-- `dir_next`, without stretching the table. -/
def dirNext (fs : Fatfs) (dp : Dir) : Card (FResult × Fatfs × Dir) :=
  let i := dp.index.toNat + 1
  let next (dp : Dir) : Dir := { dp with index := UInt16.ofNat i, dir := i % 16 * 32 }
  if i % 65536 = 0 ∨ dp.sect = 0 then pure (.noFile, fs, dp)
  else if i % 16 ≠ 0 then pure (.ok, fs, next dp)
  else
    let dp := { dp with sect := dp.sect + 1 }
    if dp.clust = 0 then
      if i ≥ fs.nRootdir.toNat then pure (.noFile, fs, dp) else pure (.ok, fs, next dp)
    else if UInt32.ofNat (i / 16) &&& (fs.csize.toUInt32 - 1) = 0 then do
      let (clst, fs) ← getFat fs dp.clust
      if clst ≤ 1 then pure (.intErr, fs, dp)
      else if clst = diskError then pure (.diskErr, fs, dp)
      else if clst ≥ fs.nFatent then pure (.noFile, fs, dp)
      else pure (.ok, fs, next { dp with clust := clst, sect := clust2sect fs.toVolume clst })
    else pure (.ok, fs, next dp)

/-- The entry in the window. -/
def Fatfs.entry (fs : Fatfs) (dp : Dir) : List UInt8 := (fs.win.bytes.drop dp.dir).take 32

/-- The loop of `dir_find`. A table has at most 65536 entries. -/
def dirFindLoop : ℕ → Fatfs → Dir → Card (FResult × Fatfs × Dir)
  | 0, _, _ => .timeout
  | fuel + 1, fs, dp => do
    let (res, fs) ← moveWindow fs dp.sect
    if res ≠ .ok then pure (res, fs, dp)
    else if entryByte (fs.entry dp) 0 = 0 then pure (.noFile, fs, dp)
    else if isNamed dp.fn (fs.entry dp) then pure (.ok, fs, dp)
    else do
      let (res, fs, dp) ← dirNext fs dp
      if res = .ok then dirFindLoop fuel fs dp else pure (res, fs, dp)

/-- `dir_find`. -/
def dirFind (fs : Fatfs) (dp : Dir) : Card (FResult × Fatfs × Dir) :=
  let (res, dp) := dirSdi fs.toVolume dp
  if res ≠ .ok then pure (res, fs, dp) else dirFindLoop 65536 fs dp

/-- The loop of `follow_path` over the names of the path. -/
def followNames : Fatfs → Dir → List UInt8 → List (List UInt8) → Card (FResult × Fatfs × Dir)
  | fs, dp, fn, [] => dirFind fs { dp with fn := fn }
  | fs, dp, fn, fn' :: names => do
    let (res, fs, dp) ← dirFind fs { dp with fn := fn }
    if res ≠ .ok then pure (if res = .noFile then .noPath else res, fs, dp)
    else if entryByte (fs.entry dp) 11 &&& amDir = 0 then pure (.noPath, fs, dp)
    else followNames fs { dp with sclust := ldClust fs.toVolume (fs.entry dp) } fn' names

/-- What `f_open` returns and leaves. -/
structure OpenDone where
  res : FResult
  fs : Fatfs
  fsid : UInt16
  fp : Fil

/-- `f_open` with `FA_READ`, for a path with the given names, the first one and the ones
behind it. -/
def fOpen (fs : Fatfs) (fsid : UInt16) (fp : Fil) (fn : List UInt8) (names : List (List UInt8)) :
    Card OpenDone := do
  let fp := { fp with opened := false }
  let (res, fs, fsid) ← findVolume fs fsid
  if res ≠ .ok then pure ⟨res, fs, fsid, fp⟩
  else do
    let (res, fs, dj) ← followNames fs ⟨0, 0, 0, 0, 0, fn⟩ fn names
    let entry := fs.entry dj
    if res ≠ .ok then pure ⟨res, fs, fsid, fp⟩
    else if entryByte entry 11 &&& amDir ≠ 0 then pure ⟨.noFile, fs, fsid, fp⟩
    else pure ⟨.ok, fs, fsid, { fp with
      flag := faRead, err := .ok, sclust := ldClust fs.toVolume entry, fsize := ldFileSize entry
      fptr := 0, dsect := 0, opened := true, id := fs.id }⟩

/-! ## The entries of a directory -/

section Table

variable (v : Volume) (blocks : ℕ → Sector) (start : ℕ)

/-- The first cluster of a table, or 0 for the root directory in sectors of its own. -/
def tableStart (sclust : ℕ) : ℕ :=
  if sclust = 0 ∧ v.fsType = .fat32 then v.dirbase.toNat else sclust

/-- The sector of the byte at a position of the table. -/
def tableSector (q : ℕ) : ℕ :=
  if start = 0 then v.dirbase.toNat + q / ss else sectorAt v blocks start q

/-- The byte at a position. -/
def tableByte (q : ℕ) : UInt8 := byteAt blocks (tableSector v blocks start q * ss + q % ss)

/-- The table goes on at a position. -/
def InTable (q : ℕ) : Prop :=
  if start = 0 then q < v.nRootdir.toNat * 32 else v.Cluster (clusterAt v blocks start q)

/-- **The entry with a number.** -/
def entryAt (k : ℕ) : List UInt8 := segment (tableByte v blocks start) (k * 32) (k * 32 + 32)

/-- The entry is one of the table, which ends with the first entry that starts with 0. -/
def Live (k : ℕ) : Prop :=
  k < 65536 ∧ InTable v blocks start (k * 32) ∧ entryByte (entryAt v blocks start k) 0 ≠ 0

/-- None of the first entries has the name. -/
def Skipped (fn : List UInt8) (k : ℕ) : Prop :=
  ∀ j < k, Live v blocks start j ∧ isNamed fn (entryAt v blocks start j) = false

/-- **The first entry with a name.** -/
def FirstEntry (fn entry : List UInt8) : Prop :=
  ∃ k, Skipped v blocks start fn k ∧ Live v blocks start k
    ∧ isNamed fn (entryAt v blocks start k) = true ∧ entry = entryAt v blocks start k

/-- The table ends, and no entry has the name. -/
def NoEntry (fn : List UInt8) : Prop := ∃ k, Skipped v blocks start fn k ∧ ¬ Live v blocks start k

/-- The walk over the table is at an entry. -/
structure Dir.At (dp : Dir) (k : ℕ) : Prop where
  lt : k < 65536
  index : dp.index.toNat = k
  dir : dp.dir = k % 16 * 32
  sect : dp.sect.toNat = tableSector v blocks start (k * 32)
  clust : dp.clust.toNat = if start = 0 then 0 else clusterAt v blocks start (k * 32)
  inTable : InTable v blocks start (k * 32)

end Table

/-- **Names are found or not**, never both. -/
theorem not_noEntry_of_firstEntry {v : Volume} {blocks : ℕ → Sector} {start : ℕ}
    {fn entry : List UInt8} (h : FirstEntry v blocks start fn entry) :
    ¬ NoEntry v blocks start fn := by
  rintro ⟨k', hskipped', hlive'⟩
  obtain ⟨k, hskipped, hlive, hnamed, -⟩ := h
  obtain hlt | heq | hgt := lt_trichotomy k k'
  · exact absurd hnamed (by rw [(hskipped' k hlt).2]; decide)
  · exact hlive' (heq ▸ hlive)
  · exact hlive' (hskipped k' hgt).1

/-- A name has one first entry. -/
theorem firstEntry_unique {v : Volume} {blocks : ℕ → Sector} {start : ℕ}
    {fn entry entry' : List UInt8} (h : FirstEntry v blocks start fn entry)
    (h' : FirstEntry v blocks start fn entry') : entry = entry' := by
  obtain ⟨k, hskipped, -, hnamed, rfl⟩ := h
  obtain ⟨k', hskipped', -, hnamed', rfl⟩ := h'
  obtain hlt | rfl | hgt := lt_trichotomy k k'
  · exact absurd hnamed (by rw [(hskipped' k hlt).2]; decide)
  · rfl
  · exact absurd hnamed' (by rw [(hskipped k' hgt).2]; decide)

/-! ## The walk over a directory -/

section Walking

variable {v : Volume} {blocks : ℕ → Sector} {good : Prop} {d : Device ss} {fs : Fatfs} {dp : Dir}
  {start k : ℕ}

theorem tableSector_congr {p q : ℕ} (h : q / ss = p / ss) :
    tableSector v blocks start q = tableSector v blocks start p := by
  rw [tableSector, tableSector, h, sectorAt_congr h]

/-- The window on the sector of an entry holds the entry. -/
theorem entry_eq (hclean : fs.Clean blocks) (hsect : fs.winsect = dp.sect)
    (hdp : dp.At v blocks start k) : fs.entry dp = entryAt v blocks start k := by
  have hlt : k % 16 * 32 + 32 ≤ ss := by
    rw [ss]
    omega
  have hoffset : k * 32 % ss = k % 16 * 32 := by
    rw [ss]
    omega
  rw [Fatfs.entry, hclean.win, hsect, hdp.sect, hdp.dir, take_drop_block _ _ hlt, entryAt]
  refine segment_shift (fun i hi => ?_)
  have hdiv : (k * 32 + i) / ss = k * 32 / ss := by
    rw [ss]
    omega
  have hmod : (k * 32 + i) % ss = k % 16 * 32 + i := by
    rw [ss]
    omega
  rw [tableByte, tableSector_congr hdiv, hmod, add_assoc]

/-- The sectors of a table have numbers of 32 bits other than 0. -/
theorem tableSector_bounds (hv : v.WellFormed) {q : ℕ} (h : InTable v blocks start q) :
    0 < tableSector v blocks start q ∧ tableSector v blocks start q < 2 ^ 32 := by
  have hfatbase := hv.fatbase
  have hdatabase := hv.database
  have hmax := v.database.toNat_lt
  unfold tableSector
  unfold InTable at h
  by_cases hstart : start = 0
  · rw [if_pos hstart] at h ⊢
    obtain ⟨hbelow, habove⟩ := hv.root (by omega)
    have hrootdir := hv.rootdir
    rw [ss]
    omega
  · rw [if_neg hstart] at h ⊢
    have hlast := hv.sectors_lt h
    have hmod : q / ss % v.csize.toNat < v.csize.toNat := Nat.mod_lt _ hv.csize_pos
    rw [sectorAt]
    omega

/-- A table starts in its first cluster. -/
theorem clusterAt_zero : clusterAt v blocks start 0 = start := by
  rw [clusterAt, Nat.zero_div, Nat.zero_div]
  rfl

/-- There is no table in what is no cluster. -/
theorem not_inTable_zero (hstart : start ≠ 0) (h : ¬ v.Cluster start) :
    ¬ InTable v blocks start 0 := by
  rw [InTable, if_neg hstart, clusterAt_zero]
  exact h

variable (blocks dp) in
/-- **The first entry of a table**, unless there is no table. -/
theorem at_zero_of_dirSdi (hv : v.WellFormed) (hstart : start = tableStart v dp.sclust.toNat) :
    ((dirSdi v dp).1 = .ok ∧ (dirSdi v dp).2.fn = dp.fn ∧ (dirSdi v dp).2.At v blocks start 0)
      ∨ ((dirSdi v dp).1 ≠ .ok ∧ ¬ InTable v blocks start 0) := by
  have hnFatent := hv.nFatent
  have hfatbase := hv.fatbase
  unfold dirSdi
  by_cases hrange : dp.sclust = 1 ∨ dp.sclust ≥ v.nFatent
  · rw [if_pos hrange]
    refine Or.inr ⟨by simp, ?_⟩
    have hnat : dp.sclust.toNat = 1 ∨ v.nFatent.toNat ≤ dp.sclust.toNat :=
      hrange.imp (fun h => by rw [h]; rfl) UInt32.le_iff_toNat_le.mp
    have hne : start = dp.sclust.toNat := by
      rw [hstart, tableStart, if_neg (by omega)]
    refine not_inTable_zero (by omega) (fun hcluster => ?_)
    have hlow := hcluster.1
    have hhigh := hcluster.2
    omega
  rw [if_neg hrange]
  have hclst : (if dp.sclust = 0 ∧ v.fsType = .fat32 then v.dirbase else dp.sclust).toNat
      = start := by
    rw [hstart, tableStart]
    by_cases hroot : dp.sclust = 0 ∧ v.fsType = .fat32
    · rw [if_pos hroot, if_pos ⟨by rw [hroot.1]; rfl, hroot.2⟩]
    · rw [if_neg hroot, if_neg (fun h => hroot ⟨UInt32.toNat_inj.mp h.1, h.2⟩)]
  dsimp only
  generalize (if dp.sclust = 0 ∧ v.fsType = .fat32 then v.dirbase else dp.sclust) = clst at hclst ⊢
  by_cases hzero : clst = 0
  · have hstart0 : start = 0 := by
      rw [← hclst, hzero]
      rfl
    by_cases hroot : v.nRootdir = 0
    · rw [if_pos ⟨hzero, hroot⟩]
      refine Or.inr ⟨by simp, ?_⟩
      rw [InTable, if_pos hstart0, hroot]
      exact Nat.lt_irrefl 0
    have hpos : 0 < v.nRootdir.toNat :=
      Nat.pos_of_ne_zero (fun h => hroot (UInt16.toNat_inj.mp h))
    have hdirbase := (hv.root hpos).1
    rw [if_neg (fun h => hroot h.2), if_pos hzero,
      if_neg (fun h => by rw [h] at hdirbase; exact absurd hdirbase (by simp; omega))]
    refine Or.inl ⟨rfl, rfl, by decide, rfl, rfl, ?_, ?_, ?_⟩
    · rw [tableSector, if_pos hstart0]
      rfl
    · rw [if_pos hstart0, hzero]
      rfl
    · rw [InTable, if_pos hstart0]
      omega
  · have hstart0 : start ≠ 0 := fun h => hzero (UInt32.toNat_inj.mp (hclst.trans h))
    rw [if_neg (fun h => hzero h.1), if_neg hzero]
    by_cases hcluster : v.Cluster clst.toNat
    · have hsect := toNat_clust2sect hv hcluster
      have hdatabase := hv.database
      rw [if_neg (fun h => by rw [h] at hsect; exact absurd hsect (by simp; omega))]
      refine Or.inl ⟨rfl, rfl, by decide, rfl, rfl, ?_, ?_, ?_⟩
      · rw [tableSector, if_neg hstart0, sectorAt, Nat.zero_mul, clusterAt_zero, Nat.zero_div,
          Nat.zero_mod, hsect, hclst]
        rfl
      · rw [if_neg hstart0, Nat.zero_mul, clusterAt_zero]
        exact hclst
      · rw [InTable, if_neg hstart0, Nat.zero_mul, clusterAt_zero, ← hclst]
        exact hcluster
    · rw [if_pos (clust2sect_eq_zero hv hcluster)]
      exact Or.inr ⟨by simp, not_inTable_zero hstart0 (hclst ▸ hcluster)⟩

/-! ### The next entry -/

/-- The walk moves on to an entry of the table. -/
theorem Dir.at_succ (hlt : k + 1 < 65536) {sect clust : UInt32}
    (hin : InTable v blocks start ((k + 1) * 32))
    (hsect : sect.toNat = tableSector v blocks start ((k + 1) * 32))
    (hclust : clust.toNat = if start = 0 then 0 else clusterAt v blocks start ((k + 1) * 32)) :
    ({ dp with sect := sect, clust := clust, index := UInt16.ofNat (k + 1),
               dir := (k + 1) % 16 * 32 } : Dir).At v blocks start (k + 1) :=
  ⟨hlt, UInt16.toNat_ofNat_of_lt' hlt, rfl, hsect, hclust, hin⟩

/-- Entries of one sector are in the table together. -/
theorem inTable_succ (hv : v.WellFormed) (h : (k + 1) % 16 ≠ 0)
    (hin : InTable v blocks start (k * 32)) : InTable v blocks start ((k + 1) * 32) := by
  have hrootdir := hv.rootdir
  have hsame : (k + 1) * 32 / ss = k * 32 / ss := by
    rw [ss]
    omega
  unfold InTable at hin ⊢
  by_cases hstart : start = 0
  · rw [if_pos hstart] at hin ⊢
    omega
  · rw [if_neg hstart] at hin ⊢
    rwa [clusterAt_congr hsame]

theorem Dir.At.succ_inside (hv : v.WellFormed) (hdp : dp.At v blocks start k)
    (hlt : k + 1 < 65536) (h : (k + 1) % 16 ≠ 0) :
    ({ dp with index := UInt16.ofNat (k + 1), dir := (k + 1) % 16 * 32 } : Dir).At v blocks start
      (k + 1) := by
  have hsame : (k + 1) * 32 / ss = k * 32 / ss := by
    rw [ss]
    omega
  refine Dir.at_succ hlt (inTable_succ hv h hdp.inTable) ?_ ?_
  · rw [tableSector_congr hsame]
    exact hdp.sect
  · rw [clusterAt_congr hsame]
    exact hdp.clust

/-- Behind the last entry of a sector, the next sector of a table follows in the same cluster. -/
theorem sectorAt_succ (hv : v.WellFormed) (h : (k + 1) % 16 = 0)
    (hcsize : (k + 1) / 16 % v.csize.toNat ≠ 0) :
    clusterAt v blocks start ((k + 1) * 32) = clusterAt v blocks start (k * 32)
      ∧ sectorAt v blocks start ((k + 1) * 32) = sectorAt v blocks start (k * 32) + 1 := by
  have hpos := hv.csize_pos
  have hindex : k * 32 / ss = k / 16 := by
    rw [ss]
    omega
  have hnext : (k + 1) * 32 / ss = (k * 32 + 1 * ss) / ss := by
    rw [ss]
    omega
  have hmod : k * 32 / ss % v.csize.toNat + 1 < v.csize.toNat := by
    have hlt : k / 16 % v.csize.toNat < v.csize.toNat := Nat.mod_lt _ hpos
    rw [hindex]
    refine lt_of_le_of_ne hlt (fun hfull => hcsize ?_)
    rw [show (k + 1) / 16 = k / 16 + 1 by omega, ← Nat.mod_add_mod, hfull, Nat.mod_self]
  rw [clusterAt_congr hnext, sectorAt_congr hnext]
  exact sectorAt_add hv hmod

/-- What `dir_next` ends with: the next entry, or the end of the table. -/
def NextEnds (v : Volume) (blocks : ℕ → Sector) (good : Prop) (start k : ℕ) (fn : List UInt8)
    (r : FResult × Fatfs × Dir) (d : Device ss) : Prop :=
  d.Holds blocks good ∧ r.2.1.toVolume = v
    ∧ (r.1 = .ok ∧ r.2.1.Clean blocks ∧ r.2.2.fn = fn ∧ r.2.2.At v blocks start (k + 1)
      ∨ r.1 ≠ .ok ∧ (¬ good ∨ r.2.1.Clean blocks
        ∧ (k + 1 = 65536 ∨ ¬ InTable v blocks start ((k + 1) * 32))))

/-- The next sector has the next number. -/
theorem Dir.At.toNat_sect_succ (hv : v.WellFormed) (hdp : dp.At v blocks start k)
    (hin : InTable v blocks start ((k + 1) * 32))
    (h : tableSector v blocks start ((k + 1) * 32) = tableSector v blocks start (k * 32) + 1) :
    (dp.sect + 1).toNat = tableSector v blocks start ((k + 1) * 32) := by
  have hbound := (tableSector_bounds hv hin).2
  rw [UInt32.toNat_add, hdp.sect, h]
  rw [h] at hbound
  exact Nat.mod_eq_of_lt hbound

/-- `dir_next` at the end of a sector of the root directory in sectors of its own. -/
theorem nextEnds_static (hfs : fs.toVolume = v) (hv : v.WellFormed) (hclean : fs.Clean blocks)
    (h : d.Holds blocks good) (hdp : dp.At v blocks start k) (hlt : k + 1 < 65536)
    (hsector : (k + 1) % 16 = 0) (hstart : start = 0) (hin : k + 1 < v.nRootdir.toNat) :
    NextEnds v blocks good start k dp.fn (.ok, fs,
      { dp with sect := dp.sect + 1, index := UInt16.ofNat (k + 1), dir := (k + 1) % 16 * 32 })
      d := by
  have htable : InTable v blocks start ((k + 1) * 32) := by
    rw [InTable, if_pos hstart]
    omega
  have hnext : tableSector v blocks start ((k + 1) * 32)
      = tableSector v blocks start (k * 32) + 1 := by
    rw [tableSector, tableSector, if_pos hstart, if_pos hstart, ss]
    omega
  refine ⟨h, hfs, Or.inl ⟨rfl, hclean, rfl, Dir.at_succ hlt htable
    (hdp.toNat_sect_succ hv htable hnext) ?_⟩⟩
  rw [hdp.clust, if_pos hstart, if_pos hstart]

/-- `dir_next` at the end of a sector, within a cluster. -/
theorem nextEnds_sector (hfs : fs.toVolume = v) (hv : v.WellFormed) (hclean : fs.Clean blocks)
    (h : d.Holds blocks good) (hdp : dp.At v blocks start k) (hlt : k + 1 < 65536)
    (hsector : (k + 1) % 16 = 0) (hstart : start ≠ 0)
    (hcsize : (k + 1) / 16 % v.csize.toNat ≠ 0) :
    NextEnds v blocks good start k dp.fn (.ok, fs,
      { dp with sect := dp.sect + 1, index := UInt16.ofNat (k + 1), dir := (k + 1) % 16 * 32 })
      d := by
  obtain ⟨hcluster, hsect⟩ :
      clusterAt v blocks start ((k + 1) * 32) = clusterAt v blocks start (k * 32)
        ∧ sectorAt v blocks start ((k + 1) * 32) = sectorAt v blocks start (k * 32) + 1 :=
    sectorAt_succ hv hsector hcsize
  have htable : InTable v blocks start ((k + 1) * 32) := by
    have hin := hdp.inTable
    rw [InTable, if_neg hstart] at hin ⊢
    rwa [hcluster]
  have hnext : tableSector v blocks start ((k + 1) * 32)
      = tableSector v blocks start (k * 32) + 1 := by
    rw [tableSector, tableSector, if_neg hstart, if_neg hstart, hsect]
  refine ⟨h, hfs, Or.inl ⟨rfl, hclean, rfl, Dir.at_succ hlt htable
    (hdp.toNat_sect_succ hv htable hnext) ?_⟩⟩
  rw [hdp.clust, if_neg hstart, if_neg hstart, hcluster]

/-- At the end of a cluster, the table goes on in the entry of the cluster. -/
theorem clusterAt_succ (hv : v.WellFormed) (hsector : (k + 1) % 16 = 0)
    (hcsize : (k + 1) / 16 % v.csize.toNat = 0) :
    clusterAt v blocks start ((k + 1) * 32)
        = v.fatEntry blocks (clusterAt v blocks start (k * 32))
      ∧ sectorAt v blocks start ((k + 1) * 32)
        = v.database.toNat + (clusterAt v blocks start ((k + 1) * 32) - 2) * v.csize.toNat := by
  have hindex : (k + 1) * 32 / ss = (k + 1) / 16 := by
    rw [ss]
    omega
  have hlast : ((k + 1) * 32 - 1) / ss = k * 32 / ss := by
    rw [ss]
    omega
  refine ⟨?_, by rw [sectorAt, hindex, hcsize, add_zero]⟩
  rw [clusterAt_next hv (by rw [ss]; omega) (by rw [hindex, hcsize]) (by omega),
    clusterAt_congr hlast]

/-- The mask of `dir_next` finds the end of a cluster. -/
theorem isClusterEnd (hv : v.WellFormed) (hlt : k + 1 < 65536) :
    UInt32.ofNat ((k + 1) / 16) &&& (v.csize.toUInt32 - 1) = 0
      ↔ (k + 1) / 16 % v.csize.toNat = 0 := by
  have hindex : (UInt32.ofNat ((k + 1) / 16)).toNat = (k + 1) / 16 :=
    UInt32.toNat_ofNat_of_lt' (lt_of_lt_of_le (by omega : (k + 1) / 16 < 65536) (by decide))
  rw [← UInt32.toNat_inj, toNat_and_csize hv, hindex]
  rfl

/-- `dir_next` at the end of a cluster. -/
theorem ends_dirNext_cluster (hfs : fs.toVolume = v) (hv : v.WellFormed)
    (hclean : fs.Clean blocks) (h : d.Holds blocks good) (hdp : dp.At v blocks start k)
    (hlt : k + 1 < 65536) (hsector : (k + 1) % 16 = 0) (hstart : start ≠ 0)
    (hcsize : (k + 1) / 16 % v.csize.toNat = 0) :
    Program.Ends Device.step Op.ReadsOnly (getFat fs dp.clust >>= fun r =>
        if r.1 ≤ 1 then pure (FResult.intErr, r.2, { dp with sect := dp.sect + 1 })
        else if r.1 = diskError then pure (.diskErr, r.2, { dp with sect := dp.sect + 1 })
        else if r.1 ≥ r.2.nFatent then pure (.noFile, r.2, { dp with sect := dp.sect + 1 })
        else pure (.ok, r.2, { dp with
          clust := r.1, sect := clust2sect r.2.toVolume r.1, index := UInt16.ofNat (k + 1)
          dir := (k + 1) % 16 * 32 })) d
      (NextEnds v blocks good start k dp.fn) := by
  have hin := hdp.inTable
  have hclust := hdp.clust
  rw [InTable, if_neg hstart] at hin
  rw [if_neg hstart] at hclust
  obtain ⟨hnext, hsect⟩ :
      clusterAt v blocks start ((k + 1) * 32) = v.fatEntry blocks (clusterAt v blocks start (k * 32))
        ∧ sectorAt v blocks start ((k + 1) * 32)
          = v.database.toNat + (clusterAt v blocks start ((k + 1) * 32) - 2) * v.csize.toNat :=
    clusterAt_succ hv hsector hcsize
  have hfetch : Program.Ends Device.step Op.ReadsOnly (getFat fs dp.clust) d
      (Fetched blocks good v (clusterAt v blocks start ((k + 1) * 32))) := by
    subst hfs
    rw [hnext, ← hclust]
    exact ends_getFat hv hclean h (hclust ▸ hin.1) (hclust ▸ hin.2)
  have hend : ∀ clst : UInt32, clst.toNat = clusterAt v blocks start ((k + 1) * 32) →
      ¬ v.Cluster clst.toNat → ¬ InTable v blocks start ((k + 1) * 32) := fun clst hclst hnot => by
    rw [InTable, if_neg hstart, ← hclst]
    exact hnot
  refine hfetch.bind (fun r d' hr => ?_)
  obtain ⟨clst, fs'⟩ := r
  obtain ⟨h', hvolume, ⟨hentry, hclean'⟩ | ⟨hentry, hbad⟩⟩ := hr
  · dsimp only at hvolume hentry hclean' ⊢
    have hnFatent : fs'.nFatent = v.nFatent := congrArg Volume.nFatent hvolume
    by_cases hlow : clst ≤ 1
    · rw [if_pos hlow]
      exact .pure ⟨h', hvolume, Or.inr ⟨nofun, Or.inr ⟨hclean', Or.inr (hend clst hentry
        (fun hcluster => absurd hcluster.1 (Nat.not_le.mpr (Nat.lt_succ_of_le hlow))))⟩⟩⟩
    rw [if_neg hlow]
    by_cases herror : clst = diskError
    · rw [if_pos herror]
      refine .pure ⟨h', hvolume, Or.inr ⟨nofun, Or.inr ⟨hclean', Or.inr (hend clst hentry
        (fun hcluster => ?_))⟩⟩⟩
      have hmax := v.nFatent.toNat_lt
      have hhigh := hcluster.2
      rw [herror, toNat_diskError] at hhigh
      omega
    rw [if_neg herror, hnFatent]
    by_cases hhigh : clst ≥ v.nFatent
    · rw [if_pos hhigh]
      exact .pure ⟨h', hvolume, Or.inr ⟨nofun, Or.inr ⟨hclean', Or.inr (hend clst hentry
        (fun hcluster => absurd hcluster.2 (Nat.not_lt.mpr hhigh)))⟩⟩⟩
    rw [if_neg hhigh, hvolume]
    have hcluster : v.Cluster clst.toNat :=
      ⟨Nat.not_le.mp hlow, Nat.not_le.mp hhigh⟩
    have htable : InTable v blocks start ((k + 1) * 32) := by
      rw [InTable, if_neg hstart, ← hentry]
      exact hcluster
    refine .pure ⟨h', hvolume, Or.inl ⟨rfl, hclean', rfl, Dir.at_succ hlt htable ?_ ?_⟩⟩
    · rw [toNat_clust2sect hv hcluster, tableSector, if_neg hstart, hsect, hentry]
    · rw [if_neg hstart, hentry]
  · dsimp only at hvolume hentry ⊢
    rw [if_neg (by rw [hentry]; decide), if_pos hentry]
    exact .pure ⟨h', hvolume, Or.inr ⟨nofun, Or.inl hbad⟩⟩

/-- **`dir_next` goes on to the next entry**, unless the table ends or the card fails. -/
theorem ends_dirNext (hfs : fs.toVolume = v) (hv : v.WellFormed) (hclean : fs.Clean blocks)
    (h : d.Holds blocks good) (hdp : dp.At v blocks start k) :
    Program.Ends Device.step Op.ReadsOnly (dirNext fs dp) d
      (NextEnds v blocks good start k dp.fn) := by
  have hsect : dp.sect ≠ 0 := fun hzero => by
    have hpos := (tableSector_bounds hv hdp.inTable).1
    rw [← hdp.sect, hzero] at hpos
    exact absurd hpos (by decide)
  have hlt := hdp.lt
  unfold dirNext
  dsimp only
  rw [hdp.index]
  by_cases hlast : k + 1 = 65536
  · rw [if_pos (Or.inl (by rw [hlast]))]
    exact .pure ⟨h, hfs, Or.inr ⟨nofun, Or.inr ⟨hclean, Or.inl hlast⟩⟩⟩
  have hlt' : k + 1 < 65536 := by omega
  rw [if_neg (by rintro (hmod | hzero); exacts [by omega, hsect hzero])]
  by_cases hsector : (k + 1) % 16 = 0
  · rw [if_neg (not_not_intro hsector), show fs.csize = v.csize from congrArg Volume.csize hfs,
      show fs.nRootdir = v.nRootdir from congrArg Volume.nRootdir hfs]
    have hclust := hdp.clust
    by_cases hstart : start = 0
    · rw [if_pos hstart] at hclust
      rw [if_pos (UInt32.toNat_inj.mp hclust)]
      by_cases hend : k + 1 ≥ v.nRootdir.toNat
      · rw [if_pos hend]
        refine .pure ⟨h, hfs, Or.inr ⟨nofun, Or.inr ⟨hclean, Or.inr ?_⟩⟩⟩
        rw [InTable, if_pos hstart]
        omega
      · rw [if_neg hend]
        exact .pure (nextEnds_static hfs hv hclean h hdp hlt' hsector hstart (by omega))
    · have hin := hdp.inTable
      rw [if_neg hstart] at hclust
      rw [InTable, if_neg hstart, ← hclust] at hin
      rw [if_neg (fun hzero => by rw [hzero] at hin; exact absurd hin.1 (by decide))]
      by_cases hcsize : (k + 1) / 16 % v.csize.toNat = 0
      · rw [if_pos ((isClusterEnd hv hlt').mpr hcsize)]
        exact ends_dirNext_cluster hfs hv hclean h hdp hlt' hsector hstart hcsize
      · rw [if_neg (fun hend => hcsize ((isClusterEnd hv hlt').mp hend))]
        exact .pure (nextEnds_sector hfs hv hclean h hdp hlt' hsector hstart hcsize)
  · rw [if_pos hsector]
    exact .pure ⟨h, hfs, Or.inl ⟨rfl, hclean, rfl, hdp.succ_inside hv hlt' hsector⟩⟩

/-! ### Finding a name -/

/-- What looking for a name ends with. -/
def FindEnds (v : Volume) (blocks : ℕ → Sector) (good : Prop) (found : List UInt8 → Prop)
    (r : FResult × Fatfs × Dir) (d : Device ss) : Prop :=
  d.Holds blocks good ∧ r.2.1.toVolume = v
    ∧ (r.1 = .ok ∧ r.2.1.Clean blocks ∧ found (r.2.1.entry r.2.2)
      ∨ r.1 ≠ .ok ∧ (¬ good ∨ r.2.1.Clean blocks ∧ ∀ entry, ¬ found entry))

/-- A table that ends has no entry with the name. -/
theorem not_firstEntry {fn : List UInt8} (hskipped : Skipped v blocks start fn k)
    (hlive : ¬ Live v blocks start k) (entry : List UInt8) :
    ¬ FirstEntry v blocks start fn entry := fun hfirst =>
  not_noEntry_of_firstEntry hfirst ⟨k, hskipped, hlive⟩

theorem ends_dirFindLoop (hv : v.WellFormed) (fuel : ℕ) :
    ∀ {d : Device ss} {fs : Fatfs} {dp : Dir} {k : ℕ}, fs.toVolume = v → fs.Clean blocks →
      d.Holds blocks good → dp.At v blocks start k → Skipped v blocks start dp.fn k →
      k + fuel = 65536 →
      Program.Ends Device.step Op.ReadsOnly (dirFindLoop fuel fs dp) d
        (FindEnds v blocks good (FirstEntry v blocks start dp.fn)) := by
  induction fuel with
  | zero =>
    intro d fs dp k hfs hclean h hdp hskipped hfuel
    have hlt := hdp.lt
    omega
  | succ fuel ih =>
    intro d fs dp k hfs hclean h hdp hskipped hfuel
    have hdrv : fs.drv = sdc := by
      rw [← hv.drv, ← hfs]
    rw [dirFindLoop]
    refine (ends_moveWindow hdrv hclean.wflag hclean.win_of_eq h).bind (fun r d₁ hr => ?_)
    obtain ⟨res, fs₁⟩ := r
    obtain ⟨h₁, hvolume, ⟨rfl, hclean₁, hwinsect⟩ | ⟨rfl, hbad⟩⟩ := hr
    · have hvolume₁ : fs₁.toVolume = v := hvolume.trans hfs
      have hentry : fs₁.entry dp = entryAt v blocks start k := entry_eq hclean₁ hwinsect hdp
      dsimp only
      rw [if_neg (not_not_intro rfl), hentry]
      by_cases hend : entryByte (entryAt v blocks start k) 0 = 0
      · rw [if_pos hend]
        exact .pure ⟨h₁, hvolume₁, Or.inr ⟨nofun, Or.inr ⟨hclean₁,
          not_firstEntry hskipped (fun hlive => hlive.2.2 hend)⟩⟩⟩
      rw [if_neg hend]
      have hlive : Live v blocks start k := ⟨hdp.lt, hdp.inTable, hend⟩
      by_cases hnamed : isNamed dp.fn (entryAt v blocks start k)
      · rw [if_pos hnamed]
        exact .pure ⟨h₁, hvolume₁, Or.inl ⟨rfl, hclean₁, k, hskipped, hlive, hnamed, hentry⟩⟩
      rw [if_neg hnamed]
      have hskipped' : Skipped v blocks start dp.fn (k + 1) := fun j hj => by
        obtain hlt | rfl := Nat.lt_succ_iff_lt_or_eq.mp hj
        · exact hskipped j hlt
        · exact ⟨hlive, Bool.eq_false_iff.mpr hnamed⟩
      refine (ends_dirNext hvolume₁ hv hclean₁ h₁ hdp).bind (fun r d₂ hr => ?_)
      obtain ⟨res, fs₂, dp₂⟩ := r
      obtain ⟨h₂, hvolume₂, ⟨hok, hclean₂, hfn, hdp₂⟩ | ⟨hres, hwhy⟩⟩ := hr
      · dsimp only at hok hvolume₂ hclean₂ hfn hdp₂ ⊢
        rw [if_pos hok, ← hfn]
        exact ih hvolume₂ hclean₂ h₂ hdp₂ (hfn ▸ hskipped') (by omega)
      · dsimp only at hvolume₂ hres ⊢
        rw [if_neg hres]
        refine .pure ⟨h₂, hvolume₂, Or.inr ⟨hres, hwhy.imp_right (fun hend => ?_)⟩⟩
        refine ⟨hend.1, not_firstEntry hskipped' (fun hlive => ?_)⟩
        obtain hlast | htable := hend.2
        · exact absurd hlive.1 (by omega)
        · exact htable hlive.2.1
    · show Program.Ends _ _ (if FResult.diskErr ≠ .ok then _ else _) d₁ _
      rw [if_pos nofun]
      exact .pure ⟨h₁, hvolume.trans hfs, Or.inr ⟨nofun, Or.inl hbad⟩⟩

/-- **`dir_find` finds the first entry with the name**, if there is one and the card does not
fail. -/
theorem ends_dirFind (hfs : fs.toVolume = v) (hv : v.WellFormed) (hclean : fs.Clean blocks)
    (h : d.Holds blocks good) (dp : Dir) :
    Program.Ends Device.step Op.ReadsOnly (dirFind fs dp) d
      (FindEnds v blocks good
        (FirstEntry v blocks (tableStart v dp.sclust.toNat) dp.fn)) := by
  have hnone : ∀ start fn, Skipped v blocks start fn 0 := fun _ _ j hj =>
    absurd hj (Nat.not_lt_zero j)
  unfold dirFind
  rw [hfs]
  obtain ⟨hres, hfn, hdp⟩ | ⟨hres, hend⟩ := at_zero_of_dirSdi blocks dp hv rfl
  · dsimp only
    rw [if_neg (not_not_intro hres), ← hfn]
    exact ends_dirFindLoop hv 65536 hfs hclean h hdp (hnone _ _) rfl
  · dsimp only
    rw [if_pos hres]
    exact .pure ⟨h, hfs, Or.inr ⟨hres, Or.inr ⟨hclean,
      not_firstEntry (hnone _ _) (fun hlive => hend (by simpa using hlive.2.1))⟩⟩⟩

/-! ## Opening a file -/

/-- **A path leads to an entry**: each name but the last is that of a directory, and the entry
is the first one with the last name. -/
inductive Leads (v : Volume) (blocks : ℕ → Sector) :
    ℕ → List UInt8 → List (List UInt8) → List UInt8 → Prop
  | last {sclust : ℕ} {fn entry : List UInt8} :
      FirstEntry v blocks (tableStart v sclust) fn entry → Leads v blocks sclust fn [] entry
  | step {sclust : ℕ} {fn fn' dir entry : List UInt8} {names : List (List UInt8)} :
      FirstEntry v blocks (tableStart v sclust) fn dir → entryByte dir 11 &&& amDir ≠ 0 →
      Leads v blocks (ldClust v dir).toNat fn' names entry →
      Leads v blocks sclust fn (fn' :: names) entry

/-- A path leads to one entry. -/
theorem leads_unique {sclust : ℕ} {fn entry entry' : List UInt8} {names : List (List UInt8)}
    (h : Leads v blocks sclust fn names entry) (h' : Leads v blocks sclust fn names entry') :
    entry = entry' := by
  induction h with
  | last hfirst =>
    cases h' with
    | last hfirst' => exact firstEntry_unique hfirst hfirst'
  | step hfirst _ _ ih =>
    cases h' with
    | step hfirst' _ hrest' =>
      obtain rfl := firstEntry_unique hfirst hfirst'
      exact ih hrest'

/-- **`follow_path` follows the path** as far as it leads. -/
theorem ends_followNames (hv : v.WellFormed) (names : List (List UInt8)) :
    ∀ {d : Device ss} {fs : Fatfs} (dp : Dir) (fn : List UInt8), fs.toVolume = v →
      fs.Clean blocks → d.Holds blocks good →
      Program.Ends Device.step Op.ReadsOnly (followNames fs dp fn names) d
        (FindEnds v blocks good (Leads v blocks dp.sclust.toNat fn names)) := by
  induction names with
  | nil =>
    intro d fs dp fn hfs hclean h
    rw [followNames]
    refine (ends_dirFind hfs hv hclean h { dp with fn := fn }).mono (fun r d' hr => ?_)
    obtain ⟨h', hvolume, ⟨hok, hclean', hfirst⟩ | ⟨hres, hwhy⟩⟩ := hr
    · exact ⟨h', hvolume, Or.inl ⟨hok, hclean', .last hfirst⟩⟩
    · refine ⟨h', hvolume, Or.inr ⟨hres, hwhy.imp_right (And.imp_right
        (fun hnone entry hleads => ?_))⟩⟩
      cases hleads with
      | last hfirst => exact hnone entry hfirst
  | cons fn' names ih =>
    intro d fs dp fn hfs hclean h
    rw [followNames]
    refine (ends_dirFind hfs hv hclean h { dp with fn := fn }).bind (fun r d' hr => ?_)
    obtain ⟨res, fs', dp'⟩ := r
    obtain ⟨h', hvolume, ⟨hok, hclean', hfirst⟩ | ⟨hres, hwhy⟩⟩ := hr
    · dsimp only at hok hvolume hclean' hfirst ⊢
      rw [if_neg (not_not_intro hok)]
      by_cases hdir : entryByte (fs'.entry dp') 11 &&& amDir = 0
      · rw [if_pos hdir]
        refine .pure ⟨h', hvolume, Or.inr ⟨nofun, Or.inr ⟨hclean', fun entry hleads => ?_⟩⟩⟩
        cases hleads with
        | step hfirst' hdir' _ => exact hdir' (firstEntry_unique hfirst hfirst' ▸ hdir)
      · rw [if_neg hdir, hvolume]
        refine (ih { dp' with sclust := ldClust v (fs'.entry dp') } fn' hvolume hclean' h').mono
          (fun r d'' hr => ?_)
        obtain ⟨h'', hvolume'', ⟨hok', hclean'', hleads⟩ | ⟨hres', hwhy'⟩⟩ := hr
        · exact ⟨h'', hvolume'', Or.inl ⟨hok', hclean'', .step hfirst hdir hleads⟩⟩
        · refine ⟨h'', hvolume'', Or.inr ⟨hres', hwhy'.imp_right (And.imp_right
            (fun hnone entry hleads => ?_))⟩⟩
          cases hleads with
          | step hfirst' _ hrest =>
            exact hnone entry (firstEntry_unique hfirst' hfirst ▸ hrest)
    · dsimp only at hvolume hres ⊢
      rw [if_pos hres]
      refine .pure ⟨h', hvolume, Or.inr ⟨?_, hwhy.imp_right (And.imp_right
        (fun hnone entry hleads => ?_))⟩⟩
      · dsimp only
        split_ifs
        · exact nofun
        · exact hres
      · cases hleads with
        | step hfirst _ _ => exact hnone _ hfirst

/-- The file at a path of a volume: its entry. -/
def FileAt (v : Volume) (blocks : ℕ → Sector) (fn : List UInt8) (names : List (List UInt8))
    (entry : List UInt8) : Prop :=
  Leads v blocks 0 fn names entry ∧ entryByte entry 11 &&& amDir = 0

/-- **What `f_open` ends with**: the file that the path leads to, at its first byte; or no
file, when the card has no volume or the path does not lead to a file. -/
structure OpenEnds (blocks : ℕ → Sector) (fn : List UInt8) (names : List (List UInt8))
    (r : OpenDone) : Prop where
  sound : Sound blocks r.fs
  ends : (r.res = .ok ∧ Mounted blocks r.fs ∧ ∃ entry, FileAt r.fs.toVolume blocks fn names entry
        ∧ r.fp.At r.fs.toVolume blocks (ldClust r.fs.toVolume entry).toNat
          (ldFileSize entry).toNat 0)
    ∨ (r.res ≠ .ok ∧ r.fp.opened = false
      ∧ ((∀ v, ¬ IsVolumeOf blocks v)
        ∨ Mounted blocks r.fs ∧ ∀ entry, ¬ FileAt r.fs.toVolume blocks fn names entry))

/-- The numbers that do not come from the boot sector do not matter for the files. -/
theorem leads_update {sclust : ℕ} {fn entry : List UInt8} {names : List (List UInt8)}
    (h : Leads v blocks sclust fn names entry) (fsiFlag : UInt8) (freeClust lastClust : UInt32)
    (id : UInt16) :
    Leads { v with fsiFlag := fsiFlag, freeClust := freeClust, lastClust := lastClust, id := id }
      blocks sclust fn names entry := by
  induction h with
  | last hfirst => exact .last hfirst
  | step hfirst hdir _ ih => exact .step hfirst hdir ih

/-- **A card has the files of its volume.** -/
theorem fileAt_of_isVolumeOf {v' : Volume} {fn entry : List UInt8} {names : List (List UInt8)}
    (hv : IsVolumeOf blocks v) (hv' : IsVolumeOf blocks v')
    (h : FileAt v blocks fn names entry) : FileAt v' blocks fn names entry := by
  obtain ⟨bsect, w, hboot, hw, hvolume⟩ := hv
  obtain ⟨bsect', w', hboot', hw', hvolume'⟩ := hv'
  obtain rfl := Option.some.inj (hboot.symm.trans hboot')
  obtain rfl := Option.some.inj (hw.symm.trans hw')
  have hsame : v' = { v with fsiFlag := v'.fsiFlag, freeClust := v'.freeClust,
                             lastClust := v'.lastClust, id := v'.id } := by
    rw [hvolume]
    exact hvolume'
  rw [hsame]
  exact ⟨leads_update h.1 _ _ _ _, h.2⟩

/-- A mounted volume stays one when only the window moves. -/
theorem Mounted.of_toVolume {fs' : Fatfs} (h : Mounted blocks fs) (hclean : fs'.Clean blocks)
    (hvolume : fs'.toVolume = fs.toVolume) : Mounted blocks fs' :=
  ⟨hclean, hvolume ▸ h.volume⟩

/-- **On a card that works `f_open` opens the files that their paths lead to.** -/
theorem ends_fOpen (hgood : good) (h : d.Holds blocks good) (hrange : BootWithinRange blocks)
    (hsound : Sound blocks fs) (fsid : UInt16) (fp : Fil) (fn : List UInt8)
    (names : List (List UInt8)) :
    Program.Ends Device.step Op.ReadsOnly (fOpen fs fsid fp fn names) d (fun r d' =>
      d'.Holds blocks good ∧ OpenEnds blocks fn names r) := by
  unfold fOpen
  refine Program.Ends.bind (ends_findVolume hgood h fsid hsound) (fun r d₁ hr => ?_)
  obtain ⟨res, fs₁, fsid₁⟩ := r
  have hsound₁ : Sound blocks fs₁ := hr.sound
  obtain ⟨h₁, ⟨hok, hmounted⟩ | ⟨hres, -, hnone⟩⟩ := hr
  · dsimp only at hok hmounted ⊢
    rw [if_neg (not_not_intro hok)]
    refine Program.Ends.bind (ends_followNames (hmounted.volume.wellFormed hrange) names
      ⟨0, 0, 0, 0, 0, fn⟩ fn rfl hmounted.clean h₁) (fun r d₂ hr => ?_)
    obtain ⟨res₂, fs₂, dj⟩ := r
    obtain ⟨h₂, hvolume, ⟨hok₂, hclean, hleads⟩ | ⟨hres₂, hwhy⟩⟩ := hr
    · dsimp only at hok₂ hvolume hclean hleads ⊢
      have hmounted₂ : Mounted blocks fs₂ := hmounted.of_toVolume hclean hvolume
      have hleads₂ : Leads fs₂.toVolume blocks 0 fn names (fs₂.entry dj) := by
        rw [hvolume]
        exact hleads
      rw [if_neg (not_not_intro hok₂)]
      by_cases hdir : entryByte (fs₂.entry dj) 11 &&& amDir = 0
      · rw [if_neg (not_not_intro hdir)]
        refine .pure ⟨h₂, fun _ => hmounted₂, Or.inl
          ⟨rfl, hmounted₂, fs₂.entry dj, ⟨hleads₂, hdir⟩, ?_⟩⟩
        exact ⟨rfl, rfl, show faRead &&& faRead ≠ 0 by decide,
          show faRead &&& faDirty = 0 by decide, rfl, rfl, rfl, rfl, Nat.zero_le _,
          fun _ hp => absurd hp (Nat.not_lt_zero _), fun hp => absurd hp (Nat.lt_irrefl 0),
          fun hdsect => absurd rfl hdsect, fun hp => absurd rfl hp⟩
      · rw [if_pos hdir]
        refine .pure ⟨h₂, fun _ => hmounted₂, Or.inr
          ⟨nofun, rfl, Or.inr ⟨hmounted₂, fun entry hfile => ?_⟩⟩⟩
        exact hdir (leads_unique hleads₂ hfile.1 ▸ hfile.2)
    · dsimp only at hvolume hres₂ hwhy ⊢
      obtain ⟨hclean, hnone⟩ := hwhy.resolve_left (not_not_intro hgood)
      have hmounted₂ : Mounted blocks fs₂ := hmounted.of_toVolume hclean hvolume
      rw [if_pos hres₂]
      refine .pure ⟨h₂, fun _ => hmounted₂, Or.inr
        ⟨hres₂, rfl, Or.inr ⟨hmounted₂, fun entry hfile => ?_⟩⟩⟩
      refine hnone entry ?_
      rw [← hvolume]
      exact hfile.1
  · dsimp only at hres ⊢
    rw [if_pos hres]
    exact .pure ⟨h₁, hsound₁, Or.inr ⟨hres, rfl, Or.inl hnone⟩⟩

end Walking

/-- **On a card that works `f_open` opens exactly the files of the volume of the card**: the
one that the path leads to, at its first byte. -/
theorem fOpen_opens_file {d : Device ss} {fs : Fatfs} (hworks : d.faults = [])
    (hrange : BootWithinRange d.blocks) (hsound : Sound d.blocks fs) (fsid : UInt16) (fp : Fil)
    (fn : List UInt8) (names : List (List UInt8)) :
    Program.Ends Device.step Op.ReadsOnly (fOpen fs fsid fp fn names) d (fun r d' =>
      d'.blocks = d.blocks ∧ OpenEnds d.blocks fn names r) :=
  (ends_fOpen hworks ⟨rfl, id⟩ hrange hsound fsid fp fn names).mono
    (fun _ _ hr => ⟨hr.1.blocks, hr.2⟩)

/-- The name `A.WAV`. -/
def smallName : List UInt8 :=
  [0x41, 0x20, 0x20, 0x20, 0x20, 0x20, 0x20, 0x20, 0x57, 0x41, 0x56]

theorem fOpen_opens_file_smallCard :
    Program.Ends Device.step Op.ReadsOnly (fOpen unmountedFatfs 0 smallFil smallName [])
      ⟨smallCard, []⟩ (fun r d' =>
        d'.blocks = smallCard ∧ OpenEnds smallCard smallName [] r) :=
  fOpen_opens_file (d := ⟨smallCard, []⟩) rfl bootWithinRange_smallCard
    (sound_unmountedFatfs smallCard) 0 smallFil smallName []

/-! ### The files of the small card -/

/-- The root directory of the small card has one entry. -/
theorem firstEntry_smallCard {fn entry : List UInt8}
    (h : FirstEntry smallVolume smallCard 0 fn entry) :
    entry = entryAt smallVolume smallCard 0 0 := by
  have hend : entryByte (entryAt smallVolume smallCard 0 1) 0 = 0 := by decide +kernel
  obtain ⟨k, hskipped, hlive, -, rfl⟩ := h
  obtain rfl | rfl | hk : k = 0 ∨ k = 1 ∨ 1 < k := by omega
  · rfl
  · exact absurd hend hlive.2.2
  · exact absurd hend (hskipped 1 hk).1.2.2

theorem fileAt_smallCard {fn entry : List UInt8} {names : List (List UInt8)}
    (h : FileAt smallVolume smallCard fn names entry) :
    entry = entryAt smallVolume smallCard 0 0 := by
  have hfile : entryByte (entryAt smallVolume smallCard 0 0) 11 &&& amDir = 0 := by decide +kernel
  obtain ⟨hleads, -⟩ := h
  cases hleads with
  | last hfirst => exact firstEntry_smallCard hfirst
  | step hfirst hdir _ => exact absurd hfile (firstEntry_smallCard hfirst ▸ hdir)

end Fat
