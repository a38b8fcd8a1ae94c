import EpuckFirmware.FatVolume

/-!
# Reading a file of the memory card

`f_read` reads the next bytes of a file: whole sectors directly to the buffer of the
caller, up to the end of a cluster, and the parts of a sector through the buffer of the
file. At the end of a cluster it follows the chain of the file in the FAT.

Abstractly a file is the memory of its bytes (`fileByte`): the byte at a position is in the
sector of the card that the chain leads to. `ends_fRead` says that `f_read` returns the next
bytes of this memory, as many as it is asked for and as the file has – whatever the parts
in which a file is read, and whatever fails: when the card fails, or when the chain ends
before the file does, the bytes that were returned are those of the file all the same, and
the file is not read any more.
-/

namespace Fat

open BlockDevice MemorySegment

/-- `FIL`. -/
structure Fil where
  /-- `fs` is not null. -/
  opened : Bool
  id : UInt16
  flag : UInt8
  err : FResult
  fptr : UInt32
  fsize : UInt32
  sclust : UInt32
  clust : UInt32
  dsect : UInt32
  buf : Sector

/-- `FA_READ`. -/
def faRead : UInt8 := 0x01

/-- `FA__DIRTY`. -/
def faDirty : UInt8 := 0x40

/-- `validate`. -/
def validate (fs : Fatfs) (fp : Fil) : Card FResult :=
  if fp.opened = false ∨ fs.fsType = .unmounted ∨ fs.id ≠ fp.id then pure .invalidObject
  else do
    let initialized ← diskStatus fs.drv
    pure (if initialized then .ok else .notReady)

/-- The cluster behind those that were read: the first one of the file, or the entry of the
last one. -/
def nextCluster (fs : Fatfs) (fp : Fil) : Card (UInt32 × Fatfs) :=
  if fp.fptr = 0 then pure (fp.sclust, fs) else getFat fs fp.clust

/-- The part of `f_read` at the boundary of a sector that finds the cluster. -/
def enterCluster (fs : Fatfs) (fp : Fil) (csect : UInt8) : Card (FResult × Fatfs × Fil) :=
  if csect ≠ 0 then pure (.ok, fs, fp)
  else do
    let (clst, fs) ← nextCluster fs fp
    if clst < 2 then pure (.intErr, fs, fp)
    else if clst = diskError then pure (.diskErr, fs, fp)
    else pure (.ok, fs, { fp with clust := clst })

/-- The part of `f_read` that reads whole sectors. A sector that the file changed is taken
from its buffer. -/
def readSectors (fs : Fatfs) (fp : Fil) (csect : UInt8) (sect cc : UInt32) :
    Card (Except FResult (List UInt8)) := do
  let csize := fs.csize.toUInt32
  let cc := if csect.toUInt32 + cc > csize then csize - csect.toUInt32 else cc
  let (res, rbuff) ← diskRead fs.drv sect cc.toNat
  if res ≠ .ok then pure (.error .diskErr)
  else
    let rbuff := if fp.flag &&& faDirty ≠ 0 ∧ fp.dsect - sect < cc then
      rbuff.set (fp.dsect - sect).toNat fp.buf else rbuff
    pure (.ok (rbuff.flatMap (·.bytes)))

/-- The write of the buffer of a file that changed it. -/
def writeBack (fs : Fatfs) (fp : Fil) : Card (FResult × Fil) :=
  if fp.flag &&& faDirty ≠ 0 then do
    let res ← diskWrite fs.drv fp.buf fp.dsect
    if res ≠ .ok then pure (.diskErr, fp)
    else pure (.ok, { fp with flag := fp.flag &&& ~~~ faDirty })
  else pure (.ok, fp)

/-- The part of `f_read` that fills the buffer of the file. -/
def loadSector (fs : Fatfs) (fp : Fil) (sect : UInt32) : Card (FResult × Fil) :=
  if fp.dsect ≠ sect then do
    let (res, fp) ← writeBack fs fp
    if res ≠ .ok then pure (.diskErr, fp)
    else do
      let (res, buffer) ← diskRead fs.drv sect 1
      let fp := { fp with buf := buffer.headD fp.buf }
      if res ≠ .ok then pure (.diskErr, fp) else pure (.ok, { fp with dsect := sect })
  else pure (.ok, { fp with dsect := sect })

/-- The bytes that are taken from the buffer of the file. -/
def partialSector (fp : Fil) (btr : UInt32) : List UInt8 :=
  let rcnt := 512 - fp.fptr % 512
  let rcnt := if rcnt > btr then btr else rcnt
  (fp.buf.bytes.drop (fp.fptr % 512).toNat).take rcnt.toNat

/-- The part of `f_read` at the boundary of a sector, once the cluster is known. -/
def transfer (fs : Fatfs) (fp : Fil) (csect : UInt8) (btr : UInt32) :
    Card (Except FResult (List UInt8) × Fatfs × Fil) :=
  let sect := clust2sect fs.toVolume fp.clust
  if sect = 0 then pure (.error .intErr, fs, fp)
  else
    let sect := sect + csect.toUInt32
    let cc := btr / 512
    if cc ≠ 0 then do
      let rbuff ← readSectors fs fp csect sect cc
      pure (rbuff, fs, fp)
    else do
      let (res, fp) ← loadSector fs fp sect
      if res ≠ .ok then pure (.error res, fs, fp)
      else pure (.ok (partialSector fp btr), fs, fp)

/-- A turn of the loop of `f_read`: the bytes that it transfers, or `ABORT`. -/
def readTurn (fs : Fatfs) (fp : Fil) (btr : UInt32) :
    Card (Except FResult (List UInt8) × Fatfs × Fil) :=
  if fp.fptr % 512 = 0 then do
    let csect := (fp.fptr / 512 &&& (fs.csize.toUInt32 - 1)).toUInt8
    let (res, fs, fp) ← enterCluster fs fp csect
    if res ≠ .ok then pure (.error res, fs, fp) else transfer fs fp csect btr
  else pure (.ok (partialSector fp btr), fs, fp)

/-- What `f_read` returns and leaves: the bytes are those that it counts in `br`. -/
structure ReadDone where
  res : FResult
  bytes : List UInt8
  fs : Fatfs
  fp : Fil

/-- The loop of `f_read`, with the bytes that were read before. Each turn reads at least a
byte, so as much fuel as bytes to read is enough (`ends_fReadLoop`). -/
def fReadLoop : ℕ → Fatfs → Fil → UInt32 → List UInt8 → Card ReadDone
  | 0, fs, fp, btr, done => if btr = 0 then pure ⟨.ok, done, fs, fp⟩ else .timeout
  | fuel + 1, fs, fp, btr, done =>
    if btr = 0 then pure ⟨.ok, done, fs, fp⟩
    else do
      let (rbuff, fs, fp) ← readTurn fs fp btr
      match rbuff with
      | .error res => pure ⟨res, done, fs, { fp with err := res }⟩
      | .ok bytes =>
        let rcnt := UInt32.ofNat bytes.length
        fReadLoop fuel fs { fp with fptr := fp.fptr + rcnt } (btr - rcnt) (done ++ bytes)

/-- `f_read`. -/
def fRead (fs : Fatfs) (fp : Fil) (btr : UInt32) : Card ReadDone := do
  let res ← validate fs fp
  if res ≠ .ok then pure ⟨res, [], fs, fp⟩
  else if fp.err ≠ .ok then pure ⟨fp.err, [], fs, fp⟩
  else if fp.flag &&& faRead = 0 then pure ⟨.denied, [], fs, fp⟩
  else
    let remain := fp.fsize - fp.fptr
    let btr := if btr > remain then remain else btr
    fReadLoop btr.toNat fs fp btr []

/-! ## The bytes of a file -/

section File

variable (v : Volume) (blocks : ℕ → Sector) (first : ℕ)

/-- The cluster at an index of the chain that starts with a cluster. -/
def chain (k : ℕ) : ℕ := (v.fatEntry blocks)^[k] first

/-- The cluster of the byte at a position of the file. -/
def clusterAt (p : ℕ) : ℕ := chain v blocks first (p / ss / v.csize.toNat)

/-- The sector of the byte at a position. -/
def sectorAt (p : ℕ) : ℕ :=
  v.database.toNat + (clusterAt v blocks first p - 2) * v.csize.toNat + p / ss % v.csize.toNat

/-- **The byte at a position** of the file. -/
def fileByte (p : ℕ) : UInt8 := byteAt blocks (sectorAt v blocks first p * ss + p % ss)

/-- The clusters of the positions below `n` exist. -/
def Linked (n : ℕ) : Prop := ∀ p < n, v.Cluster (clusterAt v blocks first p)

/-- **The file is at a position**: everything before it can be read. -/
structure Fil.At (fp : Fil) (size p : ℕ) : Prop where
  opened : fp.opened = true
  id : v.id = fp.id
  read : fp.flag &&& faRead ≠ 0
  clean : fp.flag &&& faDirty = 0
  err : fp.err = .ok
  sclust : fp.sclust.toNat = first
  fsize : fp.fsize.toNat = size
  fptr : fp.fptr.toNat = p
  le : p ≤ size
  linked : Linked v blocks first p
  clust : 0 < p → fp.clust.toNat = clusterAt v blocks first (p - 1)
  buf : fp.dsect ≠ 0 → fp.buf = blocks fp.dsect.toNat
  dsect : p % ss ≠ 0 → fp.dsect.toNat = sectorAt v blocks first p

end File

variable {v : Volume} {blocks : ℕ → Sector} {first : ℕ}

theorem sectorAt_pos (hv : v.WellFormed) (p : ℕ) : 0 < sectorAt v blocks first p := by
  have hdatabase := hv.database
  have hfatbase := hv.fatbase
  rw [sectorAt]
  omega

/-- Positions of one sector are in one sector of the card. -/
theorem sectorAt_congr {p q : ℕ} (h : q / ss = p / ss) :
    sectorAt v blocks first q = sectorAt v blocks first p := by
  rw [sectorAt, sectorAt, clusterAt, clusterAt, h]

/-- **Positions of one cluster** are in sectors that follow each other. -/
theorem sectorAt_add {p j : ℕ} (hv : v.WellFormed) (h : p / ss % v.csize.toNat + j < v.csize.toNat) :
    clusterAt v blocks first (p + j * ss) = clusterAt v blocks first p
      ∧ sectorAt v blocks first (p + j * ss) = sectorAt v blocks first p + j := by
  have hcsize := hv.csize_pos
  have hdiv : (p + j * ss) / ss = p / ss + j := Nat.add_mul_div_right _ _ (by decide)
  have hsplit := Nat.div_add_mod (p / ss) v.csize.toNat
  have hform : p / ss + j
      = (p / ss % v.csize.toNat + j) + v.csize.toNat * (p / ss / v.csize.toNat) := by omega
  have hquot : (p / ss + j) / v.csize.toNat = p / ss / v.csize.toNat := by
    rw [hform, Nat.add_mul_div_left _ _ hcsize, Nat.div_eq_of_lt h, zero_add]
  have hrem : (p / ss + j) % v.csize.toNat = p / ss % v.csize.toNat + j := by
    rw [hform, Nat.add_mul_mod_self_left, Nat.mod_eq_of_lt h]
  have hcluster : clusterAt v blocks first (p + j * ss) = clusterAt v blocks first p := by
    rw [clusterAt, clusterAt, hdiv, hquot]
  refine ⟨hcluster, ?_⟩
  rw [sectorAt, hcluster, hdiv, hrem, sectorAt, ← add_assoc]

/-- The bytes of a file in the rest of a sector are a segment of the card. -/
theorem segment_sector {p m : ℕ} (h : p % ss + m ≤ ss) :
    segment (byteAt blocks) (sectorAt v blocks first p * ss + p % ss)
        (sectorAt v blocks first p * ss + p % ss + m)
      = segment (fileByte v blocks first) p (p + m) := by
  refine segment_shift (fun i hi => ?_)
  have hdiv : (p + i) / ss = p / ss := by
    rw [ss] at *
    omega
  have hmod : (p + i) % ss = p % ss + i := by
    rw [ss] at *
    omega
  rw [fileByte, sectorAt_congr hdiv, hmod, add_assoc]

/-- **The bytes of a file in sectors of a cluster** are a segment of the card. -/
theorem segment_sectors (hv : v.WellFormed) {p count : ℕ} (hp : p % ss = 0)
    (h : p / ss % v.csize.toNat + count ≤ v.csize.toNat) :
    segment (byteAt blocks) (sectorAt v blocks first p * ss)
        ((sectorAt v blocks first p + count) * ss)
      = segment (fileByte v blocks first) p (p + count * ss) := by
  rw [add_mul]
  refine segment_shift (fun i hi => ?_)
  have hindex : i / ss < count := Nat.div_lt_of_lt_mul (by rwa [mul_comm])
  have hposition : p + i = p + i / ss * ss + i % ss := by
    rw [add_assoc, Nat.div_add_mod']
  have hmod : (p + i / ss * ss + i % ss) % ss = i % ss := by
    rw [ss] at *
    omega
  have hdiv : (p + i / ss * ss + i % ss) / ss = (p + i / ss * ss) / ss := by
    rw [ss] at *
    omega
  rw [fileByte, hposition, sectorAt_congr hdiv, (sectorAt_add hv (by omega)).2, hmod, add_mul,
    add_assoc, Nat.div_add_mod']

/-- Within a cluster the position before is in the same cluster. -/
theorem clusterAt_pred {p : ℕ} (hp : p % ss = 0) (h : p / ss % v.csize.toNat ≠ 0) :
    clusterAt v blocks first (p - 1) = clusterAt v blocks first p := by
  have hindex : (p - 1) / ss = p / ss - 1 := by
    rw [ss] at *
    omega
  have hsplit := Nat.div_add_mod (p / ss) v.csize.toNat
  have hpos : 0 < v.csize.toNat ∨ v.csize.toNat = 0 := by omega
  have hquot : (p / ss - 1) / v.csize.toNat = p / ss / v.csize.toNat := by
    obtain hpos | hzero := hpos
    · have hlt := Nat.mod_lt (p / ss) hpos
      rw [show p / ss - 1 = (p / ss % v.csize.toNat - 1)
          + v.csize.toNat * (p / ss / v.csize.toNat) by omega,
        Nat.add_mul_div_left _ _ hpos, Nat.div_eq_of_lt (by omega), zero_add]
    · rw [hzero, Nat.div_zero, Nat.div_zero]
  rw [clusterAt, clusterAt, hindex, hquot]

/-- **At the end of a cluster** the chain goes on with the entry of the cluster. -/
theorem clusterAt_next (hv : v.WellFormed) {p : ℕ} (hp : p % ss = 0)
    (h : p / ss % v.csize.toNat = 0) (hpos : 0 < p) :
    clusterAt v blocks first p = v.fatEntry blocks (clusterAt v blocks first (p - 1)) := by
  have hcsize := hv.csize_pos
  have hindex : (p - 1) / ss = p / ss - 1 := by
    rw [ss] at *
    omega
  have hsplit := Nat.div_add_mod (p / ss) v.csize.toNat
  have hsector : 0 < p / ss := by
    rw [ss] at *
    omega
  have hquot_ne : p / ss / v.csize.toNat ≠ 0 := fun hzero => by
    rw [hzero, h] at hsplit
    omega
  obtain ⟨q, hq⟩ := Nat.exists_eq_add_one_of_ne_zero hquot_ne
  have hquot : (p / ss - 1) / v.csize.toNat = q := by
    rw [hq, h, mul_add, mul_one] at hsplit
    rw [show p / ss - 1 = (v.csize.toNat - 1) + v.csize.toNat * q by omega,
      Nat.add_mul_div_left _ _ hcsize, Nat.div_eq_of_lt (by omega), zero_add]
  rw [clusterAt, clusterAt, hindex, hquot, hq, chain, chain, Function.iterate_succ_apply']

/-! ## What the parts of `f_read` end with -/

section Reading

variable {good : Prop} {d : Device ss} {fs : Fatfs} {fp : Fil} {size p : ℕ}

theorem toNat_csect (hv : v.WellFormed) {fptr : UInt32} (hp : fptr.toNat = p) :
    ((fptr / 512 &&& (v.csize.toUInt32 - 1)).toUInt8).toNat = p / ss % v.csize.toNat := by
  have hcsize := v.csize.toNat_lt
  have hlt : p / ss % v.csize.toNat < v.csize.toNat := Nat.mod_lt _ hv.csize_pos
  have hrest : (fptr / 512 &&& (v.csize.toUInt32 - 1)).toNat = p / ss % v.csize.toNat := by
    rw [toNat_and_csize hv, UInt32.toNat_div, hp]
    rfl
  rw [UInt32.toNat_toUInt8, hrest]
  exact Nat.mod_eq_of_lt (by omega)

theorem toNat_diskError : diskError.toNat = 4294967295 := by decide

/-- **The cluster of the next byte**, unless the card fails or the chain has ended. -/
theorem ends_enterCluster (hfs : fs.toVolume = v) (hv : v.WellFormed) (hclean : fs.Clean blocks)
    (h : d.Holds blocks good) (hfp : fp.At v blocks first size p) (hp : p % ss = 0)
    {csect : UInt8} (hcsect : csect.toNat = p / ss % v.csize.toNat) :
    Program.Ends Device.step Op.ReadsOnly (enterCluster fs fp csect) d (fun r d' =>
      d'.Holds blocks good ∧ r.2.1.toVolume = v
        ∧ (r.1 = .ok ∧ r.2.1.Clean blocks ∧ (∃ clst : UInt32, r.2.2 = { fp with clust := clst }
              ∧ clst.toNat = clusterAt v blocks first p)
          ∨ r.1 ≠ .ok ∧ (¬ good ∨ ¬ v.Cluster (clusterAt v blocks first p)))) := by
  unfold enterCluster
  by_cases hzero : csect = 0
  · rw [if_neg (not_not_intro hzero)]
    have hboundary : p / ss % v.csize.toNat = 0 := by
      rw [← hcsect, hzero]
      rfl
    have hfetch : Program.Ends Device.step Op.ReadsOnly (nextCluster fs fp) d
        (Fetched blocks good v (clusterAt v blocks first p)) := by
      unfold nextCluster
      by_cases hstart : fp.fptr = 0
      · rw [if_pos hstart]
        have hp0 : p = 0 := by rw [← hfp.fptr, hstart]; rfl
        refine .pure ⟨h, hfs, Or.inl ⟨?_, hclean⟩⟩
        rw [hfp.sclust, hp0, clusterAt, Nat.zero_div, Nat.zero_div, chain]
        rfl
      · rw [if_neg hstart]
        have hpos : 0 < p := by
          rw [← hfp.fptr, Nat.pos_iff_ne_zero]
          exact fun hp0 => hstart (UInt32.toNat_inj.mp hp0)
        obtain ⟨hlow, hhigh⟩ := hfp.linked (p - 1) (by omega)
        rw [← hfp.clust hpos] at hlow hhigh
        subst hfs
        rw [clusterAt_next hv hp hboundary hpos, ← hfp.clust hpos]
        exact ends_getFat hv hclean h hlow hhigh
    refine hfetch.bind (fun r d' hr => ?_)
    obtain ⟨clst, fs'⟩ := r
    obtain ⟨h', hvolume, ⟨hentry, hclean'⟩ | ⟨hentry, hbad⟩⟩ := hr
    · show Program.Ends _ _ (if clst < 2 then _ else _) d' _
      by_cases hlow : clst < 2
      · rw [if_pos hlow]
        refine .pure ⟨h', hvolume, Or.inr ⟨nofun, Or.inr (fun hcluster => ?_)⟩⟩
        exact absurd hcluster.1 (by rw [← hentry]; exact Nat.not_le.mpr hlow)
      rw [if_neg hlow]
      by_cases herror : clst = diskError
      · rw [if_pos herror]
        refine .pure ⟨h', hvolume, Or.inr ⟨nofun, Or.inr (fun hcluster => ?_)⟩⟩
        have hmax := v.nFatent.toNat_lt
        have hhigh := hcluster.2
        rw [← hentry, herror, toNat_diskError] at hhigh
        omega
      · rw [if_neg herror]
        exact .pure ⟨h', hvolume, Or.inl ⟨rfl, hclean', clst, rfl, hentry⟩⟩
    · show Program.Ends _ _ (if clst < 2 then _ else _) d' _
      rw [if_neg (by rw [show clst = diskError from hentry]; decide), if_pos hentry]
      exact .pure ⟨h', hvolume, Or.inr ⟨nofun, Or.inl hbad⟩⟩
  · rw [if_pos hzero]
    have hinside : p / ss % v.csize.toNat ≠ 0 := by
      rw [← hcsect]
      exact fun hcsect0 => hzero (UInt8.toNat_inj.mp hcsect0)
    have hpos : 0 < p := Nat.pos_of_ne_zero (fun hp0 => hinside (by rw [hp0]; simp))
    exact .pure ⟨h, hfs, Or.inl ⟨rfl, hclean, fp.clust, rfl,
      (hfp.clust hpos).trans (clusterAt_pred hp hinside)⟩⟩

/-- **Reading whole sectors** gives bytes of the file up to the end of the cluster. -/
theorem ends_readSectors (hfs : fs.toVolume = v) (hv : v.WellFormed) (h : d.Holds blocks good)
    (hclean : fp.flag &&& faDirty = 0) (hp : p % ss = 0) {csect : UInt8} {sect cc : UInt32}
    (hcsect : csect.toNat = p / ss % v.csize.toNat)
    (hsect : sect.toNat = sectorAt v blocks first p) (hcc : cc.toNat < 2 ^ 31) :
    Program.Ends Device.step Op.ReadsOnly (readSectors fs fp csect sect cc) d (fun r d' =>
      d'.Holds blocks good
        ∧ (r = .ok (segment (fileByte v blocks first) p
              (p + min cc.toNat (v.csize.toNat - csect.toNat) * ss))
          ∨ r = .error .diskErr ∧ ¬ good)) := by
  have hlt : csect.toNat < v.csize.toNat := by
    rw [hcsect]
    exact Nat.mod_lt _ hv.csize_pos
  have hcsize := v.csize.toNat_lt
  have hsum : (csect.toUInt32 + cc).toNat = csect.toNat + cc.toNat := by
    rw [UInt32.toNat_add, UInt8.toNat_toUInt32, Nat.mod_eq_of_lt (by omega)]
  have hcount : (if csect.toUInt32 + cc > fs.csize.toUInt32 then
      fs.csize.toUInt32 - csect.toUInt32 else cc).toNat
      = min cc.toNat (v.csize.toNat - csect.toNat) := by
    rw [show fs.csize = v.csize from congrArg Volume.csize hfs]
    by_cases hclip : csect.toUInt32 + cc > v.csize.toUInt32
    · have hclip' := UInt32.lt_iff_toNat_lt.mp hclip
      rw [hsum, UInt8.toNat_toUInt32] at hclip'
      rw [if_pos hclip, UInt32.toNat_sub_of_le _ _ (by
        rw [UInt32.le_iff_toNat_le, UInt8.toNat_toUInt32, UInt8.toNat_toUInt32]
        exact hlt.le), UInt8.toNat_toUInt32, UInt8.toNat_toUInt32]
      omega
    · have hclip' := UInt32.le_iff_toNat_le.mp (UInt32.not_lt.mp hclip)
      rw [hsum, UInt8.toNat_toUInt32] at hclip'
      rw [if_neg hclip]
      omega
  have hdrv : fs.drv = sdc := by
    rw [← hv.drv, ← hfs]
  unfold readSectors
  show Program.Ends _ _ (diskRead fs.drv sect _ >>= _) d _
  rw [hcount, hdrv]
  refine (ends_diskRead h sect _).bind (fun r d' hr => ?_)
  obtain ⟨h', rfl | ⟨hres, hbad⟩⟩ := hr
  · refine .pure ⟨h', Or.inl ?_⟩
    rw [if_neg (fun hdirty => hdirty.1 hclean), flatMap_blocks, hsect,
      segment_sectors hv hp (by omega)]
  · obtain ⟨res, buffer⟩ := r
    show Program.Ends _ _ (if res ≠ .ok then _ else _) d' _
    rw [if_pos hres]
    exact .pure ⟨h', Or.inr ⟨rfl, hbad⟩⟩

/-- **Filling the buffer** with a sector. -/
theorem ends_loadSector (hfs : fs.toVolume = v) (hv : v.WellFormed) (h : d.Holds blocks good)
    (hclean : fp.flag &&& faDirty = 0) (hbuf : fp.dsect ≠ 0 → fp.buf = blocks fp.dsect.toNat)
    {sect : UInt32} (hsect : sect ≠ 0) :
    Program.Ends Device.step Op.ReadsOnly (loadSector fs fp sect) d (fun r d' =>
      d'.Holds blocks good
        ∧ (r = (.ok, { fp with buf := blocks sect.toNat, dsect := sect })
          ∨ r.1 = .diskErr ∧ ¬ good)) := by
  have hdrv : fs.drv = sdc := by
    rw [← hv.drv, ← hfs]
  unfold loadSector
  by_cases hsame : fp.dsect = sect
  · rw [if_neg (not_not_intro hsame)]
    refine .pure ⟨h, Or.inl ?_⟩
    rw [← hsame, ← hbuf (hsame ▸ hsect)]
  rw [if_pos hsame, writeBack, if_neg (not_not_intro hclean)]
  show Program.Ends _ _ (diskRead fs.drv sect 1 >>= _) d _
  rw [hdrv]
  refine (ends_diskRead h sect 1).bind (fun r d' hr => ?_)
  obtain ⟨h', rfl | ⟨hres, hbad⟩⟩ := hr
  · exact .pure ⟨h', Or.inl rfl⟩
  · obtain ⟨res, buffer⟩ := r
    show Program.Ends _ _ (if res ≠ .ok then _ else _) d' _
    rw [if_pos hres]
    exact .pure ⟨h', Or.inr ⟨rfl, hbad⟩⟩

/-! ## A turn of the loop -/

/-- **The file moves on** by bytes of one cluster. -/
theorem Fil.At.advance (hfp : fp.At v blocks first size p) {m : ℕ} (hm : 0 < m)
    (hle : p + m ≤ size) (hcluster : v.Cluster (clusterAt v blocks first p))
    (hsame : ∀ q, p ≤ q → q < p + m → clusterAt v blocks first q = clusterAt v blocks first p)
    {clst dsect : UInt32} {buf : Sector} (hclst : clst.toNat = clusterAt v blocks first p)
    (hbuf : dsect ≠ 0 → buf = blocks dsect.toNat)
    (hdsect : (p + m) % ss ≠ 0 → dsect.toNat = sectorAt v blocks first (p + m)) :
    ({ fp with clust := clst, dsect := dsect, buf := buf,
               fptr := fp.fptr + UInt32.ofNat m }).At v blocks first size (p + m) where
  opened := hfp.opened
  id := hfp.id
  read := hfp.read
  clean := hfp.clean
  err := hfp.err
  sclust := hfp.sclust
  fsize := hfp.fsize
  fptr := by
    have hbound := fp.fsize.toNat_lt
    rw [hfp.fsize] at hbound
    have hm' : m < UInt32.size := lt_of_le_of_lt (by omega : m ≤ size) hbound
    rw [UInt32.toNat_add, hfp.fptr, UInt32.toNat_ofNat_of_lt' hm', Nat.mod_eq_of_lt (by omega)]
  le := hle
  linked := fun q hq => by
    by_cases hold : q < p
    · exact hfp.linked q hold
    · rw [hsame q (by omega) hq]
      exact hcluster
  clust := fun _ => by rw [hclst, hsame (p + m - 1) (by omega) (by omega)]
  buf := hbuf
  dsect := hdsect

/-- Positions of one sector are in one cluster. -/
theorem clusterAt_congr {p q : ℕ} (h : q / ss = p / ss) :
    clusterAt v blocks first q = clusterAt v blocks first p := by
  rw [clusterAt, clusterAt, h]

/-- **What a turn transfers**: the next bytes of the file, at least one and at most as many
as are left to read. -/
structure Transferred (v : Volume) (blocks : ℕ → Sector) (first size p btr : ℕ)
    (bytes : List UInt8) (fs : Fatfs) (fp : Fil) : Prop where
  pos : 0 < bytes.length
  le : bytes.length ≤ btr
  eq : bytes = segment (fileByte v blocks first) p (p + bytes.length)
  clean : fs.Clean blocks
  at_next : ({ fp with fptr := fp.fptr + UInt32.ofNat bytes.length }).At v blocks first size
    (p + bytes.length)

/-- A part of a sector, from the buffer. -/
theorem transferred_partial (hfp : fp.At v blocks first size p) (hclean : fs.Clean blocks)
    (hcluster : v.Cluster (clusterAt v blocks first p)) {clst dsect btr : UInt32}
    (hclst : clst.toNat = clusterAt v blocks first p)
    (hdsect : dsect.toNat = sectorAt v blocks first p) (hbtr : 0 < btr.toNat)
    (hsize : p + btr.toNat ≤ size) :
    Transferred v blocks first size p btr.toNat
      (partialSector { fp with clust := clst, dsect := dsect, buf := blocks dsect.toNat } btr) fs
      { fp with clust := clst, dsect := dsect, buf := blocks dsect.toNat } := by
  have hlt : p % ss < ss := Nat.mod_lt _ (by decide)
  have hoffset : (fp.fptr % 512).toNat = p % ss := by
    rw [UInt32.toNat_mod, hfp.fptr]
    rfl
  have hrest : (512 - fp.fptr % 512).toNat = ss - p % ss := by
    rw [UInt32.toNat_sub_of_le _ _ (by rw [UInt32.le_iff_toNat_le, hoffset]; exact hlt.le), hoffset]
    rfl
  have hcount : (if 512 - fp.fptr % 512 > btr then btr else 512 - fp.fptr % 512).toNat
      = min (ss - p % ss) btr.toNat := by
    by_cases hclip : 512 - fp.fptr % 512 > btr
    · have hclip' := UInt32.lt_iff_toNat_lt.mp hclip
      rw [hrest] at hclip'
      rw [if_pos hclip]
      omega
    · have hclip' := UInt32.le_iff_toNat_le.mp (UInt32.not_lt.mp hclip)
      rw [hrest] at hclip'
      rw [if_neg hclip, hrest]
      omega
  have heq : partialSector { fp with clust := clst, dsect := dsect, buf := blocks dsect.toNat } btr
      = segment (fileByte v blocks first) p (p + min (ss - p % ss) btr.toNat) := by
    show ((blocks dsect.toNat).bytes.drop (fp.fptr % 512).toNat).take
      (if 512 - fp.fptr % 512 > btr then btr else 512 - fp.fptr % 512).toNat = _
    rw [hoffset, hcount, hdsect, take_drop_block _ _ (by omega), segment_sector (by omega)]
  have hlength : min (ss - p % ss) btr.toNat
      = (partialSector { fp with clust := clst, dsect := dsect, buf := blocks dsect.toNat }
          btr).length := by
    rw [heq, length_segment]
    omega
  rw [hlength] at heq
  refine ⟨by omega, by omega, heq, hclean, ?_⟩
  refine hfp.advance (by omega) (by omega) hcluster (fun q hq hq' => clusterAt_congr ?_) hclst
    (fun _ => rfl) (fun hne => hdsect.trans (sectorAt_congr ?_).symm)
  · rw [ss] at *
    omega
  · rw [ss] at *
    omega

/-- Whole sectors of a cluster. -/
theorem transferred_sectors (hv : v.WellFormed) (hfp : fp.At v blocks first size p)
    (hclean : fs.Clean blocks) (hcluster : v.Cluster (clusterAt v blocks first p))
    (hp : p % ss = 0) {clst : UInt32} {count btr : ℕ}
    (hclst : clst.toNat = clusterAt v blocks first p) (hpos : 0 < count)
    (hcount : p / ss % v.csize.toNat + count ≤ v.csize.toNat) (hbtr : count * ss ≤ btr)
    (hsize : p + btr ≤ size) :
    Transferred v blocks first size p btr
      (segment (fileByte v blocks first) p (p + count * ss)) fs { fp with clust := clst } := by
  have hlength : (segment (fileByte v blocks first) p (p + count * ss)).length = count * ss := by
    rw [length_segment]
    omega
  have hbytes : 0 < count * ss := Nat.mul_pos hpos (by decide)
  have hwhole : (p + count * ss) % ss = 0 := by rw [Nat.add_mul_mod_self_right, hp]
  refine ⟨by omega, by omega, by rw [hlength], hclean, ?_⟩
  rw [hlength]
  refine hfp.advance hbytes (by omega) hcluster (fun q hq hq' => ?_) hclst hfp.buf
    (fun hne => absurd hwhole hne)
  obtain ⟨i, rfl⟩ := Nat.exists_eq_add_of_le hq
  have hindex : i / ss < count := Nat.div_lt_of_lt_mul (by rw [mul_comm]; omega)
  have hsector : (p + i) / ss = (p + i / ss * ss) / ss := by
    rw [ss] at *
    omega
  rw [clusterAt_congr hsector, (sectorAt_add hv (by omega)).1]

/-- What a turn ends with: bytes, or the reason to abort. -/
def TurnEnds (v : Volume) (blocks : ℕ → Sector) (good : Prop) (first size p btr : ℕ)
    (r : Except FResult (List UInt8) × Fatfs × Fil) (d : Device ss) : Prop :=
  d.Holds blocks good ∧ r.2.1.toVolume = v
    ∧ ((∃ bytes, r.1 = .ok bytes ∧ Transferred v blocks first size p btr bytes r.2.1 r.2.2)
      ∨ ∃ res, r.1 = .error res ∧ res ≠ .ok
        ∧ (¬ good ∨ ¬ v.Cluster (clusterAt v blocks first p)))

/-- The part of a turn at the boundary of a sector, once the cluster is known. -/
theorem ends_transfer (hfs : fs.toVolume = v) (hv : v.WellFormed) (hclean : fs.Clean blocks)
    (h : d.Holds blocks good) (hfp : fp.At v blocks first size p) {btr clst : UInt32}
    (hbtr : 0 < btr.toNat) (hsize : p + btr.toNat ≤ size) (hp : p % ss = 0) {csect : UInt8}
    (hcsect : csect.toNat = p / ss % v.csize.toNat)
    (hclst : clst.toNat = clusterAt v blocks first p)
    (hcluster : v.Cluster (clusterAt v blocks first p)) :
    Program.Ends Device.step Op.ReadsOnly (transfer fs { fp with clust := clst } csect btr) d
      (TurnEnds v blocks good first size p btr.toNat) := by
  have hlast := hv.sectors_lt hcluster
  have hmod : p / ss % v.csize.toNat < v.csize.toNat := Nat.mod_lt _ hv.csize_pos
  have hdatabase := hv.database
  have hfatbase := hv.fatbase
  have hbase := toNat_clust2sect hv (show v.Cluster clst.toNat by rwa [hclst])
  rw [hclst] at hbase
  have hsect : (clust2sect v clst + csect.toUInt32).toNat = sectorAt v blocks first p := by
    rw [UInt32.toNat_add, hbase, UInt8.toNat_toUInt32, hcsect, Nat.mod_eq_of_lt (by omega),
      sectorAt]
  have hpos : 0 < sectorAt v blocks first p := sectorAt_pos hv p
  have hcc : (btr / 512).toNat = btr.toNat / 512 := UInt32.toNat_div btr 512
  have hmax := btr.toNat_lt
  subst hfs
  unfold transfer
  show Program.Ends _ _ (if clust2sect fs.toVolume clst = 0 then _ else
    if btr / 512 ≠ 0 then _ else _) d _
  rw [if_neg (fun hsect0 => by rw [hsect0] at hbase; change 0 = _ at hbase; omega)]
  by_cases hwhole : btr / 512 = 0
  · rw [if_neg (not_not_intro hwhole)]
    have hne : clust2sect fs.toVolume clst + csect.toUInt32 ≠ 0 := fun hsect0 => by
      rw [hsect0] at hsect
      exact absurd hsect.symm hpos.ne'
    refine (ends_loadSector rfl hv h
      (show ({ fp with clust := clst } : Fil).flag &&& faDirty = 0 from hfp.clean) hfp.buf
      hne).bind (fun r d' hr => ?_)
    obtain ⟨h', rfl | ⟨hres, hbad⟩⟩ := hr
    · exact .pure ⟨h', rfl, Or.inl ⟨_, rfl,
        transferred_partial hfp hclean hcluster hclst hsect hbtr hsize⟩⟩
    · obtain ⟨res, fp'⟩ := r
      obtain rfl : res = .diskErr := hres
      exact .pure ⟨h', rfl, Or.inr ⟨_, rfl, nofun, Or.inl hbad⟩⟩
  · rw [if_pos hwhole]
    refine (ends_readSectors rfl hv h
      (show ({ fp with clust := clst } : Fil).flag &&& faDirty = 0 from hfp.clean) hp hcsect hsect
      (by omega)).bind (fun r d' hr => ?_)
    obtain ⟨h', rfl | ⟨rfl, hbad⟩⟩ := hr
    · have hcount : 0 < btr.toNat / 512 := by
        rw [← hcc, Nat.pos_iff_ne_zero]
        exact fun hcc0 => hwhole (UInt32.toNat_inj.mp hcc0)
      refine .pure ⟨h', rfl, Or.inl ⟨_, rfl, transferred_sectors hv hfp hclean hcluster hp hclst
        (by omega) (by omega) ?_ hsize⟩⟩
      calc min (btr / 512).toNat (fs.csize.toNat - csect.toNat) * ss
          ≤ (btr / 512).toNat * ss := Nat.mul_le_mul_right _ (min_le_left _ _)
        _ ≤ btr.toNat := by rw [hcc]; exact Nat.div_mul_le_self _ _
    · exact .pure ⟨h', rfl, Or.inr ⟨_, rfl, nofun, Or.inl hbad⟩⟩

/-- **A turn of the loop** transfers bytes of the file, unless the card fails or the chain
has ended. -/
theorem ends_readTurn (hfs : fs.toVolume = v) (hv : v.WellFormed) (hclean : fs.Clean blocks)
    (h : d.Holds blocks good) (hfp : fp.At v blocks first size p) {btr : UInt32}
    (hbtr : 0 < btr.toNat) (hsize : p + btr.toNat ≤ size) :
    Program.Ends Device.step Op.ReadsOnly (readTurn fs fp btr) d
      (TurnEnds v blocks good first size p btr.toNat) := by
  have hmod : (fp.fptr % 512).toNat = p % ss := by
    rw [UInt32.toNat_mod, hfp.fptr]
    rfl
  have hzero : fp.fptr % 512 = 0 ↔ p % ss = 0 := by
    rw [← hmod, ← UInt32.toNat_inj]
    rfl
  unfold readTurn
  by_cases hp : p % ss = 0
  · rw [if_pos (hzero.mpr hp)]
    have hcsect := toNat_csect hv hfp.fptr
    rw [show fs.csize = v.csize from congrArg Volume.csize hfs]
    generalize (fp.fptr / 512 &&& (v.csize.toUInt32 - 1)).toUInt8 = csect at hcsect ⊢
    refine (ends_enterCluster hfs hv hclean h hfp hp hcsect).bind (fun r d' hr => ?_)
    obtain ⟨res, fs', fp'⟩ := r
    obtain ⟨h', hvolume, ⟨rfl, hclean', clst, rfl, hclst⟩ | ⟨hres, hwhy⟩⟩ := hr
    · by_cases hcluster : v.Cluster (clusterAt v blocks first p)
      · exact ends_transfer hvolume hv hclean' h' hfp hbtr hsize hp hcsect hclst hcluster
      · show Program.Ends _ _ (transfer fs' _ csect btr) d' _
        unfold transfer
        show Program.Ends _ _ (if clust2sect fs'.toVolume clst = 0 then _ else _) d' _
        rw [if_pos (by rw [hvolume]; exact clust2sect_eq_zero hv (by rwa [hclst]))]
        exact .pure ⟨h', hvolume, Or.inr ⟨_, rfl, nofun, Or.inr hcluster⟩⟩
    · show Program.Ends _ _ (if res ≠ .ok then _ else _) d' _
      rw [if_pos hres]
      exact .pure ⟨h', hvolume, Or.inr ⟨res, rfl, hres, hwhy⟩⟩
  · rw [if_neg (fun hfptr => hp (hzero.mp hfptr))]
    have hpos : 0 < p := Nat.pos_of_ne_zero (fun hp0 => hp (by rw [hp0]; rfl))
    have hsame : (p - 1) / ss = p / ss := by
      rw [ss] at *
      omega
    have hclst := hfp.clust hpos
    have hcluster := hfp.linked (p - 1) (by omega)
    rw [clusterAt_congr hsame] at hclst hcluster
    have hdsect := hfp.dsect hp
    have hne : fp.dsect ≠ 0 := fun hdsect0 => by
      rw [hdsect0] at hdsect
      exact absurd hdsect.symm (sectorAt_pos hv p).ne'
    have hbytes := transferred_partial hfp hclean hcluster hclst hdsect hbtr hsize
    rw [← hfp.buf hne] at hbytes
    exact .pure ⟨h, hfs, Or.inl ⟨_, rfl, hbytes⟩⟩

/-! ## A call of `f_read` -/

/-- **What reading `n` bytes gives**: the next `n` bytes of the file; or fewer, when the
card fails or the chain ends before the file does, and then the file is not read any more. -/
structure ReadEnds (v : Volume) (blocks : ℕ → Sector) (good : Prop) (first size p n : ℕ)
    (r : ReadDone) (m : ℕ) : Prop where
  le : m ≤ n
  bytes : r.bytes = segment (fileByte v blocks first) p (p + m)
  volume : r.fs.toVolume = v
  ends : (r.res = .ok ∧ m = n ∧ r.fs.Clean blocks ∧ r.fp.At v blocks first size (p + m))
    ∨ (r.res ≠ .ok ∧ r.fp.err = r.res ∧ m < n
      ∧ (¬ good ∨ ¬ v.Cluster (clusterAt v blocks first (p + m))))

theorem ends_fReadLoop (hv : v.WellFormed) {fuel : ℕ} :
    ∀ {d : Device ss} {fs : Fatfs} {fp : Fil} {p : ℕ} {btr : UInt32} (done : List UInt8),
      fs.toVolume = v → fs.Clean blocks → d.Holds blocks good → fp.At v blocks first size p →
      btr.toNat ≤ fuel → p + btr.toNat ≤ size →
      Program.Ends Device.step Op.ReadsOnly (fReadLoop fuel fs fp btr done) d (fun r d' =>
        d'.Holds blocks good ∧ ∃ m bytes, r.bytes = done ++ bytes
          ∧ ReadEnds v blocks good first size p btr.toNat { r with bytes := bytes } m) := by
  induction fuel with
  | zero =>
    intro d fs fp p btr done hfs hclean h hfp hfuel hsize
    have hbtr : btr = 0 := UInt32.toNat_inj.mp (Nat.le_zero.mp hfuel)
    rw [fReadLoop, if_pos hbtr, hbtr]
    exact .pure ⟨h, 0, [], (List.append_nil done).symm, le_rfl, by simp, hfs,
      Or.inl ⟨rfl, rfl, hclean, hfp⟩⟩
  | succ fuel ih =>
    intro d fs fp p btr done hfs hclean h hfp hfuel hsize
    rw [fReadLoop]
    by_cases hbtr : btr = 0
    · rw [if_pos hbtr, hbtr]
      exact .pure ⟨h, 0, [], (List.append_nil done).symm, le_rfl, by simp, hfs,
        Or.inl ⟨rfl, rfl, hclean, hfp⟩⟩
    rw [if_neg hbtr]
    have hpos : 0 < btr.toNat := by
      rw [Nat.pos_iff_ne_zero]
      exact fun hbtr0 => hbtr (UInt32.toNat_inj.mp hbtr0)
    refine (ends_readTurn hfs hv hclean h hfp hpos hsize).bind (fun r d' hr => ?_)
    obtain ⟨rbuff, fs', fp'⟩ := r
    obtain ⟨h', hvolume, ⟨bytes, rfl, ht⟩ | ⟨res, rfl, hres, hwhy⟩⟩ := hr
    · have hrcnt : (UInt32.ofNat bytes.length).toNat = bytes.length :=
        UInt32.toNat_ofNat_of_lt' (lt_of_le_of_lt ht.le btr.toNat_lt)
      have hle := ht.le
      have hleft : (btr - UInt32.ofNat bytes.length).toNat = btr.toNat - bytes.length := by
        rw [UInt32.toNat_sub_of_le _ _ (by rw [UInt32.le_iff_toNat_le, hrcnt]; exact hle), hrcnt]
      have hlt := ht.pos
      refine (ih (done ++ bytes) hvolume ht.clean h' ht.at_next (by omega) (by omega)).mono
        (fun r d'' hr => ?_)
      obtain ⟨h'', m, rest, hbytes, hrest⟩ := hr
      refine ⟨h'', bytes.length + m, bytes ++ rest, by rw [hbytes, List.append_assoc], ?_⟩
      have hm := hrest.le
      have heq : bytes ++ rest = segment (fileByte v blocks first) p (p + (bytes.length + m)) := by
        rw [show rest = _ from hrest.bytes, ← add_assoc,
          ← segment_append (by omega : p ≤ p + bytes.length) (by omega), ← ht.eq]
      refine ⟨by omega, heq, hrest.volume, ?_⟩
      rw [← add_assoc]
      obtain ⟨hok, hall, hclean'', hat⟩ | ⟨hbad, herr, hfew, hwhy⟩ := hrest.ends
      · exact Or.inl ⟨hok, by omega, hclean'', hat⟩
      · exact Or.inr ⟨hbad, herr, by omega, hwhy⟩
    · exact .pure ⟨h', 0, [], (List.append_nil done).symm, Nat.zero_le _, by simp, hvolume,
        Or.inr ⟨hres, rfl, hpos, hwhy⟩⟩

/-- What a call of `f_read` ends with: reading, or nothing but the answer that the card is
not ready. -/
def CallEnds (v : Volume) (blocks : ℕ → Sector) (good : Prop) (first size p n : ℕ) (fs : Fatfs)
    (fp : Fil) (r : ReadDone) : Prop :=
  (r = ⟨.notReady, [], fs, fp⟩ ∧ ¬ good) ∨ ∃ m, ReadEnds v blocks good first size p n r m

theorem validate_eq (hfs : fs.toVolume = v) (hv : v.WellFormed)
    (hfp : fp.At v blocks first size p) :
    validate fs fp = isReady >>= fun initialized => pure (if initialized then .ok else .notReady) := by
  have hvalid : ¬ (fp.opened = false ∨ fs.fsType = .unmounted ∨ fs.id ≠ fp.id) := by
    subst hfs
    rintro (hopened | hmounted | hid)
    · exact nomatch hopened.symm.trans hfp.opened
    · exact hv.mounted hmounted
    · exact hid hfp.id
  rw [validate, if_neg hvalid, diskStatus, if_pos (by rw [← hv.drv, ← hfs])]

/-- **`f_read` returns the next bytes of the file**, as many as it is asked for and as the
file has, unless the card fails or the chain ends. -/
theorem ends_fRead (hfs : fs.toVolume = v) (hv : v.WellFormed) (hclean : fs.Clean blocks)
    (h : d.Holds blocks good) (hfp : fp.At v blocks first size p) (btr : UInt32) :
    Program.Ends Device.step Op.ReadsOnly (fRead fs fp btr) d (fun r d' =>
      d'.Holds blocks good
        ∧ CallEnds v blocks good first size p (min btr.toNat (size - p)) fs fp r) := by
  have hle := hfp.le
  have hremain : (fp.fsize - fp.fptr).toNat = size - p := by
    rw [UInt32.toNat_sub_of_le _ _ (by rw [UInt32.le_iff_toNat_le, hfp.fsize, hfp.fptr]; exact hle),
      hfp.fsize, hfp.fptr]
  have hcount : (if btr > fp.fsize - fp.fptr then fp.fsize - fp.fptr else btr).toNat
      = min btr.toNat (size - p) := by
    by_cases hclip : btr > fp.fsize - fp.fptr
    · have hclip' := UInt32.lt_iff_toNat_lt.mp hclip
      rw [hremain] at hclip'
      rw [if_pos hclip, hremain]
      omega
    · have hclip' := UInt32.le_iff_toNat_le.mp (UInt32.not_lt.mp hclip)
      rw [hremain] at hclip'
      rw [if_neg hclip]
      omega
  have hvalidate : Program.Ends Device.step Op.ReadsOnly (validate fs fp) d (fun res d' =>
      d'.Holds blocks good ∧ (res = .ok ∨ res = .notReady ∧ ¬ good)) := by
    rw [validate_eq hfs hv hfp]
    refine (ends_isReady trivial h).bind (fun ready d' hready => ?_)
    obtain ⟨h', hready⟩ := hready
    cases ready with
    | true => exact .pure ⟨h', Or.inl rfl⟩
    | false => exact .pure ⟨h', Or.inr ⟨rfl, fun hgood => nomatch hready hgood⟩⟩
  unfold fRead
  refine hvalidate.bind (fun res d' hres => ?_)
  obtain ⟨h', rfl | ⟨rfl, hbad⟩⟩ := hres
  · rw [if_neg (not_not_intro rfl), if_neg (not_not_intro hfp.err), if_neg hfp.read]
    refine (ends_fReadLoop hv [] hfs hclean h' hfp le_rfl (by rw [hcount]; omega)).mono
      (fun r d'' hr => ?_)
    obtain ⟨h'', m, bytes, hbytes, hr⟩ := hr
    rw [hcount, ← show r.bytes = bytes from hbytes] at hr
    exact ⟨h'', Or.inr ⟨m, hr⟩⟩
  · rw [if_pos nofun]
    exact .pure ⟨h', Or.inl ⟨rfl, hbad⟩⟩

/-- `validate` asks the card only whether it is ready. -/
theorem ends_validate (h : d.Holds blocks good) (fs : Fatfs) (fp : Fil) :
    Program.Ends Device.step Op.ReadsOnly (validate fs fp) d (fun _ d' =>
      d'.Holds blocks good) := by
  unfold validate
  by_cases hvalid : fp.opened = false ∨ fs.fsType = .unmounted ∨ fs.id ≠ fp.id
  · rw [if_pos hvalid]
    exact .pure h
  rw [if_neg hvalid, diskStatus]
  by_cases hdrv : fs.drv = sdc
  · rw [if_pos hdrv]
    exact (ends_isReady trivial h).bind (fun _ _ hready => .pure hready.1)
  · rw [if_neg hdrv]
    exact .pure h

/-- **A file that was aborted** is not read any more. -/
theorem ends_fRead_aborted (h : d.Holds blocks good) (herr : fp.err ≠ .ok) (btr : UInt32) :
    Program.Ends Device.step Op.ReadsOnly (fRead fs fp btr) d (fun r d' =>
      d'.Holds blocks good ∧ r.res ≠ .ok ∧ r.bytes = [] ∧ r.fp = fp) := by
  unfold fRead
  refine (ends_validate h fs fp).bind (fun res d' h' => ?_)
  by_cases hres : res = .ok
  · rw [if_neg (not_not_intro hres), if_pos herr]
    exact .pure ⟨h', herr, rfl, rfl⟩
  · rw [if_pos hres]
    exact .pure ⟨h', hres, rfl, rfl⟩

/-! ## A run of calls -/

/-- Calls of `f_read`, one after the other, whatever they return. -/
def fReadAll : Fatfs → Fil → List UInt32 → Card (List ReadDone)
  | _, _, [] => pure []
  | fs, fp, btr :: btrs => do
    let r ← fRead fs fp btr
    let rs ← fReadAll r.fs r.fp btrs
    pure (r :: rs)

/-- All the bytes that calls returned. -/
def bytesRead (rs : List ReadDone) : List UInt8 := rs.flatMap (·.bytes)

/-- The pieces of a list: the first ones of the given lengths, as far as it goes. -/
def pieces : List UInt8 → List ℕ → List (List UInt8)
  | _, [] => []
  | bytes, n :: ns => bytes.take n :: pieces (bytes.drop n) ns

/-- After an abort nothing is read. -/
theorem ends_fReadAll_aborted (btrs : List UInt32) :
    ∀ {d : Device ss} {fs : Fatfs} {fp : Fil}, d.Holds blocks good → fp.err ≠ .ok →
      Program.Ends Device.step Op.ReadsOnly (fReadAll fs fp btrs) d (fun rs d' =>
        d'.Holds blocks good ∧ bytesRead rs = []) := by
  induction btrs with
  | nil => exact fun h _ => .pure ⟨h, rfl⟩
  | cons btr btrs ih =>
    intro d fs fp h herr
    rw [fReadAll]
    refine (ends_fRead_aborted h herr btr).bind (fun r d' hr => ?_)
    obtain ⟨h', -, hbytes, hfp⟩ := hr
    refine (ih h' (by rw [hfp]; exact herr)).bind (fun rs d'' hrs => .pure ⟨hrs.1, ?_⟩)
    rw [bytesRead, List.flatMap_cons, hbytes]
    exact hrs.2

/-- What a run of calls from a position on ends with. -/
structure RunEnds (v : Volume) (blocks : ℕ → Sector) (good : Prop) (first size p : ℕ)
    (btrs : List UInt32) (rs : List ReadDone) : Prop where
  /-- The bytes are those of the file, and there are fewer than the calls ask for only at the end
  of the file, at the end of the chain or when the card fails. -/
  prefix_of : ∃ n, p + n ≤ size ∧ bytesRead rs = segment (fileByte v blocks first) p (p + n)
    ∧ (good → n = min (size - p) (btrs.map UInt32.toNat).sum
      ∨ ¬ v.Cluster (clusterAt v blocks first (p + n)))
  /-- When nothing is wrong, each call returns its piece. -/
  pieces_of : good → Linked v blocks first size →
    rs.map (fun r => (r.res, r.bytes))
      = (pieces (segment (fileByte v blocks first) p size) (btrs.map UInt32.toNat)).map
          (fun bytes => (.ok, bytes))

/-- **A run of calls** reads the file from its position on. -/
theorem ends_fReadAll_at (hv : v.WellFormed) (btrs : List UInt32) :
    ∀ {d : Device ss} {fs : Fatfs} {fp : Fil} {p : ℕ}, fs.toVolume = v → fs.Clean blocks →
      d.Holds blocks good → fp.At v blocks first size p →
      Program.Ends Device.step Op.ReadsOnly (fReadAll fs fp btrs) d (fun rs d' =>
        d'.Holds blocks good ∧ RunEnds v blocks good first size p btrs rs) := by
  induction btrs with
  | nil =>
    intro d fs fp p hfs hclean h hfp
    exact .pure ⟨h, ⟨0, hfp.le, by simp [bytesRead], fun _ => Or.inl (by simp)⟩, fun _ _ => rfl⟩
  | cons btr btrs ih =>
    intro d fs fp p hfs hclean h hfp
    have hle := hfp.le
    rw [fReadAll]
    refine (ends_fRead hfs hv hclean h hfp btr).bind (fun r d' hr => ?_)
    obtain ⟨h', ⟨rfl, hbad⟩ | ⟨m, hr⟩⟩ := hr
    · -- The card is not ready: the next calls find the file where it was.
      refine (ih hfs hclean h' hfp).bind (fun rs d'' hrs => ?_)
      obtain ⟨h'', ⟨n, hn, hbytes, -⟩, -⟩ := hrs
      exact .pure ⟨h'', ⟨n, hn, hbytes, fun hgood => absurd hgood hbad⟩,
        fun hgood => absurd hgood hbad⟩
    have hm := hr.le
    obtain ⟨hok, rfl, hclean', hat⟩ | ⟨hres, herr, hfew, hwhy⟩ := hr.ends
    · refine (ih hr.volume hclean' h' hat).bind (fun rs d'' hrs => .pure ⟨hrs.1, ?_, ?_⟩)
      · obtain ⟨n, hn, hbytes, hall⟩ := hrs.2.prefix_of
        refine ⟨min btr.toNat (size - p) + n, by omega, ?_, fun hgood => ?_⟩
        · have happend := segment_append (Nat.le_add_right p (min btr.toNat (size - p)))
            (Nat.le_add_right _ n) (fileByte v blocks first)
          rw [bytesRead, List.flatMap_cons, hr.bytes, ← add_assoc, ← happend, ← hbytes]
          rfl
        · rw [← add_assoc, List.map_cons, List.sum_cons]
          exact (hall hgood).imp_left (fun hn => by omega)
      · intro hgood hlinked
        obtain ⟨htake, hdrop⟩ := take_drop_segment (fileByte v blocks first) hle btr.toNat
        rw [List.map_cons, List.map_cons, pieces, List.map_cons, htake, hdrop,
          hrs.2.pieces_of hgood hlinked, hok, hr.bytes]
    · -- The file was aborted: the next calls return nothing.
      refine (ends_fReadAll_aborted btrs h' (by rw [herr]; exact hres)).bind
        (fun rs d'' hrs => .pure ⟨hrs.1, ⟨m, by omega, ?_, fun hgood => ?_⟩, ?_⟩)
      · rw [bytesRead, List.flatMap_cons, hr.bytes]
        exact (congrArg (_ ++ ·) hrs.2).trans (List.append_nil _)
      · exact Or.inr (hwhy.resolve_left (not_not_intro hgood))
      · intro hgood hlinked
        exact absurd (hlinked (p + m) (by omega)) (hwhy.resolve_left (not_not_intro hgood))

end Reading

/-- **Whatever calls of `f_read` ask for and whatever fails**, they return the bytes of the
file one after the other, without gaps, and all that they ask for when nothing fails and
the chain is as long as the file. They write nothing to the card. -/
theorem fReadAll_reads_file {fs : Fatfs} {fp : Fil} {d : Device ss} {size p : ℕ}
    (hv : fs.WellFormed) (hclean : fs.Clean d.blocks)
    (hfp : fp.At fs.toVolume d.blocks first size p) (btrs : List UInt32) :
    Program.Ends Device.step Op.ReadsOnly (fReadAll fs fp btrs) d (fun rs d' =>
      d'.blocks = d.blocks ∧ RunEnds fs.toVolume d.blocks (d.faults = []) first size p btrs rs) :=
  (ends_fReadAll_at hv btrs rfl hclean ⟨rfl, id⟩ hfp).mono
    (fun _ _ hr => ⟨hr.1.blocks, hr.2⟩)

/-- The volume of the small card, with the window on its first sector. -/
def smallFatfs : Fatfs := { smallVolume with wflag := false, winsect := 0, win := smallCard 0 }

theorem clean_smallFatfs : smallFatfs.Clean smallCard := ⟨rfl, rfl⟩

/-- The file of the small card, once it is open. -/
def smallFil : Fil := ⟨true, 0, faRead, .ok, 0, 600, 2, 0, 0, padded []⟩

theorem smallFil_at : smallFil.At smallVolume smallCard 2 600 0 :=
  ⟨rfl, rfl, by decide, by decide, rfl, rfl, rfl, rfl, by decide,
    fun _ hp => absurd hp (Nat.not_lt_zero _), fun hp => absurd hp (Nat.lt_irrefl 0),
    fun hdsect => absurd rfl hdsect, fun hp => absurd rfl hp⟩

/-- Reading the file of the small card by 500 bytes, where the second reading of a sector
fails. -/
theorem fReadAll_reads_file_smallCard :
    Program.Ends Device.step Op.ReadsOnly (fReadAll smallFatfs smallFil [500, 500, 500])
      ⟨smallCard, [none, none, none, some []]⟩ (fun rs d' => d'.blocks = smallCard
        ∧ RunEnds smallVolume smallCard ([none, none, none, some ([] : List Sector)] = []) 2 600 0
          [500, 500, 500] rs) :=
  fReadAll_reads_file (d := ⟨smallCard, [none, none, none, some []]⟩) wellFormed_smallVolume
    clean_smallFatfs smallFil_at [500, 500, 500]

end Fat
