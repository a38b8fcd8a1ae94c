import EpuckFirmware.ConfigRefinement

/-!
# Losing power while a block is appended

A save that appends programs the payload first and the header last, checksum of
the length, length, checksum of the data. Cut after any number of bytes it
leaves a header that is torn in one place: the words before it are written, the
words behind it erased, and one word is partly both. `torn_header_invalid` goes
through the three words. A torn length checksum would have to be the one of an
erased length, a torn length the preimage of another length's checksum; and a
torn data checksum is no matter, since then the payload is complete and either the
block is not valid or nothing was missing.

So loading finds the block it found before or the new one, whole
(`configSave_power_loss`).
-/

namespace ConfigStore

open BoundedLog Memory

section Sector

variable {g : Geometry} {S : Sector g} {crc32 : UInt32 → List UInt8 → UInt32}

/-- The checksums of different lengths are different. -/
def LengthCrcInjective (crc32 : UInt32 → List UInt8 → UInt32) : Prop :=
  ∀ xs ys : List UInt8, xs.length = 4 → ys.length = 4 →
    crc32 crcInitialValue xs = crc32 crcInitialValue ys → xs = ys

/-- **The checksum of an erased length is no torn checksum** of a length. -/
def ErasedNotTorn (crc32 : UInt32 → List UInt8 → UInt32) : Prop :=
  ∀ n : UInt32, n.toNat < 2 ^ 24 → ∀ k < 4,
    leBytes (crc32 crcInitialValue (List.replicate 4 0xff))
      ≠ torn k (leBytes (crc32 crcInitialValue (leBytes n)))

/-- In particular it is not erased itself. -/
theorem ErasedNotTorn.erasedInvalid (h : ErasedNotTorn crc32) : ErasedInvalid crc32 := by
  intro heq
  refine h 0 (by decide) 0 (by decide) ?_
  show leBytes (crc32 crcInitialValue [0xff, 0xff, 0xff, 0xff]) = _
  rw [heq, torn_zero, length_leBytes]
  decide

/-! ## Torn headers -/

/-- The last byte of a small length is zero, so a torn length is another one. -/
theorem leBytes_ne_torn {n : UInt32} (hn : n.toNat < 2 ^ 24) {k : ℕ} (hk : k < 4) :
    leBytes n ≠ torn k (leBytes n) := by
  intro heq
  have hlast : (leBytes n).getLast? = some 0 := by
    have hdigit : UInt8.ofNat (n.toNat / 256 / 256 / 256) = 0 := by
      rw [show n.toNat / 256 / 256 / 256 = 0 from by omega]
      rfl
    rw [leBytes, leDigits, leDigits, leDigits, leDigits, leDigits, hdigit]
    rfl
  rw [heq, torn, length_leBytes, List.getLast?_append, List.getLast?_replicate,
    if_neg (by omega), Option.some_or] at hlast
  exact absurd (Option.some.inj hlast) (by decide)

/-- **A header torn before its data checksum is not valid**, and one torn in its
data checksum is valid only if nothing was missing. -/
theorem torn_header_invalid (hinj : LengthCrcInjective crc32) (hcrc : ErasedNotTorn crc32)
    {m : Memory} {a : UInt32} {data : List UInt8} {k : ℕ} (hlen : data.length < 2 ^ 24)
    (hheader : m.peek a 12 = torn k (headerOf crc32 (UInt32.ofNat data.length) data))
    (hdata : 8 ≤ k → m.peek (a + configHeaderSize) data.length = data)
    (hvalid : BlockValid crc32 m a) :
    8 ≤ k ∧ torn k (headerOf crc32 (UInt32.ofNat data.length) data)
      = headerOf crc32 (UInt32.ofNat data.length) data := by
  set len := UInt32.ofNat data.length with hlenDef
  have hnat : len.toNat = data.length := by
    rw [hlenDef, UInt32.toNat_ofNat']
    exact Nat.mod_eq_of_lt (by omega)
  have hsmall : len.toNat < 2 ^ 24 := by omega
  set A := leBytes (crc32 crcInitialValue (leBytes len)) with hA
  set C := leBytes (crc32 crcInitialValue data) with hC
  have hAlen : A.length = 4 := length_leBytes _
  have hClen : C.length = 4 := length_leBytes _
  -- the three words
  have hsplit : torn k (headerOf crc32 len data)
      = torn k A ++ (torn (k - 4) (leBytes len) ++ torn (k - 8) C) := by
    rw [headerOf, torn_append, torn_append, List.append_assoc, List.length_append, hAlen,
      length_leBytes]
  rw [hsplit, show 12 = 4 + (4 + 4) from rfl, peek_add] at hheader
  obtain ⟨hw₁, hrest⟩ := List.append_inj hheader (by simp [hAlen])
  rw [peek_add] at hrest
  obtain ⟨hw₂, hw₃⟩ := List.append_inj hrest (by simp)
  have h8 : a + UInt32.ofNat 4 + UInt32.ofNat 4 = a + 8 := by
    rw [UInt32.add_assoc]
    rfl
  rw [h8] at hw₃
  obtain ⟨hok, hdataOk⟩ := hvalid
  -- what the length checksum says
  have hlength : leBytes (lengthAt m a) = torn (k - 4) (leBytes len) := by
    rw [lengthAt, peekWord, leBytes_leWord (length_peek _ _ _)]
    exact hw₂
  have hsum : torn k A = leBytes (crc32 crcInitialValue (torn (k - 4) (leBytes len))) := by
    rw [← hlength, ← hok, peekWord, leBytes_leWord (length_peek _ _ _), hw₁]
  by_cases h4 : k < 4
  · -- torn in the length checksum: the length is erased
    rw [show k - 4 = 0 from by omega, torn_zero, length_leBytes] at hsum
    exact absurd hsum.symm (hcrc len hsmall k h4)
  · rw [torn_of_length_le (by omega)] at hsum
    have hpre : leBytes len = torn (k - 4) (leBytes len) :=
      hinj _ _ (length_leBytes _) (by rw [length_torn, length_leBytes]) (leBytes_injective hsum)
    by_cases h8k : k < 8
    · -- torn in the length
      exact absurd hpre (leBytes_ne_torn hsmall (by omega))
    · -- torn in the data checksum: the payload is complete
      refine ⟨by omega, ?_⟩
      have hlenAt : lengthAt m a = len := leBytes_injective (hlength.trans hpre.symm)
      have hdataAt : dataAt m a = data := by
        rw [dataAt, hlenAt, hnat]
        exact hdata (by omega)
      have hw : torn (k - 8) C = C := by
        rw [← hw₃, hC, ← hdataAt, ← hdataOk, peekWord, leBytes_leWord (length_peek _ _ _)]
      rw [hsplit, torn_of_length_le (by omega), ← hpre, hw, headerOf, List.append_assoc]

/-! ## What is found after a power loss -/

/-- **The search finds this block** as the last one, and loading hands over these
data. -/
def Selects (crc32 : UInt32 → List UInt8 → UInt32) (g : Geometry) (s : FlashState)
    (src a : UInt32) (data : List UInt8) : Prop :=
  (∃ fuel, (Program.exec (FlashState.step g) (configBlockFindLastUsed crc32 fuel src) s).result
      = some (some a))
    ∧ LoadHands crc32 g s src (some data)

theorem selects_of_walk {s : FlashState} {src a e : UInt32} {as : List UInt32}
    {data : List UInt8} (hw : Walk crc32 s.mem src as e) (ha : as.getLast? = some a)
    (hdata : dataAt s.mem a = data) : Selects crc32 g s src a data := by
  refine ⟨⟨as.length + 1, ?_⟩, (loadHands_iff g).mpr ⟨as, e, hw, ?_⟩⟩
  · rw [exec_configBlockFindLastUsed g hw (Nat.lt_succ_self _)]
    show some as.getLast? = some (some a)
    rw [ha]
  · rw [ha, Option.map_some, hdata]

/-- A log at the front of the sector and no valid block behind it: the last block of
the log is found. -/
theorem selects_of_log {s : FlashState} {log : List (List UInt8)} {a : UInt32}
    {data : List UInt8} (hlen : used blockSize log ≤ 2 ^ 32)
    (hlog : s.mem.peek S.base (used blockSize log) = logBytes crc32 log)
    (hend : ¬ BlockValid crc32 s.mem (S.base + UInt32.ofNat (used blockSize log)))
    (ha : (blockAddrs S.base log).getLast? = some a) (hdata : log.getLast? = some data) :
    Selects crc32 g s S.base a data := by
  have hw := Walk.of_log hlen hlog (Walk.stop hend)
  rw [List.append_nil] at hw
  refine selects_of_walk hw ha ?_
  have hmap := congrArg List.getLast? (map_dataAt_blockAddrs hlen hlog)
  rw [List.getLast?_map, ha, hdata, Option.map_some] at hmap
  exact Option.some.inj hmap

/-- **The memory when power is lost** after `n` bytes: part of the payload, or all of
it and part of the header. -/
def tornStore (crc32 : UInt32 → List UInt8 → UInt32) (m : Memory) (dst : UInt32)
    (data : List UInt8) (n : ℕ) : Memory :=
  (m.burn (dst + configHeaderSize) (data.take n)).burn dst
    ((headerOf crc32 (UInt32.ofNat data.length) data).take (n - data.length))

/-- Cutting the programs of a save leaves a torn block. -/
theorem programAll_take_storeOps {m : Memory} {dst : UInt32} {data : List UInt8}
    (hlen : data.length < 2 ^ 32) (h : m.Takes (dst + configHeaderSize) data) (n : ℕ) :
    m.programAll ((FlashOp.programs (storeOps crc32 m dst data)).take n)
      = tornStore crc32 m dst data n := by
  have hnat : (UInt32.ofNat data.length).toNat = data.length := by
    rw [UInt32.toNat_ofNat']
    exact Nat.mod_eq_of_lt hlen
  rw [programs_storeOps, hnat, (peek_burn_eq_iff (Nat.le_of_lt hlen)).mpr h, List.take_append,
    length_cells, take_cells, take_cells, programAll_append]
  rfl

section Torn

variable {m : Memory} {log : List (List UInt8)} {data : List UInt8}

/-- A torn block leaves the rest of the sector alone. -/
theorem tornStore_outside (h : used blockSize log + blockSize data ≤ S.size) (n : ℕ) {j : ℕ}
    (hj : j < 2 ^ 32) (hout : j < used blockSize log ∨ used blockSize log + blockSize data ≤ j) :
    tornStore crc32 m (S.base + UInt32.ofNat (used blockSize log)) data n
        (S.base + UInt32.ofNat j) = m (S.base + UInt32.ofNat j) := by
  have hS := S.fits
  have hsize : blockSize data = 12 + data.length := rfl
  have hd : (data.take n).length ≤ data.length := List.length_take_le' n data
  have hh := List.length_take_le (n - data.length)
    (headerOf crc32 (UInt32.ofNat data.length) data)
  have hh' := List.length_take_le' (n - data.length)
    (headerOf crc32 (UInt32.ofNat data.length) data)
  rw [length_headerOf] at hh'
  rw [tornStore, burn_of_outside _ S.base (by omega) (by omega) (by omega),
    show configHeaderSize = UInt32.ofNat 12 from rfl, UInt32.add_assoc, ← UInt32.ofNat_add,
    burn_of_outside m S.base (by omega) (by omega) (by omega)]

variable (crc32) in
/-- The header of a torn block is torn, and its payload complete as soon as the
header was begun. -/
theorem peek_tornStore (hm : m.Erased (S.base + UInt32.ofNat (used blockSize log))
      (blockSize data)) (h : used blockSize log + blockSize data ≤ S.size) (n : ℕ) :
    (tornStore crc32 m (S.base + UInt32.ofNat (used blockSize log)) data n).peek
        (S.base + UInt32.ofNat (used blockSize log)) 12
        = torn (n - data.length) (headerOf crc32 (UInt32.ofNat data.length) data)
      ∧ (data.length ≤ n →
        (tornStore crc32 m (S.base + UInt32.ofNat (used blockSize log)) data n).peek
          (S.base + UInt32.ofNat (used blockSize log) + configHeaderSize) data.length = data) := by
  have hS := S.fits
  have hsize : blockSize data = 12 + data.length := rfl
  set dst := S.base + UInt32.ofNat (used blockSize log) with hdst
  have hd : (data.take n).length ≤ data.length := List.length_take_le' n data
  constructor
  · have hheader : (m.burn (dst + configHeaderSize) (data.take n)).Erased dst
        (headerOf crc32 (UInt32.ofNat data.length) data).length := by
      intro i hi
      rw [length_headerOf] at hi
      rw [show configHeaderSize = UInt32.ofNat 12 from rfl,
        burn_of_outside m dst (by omega) (by omega) (Or.inl (by omega))]
      exact hm i (by omega)
    have htorn := hheader.peek_burn_take (by rw [length_headerOf]; omega) (n - data.length)
    rwa [length_headerOf] at htorn
  · intro hn
    have hh' := List.length_take_le' (n - data.length)
      (headerOf crc32 (UInt32.ofNat data.length) data)
    rw [length_headerOf] at hh'
    have hbehind := peek_burn_behind (m.burn (dst + configHeaderSize) (data.take n)) dst hh'
      (show 12 + data.length ≤ 2 ^ 32 from by omega)
    rw [tornStore]
    refine hbehind.trans ?_
    rw [List.take_of_length_le hn]
    refine (peek_burn_eq_iff (by omega)).mpr (Erased.takes (fun i hi => ?_))
    rw [show configHeaderSize = UInt32.ofNat 12 from rfl, UInt32.add_assoc, ← UInt32.ofNat_add]
    exact hm (12 + i) (by omega)

/-- **A torn block is not seen, or whole.** -/
theorem selects_tornStore (hinj : LengthCrcInjective crc32) (hcrc : ErasedNotTorn crc32)
    (hsize : S.size < 2 ^ 24) (hlog : Represents crc32 S m log) (hpast : NoHeaderPastEnd crc32 S m)
    (hroom : used blockSize log + blockSize data ≤ S.size) {a : UInt32} {old : List UInt8}
    (ha : (blockAddrs S.base log).getLast? = some a) (hold : log.getLast? = some old) (n : ℕ)
    (l : Bool) :
    Selects crc32 g
        ⟨tornStore crc32 m (S.base + UInt32.ofNat (used blockSize log)) data n, l⟩ S.base a old
      ∨ Selects crc32 g
        ⟨tornStore crc32 m (S.base + UInt32.ofNat (used blockSize log)) data n, l⟩ S.base
        (S.base + UInt32.ofNat (used blockSize log)) data := by
  have hS := S.fits
  have hbs : blockSize data = 12 + data.length := rfl
  have herased : m.Erased (S.base + UInt32.ofNat (used blockSize log)) (blockSize data) :=
    fun i hi => hlog.erased i (by omega)
  obtain ⟨hheader, hdata⟩ := peek_tornStore crc32 herased hroom n
  by_cases hvalid : BlockValid crc32
      (tornStore crc32 m (S.base + UInt32.ofNat (used blockSize log)) data n)
      (S.base + UInt32.ofNat (used blockSize log))
  · -- nothing that matters is missing: the log is one block longer
    right
    obtain ⟨h8, hwhole⟩ := torn_header_invalid hinj hcrc (by omega) hheader
      (fun h8 => hdata (by omega)) hvalid
    have hblock : (tornStore crc32 m (S.base + UInt32.ofNat (used blockSize log)) data n).peek
        (S.base + UInt32.ofNat (used blockSize log)) (blockSize data) = blockBytes crc32 data := by
      rw [blockSize, peek_add, hheader, hwhole, blockBytes]
      congr 1
      exact hdata (by omega)
    have hlonger : Represents crc32 S
        (tornStore crc32 m (S.base + UInt32.ofNat (used blockSize log)) data n) (log ++ [data]) :=
      hlog.snoc hroom hblock (fun j hj hout => tornStore_outside hroom n (by omega) hout)
    have hpast' : NoHeaderPastEnd crc32 S
        (tornStore crc32 m (S.base + UInt32.ofNat (used blockSize log)) data n) := by
      intro m' hm'
      refine hpast m' (fun x hx => ?_)
      rw [hm' x hx, ← add_ofNat_toNat_sub S.base x]
      exact tornStore_outside hroom n (UInt32.toNat_lt _) (Or.inr (by omega))
    refine selects_of_log hlonger.size_le hlonger.peek_log
      (hlonger.end_invalid hcrc.erasedInvalid (Or.inr hpast')) ?_ ?_
    · rw [blockAddrs_append, List.getLast?_append]
      rfl
    · rw [List.getLast?_append]
      rfl
  · -- the block is not seen: the log is as it was
    left
    refine selects_of_log hlog.size_le ?_ hvalid ha hold
    rw [← hlog.peek_log]
    exact peek_congr (fun i hi => tornStore_outside hroom n (by omega) (Or.inl hi))

end Torn

/-- **Power loss while appending**: whatever number of bytes a save has programmed
behind a log that has room for its block, loading finds the block it found
before or the new one, whole. -/
theorem configSave_power_loss (crc32 : UInt32 → List UInt8 → UInt32)
    (hinj : LengthCrcInjective crc32) (hcrc : ErasedNotTorn crc32) (S : Sector g)
    (hsize : S.size < 2 ^ 24) (dstLen : UInt32) (hdst : dstLen.toNat ≤ S.size) (s : FlashState)
    (log : List (List UInt8)) (hne : log ≠ []) (hlog : Represents crc32 S s.mem log)
    (hpast : NoHeaderPastEnd crc32 S s.mem) (ns : ParameterNamespace)
    (hroom : used blockSize log + (12 + ns.enc.length) ≤ dstLen.toNat) :
    ∃ a old, Selects crc32 g s S.base a old
      ∧ (ns.writer.NoEmptyWrite → ∃ s' t, CompletedSave crc32 S (dstLen, ns) s s' t)
      ∧ ∀ s' t, CompletedSave crc32 S (dstLen, ns) s s' t →
        ∀ ps, ps <+: FlashOp.programs t → ∀ l,
          Selects crc32 g ⟨s.mem.programAll ps, l⟩ S.base a old
            ∨ Selects crc32 g ⟨s.mem.programAll ps, l⟩ S.base
              (S.base + UInt32.ofNat (used blockSize log)) ns.enc := by
  have hS := S.fits
  have hbs : blockSize ns.enc = 12 + ns.enc.length := rfl
  have h12 : 12 ≤ dstLen.toNat := by omega
  have hlt := dstLen.toNat_lt
  have hholds : Holds crc32 S dstLen.toNat s.mem s.mem log :=
    ⟨hlog, by omega, fun _ _ => rfl⟩
  have hw := hholds.walk hcrc.erasedInvalid (Or.inr hpast)
  obtain ⟨a, ha⟩ := Option.ne_none_iff_exists'.mp
    (fun hnone => blockAddrs_ne_nil S.base hne (List.getLast?_eq_none_iff.mp hnone))
  obtain ⟨old, hold⟩ := Option.ne_none_iff_exists'.mp
    (fun hnone => hne (List.getLast?_eq_none_iff.mp hnone))
  refine ⟨a, old, ?_, fun hw => ?_, fun s' t hsave ps hps l => ?_⟩
  · exact selects_of_log hlog.size_le hlog.peek_log
      (hholds.end_invalid hcrc.erasedInvalid (Or.inr hpast)) ha hold
  · exact hholds.completes hcrc.erasedInvalid h12 hdst (Or.inr hpast) hw (by omega)
  · -- the save appended, and what it programmed is cut somewhere
    obtain ⟨as, e, m', hw', hsaved, -⟩ := hsave.saved hcrc.erasedInvalid (by omega) h12
    obtain ⟨rfl, rfl⟩ := hw'.unique hw
    cases hsaved with
    | fresh hno hf => exact absurd (appends_of_room hne hroom) hno
    | retry _ hno hf hwrites hm => exact absurd (fits_of_room ((fits_iff h12).mp hf).1 hroom) hno
    | append _ hf =>
      have htakes : s.mem.Takes (S.base + UInt32.ofNat (used blockSize log) + configHeaderSize)
          ns.enc := hlog.takes (k := 12) (by omega)
      rw [FlashOp.programs_append, programs_placeOps, List.nil_append] at hps
      rw [List.prefix_iff_eq_take.mp hps, programAll_take_storeOps (by omega) htakes]
      exact selects_tornStore hinj hcrc hsize hlog hpast (by omega) ha hold _ l

end Sector

/-- The checksum the firmware uses is one of these. -/
theorem lengthCrcInjective_crc32 : LengthCrcInjective crc32 :=
  fun _ _ hx hy h => Crc32.crc32_injective_four crcInitialValue hx hy h

theorem erasedNotTorn_crc32 : ErasedNotTorn crc32 := by
  intro n _ k hk heq
  have hlast : (leBytes (crc32 crcInitialValue (List.replicate 4 0xff))).getLast? = some 0xc4 := by
    decide
  rw [heq, torn, length_leBytes, List.getLast?_append, List.getLast?_replicate,
    if_neg (by omega), Option.some_or] at hlast
  exact absurd (Option.some.inj hlast) (by decide)

theorem configSave_power_loss_emptyTree :
    ∃ s a old, Selects crc32 flashGeometry s configSector.base a old
      ∧ (∃ s' t, CompletedSave crc32 configSector (0x20000, emptyTree) s s' t)
      ∧ ∀ s' t, CompletedSave crc32 configSector (0x20000, emptyTree) s s' t →
        ∀ ps, ps <+: FlashOp.programs t →
          Selects crc32 flashGeometry ⟨s.mem.programAll ps, true⟩ configSector.base a old
            ∨ Selects crc32 flashGeometry ⟨s.mem.programAll ps, true⟩ configSector.base
              (configSector.base + 13) [0x80] := by
  obtain ⟨s, t, -, hholds⟩ := save_erasedFlash emptyTree ⟨by decide, trivial⟩ (by decide)
  have hpast : NoHeaderPastEnd crc32 configSector s.mem :=
    noHeaderPastEnd_of_erased erasedInvalid_crc32 (fun x hx => hholds.frame x hx) (by decide)
  obtain ⟨a, old, hbefore, hcomplete, hcut⟩ := configSave_power_loss crc32 lengthCrcInjective_crc32
    erasedNotTorn_crc32 configSector (by decide) 0x20000 (Nat.le_refl _) s [emptyTree.enc]
    (by decide) hholds.represents hpast emptyTree (by decide)
  exact ⟨s, a, old, hbefore, hcomplete ⟨by decide, trivial⟩,
    fun s' t hsave ps hps => hcut s' t hsave ps hps true⟩

end ConfigStore
