import EpuckFirmware.ConfigBitRot

/-!
# Some bytes of the store that change

A single flipped bit is the smallest damage. The checksums find every change of up to four
consecutive bytes, whatever they become, as long as it stays within one word of the header or
within the payload: each of the words is compared with a checksum or is one, and two payloads
that differ in four consecutive bytes have different checksums.
-/

namespace Crc32

/-- **The checksum changes with any four bytes** in a row. -/
theorem crc32_ne_of_burst (init : UInt32) (xs ys : List UInt8) {bs bs' : List UInt8}
    (hlength : bs.length = bs'.length) (hburst : bs.length ≤ 4) (hne : bs ≠ bs') :
    crc32 init (xs ++ (bs ++ ys)) ≠ crc32 init (xs ++ (bs' ++ ys)) := by
  intro h
  have hreg := BitVec.not_inj.mp (congrArg UInt32.toBitVec h)
  rw [List.foldl_append, List.foldl_append, List.foldl_append, List.foldl_append] at hreg
  -- The bytes behind the change keep the registers apart.
  have hbehind := foldl_addByte_injective ys hreg
  rw [foldl_addByte bs hburst, foldl_addByte bs' (hlength ▸ hburst), hlength] at hbehind
  have hspread := (BitVec.xor_right_inj _).mp (shiftBit_injective.iterate _ hbehind)
  exact hne (spread_injective hlength hburst hspread)

end Crc32

namespace Memory

/-- **Only some bytes changed**: `n` of them at most, from the offset `k` on. -/
structure ChangedWithin (m m' : Memory) (base : UInt32) (k n : ℕ) : Prop where
  fits : k + n ≤ 2 ^ 32
  same : ∀ j < 2 ^ 32, j < k ∨ k + n ≤ j →
    m' (base + UInt32.ofNat j) = m (base + UInt32.ofNat j)
  changed : m'.peek (base + UInt32.ofNat k) n ≠ m.peek (base + UInt32.ofNat k) n

section Changed

variable {m m' : Memory} {base : UInt32} {k n o l : ℕ}

/-- A range without the change reads as before. -/
theorem ChangedWithin.outside (h : ChangedWithin m m' base k n) (hl : o + l ≤ 2 ^ 32)
    (hout : o + l ≤ k ∨ k + n ≤ o) :
    m'.peek (base + UInt32.ofNat o) l = m.peek (base + UInt32.ofNat o) l := by
  refine peek_congr (fun j hj => ?_)
  rw [UInt32.add_assoc, ← UInt32.ofNat_add]
  exact h.same _ (by omega) (by omega)

/-- **A range around the change** differs there only. -/
theorem ChangedWithin.inside (h : ChangedWithin m m' base k n) (hl : o + l ≤ 2 ^ 32)
    (hin : o ≤ k ∧ k + n ≤ o + l) :
    ∃ xs ys bs bs', m.peek (base + UInt32.ofNat o) l = xs ++ (bs ++ ys)
      ∧ m'.peek (base + UInt32.ofNat o) l = xs ++ (bs' ++ ys)
      ∧ bs.length = n ∧ bs'.length = n ∧ bs' ≠ bs := by
  obtain ⟨u, rfl⟩ : ∃ u, k = o + u := ⟨k - o, by omega⟩
  obtain ⟨v, rfl⟩ : ∃ v, l = u + (n + v) := ⟨l - u - n, by omega⟩
  have hsplit : ∀ m : Memory, m.peek (base + UInt32.ofNat o) (u + (n + v))
      = m.peek (base + UInt32.ofNat o) u ++ (m.peek (base + UInt32.ofNat (o + u)) n
        ++ m.peek (base + UInt32.ofNat (o + u + n)) v) := fun m => by
    rw [peek_add, peek_add, UInt32.add_assoc, ← UInt32.ofNat_add, UInt32.add_assoc,
      ← UInt32.ofNat_add]
  have hleft := h.outside (o := o) (l := u) (by omega) (Or.inl (by omega))
  have hright := h.outside (o := o + u + n) (l := v) (by omega) (Or.inr (by omega))
  refine ⟨_, _, _, _, hsplit m, ?_, length_peek _ _ _, length_peek _ _ _, h.changed⟩
  rw [hsplit m', hleft, hright]

/-- A range around the change does not read as before. -/
theorem ChangedWithin.peek_ne (h : ChangedWithin m m' base k n) (hl : o + l ≤ 2 ^ 32)
    (hin : o ≤ k ∧ k + n ≤ o + l) :
    m'.peek (base + UInt32.ofNat o) l ≠ m.peek (base + UInt32.ofNat o) l := by
  obtain ⟨xs, ys, bs, bs', hbefore, hafter, hlen, hlen', hne⟩ := h.inside hl hin
  rw [hbefore, hafter]
  intro heq
  have hrest := List.append_cancel_left heq
  exact hne (List.append_inj_left hrest (hlen'.trans hlen.symm))

/-- A flipped bit is such a change. -/
theorem changedWithin_flip (m : Memory) (base : UInt32) (i : Fin 8) (hk : k < 2 ^ 32) :
    ChangedWithin m (m.flip (base + UInt32.ofNat k) i) base k 1 where
  fits := hk
  same := fun j hj hout => flip_of_ne i (base_add_ne base hj hk (by omega))
  changed := fun heq => by
    have hbyte : (m.flip (base + UInt32.ofNat k) i) (base + UInt32.ofNat k)
        = m (base + UInt32.ofNat k) := (List.cons.inj heq).1
    rw [Memory.flip, if_pos rfl] at hbyte
    exact flipBit_ne _ i hbyte

end Changed

end Memory

namespace ConfigStore

open BoundedLog Memory

/-- **The checksum finds every change** of four consecutive bytes. -/
def DetectsBursts (crc32 : UInt32 → List UInt8 → UInt32) : Prop :=
  ∀ (xs ys bs bs' : List UInt8), bs.length = bs'.length → bs.length ≤ 4 → bs ≠ bs' →
    crc32 crcInitialValue (xs ++ (bs ++ ys)) ≠ crc32 crcInitialValue (xs ++ (bs' ++ ys))

/-- The bytes from `k` on are in one word of the header of a block, or in its payload. -/
def InField (data : List UInt8) (k n : ℕ) : Prop :=
  k + n ≤ 4 ∨ 4 ≤ k ∧ k + n ≤ 8 ∨ 8 ≤ k ∧ k + n ≤ 12 ∨ 12 ≤ k ∧ k + n ≤ blockSize data

section Crc

variable {crc32 : UInt32 → List UInt8 → UInt32} {m m' : Memory} {base : UInt32} {k n o l : ℕ}

/-- A word that changed is another word. -/
theorem peekWord_ne_of_changed (h : ChangedWithin m m' base k n) (ho : o + 4 ≤ 2 ^ 32)
    (hin : o ≤ k ∧ k + n ≤ o + 4) :
    m'.peekWord (base + UInt32.ofNat o) ≠ m.peekWord (base + UInt32.ofNat o) := by
  intro heq
  have hbytes := congrArg leBytes heq
  rw [peekWord, peekWord, leBytes_leWord (length_peek _ _ _), leBytes_leWord (length_peek _ _ _)]
    at hbytes
  exact h.peek_ne ho hin hbytes

/-- Bytes that changed have another checksum. -/
theorem crc32_peek_ne_of_changed (hcrc : DetectsBursts crc32) (h : ChangedWithin m m' base k n)
    (hn : n ≤ 4) (ho : o + l ≤ 2 ^ 32) (hin : o ≤ k ∧ k + n ≤ o + l) :
    crc32 crcInitialValue (m'.peek (base + UInt32.ofNat o) l)
      ≠ crc32 crcInitialValue (m.peek (base + UInt32.ofNat o) l) := by
  obtain ⟨xs, ys, bs, bs', hbefore, hafter, hlen, hlen', hne⟩ := h.inside ho hin
  rw [hbefore, hafter]
  exact hcrc xs ys bs' bs (hlen'.trans hlen.symm) (hlen' ▸ hn) hne

/-- **A valid block that changed in a field is not valid.** -/
theorem not_blockValid_of_changed (hcrc : DetectsBursts crc32)
    (h : ChangedWithin m m' base (o + k) n) (hn : n ≤ 4)
    (hvalid : BlockValid crc32 m (base + UInt32.ofNat o)) {data : List UInt8}
    (hlength : (lengthAt m (base + UInt32.ofNat o)).toNat = data.length)
    (hfits : o + blockSize data ≤ 2 ^ 32) (hfield : InField data k n) :
    ¬ BlockValid crc32 m' (base + UInt32.ofNat o) := by
  have hsize : blockSize data = 12 + data.length := rfl
  have h4 : base + UInt32.ofNat o + 4 = base + UInt32.ofNat (o + 4) := by
    rw [UInt32.ofNat_add o 4, ← UInt32.add_assoc]
    rfl
  have h8 : base + UInt32.ofNat o + 8 = base + UInt32.ofNat (o + 8) := by
    rw [UInt32.ofNat_add o 8, ← UInt32.add_assoc]
    rfl
  have h12 : base + UInt32.ofNat o + configHeaderSize = base + UInt32.ofNat (o + 12) := by
    rw [UInt32.ofNat_add o 12, ← UInt32.add_assoc]
    rfl
  have hword (j : ℕ) (hj : o + j + 4 ≤ 2 ^ 32) (hout : o + j + 4 ≤ o + k ∨ o + k + n ≤ o + j) :
      m'.peekWord (base + UInt32.ofNat (o + j)) = m.peekWord (base + UInt32.ofNat (o + j)) :=
    congrArg leWord (h.outside hj hout)
  have hlengthBytes (m : Memory) :
      leBytes (lengthAt m (base + UInt32.ofNat o)) = m.peek (base + UInt32.ofNat (o + 4)) 4 := by
    rw [lengthAt, h4, peekWord, leBytes_leWord (length_peek _ _ _)]
  have hsame (hout : o + 8 ≤ o + k ∨ o + k + n ≤ o + 4) :
      lengthAt m' (base + UInt32.ofNat o) = lengthAt m (base + UInt32.ofNat o) := by
    rw [lengthAt, lengthAt, h4]
    exact hword 4 (by omega) (by omega)
  rintro ⟨hok, hdata⟩
  obtain ⟨hok₀, hdata₀⟩ := hvalid
  rw [LengthOk, hlengthBytes] at hok hok₀
  rw [dataAt, h8, h12] at hdata hdata₀
  obtain hchecksum | hin | hin | hin := hfield
  · -- the length checksum
    refine peekWord_ne_of_changed h (o := o) (by omega) ⟨by omega, by omega⟩ ?_
    rw [hok₀, hok, h.outside (o := o + 4) (by omega) (Or.inr (by omega))]
  · -- the length
    refine crc32_peek_ne_of_changed hcrc h hn (o := o + 4) (l := 4) (by omega)
      ⟨by omega, by omega⟩ ?_
    rw [← hok, ← hok₀]
    exact hword 0 (by omega) (Or.inl (by omega))
  · -- the data checksum
    rw [hsame (Or.inl (by omega))] at hdata
    refine peekWord_ne_of_changed h (o := o + 8) (by omega) ⟨by omega, by omega⟩ ?_
    rw [hdata₀, hdata, h.outside (o := o + 12) (by omega) (Or.inr (by omega))]
  · -- the payload
    rw [hsame (Or.inl (by omega))] at hdata
    refine crc32_peek_ne_of_changed hcrc h hn (o := o + 12) (l := data.length) (by omega)
      ⟨by omega, by omega⟩ ?_
    rw [← hlength, ← hdata, ← hdata₀]
    exact hword 8 (by omega) (Or.inl (by omega))

variable {g : Geometry}

/-- **Damage never yields a configuration that was not saved**: with up to four consecutive
bytes of a field of a block changed to anything else, loading hands over the data of the block in
front of it, or signals that there are none. -/
theorem burst_loads_previous (hcrc : DetectsBursts crc32) {S : Sector g} {s : FlashState}
    {before after : List (List UInt8)} {data : List UInt8}
    (hs : Represents crc32 S s.mem (before ++ data :: after)) (hn : n ≤ 4)
    (hfield : InField data k n)
    (h : ChangedWithin s.mem m' S.base (used blockSize before + k) n) :
    LoadHands crc32 g { s with mem := m' } S.base before.getLast? := by
  have hS := S.fits
  have hfits := hs.fits
  have hlog := hs.peek_log
  rw [used_append, used_cons] at hfits hlog
  rw [logBytes_append, logBytes_cons, peek_add] at hlog
  obtain ⟨hbefore, hrest⟩ := List.append_inj hlog (by simp)
  rw [peek_add] at hrest
  obtain ⟨hblock, -⟩ := List.append_inj hrest (by simp)
  have hsize : blockSize data = 12 + data.length := rfl
  obtain ⟨hvalid, hlength, -⟩ := blockValid_of_peek crc32 (by omega) hblock
  have hbefore' : m'.peek S.base (used blockSize before) = logBytes crc32 before := by
    have hframe := h.outside (o := 0) (l := used blockSize before) (by omega) (Or.inl (by omega))
    rw [show S.base + UInt32.ofNat 0 = S.base from UInt32.add_zero _] at hframe
    exact hframe.trans hbefore
  have hinvalid : ¬ BlockValid crc32 m' (S.base + UInt32.ofNat (used blockSize before)) := by
    refine not_blockValid_of_changed hcrc h hn hvalid hlength (by omega) hfield
  have hwalk := Walk.of_log (by omega) hbefore' (Walk.stop hinvalid)
  rw [List.append_nil] at hwalk
  refine (loadHands_iff g).mpr ⟨_, _, hwalk, ?_⟩
  rw [← List.getLast?_map, map_dataAt_blockAddrs (by omega) hbefore']

end Crc

/-- The checksum of the firmware is one of these. -/
theorem detectsBursts_crc32 : DetectsBursts crc32 :=
  fun xs ys _ _ hlength hburst hne =>
    Crc32.crc32_ne_of_burst crcInitialValue xs ys hlength hburst hne

/-- The last bit of a saved tree that has one byte. -/
theorem burst_loads_previous_emptyTree :
    ∃ s : FlashState, Represents crc32 configSector s.mem [emptyTree.enc]
      ∧ LoadHands crc32 flashGeometry
        { s with mem := s.mem.flip (configSector.base + UInt32.ofNat (0 + 12)) 7 }
        configSector.base none := by
  obtain ⟨s, t, -, hholds⟩ := save_erasedFlash emptyTree ⟨by decide, trivial⟩ (by decide)
  have hlog : Represents crc32 configSector s.mem ([] ++ emptyTree.enc :: []) :=
    hholds.represents
  exact ⟨s, hlog, burst_loads_previous detectsBursts_crc32 hlog (n := 1) (k := 12) (by decide)
    (Or.inr (Or.inr (Or.inr ⟨le_refl 12, le_refl 13⟩)))
    (changedWithin_flip s.mem configSector.base 7 (by decide))⟩

end ConfigStore
