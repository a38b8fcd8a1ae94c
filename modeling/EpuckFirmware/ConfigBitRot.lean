import EpuckFirmware.ConfigRefinement

/-!
# A bit of the store that flips

A flipped bit of a block is found by one of the two checksums of its header. In the length
checksum or in the length it makes the first one fail, so that the damaged length is never
used. In the data checksum or in the payload it makes the second one fail, over as many
bytes as before. The walk over the blocks then ends at the damaged block, whatever follows
it, and loading takes the block in front of it.
-/

namespace Memory

/-- A byte with one of its bits flipped. -/
def flipBit (b : UInt8) (i : Fin 8) : UInt8 := b ^^^ (1 <<< UInt8.ofNat i)

theorem flipBit_ne (b : UInt8) (i : Fin 8) : flipBit b i ≠ b := by
  have hbit : ∀ i : Fin 8, (1 : UInt8) <<< UInt8.ofNat i ≠ 0 := by decide
  intro h
  refine hbit i ?_
  rw [← UInt8.xor_right_inj b, UInt8.xor_zero]
  exact h

/-- A memory with one of its bits flipped. -/
def flip (m : Memory) (a : UInt32) (i : Fin 8) : Memory :=
  fun x => if x = a then flipBit (m x) i else m x

/-- The other bytes are as they were. -/
theorem flip_of_ne {m : Memory} {a x : UInt32} (i : Fin 8) (h : x ≠ a) : m.flip a i x = m x :=
  if_neg h

/-- Addresses with the same base are different where their offsets are. -/
theorem base_add_ne (base : UInt32) {j k : ℕ} (hj : j < 2 ^ 32) (hk : k < 2 ^ 32) (h : j ≠ k) :
    base + UInt32.ofNat j ≠ base + UInt32.ofNat k := by
  intro heq
  refine h ?_
  rw [← toNat_sub_base base hj, heq, toNat_sub_base base hk]

/-- A range without the flipped bit reads as before. -/
theorem peek_flip_of_outside (m : Memory) (base : UInt32) (i : Fin 8) {o n k : ℕ}
    (hn : o + n ≤ 2 ^ 32) (hk : k < 2 ^ 32) (h : k < o ∨ o + n ≤ k) :
    (m.flip (base + UInt32.ofNat k) i).peek (base + UInt32.ofNat o) n
      = m.peek (base + UInt32.ofNat o) n := by
  refine peek_congr (fun j hj => ?_)
  rw [UInt32.add_assoc, ← UInt32.ofNat_add]
  exact flip_of_ne i (base_add_ne base (by omega) hk (by omega))

/-- **A range with the flipped bit** reads as before but for one byte. -/
theorem peek_flip_inside (m : Memory) (base : UInt32) (i : Fin 8) {o n k : ℕ}
    (hn : o + n ≤ 2 ^ 32) (h : o ≤ k ∧ k < o + n) :
    ∃ xs ys b, m.peek (base + UInt32.ofNat o) n = xs ++ b :: ys
      ∧ (m.flip (base + UInt32.ofNat k) i).peek (base + UInt32.ofNat o) n
        = xs ++ flipBit b i :: ys := by
  obtain ⟨u, rfl⟩ : ∃ u, k = o + u := ⟨k - o, by omega⟩
  obtain ⟨v, rfl⟩ : ∃ v, n = u + (v + 1) := ⟨n - u - 1, by omega⟩
  have hbehind : base + UInt32.ofNat (o + u) + 1 = base + UInt32.ofNat (o + u + 1) := by
    rw [UInt32.ofNat_add (o + u) 1, UInt32.add_assoc]
    rfl
  refine ⟨m.peek (base + UInt32.ofNat o) u, m.peek (base + UInt32.ofNat (o + u + 1)) v,
    m (base + UInt32.ofNat (o + u)), ?_, ?_⟩
  · rw [peek_add, UInt32.add_assoc, ← UInt32.ofNat_add, peek, hbehind]
  · rw [peek_add, UInt32.add_assoc, ← UInt32.ofNat_add, peek, hbehind,
      peek_flip_of_outside m base i (by omega) (by omega) (Or.inr (le_refl _)),
      peek_flip_of_outside m base i (by omega) (by omega) (Or.inl (by omega))]
    exact congrArg (fun b => _ ++ b :: _) (if_pos rfl)

end Memory

namespace ConfigStore

open BoundedLog Memory

/-- **The checksum finds every flipped bit.** -/
def DetectsFlips (crc32 : UInt32 → List UInt8 → UInt32) : Prop :=
  ∀ (xs ys : List UInt8) (b : UInt8) (i : Fin 8),
    crc32 crcInitialValue (xs ++ flipBit b i :: ys) ≠ crc32 crcInitialValue (xs ++ b :: ys)

section Crc

variable {crc32 : UInt32 → List UInt8 → UInt32}

section Block

variable (m : Memory) (base : UInt32) {o k : ℕ} (i : Fin 8)

/-- A word with a flipped bit is another word. -/
theorem peekWord_flip_ne (ho : o + 4 ≤ 2 ^ 32) (hk : o ≤ k ∧ k < o + 4) :
    (m.flip (base + UInt32.ofNat k) i).peekWord (base + UInt32.ofNat o)
      ≠ m.peekWord (base + UInt32.ofNat o) := by
  obtain ⟨xs, ys, b, hbefore, hafter⟩ := peek_flip_inside m base i ho hk
  intro h
  have hbytes := congrArg leBytes h
  rw [peekWord, peekWord, leBytes_leWord (length_peek _ _ _), leBytes_leWord (length_peek _ _ _),
    hbefore, hafter, List.append_cancel_left_eq, List.cons.injEq] at hbytes
  exact flipBit_ne b i hbytes.1

/-- Bytes with a flipped bit have another checksum. -/
theorem crc32_peek_flip_ne (hcrc : DetectsFlips crc32) {n : ℕ} (ho : o + n ≤ 2 ^ 32)
    (hk : o ≤ k ∧ k < o + n) :
    crc32 crcInitialValue ((m.flip (base + UInt32.ofNat k) i).peek (base + UInt32.ofNat o) n)
      ≠ crc32 crcInitialValue (m.peek (base + UInt32.ofNat o) n) := by
  obtain ⟨xs, ys, b, hbefore, hafter⟩ := peek_flip_inside m base i ho hk
  rw [hbefore, hafter]
  exact hcrc xs ys b i

/-- **A valid block with a flipped bit is not valid**, whichever of its bits it is. -/
theorem not_blockValid_flip {m : Memory} {base : UInt32} (hcrc : DetectsFlips crc32)
    (hvalid : BlockValid crc32 m (base + UInt32.ofNat o))
    (hlen : o + (12 + (lengthAt m (base + UInt32.ofNat o)).toNat) ≤ 2 ^ 32)
    (hk : o ≤ k ∧ k < o + (12 + (lengthAt m (base + UInt32.ofNat o)).toNat)) :
    ¬ BlockValid crc32 (m.flip (base + UInt32.ofNat k) i) (base + UInt32.ofNat o) := by
  set m' := m.flip (base + UInt32.ofNat k) i with hm'
  set len := lengthAt m (base + UInt32.ofNat o) with hlenDef
  have h4 : base + UInt32.ofNat o + 4 = base + UInt32.ofNat (o + 4) := by
    rw [UInt32.ofNat_add o 4, ← UInt32.add_assoc]
    rfl
  have h8 : base + UInt32.ofNat o + 8 = base + UInt32.ofNat (o + 8) := by
    rw [UInt32.ofNat_add o 8, ← UInt32.add_assoc]
    rfl
  have h12 : base + UInt32.ofNat o + configHeaderSize = base + UInt32.ofNat (o + 12) := by
    rw [UInt32.ofNat_add o 12, ← UInt32.add_assoc]
    rfl
  have hword (j : ℕ) (hj : o + j + 4 ≤ 2 ^ 32) (hout : k < o + j ∨ o + j + 4 ≤ k) :
      m'.peekWord (base + UInt32.ofNat (o + j)) = m.peekWord (base + UInt32.ofNat (o + j)) :=
    congrArg leWord (peek_flip_of_outside m base i hj (by omega) hout)
  have hlengthBytes (m : Memory) :
      leBytes (lengthAt m (base + UInt32.ofNat o)) = m.peek (base + UInt32.ofNat (o + 4)) 4 := by
    rw [lengthAt, h4, peekWord, leBytes_leWord (length_peek _ _ _)]
  rintro ⟨hok, hdata⟩
  obtain ⟨hok₀, hdata₀⟩ := hvalid
  rw [LengthOk, hlengthBytes] at hok hok₀
  rw [dataAt, h8, h12] at hdata hdata₀
  by_cases hchecksum : k < o + 4
  · -- the length checksum
    refine peekWord_flip_ne m base i (by omega) ⟨hk.1, hchecksum⟩ ?_
    rw [hok₀, ← hm', hok, peek_flip_of_outside m base i (by omega) (by omega) (Or.inl hchecksum)]
  · by_cases hlength : k < o + 8
    · -- the length
      have hin : o + 4 ≤ k ∧ k < o + 4 + 4 := ⟨by omega, by omega⟩
      refine crc32_peek_flip_ne m base i hcrc (by omega) hin ?_
      rw [← hm', ← hok, ← hok₀]
      exact hword 0 (by omega) (Or.inr (by omega))
    · have hlen' : lengthAt m' (base + UInt32.ofNat o) = len := by
        rw [lengthAt, hlenDef, lengthAt, h4]
        exact hword 4 (by omega) (Or.inr (by omega))
      rw [hlen'] at hdata
      by_cases hchecksum₂ : k < o + 12
      · -- the data checksum
        have hin : o + 8 ≤ k ∧ k < o + 8 + 4 := ⟨by omega, by omega⟩
        refine peekWord_flip_ne m base i (by omega) hin ?_
        rw [hdata₀, ← hm', hdata,
          peek_flip_of_outside m base i (by omega) (by omega) (Or.inl hchecksum₂)]
      · -- the payload
        have hin : o + 12 ≤ k ∧ k < o + 12 + len.toNat := ⟨by omega, by omega⟩
        refine crc32_peek_flip_ne m base i hcrc (by omega) hin ?_
        rw [← hm', ← hdata, ← hdata₀]
        exact hword 8 (by omega) (Or.inr (by omega))

end Block

/-! ## What is loaded -/

variable {g : Geometry}

/-- **Bit-rot never yields a configuration that was not saved**: with a bit of a block
flipped, loading hands over the data of the block in front of it, or signals that there are
none. -/
theorem bitRot_loads_previous (hcrc : DetectsFlips crc32) {S : Sector g} {s : FlashState}
    {before after : List (List UInt8)} {data : List UInt8}
    (h : Represents crc32 S s.mem (before ++ data :: after)) {k : ℕ} (hk : k < blockSize data)
    (i : Fin 8) :
    LoadHands crc32 g
      { s with mem := s.mem.flip (S.base + UInt32.ofNat (used blockSize before + k)) i }
      S.base before.getLast? := by
  have hS := S.fits
  have hfits := h.fits
  have hlog := h.peek_log
  rw [used_append, used_cons] at hfits hlog
  rw [logBytes_append, logBytes_cons, peek_add] at hlog
  obtain ⟨hbefore, hrest⟩ := List.append_inj hlog (by simp)
  rw [peek_add] at hrest
  obtain ⟨hblock, -⟩ := List.append_inj hrest (by simp)
  have hsize : blockSize data = 12 + data.length := rfl
  obtain ⟨hvalid, hlength, -⟩ := blockValid_of_peek crc32 (by omega) hblock
  set m' := s.mem.flip (S.base + UInt32.ofNat (used blockSize before + k)) i with hm'
  have hbefore' : m'.peek S.base (used blockSize before) = logBytes crc32 before := by
    have hframe := peek_flip_of_outside s.mem S.base i (o := 0) (n := used blockSize before)
      (k := used blockSize before + k) (by omega) (by omega) (Or.inr (by omega))
    rw [show S.base + UInt32.ofNat 0 = S.base from UInt32.add_zero _] at hframe
    exact hframe.trans hbefore
  have hinvalid : ¬ BlockValid crc32 m' (S.base + UInt32.ofNat (used blockSize before)) := by
    refine not_blockValid_flip i hcrc hvalid ?_ ?_
    · rw [hlength]
      omega
    · rw [hlength]
      omega
  have hwalk := Walk.of_log (by omega) hbefore' (Walk.stop hinvalid)
  rw [List.append_nil] at hwalk
  refine (loadHands_iff g).mpr ⟨_, _, hwalk, ?_⟩
  rw [← List.getLast?_map, map_dataAt_blockAddrs (by omega) hbefore']

end Crc

/-- The checksum of the firmware is one of these. -/
theorem detectsFlips_crc32 : DetectsFlips crc32 :=
  fun xs ys b i => Crc32.crc32_ne_of_ne crcInitialValue xs ys (flipBit_ne b i)

/-- The last bit of a saved tree that has one byte. -/
theorem bitRot_loads_previous_emptyTree :
    ∃ s : FlashState, Represents crc32 configSector s.mem [emptyTree.enc]
      ∧ LoadHands crc32 flashGeometry
        { s with mem := s.mem.flip (configSector.base + UInt32.ofNat (0 + 12)) 7 }
        configSector.base none := by
  obtain ⟨s, t, -, hholds⟩ := save_erasedFlash emptyTree ⟨by decide, trivial⟩ (by decide)
  have hlog : Represents crc32 configSector s.mem ([] ++ emptyTree.enc :: []) :=
    hholds.represents
  exact ⟨s, hlog, bitRot_loads_previous detectsFlips_crc32 hlog (by decide) 7⟩

end ConfigStore
