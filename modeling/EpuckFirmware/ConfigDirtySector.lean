import EpuckFirmware.ConfigRefinement

/-!
# Saving to a sector in any state

What a save does to a sector it did not write itself: one left by a save that was
cut, or damaged. The block goes to where the walk ends, whether or not the bytes
there are erased. The header is checksummed over what the flash holds after the
data was written, so a payload that could not be programmed carries a valid
checksum, and loading hands it over.

A save is therefore only as good as the place it is given. `Clean` is what the
place must be: the blocks before it lie in the sector, it can take the bytes of
the block, and nothing behind it passes for a header.
-/

namespace ConfigStore

open BoundedLog

section Sector

variable {g : Geometry} {S : Sector g} {crc32 : UInt32 → List UInt8 → UInt32}

/-- The block is written behind the last one. -/
def Follows (S : Sector g) (r : UInt32 × ParameterNamespace) (as : List UInt32)
    (e : UInt32) : Prop :=
  as ≠ [] ∧ (e - S.base).toNat + blockSize r.2.enc ≤ r.1.toNat

/-- **The place for the block is clean**: the blocks before it lie within the length
passed, it can take the bytes of the block, unless it is erased first, and the
length behind it has no matching checksum. -/
def Clean (crc32 : UInt32 → List UInt8 → UInt32) (S : Sector g) (s : FlashState)
    (r : UInt32 × ParameterNamespace) : Prop :=
  ∀ as e, Walk crc32 s.mem S.base as e →
    (∀ a ∈ as, BlockInside s.mem S.base r.1.toNat a)
      ∧ (Follows S r as e → s.mem.Takes e (blockBytes crc32 r.2.enc)
        ∧ ¬ LengthOk crc32 s.mem (e + UInt32.ofNat (blockSize r.2.enc)))
      ∧ (¬ Follows S r as e →
        ¬ LengthOk crc32 (S.wipe s.mem) (S.base + UInt32.ofNat (blockSize r.2.enc)))

/-- **The memory a completed save leaves**: the block behind the last one if it fits
there, and in the erased sector if not. -/
theorem CompletedSave.mem_eq (hcrc : ErasedInvalid crc32) (h8 : 8 ≤ S.size)
    {r : UInt32 × ParameterNamespace} (h12 : 12 ≤ r.1.toNat) (hdst : r.1.toNat ≤ S.size)
    {s s' : FlashState} {t : List FlashOp} (h : CompletedSave crc32 S r s s' t)
    {as : List UInt32} {e : UInt32} (hw : Walk crc32 s.mem S.base as e)
    (he : (e - S.base).toNat ≤ r.1.toNat) :
    blockSize r.2.enc ≤ r.1.toNat ∧
      ((Follows S r as e ∧ s'.mem = storeBlock crc32 s.mem e r.2.enc)
        ∨ (¬ Follows S r as e ∧ s'.mem = storeBlock crc32 (S.wipe s.mem) S.base r.2.enc)) := by
  obtain ⟨as', e', m', hw', hsaved, rfl⟩ := h.saved hcrc h8 h12
  obtain ⟨rfl, rfl⟩ := hw.unique hw'
  have hpos : 0 < r.2.enc.length := List.length_pos_iff.mpr r.2.nonempty
  have hsize : blockSize r.2.enc = 12 + r.2.enc.length := rfl
  rcases hsaved.mem_eq hdst he with ⟨ha, hf, hm⟩ | ⟨hno, hf, hm⟩
  · have hroom := ((fits_iff (Nat.le_of_lt ha.lt_room)).mp hf).2
    rw [toNat_room he] at hroom
    exact ⟨by omega, Or.inl ⟨⟨ha.1, by omega⟩, hm⟩⟩
  · obtain ⟨hne, hfits⟩ := (fits_iff h12).mp hf
    refine ⟨hfits, Or.inr ⟨fun hfollows => hno ?_, hm⟩⟩
    have ha : Appends S r.1 as e := (appends_iff he).mpr ⟨hfollows.1, by have := hfollows.2; omega⟩
    refine ⟨ha, (fits_iff (Nat.le_of_lt ha.lt_room)).mpr ⟨hne, ?_⟩⟩
    rw [toNat_room he]
    have := hfollows.2
    omega

/-- **A block stored behind a chain of blocks**, valid itself and with no header
behind it, is the one loading hands over. -/
theorem loadHands_storeBlock {m : Memory} {as : List UInt32} {n k : ℕ} {data : List UInt8}
    (hn : n < 2 ^ 32) (hw : Walk crc32 m S.base as (S.base + UInt32.ofNat k))
    (hin : ∀ a ∈ as, BlockInside m S.base n a) (hk : k + blockSize data + 8 ≤ 2 ^ 32)
    {payload : List UInt8} (hlen : payload.length = data.length)
    (hblock : (storeBlock crc32 m (S.base + UInt32.ofNat k) data).peek
      (S.base + UInt32.ofNat k) (blockSize payload) = blockBytes crc32 payload)
    (hbehind : ¬ LengthOk crc32 m (S.base + UInt32.ofNat (k + blockSize data)))
    {s : FlashState} (hs : s.mem = storeBlock crc32 m (S.base + UInt32.ofNat k) data) :
    LoadHands crc32 g s S.base (some payload) := by
  have hsize : blockSize payload = blockSize data := by rw [blockSize, blockSize, hlen]
  have hbase : S.base + UInt32.ofNat 0 = S.base := UInt32.add_zero _
  obtain ⟨hvalid, hl, hdata⟩ := blockValid_of_peek crc32
    (by rw [hlen]; have : blockSize data = 12 + data.length := rfl; omega) hblock
  rw [← hs] at hvalid hl hdata
  -- the walk from the new block on
  have hstop : ¬ BlockValid crc32 s.mem (S.base + UInt32.ofNat (k + blockSize data)) := by
    rintro ⟨hok, -⟩
    refine hbehind ((lengthOk_congr crc32 (fun i hi => ?_)).2.mp hok)
    rw [hs, UInt32.add_assoc, ← UInt32.ofNat_add]
    exact storeBlock_outside m S.base (by omega) (by omega) (Or.inr (by omega))
  have hlast : Walk crc32 s.mem (S.base + UInt32.ofNat k) [S.base + UInt32.ofNat k]
      (S.base + UInt32.ofNat (k + blockSize data)) := by
    refine Walk.step hvalid ?_
    rw [nextBlock_of_length hl, hsize, UInt32.add_assoc, ← UInt32.ofNat_add]
    exact Walk.stop hstop
  -- the blocks before it are as they were
  obtain ⟨k', hk', heq, hframe⟩ := hw.frame_base hn hin
  obtain rfl : k = k' := by
    have h₁ := Memory.toNat_sub_base S.base (show k < 2 ^ 32 from by omega)
    rw [heq, Memory.toNat_sub_base S.base (by omega)] at h₁
    exact h₁.symm
  have hsame : ∀ i < k, s.mem (S.base + UInt32.ofNat i) = m (S.base + UInt32.ofNat i) := by
    intro i hi
    rw [hs]
    exact storeBlock_outside m S.base (by omega) (by omega) (Or.inl hi)
  refine (loadHands_iff g).mpr ⟨_, _, hframe s.mem hsame _ _ hlast, ?_⟩
  rw [List.getLast?_append, List.getLast?_singleton, Option.some_or, Option.map_some, hdata]

/-- **A save to a clean place** is one that loading hands over. -/
theorem CompletedSave.loadHands (hcrc : ErasedInvalid crc32) (h8 : 8 ≤ S.size)
    (hsize : S.size + 8 ≤ 2 ^ 32) {r : UInt32 × ParameterNamespace} (h12 : 12 ≤ r.1.toNat)
    (hdst : r.1.toNat ≤ S.size) {s s' : FlashState} {t : List FlashOp}
    (h : CompletedSave crc32 S r s s' t) (hclean : Clean crc32 S s r) :
    LoadHands crc32 g s' S.base (some r.2.enc) := by
  have hlt := r.1.toNat_lt
  obtain ⟨as, e, -, hw, -, -⟩ := h.saved hcrc h8 h12
  obtain ⟨hin, hbehind, hfresh⟩ := hclean as e hw
  obtain ⟨k, hk, rfl, -⟩ := hw.frame_base hlt hin
  have hoff := Memory.toNat_sub_base S.base (show k < 2 ^ 32 from by omega)
  obtain ⟨hfits, hmem⟩ := h.mem_eq hcrc h8 h12 hdst hw (by rw [hoff]; exact hk)
  rcases hmem with ⟨hfollows, hm⟩ | ⟨hno, hm⟩
  · obtain ⟨htakes, hno⟩ := hbehind hfollows
    have hroom := hfollows.2
    rw [hoff] at hroom
    rw [UInt32.add_assoc, ← UInt32.ofNat_add] at hno
    exact loadHands_storeBlock hlt hw hin (by omega) rfl (peek_storeBlock (by omega) htakes) hno hm
  · -- the sector was erased, and takes any block
    have hbase : S.base + UInt32.ofNat 0 = S.base := UInt32.add_zero _
    have hnil : Walk crc32 (S.wipe s.mem) S.base [] (S.base + UInt32.ofNat 0) := by
      rw [hbase]
      exact walk_wipe hcrc h8 s.mem
    have htakes : (S.wipe s.mem).Takes (S.base + UInt32.ofNat 0) (blockBytes crc32 r.2.enc) := by
      refine Memory.Erased.takes (fun i hi => ?_)
      rw [length_blockBytes] at hi
      rw [hbase]
      exact S.erased_wipe s.mem i (by omega)
    have hstop := hfresh hno
    rw [← hbase] at hm
    refine loadHands_storeBlock (k := 0) hlt hnil (fun a ha => ?_) (by omega) rfl
      (peek_storeBlock (by omega) htakes) ?_ hm
    · cases ha
    · rw [Nat.zero_add]
      exact hstop

/-- **Behind an erased header the payload decides**: what is handed over is the
payload if the flash could take it, and otherwise something else, with a
matching checksum. -/
theorem CompletedSave.loadHands_iff_takes (hcrc : ErasedInvalid crc32) (h8 : 8 ≤ S.size)
    (hsize : S.size + 8 ≤ 2 ^ 32) {r : UInt32 × ParameterNamespace} (h12 : 12 ≤ r.1.toNat)
    (hdst : r.1.toNat ≤ S.size) {s s' : FlashState} {t : List FlashOp}
    (h : CompletedSave crc32 S r s s' t) {as : List UInt32} {e : UInt32}
    (hw : Walk crc32 s.mem S.base as e) (hin : ∀ a ∈ as, BlockInside s.mem S.base r.1.toNat a)
    (hfollows : Follows S r as e) (hheader : s.mem.Erased e 12)
    (hbehind : ¬ LengthOk crc32 s.mem (e + UInt32.ofNat (blockSize r.2.enc))) :
    LoadHands crc32 g s' S.base (some r.2.enc)
      ↔ s.mem.Takes (e + configHeaderSize) r.2.enc := by
  have hlt := r.1.toNat_lt
  obtain ⟨k, hk, rfl, -⟩ := hw.frame_base hlt hin
  have hoff := Memory.toNat_sub_base S.base (show k < 2 ^ 32 from by omega)
  have hbs : blockSize r.2.enc = 12 + r.2.enc.length := rfl
  obtain ⟨hfits, hmem⟩ := h.mem_eq hcrc h8 h12 hdst hw (by rw [hoff]; exact hk)
  obtain ⟨-, hm⟩ := hmem.resolve_right (fun hno => hno.1 hfollows)
  have hroom := hfollows.2
  rw [hoff] at hroom
  rw [UInt32.add_assoc, ← UInt32.ofNat_add] at hbehind
  -- the payload as the flash holds it
  set payload := (s.mem.burn (S.base + UInt32.ofNat k + configHeaderSize) r.2.enc).peek
    (S.base + UInt32.ofNat k + configHeaderSize) r.2.enc.length with hpayload
  have hlen : payload.length = r.2.enc.length := by
    rw [hpayload, Memory.length_peek]
  have hbytes : (storeBlock crc32 s.mem (S.base + UInt32.ofNat k) r.2.enc).peek
      (S.base + UInt32.ofNat k) (blockSize payload) = blockBytes crc32 payload :=
    peek_storeBlock_of_erased_header (by omega) hheader
  have hloads : LoadHands crc32 g s' S.base (some payload) :=
    loadHands_storeBlock hlt hw hin (by omega) hlen hbytes hbehind hm
  rw [← Memory.peek_burn_eq_iff (by omega), ← hpayload]
  constructor
  · intro hload
    exact Option.some.inj (hloads.unique g hload)
  · intro hsame
    rwa [hsame] at hloads

end Sector

/-- A tree with one flag, `x`: a map of one entry, its name and its value. -/
def flagTree (on : Bool) : ParameterNamespace where
  writer := .write [0x81] fun _ => .write [0xa1] fun _ => .write [0x78] fun _ =>
    .write [if on then 0xc3 else 0xc2] fun _ => .done
  nonempty := by cases on <;> decide
  bounded := by cases on <;> decide

theorem noEmptyWrite_flagTree (on : Bool) : (flagTree on).writer.NoEmptyWrite :=
  ⟨by decide, by decide, by decide, List.cons_ne_nil _ _, trivial⟩

end ConfigStore
