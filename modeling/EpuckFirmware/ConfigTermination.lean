import EpuckFirmware.ConfigRefinement

/-!
# When saving terminates

A failed attempt erases the sector and calls `config_save` again with the same
arguments. The second attempt has the whole sector, so if the block fits there
the recursion ends; if it does not, every further attempt fails like the second,
the sector having been erased with what was stored in it. Nothing in the code
compares the size of the encoding with the size of the sector.
-/

namespace ConfigStore

section Sector

variable {g : Geometry} {S : Sector g} {crc32 : UInt32 → List UInt8 → UInt32}

/-- **Saving terminates**, and a tree whose block is longer than the sector leaves
what was stored before. -/
def TerminatesAndKeeps (crc32 : UInt32 → List UInt8 → UInt32) (S : Sector g)
    (r : UInt32 × ParameterNamespace) (s : FlashState) : Prop :=
  (∃ s' t, CompletedSave crc32 S r s s' t)
    ∧ (r.1.toNat < 12 + r.2.enc.length → ∀ s' t data, CompletedSave crc32 S r s s' t →
        LoadHands crc32 g s S.base data → LoadHands crc32 g s' S.base data)

/-- **The block fits in the sector**: the walk over the blocks ends, no write of the
encoding is empty, and header and encoding are no longer than the length passed. -/
def Storable (crc32 : UInt32 → List UInt8 → UInt32) (S : Sector g)
    (r : UInt32 × ParameterNamespace) (s : FlashState) : Prop :=
  (∃ as e, Walk crc32 s.mem S.base as e)
    ∧ r.2.writer.NoEmptyWrite ∧ 12 + r.2.enc.length ≤ r.1.toNat

/-- A tree that can be stored is saved. -/
theorem completedSave_of_storable (hcrc : ErasedInvalid crc32) (h8 : 8 ≤ S.size)
    {r : UInt32 × ParameterNamespace} {s : FlashState} (h : Storable crc32 S r s) :
    ∃ s' t, CompletedSave crc32 S r s s' t := by
  obtain ⟨⟨as, e, hw⟩, hne, hfits⟩ := h
  have h12 : 12 ≤ r.1.toNat := (Nat.le_add_right _ _).trans hfits
  have hc : Completes S r.2 r.1 as e := Or.inr ((fits_iff h12).mpr ⟨hne, hfits⟩)
  obtain ⟨m', t, -, hex⟩ := exec_configSave_saved hcrc h8 (hc.blockSize_le h12) hw hc
    (Nat.lt_succ_self _)
  exact ⟨_, _, _, hex⟩

/-- **A tree that was saved could be stored**, if the walk ended within the length
passed. -/
theorem CompletedSave.storable (hcrc : ErasedInvalid crc32) (h8 : 8 ≤ S.size)
    {r : UInt32 × ParameterNamespace} (h12 : 12 ≤ r.1.toNat) {s s' : FlashState}
    {t : List FlashOp} (h : CompletedSave crc32 S r s s' t)
    (hend : ∀ as e, Walk crc32 s.mem S.base as e → (e - S.base).toNat ≤ r.1.toNat) :
    Storable crc32 S r s := by
  obtain ⟨as, e, m', hw, hsaved, -⟩ := h.saved hcrc h8 h12
  refine ⟨⟨as, e, hw⟩, ?_⟩
  have hle := hend as e hw
  cases hsaved with
  | append ha hf =>
    obtain ⟨hne, hroom⟩ := (fits_iff (Nat.le_of_lt ha.lt_room)).mp hf
    rw [toNat_room hle] at hroom
    exact ⟨hne, hroom.trans (Nat.sub_le _ _)⟩
  | fresh ha hf => exact (fits_iff h12).mp hf
  | retry ha hno hf hwrites hm => exact (fits_iff h12).mp hf

/-- **When saving terminates**: whenever the block fits in the sector – and, as
long as the walk does not end beyond the length passed, only then. -/
theorem configSave_terminates (crc32 : UInt32 → List UInt8 → UInt32)
    (hcrc : ErasedInvalid crc32) (S : Sector g) (h8 : 8 ≤ S.size) (dstLen : UInt32)
    (ns : ParameterNamespace) (s : FlashState) :
    (Storable crc32 S (dstLen, ns) s → TerminatesAndKeeps crc32 S (dstLen, ns) s)
      ∧ (12 ≤ dstLen.toNat →
        (∀ as e, Walk crc32 s.mem S.base as e → (e - S.base).toNat ≤ dstLen.toNat) →
          TerminatesAndKeeps crc32 S (dstLen, ns) s → Storable crc32 S (dstLen, ns) s) := by
  refine ⟨fun h => ⟨completedSave_of_storable hcrc h8 h, fun hlong => ?_⟩, ?_⟩
  · exact absurd h.2.2 (Nat.not_le_of_lt hlong)
  · rintro h12 hend ⟨⟨s', t, hsave⟩, -⟩
    exact hsave.storable hcrc h8 h12 hend

end Sector

theorem configSave_terminates_emptyTree :
    TerminatesAndKeeps crc32 configSector (0x20000, emptyTree) erasedFlash :=
  (configSave_terminates crc32 erasedInvalid_crc32 configSector (by decide) 0x20000
    emptyTree erasedFlash).1 ⟨⟨_, _, walk_erasedFlash⟩, ⟨by decide, trivial⟩, by decide⟩

/-- Saving to an erased device what does not fit there does not terminate. -/
theorem not_terminates_erasedFlash {dstLen : UInt32} (h12 : 12 ≤ dstLen.toNat)
    {ns : ParameterNamespace} (hlong : dstLen.toNat < 12 + ns.enc.length) :
    ¬ TerminatesAndKeeps crc32 configSector (dstLen, ns) erasedFlash := by
  rintro ⟨⟨s', t, hsave⟩, -⟩
  have hend : ∀ as e, Walk crc32 erasedFlash.mem configSector.base as e →
      (e - configSector.base).toNat ≤ dstLen.toNat := by
    intro as e hw
    obtain ⟨-, rfl⟩ := hw.unique walk_erasedFlash
    rw [UInt32.sub_self]
    exact Nat.zero_le _
  have hstore := hsave.storable erasedInvalid_crc32 (by decide) h12 hend
  exact absurd hstore.2.2 (Nat.not_le_of_lt hlong)

/-- **The virtual machine never finishes saving** 40000 bytes to an erased
device. -/
theorem not_terminates_aseba :
    ¬ TerminatesAndKeeps crc32 configSector
      (Saver.aseba.dstLen, zeroTree 39999 (by decide)) erasedFlash := by
  refine not_terminates_erasedFlash (by decide) ?_
  rw [length_enc_zeroTree]
  decide

end ConfigStore
