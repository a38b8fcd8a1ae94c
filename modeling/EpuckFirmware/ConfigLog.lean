import EpuckFirmware.BoundedLog
import EpuckFirmware.ConfigWalk

/-!
# The sector as a log of blocks

What the configuration sector is for: it holds a log, the encodings saved so
far, and only the last one matters. `logBytes` is how a log is laid out, block
after block, and `Represents` is the relation between a sector and the log in
it: the blocks laid end to end and nothing but erased bytes behind them.

A walk over a sector that starts with a log passes exactly the blocks of that
log (`Walk.of_log`). Where it stops depends on what follows; behind the log of a
represented sector a header reads as erased, or reaches past the end of the
sector (`Represents.end_invalid`).
-/

namespace ConfigStore

open BoundedLog

/-- The room a block with these data takes. -/
def blockSize (data : List UInt8) : ℕ := 12 + data.length

section Crc

variable (crc32 : UInt32 → List UInt8 → UInt32)

/-- The header of a block: checksum of the length, length, checksum of the
data. -/
def headerOf (len : UInt32) (data : List UInt8) : List UInt8 :=
  leBytes (crc32 crcInitialValue (leBytes len)) ++ leBytes len
    ++ leBytes (crc32 crcInitialValue data)

/-- **A block**: header, then data. -/
def blockBytes (data : List UInt8) : List UInt8 :=
  headerOf crc32 (UInt32.ofNat data.length) data ++ data

/-- A log laid out block after block. -/
def logBytes (log : List (List UInt8)) : List UInt8 := log.flatMap (blockBytes crc32)

@[simp] theorem length_headerOf (len : UInt32) (data : List UInt8) :
    (headerOf crc32 len data).length = 12 := by
  simp [headerOf]

@[simp] theorem length_blockBytes (data : List UInt8) :
    (blockBytes crc32 data).length = blockSize data := by
  rw [blockBytes, List.length_append, length_headerOf, blockSize]

@[simp] theorem logBytes_nil : logBytes crc32 [] = [] := rfl

@[simp] theorem logBytes_cons (data : List UInt8) (log : List (List UInt8)) :
    logBytes crc32 (data :: log) = blockBytes crc32 data ++ logBytes crc32 log := rfl

theorem logBytes_append (log log' : List (List UInt8)) :
    logBytes crc32 (log ++ log') = logBytes crc32 log ++ logBytes crc32 log' :=
  List.flatMap_append

@[simp] theorem length_logBytes (log : List (List UInt8)) :
    (logBytes crc32 log).length = used blockSize log := by
  induction log with
  | nil => rfl
  | cons data log ih =>
    rw [logBytes_cons, List.length_append, length_blockBytes, ih, used_cons]

/-- **A block in memory is valid**, and its length and data are read back. -/
theorem blockValid_of_peek {m : Memory} {a : UInt32} {data : List UInt8}
    (hlen : data.length < 2 ^ 32)
    (h : m.peek a (blockSize data) = blockBytes crc32 data) :
    BlockValid crc32 m a ∧ (lengthAt m a).toNat = data.length ∧ dataAt m a = data := by
  have hbytes : m.peek a (4 + (4 + (4 + data.length)))
      = leBytes (crc32 crcInitialValue (leBytes (UInt32.ofNat data.length)))
        ++ (leBytes (UInt32.ofNat data.length)
          ++ (leBytes (crc32 crcInitialValue data) ++ data)) := by
    rw [show 4 + (4 + (4 + data.length)) = blockSize data from by
      unfold blockSize
      omega, h]
    simp only [blockBytes, headerOf, List.append_assoc]
  -- peel the three words off the front
  rw [Memory.peek_add] at hbytes
  obtain ⟨hw₁, hbytes⟩ := List.append_inj hbytes (by simp)
  rw [Memory.peek_add] at hbytes
  obtain ⟨hw₂, hbytes⟩ := List.append_inj hbytes (by simp)
  rw [Memory.peek_add] at hbytes
  obtain ⟨hw₃, hdata⟩ := List.append_inj hbytes (by simp)
  have h8 : a + UInt32.ofNat 4 + UInt32.ofNat 4 = a + 8 := by
    rw [UInt32.add_assoc]
    rfl
  have h12 : a + UInt32.ofNat 4 + UInt32.ofNat 4 + UInt32.ofNat 4 = a + configHeaderSize := by
    rw [UInt32.add_assoc, UInt32.add_assoc]
    rfl
  rw [h8] at hw₃
  rw [h12] at hdata
  have hlenAt : lengthAt m a = UInt32.ofNat data.length := Memory.peekWord_of_peek hw₂
  have hlenNat : (lengthAt m a).toNat = data.length := by
    rw [hlenAt, UInt32.toNat_ofNat']
    exact Nat.mod_eq_of_lt hlen
  have hdataAt : dataAt m a = data := by
    rw [dataAt, hlenNat, hdata]
  refine ⟨⟨?_, ?_⟩, hlenNat, hdataAt⟩
  · rw [LengthOk, Memory.peekWord_of_peek hw₁, hlenAt]
  · rw [hdataAt]
    exact Memory.peekWord_of_peek hw₃

/-- The addresses of the blocks of a log laid out from `a` on. -/
def blockAddrs (a : UInt32) : List (List UInt8) → List UInt32
  | [] => []
  | data :: log => a :: blockAddrs (a + UInt32.ofNat (blockSize data)) log

@[simp] theorem length_blockAddrs (a : UInt32) (log : List (List UInt8)) :
    (blockAddrs a log).length = log.length := by
  induction log generalizing a with
  | nil => rfl
  | cons data log ih => rw [blockAddrs, List.length_cons, ih, List.length_cons]

theorem blockAddrs_ne_nil (a : UInt32) {log : List (List UInt8)} (h : log ≠ []) :
    blockAddrs a log ≠ [] := by
  rw [ne_eq, ← List.length_eq_zero_iff, length_blockAddrs, List.length_eq_zero_iff]
  exact h

theorem blockAddrs_append (a : UInt32) (log log' : List (List UInt8)) :
    blockAddrs a (log ++ log')
      = blockAddrs a log ++ blockAddrs (a + UInt32.ofNat (used blockSize log)) log' := by
  induction log generalizing a with
  | nil =>
    rw [used_nil, show a + UInt32.ofNat 0 = a from UInt32.add_zero a]
    rfl
  | cons data log ih =>
    rw [List.cons_append, blockAddrs, blockAddrs, ih, used_cons, UInt32.ofNat_add,
      ← UInt32.add_assoc]
    rfl

variable {crc32}

/-- The next block starts where the block in memory ends. -/
theorem nextBlock_of_length {m : Memory} {a : UInt32} {data : List UInt8}
    (h : (lengthAt m a).toNat = data.length) :
    nextBlock m a = a + UInt32.ofNat (blockSize data) := by
  have hl : lengthAt m a = UInt32.ofNat data.length := by
    rw [← h, UInt32.ofNat_toNat]
  rw [nextBlock, hl, blockSize, Nat.add_comm 12, UInt32.ofNat_add, UInt32.add_assoc]
  rfl

/-- **A walk over a log in memory passes its blocks** and goes on behind them. -/
theorem Walk.of_log {m : Memory} {a e : UInt32} {log : List (List UInt8)} {as : List UInt32}
    (hlen : used blockSize log ≤ 2 ^ 32)
    (hlog : m.peek a (used blockSize log) = logBytes crc32 log)
    (hw : Walk crc32 m (a + UInt32.ofNat (used blockSize log)) as e) :
    Walk crc32 m a (blockAddrs a log ++ as) e := by
  induction log generalizing a with
  | nil =>
    rw [used_nil, show a + UInt32.ofNat 0 = a from UInt32.add_zero a] at hw
    exact hw
  | cons data log ih =>
    rw [used_cons] at hlen hlog hw
    have hsize : blockSize data = 12 + data.length := rfl
    rw [Memory.peek_add, logBytes_cons] at hlog
    obtain ⟨hblock, hrest⟩ := List.append_inj hlog (by simp)
    obtain ⟨hvalid, hl, -⟩ := blockValid_of_peek crc32 (by omega) hblock
    have hnext := nextBlock_of_length hl
    rw [UInt32.ofNat_add, ← UInt32.add_assoc] at hw
    refine Walk.step hvalid ?_
    rw [hnext]
    exact ih (by omega) hrest hw

/-- The data read back at the blocks of a log in memory are the log. -/
theorem map_dataAt_blockAddrs {m : Memory} {a : UInt32} {log : List (List UInt8)}
    (hlen : used blockSize log ≤ 2 ^ 32)
    (hlog : m.peek a (used blockSize log) = logBytes crc32 log) :
    (blockAddrs a log).map (dataAt m) = log := by
  induction log generalizing a with
  | nil => rfl
  | cons data log ih =>
    rw [used_cons] at hlen hlog
    have hsize : blockSize data = 12 + data.length := rfl
    rw [Memory.peek_add, logBytes_cons] at hlog
    obtain ⟨hblock, hrest⟩ := List.append_inj hlog (by simp)
    obtain ⟨-, -, hdata⟩ := blockValid_of_peek crc32 (by omega) hblock
    rw [blockAddrs, List.map_cons, hdata, ih (by omega) hrest]

/-- The blocks of a log in memory lie in it. -/
theorem blockInside_of_log {m : Memory} {base : UInt32} {n : ℕ} (hn : n ≤ 2 ^ 32)
    {log : List (List UInt8)} {o : ℕ} (ho : o + used blockSize log ≤ n)
    (hlog : m.peek (base + UInt32.ofNat o) (used blockSize log) = logBytes crc32 log) :
    ∀ a ∈ blockAddrs (base + UInt32.ofNat o) log, BlockInside m base n a := by
  induction log generalizing o with
  | nil =>
    intro a ha
    cases ha
  | cons data log ih =>
    have hsize : blockSize data = 12 + data.length := rfl
    rw [used_cons] at ho hlog
    rw [Memory.peek_add, logBytes_cons] at hlog
    obtain ⟨hblock, hrest⟩ := List.append_inj hlog (by simp)
    obtain ⟨-, hl, -⟩ := blockValid_of_peek crc32 (by omega) hblock
    rw [UInt32.add_assoc, ← UInt32.ofNat_add] at hrest
    intro a ha
    rw [blockAddrs, List.mem_cons, UInt32.add_assoc, ← UInt32.ofNat_add] at ha
    rcases ha with rfl | ha
    · exact ⟨o, rfl, by omega⟩
    · exact ih (by omega) hrest a ha

/-! ## Erased headers -/

variable (crc32)

/-- **An all-`0xff` header is not valid**: what the initial value of the
checksums is chosen for. -/
def ErasedInvalid : Prop := crc32 crcInitialValue [0xff, 0xff, 0xff, 0xff] ≠ 0xffffffff

variable {crc32}

/-- The length checksum of an erased header does not match. -/
theorem not_lengthOk_of_erased (hcrc : ErasedInvalid crc32) {m : Memory} {a : UInt32}
    (h : m.Erased a 8) : ¬ LengthOk crc32 m a := by
  intro hlen
  have hff : ∀ {b : UInt32}, m.Erased b 4 → m.peek b 4 = leBytes 0xffffffff := by
    intro b hb
    rw [hb.peek]
    rfl
  have h₀ : m.Erased a 4 := fun i hi => h i (by omega)
  have h₄ : m.Erased (a + 4) 4 := h.mono (i := 4) (k := 4) (by omega)
  have hword : lengthAt m a = 0xffffffff := Memory.peekWord_of_peek (hff h₄)
  rw [LengthOk, hword, Memory.peekWord_of_peek (hff h₀)] at hlen
  exact hcrc hlen.symm

/-- Erased bytes do not read as a block. -/
theorem not_blockValid_of_erased (hcrc : ErasedInvalid crc32) {m : Memory} {a : UInt32}
    (h : m.Erased a 8) : ¬ BlockValid crc32 m a :=
  fun hvalid => not_lengthOk_of_erased hcrc h hvalid.1

/-! ## Sectors that hold a log -/

variable {g : Geometry} (S : Sector g)

/-- **The sector holds exactly this log**: the blocks laid end to end, followed
by erased bytes. -/
structure Represents (crc32 : UInt32 → List UInt8 → UInt32) (S : Sector g) (m : Memory)
    (log : List (List UInt8)) : Prop where
  /-- The log fits. -/
  fits : used blockSize log ≤ S.size
  /-- The content of the sector. -/
  content : m.peek S.base S.size
    = logBytes crc32 log ++ List.replicate (S.size - used blockSize log) 0xff

/-- **Memory past the end of the sector does not read as a header**: a header
that starts in the sector, in erased bytes, and reaches past its end is not
valid, nor is one that starts right at the end. -/
def NoHeaderPastEnd (crc32 : UInt32 → List UInt8 → UInt32) (S : Sector g)
    (outside : Memory) : Prop :=
  ∀ m : Memory, (∀ x, S.size ≤ (x - S.base).toNat → m x = outside x) →
    ∀ o ≤ S.size, S.size < o + 8 →
      m.Erased (S.base + UInt32.ofNat o) (S.size - o) →
        ¬ BlockValid crc32 m (S.base + UInt32.ofNat o)

variable {S}

/-- Erased memory past the end does not read as a header. -/
theorem noHeaderPastEnd_of_erased (hcrc : ErasedInvalid crc32) {outside : Memory}
    (hout : ∀ x, S.size ≤ (x - S.base).toNat → outside x = 0xff) (hsize : S.size + 8 ≤ 2 ^ 32) :
    NoHeaderPastEnd crc32 S outside := by
  intro m hm o ho _ herased
  refine not_blockValid_of_erased hcrc (fun i hi => ?_)
  by_cases hin : o + i < S.size
  · exact herased i (by omega)
  · have hoff : (S.base + UInt32.ofNat o + UInt32.ofNat i - S.base).toNat = o + i := by
      rw [UInt32.add_assoc, ← UInt32.ofNat_add]
      exact Memory.toNat_sub_base S.base (by omega)
    rw [hm _ (by omega), hout _ (by omega)]

theorem Represents.size_le {m : Memory} {log : List (List UInt8)}
    (h : Represents crc32 S m log) : used blockSize log ≤ 2 ^ 32 := by
  have := h.fits
  have := S.fits
  omega

/-- The front of the sector is the log. -/
theorem Represents.peek_log {m : Memory} {log : List (List UInt8)}
    (h : Represents crc32 S m log) :
    m.peek S.base (used blockSize log) = logBytes crc32 log := by
  have hc := h.content
  rw [show S.size = used blockSize log + (S.size - used blockSize log) from by
    have := h.fits
    omega, Memory.peek_add] at hc
  exact (List.append_inj hc (by simp)).1

/-- The bytes behind the log are erased. -/
theorem Represents.erased {m : Memory} {log : List (List UInt8)}
    (h : Represents crc32 S m log) :
    m.Erased (S.base + UInt32.ofNat (used blockSize log)) (S.size - used blockSize log) := by
  have hc := h.content
  have hfits := h.fits
  have hsplit : S.size = used blockSize log + (S.size - used blockSize log) := by omega
  refine Memory.erased_of_peek ?_
  rw [hsplit, Memory.peek_add] at hc
  have hr := (List.append_inj hc (by simp)).2
  rw [hr]
  congr 1
  omega

/-- They take whatever is programmed there. -/
theorem Represents.takes {m : Memory} {log : List (List UInt8)} (h : Represents crc32 S m log)
    {k : ℕ} {bs : List UInt8} (hroom : used blockSize log + k + bs.length ≤ S.size) :
    m.Takes (S.base + UInt32.ofNat (used blockSize log) + UInt32.ofNat k) bs := by
  refine Memory.Erased.takes (fun i hi => ?_)
  rw [UInt32.add_assoc, ← UInt32.ofNat_add]
  exact h.erased (k + i) (by omega)

/-- Blocks at the front and erased bytes behind them are a represented log. -/
theorem Represents.of_parts {m : Memory} {log : List (List UInt8)}
    (hfits : used blockSize log ≤ S.size)
    (hlog : m.peek S.base (used blockSize log) = logBytes crc32 log)
    (herased : m.Erased (S.base + UInt32.ofNat (used blockSize log))
      (S.size - used blockSize log)) :
    Represents crc32 S m log := by
  refine ⟨hfits, ?_⟩
  have hsplit : S.size = used blockSize log + (S.size - used blockSize log) := by omega
  conv_lhs => rw [hsplit]
  rw [Memory.peek_add, hlog, herased.peek]

/-- An erased sector holds the empty log. -/
theorem Represents.of_erased {m : Memory} (h : m.Erased S.base S.size) :
    Represents crc32 S m [] := by
  refine Represents.of_parts (Nat.zero_le _) rfl ?_
  rw [used_nil, show S.base + UInt32.ofNat 0 = S.base from UInt32.add_zero _]
  exact h

/-- **Behind the log there is no valid block**: the header there is erased, or
it reaches past the end of the sector. -/
theorem Represents.end_invalid {m : Memory} {log : List (List UInt8)}
    (h : Represents crc32 S m log) (hcrc : ErasedInvalid crc32)
    (hend : used blockSize log + 8 ≤ S.size ∨ NoHeaderPastEnd crc32 S m) :
    ¬ BlockValid crc32 m (S.base + UInt32.ofNat (used blockSize log)) := by
  by_cases hroom : used blockSize log + 8 ≤ S.size
  · refine not_blockValid_of_erased hcrc ?_
    intro i hi
    exact h.erased i (by omega)
  · have hpast := hend.resolve_left hroom
    exact hpast m (fun _ _ => rfl) _ h.fits (by omega) h.erased

/-- **The walk over a represented log** passes its blocks and stops behind them. -/
theorem Represents.walk {m : Memory} {log : List (List UInt8)} (h : Represents crc32 S m log)
    (hend : ¬ BlockValid crc32 m (S.base + UInt32.ofNat (used blockSize log))) :
    Walk crc32 m S.base (blockAddrs S.base log)
      (S.base + UInt32.ofNat (used blockSize log)) := by
  have hw := Walk.of_log h.size_le h.peek_log (Walk.stop hend)
  rwa [List.append_nil] at hw

/-- **Loading hands over the last entry of the log.** -/
theorem Represents.loadHands {s : FlashState} {log : List (List UInt8)}
    (h : Represents crc32 S s.mem log)
    (hend : ¬ BlockValid crc32 s.mem (S.base + UInt32.ofNat (used blockSize log))) :
    LoadHands crc32 g s S.base log.getLast? := by
  refine (loadHands_iff g).mpr ⟨_, _, h.walk hend, ?_⟩
  rw [← List.getLast?_map, map_dataAt_blockAddrs h.size_le h.peek_log]

end Crc

end ConfigStore
