import EpuckFirmware.ConfigFlashStorage

/-!
# What the walk over the blocks finds

The read-only half of the store, said once about memories. A block is valid
when its two checksums match (`BlockValid`), and the two search functions make
the same walk: from block to block as long as they are valid (`Walk`). The
inductive relation has no fuel; the lemmas relate it to the fuelled loops in both
directions, so a walk exists exactly when the loops complete.

Loading hands the last block of the walk to the parameter library
(`loadHands_iff`).
-/

namespace ConfigStore

section Crc

variable (crc32 : UInt32 → List UInt8 → UInt32)

/-! ## Blocks -/

/-- The length a block header gives. -/
def lengthAt (m : Memory) (a : UInt32) : UInt32 := m.peekWord (a + 4)

/-- The bytes the header at `a` says are the block's data. -/
def dataAt (m : Memory) (a : UInt32) : List UInt8 :=
  m.peek (a + configHeaderSize) (lengthAt m a).toNat

/-- The length checksum of the header at `a` matches. -/
def LengthOk (m : Memory) (a : UInt32) : Prop :=
  m.peekWord a = crc32 crcInitialValue (leBytes (lengthAt m a))

/-- **A valid block**: both checksums match. -/
def BlockValid (m : Memory) (a : UInt32) : Prop :=
  LengthOk crc32 m a ∧ m.peekWord (a + 8) = crc32 crcInitialValue (dataAt m a)

instance (m : Memory) (a : UInt32) : Decidable (LengthOk crc32 m a) :=
  inferInstanceAs (Decidable (_ = _))

instance (m : Memory) (a : UInt32) : Decidable (BlockValid crc32 m a) :=
  inferInstanceAs (Decidable (_ ∧ _))

/-- What checking a block reads: the rest of the block only if the length
checksum matches. -/
def blockReads (m : Memory) (a : UInt32) : List FlashOp :=
  reads a 4 ++ reads (a + 4) 4 ++
    if LengthOk crc32 m a then
      reads (a + 8) 4 ++ reads (a + configHeaderSize) (lengthAt m a).toNat
    else []

variable (g : Geometry)

/-- **Checking a block** decides its validity and changes nothing. -/
theorem exec_configBlockIsValid (a : UInt32) (s : FlashState) :
    Program.exec (FlashState.step g) (configBlockIsValid crc32 a) s
      = ⟨some (decide (BlockValid crc32 s.mem a)), s, blockReads crc32 s.mem a⟩ := by
  unfold configBlockIsValid
  by_cases h : LengthOk crc32 s.mem a
  · have h' : s.mem.peekWord a = crc32 crcInitialValue (leBytes (s.mem.peekWord (a + 4))) := h
    simp only [Program.exec_bind, exec_readWord, Outcome.andThen_some, ne_eq, h',
      not_true_eq_false, if_false, exec_readBytes, Program.exec_pure, blockReads, h, if_true,
      List.append_nil, List.append_assoc, BlockValid, true_and]
    rfl
  · have h' : ¬ s.mem.peekWord a = crc32 crcInitialValue (leBytes (s.mem.peekWord (a + 4))) := h
    simp only [Program.exec_bind, exec_readWord, Outcome.andThen_some, ne_eq, h',
      not_false_eq_true, if_true, Program.exec_pure, blockReads, h, if_false, List.append_nil,
      BlockValid, false_and, decide_false]

@[simp] theorem exec_configBlockGetLength (a : UInt32) (s : FlashState) :
    Program.exec (FlashState.step g) (configBlockGetLength a) s
      = ⟨some (lengthAt s.mem a), s, reads (a + 4) 4⟩ := exec_readWord g _ s

/-! ## The walk -/

/-- Where the block after the one at `a` starts. -/
def nextBlock (m : Memory) (a : UInt32) : UInt32 := a + lengthAt m a + configHeaderSize

/-- **The walk over the blocks** from `a`: the valid blocks passed, and the
address where it stops. -/
inductive Walk (m : Memory) : UInt32 → List UInt32 → UInt32 → Prop
  /-- It stops where no valid block is. -/
  | stop {a : UInt32} : ¬ BlockValid crc32 m a → Walk m a [] a
  /-- It goes on behind a valid block. -/
  | step {a e : UInt32} {as : List UInt32} :
      BlockValid crc32 m a → Walk m (nextBlock m a) as e → Walk m a (a :: as) e

/-- What a walk over these blocks reads: each block passed, its length once
more, and the place where it stops. -/
def walkReads (m : Memory) : List UInt32 → UInt32 → List FlashOp
  | [], e => blockReads crc32 m e
  | a :: as, e => blockReads crc32 m a ++ reads (a + 4) 4 ++ walkReads m as e

variable {crc32}

theorem read_of_mem_reads {a : UInt32} {n : ℕ} {o : FlashOp} (h : o ∈ reads a n) :
    ∃ b, o = .read b := by
  obtain ⟨i, -, rfl⟩ := mem_reads.mp h
  exact ⟨_, rfl⟩

/-- **A walk only reads.** -/
theorem read_of_mem_walkReads {m : Memory} {as : List UInt32} {e : UInt32} {o : FlashOp}
    (h : o ∈ walkReads crc32 m as e) : ∃ b, o = .read b := by
  have hblock : ∀ a, o ∈ blockReads crc32 m a → ∃ b, o = .read b := by
    intro a ho
    unfold blockReads at ho
    rcases List.mem_append.mp ho with ho | ho
    · rcases List.mem_append.mp ho with ho | ho <;> exact read_of_mem_reads ho
    · split at ho
      · rcases List.mem_append.mp ho with ho | ho <;> exact read_of_mem_reads ho
      · cases ho
  induction as with
  | nil => exact hblock e h
  | cons a as ih =>
    unfold walkReads at h
    rcases List.mem_append.mp h with h | h
    · rcases List.mem_append.mp h with h | h
      · exact hblock a h
      · exact read_of_mem_reads h
    · exact ih h

/-- There is one walk from an address. -/
theorem Walk.unique {m : Memory} {a e e' : UInt32} {as as' : List UInt32}
    (h : Walk crc32 m a as e) (h' : Walk crc32 m a as' e') : as = as' ∧ e = e' := by
  induction h generalizing as' with
  | stop hv =>
    cases h' with
    | stop _ => exact ⟨rfl, rfl⟩
    | step hv' _ => exact absurd hv' hv
  | step hv _ ih =>
    cases h' with
    | stop hv' => exact absurd hv hv'
    | step _ hw =>
      obtain ⟨has, he⟩ := ih hw
      exact ⟨by rw [has], he⟩

/-- Where a walk stops there is no valid block. -/
theorem Walk.end_invalid {m : Memory} {a e : UInt32} {as : List UInt32}
    (h : Walk crc32 m a as e) : ¬ BlockValid crc32 m e := by
  induction h with
  | stop hv => exact hv
  | step _ _ ih => exact ih

/-- A walk that passes no block has not moved. -/
theorem Walk.eq_of_nil {m : Memory} {a e : UInt32} (h : Walk crc32 m a [] e) : e = a := by
  cases h
  rfl

/-- **With more fuel than blocks, `config_block_find_last_used` completes** with
the last block of the walk. -/
theorem exec_findLastUsedLoop {a e : UInt32} {as : List UInt32} {s : FlashState}
    (h : Walk crc32 s.mem a as e) {fuel : ℕ} (hf : as.length < fuel) (last : Option UInt32) :
    Program.exec (FlashState.step g) (configBlockFindLastUsedLoop crc32 fuel a last) s
      = ⟨some (as.getLast?.or last), s, walkReads crc32 s.mem as e⟩ := by
  induction h generalizing fuel last with
  | stop hv =>
    obtain ⟨fuel, rfl⟩ : ∃ k, fuel = k + 1 := ⟨fuel - 1, by omega⟩
    simp only [configBlockFindLastUsedLoop, Program.exec_bind, exec_configBlockIsValid,
      Outcome.andThen_some, hv, decide_false, Bool.false_eq_true, if_false, Program.exec_pure,
      List.append_nil, List.getLast?_nil, Option.none_or, walkReads]
  | @step a e as hv _ ih =>
    obtain ⟨fuel, rfl⟩ : ∃ k, fuel = k + 1 := ⟨fuel - 1, by omega⟩
    have hlast : (a :: as).getLast?.or last = as.getLast?.or (some a) := by
      rw [List.getLast?_cons]
      cases as.getLast? <;> rfl
    have hfuel : as.length < fuel := by simpa using hf
    have hrest := ih hfuel (some a)
    rw [nextBlock] at hrest
    simp only [configBlockFindLastUsedLoop, Program.exec_bind, exec_configBlockIsValid,
      Outcome.andThen_some, hv, decide_true, if_true, exec_configBlockGetLength, hrest, hlast,
      walkReads, List.append_assoc]

theorem exec_configBlockFindLastUsed {a e : UInt32} {as : List UInt32} {s : FlashState}
    (h : Walk crc32 s.mem a as e) {fuel : ℕ} (hf : as.length < fuel) :
    Program.exec (FlashState.step g) (configBlockFindLastUsed crc32 fuel a) s
      = ⟨some as.getLast?, s, walkReads crc32 s.mem as e⟩ := by
  rw [configBlockFindLastUsed, exec_findLastUsedLoop g h hf, Option.or_none]

/-- **`config_block_find_first_free` completes** with the end of the walk. -/
theorem exec_configBlockFindFirstFree {a e : UInt32} {as : List UInt32} {s : FlashState}
    (h : Walk crc32 s.mem a as e) {fuel : ℕ} (hf : as.length < fuel) :
    Program.exec (FlashState.step g) (configBlockFindFirstFree crc32 fuel a) s
      = ⟨some e, s, walkReads crc32 s.mem as e⟩ := by
  induction h generalizing fuel with
  | stop hv =>
    obtain ⟨fuel, rfl⟩ : ∃ k, fuel = k + 1 := ⟨fuel - 1, by omega⟩
    simp only [configBlockFindFirstFree, Program.exec_bind, exec_configBlockIsValid,
      Outcome.andThen_some, hv, decide_false, Bool.false_eq_true, if_false, Program.exec_pure,
      List.append_nil, walkReads]
  | @step a e as hv _ ih =>
    obtain ⟨fuel, rfl⟩ : ∃ k, fuel = k + 1 := ⟨fuel - 1, by omega⟩
    have hfuel : as.length < fuel := by simpa using hf
    have hrest := ih hfuel
    rw [nextBlock] at hrest
    simp only [configBlockFindFirstFree, Program.exec_bind, exec_configBlockIsValid,
      Outcome.andThen_some, hv, decide_true, if_true, exec_configBlockGetLength, hrest,
      walkReads, List.append_assoc]

/-- **A completed search made a walk**, and had fuel for it. -/
theorem walk_of_findLastUsedLoop {fuel : ℕ} {a : UInt32} {last r : Option UInt32}
    {s : FlashState}
    (h : (Program.exec (FlashState.step g)
      (configBlockFindLastUsedLoop crc32 fuel a last) s).result = some r) :
    ∃ as e, Walk crc32 s.mem a as e ∧ as.length < fuel := by
  induction fuel generalizing a last with
  | zero => cases h
  | succ fuel ih =>
    by_cases hv : BlockValid crc32 s.mem a
    · simp only [configBlockFindLastUsedLoop, Program.exec_bind, exec_configBlockIsValid,
        Outcome.andThen_some, hv, decide_true, if_true, exec_configBlockGetLength] at h
      obtain ⟨as, e, hw, hlen⟩ := ih h
      exact ⟨a :: as, e, Walk.step hv hw, by simpa using hlen⟩
    · exact ⟨[], a, Walk.stop hv, Nat.succ_pos _⟩

/-- With too little fuel the search times out, having read only what the walk
reads. -/
theorem findLastUsedLoop_allOps {P : FlashOp → Prop} {a e : UInt32} {as : List UInt32}
    {s : FlashState} (h : Walk crc32 s.mem a as e)
    (hP : ∀ o ∈ walkReads crc32 s.mem as e, P o) (fuel : ℕ) (last : Option UInt32) :
    Program.AllOps (FlashState.step g) P (configBlockFindLastUsedLoop crc32 fuel a last) s := by
  induction fuel generalizing a as last with
  | zero => intro o ho; cases ho
  | succ fuel ih =>
    cases h with
    | stop hv =>
      exact Program.AllOps.of_exec
        (exec_findLastUsedLoop g (Walk.stop hv) (Nat.succ_pos fuel) last) hP
    | step hv hw =>
      intro o ho
      simp only [configBlockFindLastUsedLoop, Program.exec_bind, exec_configBlockIsValid,
        Outcome.andThen_some, hv, decide_true, if_true, exec_configBlockGetLength,
        List.mem_append] at ho
      simp only [walkReads, List.mem_append] at hP
      rcases ho with ho | ho | ho
      · exact hP o (Or.inl (Or.inl ho))
      · exact hP o (Or.inl (Or.inr ho))
      · exact ih hw (fun o ho => hP o (Or.inr ho)) _ o ho

theorem findFirstFree_allOps {P : FlashOp → Prop} {a e : UInt32} {as : List UInt32}
    {s : FlashState} (h : Walk crc32 s.mem a as e)
    (hP : ∀ o ∈ walkReads crc32 s.mem as e, P o) (fuel : ℕ) :
    Program.AllOps (FlashState.step g) P (configBlockFindFirstFree crc32 fuel a) s := by
  induction fuel generalizing a as with
  | zero => intro o ho; cases ho
  | succ fuel ih =>
    cases h with
    | stop hv =>
      exact Program.AllOps.of_exec
        (exec_configBlockFindFirstFree g (Walk.stop hv) (Nat.succ_pos fuel)) hP
    | step hv hw =>
      intro o ho
      simp only [configBlockFindFirstFree, Program.exec_bind, exec_configBlockIsValid,
        Outcome.andThen_some, hv, decide_true, if_true, exec_configBlockGetLength,
        List.mem_append] at ho
      simp only [walkReads, List.mem_append] at hP
      rcases ho with ho | ho | ho
      · exact hP o (Or.inl (Or.inl ho))
      · exact hP o (Or.inl (Or.inr ho))
      · exact ih hw (fun o ho => hP o (Or.inr ho)) o ho

/-- A search always reads the first header's length checksum and length. -/
theorem reads_mem_findFirstFree {fuel : ℕ} {a : UInt32} {s : FlashState} {i : ℕ} (hi : i < 8) :
    .read (a + UInt32.ofNat i)
      ∈ (Program.exec (FlashState.step g) (configBlockFindFirstFree crc32 (fuel + 1) a) s).trace := by
  refine Program.trace_subset_bind _ _ _ ?_
  rw [exec_configBlockIsValid]
  refine List.mem_append.mpr (Or.inl (List.mem_append.mpr ?_))
  by_cases h : i < 4
  · exact Or.inl (mem_reads.mpr ⟨i, h, rfl⟩)
  · refine Or.inr (mem_reads.mpr ⟨i - 4, by omega, ?_⟩)
    have h4 : (4 : UInt32) = UInt32.ofNat 4 := rfl
    rw [h4, UInt32.add_assoc, ← UInt32.ofNat_add]
    congr 3
    omega

/-! ## Walks over other memories -/

/-- The block at `a`, as long as its header says, lies in the `n` bytes from
`base` on. -/
def BlockInside (m : Memory) (base : UInt32) (n : ℕ) (a : UInt32) : Prop :=
  ∃ o, a = base + UInt32.ofNat o ∧ o + 12 + (lengthAt m a).toNat ≤ n

variable (crc32) in
/-- The length and its checksum depend on eight bytes. -/
theorem lengthOk_congr {m m' : Memory} {a : UInt32}
    (h : ∀ i < 8, m' (a + UInt32.ofNat i) = m (a + UInt32.ofNat i)) :
    lengthAt m' a = lengthAt m a ∧ (LengthOk crc32 m' a ↔ LengthOk crc32 m a) := by
  have hcrc : m'.peekWord a = m.peekWord a := by
    rw [Memory.peekWord, Memory.peekWord, Memory.peek_congr (fun i hi => h i (by omega))]
  have hlen : lengthAt m' a = lengthAt m a := by
    have h4 : m'.peek (a + UInt32.ofNat 4) 4 = m.peek (a + UInt32.ofNat 4) 4 := by
      refine Memory.peek_congr (fun i hi => ?_)
      rw [UInt32.add_assoc, ← UInt32.ofNat_add]
      exact h (4 + i) (by omega)
    exact congrArg leWord h4
  refine ⟨hlen, ?_⟩
  rw [LengthOk, LengthOk, hcrc, hlen]

/-- A block depends on its own bytes. -/
theorem blockValid_congr {m m' : Memory} {a : UInt32}
    (h : ∀ i < 12 + (lengthAt m a).toNat, m' (a + UInt32.ofNat i) = m (a + UInt32.ofNat i)) :
    dataAt m' a = dataAt m a ∧ (BlockValid crc32 m' a ↔ BlockValid crc32 m a) := by
  have hshift : ∀ o n, o + n ≤ 12 + (lengthAt m a).toNat →
      m'.peek (a + UInt32.ofNat o) n = m.peek (a + UInt32.ofNat o) n := by
    intro o n hn
    refine Memory.peek_congr (fun i hi => ?_)
    rw [UInt32.add_assoc, ← UInt32.ofNat_add]
    exact h (o + i) (by omega)
  obtain ⟨hlen, hok⟩ := lengthOk_congr crc32 (fun i hi => h i (by omega))
  have hword : m'.peekWord (a + 8) = m.peekWord (a + 8) := congrArg leWord (hshift 8 4 (by omega))
  have hdata : dataAt m' a = dataAt m a := by
    rw [dataAt, dataAt, hlen]
    exact hshift 12 _ (by omega)
  refine ⟨hdata, ?_⟩
  rw [BlockValid, BlockValid, hok, hword, hdata]

/-- **Frame rule for walks**: a walk whose blocks lie in a range ends in it, and
any memory with the same bytes up to there has a walk over the same blocks. -/
theorem Walk.frame {m : Memory} {base e : UInt32} {n o : ℕ} {as : List UInt32}
    (hn : n < 2 ^ 32) (ho : o ≤ n) (h : Walk crc32 m (base + UInt32.ofNat o) as e)
    (hin : ∀ a ∈ as, BlockInside m base n a) :
    ∃ k, o ≤ k ∧ k ≤ n ∧ e = base + UInt32.ofNat k ∧
      ∀ m' : Memory, (∀ i, o ≤ i → i < k → m' (base + UInt32.ofNat i) = m (base + UInt32.ofNat i)) →
        ∀ as' e', Walk crc32 m' e as' e' → Walk crc32 m' (base + UInt32.ofNat o) (as ++ as') e' := by
  induction as generalizing o with
  | nil =>
    obtain rfl := h.eq_of_nil
    exact ⟨o, le_refl o, ho, rfl, fun _ _ _ _ hw => hw⟩
  | cons a as ih =>
    cases h with
    | step hvalid hrest =>
      -- the first block starts at `o`
      obtain ⟨o', heq, hlen⟩ := hin _ List.mem_cons_self
      obtain rfl : o = o' := by
        have h₁ := Memory.toNat_sub_base base (show o < 2 ^ 32 from by omega)
        have h₂ := Memory.toNat_sub_base base (show o' < 2 ^ 32 from by omega)
        rw [heq, h₂] at h₁
        exact h₁.symm
      set len := (lengthAt m (base + UInt32.ofNat o)).toNat with hlenDef
      have hnext : nextBlock m (base + UInt32.ofNat o) = base + UInt32.ofNat (o + (12 + len)) := by
        rw [nextBlock, Nat.add_comm 12, UInt32.ofNat_add, UInt32.ofNat_add, hlenDef,
          UInt32.ofNat_toNat, UInt32.add_assoc, UInt32.add_assoc]
        rfl
      rw [hnext] at hrest
      obtain ⟨k, hok, hkn, rfl, hframe⟩ := ih (by omega) hrest
        (fun b hb => hin b (List.mem_cons_of_mem _ hb))
      refine ⟨k, by omega, hkn, rfl, fun m' hm' as' e' hw => ?_⟩
      have hsame : ∀ i < 12 + len, m' (base + UInt32.ofNat o + UInt32.ofNat i)
          = m (base + UInt32.ofNat o + UInt32.ofNat i) := by
        intro i hi
        rw [UInt32.add_assoc, ← UInt32.ofNat_add]
        exact hm' _ (by omega) (by omega)
      have hlength := (lengthOk_congr crc32 (fun i hi => hsame i (by omega))).1
      refine Walk.step ((blockValid_congr hsame).2.mpr hvalid) ?_
      rw [nextBlock, hlength, ← nextBlock, hnext]
      exact hframe m' (fun i hi hik => hm' i (by omega) hik) as' e' hw

/-- The frame rule for a walk from the base address itself. -/
theorem Walk.frame_base {m : Memory} {base e : UInt32} {n : ℕ} {as : List UInt32}
    (hn : n < 2 ^ 32) (h : Walk crc32 m base as e) (hin : ∀ a ∈ as, BlockInside m base n a) :
    ∃ k ≤ n, e = base + UInt32.ofNat k ∧
      ∀ m' : Memory, (∀ i < k, m' (base + UInt32.ofNat i) = m (base + UInt32.ofNat i)) →
        ∀ as' e', Walk crc32 m' e as' e' → Walk crc32 m' base (as ++ as') e' := by
  have hbase : base + UInt32.ofNat 0 = base := UInt32.add_zero _
  have h₀ : Walk crc32 m (base + UInt32.ofNat 0) as e := by
    rw [hbase]
    exact h
  obtain ⟨k, -, hk, he, hframe⟩ := h₀.frame hn (Nat.zero_le n) hin
  refine ⟨k, hk, he, fun m' hm' as' e' hw => ?_⟩
  have hwalk := hframe m' (fun i _ hi => hm' i hi) as' e' hw
  rwa [hbase] at hwalk

/-! ## Loading -/

variable (crc32)

/-- The answer of `config_load` when it hands these data, or none, to
`parameter_msgpack_read`. -/
def loadAnswer {τ : Type} (parameterMsgpackRead : τ → List UInt8 → ℤ × τ) (ns : τ) :
    Option (List UInt8) → Bool × τ
  | none => (false, ns)
  | some data => (decide ((parameterMsgpackRead ns data).1 = 0), (parameterMsgpackRead ns data).2)

/-- **`config_load` hands over exactly these data**, or signals that there are
none: so it answers whatever the parameter library does with the bytes it is
handed, and leaves the device as it was. -/
def LoadHands (s : FlashState) (src : UInt32) (data : Option (List UInt8)) : Prop :=
  ∃ fuel, ∀ {τ : Type} (read : τ → List UInt8 → ℤ × τ) (ns : τ),
    (Program.exec (FlashState.step g) (configLoad crc32 read fuel ns src) s).result
        = some (loadAnswer read ns data)
      ∧ (Program.exec (FlashState.step g) (configLoad crc32 read fuel ns src) s).state = s

variable {crc32}

/-- What `config_load` reads. -/
def loadReads (crc32 : UInt32 → List UInt8 → UInt32) (m : Memory) (as : List UInt32)
    (e : UInt32) : List FlashOp :=
  walkReads crc32 m as e ++
    match as.getLast? with
    | none => []
    | some a => reads (a + 4) 4 ++ reads (a + configHeaderSize) (lengthAt m a).toNat

/-- **Loading takes the last block of the walk.** -/
theorem exec_configLoad {τ : Type} (read : τ → List UInt8 → ℤ × τ) (ns : τ)
    {a e : UInt32} {as : List UInt32} {s : FlashState}
    (h : Walk crc32 s.mem a as e) {fuel : ℕ} (hf : as.length < fuel) :
    Program.exec (FlashState.step g) (configLoad crc32 read fuel ns a) s
      = ⟨some (loadAnswer read ns (as.getLast?.map (dataAt s.mem))), s,
          loadReads crc32 s.mem as e⟩ := by
  unfold configLoad
  rw [Program.exec_bind, exec_configBlockFindLastUsed g h hf, Outcome.andThen_some, loadReads]
  cases as.getLast? with
  | none => rfl
  | some b =>
    have hdata : dataAt s.mem b
        = s.mem.peek (b + configHeaderSize) (lengthAt s.mem b).toNat := rfl
    simp only [Program.exec_bind, exec_configBlockGetLength, Outcome.andThen_some,
      exec_readBytes, Option.map_some, loadAnswer, ← hdata]
    by_cases hr : (read ns (dataAt s.mem b)).1 = 0
    · simp only [hr, ne_eq, not_true_eq_false, if_false, decide_true, Program.exec_pure,
        List.append_nil]
    · simp only [hr, ne_eq, not_false_eq_true, if_true, decide_false, Program.exec_pure,
        List.append_nil]

/-- A completed search made a walk. -/
theorem walk_of_configLoad {τ : Type} {read : τ → List UInt8 → ℤ × τ} {ns : τ} {a : UInt32}
    {s : FlashState} {fuel : ℕ} {r : Bool × τ}
    (h : (Program.exec (FlashState.step g) (configLoad crc32 read fuel ns a) s).result = some r) :
    ∃ as e, Walk crc32 s.mem a as e ∧ as.length < fuel := by
  unfold configLoad at h
  rw [Program.exec_bind] at h
  cases hr : (Program.exec (FlashState.step g) (configBlockFindLastUsed crc32 fuel a) s).result with
  | none =>
    unfold Outcome.andThen at h
    rw [hr] at h
    cases h
  | some last => exact walk_of_findLastUsedLoop g hr

/-- **What loading hands over is the data of the walk's last block.** -/
theorem loadHands_iff {s : FlashState} {src : UInt32} {data : Option (List UInt8)} :
    LoadHands crc32 g s src data
      ↔ ∃ as e, Walk crc32 s.mem src as e ∧ as.getLast?.map (dataAt s.mem) = data := by
  constructor
  · rintro ⟨fuel, h⟩
    -- a reader that keeps what it is handed tells the data apart
    have hkeep := (h (fun _ bytes => (0, some bytes)) (none : Option (List UInt8))).1
    obtain ⟨as, e, hw, hf⟩ := walk_of_configLoad g hkeep
    refine ⟨as, e, hw, ?_⟩
    rw [exec_configLoad g _ _ hw hf] at hkeep
    have hsnd : ∀ d : Option (List UInt8),
        (loadAnswer (fun _ bytes => (0, some bytes)) (none : Option (List UInt8)) d).2 = d := by
      intro d
      cases d <;> rfl
    have hans := congrArg Prod.snd (Option.some.inj hkeep)
    rwa [hsnd, hsnd] at hans
  · rintro ⟨as, e, hw, rfl⟩
    refine ⟨as.length + 1, fun read ns => ?_⟩
    rw [exec_configLoad g read ns hw (Nat.lt_succ_self _)]
    exact ⟨rfl, rfl⟩

/-- Loading hands over one thing. -/
theorem LoadHands.unique {s : FlashState} {src : UInt32} {data data' : Option (List UInt8)}
    (h : LoadHands crc32 g s src data) (h' : LoadHands crc32 g s src data') : data = data' := by
  obtain ⟨as, e, hw, rfl⟩ := (loadHands_iff g).mp h
  obtain ⟨as', e', hw', rfl⟩ := (loadHands_iff g).mp h'
  rw [(hw.unique hw').1]

end Crc

end ConfigStore
