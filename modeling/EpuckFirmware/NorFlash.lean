import EpuckFirmware.Program
import EpuckFirmware.LittleEndian

/-!
# A NOR flash device

A byte-addressed flash memory in a 32-bit address space. Erasing a sector sets
all its bytes to `0xff`; programming a byte can only clear bits, so it leaves
`old &&& new`; and while the device is locked neither has any effect.

`peek m a n` is what reading `n` bytes from `a` sees and `burn m a bs` is the
memory after programming `bs` from `a` on. Addresses wrap at `2 ^ 32`, as
pointers do, so every statement about two ranges is made with offsets from a
common base: `base + o` for `o < 2 ^ 32`.
-/

/-- What a memory holds at each address. -/
abbrev Memory := UInt32 → UInt8

/-- The operations of the device. -/
inductive FlashOp where
  /-- Read one byte. -/
  | read (a : UInt32)
  /-- Program one byte. -/
  | program (a : UInt32) (b : UInt8)
  /-- Erase the sector with the given number. -/
  | erase (sector : UInt8)
  /-- Allow erasing and programming. -/
  | unlock
  /-- Forbid erasing and programming. -/
  | lock
  deriving DecidableEq

/-- Only a read replies with something. -/
abbrev FlashOp.Reply : FlashOp → Type
  | .read _ => UInt8
  | _ => Unit

/-- The state of the device. -/
structure FlashState where
  /-- The bytes of the address space. -/
  mem : Memory
  /-- Whether erasing and programming are forbidden. -/
  locked : Bool

/-- Which bytes each sector consists of. -/
abbrev Geometry := UInt8 → UInt32 → Bool

namespace Memory

/-- Programming one byte: bits are cleared, never set. -/
def program (m : Memory) (a : UInt32) (b : UInt8) : Memory :=
  fun x => if x = a then m x &&& b else m x

/-- Erasing a sector. -/
def erase (g : Geometry) (sector : UInt8) (m : Memory) : Memory :=
  fun x => if g sector x then 0xff else m x

/-- The `n` bytes from address `a` on. -/
def peek (m : Memory) (a : UInt32) : ℕ → List UInt8
  | 0 => []
  | n + 1 => m a :: peek m (a + 1) n

/-- The 32-bit word at address `a`. -/
def peekWord (m : Memory) (a : UInt32) : UInt32 := leWord (peek m a 4)

/-- The byte programs that write `bs` from address `a` on. -/
def cells (a : UInt32) : List UInt8 → List (UInt32 × UInt8)
  | [] => []
  | b :: bs => (a, b) :: cells (a + 1) bs

/-- A sequence of byte programs. -/
def programAll (m : Memory) (ps : List (UInt32 × UInt8)) : Memory :=
  ps.foldl (fun m p => m.program p.1 p.2) m

/-- The memory after programming `bs` from address `a` on. -/
def burn (m : Memory) (a : UInt32) (bs : List UInt8) : Memory :=
  programAll m (cells a bs)

end Memory

/-- **How the device answers**, and what it does. -/
def FlashState.step (g : Geometry) (s : FlashState) : (o : FlashOp) → o.Reply × FlashState
  | .read a => (s.mem a, s)
  | .program a b =>
    ((), if s.locked then s else { s with mem := s.mem.program a b })
  | .erase n => ((), if s.locked then s else { s with mem := s.mem.erase g n })
  | .unlock => ((), { s with locked := false })
  | .lock => ((), { s with locked := true })

/-- A program over the device. -/
abbrev Flash (α : Type) := Program FlashOp.Reply α

/-- The byte programs among a list of operations, in order. -/
def FlashOp.programs (os : List FlashOp) : List (UInt32 × UInt8) :=
  os.filterMap (fun
    | .program a b => some (a, b)
    | _ => none)

/-- The sector erases among a list of operations, in order. -/
def FlashOp.erases (os : List FlashOp) : List UInt8 :=
  os.filterMap (fun
    | .erase n => some n
    | _ => none)

namespace Memory

/-! ## Offsets from a base address -/

/-- Two addresses with the same base are as far apart as their offsets. -/
theorem toNat_sub_offset (base : UInt32) {i j : ℕ} (hij : i ≤ j) (hj : j < 2 ^ 32) :
    ((base + UInt32.ofNat j) - (base + UInt32.ofNat i)).toNat = j - i := by
  have hb := base.toNat_lt
  rw [UInt32.toNat_sub, UInt32.toNat_add, UInt32.toNat_add,
    UInt32.toNat_ofNat', UInt32.toNat_ofNat']
  omega

/-- The offset of an address from its base. -/
theorem toNat_sub_base (base : UInt32) {j : ℕ} (hj : j < 2 ^ 32) :
    ((base + UInt32.ofNat j) - base).toNat = j := by
  have h := toNat_sub_offset base (Nat.zero_le j) hj
  have h0 : base + UInt32.ofNat 0 = base := UInt32.add_zero base
  rwa [h0] at h

/-- An address before another one with the same base is, going up from it, a
whole address space away. -/
theorem toNat_sub_offset_of_lt (base : UInt32) {i j : ℕ} (hij : j < i) (hi : i < 2 ^ 32) :
    ((base + UInt32.ofNat j) - (base + UInt32.ofNat i)).toNat = 2 ^ 32 + j - i := by
  have hb := base.toNat_lt
  rw [UInt32.toNat_sub, UInt32.toNat_add, UInt32.toNat_add,
    UInt32.toNat_ofNat', UInt32.toNat_ofNat']
  omega

/-- Every address has an offset from every base. -/
theorem add_ofNat_toNat_sub (base x : UInt32) :
    base + UInt32.ofNat (x - base).toNat = x := by
  rw [UInt32.ofNat_toNat, UInt32.add_comm, UInt32.sub_add_cancel]

theorem exists_offset (base x : UInt32) : ∃ o < 2 ^ 32, x = base + UInt32.ofNat o :=
  ⟨(x - base).toNat, UInt32.toNat_lt _, (add_ofNat_toNat_sub base x).symm⟩

/-! ## Reading -/

@[simp] theorem length_peek (m : Memory) (a : UInt32) (n : ℕ) :
    (m.peek a n).length = n := by
  induction n generalizing a with
  | zero => rfl
  | succ n ih => rw [peek, List.length_cons, ih]

/-- Reading two adjacent ranges reads their union. -/
theorem peek_add (m : Memory) (a : UInt32) (i j : ℕ) :
    m.peek a (i + j) = m.peek a i ++ m.peek (a + UInt32.ofNat i) j := by
  induction i generalizing a with
  | zero => simp [peek]
  | succ i ih =>
    have hn : i + 1 + j = (i + j) + 1 := by omega
    rw [hn, peek, peek, ih, List.cons_append, Nat.add_comm i 1, UInt32.ofNat_add,
      ← UInt32.add_assoc]
    rfl

theorem getElem_peek (m : Memory) (a : UInt32) {n i : ℕ} (hi : i < (m.peek a n).length) :
    (m.peek a n)[i] = m (a + UInt32.ofNat i) := by
  induction n generalizing a i with
  | zero => simp [peek] at hi
  | succ n ih =>
    cases i with
    | zero => simp [peek]
    | succ i =>
      have hi' : i < (m.peek (a + 1) n).length := by
        simpa [peek] using hi
      have hstep : (m.peek a (n + 1))[i + 1] = (m.peek (a + 1) n)[i] := rfl
      rw [hstep, ih _ hi', Nat.add_comm i 1, UInt32.ofNat_add, ← UInt32.add_assoc]
      rfl

/-- A range reads as `bs` exactly when each byte does. -/
theorem peek_eq_iff {m : Memory} {a : UInt32} {bs : List UInt8} :
    m.peek a bs.length = bs
      ↔ ∀ i (h : i < bs.length), m (a + UInt32.ofNat i) = bs[i] := by
  constructor
  · intro h i hi
    have hi' : i < (m.peek a bs.length).length := by simpa using hi
    rw [← getElem_peek m a hi']
    simp only [h]
  · intro h
    refine List.ext_getElem (length_peek _ _ _) (fun i h₁ h₂ => ?_)
    rw [getElem_peek, h i h₂]

/-- A range depends on its own bytes only. -/
theorem peek_congr {m m' : Memory} {a : UInt32} {n : ℕ}
    (h : ∀ i < n, m (a + UInt32.ofNat i) = m' (a + UInt32.ofNat i)) :
    m.peek a n = m'.peek a n := by
  refine List.ext_getElem (by simp) (fun i h₁ h₂ => ?_)
  rw [getElem_peek, getElem_peek, h i (by simpa using h₁)]

/-- The word whose four bytes were read. -/
theorem peekWord_of_peek {m : Memory} {a : UInt32} {w : UInt32}
    (h : m.peek a 4 = leBytes w) : m.peekWord a = w := by
  rw [peekWord, h, leWord_leBytes]

/-- A part of a range that is known reads as that part. -/
theorem peek_of_append {m : Memory} {a : UInt32} {xs ys : List UInt8}
    (h : m.peek a (xs.length + ys.length) = xs ++ ys) :
    m.peek a xs.length = xs ∧ m.peek (a + UInt32.ofNat xs.length) ys.length = ys := by
  rw [peek_add] at h
  exact List.append_inj h (length_peek _ _ _)

/-! ## Programming -/

@[simp] theorem length_cells (a : UInt32) (bs : List UInt8) :
    (cells a bs).length = bs.length := by
  induction bs generalizing a with
  | nil => rfl
  | cons b bs ih => rw [cells, List.length_cons, ih, List.length_cons]

theorem cells_append (a : UInt32) (xs ys : List UInt8) :
    cells a (xs ++ ys) = cells a xs ++ cells (a + UInt32.ofNat xs.length) ys := by
  induction xs generalizing a with
  | nil => simp [cells]
  | cons x xs ih =>
    rw [List.cons_append, cells, cells, ih, List.cons_append, List.length_cons,
      Nat.add_comm xs.length 1, UInt32.ofNat_add, ← UInt32.add_assoc]
    rfl

theorem take_cells (a : UInt32) (bs : List UInt8) (n : ℕ) :
    (cells a bs).take n = cells a (bs.take n) := by
  induction bs generalizing a n with
  | nil => simp [cells]
  | cons b bs ih =>
    cases n with
    | zero => simp [cells]
    | succ n => rw [cells, List.take_succ_cons, ih, List.take_succ_cons, cells]

theorem mem_cells {a x : UInt32} {b : UInt8} {bs : List UInt8} :
    (x, b) ∈ cells a bs
      ↔ ∃ i, ∃ h : i < bs.length, x = a + UInt32.ofNat i ∧ b = bs[i] := by
  induction bs generalizing a with
  | nil => simp [cells]
  | cons c bs ih =>
    have hadd : ∀ i : ℕ, a + 1 + UInt32.ofNat i = a + UInt32.ofNat (i + 1) := by
      intro i
      rw [Nat.add_comm i 1, UInt32.ofNat_add, ← UInt32.add_assoc]
      rfl
    rw [cells, List.mem_cons, ih]
    constructor
    · rintro (h | ⟨i, hi, rfl, rfl⟩)
      · obtain ⟨rfl, rfl⟩ := Prod.mk.inj h
        exact ⟨0, by simp, by simp, rfl⟩
      · exact ⟨i + 1, by simpa using hi, hadd i, rfl⟩
    · rintro ⟨i, hi, rfl, rfl⟩
      cases i with
      | zero => exact Or.inl (by simp)
      | succ i => exact Or.inr ⟨i, by simpa using hi, (hadd i).symm, rfl⟩

theorem programAll_append (m : Memory) (ps qs : List (UInt32 × UInt8)) :
    programAll m (ps ++ qs) = programAll (programAll m ps) qs :=
  List.foldl_append

theorem burn_append (m : Memory) (a : UInt32) (xs ys : List UInt8) :
    m.burn a (xs ++ ys) = (m.burn a xs).burn (a + UInt32.ofNat xs.length) ys := by
  rw [burn, cells_append, programAll_append]
  rfl

/-- Programming clears bits, in whichever order. -/
theorem program_comm (m : Memory) (a c : UInt32) (b d : UInt8) :
    (m.program a b).program c d = (m.program c d).program a b := by
  funext x
  have hand : m x &&& b &&& d = m x &&& d &&& b := by
    rw [UInt8.and_assoc, UInt8.and_comm b d, ← UInt8.and_assoc]
  unfold program
  split <;> split
  · exact hand
  · rfl
  · rfl
  · rfl

/-- **Two programming sequences commute**, whether or not they overlap. -/
theorem programAll_comm (m : Memory) (ps qs : List (UInt32 × UInt8)) :
    programAll (programAll m ps) qs = programAll (programAll m qs) ps := by
  have hone : ∀ (m : Memory) (p : UInt32 × UInt8) (qs : List (UInt32 × UInt8)),
      programAll (m.program p.1 p.2) qs = (programAll m qs).program p.1 p.2 := by
    intro m p qs
    induction qs generalizing m with
    | nil => rfl
    | cons q qs ih =>
      show programAll ((m.program p.1 p.2).program q.1 q.2) qs = _
      rw [program_comm, ih]
      rfl
  induction ps generalizing m with
  | nil => rfl
  | cons p ps ih =>
    show programAll (programAll (m.program p.1 p.2) ps) qs = _
    rw [ih, hone]
    rfl

theorem burn_comm (m : Memory) (a c : UInt32) (bs ds : List UInt8) :
    (m.burn a bs).burn c ds = (m.burn c ds).burn a bs := programAll_comm m _ _

/-- **What programming a range does to each byte**, the address space being
walked through at most once. -/
theorem burn_apply (m : Memory) (a : UInt32) (bs : List UInt8) (hbs : bs.length ≤ 2 ^ 32)
    (x : UInt32) :
    m.burn a bs x
      = if h : (x - a).toNat < bs.length then m x &&& bs[(x - a).toNat] else m x := by
  induction bs generalizing m a with
  | nil => simp [burn, cells, programAll]
  | cons b bs ih =>
    have hlen : bs.length + 1 ≤ 2 ^ 32 := hbs
    have hstep : m.burn a (b :: bs) = (m.program a b).burn (a + 1) bs := rfl
    rw [hstep, ih _ _ (by omega)]
    by_cases hx : x = a
    · subst hx
      have hwrap : (x - (x + 1)).toNat = 2 ^ 32 - 1 := by
        rw [UInt32.toNat_sub, UInt32.toNat_add]
        have := x.toNat_lt
        simp only [UInt32.reduceToNat]
        omega
      rw [dif_neg (by omega), program, if_pos rfl]
      simp
    · have hne : (x - a).toNat ≠ 0 := by
        intro h0
        have h1 : x - a = 0 := UInt32.toNat_inj.mp (by simpa using h0)
        have h2 := UInt32.sub_add_cancel x a
        rw [h1, UInt32.zero_add] at h2
        exact hx h2.symm
      have hk : (x - a).toNat = (x - (a + 1)).toNat + 1 := by
        have := x.toNat_lt
        have := a.toNat_lt
        rw [UInt32.toNat_sub] at hne ⊢
        rw [UInt32.toNat_sub, UInt32.toNat_add]
        simp only [UInt32.reduceToNat]
        omega
      have hm : m.program a b x = m x := by rw [program, if_neg hx]
      rw [hm]
      simp only [hk, List.length_cons, Nat.add_lt_add_iff_right, List.getElem_cons_succ]

/-- A programmed byte keeps the bits it shares with what it held. -/
theorem burn_self (m : Memory) (a : UInt32) {bs : List UInt8} (hbs : bs.length ≤ 2 ^ 32)
    {i : ℕ} (hi : i < bs.length) :
    m.burn a bs (a + UInt32.ofNat i) = m (a + UInt32.ofNat i) &&& bs[i] := by
  have hoff : (a + UInt32.ofNat i - a).toNat = i :=
    toNat_sub_base a (lt_of_lt_of_le hi hbs)
  rw [burn_apply m a bs hbs]
  simp only [hoff, hi, dite_true]

/-- Programming a range leaves the addresses outside it alone. -/
theorem burn_of_outside (m : Memory) (base : UInt32) {o j : ℕ} {bs : List UInt8}
    (hbs : o + bs.length ≤ 2 ^ 32) (hj : j < 2 ^ 32) (h : j < o ∨ o + bs.length ≤ j) :
    m.burn (base + UInt32.ofNat o) bs (base + UInt32.ofNat j)
      = m (base + UInt32.ofNat j) := by
  rw [burn_apply _ _ _ (by omega)]
  cases Nat.eq_zero_or_pos bs.length with
  | inl h0 => rw [dif_neg (by omega)]
  | inr hpos =>
    refine dif_neg ?_
    rcases h with h | h
    · rw [toNat_sub_offset_of_lt base h (by omega)]
      omega
    · rw [toNat_sub_offset base (by omega) hj]
      omega

/-- A range apart from the one programmed reads as before. -/
theorem peek_burn_of_disjoint (m : Memory) (base : UInt32) {o j n : ℕ} {bs : List UInt8}
    (hbs : o + bs.length ≤ 2 ^ 32) (hj : j + n ≤ 2 ^ 32)
    (h : j + n ≤ o ∨ o + bs.length ≤ j) :
    (m.burn (base + UInt32.ofNat o) bs).peek (base + UInt32.ofNat j) n
      = m.peek (base + UInt32.ofNat j) n := by
  refine peek_congr (fun i hi => ?_)
  rw [UInt32.add_assoc, ← UInt32.ofNat_add]
  exact burn_of_outside m base hbs (by omega) (by omega)

/-- A range behind the one programmed reads as before. -/
theorem peek_burn_behind (m : Memory) (a : UInt32) {j n : ℕ} {bs : List UInt8}
    (hbs : bs.length ≤ j) (hj : j + n ≤ 2 ^ 32) :
    (m.burn a bs).peek (a + UInt32.ofNat j) n = m.peek (a + UInt32.ofNat j) n := by
  have h0 : a + UInt32.ofNat 0 = a := UInt32.add_zero a
  rcases Nat.eq_zero_or_pos n with rfl | hn
  · rfl
  · have h : (m.burn (a + UInt32.ofNat 0) bs).peek (a + UInt32.ofNat j) n
        = m.peek (a + UInt32.ofNat j) n :=
      peek_burn_of_disjoint m a (by omega) hj (Or.inr (by omega))
    rwa [h0] at h

/-- The bytes `bs` can be programmed from `a` on: every bit they need set is
still set. -/
def Takes (m : Memory) (a : UInt32) (bs : List UInt8) : Prop :=
  ∀ i (h : i < bs.length), m (a + UInt32.ofNat i) &&& bs[i] = bs[i]

/-- The `n` bytes from `a` on are erased. -/
def Erased (m : Memory) (a : UInt32) (n : ℕ) : Prop :=
  ∀ i < n, m (a + UInt32.ofNat i) = 0xff

/-- **A range reads back as programmed exactly when it could take the bytes.** -/
theorem peek_burn_eq_iff {m : Memory} {a : UInt32} {bs : List UInt8}
    (hbs : bs.length ≤ 2 ^ 32) :
    (m.burn a bs).peek a bs.length = bs ↔ m.Takes a bs := by
  rw [peek_eq_iff]
  refine forall_congr' (fun i => forall_congr' (fun hi => ?_))
  rw [burn_self m a hbs hi]

/-- Two adjacent ranges can be programmed exactly when their union can. -/
theorem takes_append {m : Memory} {a : UInt32} {xs ys : List UInt8} :
    m.Takes a (xs ++ ys) ↔ m.Takes a xs ∧ m.Takes (a + UInt32.ofNat xs.length) ys := by
  constructor
  · intro h
    refine ⟨fun i hi => ?_, fun i hi => ?_⟩
    · have hx := h i (by rw [List.length_append]; omega)
      rwa [List.getElem_append_left hi] at hx
    · have hy := h (xs.length + i) (by rw [List.length_append]; omega)
      rw [List.getElem_append_right (Nat.le_add_right _ _), UInt32.ofNat_add,
        ← UInt32.add_assoc] at hy
      simpa only [Nat.add_sub_cancel_left] using hy
  · rintro ⟨hx, hy⟩ i hi
    rw [List.length_append] at hi
    by_cases h : i < xs.length
    · rw [List.getElem_append_left h]
      exact hx i h
    · have hi' := hy (i - xs.length) (by omega)
      rw [UInt32.add_assoc, ← UInt32.ofNat_add, Nat.add_sub_cancel' (by omega)] at hi'
      rw [List.getElem_append_right (by omega)]
      exact hi'

/-- Erased bytes take anything. -/
theorem Erased.takes {m : Memory} {a : UInt32} {bs : List UInt8}
    (h : m.Erased a bs.length) : m.Takes a bs := by
  intro i hi
  rw [h i hi]
  exact UInt8.neg_one_and

theorem Erased.peek {m : Memory} {a : UInt32} {n : ℕ} (h : m.Erased a n) :
    m.peek a n = List.replicate n 0xff := by
  refine List.ext_getElem (by simp) (fun i h₁ h₂ => ?_)
  rw [getElem_peek, List.getElem_replicate]
  exact h i (by simpa using h₁)

theorem erased_of_peek {m : Memory} {a : UInt32} {n : ℕ}
    (h : m.peek a n = List.replicate n 0xff) : m.Erased a n := by
  intro i hi
  have hi' : i < (m.peek a n).length := by simpa using hi
  rw [← getElem_peek m a hi']
  simp only [h, List.getElem_replicate]

/-- A part of an erased range is erased. -/
theorem Erased.mono {m : Memory} {a : UInt32} {n : ℕ} (h : m.Erased a n) {i k : ℕ}
    (hk : i + k ≤ n) : m.Erased (a + UInt32.ofNat i) k := by
  intro j hj
  rw [UInt32.add_assoc, ← UInt32.ofNat_add]
  exact h (i + j) (by omega)

/-- **What an erased range holds** after the programming of `bs` was cut short: the
first `k` bytes, the others still erased. -/
def torn (k : ℕ) (bs : List UInt8) : List UInt8 :=
  bs.take k ++ List.replicate (bs.length - k) 0xff

@[simp] theorem length_torn (k : ℕ) (bs : List UInt8) : (torn k bs).length = bs.length := by
  rw [torn, List.length_append, List.length_take, List.length_replicate]
  omega

theorem torn_of_length_le {k : ℕ} {bs : List UInt8} (h : bs.length ≤ k) : torn k bs = bs := by
  rw [torn, List.take_of_length_le h, Nat.sub_eq_zero_of_le h, List.replicate_zero,
    List.append_nil]

theorem torn_zero (bs : List UInt8) : torn 0 bs = List.replicate bs.length 0xff := rfl

/-- Two ranges programmed one after the other are cut in one of them. -/
theorem torn_append (k : ℕ) (xs ys : List UInt8) :
    torn k (xs ++ ys) = torn k xs ++ torn (k - xs.length) ys := by
  by_cases h : xs.length ≤ k
  · rw [torn_of_length_le h, torn, torn, List.take_append, List.take_of_length_le h,
      List.length_append, List.append_assoc]
    congr 3
    omega
  · have hz : k - xs.length = 0 := by omega
    rw [hz, torn_zero, torn, torn, List.take_append, hz, List.take_zero, List.append_nil,
      List.length_append, List.append_assoc, List.replicate_append_replicate]
    congr 2
    omega

/-- **Cutting short the programming of an erased range** leaves it torn. -/
theorem Erased.peek_burn_take {m : Memory} {a : UInt32} {bs : List UInt8}
    (hbs : bs.length ≤ 2 ^ 32) (h : m.Erased a bs.length) (k : ℕ) :
    (m.burn a (bs.take k)).peek a bs.length = torn k bs := by
  have hlen : (bs.take k).length ≤ bs.length := List.length_take_le' k bs
  have hsplit : bs.length = (bs.take k).length + (bs.length - (bs.take k).length) := by omega
  have hrest : m.Erased (a + UInt32.ofNat (bs.take k).length)
      (bs.length - (bs.take k).length) := h.mono (by omega)
  have hfront : m.Takes a (bs.take k) := Erased.takes (fun i hi => h i (by omega))
  rw [hsplit, peek_add, (peek_burn_eq_iff (by omega)).mpr hfront,
    peek_burn_behind m a (le_refl _) (by omega), hrest.peek, torn]
  congr 2
  rw [List.length_take]
  omega

end Memory

/-! ## Reading programs -/

/-- Reading one byte. -/
def readByte (a : UInt32) : Flash UInt8 := Program.op (FlashOp.read a)

/-- Reading `n` bytes. -/
def readBytes (a : UInt32) : ℕ → Flash (List UInt8)
  | 0 => pure []
  | n + 1 => do
    let b ← readByte a
    let bs ← readBytes (a + 1) n
    pure (b :: bs)

/-- Reading a 32-bit word. -/
def readWord (a : UInt32) : Flash UInt32 := do
  let bs ← readBytes a 4
  pure (leWord bs)

/-- Programming one byte. -/
def programByte (a : UInt32) (b : UInt8) : Flash Unit := Program.op (FlashOp.program a b)

/-- Programming a list of bytes, one after the other. -/
def programBytes (a : UInt32) : List UInt8 → Flash Unit
  | [] => pure ()
  | b :: bs => do
    programByte a b
    programBytes (a + 1) bs

/-- The operations that read `n` bytes from `a` on. -/
def reads (a : UInt32) : ℕ → List FlashOp
  | 0 => []
  | n + 1 => .read a :: reads (a + 1) n

/-- The operations that program `bs` from `a` on. -/
def writes (a : UInt32) (bs : List UInt8) : List FlashOp :=
  (Memory.cells a bs).map (fun p => .program p.1 p.2)

section Exec

variable (g : Geometry)

@[simp] theorem exec_readByte (a : UInt32) (s : FlashState) :
    Program.exec (FlashState.step g) (readByte a) s = ⟨some (s.mem a), s, [.read a]⟩ := rfl

@[simp] theorem exec_programByte (a : UInt32) (b : UInt8) {s : FlashState}
    (hs : s.locked = false) :
    Program.exec (FlashState.step g) (programByte a b) s
      = ⟨some (), { s with mem := s.mem.program a b }, [.program a b]⟩ := by
  rw [programByte, Program.exec_op]
  simp only [FlashState.step, hs, Bool.false_eq_true, if_false]

/-- A read sees the memory and changes nothing. -/
@[simp] theorem exec_readBytes (a : UInt32) (n : ℕ) (s : FlashState) :
    Program.exec (FlashState.step g) (readBytes a n) s
      = ⟨some (s.mem.peek a n), s, reads a n⟩ := by
  induction n generalizing a with
  | zero => rfl
  | succ n ih =>
    simp only [readBytes, Program.exec_bind, exec_readByte, Outcome.andThen_some, ih,
      Program.exec_pure, Memory.peek, reads, List.append_nil, List.cons_append,
      List.nil_append]

@[simp] theorem exec_readWord (a : UInt32) (s : FlashState) :
    Program.exec (FlashState.step g) (readWord a) s
      = ⟨some (s.mem.peekWord a), s, reads a 4⟩ := by
  rw [readWord, Program.exec_bind, exec_readBytes, Outcome.andThen_some,
    Program.exec_pure, List.append_nil]
  rfl

/-- **Programming an unlocked device** burns the bytes into it. -/
theorem exec_programBytes (a : UInt32) (bs : List UInt8) {s : FlashState}
    (hs : s.locked = false) :
    Program.exec (FlashState.step g) (programBytes a bs) s
      = ⟨some (), { s with mem := s.mem.burn a bs }, writes a bs⟩ := by
  induction bs generalizing a s with
  | nil => rfl
  | cons b bs ih =>
    have htail := ih (a + 1) (s := { s with mem := s.mem.program a b }) hs
    simp only [programBytes, Program.exec_bind, exec_programByte g a b hs,
      Outcome.andThen_some, htail]
    rfl

/-- **Frame rule**: a byte that is neither programmed nor in an erased sector
stays as it was. -/
theorem replay_mem_of_untouched {os : List FlashOp} {s : FlashState} {x : UInt32}
    (hp : ∀ b, .program x b ∉ os) (he : ∀ n, .erase n ∈ os → g n x = false) :
    (Program.replay (FlashState.step g) s os).mem x = s.mem x := by
  induction os generalizing s with
  | nil => rfl
  | cons o os ih =>
    have htail := ih (s := (s.step g o).2) (fun b hb => hp b (List.mem_cons_of_mem o hb))
      (fun n hn => he n (List.mem_cons_of_mem o hn))
    have hstep : (s.step g o).2.mem x = s.mem x := by
      cases o with
      | read a => rfl
      | unlock => rfl
      | lock => rfl
      | program a b =>
        have hne : x ≠ a := by
          rintro rfl
          exact hp b List.mem_cons_self
        cases hs : s.locked <;> simp [FlashState.step, hs, Memory.program, hne]
      | erase n =>
        have hout := he n List.mem_cons_self
        cases hs : s.locked <;> simp [FlashState.step, hs, Memory.erase, hout]
    rw [← hstep, ← htail]
    rfl

end Exec

theorem mem_reads {a : UInt32} {n : ℕ} {o : FlashOp} :
    o ∈ reads a n ↔ ∃ i < n, o = .read (a + UInt32.ofNat i) := by
  induction n generalizing a with
  | zero => simp [reads]
  | succ n ih =>
    have hadd : ∀ i : ℕ, a + 1 + UInt32.ofNat i = a + UInt32.ofNat (i + 1) := by
      intro i
      rw [Nat.add_comm i 1, UInt32.ofNat_add, ← UInt32.add_assoc]
      rfl
    rw [reads, List.mem_cons, ih]
    constructor
    · rintro (rfl | ⟨i, hi, rfl⟩)
      · exact ⟨0, by omega, by simp⟩
      · exact ⟨i + 1, by omega, by rw [hadd]⟩
    · rintro ⟨i, hi, rfl⟩
      cases i with
      | zero => exact Or.inl (by simp)
      | succ i => exact Or.inr ⟨i, by omega, by rw [hadd]⟩

namespace FlashOp

@[simp] theorem programs_append (xs ys : List FlashOp) :
    programs (xs ++ ys) = programs xs ++ programs ys := List.filterMap_append

@[simp] theorem erases_append (xs ys : List FlashOp) :
    erases (xs ++ ys) = erases xs ++ erases ys := List.filterMap_append

@[simp] theorem programs_writes (a : UInt32) (bs : List UInt8) :
    programs (writes a bs) = Memory.cells a bs := by
  rw [programs, writes, List.filterMap_map]
  exact List.filterMap_some

@[simp] theorem erases_writes (a : UInt32) (bs : List UInt8) : erases (writes a bs) = [] := by
  rw [erases, writes, List.filterMap_map]
  simp

/-- Reading programs nothing. -/
@[simp] theorem programs_reads (a : UInt32) (n : ℕ) : programs (reads a n) = [] := by
  induction n generalizing a with
  | zero => rfl
  | succ n ih => exact ih (a + 1)

/-- Reading erases nothing. -/
@[simp] theorem erases_reads (a : UInt32) (n : ℕ) : erases (reads a n) = [] := by
  induction n generalizing a with
  | zero => rfl
  | succ n ih => exact ih (a + 1)

/-- The byte programs of a list of operations are those among them. -/
theorem mem_programs {a : UInt32} {b : UInt8} {os : List FlashOp} :
    (a, b) ∈ programs os ↔ .program a b ∈ os := by
  rw [programs, List.mem_filterMap]
  constructor
  · rintro ⟨o, ho, h⟩
    cases o <;> simp_all
  · intro h
    exact ⟨_, h, rfl⟩

end FlashOp
