import Mathlib.Data.List.Basic
import Mathlib.Tactic.Ring

/-!
# Little-endian words

The bytes of a machine word in memory order, lowest byte first, and the word a
list of bytes spells. The general facts are about `n` base-256 digits of a
natural number; `leBytes` and `leWord` are their instance at 32-bit words, which
are exactly the lists of four bytes (`leWord_leBytes`, `leBytes_leWord`).
-/

/-- The number a list of bytes spells, lowest byte first. -/
def leNat : List UInt8 → ℕ
  | [] => 0
  | b :: bs => b.toNat + 256 * leNat bs

/-- The `n` lowest base-256 digits of a number, lowest first. -/
def leDigits : ℕ → ℕ → List UInt8
  | 0, _ => []
  | n + 1, w => UInt8.ofNat w :: leDigits n (w / 256)

@[simp] theorem length_leDigits (n w : ℕ) : (leDigits n w).length = n := by
  induction n generalizing w with
  | zero => rfl
  | succ n ih => rw [leDigits, List.length_cons, ih]

/-- The number spelled by `k` bytes has `k` base-256 digits. -/
theorem leNat_lt (bs : List UInt8) : leNat bs < 256 ^ bs.length := by
  induction bs with
  | nil => decide
  | cons b bs ih =>
    have hb : b.toNat < 256 := b.toNat_lt
    rw [leNat, List.length_cons, pow_succ]
    omega

/-- The number that at most `n` bytes spell. -/
theorem leNat_lt_of_length_le {bs : List UInt8} {n : ℕ} (h : bs.length ≤ n) :
    leNat bs < 256 ^ n :=
  (leNat_lt bs).trans_le (Nat.pow_le_pow_right (by norm_num) h)

/-- Reading the digits of a number gives the number back, up to the digits that
were dropped. -/
theorem leNat_leDigits (n w : ℕ) : leNat (leDigits n w) = w % 256 ^ n := by
  induction n generalizing w with
  | zero => rw [leDigits, leNat, pow_zero, Nat.mod_one]
  | succ n ih =>
    have hd : (UInt8.ofNat w).toNat = w % 256 := UInt8.toNat_ofNat'
    rw [leDigits, leNat, ih, hd, pow_succ, Nat.mul_comm (256 ^ n) 256,
      Nat.mod_mul]

/-- Writing the number spelled by some bytes gives the bytes back. -/
theorem leDigits_leNat (bs : List UInt8) :
    leDigits bs.length (leNat bs) = bs := by
  induction bs with
  | nil => rfl
  | cons b bs ih =>
    have hb : b.toNat < 256 := b.toNat_lt
    have hdiv : leNat (b :: bs) / 256 = leNat bs := by
      rw [leNat]
      omega
    have hmod : UInt8.ofNat (leNat (b :: bs)) = b := by
      apply UInt8.toNat_inj.mp
      rw [leNat, UInt8.toNat_ofNat']
      omega
    rw [List.length_cons, leDigits, hdiv, hmod, ih]

/-- The four bytes of a 32-bit word. -/
def leBytes (w : UInt32) : List UInt8 := leDigits 4 w.toNat

/-- The 32-bit word a list of bytes spells. -/
def leWord (bs : List UInt8) : UInt32 := UInt32.ofNat (leNat bs)

@[simp] theorem length_leBytes (w : UInt32) : (leBytes w).length = 4 :=
  length_leDigits 4 _

/-- The word that at most four bytes spell is the number they spell. -/
theorem toNat_leWord {bs : List UInt8} (h : bs.length ≤ 4) : (leWord bs).toNat = leNat bs :=
  UInt32.toNat_ofNat_of_lt' (leNat_lt_of_length_le h)

/-- **A word read back is the word written.** -/
@[simp] theorem leWord_leBytes (w : UInt32) : leWord (leBytes w) = w := by
  have hw : w.toNat < 256 ^ 4 := w.toNat_lt
  rw [leWord, leBytes, leNat_leDigits, Nat.mod_eq_of_lt hw, UInt32.ofNat_toNat]

/-- **Every four bytes are the bytes of a word.** -/
theorem leBytes_leWord {bs : List UInt8} (h : bs.length = 4) :
    leBytes (leWord bs) = bs := by
  have hlt : leNat bs < 2 ^ 32 := by
    have := leNat_lt bs
    rw [h] at this
    exact this
  rw [leBytes, leWord, UInt32.toNat_ofNat', Nat.mod_eq_of_lt hlt, ← h,
    leDigits_leNat]

/-- Words with the same bytes are the same word. -/
theorem leBytes_injective : Function.Injective leBytes :=
  Function.LeftInverse.injective leWord_leBytes

/-! ## Arrays of 16-bit words -/

/-- The two bytes of a 16-bit word. -/
def leHalfBytes (w : UInt16) : List UInt8 := leDigits 2 w.toNat

/-- The 16-bit word a list of bytes spells. -/
def leHalf (bs : List UInt8) : UInt16 := UInt16.ofNat (leNat bs)

/-- The bytes of an array of 16-bit words. -/
def leArray (ws : List UInt16) : List UInt8 := ws.flatMap leHalfBytes

/-- The array of 16-bit words that bytes spell, two by two. -/
def leHalves : List UInt8 → List UInt16
  | a :: b :: bs => leHalf [a, b] :: leHalves bs
  | _ => []

/-- The word that at most two bytes spell is the number they spell. -/
theorem toNat_leHalf {bs : List UInt8} (h : bs.length ≤ 2) : (leHalf bs).toNat = leNat bs :=
  UInt16.toNat_ofNat_of_lt' (leNat_lt_of_length_le h)

@[simp] theorem length_leHalfBytes (w : UInt16) : (leHalfBytes w).length = 2 :=
  length_leDigits 2 _

@[simp] theorem leHalf_leHalfBytes (w : UInt16) : leHalf (leHalfBytes w) = w := by
  have hw : w.toNat < 256 ^ 2 := w.toNat_lt
  rw [leHalf, leHalfBytes, leNat_leDigits, Nat.mod_eq_of_lt hw, UInt16.ofNat_toNat]

@[simp] theorem length_leArray (ws : List UInt16) : (leArray ws).length = 2 * ws.length := by
  induction ws with
  | nil => rfl
  | cons w ws ih =>
    show (leHalfBytes w ++ leArray ws).length = _
    rw [List.length_append, ih, length_leHalfBytes, List.length_cons]
    ring

theorem leArray_append (vs ws : List UInt16) : leArray (vs ++ ws) = leArray vs ++ leArray ws :=
  List.flatMap_append

/-- **An array read back is the array written**, also in front of other bytes. -/
theorem leHalves_leArray_append (ws : List UInt16) (bs : List UInt8) :
    leHalves (leArray ws ++ bs) = ws ++ leHalves bs := by
  induction ws with
  | nil => rfl
  | cons w ws ih =>
    show leHalf (leHalfBytes w) :: leHalves (leArray ws ++ bs) = _
    rw [leHalf_leHalfBytes, ih, List.cons_append]

theorem leHalves_leArray (ws : List UInt16) : leHalves (leArray ws) = ws := by
  have h := leHalves_leArray_append ws []
  rwa [List.append_nil, show leHalves [] = [] from rfl, List.append_nil] at h

theorem length_leHalves (bs : List UInt8) : (leHalves bs).length = bs.length / 2 := by
  induction bs using leHalves.induct with
  | case1 a b bs ih =>
    rw [leHalves, List.length_cons, ih, List.length_cons, List.length_cons]
    omega
  | case2 bs hshort =>
    cases bs with
    | nil => rfl
    | cons a bs =>
      cases bs with
      | nil => simp [leHalves]
      | cons b bs => exact absurd rfl (hshort a b bs)

/-- The first `2 * k` bytes of an array are those of its first `k` words. -/
theorem leHalves_append {as : List UInt8} (h : 2 ∣ as.length) (bs : List UInt8) :
    leHalves (as ++ bs) = leHalves as ++ leHalves bs := by
  induction as using leHalves.induct with
  | case1 a b as ih =>
    have has : 2 ∣ as.length := by
      simp only [List.length_cons] at h
      omega
    rw [List.cons_append, List.cons_append, leHalves, ih has, leHalves, List.cons_append]
  | case2 as hshort =>
    cases as with
    | nil => rfl
    | cons a as =>
      cases as with
      | nil => exact absurd h (by simp)
      | cons b as => exact absurd rfl (hshort a b as)

theorem take_leArray (ws : List UInt16) (k : ℕ) :
    (leArray ws).take (2 * k) = leArray (ws.take k) := by
  induction k generalizing ws with
  | zero => rfl
  | succ k ih =>
    cases ws with
    | nil => rfl
    | cons w ws =>
      show (leHalfBytes w ++ leArray ws).take (2 * k + 2) = leHalfBytes w ++ leArray (ws.take k)
      rw [List.take_append, List.take_of_length_le (by simp), length_leHalfBytes,
        Nat.add_sub_cancel, ih]

theorem drop_leArray (ws : List UInt16) (k : ℕ) :
    (leArray ws).drop (2 * k) = leArray (ws.drop k) := by
  have h : leArray (ws.take k) ++ (leArray ws).drop (2 * k)
      = leArray (ws.take k) ++ leArray (ws.drop k) := by
    rw [← take_leArray, List.take_append_drop, take_leArray, ← leArray_append,
      List.take_append_drop]
  exact List.append_cancel_left h
