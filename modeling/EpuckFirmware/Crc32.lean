import EpuckFirmware.LittleEndian
import Mathlib.Logic.Function.Iterate

/-!
# The CRC-32 checksum

The reflected CRC-32 with an initial value, bit by bit, complemented before and
after. The register is shifted eight times for each byte, and shifting is
linear over exclusive or and invertible. So four bytes shift the register 32
times, with the bytes added to it at once (`foldl_addByte`), and two different
lists of four bytes have different checksums (`crc32_injective_four`).
-/

namespace Crc32

/-- The reflected generator polynomial. -/
def polynomial : BitVec 32 := 0xEDB88320#32

/-- Shifting the register by one bit. -/
def shiftBit (c : BitVec 32) : BitVec 32 :=
  (c >>> 1) ^^^ if c.getLsbD 0 then polynomial else 0#32

/-- Adding one byte to the register. -/
def addByte (c : BitVec 32) (b : UInt8) : BitVec 32 :=
  shiftBit^[8] (c ^^^ b.toBitVec.setWidth 32)

end Crc32

open Crc32 in
/-- **The checksum** of some bytes, from an initial value. -/
def crc32 (init : UInt32) (data : List UInt8) : UInt32 :=
  ⟨~~~ (data.foldl addByte (~~~ init.toBitVec))⟩

namespace Crc32

/-! ## Shifting is linear and invertible -/

theorem shiftBit_xor (x y : BitVec 32) :
    shiftBit (x ^^^ y) = shiftBit x ^^^ shiftBit y := by
  have hassoc : ∀ a b c d : BitVec 32, a ^^^ b ^^^ (c ^^^ d) = a ^^^ c ^^^ (b ^^^ d) := by
    intro a b c d
    rw [BitVec.xor_assoc, BitVec.xor_assoc, ← BitVec.xor_assoc b c d,
      ← BitVec.xor_assoc c b d, BitVec.xor_comm b c]
  unfold shiftBit
  rw [BitVec.ushiftRight_xor_distrib, hassoc, BitVec.getLsbD_xor]
  congr 1
  cases x.getLsbD 0 <;> cases y.getLsbD 0 <;> simp

theorem iterate_shiftBit_xor (n : ℕ) (x y : BitVec 32) :
    shiftBit^[n] (x ^^^ y) = shiftBit^[n] x ^^^ shiftBit^[n] y := by
  induction n generalizing x y with
  | zero => rfl
  | succ n ih =>
    rw [Function.iterate_succ_apply, Function.iterate_succ_apply, Function.iterate_succ_apply,
      shiftBit_xor, ih]

/-- Only the lowest bit decides the highest bit of the shifted register. -/
theorem getLsbD_shiftBit (c : BitVec 32) : (shiftBit c).getLsbD 31 = c.getLsbD 0 := by
  unfold shiftBit
  rw [BitVec.getLsbD_xor, BitVec.getLsbD_ushiftRight, BitVec.getLsbD_of_ge c _ (by omega)]
  cases c.getLsbD 0 <;> decide

/-- **Shifting loses nothing.** -/
theorem shiftBit_injective : Function.Injective shiftBit := by
  intro x y h
  have hlow : x.getLsbD 0 = y.getLsbD 0 := by
    rw [← getLsbD_shiftBit x, h, getLsbD_shiftBit]
  have hhigh : x >>> 1 = y >>> 1 := by
    unfold shiftBit at h
    rw [hlow] at h
    exact (BitVec.xor_left_inj _).mp h
  refine BitVec.eq_of_getLsbD_eq (fun i hi => ?_)
  cases i with
  | zero => exact hlow
  | succ i =>
    have hbit := congrArg (fun z => z.getLsbD i) hhigh
    simpa [BitVec.getLsbD_ushiftRight, Nat.add_comm] using hbit

/-- Bits that were shifted up and not lost are shifted down again. -/
theorem iterate_shiftBit_shiftLeft (n : ℕ) {y : BitVec 32} (h : y.toNat < 2 ^ (32 - n))
    (hn : n ≤ 32) : shiftBit^[n] (y <<< n) = y := by
  induction n with
  | zero => simp
  | succ n ih =>
    have hstep : shiftBit (y <<< (n + 1)) = y <<< n := by
      have hlow : (y <<< (n + 1)).getLsbD 0 = false := by
        rw [BitVec.getLsbD_shiftLeft]
        simp
      unfold shiftBit
      rw [hlow, if_neg Bool.false_ne_true, BitVec.xor_zero]
      refine BitVec.eq_of_getLsbD_eq (fun i hi => ?_)
      rw [BitVec.getLsbD_ushiftRight, BitVec.getLsbD_shiftLeft, BitVec.getLsbD_shiftLeft,
        show 1 + i - (n + 1) = i - n from by omega]
      by_cases hin : i < n
      · simp [hin, show 1 + i < n + 1 from by omega]
      · by_cases hi31 : 1 + i < 32
        · simp [hi, hi31, hin, show ¬ 1 + i < n + 1 from by omega]
        · -- the bit shifted out was not set
          have htop : y.getLsbD (i - n) = false := by
            rw [← BitVec.testBit_toNat]
            exact Nat.testBit_lt_two_pow
              (by rwa [show i - n = 32 - (n + 1) from by omega])
          simp [htop]
    rw [Function.iterate_succ_apply, hstep]
    refine ih (lt_of_lt_of_le h (Nat.pow_le_pow_right (by omega) (by omega))) (by omega)

/-! ## Several bytes at once -/

/-- The bytes of a register, lowest first. -/
def spread : List UInt8 → BitVec 32
  | [] => 0#32
  | b :: bs => b.toBitVec.setWidth 32 ^^^ (spread bs <<< 8)

theorem toNat_spread_lt (bs : List UInt8) : (spread bs).toNat < 2 ^ (8 * bs.length) := by
  induction bs with
  | nil => decide
  | cons b bs ih =>
    rw [spread, List.length_cons, BitVec.toNat_xor, BitVec.toNat_shiftLeft, Nat.shiftLeft_eq]
    refine Nat.xor_lt_two_pow ?_ ?_
    · rw [BitVec.toNat_setWidth_of_le (by omega)]
      exact lt_of_lt_of_le b.toBitVec.isLt (Nat.pow_le_pow_right (by omega) (by omega))
    · refine lt_of_le_of_lt (Nat.mod_le _ _) ?_
      rw [Nat.mul_add, Nat.pow_add]
      exact Nat.mul_lt_mul_of_pos_right ih (by omega)

/-- Three bytes shifted up by one are shifted down again. -/
theorem iterate_shiftBit_spread {bs : List UInt8} (hbs : bs.length ≤ 3) :
    shiftBit^[8] (spread bs <<< 8) = spread bs := by
  refine iterate_shiftBit_shiftLeft 8 (lt_of_lt_of_le (toNat_spread_lt bs) ?_) (by omega)
  exact Nat.pow_le_pow_right (by omega) (by omega)

/-- **Adding some bytes one after the other** is adding them at once and then
shifting, as long as the register holds them. -/
theorem foldl_addByte (bs : List UInt8) (hbs : bs.length ≤ 4) (c : BitVec 32) :
    bs.foldl addByte c = shiftBit^[8 * bs.length] (c ^^^ spread bs) := by
  induction bs generalizing c with
  | nil => simp [spread]
  | cons b bs ih =>
    have hlen : bs.length + 1 ≤ 4 := hbs
    rw [List.foldl_cons, ih (by omega), spread, List.length_cons, Nat.mul_add, Nat.mul_one,
      Function.iterate_add_apply, ← BitVec.xor_assoc, iterate_shiftBit_xor 8,
      iterate_shiftBit_spread (by omega)]
    rfl

/-- The bytes of a register can be read off it. -/
theorem spread_injective {xs ys : List UInt8} (hlen : xs.length = ys.length)
    (hxs : xs.length ≤ 4) (h : spread xs = spread ys) : xs = ys := by
  induction xs generalizing ys with
  | nil =>
    rw [List.length_nil, eq_comm, List.length_eq_zero_iff] at hlen
    exact hlen.symm
  | cons x xs ih =>
    cases ys with
    | nil => cases hlen
    | cons y ys =>
      have hlen' : xs.length = ys.length := Nat.succ.inj hlen
      have hxs' : xs.length + 1 ≤ 4 := hxs
      unfold spread at h
      have hbyte : x = y := by
        refine UInt8.toBitVec_inj.mp (BitVec.eq_of_getLsbD_eq (fun i hi => ?_))
        have hbit := congrArg (fun z => z.getLsbD i) h
        simpa [BitVec.getLsbD_shiftLeft, BitVec.getLsbD_setWidth, hi,
          show i < 32 from by omega] using hbit
      subst hbyte
      have hrest : spread xs <<< 8 = spread ys <<< 8 := (BitVec.xor_right_inj _).mp h
      have hspread : spread xs = spread ys := by
        rw [← iterate_shiftBit_spread (show xs.length ≤ 3 from by omega), hrest,
          iterate_shiftBit_spread (by omega)]
      rw [ih hlen' (by omega) hspread]

/-- **Four bytes are determined by their checksum.** -/
theorem crc32_injective_four (init : UInt32) {xs ys : List UInt8} (hx : xs.length = 4)
    (hy : ys.length = 4) (h : crc32 init xs = crc32 init ys) : xs = ys := by
  have hreg := BitVec.not_inj.mp (congrArg UInt32.toBitVec h)
  rw [foldl_addByte xs (by omega), foldl_addByte ys (by omega), hx, hy] at hreg
  have hspread := (BitVec.xor_right_inj _).mp (shiftBit_injective.iterate _ hreg)
  exact spread_injective (by omega) (by omega) hspread

/-! ## A byte that changes -/

/-- Different registers stay different. -/
theorem addByte_injective_left (b : UInt8) : Function.Injective (fun c => addByte c b) :=
  fun _ _ h => (BitVec.xor_left_inj _).mp (shiftBit_injective.iterate 8 h)

theorem addByte_injective (c : BitVec 32) : Function.Injective (addByte c) := by
  intro x y h
  have hwide := (BitVec.xor_right_inj _).mp (shiftBit_injective.iterate 8 h)
  have hbyte := congrArg (BitVec.setWidth 8) hwide
  rw [BitVec.setWidth_setWidth_of_le _ (by omega), BitVec.setWidth_setWidth_of_le _ (by omega),
    BitVec.setWidth_eq, BitVec.setWidth_eq] at hbyte
  exact UInt8.toBitVec_inj.mp hbyte

theorem foldl_addByte_injective (bs : List UInt8) :
    Function.Injective (fun c => bs.foldl addByte c) := by
  induction bs with
  | nil => exact fun _ _ h => h
  | cons b bs ih => exact fun _ _ h => addByte_injective_left b (ih h)

/-- **The checksum changes with any one byte.** -/
theorem crc32_ne_of_ne (init : UInt32) (xs ys : List UInt8) {b b' : UInt8} (hb : b ≠ b') :
    crc32 init (xs ++ b :: ys) ≠ crc32 init (xs ++ b' :: ys) := by
  intro h
  have hreg := BitVec.not_inj.mp (congrArg UInt32.toBitVec h)
  rw [List.foldl_append, List.foldl_append, List.foldl_cons, List.foldl_cons] at hreg
  exact hb (addByte_injective _ (foldl_addByte_injective ys hreg))

end Crc32
