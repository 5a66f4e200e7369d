import Mathlib.Data.List.Basic
import Mathlib.Tactic.Ring

/-! CRC-32 as zlib and PNG define it: the bits of the message, each byte from its low
end, go through a register of 32 bits; and the usual way to compute it, a byte at a
time. -/
namespace R2Apps.Crc32

/-- The polynomial, its low term in the top bit. -/
def polynomial : UInt32 := 0xEDB88320

/-- One bit of the message. -/
def shiftIn (r : UInt32) (bit : Bool) : UInt32 :=
  (r >>> 1) ^^^ if (r &&& 1 == 1) != bit then polynomial else 0

/-- The `n` low bits, the lowest first. -/
def lowBits : Nat → UInt32 → List Bool
  | 0, _ => []
  | n + 1, m => (m &&& 1 == 1) :: lowBits n (m >>> 1)

def bits (message : List UInt8) : List Bool := message.flatMap fun x => lowBits 8 x.toUInt32

/-- The register behind a message. -/
def register (message : List UInt8) : UInt32 := (bits message).foldl shiftIn 0xFFFFFFFF

def crc32 (message : List UInt8) : UInt32 := ~~~register message

section ByteAtATime

/-- The register moves on by a bit of its own. -/
def stir (r : UInt32) : UInt32 := (r >>> 1) ^^^ (polynomial &&& (0 - (r &&& 1)))

def stirs : Nat → UInt32 → UInt32
  | 0, r => r
  | n + 1, r => stirs n (stir r)

def feedByte (r : UInt32) (x : UInt8) : UInt32 := stirs 8 (r ^^^ x.toUInt32)

theorem low_bit (m : UInt32) : m &&& 1 = 0 ∨ m &&& 1 = 1 := by
  have value : (m &&& 1).toNat = m.toNat % 2 := by
    rw [UInt32.toNat_and]
    exact Nat.and_one_is_mod _
  rcases Nat.mod_two_eq_zero_or_one m.toNat with even | odd
  · left
    exact UInt32.toNat_inj.mp (value.trans even)
  · right
    exact UInt32.toNat_inj.mp (value.trans odd)

theorem stir_xor (r m : UInt32) : stir (r ^^^ m) = shiftIn r (m &&& 1 == 1) ^^^ (m >>> 1) := by
  have low : (r ^^^ m) &&& 1 = (r &&& 1) ^^^ (m &&& 1) := by
    apply UInt32.toBitVec_inj.mp
    simp only [UInt32.toBitVec_and, UInt32.toBitVec_xor]
    ext i
    simp only [BitVec.getElem_and, BitVec.getElem_xor]
    exact Bool.and_xor_distrib_right ..
  have high : (r ^^^ m) >>> 1 = (r >>> 1) ^^^ (m >>> 1) := by
    apply UInt32.toBitVec_inj.mp
    simp only [UInt32.toBitVec_shiftRight, UInt32.toBitVec_xor]
    exact BitVec.ushiftRight_xor_distrib ..
  rw [stir, shiftIn, low, high]
  have swap (p : UInt32) : (r >>> 1) ^^^ (m >>> 1) ^^^ p = (r >>> 1) ^^^ p ^^^ (m >>> 1) := by
    rw [UInt32.xor_assoc, UInt32.xor_assoc, UInt32.xor_comm (m >>> 1)]
  rw [swap]
  congr 2
  rcases low_bit r with zero | one <;> rcases low_bit m with zero' | one' <;> simp [*]

/-- What is left when the low bits are gone. -/
def highBits : Nat → UInt32 → UInt32
  | 0, m => m
  | n + 1, m => highBits n (m >>> 1)

theorem stirs_lowBits (n : Nat) (r m : UInt32) :
    stirs n (r ^^^ m) = (lowBits n m).foldl shiftIn r ^^^ highBits n m := by
  induction n generalizing r m with
  | zero => rfl
  | succ n ih =>
      rw [stirs, stir_xor, ih]
      rfl

theorem toNat_highBits (n : Nat) (m : UInt32) : (highBits n m).toNat = m.toNat / 2 ^ n := by
  induction n generalizing m with
  | zero => rw [highBits, Nat.pow_zero, Nat.div_one]
  | succ n ih =>
      have half : (m >>> 1).toNat = m.toNat / 2 := by
        rw [UInt32.toNat_shiftRight]
        exact Nat.shiftRight_eq_div_pow _ 1
      rw [highBits, ih, half, Nat.div_div_eq_div_mul, Nat.pow_succ, Nat.mul_comm]

theorem feedByte_eq (r : UInt32) (x : UInt8) : feedByte r x = (lowBits 8 x.toUInt32).foldl shiftIn r := by
  have gone : highBits 8 x.toUInt32 = 0 := by
    apply UInt32.toNat_inj.mp
    rw [toNat_highBits, UInt8.toNat_toUInt32]
    exact Nat.div_eq_of_lt x.toNat_lt
  rw [feedByte, stirs_lowBits, gone, UInt32.xor_zero]

theorem register_append (a b : List UInt8) : register (a ++ b) = b.foldl feedByte (register a) := by
  induction b generalizing a with
  | nil => rw [List.append_nil, List.foldl_nil]
  | cons x b ih =>
      have next : register (a ++ [x]) = feedByte (register a) x := by
        simp only [register, bits, List.flatMap_append, List.foldl_append, feedByte_eq, List.flatMap_cons,
          List.flatMap_nil, List.append_nil]
      rw [List.foldl_cons, ← next, ← ih, List.append_assoc, List.singleton_append]

theorem crc32_append (a b : List UInt8) : crc32 (a ++ b) = ~~~b.foldl feedByte (~~~crc32 a) := by
  rw [crc32, register_append, crc32, UInt32.not_not]

theorem crc32_nil : crc32 [] = 0 := by decide

end ByteAtATime

example : crc32 [49, 50, 51, 52, 53, 54, 55, 56, 57] = 0xCBF43926 := by decide +kernel

end R2Apps.Crc32
