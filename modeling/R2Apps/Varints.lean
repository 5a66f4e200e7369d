import Mathlib.Algebra.Ring.Nat
import Mathlib.Data.Nat.Bitwise

/-! Numbers of 64 bits in base 128, the low digits first: every byte but the last has its high bit
set. A reader
takes ten bytes at most, and of the tenth only the last bit, so that no shift leaves the 64 bits. -/
namespace R2Apps.Varints

/-- `Uvarint` from byte `i` on: the number and the bytes it took. Nothing where the bytes end inside
it or where it
is past 64 bits. -/
def uvarintFrom : Nat → Nat → List UInt8 → Option (Nat × Nat)
  | _, _, [] => none
  | i, x, b :: rest =>
      if i = 10 then none
      else if b < 0x80 then if i = 9 ∧ b > 1 then none else some (x ||| b.toNat <<< (7 * i), i + 1)
      else uvarintFrom (i + 1) (x ||| (b.toNat &&& 0x7f) <<< (7 * i)) rest

def uvarint (b : List UInt8) : Option (Nat × Nat) := uvarintFrom 0 0 b

def putUvarint (x : Nat) : List UInt8 :=
  if x ≥ 0x80 then UInt8.ofNat (x ||| 0x80) :: putUvarint (x >>> 7) else [UInt8.ofNat x]
termination_by x
decreasing_by
  rw [Nat.shiftRight_eq_div_pow]
  omega

section Writing

set_option maxRecDepth 100000 in
theorem high_bit : ∀ byte, byte < 256 → byte ||| 0x80 = byte % 128 + 128 := by decide

theorem digit_byte (x : Nat) : (UInt8.ofNat (x ||| 0x80)).toNat = x % 128 + 128 := by
  have cut : (x ||| 0x80) % 2 ^ 8 = x % 256 ||| 0x80 := Nat.or_mod_two_pow
  rw [UInt8.toNat_ofNat', cut, high_bit _ (Nat.mod_lt _ (by decide))]
  omega

theorem digits_or (x k : Nat) : (x % 128) <<< k ||| (x >>> 7) <<< (k + 7) = x <<< k := by
  have low : x % 128 < 2 ^ 7 := Nat.mod_lt _ (by decide)
  have whole : x % 128 ||| (x >>> 7) <<< 7 = x := by
    rw [Nat.shiftLeft_eq, Nat.shiftRight_eq_div_pow, Nat.or_comm, Nat.mul_comm,
      ← Nat.two_pow_add_eq_or_of_lt low]
    exact Nat.div_add_mod x 128
  rw [Nat.add_comm, Nat.shiftLeft_add, ← Nat.shiftLeft_or_distrib, whole]

theorem uvarintFrom_put (x : Nat) : ∀ (i acc : Nat) (rest : List UInt8), i ≤ 9 → x < 2 ^ (64 - 7 * i) →
    uvarintFrom i acc (putUvarint x ++ rest) = some (acc ||| x <<< (7 * i), i + (putUvarint x).length) := by
  induction x using Nat.strongRecOn with
  | ind x ih =>
      intro i acc rest few fits
      rw [putUvarint]
      by_cases more : x ≥ 0x80
      · have smaller : x >>> 7 < x := by
          rw [Nat.shiftRight_eq_div_pow]
          omega
        have early : i ≤ 8 := by
          rcases Nat.lt_or_ge 8 i with late | early
          · have ninth : i = 9 := by omega
            rw [ninth] at fits
            omega
          · exact early
        have fits' : x >>> 7 < 2 ^ (64 - 7 * (i + 1)) := by
          have split_ : 2 ^ (64 - 7 * i) = 2 ^ (64 - 7 * (i + 1)) * 2 ^ 7 := by
            rw [← Nat.pow_add]
            congr 1
            omega
          rw [Nat.shiftRight_eq_div_pow]
          exact Nat.div_lt_of_lt_mul (by rw [Nat.mul_comm, ← split_]; exact fits)
        have byte := digit_byte x
        have high : ¬UInt8.ofNat (x ||| 0x80) < 0x80 := by
          rw [UInt8.lt_iff_toNat_lt, byte]
          exact Nat.not_lt.mpr (Nat.le_add_left _ _)
        have digit : (UInt8.ofNat (x ||| 0x80)).toNat &&& 0x7f = x % 128 := by
          rw [byte, Nat.and_two_pow_sub_one_eq_mod _ 7]
          omega
        rw [if_pos more, List.cons_append, uvarintFrom, if_neg (by omega), if_neg high, digit,
          ih _ smaller (i + 1) _ rest (by omega) fits', Nat.or_assoc, Nat.mul_succ, digits_or]
        rw [List.length_cons, Nat.add_assoc, Nat.add_comm 1]
      · have small : x < 256 := by omega
        have byte : (UInt8.ofNat x).toNat = x := by
          rw [UInt8.toNat_ofNat', Nat.mod_eq_of_lt small]
        have low : UInt8.ofNat x < 0x80 := by
          rw [UInt8.lt_iff_toNat_lt, byte]
          exact Nat.lt_of_not_le more
        have tenth : ¬(i = 9 ∧ UInt8.ofNat x > 1) := by
          rintro ⟨ninth, large⟩
          rw [gt_iff_lt, UInt8.lt_iff_toNat_lt, byte] at large
          have one : (1 : UInt8).toNat = 1 := rfl
          rw [ninth] at fits
          omega
        rw [if_neg more, List.cons_append, uvarintFrom, if_neg (by omega), if_pos low, if_neg tenth, byte]
        rfl

theorem uvarint_put {x : Nat} (fits : x < 2 ^ 64) (rest : List UInt8) :
    uvarint (putUvarint x ++ rest) = some (x, (putUvarint x).length) := by
  rw [uvarint, uvarintFrom_put x 0 0 rest (by decide) fits, Nat.zero_or, Nat.mul_zero,
    Nat.shiftLeft_zero, Nat.zero_add]

end Writing

section Reading

theorem uvarintFrom_front {b : List UInt8} : ∀ {i acc x n : Nat}, uvarintFrom i acc b = some (x, n) →
    ∃ front back, b = front ++ back ∧ 0 < front.length ∧ n = i + front.length ∧
      ∀ rest, uvarintFrom i acc (front ++ rest) = some (x, n) := by
  induction b with
  | nil =>
      intro i acc x n read
      cases read
  | cons byte tail ih =>
      intro i acc x n read
      rw [uvarintFrom] at read
      by_cases long : i = 10
      · rw [if_pos long] at read
        cases read
      · rw [if_neg long] at read
        by_cases last : byte < 0x80
        · rw [if_pos last] at read
          by_cases large : i = 9 ∧ byte > 1
          · rw [if_pos large] at read
            cases read
          · rw [if_neg large] at read
            cases read
            refine ⟨[byte], tail, rfl, Nat.one_pos, rfl, ?_⟩
            intro rest
            rw [List.cons_append, uvarintFrom, if_neg long, if_pos last, if_neg large]
        · rw [if_neg last] at read
          obtain ⟨front, back, whole, _, size, again⟩ := ih read
          refine ⟨byte :: front, back, by rw [whole, List.cons_append], Nat.succ_pos _, ?_, ?_⟩
          · rw [List.length_cons]
            omega
          · intro rest
            rw [List.cons_append, uvarintFrom, if_neg long, if_neg last]
            exact again rest

theorem uvarint_front {b : List UInt8} {x n : Nat} (read : uvarint b = some (x, n)) :
    ∃ front back, b = front ++ back ∧ 0 < front.length ∧ n = front.length ∧
      ∀ rest, uvarint (front ++ rest) = some (x, n) := by
  obtain ⟨front, back, whole, some_, size, again⟩ := uvarintFrom_front read
  exact ⟨front, back, whole, some_, by rw [size, Nat.zero_add], again⟩

end Reading

end R2Apps.Varints
