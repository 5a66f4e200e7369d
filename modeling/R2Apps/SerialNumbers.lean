import Mathlib.Data.List.Basic
import Mathlib.Tactic.Ring

/-! 32-bit serial numbers. A position in an unbounded stream is a natural; its
serial number is a base plus the position modulo 2^32. Two positions at most
2^31 apart compare through the signed difference of their serial numbers. -/
namespace R2Apps.SerialNumbers

def serial (base : UInt32) (position : Nat) : UInt32 := base + UInt32.ofNat position

theorem serial_add (base : UInt32) (position count : Nat) :
    serial base (position + count) = serial base position + UInt32.ofNat count := by
  simp only [serial, UInt32.ofNat_add]
  exact (UInt32.add_assoc _ _ _).symm

theorem serial_succ (base : UInt32) (position : Nat) :
    serial base (position + 1) = serial base position + 1 :=
  serial_add base position 1

theorem toInt_toInt32 (u : UInt32) :
    u.toInt32.toInt = if u.toNat < 2 ^ 31 then (u.toNat : Int) else u.toNat - 2 ^ 32 := by
  have form : u.toInt32.toInt = u.toBitVec.toInt := rfl
  rw [form, BitVec.toInt_eq_toNat_cond]
  simp only [UInt32.toNat_toBitVec]
  split <;> split <;> omega

theorem toNat_distance (base : UInt32) (x y : Nat) :
    (serial base x - serial base y).toNat = (x % 2 ^ 32 + 2 ^ 32 - y % 2 ^ 32) % 2 ^ 32 := by
  have cancel : serial base x - serial base y = UInt32.ofNat x - UInt32.ofNat y := by
    simp only [serial]
    grind
  rw [cancel, UInt32.toNat_sub]
  simp only [UInt32.toNat_ofNat']
  omega

section Near
variable {x y : Nat} (base : UInt32) (above : x ≤ y + 2 ^ 31) (below : y ≤ x + 2 ^ 31)

include above below

theorem toInt_distance (strict : x < y + 2 ^ 31) :
    (serial base x - serial base y).toInt32.toInt = (x : Int) - y := by
  rw [toInt_toInt32, toNat_distance]
  split <;> omega

theorem positive_distance :
    0 < (serial base x - serial base y).toInt32 ↔ y < x ∧ x < y + 2 ^ 31 := by
  have zero : Int32.toInt 0 = 0 := rfl
  rw [Int32.lt_iff_toInt_lt, toInt_toInt32, toNat_distance, zero]
  split <;> omega

end Near

theorem serial_eq_iff {x y : Nat} (base : UInt32) (above : x < y + 2 ^ 32) (below : y < x + 2 ^ 32) :
    serial base x = serial base y ↔ x = y := by
  constructor
  · intro same
    have zero : (serial base x - serial base y).toNat = 0 := by
      rw [same, UInt32.sub_self]
      rfl
    rw [toNat_distance] at zero
    omega
  · intro same
    rw [same]

theorem toNat_behind {x y : Nat} (base : UInt32) (ordered : y ≤ x) (below : x < y + 2 ^ 32) :
    (serial base x - serial base y).toNat = x - y := by
  rw [toNat_distance]
  omega

end R2Apps.SerialNumbers
