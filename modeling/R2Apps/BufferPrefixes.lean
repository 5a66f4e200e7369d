import R2Apps.ByteMemory
import Mathlib.Data.List.Basic

/-! Buffers that are defined up to some length and hold anything beyond it. Two
buffers agree on a prefix; writing the same bytes at its end makes it longer,
and writing different bytes beyond it does no harm. -/
namespace R2Apps.BufferPrefixes
open R2Apps.ByteMemory

def bytesAt (m : Memory) (address count : Nat) : List UInt8 :=
  (List.range count).map fun i => m (address + i)

/-- `memcpy` of bytes that have been read. -/
def put (m : Memory) (address : Nat) (bytes : List UInt8) : Memory :=
  fun x => if address ≤ x ∧ x < address + bytes.length then bytes.getD (x - address) 0 else m x

/-- `bytes` have been received over a buffer with `stale` contents. -/
def received (bytes : List UInt8) (stale : Memory) : Memory := put stale 0 bytes

def PrefixEq (count : Nat) (m m' : Memory) : Prop := ∀ x < count, m x = m' x

variable {m m' : Memory} {count address : Nat} {bytes : List UInt8}

@[simp] theorem bytesAt_length (m : Memory) (address count : Nat) :
    (bytesAt m address count).length = count := by
  simp [bytesAt]

theorem bytesAt_getD (m : Memory) (start : Nat) {length i : Nat} (inside : i < length) :
    (bytesAt m start length).getD i 0 = m (start + i) := by
  simp [bytesAt, List.getD_eq_getElem?_getD, inside]

theorem put_outside {x : Nat} (outside : x < address ∨ address + bytes.length ≤ x) :
    put m address bytes x = m x := by
  have away : ¬(address ≤ x ∧ x < address + bytes.length) := by omega
  simp only [put, away, if_false]

theorem put_inside {x : Nat} (lower : address ≤ x) (upper : x < address + bytes.length) :
    put m address bytes x = bytes.getD (x - address) 0 := by
  simp only [put, lower, upper, and_self, if_true]

theorem received_stale {x : Nat} (bytes : List UInt8) (stale : Memory) (beyond : bytes.length ≤ x) :
    received bytes stale x = stale x :=
  put_outside (Or.inr (by omega))

theorem received_byte {x : Nat} (bytes : List UInt8) (stale : Memory) (inside : x < bytes.length) :
    received bytes stale x = bytes.getD x 0 :=
  put_inside (Nat.zero_le x) (by omega)

theorem received_same (bytes : List UInt8) (stale stale' : Memory) :
    PrefixEq bytes.length (received bytes stale) (received bytes stale') := by
  intro x inside
  rw [received_byte bytes stale inside, received_byte bytes stale' inside]

theorem bytesAt_congr {start length : Nat} (same : PrefixEq count m m') (inside : start + length ≤ count) :
    bytesAt m start length = bytesAt m' start length := by
  apply List.map_congr_left
  intro i member
  exact same (start + i) (by have := List.mem_range.mp member; omega)

theorem prefix_shorter {less : Nat} (same : PrefixEq count m m') (shorter : less ≤ count) :
    PrefixEq less m m' :=
  fun x inside => same x (Nat.lt_of_lt_of_le inside shorter)

theorem put_same (same : PrefixEq count m m') (address : Nat) (bytes : List UInt8) :
    PrefixEq count (put m address bytes) (put m' address bytes) := by
  intro x inside
  by_cases written : address ≤ x ∧ x < address + bytes.length
  · rw [put_inside written.1 written.2, put_inside written.1 written.2]
  · rw [put_outside (by omega), put_outside (by omega)]
    exact same x inside

theorem put_beyond (same : PrefixEq count m m') (bytes bytes' : List UInt8) (beyond : count ≤ address) :
    PrefixEq count (put m address bytes) (put m' address bytes') := by
  intro x inside
  rw [put_outside (by omega), put_outside (by omega)]
  exact same x inside

theorem put_extends (same : PrefixEq address m m') (bytes : List UInt8) {total : Nat}
    (length : total = address + bytes.length) :
    PrefixEq total (put m address bytes) (put m' address bytes) := by
  subst length
  intro x inside
  by_cases before : x < address
  · rw [put_outside (Or.inl before), put_outside (Or.inl before)]
    exact same x before
  · rw [put_inside (by omega) inside, put_inside (by omega) inside]

theorem bytesAt_put_end (m : Memory) (bytes : List UInt8) (count : Nat) :
    bytesAt (put m count bytes) 0 (count + bytes.length) = bytesAt m 0 count ++ bytes := by
  apply List.ext_getElem
  · simp
  intro i left right
  simp only [bytesAt, List.getElem_map, List.getElem_range, Nat.zero_add]
  by_cases old : i < count
  · rw [put_outside (.inl old), List.getElem_append_left (by simpa using old)]
    simp
  · simp only [List.length_append, bytesAt_length] at right
    rw [put_inside (by omega) (by omega), List.getElem_append_right (by simpa using old)]
    simp [List.getD_eq_getElem?_getD, List.getElem?_eq_getElem (by omega : i - count < bytes.length)]

theorem bytesAt_drop (m : Memory) (count k : Nat) : (bytesAt m 0 count).drop k = bytesAt m k (count - k) := by
  apply List.ext_getElem
  · simp
  intro i left right
  simp [bytesAt]

theorem bytesAt_take (m : Memory) (address : Nat) {count k : Nat} (shorter : k ≤ count) :
    (bytesAt m address count).take k = bytesAt m address k := by
  apply List.ext_getElem
  · simpa using shorter
  intro i left right
  simp [bytesAt]

end R2Apps.BufferPrefixes
