import R2Apps.EthernetReceive

/-! What the loops of `inetCksum` compute: the sum of the big-endian words modulo
65535. A block verifies when the complement of its folded sum is zero, and a checksum
stored in a zeroed field makes the block verify. -/
namespace R2Apps.InternetChecksums
open EthernetReceive

def big16 (x : Nat) : List UInt8 := [UInt8.ofNat (x / 256), UInt8.ofNat (x % 256)]

theorem sumPairs_append (first second : List UInt8) (even : first.length % 2 = 0) :
    sumPairs (first ++ second) = sumPairs first + sumPairs second := by
  induction first using sumPairs.induct with
  | case1 => simp [sumPairs]
  | case2 last => simp at even
  | case3 a b rest ih =>
      have shorter : rest.length % 2 = 0 := by simpa [Nat.add_assoc] using even
      simp only [List.cons_append, sumPairs, ih shorter]
      omega

theorem sumPairs_le (data : List UInt8) : sumPairs data ≤ 65535 * ((data.length + 1) / 2) := by
  induction data using sumPairs.induct with
  | case1 => simp [sumPairs]
  | case2 last =>
      have := last.toNat_lt
      simp only [sumPairs, List.length_singleton]
      omega
  | case3 a b rest ih =>
      have := a.toNat_lt
      have := b.toNat_lt
      simp only [sumPairs, List.length_cons]
      omega

theorem sumPairs_small (data : List UInt8) (short : data.length ≤ 65536) : sumPairs data < 2 ^ 32 := by
  have := sumPairs_le data
  omega

theorem foldCarry_spec (sum : Nat) (small : sum < 2 ^ 32) :
    foldCarry 3 sum < 65536 ∧ foldCarry 3 sum % 65535 = sum % 65535 ∧
      (foldCarry 3 sum = 0 ↔ sum = 0) := by
  have one : ∀ x, (x % 65536 + x / 65536) % 65535 = x % 65535 := by
    intro x
    omega
  simp only [foldCarry]
  split
  · omega
  · split
    · have := one sum
      omega
    · split
      · have := one sum
        have := one (sum % 65536 + sum / 65536)
        omega
      · omega

/-- A block of words verifies. -/
def Verifies (data : List UInt8) : Prop := sumPairs data ≠ 0 ∧ sumPairs data % 65535 = 0

theorem inetCksum_lt (data : List UInt8) : inetCksum data < 65536 := by
  simp only [inetCksum]
  omega

theorem inetCksum_zero (data : List UInt8) (short : data.length ≤ 65536) :
    inetCksum data = 0 ↔ Verifies data := by
  have small := sumPairs_small data short
  have ⟨bound, same, zero⟩ := foldCarry_spec (sumPairs data) small
  simp only [inetCksum, Verifies, Nat.mod_eq_of_lt small]
  constructor
  · intro full
    have : foldCarry 3 (sumPairs data) = 65535 := by omega
    constructor
    · intro none
      have := zero.mpr none
      omega
    · omega
  · rintro ⟨some, multiple⟩
    have : foldCarry 3 (sumPairs data) ≠ 0 := fun none => some (zero.mp none)
    omega

theorem inetCksum_completes (data : List UInt8) (short : data.length ≤ 65536) :
    (sumPairs data + inetCksum data) % 65535 = 0 ∧ sumPairs data + inetCksum data ≠ 0 := by
  have small := sumPairs_small data short
  have ⟨bound, same, zero⟩ := foldCarry_spec (sumPairs data) small
  simp only [inetCksum, Nat.mod_eq_of_lt small]
  omega

theorem sumPairs_cksumBytes (data : List UInt8) : sumPairs (cksumBytes data) = inetCksum data := by
  have := inetCksum_lt data
  simp only [cksumBytes, sumPairs, UInt8.toNat_ofNat']
  omega

theorem cksumBytes_verifies (before after : List UInt8) (even : before.length % 2 = 0)
    (short : (before ++ [0, 0] ++ after).length ≤ 65536) :
    Verifies (before ++ cksumBytes (before ++ [0, 0] ++ after) ++ after) := by
  have field : ∀ two : List UInt8, two.length = 2 →
      sumPairs (before ++ two ++ after) = sumPairs before + sumPairs two + sumPairs after := by
    intro two length
    rw [List.append_assoc, sumPairs_append _ _ even, sumPairs_append _ _ (by omega)]
    omega
  have ⟨multiple, positive⟩ := inetCksum_completes _ short
  have zeroed : sumPairs (before ++ [0, 0] ++ after) = sumPairs before + sumPairs after := by
    rw [field [0, 0] rfl]
    simp [sumPairs]
  have filled := field (cksumBytes (before ++ [0, 0] ++ after)) rfl
  rw [sumPairs_cksumBytes] at filled
  constructor
  · omega
  · omega

end R2Apps.InternetChecksums
