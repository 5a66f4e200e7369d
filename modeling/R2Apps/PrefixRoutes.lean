import Mathlib.Tactic.Ring

/-! IPv4 prefixes written in three ways: the leading bits of an address, a mask of 32
bits, and a mask for each byte. -/
namespace R2Apps.PrefixRoutes

abbrev Ip4 := Vector UInt8 4

/-- `u32::from_be_bytes`. -/
def fromBeBytes (ip : Ip4) : BitVec 32 :=
  ip[0].toBitVec ++ (ip[1].toBitVec ++ (ip[2].toBitVec ++ ip[3].toBitVec))

def dotted (a b c d : UInt8) : Ip4 := #v[a, b, c, d]

def first (ip : Ip4) : UInt8 := ip[0]

/-- The first `length` bits of the address are those of the network. -/
def Contains (network : Ip4) (length : Nat) (ip : Ip4) : Prop :=
  fromBeBytes ip >>> (32 - length) = fromBeBytes network >>> (32 - length)

def mask (length : Nat) : BitVec 32 := if length = 0 then 0 else BitVec.allOnes 32 <<< (32 - length)

/-- The mask for byte `b` of an address. -/
def maskByte (length b : Nat) : UInt8 :=
  let bits := if length > b * 8 then length - b * 8 else 0
  if bits ≥ 8 then 255 else if bits ≠ 0 then (255 : UInt8) <<< UInt8.ofNat (8 - bits) else 0

def masked (length : Nat) (ip : Ip4) : Ip4 :=
  Vector.ofFn fun b => ip[b] &&& maskByte length b

theorem append_both {n k : Nat} {a b : BitVec n} {x y : BitVec k} (same : a ++ x = b ++ y) :
    a = b ∧ x = y := by
  constructor
  · rw [← BitVec.extractLsb'_append_eq_left (a := a) (b := x), same, BitVec.extractLsb'_append_eq_left]
  · rw [← BitVec.extractLsb'_append_eq_right (a := a) (b := x), same, BitVec.extractLsb'_append_eq_right]

theorem fromBeBytes_injective {a b : Ip4} (same : fromBeBytes a = fromBeBytes b) : a = b := by
  have ⟨first, rest⟩ := append_both same
  have ⟨second, rest⟩ := append_both rest
  have ⟨third, fourth⟩ := append_both rest
  ext i bound
  obtain _ | _ | _ | _ | i := i
  · exact congrArg BitVec.toNat first
  · exact congrArg BitVec.toNat second
  · exact congrArg BitVec.toNat third
  · exact congrArg BitVec.toNat fourth
  · omega

theorem mask_bytes : ∀ length ≤ 32, mask length =
    (maskByte length 0).toBitVec ++ ((maskByte length 1).toBitVec ++
      ((maskByte length 2).toBitVec ++ (maskByte length 3).toBitVec)) := by
  decide

theorem fromBeBytes_masked (ip : Ip4) {length : Nat} (short : length ≤ 32) :
    fromBeBytes (masked length ip) = fromBeBytes ip &&& mask length := by
  rw [mask_bytes length short]
  simp only [fromBeBytes, masked, Vector.getElem_ofFn, UInt8.toBitVec_and, ← BitVec.and_append]
  rfl

theorem masked_masked (length : Nat) (ip : Ip4) : masked length (masked length ip) = masked length ip := by
  ext i bound
  simp [masked, UInt8.and_assoc]

theorem and_mask (x : BitVec 32) {length : Nat} (short : length ≤ 32) :
    x &&& mask length = x >>> (32 - length) <<< (32 - length) := by
  by_cases zero : length = 0
  · subst zero
    simp [mask]
  · ext i bound
    simp only [mask, zero, if_false]
    by_cases low : i < 32 - length
    · simp [low]
    · have back : 32 - length + (i - (32 - length)) = i := by omega
      simp [low, back, BitVec.getLsbD_eq_getElem bound, -BitVec.reduceAllOnes]

theorem shift_cancel {x y : BitVec 32} {n : Nat} (same : x >>> n <<< n = y >>> n <<< n) :
    x >>> n = y >>> n := by
  ext i bound
  have bit := congrArg (·.getLsbD (n + i)) same
  by_cases inside : n + i < 32
  · simpa [inside] using bit
  · simp [BitVec.getLsbD_of_ge _ _ (Nat.not_lt.mp inside)]

theorem contains_iff (network ip : Ip4) {length : Nat} (short : length ≤ 32) :
    Contains network length ip ↔ masked length ip = masked length network := by
  constructor
  · intro same
    apply fromBeBytes_injective
    rw [fromBeBytes_masked ip short, fromBeBytes_masked network short, and_mask _ short,
      and_mask _ short, same]
  · intro same
    have words := congrArg fromBeBytes same
    rw [fromBeBytes_masked ip short, fromBeBytes_masked network short, and_mask _ short,
      and_mask _ short] at words
    exact shift_cancel words

end R2Apps.PrefixRoutes
