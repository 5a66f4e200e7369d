import Mathlib.Tactic.IntervalCases
import R2Apps.InternetChecksums

/-! The internet checksum three times: `inet_cksum` of `libcr2/bytes.h`, `r2::net::checksum` of
`libc++r2/src/net.cpp`
and `checksum` of `go/r2net/ipv4.go`; and `transportChecksum` of the last. The accumulator has 32
bits. An index is a
number here: a length fits the source's own type, and the index stays below it. -/
namespace R2Apps.ChecksumCopies
open EthernetReceive InternetChecksums

/-- The loop over the pairs of bytes, from `i` on. -/
def addPairs (data : List UInt8) (i : Nat) (sum : UInt32) : UInt32 :=
  if i + 1 < data.length then
    addPairs data (i + 2) (sum + ((data.getD i 0).toUInt32 <<< 8 ||| (data.getD (i + 1) 0).toUInt32))
  else sum
termination_by data.length - i

/-- The body of `while (sum >> 16)`. -/
def carry (sum : UInt32) : UInt32 := (sum &&& (0xffff : UInt32)) + (sum >>> 16)

theorem carry_split (sum : UInt32) :
    (sum &&& (0xffff : UInt32)).toNat = sum.toNat % 65536 ∧ (sum >>> 16).toNat = sum.toNat / 65536 := by
  constructor
  · rw [UInt32.toNat_and]
    exact Nat.and_two_pow_sub_one_eq_mod _ 16
  · rw [UInt32.toNat_shiftRight]
    exact Nat.shiftRight_eq_div_pow _ 16

theorem carry_added (sum : UInt32) :
    (carry sum).toNat = sum.toNat % 65536 + sum.toNat / 65536 := by
  obtain ⟨low, high⟩ := carry_split sum
  have small := sum.toNat_lt
  rw [carry, UInt32.toNat_add, low, high]
  omega

theorem carried_iff (sum : UInt32) : sum >>> 16 = 0 ↔ sum.toNat / 65536 = 0 := by
  rw [← (carry_split sum).2, ← UInt32.toNat_inj, UInt32.toNat_zero]

/-- `while (sum >> 16)`: a turn makes the sum smaller. -/
def foldSum (sum : UInt32) : UInt32 :=
  if sum >>> 16 = 0 then sum else foldSum (carry sum)
termination_by sum.toNat
decreasing_by
  have carried : sum.toNat / 65536 ≠ 0 := mt (carried_iff sum).mpr ‹_›
  rw [carry_added]
  omega

def C.inetCksum (data : List UInt8) : UInt16 :=
  let sum := addPairs data 0 0
  let sum := if data.length &&& 1 ≠ 0 then sum + (data.getD (data.length - 1) 0).toUInt32 <<< 8 else sum
  (~~~foldSum sum).toUInt16

def Cpp.checksum (data : List UInt8) : UInt16 :=
  let sum := addPairs data 0 0
  let sum := if data.length &&& 1 ≠ 0 then sum + (data.getD (data.length - 1) 0).toUInt32 <<< 8 else sum
  (~~~foldSum sum).toUInt16

def Go.checksum (b : List UInt8) : UInt16 :=
  let sum := addPairs b 0 0
  let sum := if b.length % 2 = 1 then sum + (b.getD (b.length - 1) 0).toUInt32 <<< 8 else sum
  ~~~(foldSum sum).toUInt16

/-- The numerals that index an address. -/
local instance octets : NeZero 4 := ⟨by decide⟩

def Go.transportChecksum (src dst : Fin 4 → UInt8) (proto : UInt8) (segment : List UInt8) : UInt16 :=
  let sum : UInt32 := 0
  let sum := sum + ((src 0).toUInt32 <<< 8 ||| (src 1).toUInt32)
  let sum := sum + ((src 2).toUInt32 <<< 8 ||| (src 3).toUInt32)
  let sum := sum + ((dst 0).toUInt32 <<< 8 ||| (dst 1).toUInt32)
  let sum := sum + ((dst 2).toUInt32 <<< 8 ||| (dst 3).toUInt32)
  let sum := sum + proto.toUInt32
  let sum := sum + UInt32.ofNat segment.length
  let sum := addPairs segment 0 sum
  let sum := if segment.length % 2 = 1 then sum + (segment.getD (segment.length - 1) 0).toUInt32 <<< 8
    else sum
  ~~~(foldSum sum).toUInt16

/-! ## What the loops leave -/

/-- What is added to `sum` for all of the data, an odd byte at the end included. -/
def summed (data : List UInt8) (sum : UInt32) : UInt32 :=
  if data.length % 2 = 1 then addPairs data 0 sum + (data.getD (data.length - 1) 0).toUInt32 <<< 8
  else addPairs data 0 sum

theorem high_eq (a : UInt8) : a.toUInt32 <<< 8 = UInt32.ofNat (a.toNat * 256) := by
  have small := a.toNat_lt
  rw [← UInt32.toNat_inj, UInt32.toNat_shiftLeft, UInt32.toNat_ofNat', UInt8.toNat_toUInt32, Nat.shiftLeft_eq]
  rfl

theorem word_eq (a b : UInt8) : a.toUInt32 <<< 8 ||| b.toUInt32 = UInt32.ofNat (a.toNat * 256 + b.toNat) := by
  have low : b.toNat < 2 ^ 8 := b.toNat_lt
  have high := a.toNat_lt
  rw [← UInt32.toNat_inj, UInt32.toNat_or, high_eq, UInt32.toNat_ofNat', UInt32.toNat_ofNat',
    UInt8.toNat_toUInt32,
    Nat.mod_eq_of_lt (by omega), Nat.mod_eq_of_lt (by omega), Nat.mul_comm]
  exact (Nat.two_pow_add_eq_or_of_lt low _).symm

theorem addPairs_rest (data : List UInt8) (i : Nat) (sum : UInt32) (even : i % 2 = 0)
    (inside : i ≤ data.length) :
    (if data.length % 2 = 1 then addPairs data i sum + (data.getD (data.length - 1) 0).toUInt32 <<< 8
      else addPairs data i sum) = sum + UInt32.ofNat (sumPairs (data.drop i)) := by
  induction i, sum using addPairs.induct data with
  | case1 i sum more ih =>
      have here : i < data.length := Nat.lt_of_succ_lt more
      rw [addPairs, if_pos more, ih (by omega) (by omega), List.drop_eq_getElem_cons here,
        List.drop_eq_getElem_cons more, sumPairs, List.getD_eq_getElem _ _ here,
          List.getD_eq_getElem _ _ more,
        word_eq, UInt32.add_assoc, ← UInt32.ofNat_add]
  | case2 i sum done =>
      rw [addPairs, if_neg done]
      by_cases odd : data.length % 2 = 1
      · have last : i + 1 = data.length := by omega
        have here : i < data.length := Nat.lt_of_succ_le (Nat.le_of_eq last)
        have place : data.length - 1 = i := by omega
        rw [if_pos odd, List.drop_eq_getElem_cons here,
          List.drop_eq_nil_of_le (Nat.le_of_eq last.symm), sumPairs,
          place, List.getD_eq_getElem _ _ here, high_eq]
      · rw [if_neg odd, List.drop_eq_nil_of_le (by omega), sumPairs]
        exact (UInt32.add_zero sum).symm

theorem summed_eq (data : List UInt8) (sum : UInt32) : summed data sum = sum + UInt32.ofNat (sumPairs data) :=
  addPairs_rest data 0 sum rfl (Nat.zero_le _)

theorem foldSum_eq (sum : UInt32) : (foldSum sum).toNat = foldCarry 3 sum.toNat := by
  have small := sum.toNat_lt
  have turn (rounds : Nat) (s : UInt32) : (foldSum (carry s)).toNat =
      foldCarry rounds (s.toNat % 65536 + s.toNat / 65536) →
      (foldSum s).toNat = foldCarry (rounds + 1) s.toNat := by
    intro rest
    rw [foldSum, foldCarry]
    by_cases carried : s.toNat / 65536 = 0
    · rw [if_pos ((carried_iff s).mpr carried), if_pos carried]
    · rw [if_neg (mt (carried_iff s).mp carried), if_neg carried, rest]
  -- two turns bring every sum below 65536
  apply turn 2
  rw [← carry_added]
  apply turn 1
  rw [← carry_added]
  apply turn 0
  rw [← carry_added, foldCarry]
  have done := carry_added (carry sum)
  have first := carry_added sum
  rw [foldSum, if_pos ((carried_iff _).mpr _)]
  rw [carry_added, done, first]
  omega

/-! ## The copies -/

theorem checksum_eq (data : List UInt8) :
    Go.checksum data = UInt16.ofNat (EthernetReceive.inetCksum data) := by
  have total : (summed data 0).toNat = sumPairs data % 2 ^ 32 := by
    rw [summed_eq, UInt32.zero_add, UInt32.toNat_ofNat']
  change ~~~(foldSum (summed data 0)).toUInt16 = _
  rw [← UInt16.toNat_inj, UInt16.toNat_not, UInt32.toNat_toUInt16, foldSum_eq, total, UInt16.toNat_ofNat',
    EthernetReceive.inetCksum]
  have size : UInt16.size = 65536 := rfl
  rw [size]
  omega

theorem inetCksum_agrees (data : List UInt8) : C.inetCksum data = Go.checksum data := by
  have odd : (data.length &&& 1 ≠ 0) = (data.length % 2 = 1) := by
    rw [Nat.and_one_is_mod]
    exact propext (by omega)
  change (~~~foldSum (if data.length &&& 1 ≠ 0 then _ else _)).toUInt16 =
    ~~~(foldSum (summed data 0)).toUInt16
  rw [if_congr (iff_of_eq odd) rfl rfl, UInt32.toUInt16_not]
  rfl

/-- A checksum's two bytes in the source's order. -/
def bigEndian (sum : UInt16) : List UInt8 := [(sum >>> 8).toUInt8, sum.toUInt8]

theorem bigEndian_eq (data : List UInt8) : bigEndian (Go.checksum data) = cksumBytes data := by
  have small := InternetChecksums.inetCksum_lt data
  have same : (Go.checksum data).toNat = EthernetReceive.inetCksum data := by
    rw [checksum_eq, UInt16.toNat_ofNat', Nat.mod_eq_of_lt small]
  rw [bigEndian, cksumBytes]
  congr 1
  · rw [← UInt8.toNat_inj, UInt16.toNat_toUInt8, UInt16.toNat_shiftRight, UInt8.toNat_ofNat', same]
    exact congrArg (· % 256) (Nat.shiftRight_eq_div_pow _ 8)
  · congr 1
    rw [← UInt8.toNat_inj, UInt16.toNat_toUInt8, UInt8.toNat_ofNat', same, Nat.mod_mod]

/-- Written into a zeroed field at an even offset, what the function returns makes it return 0. -/
def Completes (checksum : List UInt8 → UInt16) : Prop :=
  ∀ before after : List UInt8, before.length % 2 = 0 → (before ++ [0, 0] ++ after).length ≤ 65535 →
    checksum (before ++ bigEndian (checksum (before ++ [0, 0] ++ after)) ++ after) = 0

theorem checksum_completes : Completes Go.checksum := by
  intro before after even short
  have verifies := cksumBytes_verifies before after even (Nat.le_succ_of_le short)
  have length : (before ++ cksumBytes (before ++ [0, 0] ++ after) ++ after).length ≤ 65536 := by
    simp only [cksumBytes, List.length_append, List.length_cons, List.length_nil] at short ⊢
    omega
  rw [bigEndian_eq, checksum_eq, (InternetChecksums.inetCksum_zero _ length).mpr verifies]
  rfl

/-! ## The accumulator -/

theorem sumPairs_word (a b : UInt8) (rest : List UInt8) :
    UInt32.ofNat (sumPairs (a :: b :: rest)) =
      (a.toUInt32 <<< 8 ||| b.toUInt32) + UInt32.ofNat (sumPairs rest) := by
  rw [sumPairs, word_eq, UInt32.ofNat_add]

theorem addPairs_reaches (data : List UInt8) (k : Nat) (inside : 2 * k ≤ data.length) :
    addPairs data 0 0 = addPairs data (2 * k) (UInt32.ofNat (sumPairs (data.take (2 * k)))) := by
  induction k with
  | zero => rfl
  | succ k ih =>
      have more : 2 * k + 1 < data.length := by omega
      have here : 2 * k < data.length := Nat.lt_of_succ_lt more
      have two : data.take (2 * (k + 1)) = data.take (2 * k) ++ [data[2 * k], data[2 * k + 1]] := by
        rw [Nat.mul_succ, List.take_succ_eq_append_getElem more, List.take_succ_eq_append_getElem here,
          List.append_assoc]
        rfl
      have even : (data.take (2 * k)).length % 2 = 0 := by
        rw [List.length_take_of_le (Nat.le_of_lt here), Nat.mul_mod_right]
      have zero : UInt32.ofNat (sumPairs []) = 0 := rfl
      rw [ih (by omega), addPairs, if_pos more, List.getD_eq_getElem _ _ here,
        List.getD_eq_getElem _ _ more, two,
        sumPairs_append _ _ even, UInt32.ofNat_add, sumPairs_word, zero, UInt32.add_zero, Nat.mul_succ]

theorem accumulator_exact (data : List UInt8) (short : data.length ≤ 65535) :
    (∀ k, 2 * k ≤ data.length → ∃ sum : UInt32, addPairs data 0 0 = addPairs data (2 * k) sum ∧
      sum.toNat = sumPairs (data.take (2 * k))) ∧
    (summed data 0).toNat = sumPairs data := by
  have exact_ (part : List UInt8) (within : part.length ≤ 65535) :
      (UInt32.ofNat (sumPairs part)).toNat = sumPairs part := by
    rw [UInt32.toNat_ofNat', Nat.mod_eq_of_lt (sumPairs_small part (Nat.le_succ_of_le within))]
  constructor
  · intro k inside
    refine ⟨_, addPairs_reaches data k inside, exact_ _ ?_⟩
    exact Nat.le_trans (List.length_take_le _ _) (Nat.le_trans inside short)
  · rw [summed_eq, UInt32.zero_add, exact_ data short]

theorem foldSum_turns (sum : UInt32) :
    ∃ n ≤ 2, foldSum sum = carry^[n] sum ∧ (foldSum sum).toNat < 65536 := by
  have small := sum.toNat_lt
  have once := carry_added sum
  have twice := carry_added (carry sum)
  by_cases zero : sum >>> 16 = 0
  · have low := (carried_iff sum).mp zero
    refine ⟨0, by decide, ?_, ?_⟩
    · rw [foldSum, if_pos zero]
      rfl
    · rw [foldSum, if_pos zero]
      omega
  by_cases one : carry sum >>> 16 = 0
  · have low := (carried_iff _).mp one
    refine ⟨1, by decide, ?_, ?_⟩
    · rw [foldSum, if_neg zero, foldSum, if_pos one]
      rfl
    · rw [foldSum, if_neg zero, foldSum, if_pos one]
      omega
  · have two : carry (carry sum) >>> 16 = 0 := (carried_iff _).mpr (by omega)
    refine ⟨2, le_rfl, ?_, ?_⟩
    · rw [foldSum, if_neg zero, foldSum, if_neg one, foldSum, if_pos two]
      rfl
    · rw [foldSum, if_neg zero, foldSum, if_neg one, foldSum, if_pos two]
      omega

/-! ## The transport checksum -/

/-- What TCP and UDP put before a segment for its checksum. -/
def pseudoHeader (src dst : Fin 4 → UInt8) (proto : UInt8) (length : Nat) : List UInt8 :=
  List.ofFn src ++ List.ofFn dst ++ [0, proto] ++ [UInt8.ofNat (length / 256), UInt8.ofNat (length % 256)]

theorem transport_agrees (src dst : Fin 4 → UInt8) (proto : UInt8) (segment : List UInt8)
    (short : segment.length ≤ 65535) :
    Go.transportChecksum src dst proto segment =
      Go.checksum (pseudoHeader src dst proto segment.length ++ segment) := by
  have four (v : Fin 4 → UInt8) : List.ofFn v = [v 0, v 1, v 2, v 3] := rfl
  have length : (pseudoHeader src dst proto segment.length).length = 12 := by simp [pseudoHeader]
  have protocol : (0 : UInt8).toUInt32 <<< 8 ||| proto.toUInt32 = proto.toUInt32 := by
    rw [high_eq]
    exact UInt32.zero_or
  have size : (UInt8.ofNat (segment.length / 256)).toUInt32 <<< 8 ||| (UInt8.ofNat
    (segment.length % 256)).toUInt32 =
      UInt32.ofNat segment.length := by
    rw [word_eq, UInt8.toNat_ofNat', UInt8.toNat_ofNat']
    congr 1
    omega
  have header : UInt32.ofNat (sumPairs (pseudoHeader src dst proto segment.length)) =
      ((src 0).toUInt32 <<< 8 ||| (src 1).toUInt32) + ((src 2).toUInt32 <<< 8 ||| (src 3).toUInt32) +
        ((dst 0).toUInt32 <<< 8 ||| (dst 1).toUInt32) +
          ((dst 2).toUInt32 <<< 8 ||| (dst 3).toUInt32) + proto.toUInt32 +
        UInt32.ofNat segment.length := by
    have zero : UInt32.ofNat (sumPairs []) = 0 := rfl
    simp only [pseudoHeader, four, List.cons_append, List.nil_append, sumPairs_word, protocol, size, zero,
      UInt32.add_zero, UInt32.add_assoc]
  change ~~~(foldSum (summed segment _)).toUInt16 = ~~~(foldSum (summed _ 0)).toUInt16
  rw [summed_eq, summed_eq, sumPairs_append _ _ (by rw [length]), UInt32.ofNat_add, header]
  simp only [UInt32.zero_add, UInt32.add_assoc]

/-- The three functions are one, each completes a zeroed field, and the transport checksum is the
plain one with the
pseudo-header before the segment; the accumulator stays inside 32 bits and the folding ends. -/
theorem checksums_agree :
    (∀ data, C.inetCksum data = Go.checksum data ∧ Cpp.checksum data = Go.checksum data) ∧
    (Completes C.inetCksum ∧ Completes Cpp.checksum ∧ Completes Go.checksum) ∧
    (∀ data : List UInt8, data.length ≤ 65535 →
      (∀ k, 2 * k ≤ data.length → ∃ sum : UInt32, addPairs data 0 0 = addPairs data (2 * k) sum ∧
        sum.toNat = sumPairs (data.take (2 * k))) ∧
      (summed data 0).toNat = sumPairs data) ∧
    (∀ sum, ∃ n ≤ 2, foldSum sum = carry^[n] sum ∧ (foldSum sum).toNat < 65536) ∧
    ∀ src dst proto segment, segment.length ≤ 65535 →
      Go.transportChecksum src dst proto segment =
        Go.checksum (pseudoHeader src dst proto segment.length ++ segment) := by
  have c : C.inetCksum = Go.checksum := funext inetCksum_agrees
  have cpp : Cpp.checksum = Go.checksum := c
  refine ⟨fun data => ⟨inetCksum_agrees data, inetCksum_agrees data⟩, ?_, accumulator_exact, foldSum_turns,
    transport_agrees⟩
  rw [c, cpp]
  exact ⟨checksum_completes, checksum_completes, checksum_completes⟩

end R2Apps.ChecksumCopies
