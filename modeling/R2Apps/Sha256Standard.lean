import Mathlib.Algebra.Ring.Nat
import Mathlib.Data.Nat.NthRoot.Defs
import R2Apps.BearSha256
import R2Apps.JugDigest

/-! SHA-256 as FIPS 180-4 states it: constants from the roots of primes, the schedule
as a recurrence, the message padded and folded block by block. Both of the programs'
own implementations give it, however the message is cut into pieces. -/
namespace R2Apps.Sha256Standard
open BlockStreams Sha256 BearSha256 TntAuth

section Standard

/-- The first 64 primes. -/
def primes : List Nat :=
  (List.range 312).filter fun n => 2 ≤ n && (List.range n).all fun d => d < 2 || n % d != 0

/-- The first 32 bits of the fractional part of a cube root. -/
def constant (t : Nat) : UInt32 := UInt32.ofNat (Nat.nthRoot 3 (primes.getD t 0 * 2 ^ 96))

/-- And of a square root. -/
def initialWord (i : Nat) : UInt32 := UInt32.ofNat (Nat.nthRoot 2 (primes.getD i 0 * 2 ^ 64))

def initialHash : Words :=
  ⟨initialWord 0, initialWord 1, initialWord 2, initialWord 3, initialWord 4, initialWord 5, initialWord 6,
    initialWord 7⟩

def rotateRight (n : Nat) (x : UInt32) : UInt32 := ⟨x.toBitVec.rotateRight n⟩
def shiftRight (n : Nat) (x : UInt32) : UInt32 := ⟨x.toBitVec >>> n⟩

def choose (x y z : UInt32) : UInt32 := (x &&& y) ^^^ (~~~x &&& z)
def majority (x y z : UInt32) : UInt32 := (x &&& y) ^^^ (x &&& z) ^^^ (y &&& z)
def bigSigma0 (x : UInt32) : UInt32 := rotateRight 2 x ^^^ rotateRight 13 x ^^^ rotateRight 22 x
def bigSigma1 (x : UInt32) : UInt32 := rotateRight 6 x ^^^ rotateRight 11 x ^^^ rotateRight 25 x
def sigma0 (x : UInt32) : UInt32 := rotateRight 7 x ^^^ rotateRight 18 x ^^^ shiftRight 3 x
def sigma1 (x : UInt32) : UInt32 := rotateRight 17 x ^^^ rotateRight 19 x ^^^ shiftRight 10 x

/-- The schedule of a block of sixteen words. -/
def scheduled (block : Nat → UInt32) (t : Nat) : UInt32 :=
  if t < 16 then block t
  else sigma1 (scheduled block (t - 2)) + scheduled block (t - 7) + sigma0 (scheduled block (t - 15)) +
    scheduled block (t - 16)

def hashRound (block : Nat → UInt32) (s : Words) (t : Nat) : Words :=
  let t1 := s.h + bigSigma1 s.e + choose s.e s.f s.g + constant t + scheduled block t
  let t2 := bigSigma0 s.a + majority s.a s.b s.c
  ⟨t1 + t2, s.a, s.b, s.c, s.d + t1, s.e, s.f, s.g⟩

def hashBlock (hash : Words) (block : Nat → UInt32) : Words :=
  let s := (List.range 64).foldl (hashRound block) hash
  ⟨s.a + hash.a, s.b + hash.b, s.c + hash.c, s.d + hash.d, s.e + hash.e, s.f + hash.f, s.g + hash.g,
    s.h + hash.h⟩

/-- The zero bytes between the closing bit and the length of a message of `bytes` bytes. -/
def zeros (bytes : Nat) : Nat := (119 - bytes % 64) % 64

def bigEndian64 (n : Nat) : List UInt8 := (List.range 8).map fun i => UInt8.ofNat (n / 256 ^ (7 - i))

/-- The length is that in bits, of which there are 64 places. -/
def pad (message : List UInt8) : List UInt8 :=
  message ++ [0x80] ++ List.replicate (zeros message.length) 0 ++ bigEndian64 (8 * message.length % 2 ^ 64)

/-- Word `t` of a block. -/
def blockWord (block : List UInt8) (t : Nat) : UInt32 :=
  UInt32.ofNat ((block.getD (4 * t) 0).toNat * 256 ^ 3 + (block.getD (4 * t + 1) 0).toNat * 256 ^ 2 +
    (block.getD (4 * t + 2) 0).toNat * 256 + (block.getD (4 * t + 3) 0).toNat)

def standard (message : List UInt8) : Digest :=
  let padded := pad message
  digestOf <| (List.range (padded.length / 64)).foldl
    (fun hash i => hashBlock hash (blockWord ((padded.drop (64 * i)).take 64))) initialHash

end Standard

section Compression

theorem constants_agree (t : Nat) (within : t < 64) : roundConstants.getD t 0 = constant t := by
  have all : ∀ t < 64, roundConstants.getD t 0 = constant t := by decide +kernel
  exact all t within

theorem initial_agrees : initial = initialHash := by decide

theorem rotr_eq (x : UInt32) (n : Nat) (some_ : 0 < n) (within : n < 32) :
    rotr x (UInt32.ofNat n) = rotateRight n x := by
  have small : (UInt32.ofNat n).toNat = n := by
    rw [UInt32.toNat_ofNat', Nat.mod_eq_of_lt (by omega)]
  apply UInt32.eq_of_toBitVec_eq
  simp [rotr, rotateRight, BitVec.rotateRight_def, Nat.mod_eq_of_lt within, small]
  congr 2
  omega

theorem shiftRight_eq (x : UInt32) (n : Nat) (within : n < 32) : x >>> UInt32.ofNat n = shiftRight n x := by
  apply UInt32.eq_of_toBitVec_eq
  simp [shiftRight, Nat.mod_eq_of_lt within]

theorem or_above (x i : Nat) {y : Nat} (below : y < 2 ^ i) : x * 2 ^ i ||| y = x * 2 ^ i + y := by
  rw [← Nat.shiftLeft_eq, Nat.shiftLeft_add_eq_or_of_lt below]

theorem byte_shifted (x : UInt8) (k : UInt32) (within : k.toNat ≤ 24) :
    (x.toUInt32 <<< k).toNat = x.toNat * 2 ^ k.toNat := by
  have below : x.toNat * 2 ^ k.toNat < 2 ^ 32 := by
    calc x.toNat * 2 ^ k.toNat < 2 ^ 8 * 2 ^ k.toNat :=
          Nat.mul_lt_mul_of_pos_right x.toNat_lt (Nat.two_pow_pos _)
      _ ≤ 2 ^ 8 * 2 ^ 24 := Nat.mul_le_mul_left _ (Nat.pow_le_pow_right (by decide) within)
      _ = 2 ^ 32 := by decide
  rw [UInt32.toNat_shiftLeft, UInt8.toNat_toUInt32, Nat.shiftLeft_eq,
    Nat.mod_eq_of_lt (by omega : k.toNat < 32),
    Nat.mod_eq_of_lt below]

theorem bytes_side_by_side (a b c d : UInt8) :
    a.toUInt32 <<< 24 ||| b.toUInt32 <<< 16 ||| c.toUInt32 <<< 8 ||| d.toUInt32 =
      UInt32.ofNat (a.toNat * 256 ^ 3 + b.toNat * 256 ^ 2 + c.toNat * 256 + d.toNat) := by
  have wa := a.toNat_lt
  have wb := b.toNat_lt
  have wc := c.toNat_lt
  have wd := d.toNat_lt
  have first : a.toNat * 2 ^ 24 ||| b.toNat * 2 ^ 16 = (a.toNat * 256 + b.toNat) * 2 ^ 16 := by
    rw [or_above _ _ (by omega)]
    omega
  have second : (a.toNat * 256 + b.toNat) * 2 ^ 16 ||| c.toNat * 2 ^ 8 =
      ((a.toNat * 256 + b.toNat) * 256 + c.toNat) * 2 ^ 8 := by
    rw [or_above _ _ (by omega)]
    omega
  have all : (a.toUInt32 <<< 24 ||| b.toUInt32 <<< 16 ||| c.toUInt32 <<< 8 ||| d.toUInt32).toNat =
      a.toNat * 256 ^ 3 + b.toNat * 256 ^ 2 + c.toNat * 256 + d.toNat := by
    simp only [UInt32.toNat_or, UInt8.toNat_toUInt32]
    rw [byte_shifted a 24 (by decide), byte_shifted b 16 (by decide), byte_shifted c 8 (by decide)]
    simp only [UInt32.reduceToNat]
    rw [first, second, or_above _ _ wd]
    omega
  apply UInt32.toNat_inj.mp
  rw [all, UInt32.toNat_ofNat', Nat.mod_eq_of_lt (by omega)]

theorem wordAt_eq (block : List UInt8) (t : Nat) : wordAt block.toArray t = blockWord block t := by
  have read (i : Nat) : block.toArray.getD i 0 = block.getD i 0 := by
    simp [Array.getD_eq_getD_getElem?]
  simp only [wordAt, blockWord, bytes_side_by_side, read]

/-- One turn of the loop that fills the schedule. -/
def extend (w : Array UInt32) (i : Nat) : Array UInt32 :=
  w.push (sigma1 (w.getD (i - 2) 0) + w.getD (i - 7) 0 + sigma0 (w.getD (i - 15) 0) + w.getD (i - 16) 0)

theorem schedule_extend (block : List UInt8) :
    schedule block.toArray =
      (List.range' 16 48).foldl extend ((List.range 16).map (wordAt block.toArray)).toArray := by
  have small0 (x : UInt32) : rotr x 7 ^^^ rotr x 18 ^^^ (x >>> 3) = sigma0 x := by
    simp only [sigma0, ← rotr_eq x 7 (by decide) (by decide), ← rotr_eq x 18 (by decide) (by decide),
      ← shiftRight_eq x 3 (by decide)]
    rfl
  have small1 (x : UInt32) : rotr x 17 ^^^ rotr x 19 ^^^ (x >>> 10) = sigma1 x := by
    simp only [sigma1, ← rotr_eq x 17 (by decide) (by decide), ← rotr_eq x 19 (by decide) (by decide),
      ← shiftRight_eq x 10 (by decide)]
    rfl
  unfold schedule
  congr 1
  funext w i
  simp only [extend, small0, small1]
  congr 1
  ac_rfl

theorem schedule_grows (block : List UInt8) (count : Nat) :
    let w := (List.range' 16 count).foldl extend ((List.range 16).map (wordAt block.toArray)).toArray
    w.size = 16 + count ∧ ∀ t < 16 + count, w.getD t 0 = scheduled (blockWord block) t := by
  induction count with
  | zero =>
      refine ⟨by simp, ?_⟩
      intro t early
      rw [scheduled, if_pos early]
      simp [early, wordAt_eq]
  | succ count ih =>
      obtain ⟨size, soFar⟩ := ih
      rw [List.range'_concat, List.foldl_append, List.foldl_cons, List.foldl_nil, Nat.one_mul]
      generalize (List.range' 16 count).foldl extend
        ((List.range 16).map (wordAt block.toArray)).toArray = w at *
      refine ⟨by rw [extend, Array.size_push, size, Nat.add_assoc], ?_⟩
      intro t within
      rw [extend, Array.getD_eq_getD_getElem?, Array.getElem?_push, size]
      by_cases last : t = 16 + count
      · -- the new word is the recurrence, of words that are there
        rw [if_pos last, last, scheduled, if_neg (by omega), soFar _ (by omega), soFar _ (by omega),
          soFar _ (by omega), soFar _ (by omega), Option.getD_some]
      · rw [if_neg last, ← Array.getD_eq_getD_getElem?]
        exact soFar t (by omega)

theorem schedule_eq (block : List UInt8) {t : Nat} (within : t < 64) :
    (schedule block.toArray).getD t 0 = scheduled (blockWord block) t := by
  rw [schedule_extend]
  exact (schedule_grows block 48).2 t within

theorem round_eq (block : List UInt8) (s : Words) {t : Nat} (within : t < 64) :
    Sha256.round s (roundConstants.getD t 0) ((schedule block.toArray).getD t 0) =
      hashRound (blockWord block) s t := by
  have large0 (x : UInt32) : rotr x 2 ^^^ rotr x 13 ^^^ rotr x 22 = bigSigma0 x := by
    simp only [bigSigma0, ← rotr_eq x 2 (by decide) (by decide), ← rotr_eq x 13 (by decide) (by decide),
      ← rotr_eq x 22 (by decide) (by decide)]
    rfl
  have large1 (x : UInt32) : rotr x 6 ^^^ rotr x 11 ^^^ rotr x 25 = bigSigma1 x := by
    simp only [bigSigma1, ← rotr_eq x 6 (by decide) (by decide), ← rotr_eq x 11 (by decide) (by decide),
      ← rotr_eq x 25 (by decide) (by decide)]
    rfl
  simp only [Sha256.round, hashRound, large0, large1, schedule_eq block within,
    constants_agree t within, choose, majority]

theorem compress_eq (hash : Words) (block : List UInt8) :
    compress hash block = hashBlock hash (blockWord block) := by
  have rounds : (List.range 64).foldl (fun s i =>
      Sha256.round s (roundConstants.getD i 0) ((schedule block.toArray).getD i 0)) hash =
      (List.range 64).foldl (hashRound (blockWord block)) hash :=
    List.foldl_ext _ _ _ fun s i member => round_eq block s (List.mem_range.mp member)
  simp only [compress, hashBlock, rounds, UInt32.add_comm]

end Compression

section Padding

theorem compressBlocks_fold (count : Nat) (hash : Words) (items : List UInt8) :
    (compressBlocks 64 compress count hash items).1 =
      (List.range count).foldl
        (fun hash i => hashBlock hash (blockWord ((items.drop (64 * i)).take 64))) hash := by
  induction count generalizing hash items with
  | zero => rfl
  | succ count ih =>
      rw [compressBlocks, ih, List.range_succ_eq_map, List.foldl_cons, List.foldl_map, compress_eq,
        Nat.mul_zero,
        List.drop_zero]
      simp only [List.drop_drop, Nat.succ_eq_add_one, Nat.mul_succ, Nat.add_comm]

theorem lengthBytes_eq (n : Nat) : lengthBytes (UInt64.ofNat n * 8) = bigEndian64 (8 * n % 2 ^ 64) := by
  have bits : (UInt64.ofNat n * 8).toNat = 8 * n % 2 ^ 64 := by
    rw [UInt64.toNat_mul, UInt64.toNat_ofNat', Nat.mod_mul_mod, Nat.mul_comm]
    rfl
  apply List.map_congr_left
  intro i member
  have within := List.mem_range.mp member
  have shift : (UInt64.ofNat (56 - 8 * i)).toNat = 56 - 8 * i := by
    rw [UInt64.toNat_ofNat', Nat.mod_eq_of_lt (by omega)]
  have power : 2 ^ (56 - 8 * i) = 256 ^ (7 - i) := by
    have eights : 56 - 8 * i = 8 * (7 - i) := by omega
    rw [eights]
    exact Nat.pow_mul 2 8 (7 - i)
  apply UInt8.toNat_inj.mp
  rw [UInt64.toNat_toUInt8, UInt64.toNat_shiftRight, shift, bits,
    Nat.mod_eq_of_lt (by omega : 56 - 8 * i < 64),
    Nat.shiftRight_eq_div_pow, power, UInt8.toNat_ofNat']

theorem ending_eq (message : List UInt8) : message ++ ending (update {} message) = pad message := by
  have waits : (update {} message).block.length = message.length % 64 := by
    rw [update_eq {} (by decide), feed_rest_mod]
    rfl
  have counted : (update {} message).total = UInt64.ofNat message.length := by
    rw [update_eq {} (by decide)]
    exact UInt64.zero_add _
  have gaps : gap ((message.length % 64 + 1) % 64) = zeros message.length := by
    unfold gap zeros
    split <;> omega
  rw [ending, waits, counted, gaps, lengthBytes_eq, pad]
  simp only [List.append_assoc]

theorem sha_standard (message : List UInt8) : sha message = standard message := by
  have whole : (update {} message).words = (feed 64 compress initial message).1 ∧
      (update {} message).block = (feed 64 compress initial message).2 := by
    rw [update_eq {} (by decide)]
    exact ⟨rfl, rfl⟩
  rw [sha, finish_feed _ (update_open {} (by decide) message), whole.1, whole.2, feed_append (by decide),
    ending_eq, feed, compressBlocks_fold, initial_agrees, standard]

end Padding

/-- Between calls the partial block of either implementation has room, and in the end both
give the digest of the standard. A digest's text is read back as the digest. -/
theorem digests_agree (pieces : List (List UInt8)) :
    finish (pieces.foldl update {}) = standard pieces.flatten ∧
    sha256Final (pieces.foldl sha256Update {}) = standard pieces.flatten ∧
    (pieces.foldl update {}).block.length < 64 ∧
    (pieces.foldl sha256Update {}).block.length < 64 ∧
    ∀ sum : Digest, JugDigest.Digest.parse (JugLists.hex sum) = some sum := by
  obtain ⟨same, room⟩ := sha256Update_pieces pieces {} (by decide)
  refine ⟨?_, ?_, room, ?_, JugDigest.parse_hex⟩
  · rw [finish_pieces, sha_standard]
  · rw [tntSha256_eq, sha_standard]
  · rw [same]
    exact room

end R2Apps.Sha256Standard
