import R2Apps.BlockStreams

/-! `jug/sha256.cpp`: SHA-256 of a message that comes in pieces. `block` is the
first `used_` bytes of the partial block. -/
namespace R2Apps.Sha256
open BlockStreams

def roundConstants : Array UInt32 := #[
  0x428a2f98, 0x71374491, 0xb5c0fbcf, 0xe9b5dba5, 0x3956c25b, 0x59f111f1, 0x923f82a4, 0xab1c5ed5,
  0xd807aa98, 0x12835b01, 0x243185be, 0x550c7dc3, 0x72be5d74, 0x80deb1fe, 0x9bdc06a7, 0xc19bf174,
  0xe49b69c1, 0xefbe4786, 0x0fc19dc6, 0x240ca1cc, 0x2de92c6f, 0x4a7484aa, 0x5cb0a9dc, 0x76f988da,
  0x983e5152, 0xa831c66d, 0xb00327c8, 0xbf597fc7, 0xc6e00bf3, 0xd5a79147, 0x06ca6351, 0x14292967,
  0x27b70a85, 0x2e1b2138, 0x4d2c6dfc, 0x53380d13, 0x650a7354, 0x766a0abb, 0x81c2c92e, 0x92722c85,
  0xa2bfe8a1, 0xa81a664b, 0xc24b8b70, 0xc76c51a3, 0xd192e819, 0xd6990624, 0xf40e3585, 0x106aa070,
  0x19a4c116, 0x1e376c08, 0x2748774c, 0x34b0bcb5, 0x391c0cb3, 0x4ed8aa4a, 0x5b9cca4f, 0x682e6ff3,
  0x748f82ee, 0x78a5636f, 0x84c87814, 0x8cc70208, 0x90befffa, 0xa4506ceb, 0xbef9a3f7, 0xc67178f2]

def rotr (x n : UInt32) : UInt32 := (x >>> n) ||| (x <<< (32 - n))

/-- The eight words of `h_`. -/
structure Words where
  a : UInt32
  b : UInt32
  c : UInt32
  d : UInt32
  e : UInt32
  f : UInt32
  g : UInt32
  h : UInt32
  deriving DecidableEq

def initial : Words :=
  ⟨0x6a09e667, 0xbb67ae85, 0x3c6ef372, 0xa54ff53a, 0x510e527f, 0x9b05688c, 0x1f83d9ab, 0x5be0cd19⟩

def Words.toList (s : Words) : List UInt32 := [s.a, s.b, s.c, s.d, s.e, s.f, s.g, s.h]

/-- A digest: the 32 bytes of `Digest::b`. -/
structure Digest where
  bytes : List UInt8
  size : bytes.length = 32
  deriving DecidableEq

def wordAt (p : Array UInt8) (i : Nat) : UInt32 :=
  (p.getD (4 * i) 0).toUInt32 <<< 24 ||| (p.getD (4 * i + 1) 0).toUInt32 <<< 16 |||
    (p.getD (4 * i + 2) 0).toUInt32 <<< 8 ||| (p.getD (4 * i + 3) 0).toUInt32

def schedule (p : Array UInt8) : Array UInt32 :=
  (List.range' 16 48).foldl (fun w i =>
    let s0 := rotr (w.getD (i - 15) 0) 7 ^^^ rotr (w.getD (i - 15) 0) 18 ^^^ (w.getD (i - 15) 0 >>> 3)
    let s1 := rotr (w.getD (i - 2) 0) 17 ^^^ rotr (w.getD (i - 2) 0) 19 ^^^ (w.getD (i - 2) 0 >>> 10)
    w.push (w.getD (i - 16) 0 + s0 + w.getD (i - 7) 0 + s1))
    ((List.range 16).map (wordAt p)).toArray

def round (s : Words) (k w : UInt32) : Words :=
  let t1 := s.h + (rotr s.e 6 ^^^ rotr s.e 11 ^^^ rotr s.e 25) + ((s.e &&& s.f) ^^^ (~~~s.e &&& s.g)) +
    k + w
  let t2 := (rotr s.a 2 ^^^ rotr s.a 13 ^^^ rotr s.a 22) +
    ((s.a &&& s.b) ^^^ (s.a &&& s.c) ^^^ (s.b &&& s.c))
  ⟨t1 + t2, s.a, s.b, s.c, s.d + t1, s.e, s.f, s.g⟩

def compress (h : Words) (p : List UInt8) : Words :=
  let w := schedule p.toArray
  let s := (List.range 64).foldl (fun s i => round s (roundConstants.getD i 0) (w.getD i 0)) h
  ⟨h.a + s.a, h.b + s.b, h.c + s.c, h.d + s.d, h.e + s.e, h.f + s.f, h.g + s.g, h.h + s.h⟩

structure Sha where
  words : Words := initial
  block : List UInt8 := []
  total : UInt64 := 0

/-- Fills the partial block first; what follows it goes in whole blocks. -/
def update (s : Sha) (data : List UInt8) : Sha :=
  let total := s.total + UInt64.ofNat data.length
  if s.block.isEmpty then
    let fed := feed 64 compress s.words data
    ⟨fed.1, fed.2, total⟩
  else
    let take := min (64 - s.block.length) data.length
    let block := s.block ++ data.take take
    if block.length < 64 then ⟨s.words, block, total⟩
    else
      let fed := feed 64 compress (compress s.words block) (data.drop take)
      ⟨fed.1, fed.2, total⟩

def lengthBytes (bits : UInt64) : List UInt8 :=
  (List.range 8).map fun i => (bits >>> UInt64.ofNat (56 - 8 * i)).toUInt8

def digestOf (words : Words) : Digest where
  bytes := words.toList.flatMap fun (x : UInt32) =>
    [(x >>> 24).toUInt8, (x >>> 16).toUInt8, (x >>> 8).toUInt8, x.toUInt8]
  size := rfl

def finish (s : Sha) : Digest :=
  let block := s.block ++ [0x80]
  let (words, block) :=
    if block.length > 56 then
      (compress s.words (block ++ List.replicate (64 - block.length) 0), [])
    else (s.words, block)
  let block := block ++ List.replicate (56 - block.length) 0 ++ lengthBytes (s.total * 8)
  digestOf (compress words block)

/-- `Sha256::of`. -/
def sha (data : List UInt8) : Digest := finish (update {} data)

theorem update_eq (s : Sha) (open_ : s.block.length < 64) (data : List UInt8) :
    update s data =
      ⟨(feed 64 compress s.words (s.block ++ data)).1, (feed 64 compress s.words (s.block ++ data)).2,
        s.total + UInt64.ofNat data.length⟩ := by
  by_cases empty : s.block.isEmpty = true
  · have nothing := List.isEmpty_iff.mp empty
    simp only [update, nothing, List.isEmpty_nil, if_true, List.nil_append]
  · simp only [update, empty, Bool.false_eq_true, if_false]
    by_cases short : s.block.length + data.length < 64
    · have take : min (64 - s.block.length) data.length = data.length := by omega
      rw [take, List.take_length, if_pos (by rw [List.length_append]; exact short),
        feed_short _ (by rw [List.length_append]; exact short)]
    · have take : min (64 - s.block.length) data.length = 64 - s.block.length := by omega
      have full : (s.block ++ data.take (64 - s.block.length)).length = 64 := by
        rw [List.length_append, List.length_take]
        omega
      have first : (s.block ++ data).take 64 = s.block ++ data.take (64 - s.block.length) := by
        rw [List.take_append, List.take_of_length_le (Nat.le_of_lt open_)]
      have rest : (s.block ++ data).drop 64 = data.drop (64 - s.block.length) := by
        rw [List.drop_append, List.drop_of_length_le (Nat.le_of_lt open_), List.nil_append]
      rw [take, if_neg (by omega), feed_block (by decide) s.words (by rw [List.length_append]; omega),
        first, rest]

theorem update_open (s : Sha) (open_ : s.block.length < 64) (data : List UInt8) :
    (update s data).block.length < 64 := by
  rw [update_eq s open_]
  exact feed_rest_length (by decide) _ _

theorem update_append (s : Sha) (open_ : s.block.length < 64) (first second : List UInt8) :
    update (update s first) second = update s (first ++ second) := by
  rw [update_eq _ (update_open s open_ first), update_eq s open_, update_eq s open_]
  simp only [feed_append (by decide : 0 < 64), List.append_assoc, List.length_append,
    UInt64.ofNat_add, UInt64.add_assoc]

theorem update_nil (s : Sha) (open_ : s.block.length < 64) : update s [] = s := by
  rw [update_eq s open_, List.append_nil, feed_short _ open_]
  simp

theorem update_pieces (pieces : List (List UInt8)) (s : Sha) (open_ : s.block.length < 64) :
    pieces.foldl update s = update s pieces.flatten := by
  induction pieces generalizing s with
  | nil => exact (update_nil s open_).symm
  | cons piece rest ih =>
      rw [List.foldl_cons, ih _ (update_open s open_ piece), update_append s open_, List.flatten_cons]

theorem finish_pieces (pieces : List (List UInt8)) :
    finish (pieces.foldl update {}) = sha pieces.flatten := by
  rw [update_pieces pieces {} (by decide), sha]

example : (sha [97, 98, 99]).bytes.take 4 = [0xba, 0x78, 0x16, 0xbf] := by decide +kernel

end R2Apps.Sha256
