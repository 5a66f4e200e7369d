import R2Apps.TntAuth

/-! `third_party/bearssl/src/hash/sha2small.c`, as `web_sha256` calls it. It and the
SHA-256 of `tnt/auth.c` give what the one of `Sha256` gives; the three differ in how they
pick bits, in what order they add, and in how the message gets into blocks. -/
namespace R2Apps.BearSha256
open BlockStreams Sha256

def ch (x y z : UInt32) : UInt32 := ((y ^^^ z) &&& x) ^^^ z
def maj (x y z : UInt32) : UInt32 := (y &&& z) ||| ((y ||| z) &&& x)
def ror (x n : UInt32) : UInt32 := (x <<< (32 - n)) ||| (x >>> n)
def bsg2_0 (x : UInt32) : UInt32 := ror x 2 ^^^ ror x 13 ^^^ ror x 22
def bsg2_1 (x : UInt32) : UInt32 := ror x 6 ^^^ ror x 11 ^^^ ror x 25
def ssg2_0 (x : UInt32) : UInt32 := ror x 7 ^^^ ror x 18 ^^^ (x >>> 3)
def ssg2_1 (x : UInt32) : UInt32 := ror x 17 ^^^ ror x 19 ^^^ (x >>> 10)

def expand (buf : Array UInt8) : Array UInt32 :=
  (List.range' 16 48).foldl (fun w i => w.push
    (ssg2_1 (w.getD (i - 2) 0) + w.getD (i - 7) 0 + ssg2_0 (w.getD (i - 15) 0) + w.getD (i - 16) 0))
    ((List.range 16).map (wordAt buf)).toArray

/-- `SHA2_STEP`: `d` and `h` change, and the names turn by one before the next step. -/
def sha2Step (s : Words) (k w : UInt32) : Words :=
  let t1 := s.h + bsg2_1 s.e + ch s.e s.f s.g + k + w
  let t2 := bsg2_0 s.a + maj s.a s.b s.c
  ⟨t1 + t2, s.a, s.b, s.c, s.d + t1, s.e, s.f, s.g⟩

def sha2smallRound (val : Words) (buf : List UInt8) : Words :=
  let w := expand buf.toArray
  let s := (List.range 64).foldl (fun s i => sha2Step s (roundConstants.getD i 0) (w.getD i 0)) val
  ⟨val.a + s.a, val.b + s.b, val.c + s.c, val.d + s.d, val.e + s.e, val.f + s.f, val.g + s.g, val.h + s.h⟩

/-- `buf` is the bytes of the block that are there, `count & 63` of them. -/
structure Context where
  val : Words := initial
  buf : List UInt8 := []
  count : UInt64 := 0

/-- The loop over the message; a turn takes at least a byte. -/
def fill : Nat → Words → List UInt8 → List UInt8 → Words × List UInt8
  | 0, val, buf, _ => (val, buf)
  | fuel + 1, val, buf, data =>
      if data = [] then (val, buf)
      else
        let clen := min (64 - buf.length) data.length
        let buf := buf ++ data.take clen
        if buf.length = 64 then fill fuel (sha2smallRound val buf) [] (data.drop clen)
        else fill fuel val buf (data.drop clen)

def sha2smallUpdate (cc : Context) (data : List UInt8) : Context :=
  let filled := fill data.length cc.val cc.buf data
  ⟨filled.1, filled.2, cc.count + UInt64.ofNat data.length⟩

def sha2smallOut (cc : Context) : Digest :=
  let buf := cc.buf ++ [0x80]
  let padded :=
    if 56 < buf.length then (sha2smallRound cc.val (buf ++ List.replicate (64 - buf.length) 0),
      List.replicate 56 0)
    else (cc.val, buf ++ List.replicate (56 - buf.length) 0)
  digestOf (sha2smallRound padded.1 (padded.2 ++ lengthBytes (cc.count <<< 3)))

def webSha256 (data : List UInt8) : List UInt8 := (sha2smallOut (sha2smallUpdate {} data)).bytes

section Compression

theorem ch_eq (x y z : UInt32) : ch x y z = (x &&& y) ^^^ (~~~x &&& z) := by
  apply UInt32.eq_of_toBitVec_eq
  ext i bound
  simp only [ch, UInt32.toBitVec_xor, UInt32.toBitVec_and, UInt32.toBitVec_not, BitVec.getElem_xor,
    BitVec.getElem_and, BitVec.getElem_not]
  cases x.toBitVec[i] <;> cases y.toBitVec[i] <;> cases z.toBitVec[i] <;> rfl

theorem maj_eq (x y z : UInt32) : maj x y z = (x &&& y) ^^^ (x &&& z) ^^^ (y &&& z) := by
  apply UInt32.eq_of_toBitVec_eq
  ext i bound
  simp only [maj, UInt32.toBitVec_xor, UInt32.toBitVec_and, UInt32.toBitVec_or, BitVec.getElem_xor,
    BitVec.getElem_and, BitVec.getElem_or]
  cases x.toBitVec[i] <;> cases y.toBitVec[i] <;> cases z.toBitVec[i] <;> rfl

theorem ror_eq (x n : UInt32) : ror x n = rotr x n := UInt32.or_comm _ _

theorem expand_eq (buf : Array UInt8) : expand buf = schedule buf := by
  unfold expand schedule
  congr 1
  funext w i
  simp only [ssg2_0, ssg2_1, ror_eq]
  congr 1
  ac_rfl

theorem sha2Step_eq (s : Words) (k w : UInt32) : sha2Step s k w = round s k w := by
  simp only [sha2Step, Sha256.round, bsg2_0, bsg2_1, ror_eq, ch_eq, maj_eq]

theorem sha2smallRound_eq (val : Words) (buf : List UInt8) : sha2smallRound val buf = compress val buf := by
  simp only [sha2smallRound, compress, expand_eq, sha2Step_eq]

end Compression

section Web

theorem fill_eq (fuel : Nat) : ∀ (val : Words) (buf data : List UInt8), data.length ≤ fuel → buf.length < 64 →
    fill fuel val buf data = feed 64 compress val (buf ++ data) := by
  induction fuel with
  | zero =>
      intro val buf data long open_
      rw [List.length_eq_zero_iff.mp (Nat.le_zero.mp long), List.append_nil, feed_short _ open_]
      rfl
  | succ fuel ih =>
      intro val buf data long open_
      unfold fill
      by_cases empty : data = []
      · rw [if_pos empty, empty, List.append_nil, feed_short _ open_]
      · have some_ : 0 < data.length := List.length_pos_iff.mpr empty
        rw [if_neg empty]
        dsimp only
        have joined : buf ++ data = (buf ++ data.take (min (64 - buf.length) data.length)) ++
            data.drop (min (64 - buf.length) data.length) := by
          rw [List.append_assoc, List.take_append_drop]
        have rest : (data.drop (min (64 - buf.length) data.length)).length ≤ fuel := by
          rw [List.length_drop]
          omega
        split
        · next full =>
          -- the block is full, and goes in before the rest
          rw [ih _ _ _ rest (by decide), sha2smallRound_eq, List.nil_append, joined,
            feed_first (by decide) val _ full]
        · next short =>
          have within : (buf ++ data.take (min (64 - buf.length) data.length)).length < 64 := by
            rw [List.length_append, List.length_take] at short ⊢
            omega
          rw [ih _ _ _ rest within, ← joined]

theorem shift_three (count : UInt64) : count <<< 3 = count * 8 := by
  apply UInt64.toNat_inj.mp
  rw [UInt64.toNat_shiftLeft, UInt64.toNat_mul, Nat.shiftLeft_eq]
  rfl

theorem sha2smallOut_eq (cc : Context) : sha2smallOut cc = finish ⟨cc.val, cc.buf, cc.count⟩ := by
  unfold sha2smallOut finish
  dsimp only
  rw [shift_three]
  split
  · simp only [sha2smallRound_eq, List.nil_append, List.length_nil]
  · simp only [sha2smallRound_eq]

theorem webSha256_eq (data : List UInt8) : webSha256 data = (sha data).bytes := by
  have updated : sha2smallUpdate {} data =
      ⟨(update {} data).words, (update {} data).block, (update {} data).total⟩ := by
    rw [update_eq {} (by decide), sha2smallUpdate, fill_eq _ _ _ _ (Nat.le_refl _) (by decide)]
  rw [webSha256, updated, sha2smallOut_eq, sha]

end Web

section Tnt
open TntAuth

theorem updateByte_eq (c : Sha) (open_ : c.block.length < 64) (b : UInt8) :
    updateByte c b = ⟨(feed 64 compress c.words (c.block ++ [b])).1,
      (feed 64 compress c.words (c.block ++ [b])).2,
      c.total⟩ := by
  unfold updateByte
  dsimp only
  split
  · next full =>
    rw [feed_one (by decide) _ full]
  · next short =>
    rw [feed_short]
    rw [List.length_append, List.length_singleton] at short ⊢
    omega

theorem foldl_updateByte (p : List UInt8) : ∀ c : Sha, c.block.length < 64 →
    p.foldl updateByte c =
      ⟨(feed 64 compress c.words (c.block ++ p)).1, (feed 64 compress c.words (c.block ++ p)).2,
      c.total⟩ := by
  induction p with
  | nil =>
      intro c open_
      rw [List.append_nil, feed_short _ open_]
      rfl
  | cons b rest ih =>
      intro c open_
      rw [List.foldl_cons, updateByte_eq c open_, ih _ (feed_rest_length (by decide) _ _)]
      dsimp only
      rw [feed_append (by decide), List.append_assoc, List.singleton_append]

theorem sha256Update_eq (c : Sha) (open_ : c.block.length < 64) (p : List UInt8) :
    sha256Update c p = update c p := by
  rw [update_eq c open_, sha256Update]
  exact foldl_updateByte p { c with total := c.total + UInt64.ofNat p.length } open_

/-- How many zeros come before the length. -/
def gap (used : Nat) : Nat := if used ≤ 56 then 56 - used else 120 - used

theorem padding_eq (fuel : Nat) : ∀ c : Sha, c.block.length < 64 → gap c.block.length < fuel →
    (padding fuel c).words = (feed 64 compress c.words (c.block ++ List.replicate (gap c.block.length) 0)).1 ∧
      (padding fuel c).block =
        (feed 64 compress c.words (c.block ++ List.replicate (gap c.block.length) 0)).2 := by
  induction fuel with
  | zero => exact fun c _ lasts => absurd lasts (Nat.not_lt_zero _)
  | succ fuel ih =>
      intro c open_ lasts
      unfold padding
      by_cases there : c.block.length = 56
      · rw [if_pos there, there, show gap 56 = 0 from rfl, List.replicate_zero, List.append_nil,
          feed_short _ open_]
        exact ⟨rfl, rfl⟩
      · rw [if_neg there, sha256Update_eq c open_, update_eq c open_]
        -- one zero more: the gap from there is one less
        have used : (feed 64 compress c.words (c.block ++ [0])).2.length = (c.block.length + 1) % 64 := by
          rw [feed_rest_mod, List.length_append, List.length_singleton]
        have less : gap c.block.length = gap ((c.block.length + 1) % 64) + 1 := by
          unfold gap
          split <;> split <;> omega
        have next := ih ⟨(feed 64 compress c.words (c.block ++ [0])).1,
          (feed 64 compress c.words (c.block ++ [0])).2,
          c.total + UInt64.ofNat [(0 : UInt8)].length⟩ (feed_rest_length (by decide) _ _)
            (by rw [used]; omega)
        dsimp only at next
        rw [used, feed_append (by decide), List.append_assoc, List.singleton_append,
          ← List.replicate_succ, ← less]
          at next
        exact next

/-- What is hashed last: the mark, the zeros and the length. -/
def ending (c : Sha) : List UInt8 :=
  [0x80] ++ List.replicate (gap ((c.block.length + 1) % 64)) 0 ++ lengthBytes (c.total * 8)

theorem eight_bytes (bits : UInt64) : (lengthBytes bits).length = 8 := by
  rw [lengthBytes, List.length_map, List.length_range]

theorem finish_feed (c : Sha) (open_ : c.block.length < 64) :
    finish c = digestOf (feed 64 compress c.words (c.block ++ ending c)).1 := by
  unfold ending
  by_cases two : 56 < c.block.length + 1
  · -- the length goes in a block of its own
    have zeros : gap ((c.block.length + 1) % 64) = (64 - (c.block.length + 1)) + 56 := by
      unfold gap
      split <;> omega
    have first : (c.block ++ [0x80] ++ List.replicate (64 - (c.block.length + 1)) 0).length = 64 := by
      rw [List.length_append, List.length_append, List.length_singleton, List.length_replicate]
      omega
    have second : (List.replicate 56 (0 : UInt8) ++ lengthBytes (c.total * 8)).length = 64 := by
      rw [List.length_append, List.length_replicate, eight_bytes]
    have stream : c.block ++ ([0x80] ++ List.replicate (gap ((c.block.length + 1) % 64)) 0 ++
        lengthBytes (c.total * 8)) = (c.block ++ [0x80] ++ List.replicate (64 - (c.block.length + 1)) 0) ++
          (List.replicate 56 0 ++ lengthBytes (c.total * 8)) := by
      rw [zeros, List.replicate_add]
      simp only [List.append_assoc]
    rw [stream, feed_first (by decide) _ _ first, feed_one (by decide) _ second]
    simp only [finish, List.length_append, List.length_singleton, if_pos two, List.nil_append,
      List.length_nil,
      Nat.sub_zero, gt_iff_lt]
  · have zeros : gap ((c.block.length + 1) % 64) = 56 - (c.block.length + 1) := by
      unfold gap
      split <;> omega
    have whole : (c.block ++ [0x80] ++ List.replicate (56 - (c.block.length + 1)) 0 ++
        lengthBytes (c.total * 8)).length = 64 := by
      rw [List.length_append, List.length_append, List.length_append, List.length_singleton,
        List.length_replicate,
        eight_bytes]
      omega
    rw [zeros, ← List.append_assoc, ← List.append_assoc, feed_one (by decide) _ whole]
    simp only [finish, List.length_append, List.length_singleton, if_neg two, gt_iff_lt]

theorem sha256Final_eq (c : Sha) (open_ : c.block.length < 64) : sha256Final c = finish c := by
  have marked : sha256Update c [0x80] = update c [0x80] := sha256Update_eq c open_ _
  have block : (update c [0x80]).block.length = (c.block.length + 1) % 64 := by
    rw [update_eq c open_]
    dsimp only
    rw [feed_rest_mod, List.length_append, List.length_singleton]
  have lasts : gap (update c [0x80]).block.length < 64 := by
    rw [block]
    unfold gap
    split <;> omega
  obtain ⟨words, rest⟩ := padding_eq 64 (update c [0x80]) (update_open c open_ _) lasts
  have closed : (padding 64 (update c [0x80])).block.length < 64 := by
    rw [rest]
    exact feed_rest_length (by decide) _ _
  rw [finish_feed c open_, sha256Final, marked, sha256Update_eq _ closed, update_eq _ closed]
  dsimp only
  rw [words, rest, feed_append (by decide), block, update_eq c open_]
  dsimp only
  rw [List.append_assoc, feed_append (by decide), ending, List.append_assoc, List.append_assoc]

theorem sha256Update_pieces (pieces : List (List UInt8)) (c : Sha) (open_ : c.block.length < 64) :
    pieces.foldl sha256Update c = pieces.foldl update c ∧ (pieces.foldl update c).block.length < 64 := by
  induction pieces generalizing c with
  | nil => exact ⟨rfl, open_⟩
  | cons piece rest ih =>
      rw [List.foldl_cons, List.foldl_cons, sha256Update_eq c open_]
      exact ih _ (update_open c open_ piece)

theorem tntSha256_eq (pieces : List (List UInt8)) :
    sha256Final (pieces.foldl sha256Update {}) = sha pieces.flatten := by
  obtain ⟨same, open_⟩ := sha256Update_pieces pieces {} (by decide)
  rw [same, sha256Final_eq _ open_, finish_pieces]

end Tnt

end R2Apps.BearSha256
