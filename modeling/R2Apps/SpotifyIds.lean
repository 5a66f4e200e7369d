import Mathlib.Data.List.Basic
import R2Apps.SpotifyMessages

/-! The ids of tracks, `GID` in `go/spotify/stream/crypto.go`: 22 digits of base 62 as a number of
128 bits. A string is
its bytes, and going over it is going over the runes that they encode. -/
namespace R2Apps.SpotifyIds
open SpotifyMessages

section Runes

def runeError : Nat := 0xfffd

def continues (b : UInt8) : Prop := 0x80 ≤ b ∧ b ≤ 0xbf

instance : DecidablePred continues := fun _ => inferInstanceAs (Decidable (_ ∧ _))

/-- The lowest and the highest second byte that a first byte of three or four admits. -/
def secondRange (b0 : UInt8) : UInt8 × UInt8 :=
  if b0 = 0xe0 then (0xa0, 0xbf) else if b0 = 0xed then (0x80, 0x9f) else if b0 = 0xf0 then (0x90, 0xbf)
  else if b0 = 0xf4 then (0x80, 0x8f) else (0x80, 0xbf)

/-- The rune behind a first byte, and how many of the bytes after it belong to it. -/
def decodeRune (b0 : UInt8) (rest : Bytes) : Nat × Nat :=
  if b0 < 0x80 then (b0.toNat, 0)
  else if b0 < 0xc2 ∨ b0 > 0xf4 then (runeError, 0)
  else
    match rest with
    | [] => (runeError, 0)
    | b1 :: rest =>
      if b1 < (secondRange b0).1 ∨ b1 > (secondRange b0).2 then (runeError, 0)
      else if b0 < 0xe0 then ((b0.toNat &&& 0x1f) <<< 6 ||| (b1.toNat &&& 0x3f), 1)
      else
        match rest with
        | [] => (runeError, 0)
        | b2 :: rest =>
          if ¬continues b2 then (runeError, 0)
          else if b0 < 0xf0 then
            ((b0.toNat &&& 0x0f) <<< 12 ||| (b1.toNat &&& 0x3f) <<< 6 ||| (b2.toNat &&& 0x3f), 2)
          else
            match rest with
            | [] => (runeError, 0)
            | b3 :: _ =>
              if ¬continues b3 then (runeError, 0)
              else
                ((b0.toNat &&& 0x07) <<< 18 ||| (b1.toNat &&& 0x3f) <<< 12 ||| (b2.toNat &&& 0x3f) <<< 6 |||
                  (b3.toNat &&& 0x3f), 3)

/-- `for _, c := range s` -/
def runes : Bytes → List Nat
  | [] => []
  | b0 :: rest => (decodeRune b0 rest).1 :: runes (rest.drop (decodeRune b0 rest).2)
termination_by s => s.length
decreasing_by
  rw [List.length_drop, List.length_cons]
  omega

/-! The part of a longer rune that is large enough, from the range of the byte it comes from. -/

theorem large_of_two (b0 : Nat) (below : b0 < 0xe0) (above : 0xc2 ≤ b0) : 128 ≤ (b0 &&& 0x1f) <<< 6 := by
  rw [Nat.and_two_pow_sub_one_eq_mod _ 5, Nat.shiftLeft_eq]
  omega

theorem large_of_three (b0 : Nat) (below : b0 < 0xf0) (above : 0xe1 ≤ b0) : 128 ≤ (b0 &&& 0x0f) <<< 12 := by
  rw [Nat.and_two_pow_sub_one_eq_mod _ 4, Nat.shiftLeft_eq]
  omega

theorem large_of_second (b1 : Nat) (below : b1 < 0xc0) (above : 0xa0 ≤ b1) : 128 ≤ (b1 &&& 0x3f) <<< 6 := by
  rw [Nat.and_two_pow_sub_one_eq_mod _ 6, Nat.shiftLeft_eq]
  omega

theorem large_of_four (b0 : Nat) (below : b0 < 0xf5) (above : 0xf1 ≤ b0) : 128 ≤ (b0 &&& 0x07) <<< 18 := by
  rw [Nat.and_two_pow_sub_one_eq_mod _ 3, Nat.shiftLeft_eq]
  omega

theorem large_of_second' (b1 : Nat) (below : b1 < 0xc0) (above : 0x90 ≤ b1) : 128 ≤ (b1 &&& 0x3f) <<< 12 := by
  rw [Nat.and_two_pow_sub_one_eq_mod _ 6, Nat.shiftLeft_eq]
  omega

theorem second_ge {b0 b1 : UInt8} (lead : b0 = 0xe0)
    (inside : ¬(b1 < (secondRange b0).1 ∨ b1 > (secondRange b0).2)) : 0xa0 ≤ b1.toNat ∧ b1.toNat < 0xc0 := by
  subst lead
  have range : secondRange 0xe0 = (0xa0, 0xbf) := rfl
  rw [range] at inside
  simp only [gt_iff_lt, not_or, UInt8.lt_iff_toNat_lt, UInt8.reduceToNat, Nat.not_lt] at inside
  exact ⟨inside.1, Nat.lt_succ_of_le inside.2⟩

theorem second_ge' {b0 b1 : UInt8} (lead : b0 = 0xf0)
    (inside : ¬(b1 < (secondRange b0).1 ∨ b1 > (secondRange b0).2)) : 0x90 ≤ b1.toNat ∧ b1.toNat < 0xc0 := by
  subst lead
  have range : secondRange 0xf0 = (0x90, 0xbf) := rfl
  rw [range] at inside
  simp only [gt_iff_lt, not_or, UInt8.lt_iff_toNat_lt, UInt8.reduceToNat, Nat.not_lt] at inside
  exact ⟨inside.1, Nat.lt_succ_of_le inside.2⟩

theorem decodeRune_large {b0 : UInt8} (wide : ¬b0 < 0x80) (rest : Bytes) : 128 ≤ (decodeRune b0 rest).1 := by
  have error_ : 128 ≤ runeError := by decide
  unfold decodeRune
  rw [if_neg wide]
  by_cases lead : b0 < 0xc2 ∨ b0 > 0xf4
  · rw [if_pos lead]
    exact error_
  rw [if_neg lead]
  simp only [gt_iff_lt, not_or, UInt8.lt_iff_toNat_lt, UInt8.reduceToNat, Nat.not_lt] at lead
  cases rest with
  | nil => exact error_
  | cons b1 rest =>
  by_cases second : b1 < (secondRange b0).1 ∨ b1 > (secondRange b0).2
  · simp only [if_pos second]
    exact error_
  simp only [if_neg second]
  by_cases two : b0 < 0xe0
  · rw [if_pos two]
    rw [UInt8.lt_iff_toNat_lt] at two
    exact Nat.le_trans (large_of_two _ two lead.1) Nat.left_le_or
  rw [if_neg two]
  simp only [UInt8.lt_iff_toNat_lt, UInt8.reduceToNat, Nat.not_lt] at two
  cases rest with
  | nil => exact error_
  | cons b2 rest =>
  by_cases third : continues b2
  · simp only [if_neg (not_not_intro third)]
    by_cases three : b0 < 0xf0
    · rw [if_pos three]
      rw [UInt8.lt_iff_toNat_lt] at three
      by_cases least : b0 = 0xe0
      · have low := second_ge least second
        exact Nat.le_trans (large_of_second _ low.2 low.1) (Nat.le_trans Nat.right_le_or Nat.left_le_or)
      · have above : 0xe1 ≤ b0.toNat :=
          Nat.lt_of_le_of_ne two fun same => least (UInt8.toNat_inj.mp same.symm)
        exact Nat.le_trans (large_of_three _ three above) (Nat.le_trans Nat.left_le_or Nat.left_le_or)
    · rw [if_neg three]
      simp only [UInt8.lt_iff_toNat_lt, UInt8.reduceToNat, Nat.not_lt] at three
      cases rest with
      | nil => exact error_
      | cons b3 rest =>
      by_cases fourth : continues b3
      · simp only [if_neg (not_not_intro fourth)]
        by_cases least : b0 = 0xf0
        · have low := second_ge' least second
          exact Nat.le_trans (large_of_second' _ low.2 low.1)
            (Nat.le_trans Nat.right_le_or (Nat.le_trans Nat.left_le_or Nat.left_le_or))
        · have above : 0xf1 ≤ b0.toNat :=
            Nat.lt_of_le_of_ne three fun same => least (UInt8.toNat_inj.mp same.symm)
          exact Nat.le_trans (large_of_four _ (Nat.lt_succ_of_le lead.2) above)
            (Nat.le_trans Nat.left_le_or (Nat.le_trans Nat.left_le_or Nat.left_le_or))
      · simp only [if_pos fourth]
        exact error_
  · simp only [if_pos third]
    exact error_

end Runes

section Positional
variable {base : Nat}

/-- Digits behind a number, the first the highest. -/
def positional (base v : Nat) (digits : List Nat) : Nat := digits.foldl (fun v d => base * v + d) v

theorem positional_start (v : Nat) (digits : List Nat) :
    positional base v digits = v * base ^ digits.length + positional base 0 digits := by
  induction digits generalizing v with
  | nil => simp [positional]
  | cons d rest ih =>
      have step (v : Nat) : positional base v (d :: rest) = positional base (base * v + d) rest := rfl
      rw [step, step, ih, ih (base * 0 + d), List.length_cons, Nat.pow_succ, Nat.mul_zero,
        Nat.zero_add, Nat.add_mul]
      rw [Nat.mul_comm base v, Nat.mul_assoc, Nat.mul_comm base, Nat.add_assoc]

theorem positional_cons (d : Nat) (rest : List Nat) :
    positional base 0 (d :: rest) = d * base ^ rest.length + positional base 0 rest := by
  have step : positional base 0 (d :: rest) = positional base (base * 0 + d) rest := rfl
  rw [step, positional_start, Nat.mul_zero, Nat.zero_add]

theorem positional_lt {digits : List Nat} (small : ∀ d, d ∈ digits → d < base) :
    positional base 0 digits < base ^ digits.length := by
  induction digits with
  | nil => exact Nat.one_pos
  | cons d rest ih =>
      have tail := ih fun d member => small d (List.mem_cons_of_mem _ member)
      have head := Nat.mul_le_mul_right (base ^ rest.length) (small d List.mem_cons_self)
      rw [Nat.succ_mul] at head
      rw [positional_cons, List.length_cons, Nat.pow_succ, Nat.mul_comm _ base]
      omega

theorem positional_inj {digits digits' : List Nat} (size : digits.length = digits'.length)
    (small : ∀ d, d ∈ digits → d < base) (small' : ∀ d, d ∈ digits' → d < base)
    (same : positional base 0 digits = positional base 0 digits') : digits = digits' := by
  induction digits generalizing digits' with
  | nil => exact (List.eq_nil_of_length_eq_zero size.symm).symm
  | cons d rest ih =>
      cases digits' with
      | nil => cases size
      | cons d' rest' =>
          have length_ : rest.length = rest'.length := Nat.succ.inj size
          have tail := positional_lt fun d member => small d (List.mem_cons_of_mem _ member)
          have tail' := positional_lt fun d member => small' d (List.mem_cons_of_mem _ member)
          rw [positional_cons, positional_cons, length_] at same
          rw [length_] at tail
          have heads := congrArg (· / base ^ rest'.length) same
          have tails := congrArg (· % base ^ rest'.length) same
          simp only [Nat.mul_comm _ (base ^ rest'.length), Nat.mul_add_div (Nat.zero_lt_of_lt tail),
            Nat.mul_add_mod,
            Nat.div_eq_of_lt tail, Nat.div_eq_of_lt tail', Nat.mod_eq_of_lt tail, Nat.mod_eq_of_lt tail',
            Nat.add_zero] at heads tails
          rw [heads, ih length_ (fun d member => small d (List.mem_cons_of_mem _ member))
            (fun d member => small' d (List.mem_cons_of_mem _ member)) tails]

theorem positional_ge (v : Nat) (digits : List Nat) (positive : 0 < base) : v ≤ positional base v digits := by
  rw [positional_start]
  exact Nat.le_trans (Nat.le_mul_of_pos_right v (Nat.pow_pos positive)) (Nat.le_add_right _ _)

end Positional

section Digits

def alphabet : List Nat :=
  "0123456789abcdefghijklmnopqrstuvwxyzABCDEFGHIJKLMNOPQRSTUVWXYZ".toList.map Char.toNat

/-- The loop over the sixteen bytes, from the last to the first: the bytes and the carry. -/
def scale : Bytes → Nat → Bytes × Nat
  | [], carry => ([], carry)
  | b :: rest, carry =>
      let (rest, carry) := scale rest carry
      let carry := carry + b.toNat * 62
      (UInt8.ofNat carry :: rest, carry >>> 8)

/-- A turn of the loop over the runes of the id. -/
def digit (out : Bytes) (c : Nat) : Option Bytes :=
  match alphabet.idxOf? c with
  | none => none
  | some value =>
      let (out, carry) := scale out value
      if carry ≠ 0 then none else some out

/-- All its errors are the one of an invalid id. -/
def gid (id : Bytes) : Option Bytes :=
  if id.length ≠ 22 then none else (runes id).foldlM digit (List.replicate 16 0)

/-- The number that bytes are, the first the highest. -/
def bigEndian (out : Bytes) : Nat := positional 256 0 (out.map UInt8.toNat)

/-- The digits of an id in base 62. -/
def digits (id : Bytes) : List Nat := id.map fun b => alphabet.idxOf b.toNat

/-- The number that an id is in base 62. -/
def base62 (id : Bytes) : Nat := positional 62 0 (digits id)

theorem alphabet_eq : alphabet = List.range' 48 10 ++ List.range' 97 26 ++ List.range' 65 26 := by
  unfold alphabet
  rw [String.toList_ofList]
  rfl

theorem alphabet_ascii {c : Nat} (member : c ∈ alphabet) : c < 0x80 := by
  rw [alphabet_eq] at member
  simp only [List.mem_append, List.mem_range'_1] at member
  omega

theorem alphabet_length : alphabet.length = 62 := by rw [alphabet_eq]; rfl

theorem foldl_runes (id out : Bytes) :
    (runes id).foldlM digit out = id.foldlM (fun out b => digit out b.toNat) out := by
  induction id using runes.induct generalizing out with
  | case1 =>
      rw [runes]
      rfl
  | case2 b0 rest ih =>
      rw [runes, List.foldlM_cons, List.foldlM_cons]
      by_cases ascii : b0 < 0x80
      · have plain : decodeRune b0 rest = (b0.toNat, 0) := if_pos ascii
        rw [plain] at ih ⊢
        congr 1
        funext out
        exact ih out
      · -- neither the rune nor the byte is a digit
        have outside {c : Nat} (large : 128 ≤ c) : digit out c = none := by
          have absent : alphabet.idxOf? c = none :=
            List.idxOf?_eq_none_iff.mpr fun member => absurd (alphabet_ascii member) (Nat.not_lt.mpr large)
          rw [digit, absent]
        have wide : 128 ≤ b0.toNat := Nat.le_of_not_lt ascii
        rw [outside (decodeRune_large ascii rest), outside wide]
        rfl

theorem bigEndian_cons (b : UInt8) (rest : Bytes) :
    bigEndian (b :: rest) = b.toNat * 256 ^ rest.length + bigEndian rest := by
  rw [bigEndian, List.map_cons, positional_cons, List.length_map, bigEndian]

theorem byte_small (out : Bytes) : ∀ d, d ∈ out.map UInt8.toNat → d < 256 := by
  intro d member
  obtain ⟨b, -, rfl⟩ := List.mem_map.mp member
  exact b.toNat_lt

theorem bigEndian_inj {out out' : Bytes} (size : out.length = out'.length)
    (same : bigEndian out = bigEndian out') :
    out = out' := by
  have bytes := positional_inj (by rw [List.length_map, List.length_map]; exact size) (byte_small _)
    (byte_small _) same
  exact (List.map_inj_right fun _ _ => UInt8.toNat_inj.mp).mp bytes

theorem scale_exact (out : Bytes) (value : Nat) : (scale out value).1.length = out.length ∧
    bigEndian (scale out value).1 + (scale out value).2 * 256 ^ out.length = 62 * bigEndian out + value := by
  induction out with
  | nil => simp [scale, bigEndian, positional]
  | cons b rest ih =>
      obtain ⟨size, number⟩ := ih
      constructor
      · simp only [scale, List.length_cons, size]
      · have low (w : Nat) : (UInt8.ofNat w).toNat = w % 256 := UInt8.toNat_ofNat'
        have high (w : Nat) : w >>> 8 = w / 256 := Nat.shiftRight_eq_div_pow w 8
        have up : 256 ^ (rest.length + 1) = 256 ^ rest.length * 256 := Nat.pow_succ ..
        simp only [scale, bigEndian_cons, size, low, high, List.length_cons, up]
        generalize (scale rest value).2 = carry at number ⊢
        generalize 256 ^ rest.length = weight at number ⊢
        have parts : (carry + b.toNat * 62) % 256 * weight + (carry + b.toNat * 62) / 256 * (weight * 256) =
            carry * weight + 62 * (b.toNat * weight) := by
          have byte := congrArg (· * weight) (Nat.mod_add_div (carry + b.toNat * 62) 256)
          simp only [Nat.add_mul] at byte
          rw [Nat.mul_comm weight 256, ← Nat.mul_assoc, Nat.mul_comm _ 256, byte,
            Nat.mul_right_comm, Nat.mul_comm _ 62]
        rw [Nat.mul_add]
        omega

theorem bigEndian_small {out : Bytes} (size : out.length = 16) : bigEndian out < 2 ^ 128 := by
  have bound := positional_lt (byte_small out)
  rw [List.length_map, size] at bound
  exact bound

theorem zero_carry {carry v : Nat} {out : Bytes} (number : bigEndian out + carry * 256 ^ 16 = v)
    (size : out.length = 16) : carry = 0 ↔ v < 2 ^ 128 := by
  have small := bigEndian_small size
  have whole : (256 : Nat) ^ 16 = 2 ^ 128 := rfl
  rw [whole] at number
  omega

theorem idxOf_some {c : Nat} (member : c ∈ alphabet) : alphabet.idxOf? c = some (alphabet.idxOf c) := by
  obtain ⟨i, found⟩ := Option.isSome_iff_exists.mp (List.isSome_idxOf?.mpr member)
  rw [List.idxOf_eq_getD_idxOf?, found, Option.getD_some]

theorem bytes_of (n : Nat) : ∀ v, v < 256 ^ n → ∃ out : Bytes, out.length = n ∧ bigEndian out = v := by
  induction n with
  | zero =>
      intro v small
      exact ⟨[], rfl, (Nat.lt_one_iff.mp small).symm⟩
  | succ n ih =>
      intro v small
      have positive : 0 < 256 ^ n := Nat.pow_pos (by decide)
      obtain ⟨rest, size, number⟩ := ih (v % 256 ^ n) (Nat.mod_lt v positive)
      have head : v / 256 ^ n < 256 := Nat.div_lt_of_lt_mul (by rw [← Nat.pow_succ]; exact small)
      have byte : (UInt8.ofNat (v / 256 ^ n)).toNat = v / 256 ^ n := by
        rw [UInt8.toNat_ofNat']
        exact Nat.mod_eq_of_lt head
      refine ⟨UInt8.ofNat (v / 256 ^ n) :: rest, by rw [List.length_cons, size], ?_⟩
      rw [bigEndian_cons, byte, size, number, Nat.mul_comm]
      exact Nat.div_add_mod v _

theorem digit_iff {out out' : Bytes} (size : out.length = 16) (c : Nat) : digit out c = some out' ↔
    c ∈ alphabet ∧ 62 * bigEndian out + alphabet.idxOf c < 2 ^ 128 ∧ out'.length = 16 ∧
      bigEndian out' = 62 * bigEndian out + alphabet.idxOf c := by
  by_cases member : c ∈ alphabet
  · have place := idxOf_some member
    obtain ⟨length_, number⟩ := scale_exact out (alphabet.idxOf c)
    rw [size] at length_ number
    have fits := zero_carry number length_
    simp only [digit, place]
    by_cases carry : (scale out (alphabet.idxOf c)).2 = 0
    · rw [carry, Nat.zero_mul, Nat.add_zero] at number
      simp only [carry, ne_eq, not_true_eq_false, if_false, Option.some.injEq]
      constructor
      · rintro rfl
        exact ⟨member, fits.mp carry, length_, number⟩
      · rintro ⟨-, -, length_', number'⟩
        exact bigEndian_inj (length_.trans length_'.symm) (number.trans number'.symm)
    · simp only [carry, ne_eq, not_false_eq_true, if_true]
      constructor
      · intro none_
        cases none_
      · rintro ⟨-, small, -⟩
        exact absurd (fits.mpr small) carry
  · have absent : alphabet.idxOf? c = none := List.idxOf?_eq_none_iff.mpr member
    simp only [digit, absent]
    constructor
    · intro none_
      cases none_
    · rintro ⟨in_, -⟩
      exact absurd in_ member

theorem digits_iff (id out' : Bytes) : ∀ {out : Bytes}, out.length = 16 →
    (id.foldlM (fun out b => digit out b.toNat) out = some out' ↔
      (∀ b, b ∈ id → b.toNat ∈ alphabet) ∧ positional 62 (bigEndian out) (digits id) < 2 ^ 128 ∧
        out'.length = 16 ∧
        bigEndian out' = positional 62 (bigEndian out) (digits id)) := by
  induction id with
  | nil =>
      intro out size
      have here : positional 62 (bigEndian out) (digits []) = bigEndian out := rfl
      have small : bigEndian out < 2 ^ 128 := bigEndian_small size
      rw [List.foldlM_nil, here]
      constructor
      · intro ran
        cases ran
        exact ⟨fun b member => absurd member List.not_mem_nil, small, size, rfl⟩
      · rintro ⟨-, -, size', number⟩
        exact congrArg some (bigEndian_inj (size.trans size'.symm) number.symm)
  | cons b rest ih =>
      intro out size
      have step (v : Nat) : positional 62 v (digits (b :: rest)) =
          positional 62 (62 * v + alphabet.idxOf b.toNat) (digits rest) := rfl
      rw [List.foldlM_cons, step]
      constructor
      · intro ran
        obtain ⟨next, turn, later⟩ := Option.bind_eq_some_iff.mp ran
        obtain ⟨member, -, size', number⟩ := (digit_iff size _).mp turn
        have done := (ih size').mp later
        rw [number] at done
        refine ⟨?_, done.2⟩
        intro c among
        rcases List.mem_cons.mp among with rfl | among
        · exact member
        · exact done.1 c among
      · rintro ⟨members, small, size', number⟩
        have here := Nat.lt_of_le_of_lt (positional_ge _ _ (by decide)) small
        obtain ⟨next, size_, value⟩ := bytes_of 16 _ here
        have turn := (digit_iff size b.toNat).mpr ⟨members b List.mem_cons_self, here, size_, value⟩
        refine Option.bind_eq_some_iff.mpr ⟨next, turn, (ih size_).mpr ?_⟩
        rw [value]
        exact ⟨fun c among => members c (List.mem_cons_of_mem _ among), small, size', number⟩

theorem zeros : bigEndian (List.replicate 16 0) = 0 := by decide

theorem gid_iff (id out : Bytes) : gid id = some out ↔
    id.length = 22 ∧ (∀ b, b ∈ id → b.toNat ∈ alphabet) ∧ base62 id < 2 ^ 128 ∧ out.length = 16 ∧
      bigEndian out = base62 id := by
  by_cases size : id.length = 22
  · have start : (List.replicate 16 0 : Bytes).length = 16 := List.length_replicate
    have ran := digits_iff id out start
    rw [zeros] at ran
    rw [gid, if_neg (not_not_intro size), foldl_runes, ran, base62]
    simp only [size, true_and]
  · rw [gid, if_pos size]
    constructor
    · intro none_
      cases none_
    · rintro ⟨size', -⟩
      exact absurd size' size

theorem gid_some (id : Bytes) :
    (∃ out, gid id = some out) ↔ id.length = 22 ∧ (∀ b, b ∈ id → b.toNat ∈ alphabet) ∧
      base62 id < 2 ^ 128 := by
  constructor
  · rintro ⟨out, taken⟩
    obtain ⟨size, members, small, -⟩ := (gid_iff id out).mp taken
    exact ⟨size, members, small⟩
  · rintro ⟨size, members, small⟩
    obtain ⟨out, size', number⟩ := bytes_of 16 _ small
    exact ⟨out, (gid_iff id out).mpr ⟨size, members, small, size', number⟩⟩

theorem digit_small {id : Bytes} (members : ∀ b, b ∈ id → b.toNat ∈ alphabet) :
    ∀ d, d ∈ digits id → d < 62 := by
  intro d member
  obtain ⟨b, among, rfl⟩ := List.mem_map.mp member
  rw [← alphabet_length]
  exact List.idxOf_lt_length_iff.mpr (members b among)

theorem gid_inj {id id' out : Bytes} (taken : gid id = some out) (taken' : gid id' = some out) :
    id = id' := by
  obtain ⟨size, members, -, -, number⟩ := (gid_iff id out).mp taken
  obtain ⟨size', members', -, -, number'⟩ := (gid_iff id' out).mp taken'
  have same : digits id = digits id' := by
    have length_ : (digits id).length = (digits id').length := by
      rw [digits, digits, List.length_map, List.length_map, size, size']
    exact positional_inj length_ (digit_small members) (digit_small members') (number.symm.trans number')
  -- a digit is one character
  refine List.ext_getElem (size.trans size'.symm) ?_
  intro i below below'
  have digit_ : (digits id)[i]? = (digits id')[i]? := by rw [same]
  simp only [digits, List.getElem?_map, List.getElem?_eq_getElem below, List.getElem?_eq_getElem below',
    Option.map_some, Option.some.injEq] at digit_
  have inside := members _ (List.getElem_mem below)
  exact UInt8.toNat_inj.mp ((List.idxOf_inj inside).mp digit_)

end Digits

/-- Every message that fits is read back, its nested messages too; every input is read without a
slice past its end, and
what is accepted is tiled by its fields; and `GID` takes exactly the ids of 128 bits, each to a
result of its own. -/
theorem encodings_exact :
    (∀ l : List (Nat × Value), Fits l → parse (join (l.map encode)) = some { fields := l.map field } ∧
      ∀ id inner, Fits inner → l.find? (·.1 = id) = some (id, .data (join (inner.map encode))) →
        Message.sub { fields := l.map field } id = some { fields := inner.map field }) ∧
    (∀ b : Bytes, ∃ m, parse b = some m ∧
      (m.err = none → ∃ pieces : List Bytes, pieces.flatten = b ∧
        List.Forall₂ (fun piece f => piece ≠ [] ∧ parse piece = some { fields := [f] }) pieces m.fields)) ∧
    (∀ id : Bytes, (∃ out, gid id = some out) ↔
      id.length = 22 ∧ (∀ b, b ∈ id → b.toNat ∈ alphabet) ∧ base62 id < 2 ^ 128) ∧
    (∀ id out : Bytes, gid id = some out → out.length = 16 ∧ bigEndian out = base62 id) ∧
    ∀ id id' out : Bytes, gid id = some out → gid id' = some out → id = id' := by
  refine ⟨?_, parse_tiles, gid_some, ?_, ?_⟩
  · intro l fits
    exact ⟨parse_join fits, fun _ _ inside first => sub_join inside first⟩
  · intro id out taken
    exact ((gid_iff id out).mp taken).2.2.2
  · intro id id' out taken taken'
    exact gid_inj taken taken'

end R2Apps.SpotifyIds
