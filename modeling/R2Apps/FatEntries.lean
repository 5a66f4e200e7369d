import R2Apps.FatVolume

/-! Storing an entry of the file allocation table in `c/rntp/linux/fat.c`: the one or two sectors under it are
read, changed and written to every copy. What a store leaves is stated once, byte by byte and copy by copy;
what `fat_get` makes of the table afterwards is read off that. -/
namespace R2Apps.FatEntries
open ByteMemory BlockImages FatVolume

section Code
variable (f : RntpFat)

def wr (image : Memory) (sector : Nat) (data : Memory) : Except Errno Memory :=
  if sector ≠ 0 ∧ sector < f.sectors then .ok (paste image (sector * 512) data 0 512) else .error .ioFault

/-- A turn of the loop over the copies of the table, at copy `i`. -/
def setCopy (at_ : Nat) (a b : Memory) (i : Nat) (image : Memory) : Except Errno Memory := do
  let image ← wr f image (f.fat + i * f.fatSectors + at_ / 512) a
  if at_ % 512 = 511 then wr f image (f.fat + i * f.fatSectors + at_ / 512 + 1) b else .ok image

/-- The copies from `i` on. -/
def setCopies (at_ : Nat) (a b : Memory) : Nat → Nat → Memory → Except Errno Memory
  | 0, _, image => .ok image
  | n + 1, i, image => do
      let image ← setCopy f at_ a b i image
      setCopies at_ a b n (i + 1) image

def fatSet (image : Memory) (c v : Nat) : Except Errno Memory :=
  if valid f c then do
    let at_ := entryAt f.bits c
    let off := at_ % 512
    let a ← rd f image (f.fat + at_ / 512)
    -- the second sector stays unread, and is no part of the entry, unless the entry straddles
    let b ← if off = 511 then rd f image (f.fat + at_ / 512 + 1) else .ok fun _ => 0
    let old := (a off).toNat ||| (if off = 511 then b 0 else a (off + 1)).toNat <<< 8
    let v :=
      if f.bits = 12 then
        if c % 2 = 1 then (old &&& 15) ||| (v &&& 0xfff) <<< 4 else (old &&& 0xf000) ||| (v &&& 0xfff)
      else v
    let a := writeByte a off (UInt8.ofNat v)
    let a := if off = 511 then a else writeByte a (off + 1) (UInt8.ofNat (v >>> 8))
    let b := if off = 511 then writeByte b 0 (UInt8.ofNat (v >>> 8)) else b
    setCopies f at_ a b f.fats 0 image
  else .error .ioFault

end Code

section Copies

/-- The byte of the image at which a copy of the table starts. -/
def copyStart (f : RntpFat) (i : Nat) : Nat := (f.fat + i * f.fatSectors) * 512

/-- The sectors of a copy that a store at the byte writes. -/
def touched (at_ s : Nat) : Prop := s = at_ / 512 ∨ at_ % 512 = 511 ∧ s = at_ / 512 + 1

instance (at_ s : Nat) : Decidable (touched at_ s) := inferInstanceAs (Decidable (_ ∨ _))

/-- What the sectors of a copy hold once `a` and `b` are written. -/
def sectorsWith (at_ : Nat) (a b old : Memory) : Memory := fun j =>
  if j / 512 = at_ / 512 then a (j % 512)
  else if at_ % 512 = 511 ∧ j / 512 = at_ / 512 + 1 then b (j % 512) else old j

variable {f : RntpFat}

theorem wr_ok {image image' data : Memory} {sector : Nat} (written : wr f image sector data = .ok image') :
    image' = paste image (sector * 512) data 0 512 := by
  unfold wr at written
  split at written
  · cases written
    rfl
  · cases written

theorem paste_sector (image data : Memory) (sector x : Nat) :
    paste image (sector * 512) data 0 512 x = if x / 512 = sector then data (x % 512) else image x := by
  by_cases inside : x / 512 = sector
  · have address : x = sector * 512 + x % 512 := by omega
    have offset : x % 512 < 512 := Nat.mod_lt _ (by decide)
    rw [if_pos inside]
    conv_lhs => rw [address]
    rw [paste_inside _ _ _ _ _ _ offset, Nat.zero_add]
  · rw [if_neg inside]
    exact paste_outside _ _ _ _ _ _ (by omega)

theorem setCopy_ok {image image' a b : Memory} {at_ i : Nat} (fits : at_ + 1 < f.fatSectors * 512)
    (set : setCopy f at_ a b i image = .ok image') :
    (∀ j, image' (copyStart f i + j) = sectorsWith at_ a b (fun j => image (copyStart f i + j)) j) ∧
      ∀ x, x < copyStart f i ∨ copyStart f i + f.fatSectors * 512 ≤ x → image' x = image x := by
  unfold setCopy copyStart at *
  generalize f.fat + i * f.fatSectors = first at *
  cases low : wr f image (first + at_ / 512) a with
  | error e => rw [low] at set; cases set
  | ok half =>
  rw [low, ok_bind] at set
  have half_eq := wr_ok low
  have bytes : ∀ x, image' x = if at_ % 512 = 511 ∧ x / 512 = first + at_ / 512 + 1 then b (x % 512)
      else if x / 512 = first + at_ / 512 then a (x % 512) else image x := by
    intro x
    split at set
    · rename_i straddles
      rw [wr_ok set, half_eq, paste_sector, paste_sector]
      simp only [straddles, true_and]
    · rename_i straddles
      cases set
      rw [half_eq, paste_sector]
      simp only [straddles, false_and, if_false]
  constructor
  · intro j
    have quotient : (first * 512 + j) / 512 = first + j / 512 := by omega
    have rest : (first * 512 + j) % 512 = j % 512 := by omega
    rw [bytes, quotient, rest, sectorsWith]
    by_cases lower : j / 512 = at_ / 512
    · rw [if_neg (by omega), if_pos (by omega), if_pos lower]
    · rw [if_neg lower]
      by_cases upper : at_ % 512 = 511 ∧ j / 512 = at_ / 512 + 1
      · rw [if_pos (by omega), if_pos upper]
      · rw [if_neg (by omega), if_neg (by omega), if_neg upper]
  · rintro x away
    rw [bytes, if_neg (by omega), if_neg (by omega)]

theorem setCopies_ok {at_ : Nat} {a b : Memory} (fits : at_ + 1 < f.fatSectors * 512) (n : Nat) :
    ∀ (i : Nat) (image image' : Memory), setCopies f at_ a b n i image = .ok image' →
      (∀ k, i ≤ k → k < i + n → ∀ j, j < f.fatSectors * 512 →
        image' (copyStart f k + j) = sectorsWith at_ a b (fun j => image (copyStart f k + j)) j) ∧
      ∀ x, x < copyStart f i ∨ copyStart f (i + n) ≤ x → image' x = image x := by
  induction n with
  | zero =>
      intro i image image' set
      cases set
      constructor
      · intro k from_ below
        omega
      · intro x _
        rfl
  | succ n ih =>
      intro i image image' set
      simp only [setCopies] at set
      cases turn : setCopy f at_ a b i image with
      | error e => rw [turn] at set; cases set
      | ok next =>
          rw [turn, ok_bind] at set
          obtain ⟨written, kept⟩ := setCopy_ok fits turn
          obtain ⟨copies, beyond⟩ := ih (i + 1) next image' set
          have size : copyStart f (i + 1) = copyStart f i + f.fatSectors * 512 := by
            unfold copyStart
            rw [Nat.succ_mul, ← Nat.add_assoc, Nat.add_mul]
          -- copies follow one another, so a copy lies before every later one
          have order : ∀ k m, k ≤ m → copyStart f k ≤ copyStart f m := by
            intro k m before
            have sectors := Nat.mul_le_mul_right f.fatSectors before
            unfold copyStart
            omega
          have stop : i + 1 + n = i + (n + 1) := by omega
          rw [stop] at copies beyond
          constructor
          · intro k from_ below j inside
            rcases Nat.eq_or_lt_of_le from_ with here | later
            · subst here
              rw [beyond _ (.inl (by omega))]
              exact written j
            · have after := order (i + 1) k later
              rw [copies k later below j inside]
              congr 1
              funext x
              exact kept _ (.inr (by omega))
          · rintro x away
            have begin_ := order i (i + 1) (by omega)
            have end_ := order (i + 1) (i + (n + 1)) (by omega)
            rw [beyond x (by omega)]
            refine kept x ?_
            rcases away with before | after
            · exact .inl before
            · exact .inr (by omega)

end Copies

section Words

theorem keep_bottom (w v : Nat) : (w &&& 15) ||| (v &&& 0xfff) <<< 4 = w % 16 + v % 4096 * 16 := by
  have low : w &&& 15 = w % 16 := Nat.and_two_pow_sub_one_eq_mod w 4
  have high : v &&& 0xfff = v % 4096 := Nat.and_two_pow_sub_one_eq_mod v 12
  have small : w % 16 < 2 ^ 4 := Nat.mod_lt _ (by decide)
  rw [low, high, Nat.shiftLeft_eq, Nat.or_comm, Nat.mul_comm (v % 4096),
    ← Nat.two_pow_add_eq_or_of_lt small]
  omega

theorem keep_top (w v : Nat) (fits : w < 65536) :
    (w &&& 0xf000) ||| (v &&& 0xfff) = w / 4096 * 4096 + v % 4096 := by
  have quotient : w / 4096 < 2 ^ 4 := Nat.div_lt_of_lt_mul fits
  have top : w &&& 0xf000 = 2 ^ 12 * (w / 4096) := by
    have whole : w / 4096 &&& 15 = w / 4096 := by
      rw [Nat.and_two_pow_sub_one_eq_mod _ 4]
      exact Nat.mod_eq_of_lt quotient
    have parts := Nat.div_add_mod (w &&& 0xf000) (2 ^ 12)
    rw [Nat.and_div_two_pow, Nat.and_mod_two_pow] at parts
    have bits : (0xf000 : Nat) / 2 ^ 12 = 15 ∧ (0xf000 : Nat) % 2 ^ 12 = 0 := ⟨rfl, rfl⟩
    rw [bits.1, bits.2, Nat.and_zero, Nat.add_zero] at parts
    rw [← parts]
    exact congrArg _ whole
  have low : v &&& 0xfff = v % 4096 := Nat.and_two_pow_sub_one_eq_mod v 12
  have small : v % 4096 < 2 ^ 12 := Nat.mod_lt _ (by decide)
  rw [top, low, ← Nat.two_pow_add_eq_or_of_lt small]
  omega

/-- What a store makes of the two bytes at an entry. -/
def encode (bits c w v : Nat) : Nat :=
  if bits = 12 then (if c % 2 = 1 then w % 16 + v % 4096 * 16 else w / 4096 * 4096 + v % 4096) else v

theorem tableEntry_eq (bits fat : Nat) (image : Memory) (c : Nat) :
    tableEntry bits fat image c =
      if bits = 12 then
        if c % 2 = 1 then loadLE image (fat * 512 + entryAt bits c) 2 / 16
        else loadLE image (fat * 512 + entryAt bits c) 2 % 4096
      else loadLE image (fat * 512 + entryAt bits c) 2 := by
  simp only [tableEntry, Nat.shiftRight_eq_div_pow]
  rw [Nat.and_two_pow_sub_one_eq_mod _ 12]

/-- The first copy of the table, two bytes of it replaced. -/
def replaced (image : Memory) (fat at_ w : Nat) : Memory := fun j =>
  if j = at_ then UInt8.ofNat w else if j = at_ + 1 then UInt8.ofNat (w >>> 8) else image (fat * 512 + j)

theorem encode_bits (bits c : Nat) {w : Nat} (v : Nat) (fits : w < 65536) :
    (if bits = 12 then
      if c % 2 = 1 then (w &&& 15) ||| (v &&& 0xfff) <<< 4 else (w &&& 0xf000) ||| (v &&& 0xfff)
    else v) = encode bits c w v := by
  rw [keep_bottom, keep_top w v fits, encode]

theorem replaced_straddling (image : Memory) (fat : Nat) {at_ : Nat} (w j : Nat)
    (straddles : at_ % 512 = 511) :
    sectorsWith at_ (writeByte (fun j => image ((fat + at_ / 512) * 512 + j)) (at_ % 512) (UInt8.ofNat w))
      (writeByte (fun j => image ((fat + at_ / 512 + 1) * 512 + j)) 0 (UInt8.ofNat (w >>> 8)))
      (fun j => image (fat * 512 + j)) j = replaced image fat at_ w j := by
  unfold sectorsWith replaced writeByte
  by_cases lower : j / 512 = at_ / 512
  · have offset : (fat + at_ / 512) * 512 + j % 512 = fat * 512 + j := by omega
    rw [if_pos lower]
    dsimp only
    rw [offset]
    by_cases here : j = at_
    · rw [if_pos here, if_pos (by rw [here])]
    · rw [if_neg here, if_neg (by omega), if_neg (by omega)]
  · have apart : j ≠ at_ := by
      rintro rfl
      exact lower rfl
    rw [if_neg lower, if_neg apart]
    by_cases upper : j / 512 = at_ / 512 + 1
    · have offset : (fat + at_ / 512 + 1) * 512 + j % 512 = fat * 512 + j := by omega
      rw [if_pos ⟨straddles, upper⟩]
      dsimp only
      rw [offset]
      by_cases next : j = at_ + 1
      · rw [if_pos next, if_pos (by omega)]
      · rw [if_neg next, if_neg (by omega)]
    · rw [if_neg (by rintro ⟨_, same⟩; exact upper same), if_neg (by omega)]

theorem replaced_within (image b : Memory) (fat : Nat) {at_ : Nat} (w j : Nat) (within : at_ % 512 ≠ 511) :
    sectorsWith at_ (writeByte
      (writeByte (fun j => image ((fat + at_ / 512) * 512 + j)) (at_ % 512) (UInt8.ofNat w))
      (at_ % 512 + 1) (UInt8.ofNat (w >>> 8))) b (fun j => image (fat * 512 + j)) j =
      replaced image fat at_ w j := by
  unfold sectorsWith replaced writeByte
  by_cases lower : j / 512 = at_ / 512
  · have offset : (fat + at_ / 512) * 512 + j % 512 = fat * 512 + j := by omega
    rw [if_pos lower]
    dsimp only
    rw [offset]
    by_cases here : j = at_
    · rw [if_pos here, if_neg (by omega), if_pos (by rw [here])]
    · rw [if_neg here, if_neg (c := j % 512 = at_ % 512) (by omega)]
      by_cases next : j = at_ + 1
      · rw [if_pos next, if_pos (by omega)]
      · rw [if_neg next, if_neg (by omega)]
  · rw [if_neg lower, if_neg (by rintro ⟨straddles, _⟩; exact within straddles), if_neg (by omega),
      if_neg (by omega)]

theorem word_lt (m : Memory) (address : Nat) : loadLE m address 2 < 65536 := by
  have low := (m address).toNat_lt
  have high := (m (address + 1)).toNat_lt
  rw [two_bytes]
  omega

/-- What a store leaves in each copy and around them. -/
structure Stored (f : RntpFat) (image image' : Memory) (c v : Nat) : Prop where
  fine : valid f c
  first : ∀ j, j < f.fatSectors * 512 → image' (f.fat * 512 + j) =
    replaced image f.fat (entryAt f.bits c)
      (encode f.bits c (loadLE image (f.fat * 512 + entryAt f.bits c) 2) v) j
  copies : ∃ a b, ∀ i, i < f.fats → ∀ j, j < f.fatSectors * 512 →
    image' (copyStart f i + j) = sectorsWith (entryAt f.bits c) a b (fun j => image (copyStart f i + j)) j
  around : ∀ x, x < f.fat * 512 ∨ f.root * 512 ≤ x → image' x = image x

theorem fatSet_stored {f : RntpFat} (accepted : Accepted f) {image image' : Memory} {c v : Nat}
    (set : fatSet f image c v = .ok image') : Stored f image image' c v := by
  by_cases fine : valid f c
  · have inside := accepted.entry_inside fine.2.1
    have table := accepted.table_inside
    have positive : 0 < f.fats := by
      rcases accepted.fats with one | two
      · omega
      · omega
    simp only [fatSet, if_pos fine] at set
    generalize at_eq : entryAt f.bits c = at_ at *
    have low : (f.fat + at_ / 512) * 512 + at_ % 512 = f.fat * 512 + at_ := by omega
    rw [rd_eq image (by omega)] at set
    simp only [ok_bind] at set
    have whole : loadLE image (f.fat * 512 + at_) 2 < 65536 := word_lt image _
    have start : copyStart f 0 = f.fat * 512 := by rw [copyStart, Nat.zero_mul, Nat.add_zero]
    have stop : copyStart f (0 + f.fats) = f.root * 512 := by rw [copyStart, Nat.zero_add, accepted.root]
    by_cases straddles : at_ % 512 = 511
    · have offset : (f.fat + at_ / 512 + 1) * 512 = f.fat * 512 + at_ + 1 := by omega
      have next : image ((f.fat + at_ / 512 + 1) * 512 + 0) = image (f.fat * 512 + at_ + 1) := by
        rw [Nat.add_zero, offset]
      rw [if_pos straddles, rd_eq image (by omega)] at set
      simp only [ok_bind, if_pos straddles, low, next, low_high] at set
      rw [← two_bytes, encode_bits _ _ _ whole] at set
      obtain ⟨copies, beyond⟩ := setCopies_ok inside _ _ _ _ set
      rw [start, stop] at beyond
      constructor
      · exact fine
      · intro j below
        have copy := copies 0 (by omega) (by omega) j below
        rw [start] at copy
        rw [at_eq, copy]
        exact replaced_straddling image f.fat _ j straddles
      · rw [at_eq]
        exact ⟨_, _, fun i copy => copies i (by omega) (by omega)⟩
      · exact beyond
    · have next : (f.fat + at_ / 512) * 512 + (at_ % 512 + 1) = f.fat * 512 + at_ + 1 := by omega
      rw [if_neg straddles] at set
      simp only [if_neg straddles, low, next, low_high] at set
      rw [← two_bytes, encode_bits _ _ _ whole] at set
      obtain ⟨copies, beyond⟩ := setCopies_ok inside _ _ _ _ set
      rw [start, stop] at beyond
      constructor
      · exact fine
      · intro j below
        have copy := copies 0 (by omega) (by omega) j below
        rw [start] at copy
        rw [at_eq, copy]
        exact replaced_within image _ f.fat _ j straddles
      · rw [at_eq]
        exact ⟨_, _, fun i copy => copies i (by omega) (by omega)⟩
      · exact beyond
  · rw [fatSet, if_neg fine] at set
    cases set

end Words

section Reading
variable {f : RntpFat}

theorem entries_apart (bits : Nat) {c d : Nat} (apart : d ≠ c) :
    entryAt bits d + 1 < entryAt bits c ∨ entryAt bits c + 1 < entryAt bits d ∨
      bits = 12 ∧ (c % 2 = 0 ∧ entryAt bits d = entryAt bits c + 1 ∧ d % 2 = 1 ∨
        c % 2 = 1 ∧ entryAt bits c = entryAt bits d + 1 ∧ d % 2 = 0) := by
  unfold entryAt
  by_cases twelve : bits = 12
  · rw [if_pos twelve, if_pos twelve]
    omega
  · rw [if_neg twelve, if_neg twelve]
    omega

theorem low_byte (w : Nat) : (UInt8.ofNat w).toNat = w % 256 := UInt8.toNat_ofNat'

theorem high_byte (w : Nat) : (UInt8.ofNat (w >>> 8)).toNat = w / 256 % 256 := by
  rw [UInt8.toNat_ofNat', Nat.shiftRight_eq_div_pow]

theorem upper_kept {low high : Nat} (next v : Nat) (_ : low < 256) (_ : high < 256) :
    (((low + 256 * high) / 4096 * 4096 + v % 4096) / 256 % 256 + 256 * next) / 16 =
      (high + 256 * next) / 16 := by
  omega

theorem lower_kept {low : Nat} (before high v : Nat) (_ : low < 256) :
    (before + 256 * (((low + 256 * high) % 16 + v % 4096 * 16) % 256)) % 4096 =
      (before + 256 * low) % 4096 := by
  omega

theorem Stored.same (accepted : Accepted f) {image image' : Memory} {c v : Nat}
    (stored : Stored f image image' c v) :
    tableEntry f.bits f.fat image' c = v % (if f.bits = 12 then 4096 else 65536) := by
  have inside := accepted.entry_inside stored.fine.2.1
  have word := word_lt image (f.fat * 512 + entryAt f.bits c)
  have low := congrArg UInt8.toNat (stored.first (entryAt f.bits c) (by omega))
  have high := congrArg UInt8.toNat (stored.first (entryAt f.bits c + 1) inside)
  unfold replaced at low high
  rw [if_pos rfl, low_byte] at low
  rw [if_neg (by omega), if_pos rfl, high_byte] at high
  rw [tableEntry_eq, two_bytes, Nat.add_assoc, low, high]
  generalize loadLE image (f.fat * 512 + entryAt f.bits c) 2 = w at *
  unfold encode
  rcases accepted.bits with bits | bits
  · rw [if_pos bits, if_pos bits, if_pos bits]
    by_cases odd : c % 2 = 1
    · rw [if_pos odd, if_pos odd]
      omega
    · rw [if_neg odd, if_neg odd]
      omega
  · rw [if_neg (by omega), if_neg (by omega), if_neg (by omega)]
    omega

theorem Stored.other (accepted : Accepted f) {image image' : Memory} {c d v : Nat}
    (stored : Stored f image image' c v) (fine : valid f d) (apart : d ≠ c) :
    tableEntry f.bits f.fat image' d = tableEntry f.bits f.fat image d := by
  have inside := accepted.entry_inside stored.fine.2.1
  have inside' := accepted.entry_inside fine.2.1
  have low := stored.first (entryAt f.bits d) (by omega)
  have high := stored.first (entryAt f.bits d + 1) inside'
  unfold replaced at low high
  rw [tableEntry_eq, tableEntry_eq, two_bytes, two_bytes, Nat.add_assoc]
  rcases entries_apart f.bits apart with before | after | ⟨bits, ⟨even, next, odd⟩ | ⟨odd, next, even⟩⟩
  · rw [if_neg (by omega), if_neg (by omega)] at low high
    rw [low, high]
  · rw [if_neg (by omega), if_neg (by omega)] at low high
    rw [low, high]
  · -- the neighbour above keeps the upper half of the shared byte
    have word := two_bytes image (f.fat * 512 + entryAt f.bits c)
    have bound := (image (f.fat * 512 + entryAt f.bits c)).toNat_lt
    have bound' := (image (f.fat * 512 + entryAt f.bits c + 1)).toNat_lt
    rw [if_neg (by omega), if_pos next] at low
    rw [if_neg (by omega), if_neg (by omega)] at high
    rw [low, high, high_byte, if_pos bits, if_pos bits, if_pos odd, if_pos odd, encode, if_pos bits,
      if_neg (by omega),
      word, next]
    simp only [← Nat.add_assoc]
    exact upper_kept _ _ bound bound'
  · -- the neighbour below keeps the lower half
    have word := two_bytes image (f.fat * 512 + entryAt f.bits c)
    have bound := (image (f.fat * 512 + entryAt f.bits c)).toNat_lt
    rw [if_neg (by omega), if_neg (by omega)] at low
    rw [if_pos next.symm] at high
    rw [low, high, low_byte, if_pos bits, if_pos bits, if_neg (by omega), if_neg (by omega), encode,
      if_pos bits,
      if_pos odd, word, next]
    rw [next] at bound
    simp only [← Nat.add_assoc] at bound ⊢
    exact lower_kept _ _ _ bound

end Reading

/-- What `fat_get` returns of a number that the table holds. -/
def readBack (bits v : Nat) : Nat :=
  let value := v % (if bits = 12 then 4096 else 65536)
  if value ≥ if bits = 12 then 0xff8 else 0xfff8 then eoc else value

/-- On every volume that `fat_init` accepts, a store that succeeds is read back, changes no other
entry, puts the
same sectors into every copy of the table and touches no sector outside the copies. -/
theorem fatSet_exact {b : Memory} {capacity : Nat} {f : RntpFat} (made : fatInit b capacity = .ok f)
    {image image' : Memory} {c v : Nat} (set : fatSet f image c v = .ok image') :
    fatGet f image' c = .ok (readBack f.bits v) ∧
      (∀ d, d ≠ c → fatGet f image' d = fatGet f image d) ∧
      (∀ i, i < f.fats → ∀ s, s < f.fatSectors → ∀ j, j < 512 →
        image' ((f.fat + i * f.fatSectors + s) * 512 + j) =
          if touched (entryAt f.bits c) s then image' ((f.fat + s) * 512 + j)
          else image ((f.fat + i * f.fatSectors + s) * 512 + j)) ∧
      ∀ sector, sector < f.fat ∨ f.fat + f.fats * f.fatSectors ≤ sector → ∀ j, j < 512 →
        image' (sector * 512 + j) = image (sector * 512 + j) := by
  have accepted := fatInit_accepted made
  have stored := fatSet_stored accepted set
  constructor
  · rw [fatGet_eq accepted image' stored.fine, stored.same accepted, readBack]
  constructor
  · intro d apart
    by_cases fine : valid f d
    · rw [fatGet_eq accepted image' fine, fatGet_eq accepted image fine, stored.other accepted fine apart]
    · rw [fatGet, if_neg fine, fatGet, if_neg fine]
  constructor
  · intro i copy s inside j below
    obtain ⟨a, b, copies⟩ := stored.copies
    have positive : 0 < f.fats := by omega
    have here := copies i copy (s * 512 + j) (by omega)
    have first := copies 0 positive (s * 512 + j) (by omega)
    have place : copyStart f i + (s * 512 + j) = (f.fat + i * f.fatSectors + s) * 512 + j := by
      unfold copyStart
      omega
    have place' : copyStart f 0 + (s * 512 + j) = (f.fat + s) * 512 + j := by
      unfold copyStart
      omega
    have sector : (s * 512 + j) / 512 = s := by omega
    simp only [sectorsWith, sector, place, place'] at here first
    rw [here, first]
    by_cases low : s = entryAt f.bits c / 512
    · rw [if_pos low, if_pos (.inl low), if_pos low]
    · rw [if_neg low, if_neg low]
      by_cases high : entryAt f.bits c % 512 = 511 ∧ s = entryAt f.bits c / 512 + 1
      · rw [if_pos high, if_pos (.inr high), if_pos high]
      · rw [if_neg high, if_neg (by rintro (h | h); exacts [low h, high h])]
  · intro sector outside j below
    have root := accepted.root
    exact stored.around _ (by omega)

/-- A floppy of 400 sectors: two copies of a table of two sectors, 12 bits an entry. -/
def floppySector : Memory := fun x =>
  if x = 12 then 2 else if x = 13 then 1 else if x = 14 then 1 else if x = 16 then 2 else if x = 17 then 16
  else if x = 19 then 144 else if x = 20 then 1 else if x = 22 then 2 else if x = 510 then 0x55
  else if x = 511 then 0xaa else 0

def floppy : RntpFat :=
  { sectors := 400, fat := 1, root := 5, data := 6, clusters := 394, fatSectors := 2, rootEntries := 16
    spc := 1, fats := 2, bits := 12 }

/-- The entry of cluster 341 straddles the two sectors of the table. -/
def storedImage : Memory :=
  match fatSet floppy floppySector 341 0xabc with
  | .ok image => image
  | .error _ => floppySector

theorem fatSet_exact_straddling :
    fatInit floppySector 400 = .ok floppy ∧ fatGet floppy storedImage 341 = .ok 0xabc ∧
      fatGet floppy storedImage 340 = fatGet floppy floppySector 340 := by
  have made : fatInit floppySector 400 = .ok floppy := by decide +kernel
  have set : fatSet floppy floppySector 341 0xabc = .ok storedImage := rfl
  obtain ⟨same, other, -⟩ := fatSet_exact made set
  exact ⟨made, same, other 340 (by decide)⟩

end R2Apps.FatEntries
