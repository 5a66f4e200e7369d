import R2Apps.ByteMemory

/-! Byte memories seen as numbered blocks of one size: big-endian numbers in a
frame, bytes pasted from one memory into another, and a bitmap that marks
blocks. A memory is determined by its blocks, and a paste of one block is a
point update of the block map. -/
namespace R2Apps.BlockImages
open R2Apps.ByteMemory

section BigEndian

def loadBE (m : Memory) (address : Nat) : Nat → Nat
  | 0 => 0
  | count + 1 => 256 * loadBE m address count + (m (address + count)).toNat

def storeBE (m : Memory) (address value : Nat) : Nat → Memory
  | 0 => m
  | count + 1 => storeBE (writeByte m (address + count) (UInt8.ofNat value)) address (value / 256) count

theorem loadBE_congr (m m' : Memory) (address address' count : Nat)
    (agree : ∀ i, i < count → m' (address' + i) = m (address + i)) :
    loadBE m' address' count = loadBE m address count := by
  induction count with
  | zero => rfl
  | succ count ih =>
      have last := agree count (by omega)
      have start := ih fun i below => agree i (by omega)
      simp only [loadBE, last, start]

theorem loadBE_lt (m : Memory) (address count : Nat) : loadBE m address count < 256 ^ count := by
  induction count with
  | zero => simp [loadBE]
  | succ count ih =>
      have byte := (m (address + count)).toNat_lt
      simp only [loadBE, Nat.pow_succ]
      omega

theorem storeBE_outside (m : Memory) (address value count x : Nat)
    (outside : x < address ∨ address + count ≤ x) : storeBE m address value count x = m x := by
  induction count generalizing m value with
  | zero => rfl
  | succ count ih =>
      rw [storeBE, ih _ _ (by omega)]
      have different : x ≠ address + count := by omega
      simp [writeByte, different]

theorem loadBE_storeBE (m : Memory) (address value count : Nat) :
    loadBE (storeBE m address value count) address count = value % 256 ^ count := by
  induction count generalizing m value with
  | zero => simp [loadBE, Nat.mod_one]
  | succ count ih =>
      simp only [loadBE, storeBE]
      rw [ih, storeBE_outside _ _ _ _ _ (by omega)]
      have byte : (UInt8.ofNat value).toNat = value % 256 := by simp
      simp only [writeByte, ↓reduceIte, byte]
      rw [Nat.pow_succ, Nat.mul_comm (256 ^ count) 256, Nat.mod_mul]
      omega

theorem loadBE_storeBE_apart (m : Memory) (target value width source count : Nat)
    (apart : source + count ≤ target ∨ target + width ≤ source) :
    loadBE (storeBE m target value width) source count = loadBE m source count := by
  apply loadBE_congr
  intro i below
  exact storeBE_outside m target value width _ (by omega)

end BigEndian

section Pasting

def paste (m : Memory) (target : Nat) (source : Memory) (offset count : Nat) : Memory :=
  fun x => if target ≤ x ∧ x < target + count then source (offset + (x - target)) else m x

theorem paste_inside (m source : Memory) (target offset count i : Nat) (inside : i < count) :
    paste m target source offset count (target + i) = source (offset + i) := by
  have reach : target ≤ target + i ∧ target + i < target + count := by omega
  simp only [paste, reach, and_self, if_true]
  congr 1
  omega

theorem paste_outside (m source : Memory) (target offset count x : Nat)
    (outside : x < target ∨ target + count ≤ x) :
    paste m target source offset count x = m x := by
  have away : ¬(target ≤ x ∧ x < target + count) := by omega
  simp only [paste, away, if_false]

end Pasting

section Blocks
variable {size : Nat}

/-- Block `i` of a memory; `window` is the same number of bytes at any address. -/
def window (size : Nat) (m : Memory) (address : Nat) : Fin size → UInt8 := fun j => m (address + j)

def block (size : Nat) (m : Memory) (i : Nat) : Fin size → UInt8 := window size m (i * size)

theorem window_congr {m m' : Memory} {address address' : Nat}
    (agree : ∀ j, j < size → m' (address' + j) = m (address + j)) :
    window size m' address' = window size m address := by
  funext j
  exact agree j j.isLt

theorem ext_of_blocks (size : Nat) (positive : 0 < size) {m m' : Memory}
    (same : ∀ i, block size m i = block size m' i) : m = m' := by
  funext x
  have position := congrFun (same (x / size)) ⟨x % size, Nat.mod_lt _ positive⟩
  have address : x / size * size + x % size = x := Nat.div_add_mod' x size
  simpa only [block, window, address] using position

theorem block_paste (m source : Memory) (i k offset : Nat) :
    block size (paste m (i * size) source offset size) k =
      if k = i then window size source offset else block size m k := by
  by_cases same : k = i
  · subst same
    rw [if_pos rfl]
    exact window_congr fun j below => paste_inside m source _ offset size j below
  · rw [if_neg same]
    apply window_congr
    intro j below
    apply paste_outside
    -- two different blocks are at least one block size apart
    rcases Nat.lt_or_gt_of_ne same with before | after
    · have gap : (k + 1) * size ≤ i * size := Nat.mul_le_mul_right size before
      rw [Nat.succ_mul] at gap
      omega
    · have gap : (i + 1) * size ≤ k * size := Nat.mul_le_mul_right size after
      rw [Nat.succ_mul] at gap
      omega

/-- A list of pastes, each of one block: the last paste of a block is the one seen. -/
def pasteAll {ι : Type} (size : Nat) (source : Memory) (target offset : ι → Nat) (m : Memory)
    (steps : List ι) : Memory :=
  steps.foldl (fun m i => paste m (target i * size) source (offset i) size) m

variable {ι : Type} (source : Memory) (target offset : ι → Nat)

theorem block_pasteAll_untouched (size : Nat) (m : Memory) (steps : List ι) (k : Nat)
    (untouched : ∀ i ∈ steps, target i ≠ k) :
    block size (pasteAll size source target offset m steps) k = block size m k := by
  induction steps generalizing m with
  | nil => rfl
  | cons i rest ih =>
      have away : k ≠ target i := fun same => untouched i (by simp) same.symm
      have tail := ih (paste m (target i * size) source (offset i) size)
        fun j member => untouched j (List.mem_cons_of_mem _ member)
      rw [block_paste, if_neg away] at tail
      exact tail

end Blocks

/-! One bit for each block, eight to a byte. -/
section Bitmaps

def bitOf (i : Nat) : UInt8 := UInt8.ofNat (2 ^ (i % 8))

def marked (bits : Memory) (i : Nat) : Prop := bits (i / 8) &&& bitOf i ≠ 0

instance (bits : Memory) (i : Nat) : Decidable (marked bits i) :=
  inferInstanceAs (Decidable (bits (i / 8) &&& bitOf i ≠ 0))

def mark (bits : Memory) (i : Nat) : Memory := writeByte bits (i / 8) (bits (i / 8) ||| bitOf i)

theorem bitOf_toNat (i : Nat) : (bitOf i).toNat = 2 ^ (i % 8) := by
  have small : i % 8 ≤ 7 := by omega
  have bound : 2 ^ (i % 8) ≤ 2 ^ 7 := Nat.pow_le_pow_right (by omega) small
  simp only [bitOf, UInt8.toNat_ofNat']
  exact Nat.mod_eq_of_lt (Nat.lt_of_le_of_lt bound (by decide))

theorem land_bitOf (byte : UInt8) (i : Nat) :
    byte &&& bitOf i ≠ 0 ↔ byte.toNat.testBit (i % 8) = true := by
  rw [ne_eq, ← UInt8.toNat_inj, UInt8.toNat_and, bitOf_toNat, Nat.and_two_pow]
  cases byte.toNat.testBit (i % 8) <;> simp

theorem marked_mark (bits : Memory) (i k : Nat) : marked (mark bits i) k ↔ k = i ∨ marked bits k := by
  simp only [marked, land_bitOf, mark, writeByte]
  by_cases row : k / 8 = i / 8
  · rw [if_pos row, ← row, UInt8.toNat_or, Nat.testBit_or, bitOf_toNat, Nat.testBit_two_pow,
      Bool.or_eq_true, decide_eq_true_eq]
    constructor
    · rintro (old | new)
      · exact Or.inr old
      · exact Or.inl (by omega)
    · rintro (same | old)
      · exact Or.inr (by omega)
      · exact Or.inl old
  · rw [if_neg row]
    constructor
    · exact Or.inr
    · rintro (same | old)
      · exact absurd (congrArg (· / 8) same) row
      · exact old

end Bitmaps
end R2Apps.BlockImages
