import Mathlib.Data.Nat.Bitwise
import Mathlib.Order.Interval.Finset.Nat
import Mathlib.Tactic.Ring

/-! A flat byte memory and little-endian words in it. `loadLE` and `storeLE`
read and write `count` bytes; a store is invisible outside its own bytes, and
a load depends on its own bytes only. -/
namespace R2Apps.ByteMemory

abbrev Memory := Nat → UInt8

def writeByte (m : Memory) (address : Nat) (byte : UInt8) : Memory :=
  fun x => if x = address then byte else m x

def loadLE (m : Memory) : Nat → Nat → Nat
  | _, 0 => 0
  | address, count + 1 => (m address).toNat + 256 * loadLE m (address + 1) count

def storeLE (m : Memory) : Nat → Nat → Nat → Memory
  | _, 0, _ => m
  | address, count + 1, value =>
      storeLE (writeByte m address (UInt8.ofNat value)) (address + 1) count (value / 256)

/-- `memcpy` of `count` bytes: all reads come from the memory before the copy. -/
def copyBytes (m : Memory) (target source count : Nat) : Memory :=
  fun x => if target ≤ x ∧ x < target + count then m (source + (x - target)) else m x

theorem load_congr (m m' : Memory) (address count : Nat)
    (agree : ∀ x, address ≤ x → x < address + count → m' x = m x) :
    loadLE m' address count = loadLE m address count := by
  induction count generalizing address with
  | zero => rfl
  | succ count ih =>
      have head := agree address (by omega) (by omega)
      have tail := ih (address + 1) fun x lower upper => agree x (by omega) (by omega)
      simp only [loadLE, head, tail]

theorem store_outside (m : Memory) (address count value x : Nat)
    (outside : x < address ∨ address + count ≤ x) :
    storeLE m address count value x = m x := by
  induction count generalizing m address value with
  | zero => rfl
  | succ count ih =>
      rw [storeLE, ih _ _ _ (by omega)]
      have different : x ≠ address := by omega
      simp [writeByte, different]

theorem load_store_same (m : Memory) (address count value : Nat) :
    loadLE (storeLE m address count value) address count = value % 256 ^ count := by
  induction count generalizing m address value with
  | zero => simp [loadLE, Nat.mod_one]
  | succ count ih =>
      simp only [loadLE, storeLE]
      rw [ih, store_outside _ _ _ _ _ (by omega)]
      have byte : (UInt8.ofNat value).toNat = value % 256 := by simp
      simp only [writeByte, ↓reduceIte, byte]
      rw [Nat.pow_succ, Nat.mul_comm (256 ^ count) 256, Nat.mod_mul]

theorem load_store_apart (m : Memory) (target source width count value : Nat)
    (apart : source + count ≤ target ∨ target + width ≤ source) :
    loadLE (storeLE m target width value) source count = loadLE m source count := by
  apply load_congr
  intro x lower upper
  exact store_outside m target width value x (by omega)

theorem load_lt (m : Memory) (address count : Nat) : loadLE m address count < 256 ^ count := by
  induction count generalizing address with
  | zero => simp [loadLE]
  | succ count ih =>
      have tail := ih (address + 1)
      have head := (m address).toNat_lt
      simp only [loadLE, Nat.pow_succ]
      omega

/-! 64-bit words at addresses that are multiples of eight either coincide or
do not overlap, so a store is a point update of the word map. -/
section Words

abbrev wordSpan : Nat := 2 ^ 64

@[irreducible]
def load64 (m : Memory) (address : Nat) : Nat := loadLE m address 8

@[irreducible]
def store64 (m : Memory) (address value : Nat) : Memory := storeLE m address 8 value

theorem load64_lt (m : Memory) (address : Nat) : load64 m address < wordSpan := by
  have bound := load_lt m address 8
  simpa [load64, wordSpan] using bound

theorem load64_store64_same (m : Memory) (address value : Nat) (fits : value < wordSpan) :
    load64 (store64 m address value) address = value := by
  unfold load64 store64
  rw [load_store_same]
  exact Nat.mod_eq_of_lt (by simpa [wordSpan] using fits)

theorem load64_store64_other (m : Memory) (target source value : Nat)
    (targetAligned : target % 8 = 0) (sourceAligned : source % 8 = 0)
    (different : source ≠ target) :
    load64 (store64 m target value) source = load64 m source := by
  unfold load64 store64
  exact load_store_apart m target source 8 8 value (by omega)

theorem store64_outside (m : Memory) (address value x : Nat)
    (outside : x < address ∨ address + 8 ≤ x) : store64 m address value x = m x := by
  unfold store64
  exact store_outside m address 8 value x outside

theorem load64_congr (m m' : Memory) (address : Nat)
    (agree : ∀ x, address ≤ x → x < address + 8 → m' x = m x) :
    load64 m' address = load64 m address := by
  unfold load64
  exact load_congr m m' address 8 agree

end Words

/-! Ranges of addresses `(start, length)` that do not overlap. -/
section Ranges

theorem disjoint_ranges_cover (ranges : List (Nat × Nat))
    (apart : ranges.Pairwise fun i j => i.1 + i.2 ≤ j.1 ∨ j.1 + j.2 ≤ i.1) :
    ∃ cover : Finset Nat, (∀ x, x ∈ cover ↔ ∃ i ∈ ranges, i.1 ≤ x ∧ x < i.1 + i.2) ∧
      cover.card = (ranges.map Prod.snd).sum := by
  induction ranges with
  | nil => exact ⟨∅, by simp, rfl⟩
  | cons i rest ih =>
      obtain ⟨away, tail⟩ := List.pairwise_cons.mp apart
      obtain ⟨cover, covers, count⟩ := ih tail
      have disjoint : Disjoint (Finset.Ico i.1 (i.1 + i.2)) cover := by
        apply Finset.disjoint_left.mpr
        intro x first later
        obtain ⟨j, member, lower, upper⟩ := (covers x).mp later
        have bounds := Finset.mem_Ico.mp first
        have separate := away j member
        omega
      refine ⟨Finset.Ico i.1 (i.1 + i.2) ∪ cover, ?_, ?_⟩
      · intro x
        simp only [Finset.mem_union, Finset.mem_Ico, covers, List.mem_cons, exists_eq_or_imp]
      · rw [Finset.card_union_of_disjoint disjoint, Nat.card_Ico, count]
        simp only [List.map_cons, List.sum_cons]
        omega

theorem disjoint_ranges_sum (ranges : List (Nat × Nat)) (limit : Nat)
    (apart : ranges.Pairwise fun i j => i.1 + i.2 ≤ j.1 ∨ j.1 + j.2 ≤ i.1)
    (inside : ∀ i ∈ ranges, 0 < i.1 ∧ i.1 + i.2 ≤ limit) (positive : 0 < limit) :
    (ranges.map Prod.snd).sum < limit := by
  obtain ⟨cover, covers, count⟩ := disjoint_ranges_cover ranges apart
  have subset : cover ⊆ Finset.Ico 1 limit := by
    intro x member
    obtain ⟨i, found, lower, upper⟩ := (covers x).mp member
    have bounds := inside i found
    exact Finset.mem_Ico.mpr (by omega)
  have size := Finset.card_le_card subset
  rw [count, Nat.card_Ico] at size
  omega

theorem nodup_length_lt (nodes : List Nat) (limit : Nat) (unique : nodes.Nodup)
    (bounds : ∀ x ∈ nodes, 0 < x ∧ x < limit) (positive : 0 < limit) : nodes.length < limit := by
  have subset : nodes.toFinset ⊆ Finset.Ico 1 limit := by
    intro x member
    have bound := bounds x (List.mem_toFinset.mp member)
    exact Finset.mem_Ico.mpr (by omega)
  have size := Finset.card_le_card subset
  rw [List.toFinset_card_of_nodup unique, Nat.card_Ico] at size
  omega

end Ranges

/-! Masks of the form `~(2^k - 1)` on 64-bit words. -/
section Masks

theorem land_mask (x k : Nat) (fits : x < wordSpan) (small : k ≤ 64) :
    x &&& (wordSpan - 2 ^ k) = x - x % 2 ^ k := by
  have mask : wordSpan - 2 ^ k = 2 ^ k * (2 ^ (64 - k) - 1) := by
    have whole : wordSpan = 2 ^ k * 2 ^ (64 - k) := by
      rw [← Nat.pow_add, Nat.add_sub_of_le small]
    rw [whole, Nat.mul_sub, Nat.mul_one]
  have quotient : x / 2 ^ k < 2 ^ (64 - k) := by
    apply Nat.div_lt_of_lt_mul
    rw [← Nat.pow_add, Nat.add_sub_of_le small]
    exact fits
  apply Nat.eq_of_testBit_eq
  intro i
  rw [Nat.testBit_and, mask, Nat.testBit_two_pow_mul]
  have rounded : x - x % 2 ^ k = 2 ^ k * (x / 2 ^ k) := by
    have remainder := Nat.mod_add_div x (2 ^ k)
    omega
  rw [rounded, Nat.testBit_two_pow_mul, Nat.testBit_two_pow_sub_one, Nat.testBit_div_two_pow]
  by_cases low : i ≥ k
  · have position : i - k + k = i := by omega
    simp only [low, decide_true, Bool.true_and, position]
    by_cases high : i - k < 64 - k
    · simp [high]
    · have zero : x.testBit i = false := by
        apply Nat.testBit_lt_two_pow
        exact Nat.lt_of_lt_of_le fits (Nat.pow_le_pow_right (by omega) (by omega))
      simp [zero]
  · simp [low]

end Masks
end R2Apps.ByteMemory
