import Mathlib.Data.List.Nodup
import Mathlib.Logic.Equiv.Basic
import Mathlib.Order.Defs.Unbundled

/-! Values in numbered places, moved about inside a range of them, and what it is for a
range to be sorted by a strict weak order. -/
namespace R2Apps.Rearranging
universe u
variable {α : Type u} {lo hi : Nat} {f g h : Nat → α}

/-- `g` is `f` with the values of `[lo, hi)` in another order. -/
def Rearranged (lo hi : Nat) (f g : Nat → α) : Prop :=
  ∃ move : Equiv.Perm Nat, g = f ∘ move ∧ ∀ k, k < lo ∨ hi ≤ k → move k = k

namespace Rearranged

theorem refl (lo hi : Nat) (f : Nat → α) : Rearranged lo hi f f := ⟨Equiv.refl Nat, rfl, fun _ _ => rfl⟩

theorem trans (first : Rearranged lo hi f g) (second : Rearranged lo hi g h) : Rearranged lo hi f h := by
  obtain ⟨move, rfl, fixed⟩ := first
  obtain ⟨move', rfl, fixed'⟩ := second
  refine ⟨move'.trans move, rfl, ?_⟩
  intro k outside
  rw [Equiv.trans_apply, fixed' k outside, fixed k outside]

theorem mono {lo' hi' : Nat} (low : lo' ≤ lo) (high : hi ≤ hi') (moved : Rearranged lo hi f g) :
    Rearranged lo' hi' f g := by
  obtain ⟨move, same, fixed⟩ := moved
  refine ⟨move, same, fun k outside => fixed k ?_⟩
  omega

theorem swap {i j : Nat} (one : lo ≤ i ∧ i < hi) (other : lo ≤ j ∧ j < hi) :
    Rearranged lo hi f (f ∘ Equiv.swap i j) := by
  refine ⟨Equiv.swap i j, rfl, ?_⟩
  intro k outside
  exact Equiv.swap_apply_of_ne_of_ne (by omega) (by omega)

theorem outside (moved : Rearranged lo hi f g) {k : Nat} (away : k < lo ∨ hi ≤ k) : g k = f k := by
  obtain ⟨move, rfl, fixed⟩ := moved
  exact congrArg f (fixed k away)

theorem inside (moved : Rearranged lo hi f g) {p : α → Prop} (all : ∀ k, lo ≤ k → k < hi → p (f k)) :
    ∀ k, lo ≤ k → k < hi → p (g k) := by
  obtain ⟨move, rfl, fixed⟩ := moved
  intro k low high
  -- a place of the range gets its value from the range, for the others keep theirs
  have within : lo ≤ move k ∧ move k < hi := by
    by_contra away
    have stuck : move (move k) = move k := fixed _ (by omega)
    have here : move k = k := move.injective stuck
    omega
  exact all _ within.1 within.2

theorem perm (moved : Rearranged lo hi f g) {n : Nat} (within : hi ≤ n) :
    ((List.range n).map g).Perm ((List.range n).map f) := by
  obtain ⟨move, rfl, fixed⟩ := moved
  have below (k : Nat) : move k < n ↔ k < n := by
    constructor
    · intro small
      by_contra large
      rw [fixed k (by omega)] at small
      exact large small
    · intro small
      by_contra large
      have stuck : move (move k) = move k := fixed _ (by omega)
      rw [move.injective stuck] at large
      exact large small
  have places : ((List.range n).map move).Perm (List.range n) := by
    rw [List.perm_ext_iff_of_nodup (List.nodup_range.map move.injective) List.nodup_range]
    intro k
    rw [List.mem_map, List.mem_range]
    constructor
    · rintro ⟨i, member, rfl⟩
      exact (below i).mpr (List.mem_range.mp member)
    · intro small
      refine ⟨move.symm k, List.mem_range.mpr ((below _).mp ?_), move.apply_symm_apply k⟩
      rwa [move.apply_symm_apply]
  have mapped := places.map f
  rwa [List.map_map] at mapped

end Rearranged

section Order
variable {lt : α → α → Prop}

/-- No value of the range is less than an earlier one. -/
def Sorted (lt : α → α → Prop) (lo hi : Nat) (f : Nat → α) : Prop :=
  ∀ i j, lo ≤ i → i < j → j < hi → ¬lt (f j) (f i)

theorem not_lt_trans (lt : α → α → Prop) [IsStrictWeakOrder α lt] {a b c : α}
    (first : ¬lt b a) (second : ¬lt c b) : ¬lt c a := by
  intro back
  have apart : ¬lt a b := fun less => second (trans_of lt back less)
  have apart' : ¬lt b c := fun less => first (trans_of lt less back)
  exact (IsStrictWeakOrder.incomp_trans a b c ⟨apart, first⟩ ⟨apart', second⟩).2 back

theorem sorted_short (within : hi ≤ lo + 1) : Sorted lt lo hi f := by
  intro i j low less high
  omega

theorem sorted_congr (same : ∀ k, lo ≤ k → k < hi → g k = f k) (sorted : Sorted lt lo hi f) :
    Sorted lt lo hi g := by
  intro i j low less high
  rw [same i low (Nat.lt_trans less high), same j (Nat.le_trans low (Nat.le_of_lt less)) high]
  exact sorted i j low less high

theorem sorted_join (mid : Nat) (first : Sorted lt lo mid f) (second : Sorted lt mid hi f)
    (between : ∀ i j, lo ≤ i → i < mid → mid ≤ j → j < hi → ¬lt (f j) (f i)) : Sorted lt lo hi f := by
  intro i j low less high
  by_cases early : j < mid
  · exact first i j low less early
  · by_cases late : mid ≤ i
    · exact second i j late less high
    · exact between i j low (Nat.lt_of_not_le late) (Nat.le_of_not_lt early) high

theorem between_kept {mid : Nat}
    (first : ∀ p : α → Prop, (∀ k, lo ≤ k → k < mid → p (f k)) → ∀ k, lo ≤ k → k < mid → p (g k))
    (second : ∀ p : α → Prop, (∀ k, mid ≤ k → k < hi → p (f k)) → ∀ k, mid ≤ k → k < hi → p (g k))
    (between : ∀ i j, lo ≤ i → i < mid → mid ≤ j → j < hi → ¬lt (f j) (f i)) :
    ∀ i j, lo ≤ i → i < mid → mid ≤ j → j < hi → ¬lt (g j) (g i) := by
  intro i j low early late high
  apply first (fun x => ¬lt (g j) x) _ i low early
  intro i' low' early'
  apply second (fun y => ¬lt y (f i')) _ j late high
  intro j' late' high'
  exact between i' j' low' early' late' high'

theorem sorted_pairwise {n : Nat} (sorted : Sorted lt 0 n f) :
    ((List.range n).map f).Pairwise fun x y => ¬lt y x := by
  rw [List.pairwise_map]
  exact List.pairwise_lt_range.imp_of_mem fun {i j} _ member less =>
    sorted i j (Nat.zero_le i) less (List.mem_range.mp member)

end Order

end R2Apps.Rearranging
