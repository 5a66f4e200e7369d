import Mathlib.Logic.Function.Basic
import R2Apps.Rearranging

/-! `r2::sort` of `libc++r2/include/r2/algorithm.hpp`. An iterator is the number of its
element in the range, which has `n`; the elements are what the numbers are mapped to. A
read or a write of anything else than an element fails, and so does a loop that does not
end: what is proved is that none does. -/
namespace R2Apps.IntroSort
open Rearranging

section Code
variable {α : Type} (cmp : α → α → Bool) (n : Nat)

abbrev Elements (α : Type) := Nat → α

def read (f : Elements α) (i : Nat) : Option α := if i < n then some (f i) else none

def write (f : Elements α) (i : Nat) (x : α) : Option (Elements α) :=
  if i < n then some (Function.update f i x) else none

def swap (f : Elements α) (i j : Nat) : Option (Elements α) := do
  let tmp ← read n f i
  let f ← write n f i (← read n f j)
  write n f j tmp

/-- Elements greater than the key go up by one, and `j` comes down to its place. -/
def shift (first : Nat) (key : α) : Nat → Elements α → Option (Elements α × Nat)
  | 0, f => some (f, 0)
  | j + 1, f =>
      if j + 1 > first then do
        let x ← read n f j
        if cmp key x then shift first key j (← write n f (j + 1) x) else some (f, j + 1)
      else some (f, j + 1)

def insert (first : Nat) (f : Elements α) (i : Nat) : Option (Elements α) := do
  let key ← read n f i
  let (f, j) ← shift cmp n first key i f
  write n f j key

def insertionSort (first last : Nat) (f : Elements α) : Option (Elements α) :=
  (List.range' (first + 1) (last - (first + 1))).foldlM (insert cmp n first) f

/-- `child`, or the child after it if that is there and greater. -/
def largerChild (first count child : Nat) (f : Elements α) : Option Nat :=
  if child + 1 < count then do
    let one ← read n f (first + child)
    let other ← read n f (first + (child + 1))
    some (if cmp one other then child + 1 else child)
  else some child

def siftDown (first count : Nat) : Nat → Nat → Elements α → Option (Elements α)
  | 0, _, _ => none
  | fuel + 1, root, f => do
      let child := 2 * root + 1
      if child ≥ count then some f
      else
        let child ← largerChild cmp n first count child f
        let above ← read n f (first + root)
        let below ← read n f (first + child)
        if !cmp above below then some f
        else siftDown first count fuel child (← swap n f (first + root) (first + child))

def heapSort (first last : Nat) (f : Elements α) : Option (Elements α) := do
  let count := last - first
  let f ← (List.range (count / 2)).reverse.foldlM (fun f i => siftDown cmp n first count (count + 1) i f) f
  (List.range' 1 (count - 1)).reverse.foldlM
    (fun f end_ => do siftDown cmp n first end_ (count + 1) 0 (← swap n f first (first + end_))) f

/-- `while (cmp(*i, pivot)) ++i`, which must stop by itself. -/
def scanUp (pivot : α) (f : Elements α) : Nat → Nat → Option Nat
  | 0, _ => none
  | fuel + 1, i => do if cmp (← read n f i) pivot then scanUp pivot f fuel (i + 1) else some i

/-- `while (cmp(pivot, *j)) --j`; before the first element there is nothing to point at. -/
def scanDown (pivot : α) (f : Elements α) : Nat → Option Nat
  | 0 => do if cmp pivot (← read n f 0) then none else some 0
  | j + 1 => do if cmp pivot (← read n f (j + 1)) then scanDown pivot f j else some (j + 1)

def partitionLoop (pivot : α) : Nat → Nat → Nat → Elements α → Option (Elements α × Nat)
  | 0, _, _, _ => none
  | fuel + 1, i, j, f => do
      let i ← scanUp cmp n pivot f (n + 1) i
      let j ← scanDown cmp n pivot f j
      if i ≥ j then some (f, j) else partitionLoop pivot fuel (i + 1) (j - 1) (← swap n f i j)

/-- `if (cmp(*i, *j)) swap(*i, *j)` -/
def orderTwo (f : Elements α) (i j : Nat) : Option (Elements α) := do
  if cmp (← read n f i) (← read n f j) then swap n f i j else some f

/-- The first two of three elements are put in order, then the last two. -/
def medianOfThree (first mid hi : Nat) (f : Elements α) : Option (Elements α) := do
  let f ← orderTwo cmp n f mid first
  if cmp (← read n f hi) (← read n f mid) then orderTwo cmp n (← swap n f hi mid) mid first else some f

def partitionRange (first last : Nat) (f : Elements α) : Option (Elements α × Nat) := do
  let mid := first + (last - first) / 2
  let hi := last - 1
  let f ← medianOfThree cmp n first mid hi f
  let pivot ← read n f mid
  partitionLoop cmp n pivot (n + 1) first hi f

def smallRange : Nat := 16

/-- A turn of the loop goes on with the larger part and one less of the budget. -/
def introsort : Nat → Nat → Nat → Elements α → Option (Elements α)
  | 0, first, last, f =>
      if last - first > smallRange then heapSort cmp n first last f else insertionSort cmp n first last f
  | budget + 1, first, last, f =>
      if last - first > smallRange then do
        let (f, split) ← partitionRange cmp n first last f
        if split - first < last - (split + 1) then
          introsort budget (split + 1) last (← introsort budget first (split + 1) f)
        else introsort budget first (split + 1) (← introsort budget (split + 1) last f)
      else insertionSort cmp n first last f

/-- How often the number is halved before it is one. -/
def halvings : Nat → Nat → Nat
  | 0, _ => 0
  | fuel + 1, v => if v > 1 then halvings fuel (v / 2) + 1 else 0

/-- `sort` of all `n` elements. -/
def sort (f : Elements α) : Option (Elements α) :=
  if n < 2 then some f else introsort cmp n (2 * halvings n n) 0 n f

end Code

section Access
variable {α : Type} {n : Nat} {f : Elements α}

theorem read_inside {i : Nat} (inside : i < n) : read n f i = some (f i) := if_pos inside

theorem write_inside {i : Nat} (inside : i < n) (x : α) : write n f i x = some (Function.update f i x) :=
  if_pos inside

theorem swap_inside {i j : Nat} (one : i < n) (other : j < n) : swap n f i j = some (f ∘ Equiv.swap i j) := by
  simp only [swap, read_inside one, read_inside other, write_inside one, write_inside other,
    Option.bind_eq_bind,
    Option.bind_some, Option.some.injEq]
  funext k
  rw [Function.comp_apply]
  by_cases second : k = j
  · rw [second, Function.update_self, Equiv.swap_apply_right]
  · rw [Function.update_of_ne second]
    by_cases first : k = i
    · rw [first, Function.update_self, Equiv.swap_apply_left]
    · rw [Function.update_of_ne first, Equiv.swap_apply_of_ne_of_ne first second]

end Access

/-- What the comparison says of two elements, as an order. -/
abbrev less {α : Type} (cmp : α → α → Bool) (x y : α) : Prop := cmp x y = true

section Insertion
variable {α : Type} {cmp : α → α → Bool} {n : Nat}

/-- While the key is on its way its place is a hole: without it the part is sorted, and
what is above it is not less than the key. -/
structure Hole (cmp : α → α → Bool) (first i j : Nat) (key : α) (h : Elements α) : Prop where
  others : ∀ a b, first ≤ a → a < b → b ≤ i → a ≠ j → b ≠ j → ¬less cmp (h b) (h a)
  above : ∀ k, j < k → k ≤ i → ¬less cmp (h k) key

theorem hole_filled {first i j : Nat} {key : α} {h : Elements α} (hole : Hole cmp first i j key h)
    (here : h j = key)
    (below : ∀ a, first ≤ a → a < j → ¬less cmp key (h a)) : Sorted (less cmp) first (i + 1) h := by
  intro a b low between high
  by_cases keyBelow : a = j
  · rw [keyBelow, here]
    exact hole.above b (keyBelow ▸ between) (Nat.le_of_lt_succ high)
  · by_cases keyAbove : b = j
    · rw [keyAbove, here]
      exact below a low (keyAbove ▸ between)
    · exact hole.others a b low between (Nat.le_of_lt_succ high) keyBelow keyAbove

theorem update_lower (f : Elements α) (j : Nat) (key : α) :
    Function.update (Function.update f (j + 1) (f j)) j key =
      Function.update f (j + 1) key ∘ Equiv.swap (j + 1) j := by
  funext k
  rw [Function.comp_apply]
  by_cases lower : k = j
  · rw [lower, Function.update_self, Equiv.swap_apply_right, Function.update_self]
  · rw [Function.update_of_ne lower]
    by_cases upper : k = j + 1
    · rw [upper, Function.update_self, Equiv.swap_apply_left, Function.update_of_ne (by omega)]
    · rw [Function.update_of_ne upper, Equiv.swap_apply_of_ne_of_ne upper lower, Function.update_of_ne upper]

variable [IsStrictWeakOrder α (less cmp)]

theorem not_less {x y : α} (less_ : less cmp x y) : ¬less cmp y x := fun back =>
  irrefl_of (less cmp) x (trans_of (less cmp) less_ back)

theorem hole_lower {first i j : Nat} {key : α} {f : Elements α} (low : first ≤ j) (high : j + 1 ≤ i)
    (greater : less cmp key (f j)) (hole : Hole cmp first i (j + 1) key (Function.update f (j + 1) key)) :
    Hole cmp first i j key (Function.update (Function.update f (j + 1) (f j)) j key) := by
  have same (k : Nat) (other : k ≠ j + 1) : Function.update f (j + 1) key k = f k :=
    Function.update_of_ne other _ _
  have moved : Function.update (Function.update f (j + 1) (f j)) j key (j + 1) = f j := by
    rw [Function.update_of_ne (by omega), Function.update_self]
  have kept (k : Nat) (one : k ≠ j) (other : k ≠ j + 1) :
      Function.update (Function.update f (j + 1) (f j)) j key k = f k := by
    rw [Function.update_of_ne one, Function.update_of_ne other]
  constructor
  · intro a b above between below notA notB
    by_cases upperA : a = j + 1
    · have := hole.others j b low (by omega) below (by omega) (by omega)
      rw [same j (by omega), same b (by omega)] at this
      rwa [upperA, moved, kept b notB (by omega)]
    · by_cases upperB : b = j + 1
      · have := hole.others a j above (by omega) (by omega) upperA (by omega)
        rw [same a upperA, same j (by omega)] at this
        rwa [upperB, moved, kept a notA upperA]
      · have := hole.others a b above between below upperA upperB
        rw [same a upperA, same b upperB] at this
        rwa [kept a notA upperA, kept b notB upperB]
  · intro k above below
    by_cases upper : k = j + 1
    · rw [upper, moved]
      exact not_less greater
    · have := hole.above k (by omega) below
      rw [same k upper] at this
      rwa [kept k (by omega) upper]

theorem shift_spec {first i : Nat} (within : i < n) (key : α) (j : Nat) (f : Elements α)
    (low : first ≤ j) (high : j ≤ i)
    (hole : Hole cmp first i j key (Function.update f j key)) :
    ∃ g j', shift cmp n first key j f = some (g, j') ∧ j' < n ∧
      Rearranged first (i + 1) (Function.update f j key) (Function.update g j' key) ∧
      Sorted (less cmp) first (i + 1) (Function.update g j' key) := by
  induction j generalizing f with
  | zero =>
      refine ⟨f, 0, rfl, by omega, .refl _ _ _, hole_filled hole (Function.update_self _ _ _) ?_⟩
      intro a _ none_
      omega
  | succ j ih =>
      by_cases room : j + 1 > first
      · by_cases greater : cmp key (f j) = true
        · have step : shift cmp n first key (j + 1) f =
              shift cmp n first key j (Function.update f (j + 1) (f j)) := by
            simp only [shift, if_pos room, read_inside (by omega : j < n),
              write_inside (by omega : j + 1 < n),
              greater, Option.bind_eq_bind, Option.bind_some, if_true]
          obtain ⟨g, j', done, inside, moved, sorted⟩ :=
            ih (Function.update f (j + 1) (f j)) (by omega) (by omega)
              (hole_lower (by omega) high greater hole)
          rw [update_lower] at moved
          exact ⟨g, j', step.trans done, inside,
            (Rearranged.swap ⟨by omega, by omega⟩ ⟨by omega, by omega⟩).trans moved, sorted⟩
        · have stop : shift cmp n first key (j + 1) f = some (f, j + 1) := by
            simp only [shift, if_pos room, read_inside (by omega : j < n), Option.bind_eq_bind,
              Option.bind_some,
              if_neg greater]
          refine ⟨f, j + 1, stop, by omega, .refl _ _ _, hole_filled hole (Function.update_self _ _ _) ?_⟩
          -- the next below is not greater, so nothing below is
          intro a above below
          by_cases next : a = j
          · rw [next, Function.update_of_ne (by omega)]
            exact greater
          · have ordered := hole.others a j above (by omega) (by omega) (by omega) (by omega)
            rw [Function.update_of_ne (by omega : j ≠ j + 1)] at ordered
            exact not_lt_trans (less cmp) ordered greater
      · have stop : shift cmp n first key (j + 1) f = some (f, j + 1) := by
          simp only [shift, if_neg room]
        refine ⟨f, j + 1, stop, by omega, .refl _ _ _, hole_filled hole (Function.update_self _ _ _) ?_⟩
        intro a above below
        omega

theorem insert_spec {first i : Nat} (low : first ≤ i) (within : i < n) {f : Elements α}
    (sorted : Sorted (less cmp) first i f) :
    ∃ g, insert cmp n first f i = some g ∧ Rearranged first (i + 1) f g ∧
      Sorted (less cmp) first (i + 1) g := by
  have itself : Function.update f i (f i) = f := Function.update_eq_self i f
  have hole : Hole cmp first i i (f i) (Function.update f i (f i)) := by
    rw [itself]
    refine ⟨?_, fun k above below => by omega⟩
    intro a b above between below _ notB
    exact sorted a b above between (by omega)
  obtain ⟨g, j, done, inside, moved, sorted'⟩ := shift_spec within (f i) i f low (Nat.le_refl i) hole
  rw [itself] at moved
  refine ⟨Function.update g j (f i), ?_, moved, sorted'⟩
  simp only [insert, read_inside within, Option.bind_eq_bind, Option.bind_some, done, write_inside inside]

theorem insertions_spec (cmp : α → α → Bool) [IsStrictWeakOrder α (less cmp)] {first : Nat}
    (count : Nat) (within : first + 1 + count ≤ n) (f : Elements α) :
    ∃ g, (List.range' (first + 1) count).foldlM (insert cmp n first) f = some g ∧
      Rearranged first (first + 1 + count) f g ∧ Sorted (less cmp) first (first + 1 + count) g := by
  induction count with
  | zero => exact ⟨f, rfl, .refl _ _ _, sorted_short (Nat.le_refl _)⟩
  | succ count ih =>
      obtain ⟨g, done, moved, sorted⟩ := ih (by omega)
      obtain ⟨g', done', moved', sorted'⟩ :=
        insert_spec (by omega : first ≤ first + 1 + count) (by omega : first + 1 + count < n) sorted
      refine ⟨g', ?_, (moved.mono (Nat.le_refl _) (by omega)).trans moved', sorted'⟩
      rw [List.range'_concat, List.foldlM_append, done, Option.bind_eq_bind, Option.bind_some, Nat.one_mul,
        List.foldlM_cons, done', Option.bind_eq_bind, Option.bind_some]
      rfl

theorem insertionSort_spec {first last : Nat} (low : first ≤ last) (within : last ≤ n) (f : Elements α) :
    ∃ g, insertionSort cmp n first last f = some g ∧ Rearranged first last f g ∧
      Sorted (less cmp) first last g := by
  by_cases empty : first = last
  · refine ⟨f, ?_, .refl _ _ _, sorted_short (by omega)⟩
    rw [insertionSort, empty, Nat.sub_eq_zero_of_le (Nat.le_succ last)]
    rfl
  · have whole : first + 1 + (last - (first + 1)) = last := by omega
    have spec := insertions_spec cmp (last - (first + 1)) (by omega : first + 1 + (last - (first + 1)) ≤ n) f
    rwa [whole] at spec

end Insertion

end R2Apps.IntroSort
