import R2Apps.SortingHeaps

/-! The partition `introsort` recurses on, and `sort` as a whole. Neither scan of the
partition looks at where it is: each is stopped by an element, at first the median of
three and after a swap one of the two that were swapped. -/
namespace R2Apps.HoarePartition
open Rearranging IntroSort SortingHeaps
variable {α : Type} {cmp : α → α → Bool} {n first last : Nat}

theorem scanUp_spec {pivot : α} {f : Elements α} {stop : Nat} (inside : stop < n)
    (stops : ¬less cmp (f stop) pivot)
    (fuel i : Nat) (below : i ≤ stop) (enough : stop - i < fuel) :
    ∃ i', scanUp cmp n pivot f fuel i = some i' ∧ i ≤ i' ∧ i' ≤ stop ∧ ¬less cmp (f i') pivot ∧
      ∀ k, i ≤ k → k < i' → less cmp (f k) pivot := by
  induction fuel generalizing i with
  | zero => omega
  | succ fuel ih =>
      rw [scanUp, read_inside (by omega), Option.bind_eq_bind, Option.bind_some]
      by_cases goes : cmp (f i) pivot = true
      · have further : i ≠ stop := by
          rintro rfl
          exact stops goes
        obtain ⟨i', done, low, high, stops', passed⟩ := ih (i + 1) (by omega) (by omega)
        rw [if_pos goes]
        refine ⟨i', done, by omega, high, stops', ?_⟩
        intro k low' high'
        by_cases here : k = i
        · rwa [here]
        · exact passed k (by omega) high'
      · rw [if_neg goes]
        exact ⟨i, rfl, Nat.le_refl _, below, goes, fun k low high => by omega⟩

theorem scanDown_spec {pivot : α} {f : Elements α} {stop : Nat} (stops : ¬less cmp pivot (f stop)) (j : Nat)
    (inside : j < n) (above : stop ≤ j) :
    ∃ j', scanDown cmp n pivot f j = some j' ∧ stop ≤ j' ∧ j' ≤ j ∧ ¬less cmp pivot (f j') ∧
      ∀ k, j' < k → k ≤ j → less cmp pivot (f k) := by
  induction j with
  | zero =>
      have here : stop = 0 := Nat.le_zero.mp above
      rw [here] at stops
      refine ⟨0, ?_, by omega, Nat.le_refl _, stops, fun k low high => by omega⟩
      rw [scanDown, read_inside inside, Option.bind_eq_bind, Option.bind_some, if_neg stops]
  | succ j ih =>
      rw [scanDown, read_inside inside, Option.bind_eq_bind, Option.bind_some]
      by_cases goes : cmp pivot (f (j + 1)) = true
      · have further : stop ≠ j + 1 := by
          rintro rfl
          exact stops goes
        obtain ⟨j', done, low, high, stops', passed⟩ := ih (by omega) (by omega)
        rw [if_pos goes]
        refine ⟨j', done, low, by omega, stops', ?_⟩
        intro k low' high'
        by_cases here : k = j + 1
        · rwa [here]
        · exact passed k low' (by omega)
      · rw [if_neg goes]
        exact ⟨j + 1, rfl, above, Nat.le_refl _, goes, fun k low high => by omega⟩

/-- The part of the range that is looked at is `[i, j]`; what is left of it is not greater
than the pivot, what is right of it not less, and both scans are stopped. -/
structure Parted (cmp : α → α → Bool) (first hi : Nat) (pivot : α) (i j up down : Nat) (f : Elements α) :
    Prop where
  low : first ≤ i
  high : j ≤ hi
  left_ : ∀ k, first ≤ k → k < i → ¬less cmp pivot (f k)
  right : ∀ k, j < k → k ≤ hi → ¬less cmp (f k) pivot
  upper : i ≤ up ∧ up ≤ hi ∧ ¬less cmp (f up) pivot
  lower : first ≤ down ∧ down ≤ j ∧ ¬less cmp pivot (f down)

theorem parts_sorted {mid : Nat} {f g h : Elements α} (low : first ≤ mid) (high : mid ≤ last)
    (between : ∀ i j, first ≤ i → i < mid → mid ≤ j → j < last → ¬less cmp (f j) (f i))
    (left_ : Rearranged first mid f g ∧ Sorted (less cmp) first mid g)
    (right : Rearranged mid last g h ∧ Sorted (less cmp) mid last h) :
    Rearranged first last f h ∧ Sorted (less cmp) first last h := by
  have still (k : Nat) (early : k < mid) : h k = g k := right.1.outside (Or.inl early)
  have before (k : Nat) (late : mid ≤ k) : g k = f k := left_.1.outside (Or.inr late)
  refine ⟨(left_.1.mono (Nat.le_refl _) high).trans (right.1.mono low (Nat.le_refl _)), ?_⟩
  apply sorted_join mid (sorted_congr (fun k _ early => still k early) left_.2) right.2
  apply between_kept _ _ between
  · intro p all k low' early
    rw [still k early]
    exact left_.1.inside all k low' early
  · intro p all k late high'
    exact right.1.inside (fun k late high => by rw [before k late]; exact all k late high) k late high'

theorem parts_sorted_back {mid : Nat} {f g h : Elements α} (low : first ≤ mid) (high : mid ≤ last)
    (between : ∀ i j, first ≤ i → i < mid → mid ≤ j → j < last → ¬less cmp (f j) (f i))
    (right : Rearranged mid last f g ∧ Sorted (less cmp) mid last g)
    (left_ : Rearranged first mid g h ∧ Sorted (less cmp) first mid h) :
    Rearranged first last f h ∧ Sorted (less cmp) first last h := by
  have still (k : Nat) (late : mid ≤ k) : h k = g k := left_.1.outside (Or.inr late)
  have before (k : Nat) (early : k < mid) : g k = f k := right.1.outside (Or.inl early)
  refine ⟨(right.1.mono low (Nat.le_refl _)).trans (left_.1.mono (Nat.le_refl _) high), ?_⟩
  apply sorted_join mid left_.2 (sorted_congr (fun k late _ => still k late) right.2)
  apply between_kept _ _ between
  · intro p all k low' early
    exact left_.1.inside (fun k low early => by rw [before k early]; exact all k low early) k low' early
  · intro p all k late high'
    rw [still k late]
    exact right.1.inside all k late high'

variable [IsStrictWeakOrder α (less cmp)]

theorem partitionLoop_spec {hi : Nat} (inside : hi < n) (pivot : α) (fuel i j up down : Nat) (f : Elements α)
    (enough : j + 1 - i < fuel) (parted : Parted cmp first hi pivot i j up down f) :
    ∃ g split, partitionLoop cmp n pivot fuel i j f = some (g, split) ∧ Rearranged first (hi + 1) f g ∧
      first ≤ split ∧ split ≤ j ∧ (split ≤ up ∨ split < j) ∧
        (∀ k, first ≤ k → k ≤ split → ¬less cmp pivot (g k)) ∧
      ∀ k, split < k → k ≤ hi → ¬less cmp (g k) pivot := by
  induction fuel generalizing i j up down f with
  | zero => omega
  | succ fuel ih =>
      obtain ⟨lowI, highJ, left_, right, ⟨upFrom, upTo, upStops⟩, ⟨downFrom, downTo, downStops⟩⟩ := parted
      obtain ⟨i', upDone, iLow, iHigh, iStops, iPassed⟩ :=
        scanUp_spec (by omega : up < n) upStops (n + 1) i upFrom (by omega)
      obtain ⟨j', downDone, jLow, jHigh, jStops, jPassed⟩ :=
        scanDown_spec downStops j (by omega : j < n) downTo
      have left' (k : Nat) (low : first ≤ k) (high : k < i') : ¬less cmp pivot (f k) := by
        by_cases early : k < i
        · exact left_ k low early
        · exact not_less (iPassed k (by omega) high)
      have right' (k : Nat) (low : j' < k) (high : k ≤ hi) : ¬less cmp (f k) pivot := by
        by_cases late : j < k
        · exact right k late high
        · exact not_less (jPassed k low (by omega))
      rw [partitionLoop, upDone, downDone]
      simp only [Option.bind_eq_bind, Option.bind_some]
      by_cases crossed : i' ≥ j'
      · rw [if_pos crossed]
        refine ⟨f, j', rfl, .refl _ _ _, by omega, jHigh, by omega, ?_, right'⟩
        intro k low high
        by_cases last_ : k = j'
        · rwa [last_]
        · exact left' k low (by omega)
      · rw [if_neg crossed, swap_inside (by omega) (by omega), Option.bind_some]
        have atI : (f ∘ Equiv.swap i' j') i' = f j' := by rw [Function.comp_apply, Equiv.swap_apply_left]
        have atJ : (f ∘ Equiv.swap i' j') j' = f i' := by rw [Function.comp_apply, Equiv.swap_apply_right]
        have kept (k : Nat) (one : k ≠ i') (other : k ≠ j') : (f ∘ Equiv.swap i' j') k = f k := by
          rw [Function.comp_apply, Equiv.swap_apply_of_ne_of_ne one other]
        have moved : Rearranged first (hi + 1) f (f ∘ Equiv.swap i' j') :=
          .swap ⟨by omega, by omega⟩ ⟨by omega, by omega⟩
        generalize f ∘ Equiv.swap i' j' = f' at *
        have parted' : Parted cmp first hi pivot (i' + 1) (j' - 1) j' i' f' := by
          refine ⟨by omega, by omega, ?_, ?_, ⟨by omega, by omega, ?_⟩, ⟨by omega, by omega, ?_⟩⟩
          · intro k low high
            by_cases last_ : k = i'
            · rwa [last_, atI]
            · rw [kept k last_ (by omega)]
              exact left' k low (by omega)
          · intro k low high
            by_cases first_ : k = j'
            · rwa [first_, atJ]
            · rw [kept k (by omega) first_]
              exact right' k (by omega) high
          · rwa [atJ]
          · rwa [atI]
        obtain ⟨g, split, done, moved', low, high, _, below, above⟩ :=
          ih (i' + 1) (j' - 1) j' i' f' (by omega) parted'
        exact ⟨g, split, done, moved.trans moved', low, by omega, Or.inr (by omega), below, above⟩

theorem orderTwo_spec (cmp : α → α → Bool) [IsStrictWeakOrder α (less cmp)] (f : Elements α)
    {i j : Nat} (one : i < n)
    (other : j < n) :
    ∃ g, orderTwo cmp n f i j = some g ∧ (g = f ∨ g = f ∘ Equiv.swap i j) ∧ ¬less cmp (g i) (g j) := by
  unfold orderTwo
  simp only [read_inside one, read_inside other, swap_inside one other, Option.bind_eq_bind, Option.bind_some]
  by_cases less_ : cmp (f i) (f j) = true
  · refine ⟨f ∘ Equiv.swap i j, by rw [if_pos less_], Or.inr rfl, ?_⟩
    rw [Function.comp_apply, Function.comp_apply, Equiv.swap_apply_left, Equiv.swap_apply_right]
    exact not_less less_
  · exact ⟨f, by rw [if_neg less_], Or.inl rfl, less_⟩

theorem medianOfThree_spec (cmp : α → α → Bool) [IsStrictWeakOrder α (less cmp)] (f : Elements α)
    {mid hi : Nat}
    (left_ : first < mid) (right : mid < hi) (inside : hi < n) :
    ∃ g, medianOfThree cmp n first mid hi f = some g ∧ Rearranged first (hi + 1) f g ∧
      ¬less cmp (g mid) (g first) ∧ ¬less cmp (g hi) (g mid) := by
  have swapped (f : Elements α) {i j : Nat} (one : first ≤ i ∧ i < hi + 1)
    (other : first ≤ j ∧ j < hi + 1) {g : Elements α}
      (either : g = f ∨ g = f ∘ Equiv.swap i j) : Rearranged first (hi + 1) f g := by
    rcases either with rfl | rfl
    · exact .refl _ _ _
    · exact .swap one other
  obtain ⟨g, done, either, ordered⟩ :=
    orderTwo_spec cmp f (by omega : mid < n) (by omega : first < n)
  have moved : Rearranged first (hi + 1) f g := swapped f ⟨by omega, by omega⟩ ⟨by omega, by omega⟩ either
  unfold medianOfThree
  simp only [done, read_inside inside, read_inside (by omega : mid < n),
    swap_inside inside (by omega : mid < n),
    Option.bind_eq_bind, Option.bind_some]
  by_cases less_ : cmp (g hi) (g mid) = true
  · have atMid : (g ∘ Equiv.swap hi mid) mid = g hi := by rw [Function.comp_apply, Equiv.swap_apply_right]
    have atHi : (g ∘ Equiv.swap hi mid) hi = g mid := by rw [Function.comp_apply, Equiv.swap_apply_left]
    have atFirst : (g ∘ Equiv.swap hi mid) first = g first := by
      rw [Function.comp_apply, Equiv.swap_apply_of_ne_of_ne (by omega) (by omega)]
    have moved' : Rearranged first (hi + 1) g (g ∘ Equiv.swap hi mid) :=
      .swap ⟨by omega, by omega⟩ ⟨by omega, by omega⟩
    generalize g ∘ Equiv.swap hi mid = g' at *
    obtain ⟨h, done', either', ordered'⟩ :=
      orderTwo_spec cmp g' (by omega : mid < n) (by omega : first < n)
    refine ⟨h, by rw [if_pos less_, done'], ?_, ordered', ?_⟩
    · exact moved.trans (moved'.trans (swapped g' ⟨by omega, by omega⟩ ⟨by omega, by omega⟩ either'))
    · rcases either' with rfl | rfl
      · rw [atMid, atHi]
        exact not_less less_
      · rw [Function.comp_apply, Function.comp_apply, Equiv.swap_apply_left, atFirst,
          Equiv.swap_apply_of_ne_of_ne (by omega) (by omega), atHi]
        exact ordered
  · exact ⟨g, by rw [if_neg less_], moved, ordered, less_⟩

theorem partitionRange_spec (cmp : α → α → Bool) [IsStrictWeakOrder α (less cmp)] (f : Elements α)
    (long : first + 2 < last)
    (within : last ≤ n) :
    ∃ g split, partitionRange cmp n first last f = some (g, split) ∧ Rearranged first last f g ∧
      first ≤ split ∧ split + 1 < last ∧
      ∀ i j, first ≤ i → i < split + 1 → split + 1 ≤ j → j < last → ¬less cmp (g j) (g i) := by
  have middle : first < first + (last - first) / 2 ∧ first + (last - first) / 2 < last - 1 := by omega
  have whole : last - 1 + 1 = last := by omega
  generalize ends : first + (last - first) / 2 = mid at middle
  obtain ⟨h, done, moved, ordered, ordered'⟩ :=
    medianOfThree_spec cmp f middle.1 middle.2 (by omega : last - 1 < n)
  have parted : Parted cmp first (last - 1) (h mid) first (last - 1) mid mid h :=
    ⟨Nat.le_refl _, Nat.le_refl _, fun k low high => by omega, fun k low high => by omega,
      ⟨by omega, by omega, irrefl_of (less cmp) _⟩, ⟨by omega, by omega, irrefl_of (less cmp) _⟩⟩
  obtain ⟨g, split, done', moved', low, high, shorter, below, above⟩ :=
    partitionLoop_spec (by omega : last - 1 < n) (h mid) (n + 1) first (last - 1) mid mid h (by omega) parted
  rw [whole] at moved moved'
  refine ⟨g, split, ?_, moved.trans moved', low, by omega, ?_⟩
  · unfold partitionRange
    dsimp only
    rw [ends, done]
    simp only [Option.bind_eq_bind, Option.bind_some, read_inside (by omega : mid < n), done']
  · intro i j lowI highI lowJ highJ
    exact not_lt_trans (less cmp) (below i lowI (by omega)) (above j (by omega) (by omega))

theorem introsort_spec (cmp : α → α → Bool) [IsStrictWeakOrder α (less cmp)] (budget : Nat) (f : Elements α)
    (ordered : first ≤ last) (within : last ≤ n) :
    ∃ g, introsort cmp n budget first last f = some g ∧ Rearranged first last f g ∧
      Sorted (less cmp) first last g := by
  induction budget generalizing first last f with
  | zero =>
      rw [introsort]
      by_cases large : last - first > smallRange
      · rw [if_pos large]
        exact heapSort_spec (by omega) within f
      · rw [if_neg large]
        exact insertionSort_spec ordered within f
  | succ budget ih =>
      rw [introsort]
      by_cases large : last - first > smallRange
      · have long : first + 2 < last := by
          unfold smallRange at large
          omega
        obtain ⟨g, split, done, moved, low, high, between⟩ := partitionRange_spec cmp f long within
        rw [if_pos large, done]
        simp only [Option.bind_eq_bind, Option.bind_some]
        by_cases smaller : split - first < last - (split + 1)
        · rw [if_pos smaller]
          obtain ⟨g', done', left_⟩ := ih g (by omega : first ≤ split + 1) (by omega)
          obtain ⟨g'', done'', right⟩ := ih g' (by omega : split + 1 ≤ last) within
          have sorted := parts_sorted (by omega) (by omega) between left_ right
          rw [done', Option.bind_some, done'']
          exact ⟨g'', rfl, moved.trans sorted.1, sorted.2⟩
        · rw [if_neg smaller]
          obtain ⟨g', done', right⟩ := ih g (by omega : split + 1 ≤ last) within
          obtain ⟨g'', done'', left_⟩ := ih g' (by omega : first ≤ split + 1) (by omega)
          have sorted := parts_sorted_back (by omega) (by omega) between right left_
          rw [done', Option.bind_some, done'']
          exact ⟨g'', rfl, moved.trans sorted.1, sorted.2⟩
      · rw [if_neg large]
        exact insertionSort_spec ordered within f

theorem sort_spec (cmp : α → α → Bool) [IsStrictWeakOrder α (less cmp)] (n : Nat) (f : Elements α) :
    ∃ g, sort cmp n f = some g ∧ Rearranged 0 n f g ∧ Sorted (less cmp) 0 n g := by
  by_cases short : n < 2
  · exact ⟨f, if_pos short, .refl 0 n f, sorted_short (by omega)⟩
  · obtain ⟨g, done, moved, sorted⟩ := introsort_spec cmp (2 * halvings n n) f (Nat.zero_le n) (Nat.le_refl n)
    refine ⟨g, ?_, moved, sorted⟩
    rw [sort, if_neg short, done]

/-- It ends, touches nothing but the elements, and leaves them rearranged and sorted. -/
theorem sort_sorts (cmp : α → α → Bool) [IsStrictWeakOrder α (less cmp)] (n : Nat) (f : Elements α) :
    ∃ g, sort cmp n f = some g ∧ ((List.range n).map g).Perm ((List.range n).map f) ∧
      ((List.range n).map g).Pairwise fun x y => ¬less cmp y x := by
  obtain ⟨g, done, moved, sorted⟩ := sort_spec cmp n f
  exact ⟨g, done, moved.perm (Nat.le_refl n), sorted_pairwise sorted⟩

theorem numbers_sorted :
    (∃ g, sort (fun x y : Nat => decide (x < y)) 20 (fun k => (7 * k) % 5) = some g ∧
      ((List.range 20).map g).Perm ((List.range 20).map fun k => (7 * k) % 5) ∧
      ((List.range 20).map g).Pairwise fun x y => ¬less (fun x y : Nat => decide (x < y)) y x) ∧ 0 < 20 :=
  have : IsStrictWeakOrder Nat (less fun x y : Nat => decide (x < y)) := by
    refine { irrefl := ?_, trans := ?_, incomp_trans := ?_ }
    · intro x
      simp
    · intro x y z
      simp only [less, decide_eq_true_eq]
      exact Nat.lt_trans
    · intro x y z
      simp only [less, decide_eq_true_eq]
      omega
  ⟨sort_sorts (fun x y : Nat => decide (x < y)) 20 fun k => (7 * k) % 5, by decide⟩

end R2Apps.HoarePartition
