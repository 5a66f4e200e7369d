import R2Apps.IntroSort

/-! The heap sort that `introsort` falls back on. The elements of a part that is to be
sorted are a heap: element `k` of it has the children `2 * k + 1` and `2 * k + 2`. -/
namespace R2Apps.SortingHeaps
open Rearranging IntroSort
variable {α : Type} {cmp : α → α → Bool} {n first : Nat}

def Child (c k : Nat) : Prop := c = 2 * k + 1 ∨ c = 2 * k + 2

/-- From `low` on, no element is less than its children. -/
def HeapFrom (cmp : α → α → Bool) (first count low : Nat) (h : Elements α) : Prop :=
  ∀ k c, low ≤ k → Child c k → c < count → ¬less cmp (h (first + k)) (h (first + c))

/-- The same but for one element, which may be too small for its place. -/
structure HeapBut (cmp : α → α → Bool) (first count low root : Nat) (h : Elements α) : Prop where
  others : ∀ k c, low ≤ k → k ≠ root → Child c k → c < count → ¬less cmp (h (first + k)) (h (first + c))
  around : ∀ p c, low ≤ p → Child root p → Child c root → c < count →
    ¬less cmp (h (first + p)) (h (first + c))

theorem child_chosen (cmp : α → α → Bool) [IsStrictWeakOrder α (less cmp)] (h : Elements α)
    {count root : Nat} (within : first + count ≤ n)
    (some_ : 2 * root + 1 < count) :
    ∃ child, Child child root ∧ child < count ∧
      (∀ c, Child c root → c < count → ¬less cmp (h (first + child)) (h (first + c))) ∧
      largerChild cmp n first count (2 * root + 1) h = some child := by
  unfold largerChild
  by_cases two : 2 * root + 1 + 1 < count
  · rw [if_pos two, read_inside (by omega : first + (2 * root + 1) < n),
      read_inside (by omega : first + (2 * root + 1 + 1) < n)]
    simp only [Option.bind_eq_bind, Option.bind_some]
    by_cases second : cmp (h (first + (2 * root + 1))) (h (first + (2 * root + 1 + 1))) = true
    · refine ⟨2 * root + 1 + 1, Or.inr rfl, two, ?_, by rw [if_pos second]⟩
      rintro c (rfl | rfl) _
      · exact not_less second
      · exact irrefl_of (less cmp) _
    · refine ⟨2 * root + 1, Or.inl rfl, some_, ?_, by rw [if_neg second]⟩
      rintro c (rfl | rfl) _
      · exact irrefl_of (less cmp) _
      · exact second
  · refine ⟨2 * root + 1, Or.inl rfl, some_, ?_, by rw [if_neg two]⟩
    rintro c (rfl | rfl) below
    · exact irrefl_of (less cmp) _
    · exact absurd below two

theorem swapped_apply (h : Elements α) (one other k : Nat) :
    (h ∘ Equiv.swap (first + one) (first + other)) (first + k) =
      h (first + (if k = one then other else if k = other then one else k)) := by
  rw [Function.comp_apply, Equiv.swap_apply_def]
  by_cases atOne : k = one
  · rw [if_pos atOne, if_pos (by rw [atOne])]
  · rw [if_neg atOne, if_neg (by omega)]
    by_cases atOther : k = other
    · rw [if_pos atOther, if_pos (by rw [atOther])]
    · rw [if_neg atOther, if_neg (by omega)]

theorem heapBut_lower {count low root child : Nat} {h : Elements α} (above : low ≤ root)
    (edge : Child child root)
    [IsStrictWeakOrder α (less cmp)] (inside : child < count)
      (smaller : less cmp (h (first + root)) (h (first + child)))
    (largest : ∀ c, Child c root → c < count → ¬less cmp (h (first + child)) (h (first + c)))
    (heap : HeapBut cmp first count low root h) :
    HeapBut cmp first count low child (h ∘ Equiv.swap (first + root) (first + child)) := by
  constructor
  · intro k c from_ other edge' below
    have under : c = 2 * k + 1 ∨ c = 2 * k + 2 := edge'
    have chosen : child = 2 * root + 1 ∨ child = 2 * root + 2 := edge
    rw [swapped_apply, swapped_apply]
    by_cases atRoot : k = root
    · -- the new root is the larger child
      rw [if_pos atRoot, if_neg (by omega : c ≠ root)]
      by_cases same : c = child
      · rw [if_pos same]
        exact not_less smaller
      · rw [if_neg same]
        exact largest c (atRoot ▸ edge') below
    · rw [if_neg atRoot, if_neg other]
      by_cases underK : c = root
      · rw [if_pos underK]
        exact heap.around k child from_ (underK ▸ edge') edge inside
      · rw [if_neg underK, if_neg (by omega : c ≠ child)]
        exact heap.others k c from_ atRoot edge' below
  · intro p c from_ edge' edge'' below
    have under : c = 2 * child + 1 ∨ c = 2 * child + 2 := edge''
    have chosen : child = 2 * root + 1 ∨ child = 2 * root + 2 := edge
    have over_ : child = 2 * p + 1 ∨ child = 2 * p + 2 := edge'
    have parent : p = root := by omega
    rw [swapped_apply, swapped_apply, if_pos parent, if_neg (by omega), if_neg (by omega)]
    exact heap.others child c (by omega) (by omega) edge'' below

variable [IsStrictWeakOrder α (less cmp)]

theorem siftDown_turn (cmp : α → α → Bool) [IsStrictWeakOrder α (less cmp)] {count root : Nat}
    (fuel : Nat) (h : Elements α) (within : first + count ≤ n) (some_ : 2 * root + 1 < count) :
    ∃ child, Child child root ∧ child < count ∧
      (∀ c, Child c root → c < count → ¬less cmp (h (first + child)) (h (first + c))) ∧
      siftDown cmp n first count (fuel + 1) root h =
        if cmp (h (first + root)) (h (first + child)) = true then
          siftDown cmp n first count fuel child (h ∘ Equiv.swap (first + root) (first + child))
        else some h := by
  obtain ⟨child, edge, inside, largest, chosen⟩ := child_chosen cmp h within some_
  refine ⟨child, edge, inside, largest, ?_⟩
  have place : root < count := by omega
  rw [siftDown, if_neg (by omega), chosen]
  simp only [Option.bind_eq_bind, Option.bind_some, read_inside (by omega : first + root < n),
    read_inside (by omega : first + child < n),
      swap_inside (by omega : first + root < n) (by omega : first + child < n)]
  cases cmp (h (first + root)) (h (first + child)) <;> rfl

theorem siftDown_spec {count low : Nat} (within : first + count ≤ n) (fuel root : Nat) (h : Elements α)
    (enough : count - root < fuel) (above : low ≤ root) (heap : HeapBut cmp first count low root h) :
    ∃ g, siftDown cmp n first count fuel root h = some g ∧ Rearranged first (first + count) h g ∧
      HeapFrom cmp first count low g := by
  induction fuel generalizing root h with
  | zero => omega
  | succ fuel ih =>
      by_cases leaf : 2 * root + 1 ≥ count
      · refine ⟨h, ?_, .refl _ _ _, ?_⟩
        · rw [siftDown]
          exact if_pos leaf
        · intro k c from_ edge below
          by_cases atRoot : k = root
          · have under : c = 2 * k + 1 ∨ c = 2 * k + 2 := edge
            omega
          · exact heap.others k c from_ atRoot edge below
      · obtain ⟨child, edge, inside, largest, turn⟩ :=
          siftDown_turn cmp fuel h within (Nat.lt_of_not_le leaf)
        have under : child = 2 * root + 1 ∨ child = 2 * root + 2 := edge
        rw [turn]
        by_cases smaller : cmp (h (first + root)) (h (first + child)) = true
        · rw [if_pos smaller]
          obtain ⟨g, done, moved, heap'⟩ := ih child _ (by omega) (by omega)
            (heapBut_lower above edge inside smaller largest heap)
          exact ⟨g, done, (Rearranged.swap ⟨by omega, by omega⟩ ⟨by omega, by omega⟩).trans moved, heap'⟩
        · rw [if_neg smaller]
          refine ⟨h, rfl, .refl _ _ _, ?_⟩
          intro k c from_ edge' below
          by_cases atRoot : k = root
          · -- not less than its larger child is not less than the other
            rw [atRoot] at edge' ⊢
            exact not_lt_trans (less cmp) (largest c edge' below) smaller
          · exact heap.others k c from_ atRoot edge' below

theorem build_spec {count : Nat} (within : first + count ≤ n) (fuel : Nat) (enough : count < fuel) (low : Nat)
    (h : Elements α) (heap : HeapFrom cmp first count low h) :
    ∃ g, (List.range low).reverse.foldlM (fun f i => siftDown cmp n first count fuel i f) h = some g ∧
      Rearranged first (first + count) h g ∧ HeapFrom cmp first count 0 g := by
  induction low generalizing h with
  | zero => exact ⟨h, rfl, .refl _ _ _, heap⟩
  | succ low ih =>
      have but : HeapBut cmp first count low low h := by
        constructor
        · intro k c from_ other edge below
          exact heap k c (by omega) edge below
        · intro p c from_ edge
          have over_ : low = 2 * p + 1 ∨ low = 2 * p + 2 := edge
          omega
      obtain ⟨g, done, moved, heap'⟩ := siftDown_spec within fuel low h (by omega) (Nat.le_refl low) but
      obtain ⟨g', done', moved', heap''⟩ := ih g heap'
      refine ⟨g', ?_, moved.trans moved', heap''⟩
      rw [List.range_succ, List.reverse_append, List.reverse_singleton, List.singleton_append,
        List.foldlM_cons, done,
        Option.bind_eq_bind, Option.bind_some, done']

theorem heap_top {count : Nat} {h : Elements α} (heap : HeapFrom cmp first count 0 h) (k : Nat)
    (below : k < count) :
    ¬less cmp (h first) (h (first + k)) := by
  induction k using Nat.strongRecOn with
  | ind k ih =>
      cases k with
      | zero => exact irrefl_of (less cmp) _
      | succ k =>
          have edge : Child (k + 1) (k / 2) := by
            unfold Child
            omega
          exact not_lt_trans (less cmp) (heap _ _ (Nat.zero_le _) edge below)
            (ih (k / 2) (by omega) (by omega))

theorem drain_spec {count : Nat} (within : first + count ≤ n) (fuel : Nat) (enough : count < fuel)
    (last : Nat)
    (h : Elements α) (inside : last < count) (heap : HeapFrom cmp first (last + 1) 0 h)
    (sorted : Sorted (less cmp) (first + last + 1) (first + count) h)
    (between : ∀ a b, first ≤ a → a < first + last + 1 → first + last + 1 ≤ b → b < first + count →
      ¬less cmp (h b) (h a)) :
    ∃ g, (List.range' 1 last).reverse.foldlM
        (fun f end_ => do siftDown cmp n first end_ fuel 0 (← swap n f first (first + end_))) h = some g ∧
      Rearranged first (first + count) h g ∧ Sorted (less cmp) first (first + count) g := by
  induction last generalizing h with
  | zero =>
    exact ⟨h, rfl, .refl _ _ _, sorted_join (first + 0 + 1) (sorted_short (Nat.le_refl _)) sorted between⟩
  | succ last ih =>
      -- the greatest of the heap goes to the end of it, and what was there to the top
      have swapped : swap n h first (first + (last + 1)) = some (h ∘ Equiv.swap first (first + (last + 1))) :=
        swap_inside (by omega) (by omega)
      have moved : Rearranged first (first + (last + 1) + 1) h (h ∘ Equiv.swap first (first + (last + 1))) :=
        .swap ⟨by omega, by omega⟩ ⟨by omega, by omega⟩
      have atEnd : (h ∘ Equiv.swap first (first + (last + 1))) (first + (last + 1)) = h first := by
        rw [Function.comp_apply, Equiv.swap_apply_right]
      have kept (k : Nat) (one : k ≠ first) (other : k ≠ first + (last + 1)) :
          (h ∘ Equiv.swap first (first + (last + 1))) k = h k := by
        rw [Function.comp_apply, Equiv.swap_apply_of_ne_of_ne one other]
      have top := heap_top heap
      generalize h ∘ Equiv.swap first (first + (last + 1)) = h' at swapped moved atEnd kept
      have but : HeapBut cmp first (last + 1) 0 0 h' := by
        constructor
        · intro k c from_ other edge below
          have under : c = 2 * k + 1 ∨ c = 2 * k + 2 := edge
          rw [kept _ (by omega) (by omega), kept _ (by omega) (by omega)]
          exact heap k c from_ edge (by omega)
        · intro p c from_ edge
          have over_ : 0 = 2 * p + 1 ∨ 0 = 2 * p + 2 := edge
          omega
      obtain ⟨g, done, moved', heap'⟩ :=
        siftDown_spec (by omega : first + (last + 1) ≤ n) fuel 0 h' (by omega) (Nat.le_refl 0) but
      have whole := moved.trans (moved'.mono (Nat.le_refl _) (by omega : _ ≤ first + (last + 1) + 1))
      have upper (k : Nat) (high : first + last + 1 ≤ k) : g k = h' k := moved'.outside (by omega)
      have atEnd' : g (first + last + 1) = h first := (upper _ (Nat.le_refl _)).trans atEnd
      have beyond (k : Nat) (high : first + last + 1 < k) : g k = h k :=
        (upper k (Nat.le_of_lt high)).trans (kept k (by omega) (by omega))
      have sorted' : Sorted (less cmp) (first + last + 1) (first + count) g := by
        apply sorted_join (first + (last + 1) + 1) (sorted_short (by omega))
        · exact sorted_congr (fun k low _ => beyond k (by omega)) sorted
        · intro i j low high above below
          rw [(by omega : i = first + last + 1), atEnd', beyond j (by omega)]
          exact between first j (Nat.le_refl _) (by omega) above below
      have between' : ∀ a b, first ≤ a → a < first + last + 1 → first + last + 1 ≤ b → b < first + count →
          ¬less cmp (g b) (g a) := by
        intro a b low high above below
        by_cases last_ : b = first + last + 1
        · rw [last_, atEnd']
          apply whole.inside (p := fun x => ¬less cmp (h first) x) _ a low (by omega)
          intro k low' high'
          have := top (k - first) (by omega)
          rwa [Nat.add_sub_cancel' low'] at this
        · rw [beyond b (by omega)]
          apply whole.inside (p := fun x => ¬less cmp (h b) x) _ a low (by omega)
          intro k low' high'
          exact between k b low' high' (by omega) below
      obtain ⟨g', done', moved'', sorted''⟩ := ih g (by omega) heap' sorted' between'
      refine ⟨g', ?_, (whole.mono (Nat.le_refl _) (by omega)).trans moved'', sorted''⟩
      rw [List.range'_concat, List.reverse_append, List.reverse_singleton, List.singleton_append,
        List.foldlM_cons,
        Nat.one_mul, Nat.add_comm 1 last]
      simp only [Option.bind_eq_bind] at done' ⊢
      rw [swapped, Option.bind_some, done, Option.bind_some, done']

theorem heapSort_spec {last : Nat} (some_ : first < last) (within : last ≤ n) (f : Elements α) :
    ∃ g, heapSort cmp n first last f = some g ∧ Rearranged first last f g ∧
      Sorted (less cmp) first last g := by
  have whole : first + (last - first) = last := by omega
  have leaves : HeapFrom cmp first (last - first) ((last - first) / 2) f := by
    intro k c from_ edge below
    have under : c = 2 * k + 1 ∨ c = 2 * k + 2 := edge
    omega
  obtain ⟨g, built, moved, heap⟩ :=
    build_spec (by omega : first + (last - first) ≤ n) (last - first + 1) (Nat.lt_succ_self _) _ f leaves
  have single : last - first - 1 + 1 = last - first := by omega
  obtain ⟨g', drained, moved', sorted⟩ :=
    drain_spec (by omega : first + (last - first) ≤ n) (last - first + 1) (Nat.lt_succ_self _)
      (last - first - 1) g (by omega)
      (by rwa [single]) (sorted_short (by omega)) (fun a b _ _ _ _ => by omega)
  rw [whole] at moved moved' sorted
  refine ⟨g', ?_, moved.trans moved', sorted⟩
  unfold heapSort
  dsimp only
  rw [built]
  exact drained

end R2Apps.SortingHeaps
