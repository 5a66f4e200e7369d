import Mathlib.Data.List.Perm.Basic

/-! The books of one party for which numbered items are taken in: every item is
handed out, waits in a queue, is in hand at the moment, was thrown away or was
lost, and what is handed out leaves in the order of the numbers. -/
namespace R2Apps.Ledgers

variable {α : Type} {number : α → Nat}
variable {out waiting thrown lost assigned : List α} {x : α}

structure Ledger (number : α → Nat) (out waiting inHand thrown lost assigned : List α) : Prop where
  order : ((out ++ waiting ++ inHand).map number).Pairwise (· < ·)
  settled : (out ++ waiting ++ inHand ++ thrown ++ lost).Perm assigned

theorem Ledger.empty (number : α → Nat) : Ledger number [] [] [] [] [] [] where
  order := List.Pairwise.nil
  settled := List.Perm.nil

theorem Ledger.mem_assigned (book : Ledger number out waiting [] thrown lost assigned)
    (present : x ∈ out ∨ x ∈ waiting) : x ∈ assigned := by
  apply book.settled.subset
  simp only [List.append_nil, List.mem_append]
  tauto

/-- An item with a number above all earlier ones comes in. -/
theorem Ledger.assign [DecidableEq α] (book : Ledger number out waiting [] thrown lost assigned)
    (above : ∀ y ∈ assigned, number y < number x) :
    Ledger number out waiting [x] thrown lost (assigned ++ [x]) where
  order := by
    have earlier := book.order
    rw [List.append_nil] at earlier
    rw [List.map_append]
    apply List.pairwise_append.mpr
    refine ⟨earlier, List.pairwise_singleton _ _, ?_⟩
    intro a present b last
    obtain ⟨y, inside, rfl⟩ := List.mem_map.mp present
    obtain rfl : b = number x := by simpa using last
    exact above y (book.mem_assigned (by simpa using inside))
  settled := by
    apply List.perm_iff_count.mpr
    intro y
    have counts := List.perm_iff_count.mp book.settled y
    simp only [List.count_append, List.count_nil] at counts ⊢
    omega

theorem Ledger.queue (book : Ledger number out waiting [x] thrown lost assigned) :
    Ledger number out (waiting ++ [x]) [] thrown lost assigned where
  order := by simpa using book.order
  settled := by simpa using book.settled

theorem Ledger.lose [DecidableEq α] (book : Ledger number out waiting [x] thrown lost assigned) :
    Ledger number out waiting [] thrown (lost ++ [x]) assigned where
  order := by
    have kept : ((out ++ waiting ++ []).map number).Sublist ((out ++ waiting ++ [x]).map number) :=
      (List.Sublist.append_left (List.nil_sublist [x]) _).map _
    exact book.order.sublist kept
  settled := by
    apply List.perm_iff_count.mpr
    intro y
    have counts := List.perm_iff_count.mp book.settled y
    simp only [List.count_append, List.count_nil] at counts ⊢
    omega

theorem Ledger.handOut (book : Ledger number out [] [x] thrown lost assigned) :
    Ledger number (out ++ [x]) [] [] thrown lost assigned where
  order := by simpa using book.order
  settled := by simpa using book.settled

theorem Ledger.next (book : Ledger number out (x :: waiting) [] thrown lost assigned) :
    Ledger number (out ++ [x]) waiting [] thrown lost assigned where
  order := by simpa using book.order
  settled := by simpa using book.settled

theorem Ledger.throwAway [DecidableEq α] (book : Ledger number out waiting [] thrown lost assigned) :
    Ledger number out [] [] (thrown ++ waiting) lost assigned where
  order := by
    have kept : ((out ++ [] ++ []).map number).Sublist ((out ++ waiting ++ []).map number) := by
      simp
    exact book.order.sublist kept
  settled := by
    apply List.perm_iff_count.mpr
    intro y
    have counts := List.perm_iff_count.mp book.settled y
    simp only [List.count_append, List.count_nil] at counts ⊢
    omega

theorem Ledger.once (book : Ledger number out waiting [] thrown lost assigned) :
    (out.map number).Pairwise (· < ·) := by
  have first : (out.map number).Sublist ((out ++ waiting ++ []).map number) := by
    simp
  exact book.order.sublist first

end R2Apps.Ledgers
