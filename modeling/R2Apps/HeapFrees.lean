import R2Apps.HeapRuns

/-! Freeing more than once. `deallocate` takes a pointer for freed when the word in front
of its payload says so, and that word may by then be in the payload of a block it was
merged into. Nothing is written there but links, which never reach so far, until the
block is allocated again: a pointer freed twice is always seen. -/
namespace R2Apps.HeapFrees
open ByteMemory HeapArena HeapLayout HeapOperations HeapContracts HeapRuns

/-- The pointers without those that came before. -/
def withoutRepeats (seen : List Nat) : List Nat → List Nat
  | [] => []
  | p :: rest => if p ∈ seen then withoutRepeats seen rest else p :: withoutRepeats (p :: seen) rest

def deallocateAll (h : Heap) (ps : List Nat) : Heap := ps.foldl deallocate h

section Frees
variable {h : Heap} {live seen : List Nat} {used : List Block} {freed : List Nat}

theorem freed_perm {used' : List Block} (before : Freed h used freed) (perm : used.Perm used') :
    Freed h used' freed := by
  obtain ⟨L, listed, sound, same, marks⟩ := before
  exact ⟨L, listed, sound, same.trans perm, marks⟩

theorem deallocate_again (before : Freed h used freed) {p : Nat} (again : p = 0 ∨ blockOf p ∈ freed) :
    deallocate h p = h := by
  obtain ⟨L, listed, _, _, marks⟩ := before
  by_cases null : p = 0
  · rw [deallocate, if_pos null]
  · have marked := marks _ (again.resolve_left null)
    rw [deallocate, if_neg null]
    exact if_pos marked.flagged

/-- Frees since a state in which these pointers are held. -/
structure Freeing (h : Heap) (live seen : List Nat) : Prop where
  blocks : ∃ used freed, Freed h used freed ∧ (used.map fun b => payloadOf b.addr).Perm live ∧
    ∀ p ∈ seen, p = 0 ∨ blockOf p ∈ freed

theorem freeing_again (freeing : Freeing h live seen) {p : Nat} (again : p ∈ seen) : deallocate h p = h := by
  obtain ⟨used, freed, before, _, marks⟩ := freeing.blocks
  exact deallocate_again before (marks p again)

theorem freeing_null (freeing : Freeing h live seen) : Freeing (deallocate h 0) live (0 :: seen) := by
  obtain ⟨used, freed, before, pointers, marks⟩ := freeing.blocks
  rw [deallocate_again before (Or.inl rfl)]
  refine ⟨used, freed, before, pointers, ?_⟩
  intro p member
  rcases List.mem_cons.mp member with null | old
  · exact Or.inl null
  · exact marks p old

theorem freeing_held (freeing : Freeing h live seen) {p : Nat} (held : p ∈ live) :
    Freeing (deallocate h p) (live.erase p) (p :: seen) := by
  obtain ⟨used, freed, before, pointers, marks⟩ := freeing.blocks
  obtain ⟨b, others, pointer, alive, perm, rest⟩ := holds_pointer ⟨freed_alive before, pointers⟩ held
  obtain ⟨after, _, _⟩ := deallocate_freed (freed_perm before perm) (alive_ready alive)
  have header : blockOf p = b.addr := by
    rw [pointer, blockOf, headerSize, Nat.add_sub_cancel]
  subst pointer
  refine ⟨others, b.addr :: freed, after, rest, ?_⟩
  intro q member
  rcases List.mem_cons.mp member with same | old
  · right
    rw [same, header]
    exact List.mem_cons_self
  · rcases marks q old with null | marked
    · exact Or.inl null
    · exact Or.inr (List.mem_cons_of_mem _ marked)

theorem freeing_run (freeing : Freeing h live seen) (ps : List Nat)
    (known : ∀ p ∈ ps, p = 0 ∨ p ∈ live ∨ p ∈ seen) :
    deallocateAll h ps = deallocateAll h (withoutRepeats seen ps) := by
  induction ps generalizing h live seen with
  | nil => rfl
  | cons p rest ih =>
      have later : ∀ q ∈ rest, q = 0 ∨ q ∈ live ∨ q ∈ seen :=
        fun q member => known q (List.mem_cons_of_mem p member)
      rw [withoutRepeats]
      by_cases again : p ∈ seen
      · rw [if_pos again, deallocateAll, List.foldl_cons, freeing_again freeing again]
        exact ih freeing later
      · rw [if_neg again, deallocateAll, List.foldl_cons, deallocateAll, List.foldl_cons]
        by_cases null : p = 0
        · rw [null]
          apply ih (freeing_null freeing)
          intro q member
          rcases later q member with zero | held | old
          · exact Or.inl zero
          · exact Or.inr (Or.inl held)
          · exact Or.inr (Or.inr (List.mem_cons_of_mem _ old))
        · have held : p ∈ live := by
            rcases known p List.mem_cons_self with zero | held | old
            · exact absurd zero null
            · exact held
            · exact absurd old again
          apply ih (freeing_held freeing held)
          intro q member
          by_cases same : q = p
          · exact Or.inr (Or.inr (same ▸ List.mem_cons_self))
          · rcases later q member with zero | held' | old
            · exact Or.inl zero
            · exact Or.inr (Or.inl ((List.mem_erase_of_ne same).mpr held'))
            · exact Or.inr (Or.inr (List.mem_cons_of_mem _ old))

theorem reached_freeing (reached : Reached h live) : Freeing h live [] := by
  obtain ⟨used, holds⟩ := reached_holds reached
  exact ⟨used, [], alive_freed holds.1, holds.2, fun p none_ => absurd none_ List.not_mem_nil⟩

end Frees

/-- Frees of pointers the application holds, or of null, leave the same heap if every
pointer that was freed before is left out: the same bytes, list, regions and counters. -/
theorem repeated_frees_ignored {h : Heap} {live : List Nat} (reached : Reached h live) (ps : List Nat)
    (known : ∀ p ∈ ps, p = 0 ∨ p ∈ live) : deallocateAll h ps = deallocateAll h (withoutRepeats [] ps) := by
  apply freeing_run (reached_freeing reached)
  intro p member
  rcases known p member with null | held
  · exact Or.inl null
  · exact Or.inr (Or.inl held)

theorem freed_thrice :
    ∃ h q, allocate onePage blank 64 = some (h, q) ∧ q ≠ 0 ∧
      deallocateAll h [q, 0, q, q, 0] = deallocateAll h [q, 0] := by
  have first : (allocate onePage blank 64).map Prod.snd = some 4112 := by decide +kernel
  obtain ⟨⟨h, q⟩, called, pointer⟩ := Option.map_eq_some_iff.mp first
  simp only at pointer
  subst pointer
  have fits : Permitted [] (.allocate 64) := by
    unfold Permitted
    decide
  have reached : Reached h [4112] := .call (.start fun _ => 0) fits (onePage_honest blank) called
  exact ⟨h, 4112, called, by decide, repeated_frees_ignored reached [4112, 0, 4112, 4112, 0] (by simp)⟩

end R2Apps.HeapFrees
