import R2Apps.HeapValidate

/-! Runs of the arena: any calls in any order by an application that passes
back pointers it holds, and its writes into its own payloads in between. -/
namespace R2Apps.HeapRuns
open ByteMemory HeapArena HeapLayout HeapOperations HeapCalls HeapGrowth HeapContracts HeapValidate

inductive Call where
  | init
  | allocate (size : Nat)
  | deallocate (ptr : Nat)
  | reallocate (ptr size : Nat)
  deriving DecidableEq

/-- One call; the second component is the pointer it returns, 0 for the `void` ones. -/
def perform (platform : Platform) (h : Heap) : Call → Option (Heap × Nat)
  | .init => some (init platform h, 0)
  | .allocate size => allocate platform h size
  | .deallocate ptr => some (deallocate h ptr, 0)
  | .reallocate ptr size => reallocate platform h ptr size

/-- The pointers the application holds after a call that returned `q`. -/
def liveAfter (live : List Nat) (q : Nat) : Call → List Nat
  | .init => live
  | .allocate _ => if q = 0 then live else q :: live
  | .deallocate ptr => live.erase ptr
  | .reallocate ptr size =>
      if ptr ≠ 0 ∧ size = 0 then live.erase ptr
      else if q = 0 then live else q :: live.erase ptr

/-- Sizes are 64-bit values, pointers passed back are null or held. -/
def Permitted (live : List Nat) : Call → Prop
  | .init => True
  | .allocate size => size < wordSpan
  | .deallocate ptr => ptr = 0 ∨ ptr ∈ live
  | .reallocate ptr size => (ptr = 0 ∨ ptr ∈ live) ∧ size < wordSpan

inductive Reached : Heap → List Nat → Prop where
  | start (m : Memory) : Reached { mem := m } []
  | call {platform : Platform} {h h' : Heap} {live : List Nat} {call : Call} {q : Nat} :
      Reached h live → Permitted live call → Honest platform h →
      perform platform h call = some (h', q) → Reached h' (liveAfter live q call)
  | write {h : Heap} {live : List Nat} {p : Nat} (i : Nat) (byte : UInt8) :
      Reached h live → p ∈ live → i < blockSize h p →
      Reached { h with mem := writeByte h.mem (p + i) byte } live

/-- The held pointers are the payloads of the blocks in use. -/
def Holds (h : Heap) (live : List Nat) (used : List Block) : Prop :=
  Alive h used ∧ (used.map fun b => payloadOf b.addr).Perm live

section Steps
variable {h : Heap} {live : List Nat} {platform : Platform}

theorem alive_ready {used : List Block} {b : Block} (alive : Alive h (b :: used)) :
    h.ready = true := by
  obtain ⟨L, listed, sound, perm⟩ := alive
  cases ready : h.ready with
  | true => rfl
  | false =>
      have regions := sound.arena.phys.regions
      rw [sound.unready ready] at regions
      rw [List.map_eq_nil_iff.mp regions] at perm
      exact absurd perm.symm.eq_nil (by simp)

theorem holds_pointer {used : List Block} (holds : Holds h live used) {p : Nat}
    (held : p ∈ live) :
    ∃ b others, p = b.addr + 16 ∧ Alive h (b :: others) ∧ used.Perm (b :: others) ∧
      (others.map fun b => payloadOf b.addr).Perm (live.erase p) := by
  obtain ⟨alive, pointers⟩ := holds
  obtain ⟨b, member, same⟩ := List.mem_map.mp (pointers.mem_iff.mpr held)
  obtain ⟨before, after, split⟩ := List.append_of_mem member
  have perm : used.Perm (b :: (before ++ after)) := split ▸ List.perm_middle
  refine ⟨b, before ++ after, same.symm, alive_perm alive perm, perm, ?_⟩
  have moved := (perm.map fun b => payloadOf b.addr).symm.trans
    (pointers.trans (List.perm_cons_erase held))
  rw [List.map_cons, same] at moved
  exact moved.cons_inv

theorem null_not_live {used : List Block} (holds : Holds h live used) : 0 ∉ live := by
  intro null
  obtain ⟨b, _, at_, _⟩ := holds_pointer holds null
  omega

theorem served_holds {used : List Block} (pointers : (used.map fun b => payloadOf b.addr).Perm live)
    {h' : Heap} {q size : Nat} (served : Served h' q size used) :
    ∃ used', Holds h' (if q = 0 then live else q :: live) used' := by
  rcases served with ⟨null, alive⟩ | ⟨b, pointer, _, alive⟩
  · rw [if_pos null]
    exact ⟨used, alive, pointers⟩
  · rw [if_neg (by omega), pointer]
    exact ⟨b :: used, alive, pointers.cons _⟩

theorem step_holds {used : List Block} (holds : Holds h live used) {call : Call}
    (permitted : Permitted live call) (honest : Honest platform h) :
    ∃ h' q used', perform platform h call = some (h', q) ∧
      Holds h' (liveAfter live q call) used' ∧ (call ≠ .deallocate 0 → h'.ready = true) := by
  have notNull := null_not_live holds
  cases call with
  | init =>
      obtain ⟨alive, _, ready⟩ := ensureReady_spec holds.1 honest
      have same : ensureReady platform h = init platform h := by
        simp only [ensureReady, init]
        split <;> rfl
      rw [same] at alive ready
      exact ⟨_, _, used, rfl, ⟨alive, holds.2⟩, fun _ => ready⟩
  | allocate size =>
      obtain ⟨h', q, called, ready, _, served⟩ := allocate_spec holds.1 honest permitted
      obtain ⟨used', holds'⟩ := served_holds holds.2 served
      exact ⟨h', q, used', called, holds', fun _ => ready⟩
  | deallocate ptr =>
      rcases permitted with null | held
      · subst null
        refine ⟨h, 0, used, by simp [perform, deallocate], ?_, fun other => absurd rfl other⟩
        rw [liveAfter, List.erase_of_not_mem notNull]
        exact holds
      · obtain ⟨b, others, pointer, alive, _, rest⟩ := holds_pointer holds held
        obtain ⟨after, _, ready⟩ := deallocate_spec alive (alive_ready alive)
        subst pointer
        exact ⟨_, _, others, rfl, ⟨after, rest⟩, fun _ => ready⟩
  | reallocate ptr size =>
      obtain ⟨known, fits⟩ := permitted
      rcases known with null | held
      · subst null
        obtain ⟨h', q, called, ready, _, served⟩ := allocate_spec holds.1 honest fits
        obtain ⟨used', holds'⟩ := served_holds holds.2 served
        refine ⟨h', q, used', ?_, ?_, fun _ => ready⟩
        · simpa [perform, reallocate] using called
        · simpa [liveAfter, List.erase_of_not_mem notNull] using holds'
      · obtain ⟨b, others, pointer, alive, perm, rest⟩ := holds_pointer holds held
        have ready := alive_ready alive
        have real : ptr ≠ 0 := by omega
        by_cases zero : size = 0
        · obtain ⟨after, _, still⟩ := deallocate_spec alive ready
          subst pointer
          refine ⟨_, 0, others, ?_, ⟨after, ?_⟩, fun _ => still⟩
          · simp [perform, reallocate, zero]
          · simpa [liveAfter, zero] using rest
        · obtain ⟨h', q, called, still, small, huge⟩ :=
            reallocate_spec alive ready honest (Nat.pos_of_ne_zero zero) fits
          rw [← pointer] at called
          have outcome : ∃ least kept, Resized h h' b others q least kept := by
            by_cases wraps : size ≤ wordSpan - 16
            · exact ⟨_, _, small wraps⟩
            · exact ⟨_, _, (huge (by omega)).2⟩
          obtain ⟨_, _, ⟨null, alive', _⟩ | ⟨b', pointer', _, alive', _⟩⟩ := outcome
          · refine ⟨h', q, b :: others, called, ⟨alive', ?_⟩, fun _ => still⟩
            simp only [liveAfter, zero, and_false, ↓reduceIte, null]
            exact (perm.map _).symm.trans holds.2
          · refine ⟨h', q, b' :: others, called, ⟨alive', ?_⟩, fun _ => still⟩
            have nonzero : ¬ q = 0 := by omega
            simp only [liveAfter, zero, and_false, ↓reduceIte, nonzero]
            rw [pointer']
            exact rest.cons _

theorem reached_holds (reached : Reached h live) : ∃ used, Holds h live used := by
  induction reached with
  | start m =>
      refine ⟨[], ⟨[], [], ⟨⟨⟨rfl, by simp, List.Pairwise.nil⟩, rfl, List.nodup_nil, by simp⟩,
        List.Perm.refl _, by simp, rfl, rfl, fun _ => rfl⟩, List.Perm.refl _⟩, List.Perm.refl _⟩
  | call _ permitted honest performed ih =>
      obtain ⟨used, holds⟩ := ih
      obtain ⟨h', q, used', same, after, _⟩ := step_holds holds permitted honest
      rw [performed] at same
      cases same
      exact ⟨used', after⟩
  | write i byte _ held inside ih =>
      obtain ⟨used, holds⟩ := ih
      obtain ⟨b, others, pointer, alive, perm, _⟩ := holds_pointer holds held
      refine ⟨used, alive_write holds.1 ?_, holds.2⟩
      intro x outside
      refine if_neg fun same => outside ⟨b, perm.mem_iff.mpr List.mem_cons_self, ?_⟩
      have size := (alive_block alive (b := b) (by simp)).2.2.2.2.2
      rw [pointer] at inside same
      simp only [blockSize, blockOf, headerSize, Nat.add_sub_cancel, size] at inside
      simp only [Nat.add_eq_zero_iff, OfNat.ofNat_ne_zero, and_false, ↓reduceIte] at inside
      simp only [payload, Block.stop]
      omega

end Steps

/-- After every call of every run: the blocks of each region tile it up to its
sentinel with matching boundary tags (`Placed`), no two neighbours are free
(`Calm`), the doubly linked list holds exactly the free blocks, and the counters
are those of the used blocks, which are the ones the application holds. So
`validate` says `Ok`; freeing null is the one call that does not set the arena up. -/
theorem every_call_keeps_arena_intact {h : Heap} {live : List Nat} {platform : Platform}
    {call : Call} (reached : Reached h live) (permitted : Permitted live call)
    (honest : Honest platform h) :
    ∃ h' q L listed, perform platform h call = some (h', q) ∧
      (L.map Prod.fst = h'.regions ∧ ∀ e ∈ L, Placed h'.mem e.1 e.2 ∧ Calm e.2) ∧
      DoublyLinked.Linked (linkNext h'.mem) (linkPrev h'.mem) 0 0 h'.freeList listed ∧
      listed.Nodup ∧ listed.Perm (freeIn (blocks L)) ∧
      h'.stats.usedBytes = ((usedIn (blocks L)).map Block.size).sum ∧
      h'.stats.liveAllocations = (usedIn (blocks L)).length ∧
      ((usedIn (blocks L)).map fun b => payloadOf b.addr).Perm (liveAfter live q call) ∧
      (call ≠ .deallocate 0 → validate h' = some (.ok, 0)) ∧
      (call = .deallocate 0 → h' = h) := by
  obtain ⟨used, holds⟩ := reached_holds reached
  obtain ⟨h', q, used', performed, ⟨⟨L, listed, sound, perm⟩, pointers⟩, ready⟩ :=
    step_holds holds permitted honest
  refine ⟨h', q, L, listed, performed, ⟨sound.arena.phys.regions, ?_⟩, sound.arena.links,
    sound.arena.unique, sound.exactly, sound.usedBytes, sound.liveAllocations,
    (perm.map _).trans pointers, fun other => validate_sound sound (ready other), ?_⟩
  · intro e inside
    exact ⟨sound.arena.phys.placed e inside, sound.calm e inside⟩
  · intro null
    rw [null] at performed
    simp only [perform, deallocate, ↓reduceIte, Option.some.injEq, Prod.mk.injEq] at performed
    exact performed.1.symm

/-! An application with one page of heap and no way to get more. -/

def onePage : Platform := ⟨(4096, 4096), none⟩

def blank : Heap := { mem := fun _ => 0 }

theorem onePage_honest (h : Heap) : Honest onePage h :=
  ⟨fun _ => Or.inr ⟨by decide, by simp⟩, fun _ _ _ more _ => absurd more (by simp [onePage])⟩

theorem first_allocation_keeps_arena_intact :
    ∃ h' q, perform onePage blank (.allocate 64) = some (h', q) ∧ validate h' = some (.ok, 0) := by
  have fits : Permitted [] (.allocate 64) := show 64 < wordSpan by decide
  obtain ⟨h', q, _, _, performed, _, _, _, _, _, _, _, valid, _⟩ :=
    every_call_keeps_arena_intact (Reached.start fun _ => 0) fits (onePage_honest blank)
  exact ⟨h', q, performed, valid (by decide)⟩

/-! What a caller of `allocate` and `reallocate` relies on. -/

/-- The block at `q` is aligned, inside one region, of at least `size` bytes and
clear of the blocks at `others`, headers included. -/
structure Usable (h : Heap) (q size : Nat) (others : List Nat) : Prop where
  aligned : q % 16 = 0
  inside : ∃ r ∈ h.regions, r.base ≤ blockOf q ∧ q + blockSize h q ≤ r.base + r.size
  large : size ≤ blockSize h q
  apart : ∀ p ∈ others, p + blockSize h p ≤ blockOf q ∨ q + blockSize h q ≤ blockOf p

/-- The blocks at `live` keep their sizes and their bytes. -/
def Unchanged (h h' : Heap) (live : List Nat) : Prop :=
  ∀ p ∈ live, blockSize h' p = blockSize h p ∧
    ∀ i, i < blockSize h p → h'.mem (p + i) = h.mem (p + i)

def AllocateContract (h : Heap) (live : List Nat) (size : Nat) (h' : Heap) (q : Nat) : Prop :=
  Unchanged h h' live ∧ (q ≠ 0 → Usable h' q size live)

def ReallocateContract (h : Heap) (live : List Nat) (p size : Nat) (h' : Heap) (q : Nat) : Prop :=
  (q = 0 → Unchanged h h' live) ∧
    (q ≠ 0 → Unchanged h h' (live.erase p) ∧ Usable h' q size (live.erase p) ∧
      ∀ i, i < min (blockSize h p) size → h'.mem (q + i) = h.mem (p + i))

section Contracts
variable {h h' : Heap} {live : List Nat} {platform : Platform} {used : List Block}

theorem blockSize_alive (alive : Alive h used) {b : Block} (member : b ∈ used) :
    blockSize h (b.addr + 16) = b.size := by
  have size := (alive_block alive member).2.2.2.2.2
  have real : ¬ b.addr + 16 = 0 := by omega
  simp only [blockSize, real, ↓reduceIte, blockOf, headerSize, Nat.add_sub_cancel, size]

theorem unchanged_of_keeps {all all' : List Block} (alive : Alive h all) (after : Alive h' all')
    (kept : Keeps h.mem h'.mem used) (inBefore : ∀ b ∈ used, b ∈ all)
    (inAfter : ∀ b ∈ used, b ∈ all')
    (pointers : (used.map fun b => payloadOf b.addr).Perm live) : Unchanged h h' live := by
  intro p held
  obtain ⟨b, member, same⟩ := List.mem_map.mp (pointers.mem_iff.mpr held)
  subst same
  have before := blockSize_alive alive (inBefore b member)
  refine ⟨(blockSize_alive after (inAfter b member)).trans before.symm, ?_⟩
  intro i inside
  rw [show blockSize h (payloadOf b.addr) = b.size from before] at inside
  apply kept b member
  simp only [payload, Block.stop, payloadOf, headerSize]
  omega

theorem usable_of_alive {b : Block} (after : Alive h' (b :: used)) {size : Nat}
    (large : size ≤ b.size) (pointers : (used.map fun b => payloadOf b.addr).Perm live) :
    Usable h' (b.addr + 16) size live := by
  have size' := blockSize_alive after (b := b) (by simp)
  obtain ⟨_, aligned, _⟩ := alive_block after (b := b) (by simp)
  refine ⟨by omega, ?_, by omega, ?_⟩
  · obtain ⟨L, listed, sound, perm⟩ := after
    have found := (List.mem_filter.mp (perm.mem_iff.mpr List.mem_cons_self)).1
    obtain ⟨e, inside, member⟩ := List.mem_flatMap.mp found
    have bounds := placed_header_bounds (sound.arena.phys.placed e inside)
      (List.mem_append_left _ member)
    refine ⟨e.1, ?_, ?_, ?_⟩
    · rw [← sound.arena.phys.regions]
      exact List.mem_map_of_mem inside
    · exact bounds.1
    · rw [size']
      exact bounds.2
  · intro p held
    obtain ⟨c, member, same⟩ := List.mem_map.mp (pointers.mem_iff.mpr held)
    have apart := alive_apart after member
    have cSize := blockSize_alive after (b := c) (by simp [member])
    rw [← same, size']
    simp only [payloadOf, headerSize, blockOf, cSize, Block.stop, Nat.add_sub_cancel] at *
    omega

theorem allocate_meets_contract (holds : Holds h live used) (honest : Honest platform h)
    {size : Nat} (fits : size < wordSpan) :
    ∃ h' q, allocate platform h size = some (h', q) ∧ AllocateContract h live size h' q := by
  obtain ⟨h', q, called, _, kept, served⟩ := allocate_spec holds.1 honest fits
  refine ⟨h', q, called, ?_⟩
  rcases served with ⟨null, after⟩ | ⟨b, pointer, large, after⟩
  · exact ⟨unchanged_of_keeps holds.1 after kept (fun _ member => member) (fun _ member => member)
      holds.2, fun real => absurd null real⟩
  · refine ⟨unchanged_of_keeps holds.1 after kept (fun _ member => member)
      (fun _ member => List.mem_cons_of_mem b member) holds.2, ?_⟩
    intro _
    rw [pointer]
    exact usable_of_alive after large holds.2

theorem resized_meets_contract {b : Block} {others : List Block} {q size : Nat}
    (alive : Alive h (b :: others))
    (pointers : ((b :: others).map fun b => payloadOf b.addr).Perm live)
    (rest : (others.map fun b => payloadOf b.addr).Perm (live.erase (b.addr + 16)))
    (resized : Resized h h' b others q size (min b.size size)) :
    ReallocateContract h live (b.addr + 16) size h' q := by
  rcases resized with ⟨null, after, kept⟩ | ⟨b', pointer, large, after, kept, copied⟩
  · refine ⟨fun _ => ?_, fun real => absurd null real⟩
    exact unchanged_of_keeps alive after kept (fun _ member => member) (fun _ member => member)
      pointers
  · refine ⟨fun null => by omega, fun _ => ⟨?_, ?_, ?_⟩⟩
    · exact unchanged_of_keeps alive after kept (fun _ member => List.mem_cons_of_mem b member)
        (fun _ member => List.mem_cons_of_mem b' member) rest
    · rw [pointer]
      exact usable_of_alive after large rest
    · intro i below
      rw [blockSize_alive alive (by simp)] at below
      exact copied i below

theorem reallocate_meets_contract_iff (holds : Holds h live used) (honest : Honest platform h)
    {p size : Nat} (held : p ∈ live) (positive : 0 < size) (fits : size < wordSpan) :
    ∃ h' q, reallocate platform h p size = some (h', q) ∧
      (ReallocateContract h live p size h' q ↔ size ≤ wordSpan - 16) := by
  obtain ⟨b, others, pointer, alive, perm, rest⟩ := holds_pointer holds held
  subst pointer
  obtain ⟨h', q, called, _, small, huge⟩ :=
    reallocate_spec alive (alive_ready alive) honest positive fits
  refine ⟨h', q, called, ?_, ?_⟩
  · intro contract
    by_contra large
    obtain ⟨same, resized⟩ := huge (by omega)
    have real : q ≠ 0 := by omega
    have usable := (contract.2 real).2.1
    rcases resized with ⟨null, _⟩ | ⟨b', pointer, _, after, _⟩
    · exact real null
    · have size' := blockSize_alive after (b := b') (by simp)
      have stop := (alive_block after (b := b') (by simp)).2.2.2.2.1
      have promised := usable.large
      rw [pointer, size'] at promised
      simp only [Block.stop] at stop
      omega
  · intro rounds
    exact resized_meets_contract alive ((perm.map _).symm.trans holds.2) rest (small rounds)

end Contracts

/-- In every reachable state `allocate` meets its contract at every 64-bit size,
and `reallocate` of a held pointer does exactly up to 2^64 - 16. -/
theorem contracts_hold_iff_request_rounds {h : Heap} {live : List Nat} {platform : Platform}
    (reached : Reached h live) (honest : Honest platform h) :
    (∀ size, size < wordSpan → ∃ h' q, allocate platform h size = some (h', q) ∧
        AllocateContract h live size h' q) ∧
      ∀ p ∈ live, ∀ size, 0 < size → size < wordSpan →
        ∃ h' q, reallocate platform h p size = some (h', q) ∧
          (ReallocateContract h live p size h' q ↔ size ≤ wordSpan - 16) := by
  obtain ⟨used, holds⟩ := reached_holds reached
  constructor
  · intro size fits
    exact allocate_meets_contract holds honest fits
  · intro p held size positive fits
    exact reallocate_meets_contract_iff holds honest held positive fits

theorem blank_contracts_hold :
    ∃ h' q, allocate onePage blank 64 = some (h', q) ∧ AllocateContract blank [] 64 h' q :=
  (contracts_hold_iff_request_rounds (Reached.start fun _ => 0) (onePage_honest blank)).1 64
    (by decide)

theorem reallocate_near_top_breaks_contract :
    ¬ ∀ (platform : Platform) (h : Heap) (live : List Nat) (p size : Nat), Reached h live →
        Honest platform h → p ∈ live → 0 < size → size < wordSpan →
        ∃ h' q, reallocate platform h p size = some (h', q) ∧
          ReallocateContract h live p size h' q := by
  intro claimed
  have first : (allocate onePage blank 64).map Prod.snd = some 4112 := by decide +kernel
  have second : ((allocate onePage blank 64).bind fun r =>
      (reallocate onePage r.1 4112 (2 ^ 64 - 1)).map fun s => (s.2, blockSize s.1 s.2)) =
      some (4112, 16) := by decide +kernel
  obtain ⟨⟨h, q⟩, called, pointer⟩ := Option.map_eq_some_iff.mp first
  simp only at pointer
  subst pointer
  rw [called, Option.bind_some] at second
  have fits : Permitted [] (.allocate 64) := show 64 < wordSpan by decide
  have reached : Reached h [4112] :=
    Reached.call (Reached.start fun _ => 0) fits (onePage_honest blank) called
  obtain ⟨h', q, again, contract⟩ := claimed onePage h [4112] 4112 (2 ^ 64 - 1) reached
    (onePage_honest h) (by simp) (by decide) (by decide)
  rw [again, Option.map_some] at second
  simp only [Option.some.injEq, Prod.mk.injEq] at second
  obtain ⟨pointer, cut⟩ := second
  have promised := (contract.2 (by omega)).2.1.large
  rw [pointer] at promised cut
  rw [cut] at promised
  omega

end R2Apps.HeapRuns
