import R2Apps.HeapLayout

/-! What each block primitive of the arena does to the abstract layout: reading
a header, inserting into and removing from the free list, flagging a block,
merging two neighbours and cutting one block in two. Every statement says which
bytes the primitive may touch. -/
namespace R2Apps.HeapBlocks
open ByteMemory DoublyLinked HeapArena HeapLayout

section HeaderWords
variable {m : Memory} {b : Block}

theorem word_lt (range : b.stop < wordSpan) : b.word < wordSpan := by
  simp only [Block.stop, Block.word] at *
  split <;> omega

theorem or_flag (size : Nat) (even : size % 16 = 0) (free : Bool) :
    (size ||| if free then freeFlag else 0) = size + if free then 1 else 0 := by
  cases free with
  | false => simp
  | true =>
      have half : size = 2 ^ 1 * (size / 2) := by omega
      simp only [↓reduceIte, freeFlag]
      rw [half, ← Nat.two_pow_add_eq_or_of_lt (by omega)]

theorem and_flag (size : Nat) (even : size % 16 = 0) (free : Bool) :
    (size + if free then 1 else 0) &&& freeFlag = if free then freeFlag else 0 := by
  simp only [freeFlag, Nat.and_one_is_mod]
  cases free <;> simp <;> omega

theorem payload_of_word (word : load64 m b.addr = b.word) (even : b.size % 16 = 0) :
    payloadSize m b.addr = b.size := by
  have bound := load64_lt m b.addr
  have mask := land_mask (load64 m b.addr) 1 bound (by omega)
  have flag : wordSpan - 1 - freeFlag = wordSpan - 2 ^ 1 := rfl
  rw [payloadSize, flag, mask, word]
  simp only [Block.word]
  split <;> omega

theorem isFree_of_word (word : load64 m b.addr = b.word) (even : b.size % 16 = 0) :
    isFree m b.addr = b.free := by
  rw [isFree, word, Block.word, and_flag _ even]
  cases b.free <;> rfl

theorem next_of_word (word : load64 m b.addr = b.word) (even : b.size % 16 = 0) :
    nextBlock m b.addr = b.stop := by
  rw [nextBlock, payload_of_word word even]
  rfl

end HeaderWords

section LinkWords
variable {m : Memory} {x y target : Nat}

theorem next_setNext (xAligned : x % 16 = 0) (yAligned : y % 16 = 0) (fits : target < wordSpan) :
    linkNext (setLinkNext m x target) y = if y = x then target else linkNext m y := by
  by_cases same : y = x
  · subst same
    simp [linkNext, setLinkNext, load64_store64_same _ _ _ fits]
  · rw [if_neg same]
    exact load64_store64_other _ _ _ _ (by omega) (by omega) (by omega)

theorem prev_setPrev (xAligned : x % 16 = 0) (yAligned : y % 16 = 0) (fits : target < wordSpan) :
    linkPrev (setLinkPrev m x target) y = if y = x then target else linkPrev m y := by
  by_cases same : y = x
  · subst same
    simp [linkPrev, setLinkPrev, load64_store64_same _ _ _ fits]
  · rw [if_neg same]
    exact load64_store64_other _ _ _ _ (by omega) (by omega) (by omega)

theorem next_setPrev (xAligned : x % 16 = 0) (yAligned : y % 16 = 0) :
    linkNext (setLinkPrev m x target) y = linkNext m y :=
  load64_store64_other _ _ _ _ (by omega) (by omega) (by omega)

theorem prev_setNext (xAligned : x % 16 = 0) (yAligned : y % 16 = 0) :
    linkPrev (setLinkNext m x target) y = linkPrev m y :=
  load64_store64_other _ _ _ _ (by omega) (by omega) (by omega)

theorem within_setNext {m₀ : Memory} {nodes : List Nat} (before : Within m₀ m (linkBytes nodes))
    (member : x ∈ nodes) : Within m₀ (setLinkNext m x target) (linkBytes nodes) :=
  within_store64 before fun _ lower upper => ⟨x, member, by omega, by omega⟩

theorem within_setPrev {m₀ : Memory} {nodes : List Nat} (before : Within m₀ m (linkBytes nodes))
    (member : x ∈ nodes) : Within m₀ (setLinkPrev m x target) (linkBytes nodes) :=
  within_store64 before fun _ lower upper => ⟨x, member, by omega, by omega⟩

end LinkWords

section FreeList
variable {h : Heap} {L : Layout} {listed : List Nat}

theorem head_cases {before head : Nat} {next prev : Nat → Nat} {nodes : List Nat}
    (linked : Linked next prev 0 before head nodes) : (nodes = [] ∧ head = 0) ∨ head ∈ nodes := by
  cases nodes with
  | nil => exact Or.inl ⟨rfl, linked⟩
  | cons node rest => exact Or.inr (by rw [linked.1]; simp)

theorem arena_insert (arena : Arena h L listed) {b : Block} (member : b ∈ blocks L)
    (fresh : b.addr ∉ listed) :
    Arena (freeListInsert h b.addr) L (b.addr :: listed) ∧
      Within h.mem (freeListInsert h b.addr).mem (linkBytes (b.addr :: listed)) := by
  have bHeader := mem_headers_of_mem_blocks member
  have bAligned := physical_aligned arena.phys bHeader
  have bRange := physical_range arena.phys bHeader
  have bFits : b.addr < wordSpan := by
    simp only [Block.stop] at bRange
    omega
  have headFits : h.freeList < wordSpan := by
    rcases head_cases arena.links with ⟨_, zero⟩ | inside
    · rw [zero]; decide
    · have bounds := arena_listed_bounds arena inside
      omega
  have headReal : h.freeList ≠ 0 → h.freeList ∈ listed := by
    intro nonzero
    rcases head_cases arena.links with ⟨_, zero⟩ | inside
    · exact absurd zero nonzero
    · exact inside
  have known : ∀ x ∈ b.addr :: listed, ∃ c ∈ blocks L, c.addr = x := by
    intro x inside
    rcases List.mem_cons.mp inside with same | old
    · exact ⟨b, member, same.symm⟩
    · exact arena.known x old
  have touched : Within h.mem (freeListInsert h b.addr).mem (linkBytes (b.addr :: listed)) := by
    have two : Within h.mem (setLinkNext (setLinkPrev h.mem b.addr 0) b.addr h.freeList)
        (linkBytes (b.addr :: listed)) :=
      within_setNext (within_setPrev (within_refl h.mem _) (by simp)) (by simp)
    simp only [freeListInsert]
    split
    · rename_i nonzero
      exact within_setPrev two (List.mem_cons_of_mem _ (headReal nonzero))
    · exact two
  -- the links that were written, read back at any aligned block
  have nextAt : ∀ y, y % 16 = 0 → linkNext (freeListInsert h b.addr).mem y =
      if y = b.addr then h.freeList else linkNext h.mem y := by
    intro y aligned
    simp only [freeListInsert]
    split
    · rename_i nonzero
      have bounds := arena_listed_bounds arena (headReal nonzero)
      rw [next_setPrev bounds.1 aligned, next_setNext bAligned aligned headFits,
        next_setPrev bAligned aligned]
    · rw [next_setNext bAligned aligned headFits, next_setPrev bAligned aligned]
  have prevAt : ∀ y, y % 16 = 0 → y ≠ 0 → linkPrev (freeListInsert h b.addr).mem y =
      if y = h.freeList then b.addr else if y = b.addr then 0 else linkPrev h.mem y := by
    intro y aligned real
    simp only [freeListInsert]
    split
    · rename_i nonzero
      have bounds := arena_listed_bounds arena (headReal nonzero)
      rw [prev_setPrev bounds.1 aligned bFits, prev_setNext bAligned aligned,
        prev_setPrev bAligned aligned (by decide)]
    · rename_i zero
      have different : y ≠ h.freeList := by omega
      rw [if_neg different, prev_setNext bAligned aligned,
        prev_setPrev bAligned aligned (by decide)]
  have bReal : b.addr ≠ 0 := by omega
  refine ⟨⟨physical_of_links arena.phys known touched, ?_,
    List.nodup_cons.mpr ⟨fresh, arena.unique⟩, known⟩, touched⟩
  -- the old head alone gets another link; the rest of the list is as it was
  show Linked _ _ 0 0 b.addr (b.addr :: listed)
  apply linked_insert arena.links arena.unique
  · intro y inside
    have different : y ≠ b.addr := fun same => fresh (same ▸ inside)
    rw [nextAt y (arena_listed_bounds arena inside).1, if_neg different]
  · intro y inside
    have bounds := arena_listed_bounds arena inside
    have different : y ≠ b.addr := fun same => fresh (same ▸ inside)
    rw [prevAt y bounds.1 (by omega), if_neg different]
  · rw [nextAt b.addr bAligned, if_pos rfl]
  · have off : b.addr ≠ h.freeList := by
      intro same
      exact fresh (same ▸ headReal (by omega))
    rw [prevAt b.addr bAligned bReal, if_neg off, if_pos rfl]

/-- The memory side of `freeListRemove` when `x` is not its own neighbour. -/
def unlink (m : Memory) (x : Nat) : Memory :=
  let m' := if linkPrev m x ≠ 0 then setLinkNext m (linkPrev m x) (linkNext m x) else m
  if linkNext m x ≠ 0 then setLinkPrev m' (linkNext m x) (linkPrev m x) else m'

theorem freeListRemove_eq (x : Nat) (prevAligned : linkPrev h.mem x % 16 = 0)
    (xAligned : x % 16 = 0) (loose : linkPrev h.mem x ≠ x) :
    freeListRemove h x =
      { h with
        mem := unlink h.mem x
        freeList := if linkPrev h.mem x ≠ 0 then h.freeList else linkNext h.mem x } := by
  have nextFits : linkNext h.mem x < wordSpan := load64_lt h.mem (x + 16)
  by_cases zero : linkPrev h.mem x = 0
  · simp only [freeListRemove, unlink, zero, ne_eq, not_true_eq_false, ↓reduceIte]
    split <;> rfl
  · have nextSame : linkNext (setLinkNext h.mem (linkPrev h.mem x) (linkNext h.mem x)) x =
        linkNext h.mem x := by
      rw [next_setNext prevAligned xAligned nextFits, if_neg (Ne.symm loose)]
    have prevSame : linkPrev (setLinkNext h.mem (linkPrev h.mem x) (linkNext h.mem x)) x =
        linkPrev h.mem x := prev_setNext prevAligned xAligned
    simp only [freeListRemove, unlink, zero, ne_eq, not_false_eq_true, ↓reduceIte, nextSame,
      prevSame]
    split <;> rfl

theorem unlink_next (m : Memory) (x y : Nat) (prevAligned : linkPrev m x % 16 = 0)
    (nextAligned : linkNext m x % 16 = 0) (yAligned : y % 16 = 0) (real : y ≠ 0) :
    linkNext (unlink m x) y = if y = linkPrev m x then linkNext m x else linkNext m y := by
  have nextFits : linkNext m x < wordSpan := load64_lt m (x + 16)
  have forward : linkNext (if linkPrev m x ≠ 0 then
      setLinkNext m (linkPrev m x) (linkNext m x) else m) y =
      if y = linkPrev m x then linkNext m x else linkNext m y := by
    by_cases zero : linkPrev m x = 0
    · simp [zero, real]
    · rw [if_pos zero, next_setNext prevAligned yAligned nextFits]
  by_cases zero : linkNext m x = 0
  · simp only [unlink, zero, ne_eq, not_true_eq_false, ↓reduceIte] at *
    exact forward
  · rw [unlink, if_pos zero, next_setPrev nextAligned yAligned, forward]

theorem unlink_prev (m : Memory) (x y : Nat) (prevAligned : linkPrev m x % 16 = 0)
    (nextAligned : linkNext m x % 16 = 0) (yAligned : y % 16 = 0) (real : y ≠ 0) :
    linkPrev (unlink m x) y = if y = linkNext m x then linkPrev m x else linkPrev m y := by
  have prevFits : linkPrev m x < wordSpan := load64_lt m (x + 24)
  have forward : linkPrev (if linkPrev m x ≠ 0 then
      setLinkNext m (linkPrev m x) (linkNext m x) else m) y = linkPrev m y := by
    by_cases zero : linkPrev m x = 0
    · simp [zero]
    · rw [if_pos zero, prev_setNext prevAligned yAligned]
  by_cases zero : linkNext m x = 0
  · simp only [unlink, zero, ne_eq, not_true_eq_false, ↓reduceIte, real] at *
    exact forward
  · rw [unlink, if_pos zero, prev_setPrev nextAligned yAligned prevFits, forward]

theorem unlink_within (m : Memory) (x : Nat) (nodes : List Nat)
    (prevListed : linkPrev m x ≠ 0 → linkPrev m x ∈ nodes)
    (nextListed : linkNext m x ≠ 0 → linkNext m x ∈ nodes) :
    Within m (unlink m x) (linkBytes nodes) := by
  have forward : Within m (if linkPrev m x ≠ 0 then
      setLinkNext m (linkPrev m x) (linkNext m x) else m) (linkBytes nodes) := by
    by_cases zero : linkPrev m x = 0
    · rw [if_neg (by simp [zero])]
      exact within_refl m _
    · rw [if_pos zero]
      exact within_setNext (within_refl m _) (prevListed zero)
  by_cases zero : linkNext m x = 0
  · rw [unlink, if_neg (by simp [zero])]
    exact forward
  · rw [unlink, if_pos zero]
    exact within_setPrev forward (nextListed zero)

theorem arena_remove {x : Nat} {front back : List Nat}
    (arena : Arena h L (front ++ x :: back)) :
    Arena (freeListRemove h x) L (front ++ back) ∧
      Within h.mem (freeListRemove h x).mem (linkBytes (front ++ back)) ∧
      (freeListRemove h x).stats = h.stats ∧ (freeListRemove h x).ready = h.ready := by
  have xBounds := arena_listed_bounds arena (x := x) (by simp)
  have xFresh : x ∉ front ++ back := by
    have moved := List.perm_middle.nodup_iff.mp arena.unique
    exact (List.nodup_cons.mp moved).1
  have member : ∀ y ∈ front ++ back, y ∈ front ++ x :: back := by
    intro y inside
    rcases List.mem_append.mp inside with left | right
    · simp [left]
    · simp [right]
  have bounds : ∀ y ∈ front ++ back, y % 16 = 0 ∧ 16 ≤ y ∧ y + 32 < wordSpan := fun y inside =>
    arena_listed_bounds arena (member y inside)
  have prevIs := linked_prev arena.links
  have nextIs := linked_next arena.links
  -- the neighbours of the block are on the list, or there is none
  have prevCases : (front = [] ∧ linkPrev h.mem x = 0) ∨
      (front ≠ [] ∧ linkPrev h.mem x ∈ front) := by
    cases front with
    | nil => exact Or.inl ⟨rfl, prevIs⟩
    | cons first rest =>
        rw [prevIs, List.getLastD_cons, ← List.getLast_eq_getLastD (List.cons_ne_nil first rest)]
        exact Or.inr ⟨by simp, List.getLast_mem _⟩
  have nextCases : linkNext h.mem x = 0 ∨ linkNext h.mem x ∈ back := by
    cases back with
    | nil => exact Or.inl nextIs
    | cons second rest => exact Or.inr (by rw [nextIs]; simp)
  have prevAligned : linkPrev h.mem x % 16 = 0 := by
    rcases prevCases with ⟨_, zero⟩ | ⟨_, inside⟩
    · omega
    · exact (bounds _ (by simp [inside])).1
  have nextAligned : linkNext h.mem x % 16 = 0 := by
    rcases nextCases with zero | inside
    · omega
    · exact (bounds _ (by simp [inside])).1
  have loose : linkPrev h.mem x ≠ x := by
    intro same
    rcases prevCases with ⟨_, zero⟩ | ⟨_, inside⟩
    · omega
    · exact xFresh (by rw [← same]; simp [inside])
  have emptyIff : front = [] ↔ linkPrev h.mem x = 0 := by
    rcases prevCases with ⟨empty, zero⟩ | ⟨nonempty, inside⟩
    · exact ⟨fun _ => zero, fun _ => empty⟩
    · have real := (bounds _ (List.mem_append_left back inside)).2.1
      exact ⟨fun empty => absurd empty nonempty, fun zero => by omega⟩
  rw [freeListRemove_eq x prevAligned xBounds.1 loose]
  have touched : Within h.mem (unlink h.mem x) (linkBytes (front ++ back)) := by
    apply unlink_within
    · intro nonzero
      rcases prevCases with ⟨_, zero⟩ | ⟨_, inside⟩
      · exact absurd zero nonzero
      · exact List.mem_append_left back inside
    · intro nonzero
      rcases nextCases with zero | inside
      · exact absurd zero nonzero
      · exact List.mem_append_right front inside
  -- the list without it reads the two links that were passed on
  have nextAt : ∀ y ∈ front ++ back, linkNext (unlink h.mem x) y =
      if y = linkPrev h.mem x then linkNext h.mem x else linkNext h.mem y := by
    intro y inside
    have yBounds := bounds y inside
    exact unlink_next h.mem x y prevAligned nextAligned yBounds.1 (by omega)
  have prevAt : ∀ y ∈ front ++ back, linkPrev (unlink h.mem x) y =
      if y = linkNext h.mem x then linkPrev h.mem x else linkPrev h.mem y := by
    intro y inside
    have yBounds := bounds y inside
    exact unlink_prev h.mem x y prevAligned nextAligned yBounds.1 (by omega)
  have known : ∀ y ∈ front ++ back, ∃ b ∈ blocks L, b.addr = y := fun y inside =>
    arena.known y (member y inside)
  refine ⟨⟨physical_of_links arena.phys known touched, ?_, ?_, known⟩, touched, rfl, rfl⟩
  · have real : (0 : Nat) ∉ front ++ x :: back := by
      intro inside
      have positive := (arena_listed_bounds arena inside).2.1
      omega
    have linked := linked_remove arena.links arena.unique real real nextAt prevAt
    simp only [emptyIff] at linked
    by_cases zero : linkPrev h.mem x = 0
    · simpa [zero] using linked
    · simpa [zero] using linked
  · have moved := List.perm_middle.nodup_iff.mp arena.unique
    exact (List.nodup_cons.mp moved).2

end FreeList

/-! Header edits. `site` reads the neighbourhood of a block off the layout; the
block after it always exists, because every region ends in its sentinel. -/
section Edits
variable {h : Heap} {left right : Layout} {r : Region} {front tail : List Block} {b : Block}
variable {listed : List Nat}

theorem site {m : Memory} {regions : List Region} (old : List Block)
    (phys : Physical m regions (left ++ (r, front ++ (b :: old ++ tail)) :: right)) :
    reach r.base front = b.addr ∧ load64 m (b.addr + 8) = behind 0 front ∧
      ∃ nx post, tail ++ [sentinel r] = nx :: post ∧ nx.addr = reach b.addr (b :: old) ∧
        load64 m nx.addr = nx.word ∧ load64 m (nx.addr + 8) = behind b.size old ∧
        nx ∈ headers (left ++ (r, front ++ (b :: old ++ tail)) :: right) := by
  have placed := phys.placed (r, front ++ (b :: old ++ tail)) (by simp)
  have chain := placed.chain
  simp only [List.append_assoc] at chain
  obtain ⟨_, chainOld⟩ := (chain_append front _).mp chain
  obtain ⟨chainOld, chainTail⟩ := (chain_append (b :: old) _).mp chainOld
  obtain ⟨place, _, tag, _⟩ := chainOld
  have shown : ∃ nx post, tail ++ [sentinel r] = nx :: post := by
    cases tail with
    | nil => exact ⟨sentinel r, [], rfl⟩
    | cons nx post => exact ⟨nx, post ++ [sentinel r], rfl⟩
  obtain ⟨nx, post, ending⟩ := shown
  rw [ending] at chainTail
  obtain ⟨nxPlace, nxWord, nxTag, _⟩ := chainTail
  refine ⟨place.symm, place ▸ tag, nx, post, ending, nxPlace, ?_, ?_, ?_⟩
  · rw [nxPlace]
    exact nxWord
  · rw [nxPlace]
    exact nxTag
  · refine List.mem_flatMap.mpr ⟨(r, front ++ (b :: old ++ tail)), by simp, ?_⟩
    simp only [List.append_assoc, ending]
    simp

theorem after_place {m : Memory} {regions : List Region} {n : Block}
    (phys : Physical m regions (left ++ (r, front ++ ([b, n] ++ tail)) :: right)) : n.addr = b.stop := by
  have chain := (phys.placed (r, front ++ ([b, n] ++ tail)) (by simp)).chain
  simp only [List.append_assoc] at chain
  obtain ⟨_, _, _, _, place, _⟩ := (chain_append front _).mp chain
  exact place

theorem arena_of_edit {L L' : Layout} (arena : Arena h L listed) {m' : Memory}
    {touched : Nat → Prop} (phys : Physical m' h.regions L') (same : Within h.mem m' touched)
    (off : ∀ x, linkBytes listed x → ¬ touched x)
    (known : ∀ x ∈ listed, ∃ b ∈ blocks L', b.addr = x) : Arena { h with mem := m' } L' listed := by
  refine ⟨phys, ?_, arena.unique, known⟩
  apply linked_congr arena.links
  · intro x member
    exact within_load same fun y lower upper => off y ⟨x, member, by omega, by omega⟩
  · intro x member
    exact within_load same fun y lower upper => off y ⟨x, member, by omega, by omega⟩

theorem known_of_edit {new : List Block} (old : List Block)
    (known : ∀ x ∈ listed, ∃ c ∈ blocks (left ++ (r, front ++ (old ++ tail)) :: right), c.addr = x)
    (moved : ∀ c ∈ old, c.addr ∈ listed → ∃ d ∈ new, d.addr = c.addr) :
    ∀ x ∈ listed, ∃ c ∈ blocks (left ++ (r, front ++ (new ++ tail)) :: right), c.addr = x := by
  intro x member
  obtain ⟨c, found, same⟩ := known x member
  simp only [blocks, List.flatMap_append, List.flatMap_cons, List.mem_append] at found ⊢
  rcases found with inLeft | (inFront | inOld | inTail) | inRight
  · exact ⟨c, Or.inl inLeft, same⟩
  · exact ⟨c, Or.inr (Or.inl (Or.inl inFront)), same⟩
  · obtain ⟨d, inNew, place⟩ := moved c inOld (same ▸ member)
    exact ⟨d, Or.inr (Or.inl (Or.inr (Or.inl inNew))), place.trans same⟩
  · exact ⟨c, Or.inr (Or.inl (Or.inr (Or.inr inTail))), same⟩
  · exact ⟨c, Or.inr (Or.inr inRight), same⟩

theorem arena_flag (flag : Bool)
    (arena : Arena h (left ++ (r, front ++ ([b] ++ tail)) :: right) listed) :
    Arena { h with mem := setFree h.mem b.addr flag }
        (left ++ (r, front ++ ([{ b with free := flag }] ++ tail)) :: right) listed ∧
      Within h.mem (setFree h.mem b.addr flag) (fun x => b.addr ≤ x ∧ x < b.addr + 16) := by
  obtain ⟨place, tag, nx, post, ending, nxPlace, nxWord, nxTag, nxHeader⟩ :=
    site (b := b) [] arena.phys
  have member : b ∈ blocks (left ++ (r, front ++ ([b] ++ tail)) :: right) := by
    simp [blocks]
  have header := mem_headers_of_mem_blocks member
  have size := physical_sized arena.phys member
  have range := physical_range arena.phys header
  have bAligned := physical_aligned arena.phys header
  have nxAligned := physical_aligned arena.phys nxHeader
  simp only [reach, Block.stop] at nxPlace range
  have stored : setFree h.mem b.addr flag =
      store64 h.mem b.addr ({ b with free := flag } : Block).word := by
    rw [setFree, payload_of_word (physical_word arena.phys header) size.2, or_flag _ size.2]
    rfl
  have fits : ({ b with free := flag } : Block).word < wordSpan :=
    word_lt (by simp only [Block.stop]; exact range.2)
  have same : Within h.mem (setFree h.mem b.addr flag)
      (fun x => b.addr ≤ x ∧ x < b.addr + 16) := by
    rw [stored]
    exact within_store64 (within_refl h.mem _) fun x lower upper => ⟨lower, by omega⟩
  refine ⟨arena_of_edit arena ?_ same ?_ ?_, same⟩
  · apply physical_edit [b] arena.phys ending place
    · intro w outside
      exact within_load same fun x lower upper inside => by omega
    · intro c single
      rw [List.mem_singleton.mp single]
      exact size
    · refine ⟨rfl, ?_, ?_, trivial⟩
      · rw [stored]
        exact load64_store64_same _ _ _ fits
      · rw [stored, load64_store64_other _ _ _ _ (by omega) (by omega) (by omega)]
        exact tag
    · simp only [reach, Block.stop]
      omega
    · rw [stored, load64_store64_other _ _ _ _ (by omega) (by omega) (by omega)]
      exact nxWord
    · rw [stored, load64_store64_other _ _ _ _ (by omega) (by omega) (by omega)]
      exact nxTag
  · intro x link inside
    exact linkBytes_off_headers arena.phys arena.known header inside.1 inside.2 link
  · apply known_of_edit [b] arena.known
    intro c single _
    rw [List.mem_singleton.mp single]
    exact ⟨_, List.mem_singleton.mpr rfl, rfl⟩

/-- Writes a block's header and the `prev_size` of the block after it, as all
three merges of the allocator do. -/
def restamp (m : Memory) (b word : Nat) : Memory :=
  let m := store64 m b word
  setPrevSize m (nextBlock m b) (payloadSize m b)

section Stamping
variable {m : Memory} {c : Block}

theorem restamp_stored (fits : c.word < wordSpan) (even : c.size % 16 = 0) :
    restamp m c.addr c.word = store64 (store64 m c.addr c.word) (c.stop + 8) c.size := by
  have word : load64 (store64 m c.addr c.word) c.addr = c.word := load64_store64_same _ _ _ fits
  rw [restamp, setPrevSize, next_of_word word even, payload_of_word word even]

theorem restamp_within (fits : c.word < wordSpan) (even : c.size % 16 = 0) :
    Within m (restamp m c.addr c.word)
      (fun x => c.addr ≤ x ∧ x < c.addr + 16 ∨ c.stop ≤ x ∧ x < c.stop + 16) := by
  rw [restamp_stored fits even]
  apply within_store64 (within_store64 (within_refl m _) _)
  · intro x lower upper
    omega
  · intro x lower upper
    exact Or.inl ⟨lower, by omega⟩

theorem restamp_load (fits : c.word < wordSpan) (even : c.size % 16 = 0) (aligned : c.addr % 16 = 0)
    {w : Nat} (whole : w % 8 = 0) (notWord : w ≠ c.addr) (notTag : w ≠ c.stop + 8) :
    load64 (restamp m c.addr c.word) w = load64 m w := by
  rw [restamp_stored fits even,
    load64_store64_other _ _ _ _ (by simp only [Block.stop]; omega) whole notTag,
    load64_store64_other _ _ _ _ (by omega) whole notWord]

theorem restamp_words (fits : c.word < wordSpan) (even : c.size % 16 = 0) (aligned : c.addr % 16 = 0) :
    load64 (restamp m c.addr c.word) c.addr = c.word ∧
      load64 (restamp m c.addr c.word) (c.stop + 8) = c.size := by
  have small : c.size ≤ c.word := by
    simp only [Block.word]
    omega
  rw [restamp_stored fits even]
  constructor
  · rw [load64_store64_other _ _ _ _ (by simp only [Block.stop]; omega) (by omega)
      (by simp only [Block.stop]; omega)]
    exact load64_store64_same _ _ _ fits
  · exact load64_store64_same _ _ _ (by omega)

end Stamping

theorem arena_merge {n : Block} (flag : Bool)
    (arena : Arena h (left ++ (r, front ++ ([b, n] ++ tail)) :: right) listed)
    (off : n.addr ∉ listed) :
    Arena { h with mem := restamp h.mem b.addr (b.size + 16 + n.size + if flag then 1 else 0) }
        (left ++ (r, front ++ ([⟨b.addr, b.size + 16 + n.size, flag⟩] ++ tail)) :: right) listed ∧
      Within h.mem (restamp h.mem b.addr (b.size + 16 + n.size + if flag then 1 else 0))
        (fun x => b.addr ≤ x ∧ x < b.addr + 16 ∨ n.stop ≤ x ∧ x < n.stop + 16) := by
  obtain ⟨place, tag, nx, post, ending, nxPlace, nxWord, nxTag, nxHeader⟩ :=
    site (b := b) [n] arena.phys
  have bMember : b ∈ blocks (left ++ (r, front ++ ([b, n] ++ tail)) :: right) := by simp [blocks]
  have nMember : n ∈ blocks (left ++ (r, front ++ ([b, n] ++ tail)) :: right) := by simp [blocks]
  have bHeader := mem_headers_of_mem_blocks bMember
  obtain ⟨bLarge, bEven⟩ := physical_sized arena.phys bMember
  obtain ⟨nLarge, nEven⟩ := physical_sized arena.phys nMember
  have range := physical_range arena.phys (mem_headers_of_mem_blocks nMember)
  have bAligned := physical_aligned arena.phys bHeader
  have nxAligned := physical_aligned arena.phys nxHeader
  have nPlace : n.addr = b.stop := after_place arena.phys
  have at_ : nx.addr = n.stop := nxPlace
  generalize mergedIs : (⟨b.addr, b.size + 16 + n.size, flag⟩ : Block) = merged
  have mergedAddr : merged.addr = b.addr := by rw [← mergedIs]
  have mergedSize : merged.size = b.size + 16 + n.size := by rw [← mergedIs]
  have mergedStop : merged.stop = n.stop := by
    simp only [Block.stop] at *
    omega
  have mergedWord : (b.size + 16 + n.size + if flag then 1 else 0) = merged.word := by
    rw [← mergedIs]
    rfl
  have fits : merged.word < wordSpan := word_lt (by omega)
  have mergedEven : merged.size % 16 = 0 := by omega
  have aligned : merged.addr % 16 = 0 := mergedAddr ▸ bAligned
  rw [mergedWord, ← mergedAddr, ← mergedStop]
  rw [← mergedStop] at at_
  have same := restamp_within (m := h.mem) fits mergedEven
  have load := fun w => restamp_load (m := h.mem) fits mergedEven aligned (w := w)
  obtain ⟨word, nextTag⟩ := restamp_words (m := h.mem) fits mergedEven aligned
  refine ⟨arena_of_edit arena ?_ same ?_ ?_, same⟩
  · apply physical_edit [b, n] arena.phys ending place
    · intro w outside
      apply within_load same
      intro x lower upper inside
      rw [at_, ← mergedAddr] at outside
      simp only [Block.stop] at inside outside
      omega
    · intro c single
      rw [List.mem_singleton.mp single]
      exact ⟨by omega, mergedEven⟩
    · refine ⟨mergedAddr, mergedAddr ▸ word, ?_, trivial⟩
      rw [load _ (by omega) (by omega) (by simp only [Block.stop]; omega)]
      exact tag
    · exact at_.symm
    · rw [load _ (by omega) (by simp only [at_, Block.stop]; omega) (by omega)]
      exact nxWord
    · rw [at_]
      exact nextTag
  · intro x link inside
    rcases inside with ⟨lower, upper⟩ | ⟨lower, upper⟩
    · rw [mergedAddr] at lower upper
      exact linkBytes_off_headers arena.phys arena.known bHeader lower upper link
    · rw [← at_] at lower upper
      exact linkBytes_off_headers arena.phys arena.known nxHeader lower upper link
  · apply known_of_edit [b, n] arena.known
    intro c member inList
    simp only [List.mem_cons, List.not_mem_nil, or_false] at member
    rcases member with first | second
    · rw [first]
      exact ⟨merged, List.mem_singleton.mpr rfl, mergedAddr⟩
    · rw [second] at inList
      exact absurd inList off

/-- The header writes of `split_block`: the cut block, the leftover after it,
and the `prev_size` of the block after that. -/
def cut (m : Memory) (b wanted leftover : Nat) : Memory :=
  let m := store64 m b (wanted ||| if isFree m b then freeFlag else 0)
  let rest := nextBlock m b
  let m := store64 m rest (leftover ||| freeFlag)
  let m := setPrevSize m rest wanted
  setPrevSize m (nextBlock m rest) leftover

section Cutting
variable {m : Memory} {wanted : Nat}

/-- The block that is cut keeps `wanted` bytes, a free one takes the others. -/
def cutBlock (b : Block) (wanted : Nat) : Block := ⟨b.addr, wanted, b.free⟩

def cutRest (b : Block) (wanted : Nat) : Block := ⟨b.addr + 16 + wanted, b.size - wanted - 16, true⟩

theorem cutBlock_stop : (cutBlock b wanted).stop = (cutRest b wanted).addr := rfl

theorem cutRest_stop (room : wanted + 32 ≤ b.size) : (cutRest b wanted).stop = b.stop := by
  simp only [cutRest, Block.stop]
  omega

theorem cut_stored (word : load64 m b.addr = b.word) (range : b.stop < wordSpan)
    (aligned : b.addr % 16 = 0) (bEven : b.size % 16 = 0) (even : wanted % 16 = 0)
    (room : wanted + 32 ≤ b.size) :
    cut m b.addr wanted (b.size - wanted - 16) =
      store64 (store64 (store64 (store64 m b.addr (cutBlock b wanted).word)
        (cutRest b wanted).addr (cutRest b wanted).word)
        ((cutRest b wanted).addr + 8) wanted) (b.stop + 8) (cutRest b wanted).size := by
  have restStop := cutRest_stop room
  generalize restIs : cutRest b wanted = rest at *
  have restAddr : rest.addr = b.addr + 16 + wanted := by rw [← restIs, cutRest]
  have restSize : rest.size = b.size - wanted - 16 := by rw [← restIs, cutRest]
  have firstFits : (cutBlock b wanted).word < wordSpan := by
    apply word_lt
    simp only [cutBlock, Block.stop] at *
    omega
  have restFits : rest.word < wordSpan := word_lt (by omega)
  have firstWord : (wanted ||| if b.free then freeFlag else 0) = (cutBlock b wanted).word := by
    rw [or_flag _ even]
    rfl
  have restWord : (b.size - wanted - 16) ||| freeFlag = rest.word := by
    have flagged := or_flag (b.size - wanted - 16) (by omega) true
    rw [← restIs]
    simpa [Block.word, cutRest] using flagged
  have first : load64 (store64 m b.addr (cutBlock b wanted).word) (cutBlock b wanted).addr =
      (cutBlock b wanted).word := load64_store64_same _ _ _ firstFits
  have next : nextBlock (store64 m b.addr (cutBlock b wanted).word) b.addr = rest.addr := by
    rw [← restIs]
    exact next_of_word first even
  have second : load64 (store64 (store64 (store64 m b.addr (cutBlock b wanted).word) rest.addr
      rest.word) (rest.addr + 8) wanted) rest.addr = rest.word := by
    rw [load64_store64_other _ _ _ _ (by omega) (by omega) (by omega)]
    exact load64_store64_same _ _ _ restFits
  have behindRest := next_of_word second (by omega)
  simp only [cut, setPrevSize]
  rw [isFree_of_word word bEven, firstWord, next, restWord, behindRest, restStop, restSize]

theorem cut_within (word : load64 m b.addr = b.word) (range : b.stop < wordSpan)
    (aligned : b.addr % 16 = 0) (bEven : b.size % 16 = 0) (even : wanted % 16 = 0)
    (room : wanted + 32 ≤ b.size) :
    Within m (cut m b.addr wanted (b.size - wanted - 16))
      (fun x => b.addr ≤ x ∧ x < b.addr + 16 ∨
        b.addr + 16 + wanted ≤ x ∧ x < b.addr + 32 + wanted ∨
        b.stop ≤ x ∧ x < b.stop + 16) := by
  rw [cut_stored word range aligned bEven even room]
  simp only [Block.stop, cutRest]
  apply within_store64 (within_store64 (within_store64 (within_store64 (within_refl m _) _) _) _) _
  all_goals
    intro x lower upper
    omega

theorem cut_load (word : load64 m b.addr = b.word) (range : b.stop < wordSpan)
    (aligned : b.addr % 16 = 0) (bEven : b.size % 16 = 0) (even : wanted % 16 = 0)
    (room : wanted + 32 ≤ b.size) {w : Nat} (whole : w % 8 = 0) (notWord : w ≠ b.addr)
    (notRest : w ≠ (cutRest b wanted).addr) (notRestTag : w ≠ (cutRest b wanted).addr + 8)
    (notTag : w ≠ b.stop + 8) :
    load64 (cut m b.addr wanted (b.size - wanted - 16)) w = load64 m w := by
  have place : (cutRest b wanted).addr % 16 = 0 := by
    simp only [cutRest]
    omega
  rw [cut_stored word range aligned bEven even room,
    load64_store64_other _ _ _ _ (by simp only [Block.stop]; omega) whole notTag,
    load64_store64_other _ _ _ _ (by omega) whole notRestTag,
    load64_store64_other _ _ _ _ (by omega) whole notRest,
    load64_store64_other _ _ _ _ (by omega) whole notWord]

theorem cut_words (word : load64 m b.addr = b.word) (range : b.stop < wordSpan)
    (aligned : b.addr % 16 = 0) (bEven : b.size % 16 = 0) (even : wanted % 16 = 0)
    (room : wanted + 32 ≤ b.size) :
    load64 (cut m b.addr wanted (b.size - wanted - 16)) b.addr = (cutBlock b wanted).word ∧
      load64 (cut m b.addr wanted (b.size - wanted - 16)) (cutRest b wanted).addr =
        (cutRest b wanted).word ∧
      load64 (cut m b.addr wanted (b.size - wanted - 16)) ((cutRest b wanted).addr + 8) = wanted ∧
      load64 (cut m b.addr wanted (b.size - wanted - 16)) (b.stop + 8) = (cutRest b wanted).size := by
  have restStop := cutRest_stop room
  have restAddr : (cutRest b wanted).addr = b.addr + 16 + wanted := rfl
  have firstFits : (cutBlock b wanted).word < wordSpan := by
    apply word_lt
    rw [cutBlock_stop]
    simp only [Block.stop] at range
    omega
  have restFits : (cutRest b wanted).word < wordSpan := word_lt (by omega)
  have restSmall : (cutRest b wanted).size ≤ b.size := by
    simp only [cutRest]
    omega
  rw [cut_stored word range aligned bEven even room]
  generalize cutRest b wanted = rest at *
  simp only [Block.stop] at *
  refine ⟨?_, ?_, ?_, ?_⟩
  · rw [load64_store64_other _ _ _ _ (by omega) (by omega) (by omega),
      load64_store64_other _ _ _ _ (by omega) (by omega) (by omega),
      load64_store64_other _ _ _ _ (by omega) (by omega) (by omega)]
    exact load64_store64_same _ _ _ firstFits
  · rw [load64_store64_other _ _ _ _ (by omega) (by omega) (by omega),
      load64_store64_other _ _ _ _ (by omega) (by omega) (by omega)]
    exact load64_store64_same _ _ _ restFits
  · rw [load64_store64_other _ _ _ _ (by omega) (by omega) (by omega)]
    exact load64_store64_same _ _ _ (by omega)
  · exact load64_store64_same _ _ _ (by omega)

end Cutting

theorem arena_cut {wanted : Nat}
    (arena : Arena h (left ++ (r, front ++ ([b] ++ tail)) :: right) listed)
    (off : b.addr ∉ listed) (large : 16 ≤ wanted) (even : wanted % 16 = 0)
    (room : wanted + 32 ≤ b.size) :
    Arena { h with mem := cut h.mem b.addr wanted (b.size - wanted - 16) }
        (left ++ (r, front ++ ([cutBlock b wanted, cutRest b wanted] ++ tail)) :: right) listed ∧
      Within h.mem (cut h.mem b.addr wanted (b.size - wanted - 16))
        (fun x => b.addr ≤ x ∧ x < b.addr + 16 ∨
          b.addr + 16 + wanted ≤ x ∧ x < b.addr + 32 + wanted ∨
          b.stop ≤ x ∧ x < b.stop + 16) := by
  obtain ⟨place, tag, nx, post, ending, nxPlace, nxWord, nxTag, nxHeader⟩ :=
    site (b := b) [] arena.phys
  have bMember : b ∈ blocks (left ++ (r, front ++ ([b] ++ tail)) :: right) := by simp [blocks]
  have bHeader := mem_headers_of_mem_blocks bMember
  obtain ⟨bLarge, bEven⟩ := physical_sized arena.phys bMember
  have word := physical_word arena.phys bHeader
  have range := (physical_range arena.phys bHeader).2
  have aligned := physical_aligned arena.phys bHeader
  have nxAligned := physical_aligned arena.phys nxHeader
  have at_ : nx.addr = b.stop := nxPlace
  have restAddr : (cutRest b wanted).addr = b.addr + 16 + wanted := rfl
  have same := cut_within word range aligned bEven even room
  have load := fun w => cut_load word range aligned bEven even room (w := w)
  obtain ⟨first, second, secondTag, nextTag⟩ := cut_words word range aligned bEven even room
  refine ⟨arena_of_edit arena ?_ same ?_ ?_, same⟩
  · apply physical_edit [b] arena.phys ending place
    · intro w outside
      apply within_load same
      intro x lower upper inside
      rw [at_] at outside
      simp only [Block.stop] at inside outside
      omega
    · intro c member
      simp only [List.mem_cons, List.not_mem_nil, or_false] at member
      rcases member with is_first | is_rest
      · rw [is_first]
        exact ⟨large, even⟩
      · rw [is_rest]
        simp only [sized, cutRest]
        omega
    · refine ⟨rfl, first, ?_, cutBlock_stop.symm, second, secondTag, trivial⟩
      rw [load _ (by omega) (by omega) (by omega) (by omega) (by simp only [Block.stop]; omega)]
      exact tag
    · rw [at_]
      exact cutRest_stop room
    · rw [load _ (by omega) (by simp only [at_, Block.stop]; omega) (by simp only [at_, Block.stop]; omega)
        (by simp only [at_, Block.stop]; omega) (by omega)]
      exact nxWord
    · rw [at_]
      exact nextTag
  · intro x link inside
    rcases inside with ⟨lower, upper⟩ | ⟨lower, upper⟩ | ⟨lower, upper⟩
    · exact linkBytes_off_headers arena.phys arena.known bHeader lower upper link
    · obtain ⟨y, member, low, high⟩ := link
      obtain ⟨c, found, same⟩ := arena.known y member
      have apart := physical_disjoint arena.phys bHeader (mem_headers_of_mem_blocks found)
      have cLarge := (physical_sized arena.phys found).1
      simp only [Block.stop] at apart
      rcases apart with equal | before | after
      · rw [equal] at off
        exact off (same ▸ member)
      · omega
      · omega
    · rw [← at_] at lower upper
      exact linkBytes_off_headers arena.phys arena.known nxHeader lower upper link
  · apply known_of_edit [b] arena.known
    intro c single inList
    rw [List.mem_singleton.mp single] at inList
    exact absurd inList off

end Edits
end R2Apps.HeapBlocks
