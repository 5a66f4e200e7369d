import R2Apps.HeapOperations

/-! The public calls of the arena over `Sound`: taking a block in hand, closing
the operation again, adding regions, `allocate`, `deallocate`, `reallocate`. -/
namespace R2Apps.HeapCalls
open ByteMemory DoublyLinked HeapArena HeapLayout HeapBlocks HeapOperations

section Open
variable {h : Heap} {L : Layout} {listed : List Nat} {b : Block}

theorem layout_split (member : b ∈ blocks L) :
    ∃ left r front tail right, L = left ++ (r, front ++ ([b] ++ tail)) :: right := by
  obtain ⟨e, inside, found⟩ := List.mem_flatMap.mp member
  obtain ⟨left, right, outer⟩ := List.append_of_mem inside
  obtain ⟨front, tail, inner⟩ := List.append_of_mem found
  refine ⟨left, e.1, front, tail, right, ?_⟩
  rw [outer]
  congr 2
  exact Prod.ext rfl inner

theorem calm_split {front tail : List Block} (calm : Calm (front ++ ([b] ++ tail))) :
    Calm front ∧ Calm tail := by
  obtain ⟨first, second, _⟩ := List.isChain_append.mp calm
  exact ⟨first, calm_tail second⟩

theorem calm_join {front tail : List Block} (calmFront : Calm front) (calmTail : Calm (b :: tail))
    (quiet : b.free = true → ∀ f ∈ front.getLast?, f.free = false) :
    Calm (front ++ ([b] ++ tail)) := by
  refine List.isChain_append.mpr ⟨calmFront, calmTail, ?_⟩
  intro f last c head both
  simp only [List.cons_append, List.nil_append, List.head?_cons, Option.mem_def,
    Option.some.injEq] at head
  subst head
  have used := quiet both.2 f last
  rw [used] at both
  exact absurd both.1 (by decide)

theorem hold_used (sound : Sound h L listed) (member : b ∈ blocks L) (used : b.free = false) :
    ∃ left r front tail right, L = left ++ (r, front ++ ([b] ++ tail)) :: right ∧
      Held h left r front b tail right listed := by
  obtain ⟨left, r, front, tail, right, shape⟩ := layout_split member
  subst shape
  have calm := calm_split (sound.calm (r, front ++ ([b] ++ tail)) (by simp))
  refine ⟨left, r, front, tail, right, rfl, sound.arena, ?_, ?_, ?_, calm.1, calm.2⟩
  · have listedIs := sound.exactly
    simpa [around, used] using listedIs
  · intro e inside
    exact sound.calm e (by simp [inside])
  · intro e inside
    exact sound.calm e (by simp [inside])

theorem used_off (sound : Sound h L listed) (member : b ∈ blocks L) (used : b.free = false) :
    b.addr ∉ listed := by
  intro node
  obtain ⟨d, found, free, same⟩ := mem_freeIn.mp (sound.exactly.mem_iff.mp node)
  have equal := addr_injective sound.arena.phys (mem_headers_of_mem_blocks found)
    (mem_headers_of_mem_blocks member) same
  rw [equal, used] at free
  exact absurd free (by decide)

theorem hold_free (sound : Sound h L listed) (member : b ∈ blocks L) (free : b.free = true) :
    ∃ left r front tail right listed', L = left ++ (r, front ++ ([b] ++ tail)) :: right ∧
      Held (freeListRemove h b.addr) left r front b tail right listed' ∧
      Spares h.mem (freeListRemove h b.addr).mem (blocks L) ∧
      (freeListRemove h b.addr).stats = h.stats ∧ (freeListRemove h b.addr).ready = h.ready := by
  have onList : b.addr ∈ listed := sound.exactly.mem_iff.mpr (mem_freeIn.mpr ⟨b, member, free, rfl⟩)
  obtain ⟨before, after, split⟩ := List.append_of_mem onList
  obtain ⟨left, r, front, tail, right, shape⟩ := layout_split member
  subst split
  obtain ⟨arena, touched, stats, ready⟩ := arena_remove sound.arena
  have spared : Spares h.mem (freeListRemove h b.addr).mem (blocks L) := by
    intro c inside used x bytes
    apply touched x
    have known : ∀ y ∈ before ++ after, ∃ d ∈ blocks L, d.addr = y := arena.known
    refine links_off_payload sound.arena.phys known inside ?_ bytes
    intro node
    apply used_off sound inside used
    rcases List.mem_append.mp node with inBefore | inAfter
    · simp [inBefore]
    · simp [inAfter]
  subst shape
  have calm := calm_split (sound.calm (r, front ++ ([b] ++ tail)) (by simp))
  refine ⟨left, r, front, tail, right, before ++ after, rfl, ⟨arena, ?_, ?_, ?_, calm.1, calm.2⟩,
    spared, stats, ready⟩
  · refine List.perm_iff_count.mpr fun a => ?_
    have counts := sound.exactly.count_eq a
    simp only [blocks_append, blocks_cons, freeIn_append, freeIn_cons, freeIn_nil, free,
      ↓reduceIte, List.count_append, List.count_cons, List.count_nil] at counts ⊢
    omega
  · intro e inside
    exact sound.calm e (by simp [inside])
  · intro e inside
    exact sound.calm e (by simp [inside])

end Open

section Close
variable {h : Heap} {left right : Layout} {r : Region} {front tail : List Block} {b : Block}
variable {listed : List Nat}

theorem usedIn_around (left : Layout) (r : Region) (front : List Block) (b : Block)
    (tail : List Block) (right : Layout) :
    (usedIn (blocks (left ++ (r, front ++ ([b] ++ tail)) :: right))).Perm
      (usedIn [b] ++ usedIn (around left front tail right)) := by
  refine List.perm_iff_count.mpr fun a => ?_
  simp only [around, blocks_append, blocks_cons, usedIn_append, List.count_append]
  omega

theorem close_used (held : Held h left r front b tail right listed) (used : b.free = false)
    (ready : h.ready = true)
    (bytes : h.stats.usedBytes = b.size + ((usedIn (around left front tail right)).map Block.size).sum)
    (count : h.stats.liveAllocations = 1 + (usedIn (around left front tail right)).length) :
    Sound h (left ++ (r, front ++ ([b] ++ tail)) :: right) listed := by
  have perm := usedIn_around left r front b tail right
  refine ⟨held.arena, ?_, ?_, ?_, ?_, ?_⟩
  · have listedIs := held.others
    simpa [around, used] using listedIs
  · intro e inside
    rcases List.mem_append.mp inside with inLeft | inRest
    · exact held.calmLeft e inLeft
    · rcases List.mem_cons.mp inRest with same | inRight
      · rw [same]
        apply calm_join held.calmFront (calm_cons held.calmTail _)
        · intro free
          rw [used] at free
          exact absurd free (by decide)
        · intro free
          rw [used] at free
          exact absurd free (by decide)
      · exact held.calmRight e inRight
  · rw [(perm.map Block.size).sum_eq, bytes]
    simp [used]
  · rw [perm.length_eq, count]
    simp [used, Nat.add_comm]
  · intro notReady
    rw [ready] at notReady
    exact absurd notReady (by decide)

theorem close_insert (held : Held h left r front b tail right listed) (free : b.free = true)
    (ready : h.ready = true)
    (quietFront : ∀ f ∈ front.getLast?, f.free = false) (quietTail : ∀ n ∈ tail.head?, n.free = false)
    (bytes : h.stats.usedBytes = ((usedIn (around left front tail right)).map Block.size).sum)
    (count : h.stats.liveAllocations = (usedIn (around left front tail right)).length) :
    Sound (freeListInsert h b.addr) (left ++ (r, front ++ ([b] ++ tail)) :: right)
        (b.addr :: listed) ∧
      Spares h.mem (freeListInsert h b.addr).mem (around left front tail right) := by
  have member : b ∈ blocks (left ++ (r, front ++ ([b] ++ tail)) :: right) := by simp
  obtain ⟨arena, touched⟩ := arena_insert held.arena member (held_off held)
  have perm := usedIn_around left r front b tail right
  refine ⟨⟨arena, ?_, ?_, ?_, ?_, ?_⟩, ?_⟩
  · refine List.perm_iff_count.mpr fun a => ?_
    have counts := held.others.count_eq a
    simp only [blocks_append, blocks_cons, freeIn_append, freeIn_cons, freeIn_nil, free,
      ↓reduceIte, List.count_append, List.count_cons, List.count_nil] at counts ⊢
    omega
  · intro e inside
    rcases List.mem_append.mp inside with inLeft | inRest
    · exact held.calmLeft e inLeft
    · rcases List.mem_cons.mp inRest with same | inRight
      · rw [same]
        exact calm_join held.calmFront (calm_cons held.calmTail fun _ => quietTail)
          fun _ => quietFront
      · exact held.calmRight e inRight
  · rw [(perm.map Block.size).sum_eq]
    simpa [free] using (show (freeListInsert h b.addr).stats.usedBytes = _ from bytes)
  · rw [perm.length_eq]
    simpa [free] using (show (freeListInsert h b.addr).stats.liveAllocations = _ from count)
  · intro notReady
    exact absurd (ready.symm.trans notReady) (by decide)
  · intro c inside used x bytesIn
    apply touched x
    apply links_off_payload held.arena.phys _ (held_around_mem inside) _ bytesIn
    · intro y node
      rcases List.mem_cons.mp node with same | old
      · exact ⟨b, member, same.symm⟩
      · exact held.arena.known y old
    · have apart := held_distinct held inside
      simp only [List.mem_cons, not_or]
      refine ⟨?_, held_used_off held inside used⟩
      simp only [Block.stop] at apart
      omega

/-- Closing an operation by giving the free block to the free block before it. -/
theorem close_merge {f : Block} (held : Held h left r (front ++ [f]) b tail right listed)
    (free : f.free = true) (ready : h.ready = true)
    (quietTail : ∀ n ∈ tail.head?, n.free = false)
    (bytes : h.stats.usedBytes =
      ((usedIn (around left (front ++ [f]) tail right)).map Block.size).sum)
    (count : h.stats.liveAllocations = (usedIn (around left (front ++ [f]) tail right)).length) :
    Sound { h with mem := restamp h.mem f.addr (f.size + 16 + b.size + 1) }
        (left ++ (r, front ++ ([⟨f.addr, f.size + 16 + b.size, true⟩] ++ tail)) :: right) listed ∧
      Spares h.mem (restamp h.mem f.addr (f.size + 16 + b.size + 1))
        (around left (front ++ [f]) tail right) := by
  have arena := held.arena
  have shape : (front ++ [f]) ++ ([b] ++ tail) = front ++ ([f, b] ++ tail) := by simp
  rw [shape] at arena
  obtain ⟨merged, touched⟩ := arena_merge true arena (held_off held)
  simp only [↓reduceIte] at merged touched
  have calmFront : Calm front := (List.isChain_append.mp held.calmFront).1
  have quietFront : ∀ g ∈ front.getLast?, g.free = false := by
    intro g last
    have calm := List.isChain_append.mp held.calmFront
    have pair := calm.2.2 g last f (by simp)
    cases flag : g.free with
    | false => rfl
    | true => exact absurd ⟨flag, free⟩ pair
  refine ⟨⟨merged, ?_, ?_, ?_, ?_, ?_⟩, ?_⟩
  · have listedIs := held.others
    refine listedIs.trans (List.Perm.of_eq ?_)
    simp [free]
  · intro e inside
    rcases List.mem_append.mp inside with inLeft | inRest
    · exact held.calmLeft e inLeft
    · rcases List.mem_cons.mp inRest with same | inRight
      · rw [same]
        exact calm_join calmFront (calm_cons held.calmTail fun _ => quietTail)
          fun _ => quietFront
      · exact held.calmRight e inRight
  · simpa [around, free] using bytes
  · simpa [around, free] using count
  · intro notReady
    exact absurd (ready.symm.trans notReady) (by decide)
  · intro c inside used x bytesIn
    have cMember := held_around_mem (r := r) (b := b) inside
    rw [shape] at cMember
    apply touched x
    rintro (header | header)
    · refine header_off_payload arena.phys (mem_headers_of_mem_blocks ?_) cMember bytesIn header
      simp
    · obtain ⟨_, _, nx, _, _, nxPlace, _, _, nxHeader⟩ := site (b := f) [b] arena.phys
      have place : nx.addr = b.stop := nxPlace
      rw [← place] at header
      exact header_off_payload arena.phys nxHeader cMember bytesIn header

end Close

/-! The regions fit the address space together, so no counter of the arena wraps. -/
section Totals
variable {m : Memory} {regions : List Region} {L : Layout}

def span (bs : List Block) : Nat := (bs.map fun b => 16 + b.size).sum

theorem chain_span {address previous : Nat} {bs : List Block} (chain : Chain m address previous bs) :
    reach address bs = address + span bs := by
  induction bs generalizing address previous with
  | nil => rfl
  | cons b rest ih =>
      obtain ⟨place, _, _, tail⟩ := chain
      have further := ih tail
      simp only [reach, span, List.map_cons, List.sum_cons, Block.stop] at *
      omega

theorem placed_span {r : Region} {bs : List Block} (placed : Placed m r bs) :
    span bs + 16 = r.size := by
  have reached := chain_span ((chain_append bs _).mp placed.chain).1
  rw [placed_reach placed] at reached
  have room := placed.room
  omega

theorem physical_span (phys : Physical m regions L) :
    span (blocks L) ≤ (regions.map Region.size).sum := by
  rw [← phys.regions]
  have placed := phys.placed
  clear phys
  induction L with
  | nil => exact Nat.le_refl _
  | cons e rest ih =>
      have tail := ih fun d inside => placed d (List.mem_cons_of_mem e inside)
      have head := placed_span (placed e (by simp))
      simp only [blocks, span, List.flatMap_cons, List.map_append, List.sum_append, List.map_cons,
        List.sum_cons] at *
      omega

theorem physical_total (phys : Physical m regions L) :
    (regions.map Region.size).sum < wordSpan := by
  have apart : (L.map fun e => (e.1.base, e.1.size)).Pairwise
      fun i j => i.1 + i.2 ≤ j.1 ∨ j.1 + j.2 ≤ i.1 := List.pairwise_map.mpr phys.apart
  have inside : ∀ i ∈ L.map (fun e => (e.1.base, e.1.size)), 0 < i.1 ∧ i.1 + i.2 ≤ wordSpan := by
    intro i member
    obtain ⟨e, found, same⟩ := List.mem_map.mp member
    have placed := phys.placed e found
    rw [← same]
    exact ⟨placed.real, Nat.le_of_lt placed.fits⟩
  have sums := disjoint_ranges_sum _ wordSpan apart inside (by decide)
  rw [← phys.regions]
  simpa [List.map_map, Function.comp_def] using sums

theorem used_span (bs : List Block) :
    ((usedIn bs).map Block.size).sum + 16 * (usedIn bs).length ≤ span bs := by
  induction bs with
  | nil => exact Nat.le_refl _
  | cons b rest ih =>
      cases flag : b.free with
      | true =>
          simp only [usedIn_cons, flag, ↓reduceIte, span, List.map_cons, List.sum_cons] at *
          omega
      | false =>
          simp only [usedIn_cons, flag, Bool.false_eq_true, ↓reduceIte, span, List.map_cons,
            List.sum_cons, List.length_cons] at *
          omega

theorem free_span (bs : List Block) (sizes : ∀ b ∈ bs, sized b) :
    32 * (freeIn bs).length ≤ span bs := by
  induction bs with
  | nil => exact Nat.le_refl _
  | cons b rest ih =>
      have tail := ih fun c inside => sizes c (List.mem_cons_of_mem b inside)
      have large := (sizes b (by simp)).1
      cases flag : b.free with
      | true =>
          simp only [freeIn_cons, flag, ↓reduceIte, span, List.map_cons, List.sum_cons,
            List.length_cons] at *
          omega
      | false =>
          simp only [freeIn_cons, flag, Bool.false_eq_true, ↓reduceIte, span, List.map_cons,
            List.sum_cons] at *
          omega

end Totals

section Search
variable {h : Heap} {L : Layout} {listed : List Nat}

theorem firstFit_walk {m : Memory} {before head fuel wanted : Nat} {nodes : List Nat}
    (linked : Linked (linkNext m) (linkPrev m) 0 before head nodes)
    (real : ∀ x ∈ nodes, x ≠ 0) (enough : nodes.length < fuel) :
    firstFitFrom m wanted fuel head =
      some ((nodes.find? fun x => payloadSize m x ≥ wanted).getD 0) := by
  induction nodes generalizing before head fuel with
  | nil =>
      cases fuel with
      | zero => simp at enough
      | succ fuel =>
          have zero : head = 0 := linked
          simp [firstFitFrom, zero]
  | cons x rest ih =>
      cases fuel with
      | zero => simp at enough
      | succ fuel =>
          obtain ⟨same, _, tail⟩ := linked
          subst same
          have nonzero := real head (by simp)
          by_cases fits : payloadSize m head ≥ wanted
          · simp [firstFitFrom, nonzero, fits]
          · have further := ih tail (fun y inside => real y (List.mem_cons_of_mem head inside))
              (by simpa using enough)
            simp [firstFitFrom, nonzero, fits, further]

/-- A walk over the free list meets no null before its end, and has fuel enough. -/
theorem listed_walks (sound : Sound h L listed) : (∀ x ∈ listed, x ≠ 0) ∧ listed.length < wordSpan := by
  have bounds : ∀ x ∈ listed, 0 < x ∧ x < wordSpan := by
    intro x member
    have bound := arena_listed_bounds sound.arena member
    omega
  constructor
  · intro x member
    exact Nat.ne_of_gt (bounds x member).1
  · exact nodup_length_lt listed wordSpan sound.arena.unique bounds (by decide)

theorem listed_size (sound : Sound h L listed) {b : Block} (member : b ∈ blocks L) :
    payloadSize h.mem b.addr = b.size :=
  payload_of_word (physical_word sound.arena.phys (mem_headers_of_mem_blocks member))
    (physical_sized sound.arena.phys member).2

theorem firstFit_finds (sound : Sound h L listed) (wanted : Nat) :
    firstFit h wanted = some ((listed.find? fun x => payloadSize h.mem x ≥ wanted).getD 0) :=
  firstFit_walk sound.arena.links (listed_walks sound).1 (listed_walks sound).2

theorem firstFit_spec (sound : Sound h L listed) (wanted : Nat) :
    ∃ x, firstFit h wanted = some x ∧
      (x ≠ 0 → ∃ b ∈ blocks L, b.free = true ∧ b.addr = x ∧ wanted ≤ b.size) := by
  refine ⟨_, firstFit_finds sound wanted, ?_⟩
  intro nonzero
  cases found : listed.find? fun x => payloadSize h.mem x ≥ wanted with
  | none =>
      rw [found] at nonzero
      exact absurd rfl nonzero
  | some x =>
      have fits := List.find?_some found
      have member := List.mem_of_find?_eq_some found
      obtain ⟨b, inside, free, same⟩ := mem_freeIn.mp (sound.exactly.mem_iff.mp member)
      refine ⟨b, inside, free, same, ?_⟩
      rw [← same, listed_size sound inside] at fits
      simpa using fits

theorem firstFit_null (sound : Sound h L listed) {wanted : Nat} :
    firstFit h wanted = some 0 ↔ ∀ x ∈ listed, payloadSize h.mem x < wanted := by
  rw [firstFit_finds sound, Option.some.injEq]
  constructor
  · intro null x member
    cases found : listed.find? fun x => payloadSize h.mem x ≥ wanted with
    | none =>
        have small := List.find?_eq_none.mp found x member
        simpa using small
    | some y =>
        rw [found, Option.getD_some] at null
        have inside := List.mem_of_find?_eq_some found
        exact absurd null ((listed_walks sound).1 y inside)
  · intro small
    have none_ : (listed.find? fun x => payloadSize h.mem x ≥ wanted) = none := by
      apply List.find?_eq_none.mpr
      intro x member
      simpa using small x member
    rw [none_, Option.getD_none]

end Search
end R2Apps.HeapCalls
