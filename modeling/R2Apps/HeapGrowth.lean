import R2Apps.HeapCalls

/-! Rounding at the top of the 64-bit range, and new regions. -/
namespace R2Apps.HeapGrowth
open ByteMemory DoublyLinked HeapArena HeapLayout HeapBlocks HeapOperations HeapCalls

theorem mask_eq (x : Nat) (fits : x < wordSpan) : x &&& (wordSpan - alignment) = x - x % 16 :=
  land_mask x 4 fits (by omega)

theorem roundUp_fits (value : Nat) (fits : value + 15 < wordSpan) :
    roundUp value alignment = value + 15 - (value + 15) % 16 := by
  have exactly : wrap (value + alignment - 1) = value + 15 := Nat.mod_eq_of_lt fits
  rw [roundUp, exactly]
  exact mask_eq _ fits

theorem roundUp_wraps (value : Nat) (fits : value < wordSpan) (large : wordSpan ≤ value + 15) :
    roundUp value alignment = 0 := by
  have reduced : wrap (value + alignment - 1) = value + 15 - wordSpan := by
    simp only [wrap, alignment, wordSpan] at *
    omega
  have below : value + 15 - wordSpan < wordSpan := by
    simp only [wordSpan] at *
    omega
  have mask := mask_eq (value + 15 - wordSpan) below
  rw [roundUp, reduced]
  refine mask.trans ?_
  simp only [wordSpan] at *
  omega

theorem wantedFor_cases (size : Nat) (fits : size < wordSpan) (positive : 0 < size) :
    (size ≤ wordSpan - 16 ∧ size ≤ wantedFor size ∧ wantedFor size < size + 16 ∧
        16 ≤ wantedFor size ∧ wantedFor size % 16 = 0) ∨
      (wordSpan - 16 < size ∧ wantedFor size = 16) := by
  by_cases large : wordSpan ≤ size + 15
  · refine Or.inr ⟨by omega, ?_⟩
    simp [wantedFor, roundUp_wraps size fits large, minPayload]
  · have rounded := roundUp_fits size (by omega)
    have notSmall : ¬ roundUp size alignment < minPayload := by
      rw [rounded]
      simp only [minPayload]
      omega
    have same : wantedFor size = size + 15 - (size + 15) % 16 := by
      rw [← rounded]
      simp only [wantedFor, notSmall, ↓reduceIte]
    exact Or.inl (by omega)

section Extend
variable {h : Heap} {L : Layout} {listed : List Nat}

/-- The header writes of `add_region`. -/
def layOut (m : Memory) (base usable : Nat) : Memory :=
  let m := store64 m base (usable ||| freeFlag)
  let m := setPrevSize m base 0
  let sentinel := nextBlock m base
  let m := store64 m sentinel 0
  setPrevSize m sentinel usable

def firstBlock (r : Region) : Block := ⟨r.base, r.size - 32, true⟩

theorem layOut_spec (m : Memory) (r : Region) (baseAligned : r.base % 16 = 0)
    (sizeAligned : r.size % 16 = 0) (real : 0 < r.base) (room : 48 ≤ r.size)
    (fits : r.base + r.size < wordSpan) :
    Placed (layOut m r.base (r.size - 32)) r [firstBlock r] ∧
      Within m (layOut m r.base (r.size - 32)) (fun x => r.base ≤ x ∧ x < r.base + r.size) := by
  have wordIs : (r.size - 32) ||| freeFlag = (firstBlock r).word := by
    have flagged := or_flag (r.size - 32) (by omega) true
    simpa [firstBlock, Block.word] using flagged
  have wordFits : (firstBlock r).word < wordSpan :=
    word_lt (by simp only [firstBlock, Block.stop]; omega)
  have load : load64 (setPrevSize (store64 m r.base (firstBlock r).word) r.base 0)
      (firstBlock r).addr = (firstBlock r).word := by
    rw [setPrevSize, load64_store64_other _ _ _ _ (by omega) (by simp only [firstBlock]; omega)
      (by simp only [firstBlock]; omega)]
    exact load64_store64_same _ _ _ wordFits
  have next : nextBlock (setPrevSize (store64 m r.base (firstBlock r).word) r.base 0) r.base =
      r.base + r.size - 16 := by
    have at_ := next_of_word load (by simp only [firstBlock]; omega)
    refine at_.trans ?_
    simp only [firstBlock, Block.stop]
    omega
  have stored : layOut m r.base (r.size - 32) =
      store64 (store64 (store64 (store64 m r.base (firstBlock r).word) (r.base + 8) 0)
        (r.base + r.size - 16) 0) (r.base + r.size - 16 + 8) (r.size - 32) := by
    simp only [layOut, wordIs, next]
    rfl
  constructor
  · refine ⟨baseAligned, sizeAligned, real, by omega, fits, ?_, ?_⟩
    · intro b single
      rw [List.mem_singleton.mp single]
      simp only [sized, firstBlock]
      omega
    · rw [stored]
      refine ⟨rfl, ?_, ?_, ?_, ?_, ?_, trivial⟩
      · rw [load64_store64_other _ _ _ _ (by omega) (by omega) (by omega),
          load64_store64_other _ _ _ _ (by omega) (by omega) (by omega),
          load64_store64_other _ _ _ _ (by omega) (by omega) (by omega)]
        exact load64_store64_same _ _ _ wordFits
      · rw [load64_store64_other _ _ _ _ (by omega) (by omega) (by omega),
          load64_store64_other _ _ _ _ (by omega) (by omega) (by omega)]
        exact load64_store64_same _ _ _ (by decide)
      · simp only [sentinel, firstBlock, Block.stop]
        omega
      · have at_ : (firstBlock r).stop = r.base + r.size - 16 := by
          simp only [firstBlock, Block.stop]
          omega
        rw [at_, load64_store64_other _ _ _ _ (by omega) (by omega) (by omega)]
        exact load64_store64_same _ _ _ (by decide)
      · have at_ : (firstBlock r).stop = r.base + r.size - 16 := by
          simp only [firstBlock, Block.stop]
          omega
        rw [at_]
        exact load64_store64_same _ _ _ (by omega)
  · rw [stored]
    apply within_store64 (within_store64 (within_store64 (within_store64 (within_refl m _) _) _) _)
    all_goals
      intro x lower upper
      omega

theorem arena_extend (arena : Arena h L listed) (r : Region) (baseAligned : r.base % 16 = 0)
    (sizeAligned : r.size % 16 = 0) (real : 0 < r.base) (room : 48 ≤ r.size)
    (fits : r.base + r.size < wordSpan) (apart : ∀ s ∈ h.regions, regionApart s r) :
    Arena { h with mem := layOut h.mem r.base (r.size - 32), regions := h.regions ++ [r] }
        (L ++ [(r, [firstBlock r])]) listed ∧
      ∀ e ∈ headers L, ∀ x, e.addr ≤ x → x < e.stop → layOut h.mem r.base (r.size - 32) x = h.mem x := by
  obtain ⟨placed, touched⟩ := layOut_spec h.mem r baseAligned sizeAligned real room fits
  have away : ∀ e ∈ L, regionApart e.1 r := by
    intro e inside
    apply apart
    rw [← arena.phys.regions]
    exact List.mem_map_of_mem inside
  have kept : ∀ e ∈ headers L, ∀ x, e.addr ≤ x → x < e.stop →
      layOut h.mem r.base (r.size - 32) x = h.mem x := by
    intro b member x lower upper
    obtain ⟨e, inside, found⟩ := List.mem_flatMap.mp member
    have bounds := placed_header_bounds (arena.phys.placed e inside) found
    have separate := away e inside
    apply touched x
    simp only [regionApart] at separate
    omega
  refine ⟨⟨⟨?_, ?_, ?_⟩, ?_, arena.unique, ?_⟩, kept⟩
  · simp [arena.phys.regions]
  · intro e member
    rcases List.mem_append.mp member with old | new
    · have before := arena.phys.placed e old
      refine { before with chain := chain_frame before.chain ?_ }
      intro b found
      have header : b ∈ headers L := List.mem_flatMap.mpr ⟨e, old, found⟩
      constructor
      · exact load64_congr _ _ _ fun x lower upper =>
          kept b header x lower (by simp only [Block.stop]; omega)
      · exact load64_congr _ _ _ fun x lower upper =>
          kept b header x (by omega) (by simp only [Block.stop]; omega)
    · rw [List.mem_singleton.mp new]
      exact placed
  · refine List.pairwise_append.mpr ⟨arena.phys.apart, List.pairwise_singleton _ _, ?_⟩
    intro e inside f single
    rw [List.mem_singleton.mp single]
    exact away e inside
  · have same : ∀ y ∈ listed, ∀ x, y + 16 ≤ x → x < y + 32 →
        layOut h.mem r.base (r.size - 32) x = h.mem x := by
      intro y node x lower upper
      obtain ⟨b, found, at_⟩ := arena.known y node
      have large := (physical_sized arena.phys found).1
      refine kept b (mem_headers_of_mem_blocks found) x (by omega) ?_
      simp only [Block.stop]
      omega
    apply linked_congr arena.links
    · intro y node
      exact load64_congr _ _ _ fun x lower upper => same y node x (by omega) (by omega)
    · intro y node
      exact load64_congr _ _ _ fun x lower upper => same y node x (by omega) (by omega)
  · intro x node
    obtain ⟨b, found, at_⟩ := arena.known x node
    exact ⟨b, by simp [found], at_⟩

/-- A range of memory the application may hand over: it does not wrap and does
not overlap a region the arena already has. A null base hands over nothing. -/
def Given (range : Nat × Nat) (regions : List Region) : Prop :=
  range.1 = 0 ∨ range.1 + range.2 < wordSpan ∧ ∀ r ∈ regions, regionApart r ⟨range.1, range.2⟩

/-- The part of a range handed over that is aligned at both ends. -/
def handedRegion (range : Nat × Nat) : Region :=
  let start := (range.1 + 15) / 16 * 16
  ⟨start, (range.2 - (start - range.1)) / 16 * 16⟩

/-- A region that lies in a range handed over. -/
structure Inside (r : Region) (range : Nat × Nat) : Prop where
  baseAligned : r.base % 16 = 0
  sizeAligned : r.size % 16 = 0
  lower : range.1 ≤ r.base
  upper : r.size = 0 ∨ r.base + r.size ≤ range.1 + range.2

theorem handedRegion_inside (range : Nat × Nat) : Inside (handedRegion range) range := by
  constructor
  all_goals
    simp only [handedRegion]
    omega

/-- A region is taken if the table has room for it and it has room for one block. -/
def Taken (regions : Nat) (range : Nat × Nat) : Prop :=
  regions ≠ maxRegions ∧ 48 ≤ (handedRegion range).size

theorem addRegion_eq (h : Heap) {base size : Nat} (fits : base + size < wordSpan) :
    (Taken h.regions.length (base, size) ∧ addRegion h base size =
      (let r := handedRegion (base, size)
       let laid := { h with mem := layOut h.mem r.base (r.size - 32), regions := h.regions ++ [r] }
       let h' := freeListInsert laid r.base
       ({ h' with stats := { h'.stats with arenaBytes := wrap (h'.stats.arenaBytes + r.size) } }, true))) ∨
    (¬ Taken h.regions.length (base, size) ∧ addRegion h base size = (h, false)) := by
  unfold addRegion
  by_cases full : h.regions.length = maxRegions
  · rw [if_pos full]
    exact Or.inr ⟨fun taken => absurd full taken.1, rfl⟩
  rw [if_neg full]
  by_cases wraps : wordSpan ≤ base + 15
  · -- the base cannot be rounded up, and fewer than 16 bytes lie behind it
    have aligned := roundUp_wraps base (by omega) wraps
    have skipped : wrap (roundUp base alignment + wordSpan - base) = wordSpan - base := by
      rw [aligned]
      simp only [wrap, wordSpan] at *
      omega
    simp only [skipped]
    rw [if_pos (by omega)]
    refine Or.inr ⟨?_, rfl⟩
    rintro ⟨_, room⟩
    simp only [handedRegion] at room
    omega
  · have aligned := roundUp_fits base (by omega)
    have start : base + 15 - (base + 15) % 16 = (base + 15) / 16 * 16 := by omega
    have skipped : wrap (roundUp base alignment + wordSpan - base) = (base + 15) / 16 * 16 - base := by
      rw [aligned, start]
      simp only [wrap, wordSpan] at *
      omega
    simp only [skipped]
    by_cases tiny : size < (base + 15) / 16 * 16 - base
    · rw [if_pos tiny]
      refine Or.inr ⟨?_, rfl⟩
      rintro ⟨_, room⟩
      simp only [handedRegion] at room
      omega
    rw [if_neg tiny, mask_eq _ (by omega)]
    have bytes : size - ((base + 15) / 16 * 16 - base) - (size - ((base + 15) / 16 * 16 - base)) % 16 =
        (handedRegion (base, size)).size := by
      simp only [handedRegion]
      omega
    rw [bytes]
    by_cases small : (handedRegion (base, size)).size < headerSize * 2 + minPayload
    · rw [if_pos small]
      refine Or.inr ⟨?_, rfl⟩
      rintro ⟨_, room⟩
      simp only [headerSize, minPayload] at small
      omega
    rw [if_neg small]
    have usable : ((handedRegion (base, size)).size - headerSize - headerSize) &&& (wordSpan - alignment) =
        (handedRegion (base, size)).size - 32 := by
      have below : (handedRegion (base, size)).size < wordSpan := by
        simp only [handedRegion]
        omega
      rw [mask_eq _ (by omega)]
      simp only [handedRegion, headerSize]
      omega
    have place : roundUp base alignment = (handedRegion (base, size)).base := aligned.trans start
    simp only [usable, place]
    simp only [headerSize, minPayload] at small
    exact Or.inl ⟨⟨full, by omega⟩, rfl⟩

theorem addRegion_spec (sound : Sound h L listed) (ready : h.ready = true) {base size : Nat}
    (real : base ≠ 0) (given : Given (base, size) h.regions) :
    ∃ L' listed', Sound (addRegion h base size).1 L' listed' ∧
      usedIn (blocks L') = usedIn (blocks L) ∧
      Spares h.mem (addRegion h base size).1.mem (blocks L) ∧
      (addRegion h base size).1.ready = true ∧
      (Taken h.regions.length (base, size) → firstBlock (handedRegion (base, size)) ∈ blocks L') := by
  obtain ⟨fits, apart⟩ := given.resolve_left real
  rcases addRegion_eq h fits with ⟨⟨_, room⟩, added⟩ | ⟨small, refused⟩
  · rw [added]
    simp only
    have shape := handedRegion_inside (base, size)
    generalize handedRegion (base, size) = r at *
    have lower : base ≤ r.base := shape.lower
    have upper : r.base + r.size ≤ base + size := shape.upper.resolve_left (by omega)
    have away : ∀ s ∈ h.regions, regionApart s r := by
      intro s member
      have separate := apart s member
      simp only [regionApart] at *
      omega
    obtain ⟨extended, kept⟩ := arena_extend sound.arena r shape.baseAligned shape.sizeAligned
      (Nat.lt_of_lt_of_le (Nat.pos_of_ne_zero real) lower) room (Nat.lt_of_le_of_lt upper fits) away
    have member : firstBlock r ∈ blocks (L ++ [(r, [firstBlock r])]) := by simp [blocks]
    have fresh : (firstBlock r).addr ∉ listed := by
      intro node
      obtain ⟨b, found, same⟩ := sound.arena.known _ node
      obtain ⟨e, inside, within_⟩ := List.mem_flatMap.mp found
      have bounds := placed_header_bounds (sound.arena.phys.placed e inside)
        (List.mem_append_left _ within_)
      have separate := away e.1 (by rw [← sound.arena.phys.regions]; exact List.mem_map_of_mem inside)
      simp only [firstBlock, Block.stop, regionApart] at *
      omega
    obtain ⟨inserted, touched⟩ := arena_insert extended member fresh
    have used : usedIn (blocks (L ++ [(r, [firstBlock r])])) = usedIn (blocks L) := by
      simp [blocks, firstBlock]
    refine ⟨_, r.base :: listed, ⟨⟨inserted.phys, inserted.links, inserted.unique, inserted.known⟩,
      ?_, ?_, ?_, ?_, ?_⟩, used, ?_, ready, fun _ => member⟩
    · have before := sound.exactly.cons r.base
      refine before.trans ?_
      simp only [blocks_append, blocks_cons, freeIn_append, firstBlock, freeIn_cons, ↓reduceIte]
      exact (List.perm_append_singleton r.base (freeIn (blocks L))).symm
    · intro e inside
      rcases List.mem_append.mp inside with old | new
      · exact sound.calm e old
      · rw [List.mem_singleton.mp new]
        exact List.isChain_singleton _
    · rw [used]
      exact sound.usedBytes
    · rw [used]
      exact sound.liveAllocations
    · intro notReady
      exact absurd (ready.symm.trans notReady) (by decide)
    · intro c inside cUsed x bytesIn
      have header := mem_headers_of_mem_blocks inside
      refine (touched x ?_).trans (kept c header x (by have := bytesIn.1; omega) bytesIn.2)
      apply links_off_payload extended.phys _ (c := c) _ _ bytesIn
      · intro y node
        rcases List.mem_cons.mp node with same | old
        · exact ⟨_, member, same.symm⟩
        · exact extended.known y old
      · simp [inside]
      · intro node
        rcases List.mem_cons.mp node with same | old
        · have equal := addr_injective extended.phys (b := c)
            (mem_headers_of_mem_blocks (by simp [inside])) (mem_headers_of_mem_blocks member) same
          rw [equal] at cUsed
          exact absurd cUsed (by simp [firstBlock])
        · exact used_off sound inside cUsed old
  · rw [refused]
    exact ⟨L, listed, sound, rfl, fun _ _ _ _ _ => rfl, ready, fun taken => absurd taken small⟩

end Extend

/-! What a caller sees of the arena: the blocks in use. -/

def Alive (h : Heap) (used : List Block) : Prop :=
  ∃ L listed, Sound h L listed ∧ (usedIn (blocks L)).Perm used

/-- The payloads of `used` hold the same bytes. -/
def Keeps (m m' : Memory) (used : List Block) : Prop :=
  ∀ c ∈ used, ∀ x, payload c x → m' x = m x

section Seen
variable {h : Heap} {used : List Block}

theorem keeps_refl (m : Memory) (used : List Block) : Keeps m m used := fun _ _ _ _ => rfl

theorem keeps_trans {m m' m'' : Memory} (first : Keeps m m' used) (second : Keeps m' m'' used) :
    Keeps m m'' used :=
  fun c member x inside => (second c member x inside).trans (first c member x inside)

theorem keeps_of_spares {m m' : Memory} {bs : List Block} (spared : Spares m m' bs)
    (perm : (usedIn bs).Perm used) : Keeps m m' used := by
  intro c member x inside
  have found := List.mem_filter.mp (perm.mem_iff.mpr member)
  exact spared c found.1 (by simpa using found.2) x inside

theorem alive_perm {used' : List Block} (alive : Alive h used) (perm : used.Perm used') :
    Alive h used' := by
  obtain ⟨L, listed, sound, same⟩ := alive
  exact ⟨L, listed, sound, same.trans perm⟩

theorem addRegion_alive (alive : Alive h used) (ready : h.ready = true) {base size : Nat}
    (real : base ≠ 0) (given : Given (base, size) h.regions) :
    Alive (addRegion h base size).1 used ∧ Keeps h.mem (addRegion h base size).1.mem used ∧
      (addRegion h base size).1.ready = true := by
  obtain ⟨L, listed, sound, perm⟩ := alive
  obtain ⟨L', listed', after, same, spared, still, _⟩ := addRegion_spec sound ready real given
  exact ⟨⟨L', listed', after, same ▸ perm⟩, keeps_of_spares spared perm, still⟩

/-- The application keeps its side: each range it hands over is memory of its own. -/
structure Honest (platform : Platform) (h : Heap) : Prop where
  config : h.ready = false → Given platform.config []
  more : ∀ more need range, platform.more = some more → more need = some range →
    Given range (ensureReady platform h).regions

theorem ensureReady_spec {platform : Platform} (alive : Alive h used)
    (honest : Honest platform h) :
    Alive (ensureReady platform h) used ∧ Keeps h.mem (ensureReady platform h).mem used ∧
      (ensureReady platform h).ready = true := by
  by_cases ready : h.ready = true
  · have same : ensureReady platform h = h := by simp [ensureReady, ready]
    rw [same]
    exact ⟨alive, keeps_refl _ _, ready⟩
  · obtain ⟨L, listed, sound, perm⟩ := alive
    have off : h.ready = false := by simpa using ready
    -- an arena that was never set up has no regions, so no block is in use
    have none_ : L = [] := by
      have regions := sound.arena.phys.regions
      rw [sound.unready off] at regions
      exact List.map_eq_nil_iff.mp regions
    subst none_
    have nothing : used = [] := perm.symm.eq_nil
    subst nothing
    have fresh : Alive { h with freeList := 0, regions := [], stats := {}, ready := true } [] :=
      ⟨[], [], ⟨⟨⟨rfl, by simp, List.Pairwise.nil⟩, rfl, List.nodup_nil, by simp⟩,
        List.Perm.refl _, by simp, rfl, rfl, by simp⟩, List.Perm.refl _⟩
    simp only [ensureReady, init, off, Bool.false_eq_true, ↓reduceIte]
    by_cases usable : platform.config.1 ≠ 0 ∧ platform.config.2 ≥ headerSize * 2 + minPayload
    · rw [if_pos usable]
      exact addRegion_alive fresh rfl usable.1 (honest.config off)
    · rw [if_neg usable]
      exact ⟨fresh, keeps_refl _ _, rfl⟩

theorem grow_spec {platform : Platform} (alive : Alive h used) (ready : h.ready = true)
    (honest : Honest platform h) (wanted : Nat) :
    Alive (grow platform h wanted).1 used ∧ Keeps h.mem (grow platform h wanted).1.mem used ∧
      (grow platform h wanted).1.ready = true := by
  have same : ensureReady platform h = h := by simp [ensureReady, ready]
  have unchanged : Alive h used ∧ Keeps h.mem h.mem used ∧ h.ready = true :=
    ⟨alive, keeps_refl _ _, ready⟩
  unfold grow
  cases asked : platform.more with
  | none => exact unchanged
  | some more =>
      simp only
      generalize wrap (wanted + headerSize * 2 + alignment) = need
      by_cases wraps : need < wanted
      · rw [if_pos wraps]
        exact unchanged
      rw [if_neg wraps]
      cases answer : more need with
      | none => exact unchanged
      | some range =>
          obtain ⟨base, size⟩ := range
          by_cases null : base = 0
          · simp only [null, ↓reduceIte]
            exact unchanged
          · simp only [null, ↓reduceIte]
            have given := honest.more more need (base, size) asked answer
            rw [same] at given
            exact addRegion_alive alive ready null given

end Seen
end R2Apps.HeapGrowth
