import R2Apps.HeapContracts

/-! `validate` accepts every arena that is `Sound`. -/
namespace R2Apps.HeapValidate
open ByteMemory DoublyLinked HeapArena HeapLayout HeapBlocks HeapOperations HeapCalls

section Walk
variable {m : Memory} {r : Region}

theorem validateRegion_walk {bs : List Block} {address previous fuel : Nat}
    (chain : Chain m address previous (bs ++ [sentinel r])) (sizes : ∀ b ∈ bs, sized b)
    (room : 16 ≤ r.base + r.size) (enough : bs.length < fuel) :
    validateRegion m (r.base + r.size) fuel address previous = some (.ok, 0) := by
  induction bs generalizing address previous fuel with
  | nil =>
      cases fuel with
      | zero => exact absurd enough (Nat.not_lt_zero _)
      | succ fuel =>
          obtain ⟨place, word, tag, _⟩ := chain
          subst place
          have empty : payloadSize m (sentinel r).addr = 0 := payload_of_word word rfl
          have fits : (sentinel r).addr + headerSize ≤ r.base + r.size := by
            simp only [sentinel, headerSize]
            omega
          have same : prevSize m (sentinel r).addr = previous := tag
          simp [validateRegion, fits, same, empty]
  | cons b rest ih =>
      cases fuel with
      | zero => exact absurd enough (Nat.not_lt_zero _)
      | succ fuel =>
          obtain ⟨place, word, tag, tail⟩ := chain
          subst place
          obtain ⟨large, even⟩ := sizes b (by simp)
          have size := payload_of_word word even
          have next := next_of_word word even
          have further := ih tail (fun c member => sizes c (List.mem_cons_of_mem b member))
            (by simpa using enough)
          -- the sentinel is still ahead, so the header after `b` ends inside the region
          have ahead : b.stop + 16 ≤ r.base + r.size := by
            have bound := (chain_bounds tail (b := sentinel r) (by simp)).1
            simp only [sentinel] at bound
            omega
          have fits : b.addr + headerSize ≤ r.base + r.size := by
            simp only [headerSize, Block.stop] at *
            omega
          have nonzero : ¬ b.size = 0 := by omega
          have forward : ¬ (b.stop ≤ b.addr ∨ b.stop + headerSize > r.base + r.size) := by
            simp only [headerSize, Block.stop] at *
            omega
          have same : prevSize m b.addr = previous := tag
          simp [validateRegion, fits, same, size, nonzero, next, forward, further]

theorem placed_short {bs : List Block} (placed : Placed m r bs) : bs.length < wordSpan := by
  have total := placed_span placed
  have fits := placed.fits
  have many : bs.length ≤ span bs := by
    clear total placed
    induction bs with
    | nil => exact Nat.le_refl _
    | cons b rest ih =>
        simp only [span, List.map_cons, List.sum_cons, List.length_cons] at *
        omega
  omega

theorem validateRegions_ok {L : Layout} (placed : ∀ e ∈ L, Placed m e.1 e.2) :
    validateRegions m (L.map Prod.fst) = some (.ok, 0) := by
  induction L with
  | nil => rfl
  | cons e rest ih =>
      have head := placed e (by simp)
      have walk := validateRegion_walk head.chain head.sizes (by have := head.room; omega)
        (placed_short head)
      have tail := ih fun d inside => placed d (List.mem_cons_of_mem e inside)
      simp [validateRegions, walk, tail]

end Walk

section FreeWalk
variable {h : Heap} {L : Layout}

theorem regionOf_block (phys : Physical h.mem h.regions L) {b : Block} (member : b ∈ blocks L) :
    ∃ r, regionOf h.regions b.addr = some r ∧ b.addr + 16 ≤ r.base + r.size := by
  obtain ⟨e, inside, found⟩ := List.mem_flatMap.mp member
  have bounds := placed_header_bounds (phys.placed e inside) (List.mem_append_left _ found)
  have region : e.1 ∈ h.regions := by
    rw [← phys.regions]
    exact List.mem_map_of_mem inside
  have aligned := physical_aligned phys (mem_headers_of_mem_blocks member)
  cases answer : regionOf h.regions b.addr with
  | none =>
      have missed := List.find?_eq_none.mp answer e.1 region
      simp only [Block.stop] at bounds
      simp only [Bool.and_eq_true, decide_eq_true_eq, not_and, not_lt] at missed
      exact absurd (missed bounds.1) (by omega)
  | some r =>
      have hit := List.find?_some answer
      simp only [Bool.and_eq_true, decide_eq_true_eq] at hit
      have known := List.mem_of_find?_eq_some answer
      rw [← phys.regions] at known
      obtain ⟨d, dInside, same⟩ := List.mem_map.mp known
      subst same
      have placed := phys.placed d dInside
      have baseAligned := placed.baseAligned
      have sizeAligned := placed.sizeAligned
      exact ⟨d.1, rfl, by omega⟩

theorem validateFree_walk (phys : Physical h.mem h.regions L) {limit before head steps fuel : Nat}
    {nodes : List Nat} (linked : Linked (linkNext h.mem) (linkPrev h.mem) 0 before head nodes)
    (free : ∀ x ∈ nodes, ∃ b ∈ blocks L, b.free = true ∧ b.addr = x)
    (few : steps + nodes.length ≤ limit) (enough : nodes.length < fuel) :
    validateFree h limit fuel head steps = some (.ok, 0) := by
  induction nodes generalizing before head steps fuel with
  | nil =>
      cases fuel with
      | zero => exact absurd enough (Nat.not_lt_zero _)
      | succ fuel =>
          have zero : head = 0 := linked
          simp [validateFree, zero]
  | cons x rest ih =>
      cases fuel with
      | zero => exact absurd enough (Nat.not_lt_zero _)
      | succ fuel =>
          obtain ⟨same, _, tail⟩ := linked
          subst same
          obtain ⟨b, member, isFree_, at_⟩ := free head (by simp)
          subst at_
          have header := mem_headers_of_mem_blocks member
          have nonzero : ¬ b.addr = 0 := by
            have range := (physical_range phys header).1
            omega
          obtain ⟨r, answer, room⟩ := regionOf_block phys member
          have inRange : ¬ b.addr + headerSize > r.base + r.size := Nat.not_lt.mpr room
          have marked : isFree h.mem b.addr = true :=
            (isFree_of_word (physical_word phys header) (physical_sized phys member).2).trans isFree_
          simp only [List.length_cons] at few enough
          have notMany : ¬ steps + 1 > limit := by omega
          have further : validateFree h limit fuel (linkNext h.mem b.addr) (steps + 1) =
              some (.ok, 0) :=
            ih tail (fun y inside => free y (List.mem_cons_of_mem _ inside)) (by omega) (by omega)
          simp only [validateFree, nonzero, ↓reduceIte, answer, inRange, marked, Bool.not_true,
            Bool.false_eq_true, notMany, further]

theorem validate_sound {listed : List Nat} (sound : Sound h L listed) (ready : h.ready = true) :
    validate h = some (.ok, 0) := by
  have phys := sound.arena.phys
  have regions := validateRegions_ok phys.placed
  rw [phys.regions] at regions
  have total : wrap (h.regions.map Region.size).sum = (h.regions.map Region.size).sum :=
    Nat.mod_eq_of_lt (physical_total phys)
  have count : listed.length = (freeIn (blocks L)).length := sound.exactly.length_eq
  have spans := free_span (blocks L) fun b member => physical_sized phys member
  have inside := physical_span phys
  have below := physical_total phys
  have walk : validateFree h ((h.regions.map Region.size).sum / 32 + 2) wordSpan h.freeList 0 =
      some (.ok, 0) :=
    validateFree_walk phys sound.arena.links
      (fun x member => mem_freeIn.mp (sound.exactly.mem_iff.mp member)) (by omega) (by omega)
  simp only [validate, ready, Bool.not_true, Bool.false_eq_true, ↓reduceIte, regions,
    Option.bind_eq_bind, Option.bind_some, total, headerSize, minPayload]
  exact walk

end FreeWalk
end R2Apps.HeapValidate
