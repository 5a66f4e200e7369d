import R2Apps.HeapGrowth

/-! One contract for each public call: how the blocks in use change, and that
the payloads of all others keep their bytes. -/
namespace R2Apps.HeapContracts
open ByteMemory DoublyLinked HeapArena HeapLayout HeapBlocks HeapOperations HeapCalls HeapGrowth

theorem wrap_sub {total part : Nat} (within_ : part ≤ total) (fits : total < wordSpan) :
    wrap (total + wordSpan - part) = total - part := by
  simp only [wrap, wordSpan] at *
  omega

section InHand
variable {h : Heap} {left right : Layout} {r : Region} {front tail : List Block} {b : Block}
variable {listed : List Nat}

theorem held_stats (held : Held h left r front b tail right listed) (stats : Stats) :
    Held { h with stats := stats } left r front b tail right listed :=
  { held with arena := ⟨held.arena.phys, held.arena.links, held.arena.unique, held.arena.known⟩ }

theorem held_payload (held : Held h left r front b tail right listed) :
    payloadSize h.mem b.addr = b.size := by
  have member : b ∈ blocks (left ++ (r, front ++ ([b] ++ tail)) :: right) := by simp
  exact payload_of_word (physical_word held.arena.phys (mem_headers_of_mem_blocks member))
    (physical_sized held.arena.phys member).2

theorem held_free (held : Held h left r front b tail right listed) :
    isFree h.mem b.addr = b.free := by
  have member : b ∈ blocks (left ++ (r, front ++ ([b] ++ tail)) :: right) := by simp
  exact isFree_of_word (physical_word held.arena.phys (mem_headers_of_mem_blocks member))
    (physical_sized held.arena.phys member).2

theorem held_used_lt (held : Held h left r front b tail right listed) :
    b.size + ((usedIn (around left front tail right)).map Block.size).sum +
      16 * (1 + (usedIn (around left front tail right)).length) < wordSpan := by
  have total := physical_total held.arena.phys
  have inside := physical_span held.arena.phys
  have used := used_span (around left front tail right)
  have shape : span (blocks (left ++ (r, front ++ ([b] ++ tail)) :: right)) =
      16 + b.size + span (around left front tail right) := by
    simp only [span, around, blocks_append, blocks_cons, List.map_append, List.sum_append,
      List.map_cons, List.map_nil, List.sum_cons, List.sum_nil]
    omega
  omega

theorem usedIn_around_congr (left : Layout) (front : List Block) (right : Layout)
    {tail tail' : List Block} (same : usedIn tail' = usedIn tail) :
    usedIn (around left front tail' right) = usedIn (around left front tail right) := by
  simp only [around, usedIn_append, same]

end InHand

section Allocate
variable {h : Heap} {used : List Block} {platform : Platform}

theorem takeBlock_spec {L : Layout} {listed : List Nat} (sound : Sound h L listed)
    (perm : (usedIn (blocks L)).Perm used) (ready : h.ready = true) {b : Block} {wanted : Nat}
    (member : b ∈ blocks L) (free : b.free = true) (enough : wanted ≤ b.size)
    (large : 16 ≤ wanted) (even : wanted % 16 = 0) :
    ∃ b', (takeBlock h b.addr wanted).2 = b'.addr + 16 ∧ wanted ≤ b'.size ∧
      Alive (takeBlock h b.addr wanted).1 (b' :: used) ∧
      Keeps h.mem (takeBlock h b.addr wanted).1.mem used ∧
      (takeBlock h b.addr wanted).1.ready = true := by
  obtain ⟨left, r, front, tail, right, listed', shape, held, spared, stats, still⟩ :=
    hold_free sound member free
  subst shape
  have others : (usedIn (around left front tail right)).Perm used := by
    refine List.Perm.trans ?_ perm
    simpa [free] using (usedIn_around left r front b tail right).symm
  obtain ⟨b', tail', listed'', split, addr, _, least, _, sameUsed, splitSpared, _, splitStats,
    splitReady⟩ := held_split held large even enough
  obtain ⟨marked, flagSpared, _⟩ := held_flag split false
  have aroundSame := usedIn_around_congr left front right sameUsed
  have size := held_payload marked
  have bounded := held_used_lt marked
  have bytesBefore := sound.usedBytes
  have countBefore := sound.liveAllocations
  have permBefore := usedIn_around left r front b tail right
  rw [(permBefore.map Block.size).sum_eq] at bytesBefore
  rw [permBefore.length_eq] at countBefore
  simp only [usedIn_cons, free, ↓reduceIte, usedIn_nil, List.nil_append] at bytesBefore countBefore
  rw [addr] at marked flagSpared size
  simp only at size bounded
  have finished : Sound (takeBlock h b.addr wanted).1
      (left ++ (r, front ++ ([⟨b.addr, b'.size, false⟩] ++ tail')) :: right) listed'' := by
    apply close_used (held_stats marked _) rfl
    · exact (splitReady.trans still).trans ready
    · show wrap _ = _
      rw [splitStats, stats, bytesBefore, size, ← aroundSame]
      refine (Nat.mod_eq_of_lt ?_).trans (Nat.add_comm _ _)
      omega
    · show wrap _ = _
      rw [splitStats, stats, countBefore, ← aroundSame]
      refine (Nat.mod_eq_of_lt ?_).trans (Nat.add_comm _ _)
      omega
  refine ⟨⟨b.addr, b'.size, false⟩, rfl, least, ⟨_, _, finished, ?_⟩, ?_,
    (splitReady.trans still).trans ready⟩
  · refine (usedIn_around left r front ⟨b.addr, b'.size, false⟩ tail' right).trans ?_
    rw [aroundSame]
    simpa using others.cons ⟨b.addr, b'.size, false⟩
  · have first : Keeps h.mem (freeListRemove h b.addr).mem used := keeps_of_spares spared perm
    have second := keeps_of_spares splitSpared others
    have third := keeps_of_spares flagSpared (aroundSame ▸ others)
    exact keeps_trans first (keeps_trans second third)

theorem alive_countFailure (alive : Alive h used) : Alive (countFailure h) used := by
  obtain ⟨L, listed, sound, perm⟩ := alive
  refine ⟨L, listed, { sound with arena := ?_ }, perm⟩
  exact ⟨sound.arena.phys, sound.arena.links, sound.arena.unique, sound.arena.known⟩

theorem honest_ready (honest : Honest platform h) (ready : (ensureReady platform h).ready = true) :
    Honest platform (ensureReady platform h) := by
  have again : ensureReady platform (ensureReady platform h) = ensureReady platform h := by
    rw [ensureReady, if_pos ready]
  refine ⟨fun off => absurd (ready.symm.trans off) (by decide), ?_⟩
  rw [again]
  exact honest.more

/-- What `allocate` may come back with: nothing, or a new block of at least `size` bytes. -/
def Served (h' : Heap) (q size : Nat) (used : List Block) : Prop :=
  q = 0 ∧ Alive h' used ∨ ∃ b, q = b.addr + 16 ∧ size ≤ b.size ∧ Alive h' (b :: used)

theorem take_first_fit (alive : Alive h used) (ready : h.ready = true) {size wanted : Nat}
    (atLeast : size ≤ wanted) (large : 16 ≤ wanted) (even : wanted % 16 = 0) :
    ∃ x, firstFit h wanted = some x ∧ (x ≠ 0 →
      (takeBlock h x wanted).1.ready = true ∧ Keeps h.mem (takeBlock h x wanted).1.mem used ∧
        Served (takeBlock h x wanted).1 (takeBlock h x wanted).2 size used) := by
  obtain ⟨L, listed, sound, perm⟩ := alive
  obtain ⟨x, found, fits⟩ := firstFit_spec sound wanted
  refine ⟨x, found, fun real => ?_⟩
  obtain ⟨b, member, free, same, enough⟩ := fits real
  subst same
  obtain ⟨b', pointer, least, after, kept, still⟩ :=
    takeBlock_spec sound perm ready member free enough large even
  exact ⟨still, kept, Or.inr ⟨b', pointer, Nat.le_trans atLeast least, after⟩⟩

theorem allocate_spec (alive : Alive h used) (honest : Honest platform h) {size : Nat}
    (fits : size < wordSpan) :
    ∃ h' q, allocate platform h size = some (h', q) ∧ h'.ready = true ∧
      Keeps h.mem h'.mem used ∧ Served h' q size used := by
  obtain ⟨aliveReady, keptReady, ready⟩ := ensureReady_spec alive honest
  have honestReady := honest_ready honest ready
  unfold allocate
  generalize ensureReady platform h = g at *
  simp only
  generalize requestIs : (if size = 0 then 1 else size) = request
  have request_ : size ≤ request ∧ 0 < request ∧ request < wordSpan := by
    subst requestIs
    split
    · simp only [wordSpan]
      omega
    · omega
  have failed : ∀ g' : Heap, Alive g' used → g'.ready = true → Keeps h.mem g'.mem used →
      ∃ h' q, some (countFailure g', 0) = some (h', q) ∧ h'.ready = true ∧
        Keeps h.mem h'.mem used ∧ Served h' q size used :=
    fun g' same still kept => ⟨_, _, rfl, still, kept, Or.inl ⟨rfl, alive_countFailure same⟩⟩
  rcases wantedFor_cases request request_.2.2 request_.2.1 with
    ⟨_, atLeast, _, large, even⟩ | ⟨huge, wrapped⟩
  · rw [if_neg (by omega)]
    obtain ⟨x, found, taken⟩ := take_first_fit aliveReady ready
      (Nat.le_trans request_.1 atLeast) large even
    rw [found]
    simp only [Option.bind_eq_bind, Option.bind_some]
    by_cases real : x ≠ 0
    · rw [if_pos real]
      obtain ⟨still, kept, served⟩ := taken real
      exact ⟨_, _, rfl, still, keeps_trans keptReady kept, served⟩
    · rw [if_neg real]
      obtain ⟨aliveGrown, keptGrown, stillGrown⟩ :=
        grow_spec aliveReady ready honestReady (wantedFor request)
      generalize grow platform g (wantedFor request) = grown at *
      obtain ⟨more, answer⟩ := grown
      simp only at *
      have keptMore := keeps_trans keptReady keptGrown
      cases answer with
      | false => exact failed more aliveGrown stillGrown keptMore
      | true =>
          obtain ⟨y, foundMore, takenMore⟩ := take_first_fit aliveGrown stillGrown
            (Nat.le_trans request_.1 atLeast) large even
          simp only [Bool.not_true, Bool.false_eq_true, ↓reduceIte, foundMore, Option.bind_some]
          by_cases null : y = 0
          · rw [if_pos null]
            exact failed more aliveGrown stillGrown keptMore
          · rw [if_neg null]
            obtain ⟨still, kept, served⟩ := takenMore null
            exact ⟨_, _, rfl, still, keeps_trans keptMore kept, served⟩
  · have refused : wantedFor request < request := by
      rw [wrapped]
      simp only [wordSpan] at huge
      omega
    rw [if_pos refused]
    exact failed g aliveReady ready keptReady

end Allocate

section Release
variable {h : Heap} {used : List Block} {b : Block}

/-- Blocks are in use, and others were freed since: their headers are still marked. -/
def Freed (h : Heap) (used : List Block) (freed : List Nat) : Prop :=
  ∃ L listed, Sound h L listed ∧ (usedIn (blocks L)).Perm used ∧ ∀ q ∈ freed, Marked h.mem (blocks L) q

theorem freed_alive {freed : List Nat} (before : Freed h used freed) : Alive h used := by
  obtain ⟨L, listed, sound, perm, _⟩ := before
  exact ⟨L, listed, sound, perm⟩

theorem alive_freed (alive : Alive h used) : Freed h used [] := by
  obtain ⟨L, listed, sound, perm⟩ := alive
  exact ⟨L, listed, sound, perm, fun q none_ => absurd none_ List.not_mem_nil⟩

theorem open_freed {freed : List Nat} (before : Freed h (b :: used) freed) :
    ∃ left r front tail right listed, Held h left r front b tail right listed ∧ b.free = false ∧
      (usedIn (around left front tail right)).Perm used ∧
      h.stats.usedBytes =
        b.size + ((usedIn (around left front tail right)).map Block.size).sum ∧
      h.stats.liveAllocations = 1 + (usedIn (around left front tail right)).length ∧
      ∀ q ∈ freed, Marked h.mem (around left front tail right) q := by
  obtain ⟨L, listed, sound, perm, marks⟩ := before
  have found := List.mem_filter.mp (perm.mem_iff.mpr List.mem_cons_self)
  have flag : b.free = false := by simpa using found.2
  obtain ⟨left, r, front, tail, right, shape, held⟩ := hold_used sound found.1 flag
  subst shape
  have split : (usedIn (blocks (left ++ (r, front ++ ([b] ++ tail)) :: right))).Perm
      (b :: usedIn (around left front tail right)) := by
    simpa [flag] using usedIn_around left r front b tail right
  refine ⟨left, r, front, tail, right, listed, held, flag, ?_, ?_, ?_, ?_⟩
  · exact (split.symm.trans perm).cons_inv
  · rw [sound.usedBytes, (split.map Block.size).sum_eq]
    rfl
  · rw [sound.liveAllocations, split.length_eq, List.length_cons, Nat.add_comm]
  · intro q member
    obtain ⟨flagged, c, inside, free, place⟩ := marks q member
    refine ⟨flagged, c, ?_, free, place⟩
    have other : c ≠ b := by
      rintro rfl
      rw [flag] at free
      cases free
    simpa [around, other] using inside

theorem open_used (alive : Alive h (b :: used)) :
    ∃ left r front tail right listed, Held h left r front b tail right listed ∧ b.free = false ∧
      (usedIn (around left front tail right)).Perm used ∧
      h.stats.usedBytes =
        b.size + ((usedIn (around left front tail right)).map Block.size).sum ∧
      h.stats.liveAllocations = 1 + (usedIn (around left front tail right)).length := by
  obtain ⟨left, r, front, tail, right, listed, held, flag, others, bytes, count, _⟩ :=
    open_freed (alive_freed alive)
  exact ⟨left, r, front, tail, right, listed, held, flag, others, bytes, count⟩

theorem behind_last (previous : Nat) (front : List Block) (f : Block) :
    behind previous (front ++ [f]) = f.size := by
  induction front generalizing previous with
  | nil => rfl
  | cons c rest ih => exact ih c.size

section Before
variable {left right : Layout} {r : Region} {front tail : List Block} {listed : List Nat}

theorem prevBlock_none (held : Held h left r [] b tail right listed) :
    prevBlock h.mem b.addr = 0 := by
  have tag := (site (b := b) [] held.arena.phys).2.1
  have none_ : prevSize h.mem b.addr = 0 := tag
  rw [prevBlock, if_pos none_]

theorem prevBlock_some {f : Block} (held : Held h left r (front ++ [f]) b tail right listed) :
    prevBlock h.mem b.addr = f.addr ∧ f.addr ≠ 0 ∧ isFree h.mem f.addr = f.free ∧
      payloadSize h.mem f.addr = f.size := by
  obtain ⟨place, tag, _⟩ := site (b := b) [] held.arena.phys
  have member : f ∈ blocks (left ++ (r, front ++ [f] ++ ([b] ++ tail)) :: right) := by simp
  have header := mem_headers_of_mem_blocks member
  have word := physical_word held.arena.phys header
  have size := physical_sized held.arena.phys member
  have range := physical_range held.arena.phys header
  have tagIs : prevSize h.mem b.addr = f.size := tag.trans (behind_last 0 front f)
  have stops : f.stop = b.addr := by
    rw [reach_append] at place
    exact place
  have large := size.1
  have nonzero : ¬ f.size = 0 := by omega
  refine ⟨?_, by omega, isFree_of_word word size.2, payload_of_word word size.2⟩
  rw [prevBlock, tagIs, if_neg nonzero]
  simp only [headerSize, Block.stop] at *
  omega

end Before

/-- Giving the block in hand back, as the second half of `deallocate` does. -/
def rejoin (h : Heap) (b : Nat) : Heap :=
  let before := prevBlock h.mem b
  if before ≠ 0 ∧ isFree h.mem before then
    let word := (payloadSize h.mem before + headerSize + payloadSize h.mem b) ||| freeFlag
    { h with mem := restamp h.mem before word }
  else freeListInsert h b

section Rejoin
variable {left right : Layout} {r : Region} {front tail : List Block} {listed : List Nat} {q : Nat}

theorem blocks_around (left : Layout) (r : Region) (front : List Block) (b : Block) (tail : List Block)
    (right : Layout) :
    blocks (left ++ (r, front ++ ([b] ++ tail)) :: right) = around left front (b :: tail) right := by
  simp [around]

theorem marked_flag (held : Held h left r front b tail right listed)
    (marked : Marked h.mem (around left front tail right) q) :
    Marked (setFree h.mem b.addr true) (around left front ({ b with free := true } :: tail) right) q := by
  obtain ⟨flagged, touched⟩ := arena_flag true held.arena
  have bHeader : b ∈ headers (left ++ (r, front ++ ([b] ++ tail)) :: right) :=
    mem_headers_of_mem_blocks (by simp)
  refine marked_change flagged.phys (by simp [around]) ?_ marked
  intro c member free place
  have stays : c ∈ around left front ({ b with free := true } :: tail) right := by
    simp only [around, List.mem_append, List.mem_cons] at member ⊢
    tauto
  rcases place with own | stale
  · exact Or.inl ⟨c, stays, free, own⟩
  · refine Or.inr ⟨⟨c, stays, free, stale⟩, fun x lower upper => touched x ?_⟩
    exact header_off_payload held.arena.phys bHeader (held_around_mem member)
      (stale_payload stale lower upper)

theorem marked_insert (held : Held h left r front b tail right listed)
    (marked : Marked h.mem (around left front (b :: tail) right) q) :
    Marked (freeListInsert h b.addr).mem (around left front (b :: tail) right) q := by
  have member : b ∈ blocks (left ++ (r, front ++ ([b] ++ tail)) :: right) := by simp
  obtain ⟨inserted, touched⟩ := arena_insert held.arena member (held_off held)
  rw [← blocks_around left r] at marked ⊢
  refine marked_change inserted.phys (fun _ inside => inside) ?_ marked
  intro c found free place
  rcases place with own | stale
  · exact Or.inl ⟨c, found, free, own⟩
  · refine Or.inr ⟨⟨c, found, free, stale⟩, fun x lower upper => touched x ?_⟩
    exact stale_off_links held.arena.phys inserted.known found stale lower upper

theorem marked_before {f : Block} (held : Held h left r (front ++ [f]) b tail right listed)
    (marked : Marked h.mem (around left (front ++ [f]) (b :: tail) right) q) :
    Marked (restamp h.mem f.addr (f.size + 16 + b.size + 1))
      (around left front (⟨f.addr, f.size + 16 + b.size, true⟩ :: tail) right) q := by
  have arena := held.arena
  have shape : (front ++ [f]) ++ ([b] ++ tail) = front ++ ([f, b] ++ tail) := by simp
  rw [shape] at arena
  obtain ⟨merged, touched⟩ := arena_merge true arena (held_off held)
  have none_ : ∀ x ∈ ([] : List Nat), ∃ c ∈ blocks (left ++ (r, front ++ ([f, b] ++ tail)) :: right),
      c.addr = x := by
    intro x node
    exact absurd node List.not_mem_nil
  apply marked_merge arena.phys merged.phys none_
  · exact fun x outside => touched x fun inside => outside (Or.inr inside)
  · simpa [around] using marked

end Rejoin

theorem rejoin_spec {left right : Layout} {r : Region} {front tail : List Block}
    {listed : List Nat} (held : Held h left r front b tail right listed) (free : b.free = true)
    (ready : h.ready = true) (quietTail : ∀ n ∈ tail.head?, n.free = false)
    (others : (usedIn (around left front tail right)).Perm used)
    (bytes : h.stats.usedBytes = ((usedIn (around left front tail right)).map Block.size).sum)
    (count : h.stats.liveAllocations = (usedIn (around left front tail right)).length) :
    (∃ L listed', Sound (rejoin h b.addr) L listed' ∧ (usedIn (blocks L)).Perm used ∧
      ∀ q, Marked h.mem (around left front (b :: tail) right) q →
        Marked (rejoin h b.addr).mem (blocks L) q) ∧
      Keeps h.mem (rejoin h b.addr).mem used ∧ (rejoin h b.addr).ready = true := by
  have inserts (quietFront : ∀ f ∈ front.getLast?, f.free = false)
      (off : ¬ (prevBlock h.mem b.addr ≠ 0 ∧ isFree h.mem (prevBlock h.mem b.addr) = true)) :
      (∃ L listed', Sound (rejoin h b.addr) L listed' ∧ (usedIn (blocks L)).Perm used ∧
        ∀ q, Marked h.mem (around left front (b :: tail) right) q →
          Marked (rejoin h b.addr).mem (blocks L) q) ∧
        Keeps h.mem (rejoin h b.addr).mem used ∧ (rejoin h b.addr).ready = true := by
    obtain ⟨sound, spared⟩ := close_insert held free ready quietFront quietTail bytes count
    simp only [rejoin, if_neg off]
    refine ⟨⟨_, _, sound, ?_, ?_⟩, keeps_of_spares spared others, ready⟩
    · refine (usedIn_around left r front b tail right).trans ?_
      simpa [free] using others
    · intro q marked
      rw [blocks_around]
      exact marked_insert held marked
  rcases List.eq_nil_or_concat front with none_ | ⟨rest, f, shape⟩
  · subst none_
    apply inserts
    · simp
    · simp [prevBlock_none held]
  · rw [List.concat_eq_append] at shape
    subst shape
    obtain ⟨before, real, flag, size⟩ := prevBlock_some held
    cases fFree : f.free with
    | false =>
        apply inserts
        · intro g last
          simp only [List.getLast?_append, List.getLast?_singleton, Option.some_or,
            Option.mem_def, Option.some.injEq] at last
          rw [← last]
          exact fFree
        · rw [before, flag, fFree]
          simp
    | true =>
        obtain ⟨sound, spared⟩ := close_merge held fFree ready quietTail bytes count
        have sizes : (f.size + headerSize + b.size) ||| freeFlag = f.size + 16 + b.size + 1 := by
          have even : (f.size + 16 + b.size) % 16 = 0 := by
            have fSize := physical_sized held.arena.phys (b := f) (by simp)
            have bSize := physical_sized held.arena.phys (b := b) (by simp)
            have fEven := fSize.2
            have bEven := bSize.2
            omega
          simpa [headerSize] using or_flag _ even true
        have taken : rejoin h b.addr =
            { h with mem := restamp h.mem f.addr (f.size + 16 + b.size + 1) } := by
          simp only [rejoin, before, flag, fFree, size, held_payload held, sizes]
          rw [if_pos ⟨real, trivial⟩]
        rw [taken]
        refine ⟨⟨_, _, sound, ?_, ?_⟩, keeps_of_spares spared others, ready⟩
        · refine List.Perm.trans ?_ others
          refine List.Perm.of_eq ?_
          simp [around, fFree]
        · intro q marked
          rw [blocks_around]
          exact marked_before held marked

theorem deallocate_freed {freed : List Nat} (before : Freed h (b :: used) freed) (ready : h.ready = true) :
    Freed (deallocate h (b.addr + 16)) used (b.addr :: freed) ∧
      Keeps h.mem (deallocate h (b.addr + 16)).mem used ∧
      (deallocate h (b.addr + 16)).ready = true := by
  obtain ⟨left, r, front, tail, right, listed, held, flag, others, bytes, count, marks⟩ := open_freed before
  have bounded := held_used_lt held
  obtain ⟨marked, flagSpared, _⟩ := held_flag held true
  generalize statsIs : ({ h.stats with
        usedBytes := wrap (h.stats.usedBytes + wordSpan - payloadSize h.mem b.addr)
        liveAllocations := wrap (h.stats.liveAllocations + wordSpan - 1) } : Stats) = stats
  obtain ⟨b', tail', listed', merged, addr, stillFree, _, quiet, sameUsed, spared, sameStats,
    sameReady, coalesced⟩ := held_coalesce (held_stats marked stats)
  simp only at merged addr stillFree spared sameStats sameReady coalesced
  have aroundSame := usedIn_around_congr left front right sameUsed
  have shape : deallocate h (b.addr + 16) = rejoin (coalesceForward
      { h with stats := stats, mem := setFree h.mem b.addr true } b.addr) b.addr := by
    have isUsed := (held_free held).trans flag
    simp only [deallocate, blockOf, headerSize, Nat.add_sub_cancel, isUsed, statsIs]
    rfl
  have bytesNow : stats.usedBytes =
      ((usedIn (around left front tail' right)).map Block.size).sum := by
    rw [← statsIs, aroundSame]
    show wrap _ = _
    rw [held_payload held, bytes, wrap_sub (by omega) (by omega)]
    omega
  have countNow : stats.liveAllocations = (usedIn (around left front tail' right)).length := by
    rw [← statsIs, aroundSame]
    show wrap _ = _
    rw [count, wrap_sub (by omega) (by omega)]
    omega
  -- the header given back is marked when its flag is set, the others were before
  have flagged : ∀ q ∈ b.addr :: freed, Marked (setFree h.mem b.addr true)
      (around left front ({ b with free := true } :: tail) right) q := by
    intro q member
    rcases List.mem_cons.mp member with same | old
    · rw [same]
      exact ⟨held_free marked, { b with free := true }, by simp [around], rfl, Or.inl rfl⟩
    · exact marked_flag held (marks q old)
  rw [← aroundSame] at others
  obtain ⟨⟨L, listed'', sound, perm, rejoined⟩, kept, still⟩ := rejoin_spec merged stillFree
    (sameReady.trans ready) quiet others (by rw [sameStats]; exact bytesNow)
      (by rw [sameStats]; exact countNow)
  rw [addr] at sound rejoined kept still
  rw [shape]
  refine ⟨⟨L, listed'', sound, perm, ?_⟩, ?_, still⟩
  · exact fun q member => rejoined q (coalesced q trivial (flagged q member))
  · have first := keeps_of_spares flagSpared (aroundSame ▸ others)
    have second := keeps_of_spares spared (aroundSame ▸ others)
    exact keeps_trans first (keeps_trans second kept)

theorem deallocate_spec (alive : Alive h (b :: used)) (ready : h.ready = true) :
    Alive (deallocate h (b.addr + 16)) used ∧
      Keeps h.mem (deallocate h (b.addr + 16)).mem used ∧
      (deallocate h (b.addr + 16)).ready = true := by
  obtain ⟨after, kept, still⟩ := deallocate_freed (alive_freed alive) ready
  exact ⟨freed_alive after, kept, still⟩

end Release

section Resize
variable {h : Heap} {used : List Block} {b : Block} {platform : Platform}

theorem shrinkTo_spec (alive : Alive h (b :: used)) (ready : h.ready = true) {wanted : Nat}
    (large : 16 ≤ wanted) (even : wanted % 16 = 0) (enough : wanted ≤ b.size) :
    ∃ b', b'.addr = b.addr ∧ wanted ≤ b'.size ∧ b'.size ≤ b.size ∧
      Alive (shrinkTo h b.addr wanted) (b' :: used) ∧
      Keeps h.mem (shrinkTo h b.addr wanted).mem used ∧
      (∀ x, b.addr + 16 ≤ x → x < b.addr + 16 + wanted →
        (shrinkTo h b.addr wanted).mem x = h.mem x) ∧
      (shrinkTo h b.addr wanted).ready = true := by
  obtain ⟨left, r, front, tail, right, listed, held, flag, others, bytes, count⟩ := open_used alive
  have bounded := held_used_lt held
  obtain ⟨b', tail', listed', split, addr, sameFlag, least, most, sameUsed, spared, kept, stats,
    sameReady⟩ := held_split held large even enough
  have aroundSame := usedIn_around_congr left front right sameUsed
  have size := held_payload split
  rw [addr] at size
  have total : wrap (h.stats.usedBytes + wordSpan - (b.size - b'.size)) =
      b'.size + ((usedIn (around left front tail' right)).map Block.size).sum := by
    rw [bytes, aroundSame, wrap_sub (by omega) (by omega)]
    omega
  have shape : shrinkTo h b.addr wanted =
      { splitBlock h b.addr wanted with stats := { h.stats with
          usedBytes := b'.size + ((usedIn (around left front tail' right)).map Block.size).sum } } := by
    simp only [shrinkTo, held_payload held, size, stats, total]
  rw [shape]
  generalize splitBlock h b.addr wanted = parted at *
  have finished := close_used (held_stats split { h.stats with
      usedBytes := b'.size + ((usedIn (around left front tail' right)).map Block.size).sum })
    (sameFlag.trans flag) (sameReady.trans ready) rfl (by rw [aroundSame]; exact count)
  refine ⟨b', addr, least, most, ⟨_, _, finished, ?_⟩, keeps_of_spares spared others, kept,
    sameReady.trans ready⟩
  refine (usedIn_around left r front b' tail' right).trans ?_
  rw [aroundSame]
  simpa [sameFlag.trans flag] using others.cons b'

section Next
variable {left right : Layout} {r : Region} {front tail : List Block} {listed : List Nat}

theorem held_next (held : Held h left r front b tail right listed)
    (free : isFree h.mem (nextBlock h.mem b.addr) = true) :
    ∃ n rest, tail = n :: rest ∧ n.free = true ∧ nextBlock h.mem b.addr = n.addr ∧
      payloadSize h.mem n.addr = n.size := by
  obtain ⟨_, _, nx, post, ending, nxPlace, nxWord, _, nxHeader⟩ := site (b := b) [] held.arena.phys
  have member : b ∈ blocks (left ++ (r, front ++ ([b] ++ tail)) :: right) := by simp
  have next := next_of_word (physical_word held.arena.phys (mem_headers_of_mem_blocks member))
    (physical_sized held.arena.phys member).2
  have same : nx.addr = b.stop := nxPlace
  have even : nx.size % 16 = 0 := by
    obtain ⟨e, inside, found⟩ := List.mem_flatMap.mp nxHeader
    exact placed_header_sizes (held.arena.phys.placed e inside) found
  rw [next, ← same, isFree_of_word nxWord even] at free
  cases tail with
  | nil =>
      simp only [List.nil_append, List.cons.injEq] at ending
      rw [← ending.1] at free
      exact absurd free (by simp [sentinel])
  | cons n rest =>
      simp only [List.cons_append, List.cons.injEq] at ending
      obtain ⟨isNext, _⟩ := ending
      subst isNext
      exact ⟨n, rest, rfl, free, next.trans same.symm, payload_of_word nxWord even⟩

theorem swallowNext_eq (held : Held h left r front b tail right listed) (flag : b.free = false)
    (free : isFree h.mem (nextBlock h.mem b.addr) = true) :
    swallowNext h b.addr =
      { coalesceForward h b.addr with
        stats := { h.stats with
          usedBytes := wrap (h.stats.usedBytes +
            (payloadSize (coalesceForward h b.addr).mem b.addr - b.size)) } } := by
  have size := held_payload held
  obtain ⟨n, rest, shape, nFree, next, _⟩ := held_next held free
  subst shape
  have onList := held_next_listed held.others n (by simp) nFree
  obtain ⟨before, after, split⟩ := List.append_of_mem onList
  subst split
  obtain ⟨removed, _, stats, _⟩ := arena_remove held.arena
  have bMember : b ∈ blocks (left ++ (r, front ++ ([b] ++ (n :: rest))) :: right) := by simp
  have bWord := physical_word removed.phys (mem_headers_of_mem_blocks bMember)
  have bEven := (physical_sized removed.phys bMember).2
  have sizeAfter := payload_of_word bWord bEven
  have flagAfter : load64 (freeListRemove h n.addr).mem b.addr &&& freeFlag = 0 := by
    rw [bWord, Block.word, and_flag _ bEven, flag]
    rfl
  rw [next] at free
  simp only [swallowNext, coalesceForward, next, free, size, sizeAfter, flagAfter, Nat.or_zero,
    Bool.not_true, Bool.false_eq_true, ↓reduceIte, stats]

theorem held_swallow (held : Held h left r front b tail right listed)
    (free : isFree h.mem (nextBlock h.mem b.addr) = true) :
    ∃ n rest listed', tail = n :: rest ∧ n.free = true ∧
      payloadSize h.mem (nextBlock h.mem b.addr) = n.size ∧
      Held (coalesceForward h b.addr) left r front ⟨b.addr, b.size + 16 + n.size, b.free⟩ rest
        right listed' ∧
      Spares h.mem (coalesceForward h b.addr).mem (around left front tail right) ∧
      (∀ x, payload b x → (coalesceForward h b.addr).mem x = h.mem x) ∧
      (coalesceForward h b.addr).ready = h.ready := by
  obtain ⟨n, rest, shape, nFree, next, size⟩ := held_next held free
  have onList := held_next_listed held.others
  obtain ⟨_, _, _, _, _, _, _, _, kept, _⟩ := arena_coalesce held.arena onList
  have spared : Spares h.mem (coalesceForward h b.addr).mem (around left front tail right) :=
    fun c member used => kept c (held_around_mem member) (held_used_off held member used)
  have own : ∀ x, payload b x → (coalesceForward h b.addr).mem x = h.mem x :=
    kept b (by simp) (held_off held)
  subst shape
  obtain ⟨before, after, split⟩ := List.append_of_mem (onList n (by simp) nFree)
  subst split
  obtain ⟨merged, _, _, ready⟩ := coalesce_merges held.arena nFree
  refine ⟨n, rest, before ++ after, rfl, nFree, next ▸ size, ?_, spared, own, ready⟩
  exact { held with
    arena := merged
    others := others_merged nFree held.others
    calmTail := calm_tail held.calmTail }

end Next

theorem swallowNext_spec (alive : Alive h (b :: used)) (ready : h.ready = true)
    (free : isFree h.mem (nextBlock h.mem b.addr) = true) :
    ∃ b', b'.addr = b.addr ∧
      b'.size = b.size + 16 + payloadSize h.mem (nextBlock h.mem b.addr) ∧
      b'.stop < wordSpan ∧ Alive (swallowNext h b.addr) (b' :: used) ∧
      Keeps h.mem (swallowNext h b.addr).mem (b :: used) ∧
      (swallowNext h b.addr).ready = true := by
  obtain ⟨left, r, front, tail, right, listed, held, flag, others, bytes, count⟩ := open_used alive
  obtain ⟨n, rest, listed', shape, nFree, size, merged, spared, own, sameReady⟩ :=
    held_swallow held free
  have sameUsed : usedIn (around left front rest right) = usedIn (around left front tail right) := by
    simp [around, shape, nFree]
  have bounded := held_used_lt merged
  have grown := held_payload merged
  have range := (physical_range merged.arena.phys
    (b := ⟨b.addr, b.size + 16 + n.size, b.free⟩) (mem_headers_of_mem_blocks (by simp))).2
  rw [sameUsed] at bounded
  simp only at grown bounded
  rw [swallowNext_eq held flag free]
  have total : wrap (h.stats.usedBytes + (b.size + 16 + n.size - b.size)) =
      b.size + 16 + n.size + ((usedIn (around left front tail right)).map Block.size).sum := by
    rw [bytes]
    refine (Nat.mod_eq_of_lt (by omega)).trans ?_
    omega
  rw [grown, total]
  generalize coalesceForward h b.addr = joined at *
  have finished := close_used (held_stats merged { h.stats with
      usedBytes := b.size + 16 + n.size +
        ((usedIn (around left front tail right)).map Block.size).sum })
    flag (sameReady.trans ready) (by rw [sameUsed]) (by rw [sameUsed]; exact count)
  refine ⟨⟨b.addr, b.size + 16 + n.size, b.free⟩, rfl, by rw [size], range,
    ⟨_, _, finished, ?_⟩, ?_, sameReady.trans ready⟩
  · refine (usedIn_around left r front _ rest right).trans ?_
    rw [sameUsed]
    simpa [flag] using others.cons ⟨b.addr, b.size + 16 + n.size, false⟩
  · intro c member x inside
    rcases List.mem_cons.mp member with same | other
    · subst same
      exact own x inside
    · exact keeps_of_spares spared others c other x inside

theorem alive_write (alive : Alive h used) {m' : Memory}
    (same : Within h.mem m' fun x => ∃ c ∈ used, payload c x) :
    Alive { h with mem := m' } used := by
  obtain ⟨L, listed, sound, perm⟩ := alive
  have inLayout : ∀ c ∈ used, c ∈ blocks L ∧ c.free = false := by
    intro c member
    have found := List.mem_filter.mp (perm.mem_iff.mpr member)
    exact ⟨found.1, by simpa using found.2⟩
  have headersOff : ∀ e ∈ headers L, ∀ x, e.addr ≤ x → x < e.addr + 16 → m' x = h.mem x := by
    intro e header x lower upper
    apply same x
    rintro ⟨c, member, inside⟩
    exact header_off_payload sound.arena.phys header (inLayout c member).1 inside ⟨lower, upper⟩
  have phys : Physical m' h.regions L := by
    apply physical_frame sound.arena.phys
    intro e header
    constructor
    · exact load64_congr _ _ _ fun x lower upper => headersOff e header x lower (by omega)
    · exact load64_congr _ _ _ fun x lower upper =>
        headersOff e header x (by omega) (by omega)
  have arena := arena_of_edit sound.arena phys same (by
    rintro x link ⟨c, member, inside⟩
    obtain ⟨found, isUsed⟩ := inLayout c member
    exact links_off_payload sound.arena.phys sound.arena.known found
      (used_off sound found isUsed) inside link) sound.arena.known
  exact ⟨L, listed, { sound with arena := arena }, perm⟩

theorem alive_block (alive : Alive h used) (member : b ∈ used) :
    16 ≤ b.addr ∧ b.addr % 16 = 0 ∧ b.size % 16 = 0 ∧ 16 ≤ b.size ∧ b.stop < wordSpan ∧
      payloadSize h.mem b.addr = b.size := by
  obtain ⟨L, listed, sound, perm⟩ := alive
  have found := (List.mem_filter.mp (perm.mem_iff.mpr member)).1
  have header := mem_headers_of_mem_blocks found
  have size := physical_sized sound.arena.phys found
  have range := physical_range sound.arena.phys header
  exact ⟨range.1, physical_aligned sound.arena.phys header, size.2, size.1, range.2,
    payload_of_word (physical_word sound.arena.phys header) size.2⟩

theorem alive_apart {c : Block} (alive : Alive h (b :: used)) (member : c ∈ used) :
    c.stop ≤ b.addr ∨ b.stop ≤ c.addr := by
  obtain ⟨left, r, front, tail, right, listed, held, _, others, _, _⟩ := open_used alive
  have found := List.mem_filter.mp (others.mem_iff.mpr member)
  exact held_distinct held found.1

/-- The outcomes of `reallocate` on the live block `b`: nothing changes, or `b`
becomes a block of at least `least` bytes that starts with the first `kept`
bytes of `b`. -/
def Resized (h h' : Heap) (b : Block) (used : List Block) (q least kept : Nat) : Prop :=
  q = 0 ∧ Alive h' (b :: used) ∧ Keeps h.mem h'.mem (b :: used) ∨
    ∃ b', q = b'.addr + 16 ∧ least ≤ b'.size ∧ Alive h' (b' :: used) ∧ Keeps h.mem h'.mem used ∧
      ∀ i, i < kept → h'.mem (q + i) = h.mem (b.addr + 16 + i)

theorem move_spec (alive : Alive h (b :: used)) (honest : Honest platform h) {size : Nat}
    (fits : size < wordSpan) :
    ∃ h' fresh, allocate platform h size = some (h', fresh) ∧ h'.ready = true ∧
      (fresh = 0 → Alive h' (b :: used) ∧ Keeps h.mem h'.mem (b :: used)) ∧
      (fresh ≠ 0 → ∃ h'', h'' = deallocate
          { h' with mem := copyBytes h'.mem fresh (b.addr + 16) (min b.size size) } (b.addr + 16) ∧
        h''.ready = true ∧ Resized h h'' b used fresh size (min b.size size)) := by
  obtain ⟨h', fresh, called, still, kept, served⟩ := allocate_spec alive honest fits
  refine ⟨h', fresh, called, still, ?_, ?_⟩
  · intro null
    rcases served with ⟨_, same⟩ | ⟨b', pointer, _, _⟩
    · exact ⟨same, kept⟩
    · omega
  · intro real
    rcases served with ⟨null, _⟩ | ⟨b', pointer, least, after⟩
    · exact absurd null real
    subst pointer
    have bRange := alive_block after (b := b) (by simp)
    have freshRange := alive_block after (b := b') (by simp)
    have inside : min b.size size ≤ b'.size := by omega
    have touched : Within h'.mem (copyBytes h'.mem (b'.addr + 16) (b.addr + 16) (min b.size size))
        (payload b') := by
      intro x outside
      simp only [copyBytes, payload, Block.stop] at *
      rw [if_neg (by omega)]
    have copied := alive_write after fun x outside =>
      touched x fun bytes => outside ⟨b', by simp, bytes⟩
    have ordered := alive_perm copied (List.Perm.swap b b' used)
    obtain ⟨done, doneKept, doneReady⟩ := deallocate_spec ordered still
    refine ⟨_, rfl, doneReady, Or.inr ⟨b', rfl, least, done, ?_, ?_⟩⟩
    · intro c member x bytes
      have apart := alive_apart after (c := c) (by simp [member])
      refine (doneKept c (by simp [member]) x bytes).trans ?_
      refine (touched x ?_).trans (kept c (by simp [member]) x bytes)
      simp only [payload] at *
      simp only [Block.stop] at *
      omega
    · intro i below
      have freshByte : payload b' (b'.addr + 16 + i) := by
        simp only [payload, Block.stop]
        omega
      have oldByte : payload b (b.addr + 16 + i) := by
        simp only [payload, Block.stop]
        omega
      refine (doneKept b' (by simp) _ freshByte).trans ?_
      have source : b'.addr + 16 + i - (b'.addr + 16) = i := by omega
      simp only [copyBytes, source]
      rw [if_pos (by omega)]
      exact kept b (by simp) _ oldByte

theorem reallocate_spec (alive : Alive h (b :: used)) (ready : h.ready = true)
    (honest : Honest platform h) {size : Nat} (positive : 0 < size) (fits : size < wordSpan) :
    ∃ h' q, reallocate platform h (b.addr + 16) size = some (h', q) ∧ h'.ready = true ∧
      (size ≤ wordSpan - 16 → Resized h h' b used q size (min b.size size)) ∧
      (wordSpan - 16 < size → q = b.addr + 16 ∧ Resized h h' b used q 16 16) := by
  have same : ensureReady platform h = h := by simp [ensureReady, ready]
  have notNull : ¬ b.addr + 16 = 0 := by omega
  have notZero : ¬ size = 0 := by omega
  obtain ⟨_, _, _, bLarge, bStop, bSize⟩ := alive_block alive (b := b) (by simp)
  simp only [reallocate, notNull, notZero, ↓reduceIte, same, blockOf, headerSize,
    Nat.add_sub_cancel, bSize]
  have cases_ := wantedFor_cases size fits positive
  have large : 16 ≤ wantedFor size := by
    rcases cases_ with ⟨_, _, _, large, _⟩ | ⟨_, wrapped⟩ <;> omega
  have even : wantedFor size % 16 = 0 := by
    rcases cases_ with ⟨_, _, _, _, even⟩ | ⟨_, wrapped⟩ <;> omega
  have atLeast : size ≤ wordSpan - 16 → size ≤ wantedFor size := by
    intro small
    rcases cases_ with ⟨_, atLeast, _⟩ | ⟨huge, _⟩ <;> omega
  have wrapped : wordSpan - 16 < size → wantedFor size = 16 := by
    intro huge
    rcases cases_ with ⟨small, _⟩ | ⟨_, wrapped⟩ <;> omega
  by_cases shrinks : wantedFor size ≤ b.size
  · rw [if_pos shrinks]
    -- the block is large enough
    obtain ⟨b', addr, least, _, after, kept, first, still⟩ :=
      shrinkTo_spec alive ready large even shrinks
    refine ⟨_, _, rfl, still, ?_, ?_⟩
    · intro small
      have enough := atLeast small
      refine Or.inr ⟨b', by rw [addr], by omega, after, kept, ?_⟩
      intro i below
      exact first _ (by omega) (by omega)
    · intro huge
      have exactly := wrapped huge
      refine ⟨rfl, Or.inr ⟨b', by rw [addr], by omega, after, kept, ?_⟩⟩
      intro i below
      exact first _ (by omega) (by omega)
  · rw [if_neg shrinks]
    have notHuge : ¬ wordSpan - 16 < size := fun huge => by
      have exactly := wrapped huge
      omega
    have enough := atLeast (by omega)
    by_cases grows : isFree h.mem (nextBlock h.mem b.addr) = true ∧
        wrap (b.size + 16 + payloadSize h.mem (nextBlock h.mem b.addr)) ≥ wantedFor size
    · rw [if_pos grows]
      -- it takes in the free block behind it, then gives back what is over
      obtain ⟨b', addr, size', stop, after, kept, still⟩ := swallowNext_spec alive ready grows.1
      have exactly : wrap (b.size + 16 + payloadSize h.mem (nextBlock h.mem b.addr)) = b'.size := by
        rw [size']
        refine Nat.mod_eq_of_lt ?_
        simp only [Block.stop] at stop
        omega
      have room := grows.2
      rw [exactly] at room
      obtain ⟨b'', addr', least, _, after', kept', first, still'⟩ :=
        shrinkTo_spec after still large even room
      rw [addr] at addr' after' kept' first still'
      refine ⟨_, _, rfl, still', ?_, fun huge => absurd huge notHuge⟩
      intro _
      refine Or.inr ⟨b'', by rw [addr'], by omega, after', ?_, ?_⟩
      · exact keeps_trans (fun c member => kept c (List.mem_cons_of_mem b member)) kept'
      · intro i below
        refine (first _ (by omega) (by omega)).trans (kept b (by simp) _ ?_)
        simp only [payload, Block.stop]
        omega
    · rw [if_neg grows]
      -- it moves, if there is another block for it
      obtain ⟨h', fresh, called, still, null, moved⟩ := move_spec alive honest fits
      have count : (if b.size < size then b.size else size) = min b.size size := by
        split <;> omega
      rw [called]
      simp only [Option.bind_eq_bind, Option.bind_some, count]
      by_cases none_ : fresh = 0
      · rw [if_pos none_]
        refine ⟨_, _, rfl, still, fun _ => Or.inl ⟨rfl, null none_⟩, fun huge => absurd huge notHuge⟩
      · rw [if_neg none_]
        obtain ⟨h'', shape, stillMoved, resized⟩ := moved none_
        rw [← shape]
        exact ⟨_, _, rfl, stillMoved, fun _ => resized, fun huge => absurd huge notHuge⟩

end Resize
end R2Apps.HeapContracts
