import R2Apps.HeapRuns

/-! What the arena can serve. The free list decides it as long as a block on it is
large enough; after that the application decides, by the region it hands over. A
region that the table has no room for is asked for all the same, and dropped. -/
namespace R2Apps.HeapCompleteness
open ByteMemory DoublyLinked HeapArena HeapLayout HeapOperations HeapCalls HeapGrowth HeapContracts HeapRuns

/-- What `stats` reports: the counters it keeps, and what it reads off the free list. -/
structure Report where
  kept : Stats
  regions : Nat
  freeBytes : Nat
  largestFreeBlock : Nat

/-- The walk of `stats` from `b` on: free bytes and largest block so far. -/
def surveyFrom (m : Memory) : Nat → Nat → Nat → Nat → Option (Nat × Nat)
  | 0, _, _, _ => none
  | fuel + 1, b, free, largest =>
      if b = 0 then some (free, largest)
      else
        let size := payloadSize m b
        surveyFrom m fuel (linkNext m b) (wrap (free + size)) (if size > largest then size else largest)

def stats (platform : Platform) (h : Heap) : Option (Heap × Report) := do
  let h := ensureReady platform h
  let (free, largest) ← surveyFrom h.mem wordSpan h.freeList 0 0
  some (h, ⟨h.stats, h.regions.length, free, largest⟩)

/-- What `grow` asks `__r2_heap_more` for, if it calls it. -/
def growRequest (platform : Platform) (wanted : Nat) : Option Nat :=
  let need := wrap (wanted + headerSize * 2 + alignment)
  if platform.more.isNone ∨ need < wanted then none else some need

/-- The range `__r2_heap_more` hands over to `grow`. -/
def growHanded (platform : Platform) (wanted : Nat) : Option (Nat × Nat) := do
  let need ← growRequest platform wanted
  let more ← platform.more
  let range ← more need
  if range.1 = 0 then none else some range

/-- The size `allocate` works with: 0 counts as 1. -/
def sizeFor (size : Nat) : Nat := if size = 0 then 1 else size

/-- `allocate` comes to `grow`: the size does not wrap, and nothing on the list fits. -/
def Grows (platform : Platform) (h : Heap) (size : Nat) : Prop :=
  sizeFor size ≤ wantedFor (sizeFor size) ∧
    firstFit (ensureReady platform h) (wantedFor (sizeFor size)) = some 0

instance (platform : Platform) (h : Heap) (size : Nat) : Decidable (Grows platform h size) :=
  inferInstanceAs (Decidable (_ ∧ _))

/-- What `allocate` asks `__r2_heap_more` for, if it calls it. -/
def request (platform : Platform) (h : Heap) (size : Nat) : Option Nat :=
  if Grows platform h size then growRequest platform (wantedFor (sizeFor size)) else none

/-- The range `__r2_heap_more` hands over during `allocate`. -/
def handed (platform : Platform) (h : Heap) (size : Nat) : Option (Nat × Nat) :=
  if Grows platform h size then growHanded platform (wantedFor (sizeFor size)) else none

/-- The request rounded up to 16, with no bound on it. -/
def rounded (size : Nat) : Nat := (max size 1 + 15) / 16 * 16

section Survey
variable {h : Heap} {L : Layout} {listed : List Nat}

theorem survey_walk {m : Memory} {before head fuel : Nat} {nodes : List Nat} (free largest : Nat)
    (linked : Linked (linkNext m) (linkPrev m) 0 before head nodes)
    (real : ∀ x ∈ nodes, x ≠ 0) (enough : nodes.length < fuel) :
    ∃ free' largest', surveyFrom m fuel head free largest = some (free', largest') ∧
      ∀ t, t ≤ largest' ↔ t ≤ largest ∨ ∃ x ∈ nodes, t ≤ payloadSize m x := by
  induction nodes generalizing before head fuel free largest with
  | nil =>
      cases fuel with
      | zero => simp at enough
      | succ fuel =>
          have zero : head = 0 := linked
          refine ⟨free, largest, ?_, ?_⟩
          · simp [surveyFrom, zero]
          · simp
  | cons x rest ih =>
      cases fuel with
      | zero => simp at enough
      | succ fuel =>
          obtain ⟨same, _, tail⟩ := linked
          subst same
          have nonzero := real head (by simp)
          obtain ⟨free', largest', walked, bound⟩ := ih (wrap (free + payloadSize m head))
            (if payloadSize m head > largest then payloadSize m head else largest) tail
            (fun y inside => real y (List.mem_cons_of_mem head inside)) (by simpa using enough)
          refine ⟨free', largest', ?_, ?_⟩
          · simpa only [surveyFrom, nonzero, ↓reduceIte] using walked
          · intro t
            have most : t ≤ (if payloadSize m head > largest then payloadSize m head else largest) ↔
                t ≤ largest ∨ t ≤ payloadSize m head := by
              split <;> omega
            rw [bound t, most, or_assoc, List.exists_mem_cons_iff]

theorem survey_spec (sound : Sound h L listed) :
    ∃ free largest, surveyFrom h.mem wordSpan h.freeList 0 0 = some (free, largest) ∧
      largest < wordSpan ∧
      ∀ wanted, 0 < wanted → (firstFit h wanted = some 0 ↔ largest < wanted) := by
  have walks := listed_walks sound
  obtain ⟨free, largest, walked, bound⟩ := survey_walk 0 0 sound.arena.links walks.1 walks.2
  refine ⟨free, largest, walked, ?_, ?_⟩
  · by_contra huge
    rcases (bound wordSpan).mp (Nat.not_lt.mp huge) with none_ | ⟨x, node, size⟩
    · exact absurd none_ (by decide)
    · obtain ⟨b, member, _, same⟩ := mem_freeIn.mp (sound.exactly.mem_iff.mp node)
      rw [← same, listed_size sound member] at size
      have range := physical_range sound.arena.phys (mem_headers_of_mem_blocks member)
      simp only [Block.stop] at range
      omega
  · intro wanted positive
    rw [firstFit_null sound, ← not_iff_not, Nat.not_lt, bound wanted]
    constructor
    · intro some_
      push Not at some_
      exact Or.inr some_
    · rintro (none_ | ⟨x, node, size⟩) small
      · exact absurd none_ (Nat.not_le.mpr positive)
      · exact absurd (small x node) (Nat.not_lt.mpr size)

end Survey
/-! Only `add_region` writes the region table. -/
section Table

@[simp] theorem freeListInsert_regions (h : Heap) (b : Nat) : (freeListInsert h b).regions = h.regions := rfl

@[simp] theorem freeListRemove_regions (h : Heap) (b : Nat) : (freeListRemove h b).regions = h.regions := by
  simp only [freeListRemove]
  split <;> split <;> rfl

@[simp] theorem coalesceForward_regions (h : Heap) (b : Nat) : (coalesceForward h b).regions = h.regions := by
  simp only [coalesceForward]
  split
  · rfl
  · exact freeListRemove_regions h _

@[simp] theorem splitBlock_regions (h : Heap) (b wanted : Nat) :
    (splitBlock h b wanted).regions = h.regions := by
  simp only [splitBlock]
  split
  · rfl
  · rw [coalesceForward_regions, freeListInsert_regions]

@[simp] theorem takeBlock_regions (h : Heap) (b wanted : Nat) :
    (takeBlock h b wanted).1.regions = h.regions := by
  simp only [takeBlock, splitBlock_regions, freeListRemove_regions]

@[simp] theorem deallocate_regions (h : Heap) (p : Nat) : (deallocate h p).regions = h.regions := by
  simp only [deallocate]
  split
  · rfl
  · split
    · rfl
    · split <;> simp

@[simp] theorem shrinkTo_regions (h : Heap) (b wanted : Nat) : (shrinkTo h b wanted).regions = h.regions := by
  simp only [shrinkTo, splitBlock_regions]

@[simp] theorem swallowNext_regions (h : Heap) (b : Nat) : (swallowNext h b).regions = h.regions := by
  simp only [swallowNext, freeListRemove_regions]

end Table

theorem grow_eq (platform : Platform) (h : Heap) (wanted : Nat) :
    grow platform h wanted = ((growHanded platform wanted).map fun range =>
      addRegion h range.1 range.2).getD (h, false) := by
  cases asked : platform.more with
  | none => simp [grow, growHanded, growRequest, asked]
  | some more =>
      simp only [grow, growHanded, growRequest, asked, Option.isNone_some, Bool.false_eq_true, false_or]
      by_cases wraps : wrap (wanted + headerSize * 2 + alignment) < wanted
      · simp [wraps]
      · rw [if_neg wraps, if_neg wraps]
        cases answer : more (wrap (wanted + headerSize * 2 + alignment)) with
        | none => simp [answer]
        | some range =>
            by_cases null : range.1 = 0
            · simp [answer, null]
            · simp [answer, null]

theorem growHanded_some {platform : Platform} {more : Nat → Option (Nat × Nat)} {wanted need : Nat}
    {range : Nat × Nat} (defined_ : platform.more = some more)
    (asked : growRequest platform wanted = some need)
    (answer : more need = some range) (real : range.1 ≠ 0) : growHanded platform wanted = some range := by
  simp [growHanded, asked, defined_, answer, real]

theorem growHanded_given {platform : Platform} {h : Heap} (honest : Honest platform h) {wanted : Nat}
    {range : Nat × Nat} (given : growHanded platform wanted = some range) :
    range.1 ≠ 0 ∧ range.1 + range.2 < wordSpan ∧
      (∀ r ∈ (ensureReady platform h).regions, regionApart r ⟨range.1, range.2⟩) ∧
      growRequest platform wanted = some (wanted + 48) := by
  obtain ⟨need, asked, rest⟩ := Option.bind_eq_some_iff.mp given
  obtain ⟨more, defined_, rest⟩ := Option.bind_eq_some_iff.mp rest
  obtain ⟨range', answer, rest⟩ := Option.bind_eq_some_iff.mp rest
  have real : range'.1 ≠ 0 := by
    intro null
    rw [if_pos null] at rest
    exact absurd rest (by simp)
  rw [if_neg real, Option.some.injEq] at rest
  subst rest
  have inside := (honest.more more need range' defined_ answer).resolve_left real
  refine ⟨real, inside.1, inside.2, ?_⟩
  -- the sum of the request does not wrap, or `grow` would not have asked
  rw [asked]
  simp only [growRequest] at asked
  split at asked
  · exact absurd asked (by simp)
  · rename_i asks
    simp only [wrap, headerSize, alignment, wordSpan, not_or, Option.some.injEq] at asks asked ⊢
    omega

/-- What a call of `allocate` came to, by what the free list held and what was handed over. -/
inductive Outcome (platform : Platform) (h : Heap) (size largest : Nat) : Prop where
  | found {h' : Heap} {q : Nat} : rounded size ≤ largest → request platform h size = none →
      handed platform h size = none → allocate platform h size = some (h', q) → q ≠ 0 →
      h'.regions = (ensureReady platform h).regions → Outcome platform h size largest
  | refused {h' : Heap} : largest < rounded size → handed platform h size = none →
      allocate platform h size = some (h', 0) →
      h'.regions = (ensureReady platform h).regions → Outcome platform h size largest
  | dropped {h' : Heap} {range : Nat × Nat} : largest < rounded size →
      handed platform h size = some range →
      (∀ r ∈ (ensureReady platform h).regions, regionApart r ⟨range.1, range.2⟩) →
      ¬ Taken (ensureReady platform h).regions.length range →
      allocate platform h size = some (h', 0) →
      h'.regions = (ensureReady platform h).regions → Outcome platform h size largest
  | grown {h' : Heap} {q need : Nat} {range : Nat × Nat} : largest < rounded size →
      request platform h size = some need → handed platform h size = some range →
      (∀ r ∈ (ensureReady platform h).regions, regionApart r ⟨range.1, range.2⟩) →
      Taken (ensureReady platform h).regions.length range →
      allocate platform h size = some (h', q) → (need ≤ range.2 → q ≠ 0) →
      h'.regions = (ensureReady platform h).regions ++ [handedRegion range] →
      Outcome platform h size largest

section Calls
variable {platform : Platform} {h : Heap} {used : List Block}

theorem taken_real (h : Heap) (b wanted : Nat) : (takeBlock h b wanted).2 ≠ 0 := by
  simp only [takeBlock, payloadOf, headerSize]
  omega

theorem taken_fits {g : Heap} {base size wanted : Nat} (alive : Alive g used) (ready : g.ready = true)
    (real : base ≠ 0) (given : Given (base, size) g.regions) (taken : Taken g.regions.length (base, size))
    (even : wanted % 16 = 0) :
    ∃ x, firstFit (addRegion g base size).1 wanted = some x ∧ (wanted + 48 ≤ size → x ≠ 0) := by
  obtain ⟨L, listed, sound, _⟩ := alive
  obtain ⟨L', listed', after, _, _, _, laid⟩ := addRegion_spec sound ready real given
  have member := laid taken
  obtain ⟨x, found, _⟩ := firstFit_spec after wanted
  refine ⟨x, found, ?_⟩
  intro enough null
  rw [null] at found
  have node : (firstBlock (handedRegion (base, size))).addr ∈ listed' :=
    after.exactly.mem_iff.mpr (mem_freeIn.mpr ⟨_, member, rfl, rfl⟩)
  have small := (firstFit_null after).mp found _ node
  rw [listed_size after member] at small
  simp only [firstBlock, handedRegion] at small
  omega

theorem allocate_steps (platform : Platform) (h : Heap) (size : Nat) :
    allocate platform h size =
      if wantedFor (sizeFor size) < sizeFor size then some (countFailure (ensureReady platform h), 0)
      else (firstFit (ensureReady platform h) (wantedFor (sizeFor size))).bind fun b =>
        if b ≠ 0 then some (takeBlock (ensureReady platform h) b (wantedFor (sizeFor size)))
        else
          let grown := grow platform (ensureReady platform h) (wantedFor (sizeFor size))
          if !grown.2 then some (countFailure grown.1, 0)
          else (firstFit grown.1 (wantedFor (sizeFor size))).bind fun b =>
            if b = 0 then some (countFailure grown.1, 0)
            else some (takeBlock grown.1 b (wantedFor (sizeFor size))) := rfl

theorem rounded_cases {size : Nat} (fits : size < wordSpan) :
    sizeFor size ≤ wantedFor (sizeFor size) ∧ wantedFor (sizeFor size) = rounded size ∧ 16 ≤ rounded size ∧
        rounded size % 16 = 0 ∨
      wantedFor (sizeFor size) < sizeFor size ∧ rounded size = wordSpan := by
  have lifted : 0 < sizeFor size ∧ sizeFor size < wordSpan ∧ sizeFor size = max size 1 := by
    simp only [sizeFor, wordSpan] at *
    split <;> omega
  rcases wantedFor_cases (sizeFor size) lifted.2.1 lifted.1 with ⟨_, least, most, large, even⟩ |
    ⟨huge, wrapped⟩
  · left
    simp only [rounded, ← lifted.2.2]
    omega
  · right
    simp only [rounded, ← lifted.2.2, wrapped]
    simp only [wordSpan] at *
    omega

theorem handed_outcome {size largest : Nat} {range : Nat × Nat} (alive : Alive (ensureReady platform h) used)
    (ready : (ensureReady platform h).ready = true) (honest : Honest platform h)
    (grows : Grows platform h size)
    (small : largest < rounded size) (exactly : wantedFor (sizeFor size) = rounded size)
    (even : rounded size % 16 = 0) (given : growHanded platform (rounded size) = some range)
    (steps : allocate platform h size =
      (let grown := addRegion (ensureReady platform h) range.1 range.2
       if !grown.2 then some (countFailure grown.1, 0)
       else (firstFit grown.1 (rounded size)).bind fun b =>
         if b = 0 then some (countFailure grown.1, 0) else some (takeBlock grown.1 b (rounded size)))) :
    Outcome platform h size largest := by
  have handed_ : handed platform h size = some range := by
    rw [handed, if_pos grows, exactly, given]
  obtain ⟨real, inside, apart, asked⟩ := growHanded_given honest given
  have request_ : request platform h size = some (rounded size + 48) := by
    rw [request, if_pos grows, exactly, asked]
  simp only at steps
  rcases addRegion_eq (ensureReady platform h) inside with ⟨taken, added⟩ | ⟨full, refused⟩
  · have table : (addRegion (ensureReady platform h) range.1 range.2).1.regions =
        (ensureReady platform h).regions ++ [handedRegion range] := by
      rw [added]
      rfl
    have good : (addRegion (ensureReady platform h) range.1 range.2).2 = true := by
      rw [added]
    obtain ⟨x, found, room⟩ := taken_fits alive ready real (Or.inr ⟨inside, apart⟩) taken even
    simp only [good, Bool.not_true, Bool.false_eq_true, ↓reduceIte, found, Option.bind_some] at steps
    by_cases none_ : x = 0
    · rw [if_pos none_] at steps
      exact .grown small request_ handed_ apart taken steps (fun enough => absurd none_ (room enough)) table
    · rw [if_neg none_, ← Prod.mk.eta (p := takeBlock _ _ _)] at steps
      refine .grown small request_ handed_ apart taken steps (fun _ => taken_real _ _ _) ?_
      rw [takeBlock_regions, table]
  · rw [refused] at steps
    exact .dropped small handed_ apart full steps rfl

theorem allocate_outcome (alive : Alive h used) (honest : Honest platform h) {size : Nat}
    (fits : size < wordSpan) :
    ∃ after report, stats platform h = some (after, report) ∧
      Outcome platform h size report.largestFreeBlock := by
  obtain ⟨aliveReady, _, ready⟩ := ensureReady_spec alive honest
  have ⟨L, listed, sound, _⟩ := aliveReady
  obtain ⟨free, largest, walked, below, decides⟩ := survey_spec sound
  refine ⟨ensureReady platform h, ⟨(ensureReady platform h).stats, (ensureReady platform h).regions.length,
    free, largest⟩, ?_, ?_⟩
  · simp only [stats, walked]
    rfl
  simp only
  rcases rounded_cases fits with ⟨served, exactly, large, even⟩ | ⟨wraps, huge⟩
  · have steps := allocate_steps platform h size
    rw [if_neg (Nat.not_lt.mpr served), exactly] at steps
    have search := decides (rounded size) (Nat.lt_of_lt_of_le (by decide) large)
    by_cases null : firstFit (ensureReady platform h) (rounded size) = some 0
    · have grows : Grows platform h size := ⟨served, by rw [exactly]; exact null⟩
      have small := search.mp null
      rw [null, Option.bind_some, if_neg (fun real => real rfl), grow_eq] at steps
      cases given : growHanded platform (rounded size) with
      | none =>
          have handed_ : handed platform h size = none := by
            rw [handed, if_pos grows, exactly, given]
          rw [given] at steps
          exact .refused small handed_ steps rfl
      | some range =>
          rw [given] at steps
          exact handed_outcome aliveReady ready honest grows small exactly even given steps
    · have ends : ¬ Grows platform h size := fun grows => null (exactly ▸ grows.2)
      obtain ⟨x, found, _⟩ := firstFit_spec sound (rounded size)
      have real : x ≠ 0 := by
        rintro rfl
        exact null found
      rw [found, Option.bind_some, if_pos real, ← Prod.mk.eta (p := takeBlock _ _ _)] at steps
      refine .found (Nat.not_lt.mp fun small => null (search.mpr small)) ?_ ?_ steps (taken_real _ _ _) ?_
      · rw [request, if_neg ends]
      · rw [handed, if_neg ends]
      · rw [takeBlock_regions]
  · have fails : ¬ Grows platform h size := fun grows => Nat.not_lt.mpr grows.1 wraps
    have steps := allocate_steps platform h size
    rw [if_pos wraps] at steps
    refine .refused (huge ▸ below) ?_ steps rfl
    rw [handed, if_neg fails]

end Calls

def Succeeds (platform : Platform) (h : Heap) (size : Nat) : Prop :=
  ∃ h' q, allocate platform h size = some (h', q) ∧ q ≠ 0

/-- What is asked of one call: it does without more exactly if the largest free block
is large enough, a region as large as requested serves it, and no region is lost. -/
structure Complete (platform : Platform) (h : Heap) (size : Nat) : Prop where
  unasked : ∃ after report, stats platform h = some (after, report) ∧
    (request platform h size = none ∧ Succeeds platform h size ↔ rounded size ≤ report.largestFreeBlock)
  served : ∀ need range, request platform h size = some need → handed platform h size = some range →
    need ≤ range.2 → Succeeds platform h size
  joined : ∀ range, handed platform h size = some range →
    ∃ h' q, allocate platform h size = some (h', q) ∧ handedRegion range ∈ h'.regions

/-- Whatever is handed over finds room in the table, and has room for one block. -/
def Roomy (platform : Platform) (h : Heap) (size : Nat) : Prop :=
  ∀ range, handed platform h size = some range → Taken (ensureReady platform h).regions.length range

section Steps
variable {platform : Platform} {h : Heap} {used : List Block}

theorem apart_absent (alive : Alive h used) {range : Nat × Nat}
    (apart : ∀ r ∈ h.regions, regionApart r ⟨range.1, range.2⟩) : handedRegion range ∉ h.regions := by
  obtain ⟨L, listed, sound, _⟩ := alive
  intro member
  have separate := apart _ member
  rw [← sound.arena.phys.regions] at member
  obtain ⟨e, inside, same⟩ := List.mem_map.mp member
  have room := (sound.arena.phys.placed e inside).room
  have lies := handedRegion_inside range
  have lower := lies.lower
  rw [same] at room
  have upper := lies.upper.resolve_left (by omega)
  simp only [regionApart] at separate
  omega

theorem complete_iff (alive : Alive h used) (honest : Honest platform h) {size : Nat}
    (fits : size < wordSpan) : Complete platform h size ↔ Roomy platform h size := by
  obtain ⟨aliveReady, _, _⟩ := ensureReady_spec alive honest
  obtain ⟨after, report, reported, outcome⟩ := allocate_outcome alive honest fits
  have one : ∀ {h' : Heap} {q : Nat}, allocate platform h size = some (h', q) →
      (Succeeds platform h size ↔ q ≠ 0) := by
    intro h' q called
    constructor
    · rintro ⟨h'', q', called', real⟩
      rw [called] at called'
      cases called'
      exact real
    · intro real
      exact ⟨h', q, called, real⟩
  cases outcome with
  | found large quiet none_ called real _ =>
      have succeeds := (one called).mpr real
      constructor
      · intro _ range given
        rw [none_] at given
        exact absurd given (by simp)
      · intro _
        refine ⟨⟨after, report, reported, fun _ => large, fun _ => ⟨quiet, succeeds⟩⟩, ?_, ?_⟩
        · intro _ _ _ _ _
          exact succeeds
        · intro range given
          rw [none_] at given
          exact absurd given (by simp)
  | refused small none_ called _ =>
      have fails : ¬ Succeeds platform h size := fun succeeds => (one called).mp succeeds rfl
      constructor
      · intro _ range given
        rw [none_] at given
        exact absurd given (by simp)
      · intro _
        refine ⟨⟨after, report, reported, fun both => absurd both.2 fails,
          fun large => absurd large (Nat.not_le.mpr small)⟩, ?_, ?_⟩
        · intro _ range _ given
          rw [none_] at given
          exact absurd given (by simp)
        · intro range given
          rw [none_] at given
          exact absurd given (by simp)
  | @dropped h' range small given apart full called table =>
      constructor
      · intro complete
        obtain ⟨h'', q, called', member⟩ := complete.joined range given
        rw [called] at called'
        cases called'
        rw [table] at member
        exact absurd member (apart_absent aliveReady apart)
      · intro roomy
        exact absurd (roomy range given) full
  | @grown h' q need range small asked given apart taken called enough table =>
      constructor
      · intro _ range' given'
        rw [given, Option.some.injEq] at given'
        exact given' ▸ taken
      · intro _
        refine ⟨⟨after, report, reported, ?_, fun large => absurd large (Nat.not_le.mpr small)⟩, ?_, ?_⟩
        · rintro ⟨quiet, _⟩
          rw [asked] at quiet
          exact absurd quiet (by simp)
        · intro need' range' asked' given' large
          rw [given, Option.some.injEq] at given'
          rw [asked, Option.some.injEq] at asked'
          subst given' asked'
          exact (one called).mpr (enough large)
        · intro range' given'
          rw [given, Option.some.injEq] at given'
          subst given'
          refine ⟨h', q, called, ?_⟩
          rw [table]
          exact List.mem_append_right _ List.mem_cons_self

end Steps

/-! Runs, with every range that was handed over and the size of the table then. -/

structure Handover where
  table : Nat
  range : Nat × Nat

def Handover.taken (e : Handover) : Prop := Taken e.table e.range

/-- `reallocate` comes to `allocate`: the block can neither stay nor grow in place. -/
def Moves (platform : Platform) (h : Heap) (ptr size : Nat) : Prop :=
  ptr = 0 ∨ (size ≠ 0 ∧
    let g := ensureReady platform h
    let b := blockOf ptr
    let have_ := payloadSize g.mem b
    let after := nextBlock g.mem b
    ¬ wantedFor size ≤ have_ ∧
      ¬ (isFree g.mem after ∧ wrap (have_ + headerSize + payloadSize g.mem after) ≥ wantedFor size))

instance (platform : Platform) (h : Heap) (ptr size : Nat) : Decidable (Moves platform h ptr size) :=
  inferInstanceAs (Decidable (_ ∨ _ ∧ _ ∧ _))

def allocateHandovers (platform : Platform) (h : Heap) (size : Nat) : List Handover :=
  ((handed platform h size).map fun range => ⟨(ensureReady platform h).regions.length, range⟩).toList

def handovers (platform : Platform) (h : Heap) : Call → List Handover
  | .allocate size => allocateHandovers platform h size
  | .reallocate ptr size => if Moves platform h ptr size then allocateHandovers platform h size else []
  | _ => []

inductive Run : Heap → List Nat → List Handover → Prop where
  | start (m : Memory) : Run { mem := m } [] []
  | call {platform : Platform} {h h' : Heap} {live : List Nat} {past : List Handover} {call :
    Call} {q : Nat} :
      Run h live past → Permitted live call → Honest platform h → perform platform h call = some (h', q) →
      Run h' (liveAfter live q call) (past ++ handovers platform h call)
  | write {h : Heap} {live : List Nat} {past : List Handover} {p : Nat} (i : Nat) (byte : UInt8) :
      Run h live past → p ∈ live → i < blockSize h p →
      Run { h with mem := writeByte h.mem (p + i) byte } live past

/-- What one call does to the region table, by what was handed over to it. -/
inductive TableStep (table : List Region) : List Handover → List Region → Prop where
  | kept : TableStep table [] table
  | dropped {range : Nat × Nat} : handedRegion range ∉ table → ¬ Taken table.length range →
      TableStep table [⟨table.length, range⟩] table
  | grown {range : Nat × Nat} : handedRegion range ∉ table → Taken table.length range →
      TableStep table [⟨table.length, range⟩] (table ++ [handedRegion range])

section Tables
variable {platform : Platform} {h h' : Heap} {used : List Block} {q size : Nat}

theorem allocate_table (alive : Alive h used) (honest : Honest platform h) (fits : size < wordSpan)
    (called : allocate platform h size = some (h', q)) :
    TableStep (ensureReady platform h).regions (allocateHandovers platform h size) h'.regions := by
  obtain ⟨aliveReady, _, _⟩ := ensureReady_spec alive honest
  obtain ⟨_, _, _, outcome⟩ := allocate_outcome alive honest fits
  cases outcome with
  | found _ _ none_ called' _ table =>
      rw [called] at called'
      cases called'
      rw [allocateHandovers, none_, table]
      exact .kept
  | refused _ none_ called' table =>
      rw [called] at called'
      cases called'
      rw [allocateHandovers, none_, table]
      exact .kept
  | dropped _ given apart full called' table =>
      rw [called] at called'
      cases called'
      rw [allocateHandovers, given, table]
      exact .dropped (apart_absent aliveReady apart) full
  | grown _ _ given apart taken called' _ table =>
      rw [called] at called'
      cases called'
      rw [allocateHandovers, given, table]
      exact .grown (apart_absent aliveReady apart) taken

theorem ready_again (ready : (ensureReady platform h).ready = true) :
    ensureReady platform (ensureReady platform h) = ensureReady platform h := by
  rw [ensureReady, if_pos ready]

theorem allocateHandovers_ready (ready : (ensureReady platform h).ready = true) :
    allocateHandovers platform (ensureReady platform h) size = allocateHandovers platform h size := by
  have same : Grows platform (ensureReady platform h) size ↔ Grows platform h size := by
    rw [Grows, Grows, ready_again ready]
  simp only [allocateHandovers, handed, same, ready_again ready]

theorem reallocate_table {ptr : Nat} (alive : Alive h used) (honest : Honest platform h)
    (fits : size < wordSpan) (called : reallocate platform h ptr size = some (h', q)) :
    TableStep (ensureReady platform h).regions (handovers platform h (.reallocate ptr size)) h'.regions ∨
      handovers platform h (.reallocate ptr size) = [] ∧ h'.regions = h.regions := by
  obtain ⟨aliveReady, _, ready⟩ := ensureReady_spec alive honest
  have honestReady := honest_ready honest ready
  rw [handovers]
  unfold reallocate at called
  by_cases null : ptr = 0
  · rw [if_pos null] at called
    have moves : Moves platform h ptr size := Or.inl null
    rw [if_pos moves]
    exact Or.inl (allocate_table alive honest fits called)
  rw [if_neg null] at called
  by_cases zero : size = 0
  · have stays : ¬ Moves platform h ptr size := by simp [Moves, null, zero]
    rw [if_pos zero] at called
    cases called
    rw [if_neg stays]
    exact Or.inr ⟨rfl, deallocate_regions h ptr⟩
  rw [if_neg zero] at called
  left
  simp only at called
  by_cases shrinks : wantedFor size ≤ payloadSize (ensureReady platform h).mem (blockOf ptr)
  · have stays : ¬ Moves platform h ptr size := by simp [Moves, null, shrinks]
    rw [if_pos shrinks] at called
    cases called
    rw [if_neg stays, shrinkTo_regions]
    exact .kept
  rw [if_neg shrinks] at called
  by_cases swallows :
    isFree (ensureReady platform h).mem (nextBlock (ensureReady platform h).mem (blockOf ptr)) ∧
      wrap (payloadSize (ensureReady platform h).mem (blockOf ptr) + headerSize + payloadSize
        (ensureReady platform h).mem (nextBlock (ensureReady platform h).mem (blockOf ptr))) ≥ wantedFor size
  · have stays : ¬ Moves platform h ptr size := by
      rintro (null' | ⟨_, _, stuck⟩)
      · exact null null'
      · exact stuck swallows
    rw [if_pos swallows] at called
    cases called
    rw [if_neg stays, shrinkTo_regions, swallowNext_regions]
    exact .kept
  · have moves : Moves platform h ptr size := Or.inr ⟨zero, shrinks, swallows⟩
    rw [if_neg swallows] at called
    obtain ⟨⟨grown, fresh⟩, served, rest⟩ := Option.bind_eq_some_iff.mp called
    have step := allocate_table aliveReady honestReady fits served
    rw [ready_again ready, allocateHandovers_ready ready] at step
    rw [if_pos moves]
    by_cases none_ : fresh = 0
    · rw [if_pos none_] at rest
      cases rest
      exact step
    · rw [if_neg none_] at rest
      cases rest
      rw [deallocate_regions]
      exact step

theorem perform_table {live : List Nat} {call : Call} (alive : Alive h used) (honest : Honest platform h)
    (permitted : Permitted live call) (performed : perform platform h call = some (h', q)) :
    TableStep (ensureReady platform h).regions (handovers platform h call) h'.regions ∨
      handovers platform h call = [] ∧ h'.regions = h.regions := by
  cases call with
  | init =>
      have same : ensureReady platform h = init platform h := by
        simp only [ensureReady, init]
        split <;> rfl
      cases performed
      rw [same]
      exact Or.inl .kept
  | allocate size => exact Or.inl (allocate_table alive honest permitted performed)
  | deallocate ptr =>
      cases performed
      exact Or.inr ⟨rfl, deallocate_regions h ptr⟩
  | reallocate ptr size => exact reallocate_table alive honest permitted.2 performed

end Tables

/-- The fate of everything handed over so far, and a full table stays full. -/
structure Kept (table : List Region) (past : List Handover) : Prop where
  fate : ∀ e ∈ past, handedRegion e.range ∈ table ↔ e.taken
  full : ∀ e ∈ past, e.table = maxRegions → table.length = maxRegions

theorem kept_step {table table' : List Region} {past new : List Handover} (kept : Kept table past)
    (step : TableStep table new table') : Kept table' (past ++ new) := by
  cases step with
  | kept => exact (List.append_nil past).symm ▸ kept
  | @dropped range absent lost =>
      constructor
      · intro e member
        rcases List.mem_append.mp member with old | new_
        · exact kept.fate e old
        · rw [List.mem_singleton.mp new_]
          exact ⟨fun present => absurd present absent, fun taken => absurd taken lost⟩
      · intro e member full
        rcases List.mem_append.mp member with old | new_
        · exact kept.full e old full
        · rw [List.mem_singleton.mp new_] at full
          exact full
  | @grown range absent taken =>
      have open_ : ∀ e ∈ past, e.table ≠ maxRegions := fun e old full => taken.1 (kept.full e old full)
      constructor
      · intro e member
        rcases List.mem_append.mp member with old | new_
        · rw [List.mem_append, kept.fate e old, List.mem_singleton]
          -- a region that was too small then is none of those that joined since
          constructor
          · rintro (before | same)
            · exact before
            · exact ⟨open_ e old, same ▸ taken.2⟩
          · exact Or.inl
        · rw [List.mem_singleton.mp new_]
          exact ⟨fun _ => taken, fun _ => List.mem_append_right _ List.mem_cons_self⟩
      · intro e member full
        rcases List.mem_append.mp member with old | new_
        · exact absurd full (open_ e old)
        · rw [List.mem_singleton.mp new_] at full
          exact absurd full taken.1

section Runs
variable {h : Heap} {live : List Nat} {past : List Handover}

theorem run_reached (run : Run h live past) : Reached h live := by
  induction run with
  | start m => exact .start m
  | call _ permitted honest performed ih => exact .call ih permitted honest performed
  | write i byte _ held inside ih => exact .write i byte ih held inside

theorem run_kept (run : Run h live past) : Kept h.regions past ∧ (past ≠ [] → h.ready = true) := by
  induction run with
  | start m =>
      constructor
      · exact ⟨fun e none_ => absurd none_ List.not_mem_nil, fun e none_ => absurd none_ List.not_mem_nil⟩
      · intro some_
        exact absurd rfl some_
  | @call platform h h' live past call q before permitted honest performed ih =>
      obtain ⟨kept, ready⟩ := ih
      obtain ⟨used, holds⟩ := reached_holds (run_reached before)
      obtain ⟨_, _, _, same, _, still⟩ := step_holds holds permitted honest
      rw [performed] at same
      cases same
      have table : Kept (ensureReady platform h).regions past := by
        by_cases first : past = []
        · subst first
          exact ⟨fun e none_ => absurd none_ List.not_mem_nil, fun e none_ => absurd none_ List.not_mem_nil⟩
        · rw [ensureReady, if_pos (ready first)]
          exact kept
      constructor
      · rcases perform_table holds.1 honest permitted performed with step | ⟨none_, same⟩
        · exact kept_step table step
        · rw [none_, List.append_nil, same]
          exact kept
      · intro some_
        by_cases freed : call = .deallocate 0
        · subst freed
          cases performed
          apply ready
          intro none_
          exact some_ (by rw [none_]; rfl)
        · exact still freed
  | write _ _ _ _ _ ih => exact ih

end Runs

/-- In every state a run reaches: what was handed over is in the table exactly if the table
had room for it then, and one more call is complete exactly if it has room now. -/
theorem allocation_complete {h : Heap} {live : List Nat} {past : List Handover} (run : Run h live past) :
    (∀ e ∈ past, handedRegion e.range ∈ h.regions ↔ e.taken) ∧
      ∀ platform size, Honest platform h → size < wordSpan →
        (Complete platform h size ↔ Roomy platform h size) := by
  constructor
  · exact (run_kept run).1.fate
  · intro platform size honest fits
    obtain ⟨used, holds⟩ := reached_holds (run_reached run)
    exact complete_iff holds.1 honest fits

/-! An application whose arena starts empty and that answers every request, each time
with a region of its own that is as large as `shelf` was asked for. -/

def ask (step : Nat) : Nat := 4096 * (step + 1)

def shelf (step : Nat) : Platform := ⟨(0, 0), some fun _ => some (2 ^ 20 * (step + 1), ask step + 48)⟩

section Shelves
variable {h : Heap} {live : List Nat} {past : List Handover} {step : Nat}

/-- The arena after the first few regions: small, and all below the next one. -/
structure Shelved (h : Heap) (step : Nat) : Prop where
  count : h.regions.length = step
  below : ∀ r ∈ h.regions, r.base + r.size ≤ 2 ^ 20 * (step + 1)
  small : ∀ r ∈ h.regions, r.size ≤ 4096 * step + 48

theorem shelved_table (run : Run h live past) (step : Nat) :
    (ensureReady (shelf step) h).regions = h.regions := by
  by_cases ready : h.ready = true
  · rw [ensureReady, if_pos ready]
  · obtain ⟨_, ⟨_, _, sound, _⟩, _⟩ := reached_holds (run_reached run)
    have off : h.ready = false := by simpa using ready
    rw [sound.unready off, ensureReady, if_neg ready, init, if_neg ready]
    rfl

theorem shelved_honest (run : Run h live past) (shelved : Shelved h step) (bound : step ≤ maxRegions) :
    Honest (shelf step) h := by
  simp only [maxRegions] at bound
  constructor
  · intro _
    exact Or.inl rfl
  · intro more need range defined_ answer
    cases defined_
    cases answer
    rw [shelved_table run step]
    right
    constructor
    · simp only [ask, wordSpan]
      omega
    · intro r member
      exact Or.inl (shelved.below r member)

theorem shelved_handed (run : Run h live past) (shelved : Shelved h step) (bound : step ≤ maxRegions) :
    handed (shelf step) h (ask step) = some (2 ^ 20 * (step + 1), ask step + 48) ∧
      request (shelf step) h (ask step) = some (ask step + 48) := by
  have honest := shelved_honest run shelved bound
  simp only [maxRegions] at bound
  have fits : ask step < wordSpan := by
    simp only [ask, wordSpan]
    omega
  obtain ⟨_, holds⟩ := reached_holds (run_reached run)
  obtain ⟨aliveReady, _, _⟩ := ensureReady_spec holds.1 honest
  obtain ⟨L, listed, sound, _⟩ := aliveReady
  have exactly : rounded (ask step) = ask step := by
    simp only [rounded, ask]
    omega
  rcases rounded_cases fits with ⟨served, same, _, _⟩ | ⟨_, huge⟩
  · rw [exactly] at same
    have nothing : firstFit (ensureReady (shelf step) h) (ask step) = some 0 := by
      apply (firstFit_null sound).mpr
      intro x node
      obtain ⟨b, member, _, place⟩ := mem_freeIn.mp (sound.exactly.mem_iff.mp node)
      obtain ⟨e, inside, found⟩ := List.mem_flatMap.mp member
      have bounds := placed_header_bounds (sound.arena.phys.placed e inside) (List.mem_append_left _ found)
      have table : e.1 ∈ h.regions := by
        rw [← shelved_table run step, ← sound.arena.phys.regions]
        exact List.mem_map_of_mem inside
      have small := shelved.small _ table
      rw [← place, listed_size sound member]
      simp only [ask, Block.stop] at *
      omega
    have grows : Grows (shelf step) h (ask step) := ⟨served, by rw [same]; exact nothing⟩
    have asked : growRequest (shelf step) (ask step) = some (ask step + 48) := by
      have room : wrap (ask step + headerSize * 2 + alignment) = ask step + 48 := by
        simp only [wrap, headerSize, alignment, ask, wordSpan]
        omega
      simp only [growRequest, room, shelf]
      rw [if_neg (by simp)]
    constructor
    · have real : ¬ 2 ^ 20 * (step + 1) = 0 := by omega
      rw [handed, if_pos grows, same]
      exact growHanded_some rfl asked rfl real
    · rw [request, if_pos grows, same, asked]
  · rw [exactly] at huge
    exact absurd huge (Nat.ne_of_lt fits)

theorem shelves_fill (step : Nat) (bound : step ≤ maxRegions) :
    ∃ h live past, Run h live past ∧ Shelved h step := by
  induction step with
  | zero =>
      refine ⟨_, _, _, .start fun _ => 0, rfl, ?_, ?_⟩
      all_goals
        intro r none_
        exact absurd none_ List.not_mem_nil
  | succ step ih =>
      obtain ⟨h, live, past, run, shelved⟩ := ih (Nat.le_of_succ_le bound)
      have honest := shelved_honest run shelved (Nat.le_of_succ_le bound)
      obtain ⟨offered, _⟩ := shelved_handed run shelved (Nat.le_of_succ_le bound)
      obtain ⟨used, holds⟩ := reached_holds (run_reached run)
      simp only [maxRegions] at bound
      have fits : ask step < wordSpan := by
        simp only [ask, wordSpan]
        omega
      have region : handedRegion (2 ^ 20 * (step + 1), ask step + 48) =
          ⟨2 ^ 20 * (step + 1), ask step + 48⟩ := by
        simp only [handedRegion, ask, Region.mk.injEq]
        omega
      have taken : Taken (ensureReady (shelf step) h).regions.length
          (2 ^ 20 * (step + 1), ask step + 48) := by
        rw [shelved_table run step, shelved.count, Taken, region]
        simp only [maxRegions, ask]
        omega
      obtain ⟨_, _, _, outcome⟩ := allocate_outcome holds.1 honest fits
      cases outcome with
      | found _ _ none_ _ _ _ =>
          rw [offered] at none_
          exact absurd none_ (by simp)
      | refused _ none_ _ _ =>
          rw [offered] at none_
          exact absurd none_ (by simp)
      | dropped _ given _ full _ _ =>
          rw [offered, Option.some.injEq] at given
          exact absurd taken (given ▸ full)
      | @grown h' q _ _ _ _ given _ _ called _ table =>
          rw [offered, Option.some.injEq] at given
          subst given
          have after : Run h' (liveAfter live q (.allocate (ask step)))
              (past ++ handovers (shelf step) h (.allocate (ask step))) := .call run fits honest called
          rw [shelved_table run step, region] at table
          refine ⟨h', _, _, after, ?_, ?_, ?_⟩
          · rw [table, List.length_append, shelved.count]
            rfl
          · intro r member
            rw [table] at member
            rcases List.mem_append.mp member with old | new
            · have before := shelved.below r old
              omega
            · rw [List.mem_singleton.mp new]
              simp only [ask]
              omega
          · intro r member
            rw [table] at member
            rcases List.mem_append.mp member with old | new
            · have before := shelved.small r old
              omega
            · rw [List.mem_singleton.mp new]
              simp only [ask]
              omega

end Shelves

theorem first_region_complete :
    handed (shelf 0) blank (ask 0) = some (1048576, 4144) ∧ Complete (shelf 0) blank (ask 0) := by
  have run : Run blank [] [] := .start fun _ => 0
  have shelved : Shelved blank 0 := by
    constructor
    · rfl
    all_goals
      intro r none_
      exact absurd none_ List.not_mem_nil
  have honest := shelved_honest run shelved (by decide)
  obtain ⟨offered, _⟩ := shelved_handed run shelved (by decide)
  refine ⟨offered, ((allocation_complete run).2 (shelf 0) (ask 0) honest (by decide)).mpr ?_⟩
  intro range given
  rw [offered, Option.some.injEq] at given
  subst given
  exact ⟨by decide, by decide⟩

theorem lost_serves_none {platform : Platform} {h : Heap} {used : List Block} (alive : Alive h used)
    (honest : Honest platform h) {size : Nat} (fits : size < wordSpan) {range : Nat × Nat}
    (given : handed platform h size = some range)
    (full : ¬ Taken (ensureReady platform h).regions.length range) : ¬ Succeeds platform h size := by
  rintro ⟨h', q, called, real⟩
  obtain ⟨_, _, _, outcome⟩ := allocate_outcome alive honest fits
  cases outcome with
  | found _ _ none_ _ _ _ =>
      rw [given] at none_
      exact absurd none_ (by simp)
  | refused _ _ called' _ =>
      rw [called] at called'
      cases called'
      exact real rfl
  | dropped _ _ _ _ called' _ =>
      rw [called] at called'
      cases called'
      exact real rfl
  | grown _ _ given' _ taken _ _ _ =>
      rw [given, Option.some.injEq] at given'
      exact full (given' ▸ taken)

/-- The thirty-third region is asked for, handed over as large as asked for, and lost. -/
theorem last_region_lost :
    ∃ h live past, Run h live past ∧ h.regions.length = 32 ∧ Honest (shelf 32) h ∧
      request (shelf 32) h 135168 = some 135216 ∧ handed (shelf 32) h 135168 = some (34603008, 135216) ∧
      ¬ Succeeds (shelf 32) h 135168 ∧ ¬ Complete (shelf 32) h 135168 := by
  obtain ⟨h, live, past, run, shelved⟩ := shelves_fill 32 (by decide)
  have honest := shelved_honest run shelved (by decide)
  obtain ⟨offered, asked⟩ := shelved_handed run shelved (by decide)
  obtain ⟨used, holds⟩ := reached_holds (run_reached run)
  have fits : ask 32 < wordSpan := by decide
  have full : ¬ Taken (ensureReady (shelf 32) h).regions.length (34603008, 135216) := by
    rw [shelved_table run 32, shelved.count]
    intro taken
    exact taken.1 rfl
  have incomplete : ¬ Complete (shelf 32) h 135168 := fun complete =>
    full ((complete_iff holds.1 honest fits).mp complete _ offered)
  exact ⟨h, live, past, run, shelved.count, honest, asked, offered,
    lost_serves_none holds.1 honest fits offered full, incomplete⟩

end R2Apps.HeapCompleteness
