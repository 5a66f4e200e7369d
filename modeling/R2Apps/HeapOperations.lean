import Mathlib.Data.List.Chain
import R2Apps.HeapBlocks

/-! The arena operations over the abstract layout. `Held` is the state in the
middle of an operation: one block is in the operation's hands, off the free
list whatever its flag says, and everything else is as a finished call leaves
it. `Sound` is the state between calls. -/
namespace R2Apps.HeapOperations
open ByteMemory DoublyLinked HeapArena HeapLayout HeapBlocks

def freeIn (bs : List Block) : List Nat := (bs.filter Block.free).map Block.addr

def usedIn (bs : List Block) : List Block := bs.filter fun b => !b.free

def Calm (bs : List Block) : Prop := bs.IsChain fun b c => ¬ (b.free = true ∧ c.free = true)

def payload (b : Block) (x : Nat) : Prop := b.addr + 16 ≤ x ∧ x < b.stop

structure Held (h : Heap) (left : Layout) (r : Region) (front : List Block) (b : Block)
    (tail : List Block) (right : Layout) (listed : List Nat) : Prop where
  arena : Arena h (left ++ (r, front ++ ([b] ++ tail)) :: right) listed
  others : listed.Perm (freeIn (blocks left ++ (front ++ (tail ++ blocks right))))
  calmLeft : ∀ e ∈ left, Calm e.2
  calmRight : ∀ e ∈ right, Calm e.2
  calmFront : Calm front
  calmTail : Calm tail

structure Sound (h : Heap) (L : Layout) (listed : List Nat) : Prop where
  arena : Arena h L listed
  exactly : listed.Perm (freeIn (blocks L))
  calm : ∀ e ∈ L, Calm e.2
  usedBytes : h.stats.usedBytes = ((usedIn (blocks L)).map Block.size).sum
  liveAllocations : h.stats.liveAllocations = (usedIn (blocks L)).length
  unready : h.ready = false → h.regions = []

@[simp] theorem freeIn_append (bs cs : List Block) : freeIn (bs ++ cs) = freeIn bs ++ freeIn cs := by
  simp [freeIn]

@[simp] theorem freeIn_cons (b : Block) (bs : List Block) :
    freeIn (b :: bs) = if b.free then b.addr :: freeIn bs else freeIn bs := by
  cases flag : b.free <;> simp [freeIn, flag]

@[simp] theorem freeIn_nil : freeIn [] = [] := rfl

@[simp] theorem usedIn_append (bs cs : List Block) : usedIn (bs ++ cs) = usedIn bs ++ usedIn cs := by
  simp [usedIn]

@[simp] theorem usedIn_cons (b : Block) (bs : List Block) :
    usedIn (b :: bs) = if b.free then usedIn bs else b :: usedIn bs := by
  cases flag : b.free <;> simp [usedIn, flag]

@[simp] theorem usedIn_nil : usedIn [] = [] := rfl

@[simp] theorem blocks_append (left right : Layout) :
    blocks (left ++ right) = blocks left ++ blocks right := by
  simp [blocks]

@[simp] theorem blocks_cons (r : Region) (bs : List Block) (rest : Layout) :
    blocks ((r, bs) :: rest) = bs ++ blocks rest := rfl

theorem mem_freeIn {bs : List Block} {x : Nat} :
    x ∈ freeIn bs ↔ ∃ b ∈ bs, b.free = true ∧ b.addr = x := by
  simp [freeIn, and_assoc]

/-! Payload bytes against headers and links. -/
section Payloads
variable {m m' : Memory} {regions : List Region} {L : Layout}

theorem header_off_payload (phys : Physical m regions L) {b c : Block} (bMember : b ∈ headers L)
    (cMember : c ∈ blocks L) {x : Nat} (inside : payload c x) :
    ¬ (b.addr ≤ x ∧ x < b.addr + 16) := by
  intro header
  have apart := physical_disjoint phys bMember (mem_headers_of_mem_blocks cMember)
  simp only [payload, Block.stop] at *
  rcases apart with equal | before | after
  · subst equal
    omega
  · omega
  · omega

theorem links_off_payload (phys : Physical m regions L) {nodes : List Nat}
    (known : ∀ x ∈ nodes, ∃ b ∈ blocks L, b.addr = x) {c : Block} (member : c ∈ blocks L)
    (off : c.addr ∉ nodes) {x : Nat} (inside : payload c x) : ¬ linkBytes nodes x := by
  rintro ⟨y, node, lower, upper⟩
  obtain ⟨d, found, same⟩ := known y node
  have apart := physical_disjoint phys (mem_headers_of_mem_blocks member)
    (mem_headers_of_mem_blocks found)
  have large := (physical_sized phys found).1
  simp only [payload, Block.stop] at *
  rcases apart with equal | before | after
  · subst equal
    exact off (same ▸ node)
  · omega
  · omega

end Payloads

/-! Headers of freed blocks. -/

/-- A place for a header behind the links in the payload of a block. -/
def Stale (c : Block) (q : Nat) : Prop := c.addr + 32 ≤ q ∧ q + 16 ≤ c.stop

/-- At `q` is the header of a block that was freed: of a free block, or of one merged into it. -/
structure Marked (m : Memory) (bs : List Block) (q : Nat) : Prop where
  flagged : isFree m q = true
  inside : ∃ c ∈ bs, c.free = true ∧ (q = c.addr ∨ Stale c q)

section Marks
variable {m m' : Memory} {regions : List Region} {L L' : Layout} {bs bs' : List Block} {c : Block} {q x : Nat}

theorem marked_change (phys : Physical m' regions L') (sub : ∀ c ∈ bs', c ∈ blocks L')
    (moves : ∀ c ∈ bs, c.free = true → q = c.addr ∨ Stale c q →
      (∃ c' ∈ bs', c'.free = true ∧ q = c'.addr) ∨
        (∃ c' ∈ bs', c'.free = true ∧ Stale c' q) ∧ ∀ x, q ≤ x → x < q + 16 → m' x = m x)
    (marked : Marked m bs q) : Marked m' bs' q := by
  obtain ⟨flagged, c, member, free, place⟩ := marked
  rcases moves c member free place with ⟨c', member', free', own⟩ | ⟨⟨c', member', free', stale⟩, same⟩
  · have found := sub c' member'
    have flag := isFree_of_word (physical_word phys (mem_headers_of_mem_blocks found))
      (physical_sized phys found).2
    rw [own]
    exact ⟨flag.trans free', c', member', free', Or.inl rfl⟩
  · have word : load64 m' q = load64 m q := load64_congr _ _ _ fun x lower upper => same x lower (by omega)
    refine ⟨?_, c', member', free', Or.inr stale⟩
    rw [isFree, word]
    exact flagged

theorem stale_payload (stale : Stale c q) (lower : q ≤ x) (upper : x < q + 16) : payload c x := by
  obtain ⟨low, high⟩ := stale
  exact ⟨by omega, by omega⟩

theorem stale_off_links (phys : Physical m regions L) {nodes : List Nat}
    (known : ∀ x ∈ nodes, ∃ b ∈ blocks L, b.addr = x) (member : c ∈ blocks L) (stale : Stale c q)
    (lower : q ≤ x)
    (upper : x < q + 16) : ¬linkBytes nodes x := by
  rintro ⟨y, node, low, high⟩
  obtain ⟨d, found, same⟩ := known y node
  have apart := physical_disjoint phys (mem_headers_of_mem_blocks member) (mem_headers_of_mem_blocks found)
  have large := (physical_sized phys found).1
  obtain ⟨first, last_⟩ := stale
  simp only [Block.stop] at apart last_
  rcases apart with equal | before | after
  · subst equal
    omega
  · omega
  · omega

theorem stale_merged {b n : Block} (next : n.addr = b.stop) (large : 16 ≤ b.size) (q : Nat)
    (place : (q = n.addr ∧ 16 ≤ n.size) ∨ Stale b q ∨ Stale n q) :
    Stale ⟨b.addr, b.size + 16 + n.size, true⟩ q := by
  simp only [Stale, Block.stop] at *
  omega

end Marks

section Coalesce
variable {h : Heap} {left right : Layout} {r : Region} {front tail : List Block} {b n : Block}
variable {listed : List Nat}

theorem marked_merge {m m' : Memory} {regions regions' : List Region} {nodes : List Nat} {q : Nat}
    (phys : Physical m regions (left ++ (r, front ++ ([b, n] ++ tail)) :: right))
    (phys' : Physical m' regions'
      (left ++ (r, front ++ ([⟨b.addr, b.size + 16 + n.size, true⟩] ++ tail)) :: right))
    (known : ∀ x ∈ nodes, ∃ c ∈ blocks (left ++ (r, front ++ ([b, n] ++ tail)) :: right), c.addr = x)
    (touched : Within m m' fun x => linkBytes nodes x ∨
      b.addr ≤ x ∧ x < b.addr + 16 ∨ n.stop ≤ x ∧ x < n.stop + 16)
    (marked : Marked m (blocks left ++ (front ++ (b :: n :: tail ++ blocks right))) q) :
    Marked m' (blocks left ++
      (front ++ (⟨b.addr, b.size + 16 + n.size, true⟩ :: tail ++ blocks right))) q := by
  have next := after_place phys
  have bMember : b ∈ blocks (left ++ (r, front ++ ([b, n] ++ tail)) :: right) := by simp
  have nMember : n ∈ blocks (left ++ (r, front ++ ([b, n] ++ tail)) :: right) := by simp
  have bSize := (physical_sized phys bMember).1
  have nSize := (physical_sized phys nMember).1
  obtain ⟨_, _, nx, _, _, nxPlace, _, _, nxHeader⟩ := site (b := b) [n] phys
  have place : nx.addr = n.stop := nxPlace
  have stays {c : Block} (member : c ∈ blocks (left ++ (r, front ++ ([b, n] ++ tail)) :: right))
    (stale : Stale c q) :
      ∀ x, q ≤ x → x < q + 16 → m' x = m x := by
    intro x lower upper
    apply touched
    rintro (link | header | header)
    · exact stale_off_links phys known member stale lower upper link
    · exact header_off_payload phys (mem_headers_of_mem_blocks bMember) member
        (stale_payload stale lower upper) header
    · rw [← place] at header
      exact header_off_payload phys nxHeader member (stale_payload stale lower upper) header
  have merged {q : Nat} (place : (q = n.addr ∧ 16 ≤ n.size) ∨ Stale b q ∨ Stale n q) :
      ∃ c' ∈ blocks left ++
        (front ++ ((⟨b.addr, b.size + 16 + n.size, true⟩ : Block) :: tail ++ blocks right)),
        c'.free = true ∧ Stale c' q :=
    ⟨_, by simp, rfl, stale_merged next bSize q place⟩
  -- what was in either block is now inside the merged one
  refine marked_change phys' (by simp) ?_ marked
  intro c member free where_
  have found : c ∈ blocks (left ++ (r, front ++ ([b, n] ++ tail)) :: right) := by simpa using member
  by_cases first : c = b
  · rcases where_ with own | stale
    · exact Or.inl ⟨⟨b.addr, b.size + 16 + n.size, true⟩, by simp, rfl, first ▸ own⟩
    · exact Or.inr ⟨merged (Or.inr (Or.inl (first ▸ stale))), stays found stale⟩
  · by_cases second : c = n
    · subst second
      rcases where_ with own | stale
      · refine Or.inr ⟨merged (Or.inl ⟨own, nSize⟩), ?_⟩
        intro x lower upper
        apply touched
        rintro (link | header | header)
        · exact linkBytes_off_headers phys known (mem_headers_of_mem_blocks found) (by omega) (by omega) link
        · simp only [Block.stop] at next
          omega
        · simp only [Block.stop] at header
          omega
      · exact Or.inr ⟨merged (Or.inr (Or.inr stale)), stays found stale⟩
    · have other : c ∈ blocks left ++
          (front ++ ((⟨b.addr, b.size + 16 + n.size, true⟩ : Block) :: tail ++ blocks right)) := by
        simp only [List.mem_append, List.mem_cons, first, second, false_or] at member ⊢
        tauto
      rcases where_ with own | stale
      · exact Or.inl ⟨c, other, free, own⟩
      · exact Or.inr ⟨⟨c, other, free, stale⟩, stays found stale⟩

theorem coalesce_stops (arena : Arena h (left ++ (r, front ++ ([b] ++ tail)) :: right) listed)
    (used : ∀ n ∈ tail.head?, n.free = false) : coalesceForward h b.addr = h := by
  obtain ⟨_, _, nx, post, ending, nxPlace, nxWord, _, nxHeader⟩ := site (b := b) [] arena.phys
  have member : b ∈ blocks (left ++ (r, front ++ ([b] ++ tail)) :: right) := by simp
  have header := mem_headers_of_mem_blocks member
  have next := next_of_word (physical_word arena.phys header) (physical_sized arena.phys member).2
  have same : nx.addr = b.stop := nxPlace
  have flag : nx.free = false := by
    cases tail with
    | nil =>
        simp only [List.nil_append, List.cons.injEq] at ending
        rw [← ending.1]
        rfl
    | cons n rest =>
        simp only [List.cons_append, List.cons.injEq] at ending
        rw [← ending.1]
        exact used n (by simp)
  have even : nx.size % 16 = 0 := by
    obtain ⟨e, inside, found⟩ := List.mem_flatMap.mp nxHeader
    exact placed_header_sizes (arena.phys.placed e inside) found
  have free := isFree_of_word nxWord even
  simp only [coalesceForward, next, ← same, free, flag, Bool.not_false, ↓reduceIte]

theorem coalesce_merges {before after : List Nat}
    (arena : Arena h (left ++ (r, front ++ ([b] ++ (n :: tail))) :: right)
      (before ++ n.addr :: after)) (free : n.free = true) :
    Arena (coalesceForward h b.addr)
        (left ++ (r, front ++ ([⟨b.addr, b.size + 16 + n.size, b.free⟩] ++ tail)) :: right)
        (before ++ after) ∧
      Within h.mem (coalesceForward h b.addr).mem (fun x => linkBytes (before ++ after) x ∨
        b.addr ≤ x ∧ x < b.addr + 16 ∨ n.stop ≤ x ∧ x < n.stop + 16) ∧
      (coalesceForward h b.addr).stats = h.stats ∧
      (coalesceForward h b.addr).ready = h.ready := by
  obtain ⟨removed, linkTouched, stats, ready⟩ := arena_remove arena
  have bMember : b ∈ blocks (left ++ (r, front ++ ([b] ++ (n :: tail))) :: right) := by simp
  have nMember : n ∈ blocks (left ++ (r, front ++ ([b] ++ (n :: tail))) :: right) := by simp
  have bHeader := mem_headers_of_mem_blocks bMember
  have nHeader := mem_headers_of_mem_blocks nMember
  obtain ⟨bLarge, bEven⟩ := physical_sized arena.phys bMember
  obtain ⟨nLarge, nEven⟩ := physical_sized arena.phys nMember
  have next := next_of_word (physical_word arena.phys bHeader) bEven
  have flagged := isFree_of_word (physical_word arena.phys nHeader) nEven
  have nPlace : n.addr = b.stop := after_place arena.phys
  have off : n.addr ∉ before ++ after := by
    have moved := List.perm_middle.nodup_iff.mp arena.unique
    exact (List.nodup_cons.mp moved).1
  obtain ⟨merged, headTouched⟩ := arena_merge b.free removed off
  have bWord := physical_word removed.phys bHeader
  have bPayload := payload_of_word bWord bEven
  have nPayload := payload_of_word (physical_word removed.phys nHeader) nEven
  have same : coalesceForward h b.addr =
      { freeListRemove h n.addr with
        mem := restamp (freeListRemove h n.addr).mem b.addr
          (b.size + 16 + n.size + if b.free then 1 else 0) } := by
    have word : (b.size + 16 + n.size ||| (load64 (freeListRemove h n.addr).mem b.addr &&& freeFlag)) =
        b.size + 16 + n.size + if b.free then 1 else 0 := by
      rw [bWord, Block.word, and_flag _ bEven, or_flag _ (by omega)]
    simp only [coalesceForward, next, ← nPlace, flagged, free, Bool.not_true, Bool.false_eq_true,
      ↓reduceIte, bPayload, nPayload, headerSize, word, restamp]
  rw [same]
  refine ⟨merged, ?_, stats, ready⟩
  intro x outside
  have notLink : ¬ linkBytes (before ++ after) x := fun link => outside (Or.inl link)
  have notHeader := fun inside => outside (Or.inr inside)
  exact (headTouched x notHeader).trans (linkTouched x notLink)

/-- What `coalesce_forward` leaves behind, in one statement: the block after `b`
was used and nothing happened, or it was free and left the list. Payloads of
blocks that are off the list keep their bytes. -/
theorem arena_coalesce (arena : Arena h (left ++ (r, front ++ ([b] ++ tail)) :: right) listed)
    (onList : ∀ n ∈ tail.head?, n.free = true → n.addr ∈ listed) :
    ∃ b' tail' listed',
      Arena (coalesceForward h b.addr) (left ++ (r, front ++ ([b'] ++ tail')) :: right) listed' ∧
      b'.addr = b.addr ∧ b'.free = b.free ∧ b.size ≤ b'.size ∧
      ((∀ n ∈ tail.head?, n.free = false) ∧ tail' = tail ∧ listed' = listed ∨
        ∃ n before after, tail = n :: tail' ∧ n.free = true ∧
          listed = before ++ n.addr :: after ∧ listed' = before ++ after) ∧
      (∀ c ∈ blocks (left ++ (r, front ++ ([b] ++ tail)) :: right), c.addr ∉ listed →
        ∀ x, payload c x → (coalesceForward h b.addr).mem x = h.mem x) ∧
      (coalesceForward h b.addr).stats = h.stats ∧
      (coalesceForward h b.addr).ready = h.ready ∧
      (∀ q, b.free = true → Marked h.mem (blocks left ++ (front ++ (b :: tail ++ blocks right))) q →
        Marked (coalesceForward h b.addr).mem
          (blocks left ++ (front ++ (b' :: tail' ++ blocks right))) q) := by
  by_cases quiet : ∀ n ∈ tail.head?, n.free = false
  · rw [coalesce_stops arena quiet]
    exact ⟨b, tail, listed, arena, rfl, rfl, Nat.le_refl _, Or.inl ⟨quiet, rfl, rfl⟩,
      fun _ _ _ _ _ => rfl, rfl, rfl, fun _ _ marked => marked⟩
  · cases tail with
    | nil => exact absurd (by simp) quiet
    | cons n rest =>
        have free : n.free = true := by simpa using quiet
        obtain ⟨before, after, split⟩ := List.append_of_mem (onList n (by simp) free)
        subst split
        obtain ⟨merged, touched, stats, ready⟩ := coalesce_merges arena free
        refine ⟨⟨b.addr, b.size + 16 + n.size, b.free⟩, rest, before ++ after, merged, rfl, rfl, ?_,
          Or.inr ⟨n, before, after, rfl, free, rfl, rfl⟩, ?_, stats, ready, ?_⟩
        · simp only
          omega
        · intro c member off x inside
          have phys := arena.phys
          apply touched x
          rintro (link | header | header)
          · refine links_off_payload phys arena.known member off inside ?_
            obtain ⟨y, node, bounds⟩ := link
            refine ⟨y, ?_, bounds⟩
            rcases List.mem_append.mp node with inBefore | inAfter
            · simp [inBefore]
            · simp [inAfter]
          · exact header_off_payload phys (b := b) (mem_headers_of_mem_blocks (by simp)) member
              inside header
          · have same : front ++ ([b] ++ n :: rest) = front ++ (b :: [n] ++ rest) := by simp
            rw [same] at phys member
            obtain ⟨_, _, nx, _, _, nxPlace, _, _, nxHeader⟩ := site (b := b) [n] phys
            have place : nx.addr = n.stop := nxPlace
            rw [← place] at header
            exact header_off_payload phys nxHeader member inside header
        -- a stale header stays marked, as the merged block is free
        · intro q flag marked
          rw [flag] at merged ⊢
          apply marked_merge arena.phys merged.phys _ touched marked
          intro x node
          apply arena.known x
          rcases List.mem_append.mp node with inBefore | inAfter
          · simp [inBefore]
          · simp [inAfter]

end Coalesce

/-- The blocks of a layout around the one in hand. -/
def around (left : Layout) (front tail : List Block) (right : Layout) : List Block :=
  blocks left ++ (front ++ (tail ++ blocks right))

/-- The payloads of the used blocks among `bs` hold the same bytes. -/
def Spares (m m' : Memory) (bs : List Block) : Prop :=
  ∀ c ∈ bs, c.free = false → ∀ x, payload c x → m' x = m x

section Hold
variable {h : Heap} {left right : Layout} {r : Region} {front tail : List Block} {b : Block}
variable {listed : List Nat}

theorem held_around_mem {c : Block} (member : c ∈ around left front tail right) :
    c ∈ blocks (left ++ (r, front ++ ([b] ++ tail)) :: right) := by
  simp only [around, List.mem_append] at member
  simp only [blocks_append, blocks_cons, List.mem_append]
  tauto

theorem held_listed (held : Held h left r front b tail right listed) {x : Nat}
    (member : x ∈ listed) : ∃ c ∈ around left front tail right, c.free = true ∧ c.addr = x :=
  mem_freeIn.mp (held.others.mem_iff.mp member)

theorem held_distinct (held : Held h left r front b tail right listed) {c : Block}
    (member : c ∈ around left front tail right) : c.stop ≤ b.addr ∨ b.stop ≤ c.addr := by
  have phys := held.arena.phys
  simp only [around, List.mem_append] at member
  have inFull : ∀ d ∈ left ++ (r, front ++ ([b] ++ tail)) :: right,
      ∀ e ∈ d.2, e ∈ d.2 ++ [sentinel d.1] := fun d _ e found => List.mem_append_left _ found
  have placed := phys.placed (r, front ++ ([b] ++ tail)) (by simp)
  have ordered := chain_ordered placed.chain
  simp only [List.append_assoc] at ordered
  have split := List.pairwise_append.mp ordered
  have bPlace := placed_header_bounds placed (b := b) (by simp)
  have other : ∀ d ∈ left ++ right, c ∈ d.2 → c.stop ≤ b.addr ∨ b.stop ≤ c.addr := by
    intro d inside found
    have full : d ∈ left ++ (r, front ++ ([b] ++ tail)) :: right := by
      rcases List.mem_append.mp inside with inLeft | inRight
      · simp [inLeft]
      · simp [inRight]
    have cPlace := placed_header_bounds (phys.placed d full) (b := c)
      (List.mem_append_left _ found)
    have apart : regionApart d.1 r := by
      have pairs := List.pairwise_append.mp phys.apart
      rcases List.mem_append.mp inside with inLeft | inRight
      · exact pairs.2.2 d inLeft _ List.mem_cons_self
      · exact Or.symm ((List.pairwise_cons.mp pairs.2.1).1 d inRight)
    rcases apart with before | after
    · exact Or.inl (by simp only at bPlace; omega)
    · exact Or.inr (by simp only at bPlace; omega)
  rcases member with inLeft | inFront | inTail | inRight
  · obtain ⟨d, inside, found⟩ := List.mem_flatMap.mp inLeft
    exact other d (List.mem_append_left _ inside) found
  · exact Or.inl (split.2.2 c inFront b (by simp))
  · have later := (List.pairwise_cons.mp split.2.1).1
    exact Or.inr (later c (by simp [inTail]))
  · obtain ⟨d, inside, found⟩ := List.mem_flatMap.mp inRight
    exact other d (List.mem_append_right _ inside) found

theorem held_off (held : Held h left r front b tail right listed) : b.addr ∉ listed := by
  intro member
  obtain ⟨c, inside, _, same⟩ := held_listed held member
  have apart := held_distinct held inside
  simp only [Block.stop] at apart
  omega

theorem held_used_off (held : Held h left r front b tail right listed) {c : Block}
    (member : c ∈ around left front tail right) (used : c.free = false) : c.addr ∉ listed := by
  intro inside
  obtain ⟨d, found, free, same⟩ := held_listed held inside
  have equal := addr_injective held.arena.phys
    (mem_headers_of_mem_blocks (held_around_mem found))
    (mem_headers_of_mem_blocks (held_around_mem member)) same
  rw [equal, used] at free
  exact absurd free (by decide)

theorem held_flag (held : Held h left r front b tail right listed) (flag : Bool) :
    Held { h with mem := setFree h.mem b.addr flag } left r front { b with free := flag } tail
        right listed ∧
      Spares h.mem (setFree h.mem b.addr flag) (around left front tail right) ∧
      ∀ x, payload b x → setFree h.mem b.addr flag x = h.mem x := by
  obtain ⟨arena, touched⟩ := arena_flag flag held.arena
  have bMember : b ∈ blocks (left ++ (r, front ++ ([b] ++ tail)) :: right) := by simp
  have bHeader := mem_headers_of_mem_blocks bMember
  refine ⟨{ held with arena := arena }, ?_, ?_⟩
  · intro c member used x inside
    exact touched x (header_off_payload held.arena.phys bHeader (held_around_mem member) inside)
  · intro x inside
    exact touched x (header_off_payload held.arena.phys bHeader bMember inside)

theorem calm_cons {c : Block} {bs : List Block} (calm : Calm bs)
    (quiet : c.free = true → ∀ d ∈ bs.head?, d.free = false) : Calm (c :: bs) := by
  refine List.isChain_cons.mpr ⟨?_, calm⟩
  intro d head both
  have used := quiet both.1 d head
  rw [used] at both
  exact absurd both.2 (by decide)

theorem calm_tail {c : Block} {bs : List Block} (calm : Calm (c :: bs)) : Calm bs :=
  (List.isChain_cons.mp calm).2

theorem calm_head {c : Block} {bs : List Block} (calm : Calm (c :: bs)) (free : c.free = true) :
    ∀ d ∈ bs.head?, d.free = false := by
  intro d head
  have pair := (List.isChain_cons.mp calm).1 d head
  cases flag : d.free with
  | false => rfl
  | true => exact absurd ⟨free, flag⟩ pair

theorem others_merged {n : Block} {rest : List Block} {before after : List Nat}
    (free : n.free = true)
    (others : (before ++ n.addr :: after).Perm (freeIn (around left front (n :: rest) right))) :
    (before ++ after).Perm (freeIn (around left front rest right)) := by
  have moved : (n.addr :: (before ++ after)).Perm
      (n.addr :: freeIn (around left front rest right)) := by
    refine List.perm_middle.symm.trans (others.trans ?_)
    simp only [around, freeIn_append, freeIn_cons, free, ↓reduceIte, List.cons_append]
    rw [← List.append_assoc, ← List.append_assoc (freeIn (blocks left)) (freeIn front)]
    exact List.perm_middle
  exact moved.cons_inv

theorem held_next_listed (others : listed.Perm (freeIn (around left front tail right))) :
    ∀ n ∈ tail.head?, n.free = true → n.addr ∈ listed := by
  intro n head free
  refine others.mem_iff.mpr (mem_freeIn.mpr ⟨n, ?_, free, rfl⟩)
  have inside := List.mem_of_mem_head? head
  simp [around, inside]

theorem held_coalesce (held : Held h left r front b tail right listed) :
    ∃ b' tail' listed', Held (coalesceForward h b.addr) left r front b' tail' right listed' ∧
      b'.addr = b.addr ∧ b'.free = b.free ∧ b.size ≤ b'.size ∧
      (∀ n ∈ tail'.head?, n.free = false) ∧ usedIn tail' = usedIn tail ∧
      Spares h.mem (coalesceForward h b.addr).mem (around left front tail right) ∧
      (coalesceForward h b.addr).stats = h.stats ∧
      (coalesceForward h b.addr).ready = h.ready ∧
      (∀ q, b.free = true → Marked h.mem (around left front (b :: tail) right) q →
        Marked (coalesceForward h b.addr).mem (around left front (b' :: tail') right) q) := by
  obtain ⟨b', tail', listed', arena, addr, flag, size, outcome, kept, stats, ready, marks⟩ :=
    arena_coalesce held.arena (held_next_listed held.others)
  have spared : Spares h.mem (coalesceForward h b.addr).mem (around left front tail right) :=
    fun c member used => kept c (held_around_mem member) (held_used_off held member used)
  rcases outcome with ⟨quiet, tailIs, listIs⟩ | ⟨n, before, after, tailIs, free, split, listIs⟩
  · subst tailIs listIs
    exact ⟨b', tail', listed', { held with arena := arena }, addr, flag, size, quiet, rfl, spared,
      stats, ready, marks⟩
  · subst tailIs split listIs
    refine ⟨b', tail', before ++ after, ?_, addr, flag, size, calm_head held.calmTail free, ?_,
      spared, stats, ready, marks⟩
    · exact { held with
        arena := arena
        others := others_merged free held.others
        calmTail := calm_tail held.calmTail }
    · simp [free]

theorem split_small (held : Held h left r front b tail right listed) {wanted : Nat}
    (enough : wanted ≤ b.size) (small : b.size < wanted + 32) : splitBlock h b.addr wanted = h := by
  have bMember : b ∈ blocks (left ++ (r, front ++ ([b] ++ tail)) :: right) := by simp
  have bHeader := mem_headers_of_mem_blocks bMember
  have size := payload_of_word (physical_word held.arena.phys bHeader)
    (physical_sized held.arena.phys bMember).2
  have range := physical_range held.arena.phys bHeader
  simp only [Block.stop] at range
  have exactly : wrap (wanted + headerSize + minPayload) = wanted + 32 :=
    Nat.mod_eq_of_lt (by simp only [headerSize, minPayload]; omega)
  simp only [splitBlock, size, exactly, small, ↓reduceIte]

theorem leftover_off (held : Held h left r front b tail right listed) {wanted : Nat}
    (room : wanted + 32 ≤ b.size) : b.addr + 16 + wanted ∉ listed := by
  intro member
  obtain ⟨c, inside, _, same⟩ := held_listed held member
  have apart := held_distinct held inside
  simp only [Block.stop] at apart
  omega

theorem split_large (held : Held h left r front b tail right listed) {wanted : Nat}
    (even : wanted % 16 = 0) (room : wanted + 32 ≤ b.size) :
    splitBlock h b.addr wanted =
      coalesceForward
        (freeListInsert { h with mem := cut h.mem b.addr wanted (b.size - wanted - 16) }
          (b.addr + 16 + wanted)) (b.addr + 16 + wanted) := by
  have bMember : b ∈ blocks (left ++ (r, front ++ ([b] ++ tail)) :: right) := by simp
  have bHeader := mem_headers_of_mem_blocks bMember
  have bEven := (physical_sized held.arena.phys bMember).2
  have bWord := physical_word held.arena.phys bHeader
  have range := physical_range held.arena.phys bHeader
  simp only [Block.stop] at range
  have size := payload_of_word bWord bEven
  have exactly : wrap (wanted + 16 + minPayload) = wanted + 32 :=
    Nat.mod_eq_of_lt (by simp only [minPayload]; omega)
  have small : ¬ b.size < wanted + 32 := by omega
  have next : nextBlock (store64 h.mem b.addr (wanted ||| if isFree h.mem b.addr then freeFlag
      else 0)) b.addr = b.addr + 16 + wanted := by
    have word : load64 (store64 h.mem b.addr (wanted ||| if isFree h.mem b.addr then freeFlag
        else 0)) (⟨b.addr, wanted, b.free⟩ : Block).addr =
        (⟨b.addr, wanted, b.free⟩ : Block).word := by
      rw [isFree_of_word bWord bEven, or_flag _ even]
      exact load64_store64_same _ _ _ (word_lt (b := ⟨b.addr, wanted, b.free⟩)
        (by simp only [Block.stop]; omega))
    exact next_of_word word even
  simp only [splitBlock, size, headerSize, exactly, small, ↓reduceIte, next, cut]

section Splitting
variable {wanted : Nat} {rest rest' : Block} {tail' : List Block} {listed' : List Nat}

/-- How `coalesceForward` leaves `rest` and the blocks behind it. -/
structure Joined (rest rest' : Block) (tail tail' : List Block) (listed listed' : List Nat) : Prop where
  addr : rest'.addr = rest.addr
  flag : rest'.free = rest.free
  outcome : (∀ n ∈ tail.head?, n.free = false) ∧ tail' = tail ∧ listed' = listed ∨
    ∃ n before after, tail = n :: tail' ∧ n.free = true ∧
      listed = before ++ n.addr :: after ∧ listed' = before ++ after

theorem joined_calm (joined : Joined rest rest' tail tail' listed listed') (calm : Calm tail) :
    Calm tail' ∧ ∀ n ∈ tail'.head?, n.free = false := by
  rcases joined.outcome with ⟨quiet, tailIs, _⟩ | ⟨n, _, _, tailIs, free, _, _⟩
  · rw [tailIs]
    exact ⟨calm, quiet⟩
  · rw [tailIs] at calm
    exact ⟨calm_tail calm, calm_head calm free⟩

theorem joined_used (joined : Joined rest rest' tail tail' listed listed') (free : rest.free = true) :
    usedIn (rest' :: tail') = usedIn tail := by
  have still : rest'.free = true := joined.flag.trans free
  rcases joined.outcome with ⟨_, tailIs, _⟩ | ⟨n, _, _, tailIs, merged, _, _⟩
  · simp [still, tailIs]
  · simp [still, tailIs, merged]

theorem joined_others (joined : Joined rest rest' tail tail' listed listed') (free : rest.free = true)
    (others : listed.Perm (freeIn (around left front (rest :: tail) right))) :
    listed'.Perm (freeIn (around left front (rest' :: tail') right)) := by
  have still : rest'.free = true := joined.flag.trans free
  rcases joined.outcome with ⟨_, tailIs, listIs⟩ | ⟨n, before, after, tailIs, merged, split, listIs⟩
  · rw [listIs, tailIs]
    refine others.trans (List.Perm.of_eq ?_)
    simp [around, still, free, joined.addr]
  · rw [split, tailIs] at others
    refine List.perm_iff_count.mpr fun a => ?_
    have counts := others.count_eq a
    simp only [listIs, around, freeIn_append, freeIn_cons, free, still, merged, joined.addr,
      ↓reduceIte, List.count_append, List.count_cons] at counts ⊢
    omega

theorem cut_used_off (held : Held h left r front b tail right listed) (room : wanted + 32 ≤ b.size)
    {c : Block} (member : c ∈ around left front tail right) (used : c.free = false) :
    c.addr ∉ (cutRest b wanted).addr :: listed := by
  have apart := held_distinct held member
  have restStop := cutRest_stop room
  have notRest : c.addr ≠ (cutRest b wanted).addr := by
    simp only [Block.stop, cutRest] at *
    omega
  simp only [List.mem_cons, not_or]
  exact ⟨notRest, held_used_off held member used⟩

theorem cut_spares (held : Held h left r front b tail right listed) (large : 16 ≤ wanted)
    (even : wanted % 16 = 0) (room : wanted + 32 ≤ b.size) :
    Spares h.mem (cut h.mem b.addr wanted (b.size - wanted - 16)) (around left front tail right) := by
  have bHeader := mem_headers_of_mem_blocks
    (show b ∈ blocks (left ++ (r, front ++ ([b] ++ tail)) :: right) by simp)
  obtain ⟨_, touched⟩ := arena_cut held.arena (held_off held) large even room
  obtain ⟨_, _, nx, _, _, nxPlace, _, _, nxHeader⟩ := site (b := b) [] held.arena.phys
  have place : nx.addr = b.stop := nxPlace
  intro c member used x inside
  have apart := held_distinct held member
  have cMember := held_around_mem (r := r) (b := b) member
  apply touched x
  rintro (header | header | header)
  · exact header_off_payload held.arena.phys bHeader cMember inside header
  · simp only [payload, Block.stop] at *
    omega
  · rw [← place] at header
    exact header_off_payload held.arena.phys nxHeader cMember inside header

theorem split_arena (held : Held h left r front b tail right listed) (large : 16 ≤ wanted)
    (even : wanted % 16 = 0) (room : wanted + 32 ≤ b.size) :
    ∃ rest' tail' listed',
      Arena (splitBlock h b.addr wanted)
        (left ++ (r, front ++ ([cutBlock b wanted] ++ (rest' :: tail'))) :: right) listed' ∧
      Joined (cutRest b wanted) rest' tail tail' ((cutRest b wanted).addr :: listed) listed' ∧
      (∀ c ∈ blocks (left ++ (r, front ++ ([cutBlock b wanted, cutRest b wanted] ++ tail)) :: right),
        c.addr ∉ (cutRest b wanted).addr :: listed → ∀ x, payload c x →
          (splitBlock h b.addr wanted).mem x = cut h.mem b.addr wanted (b.size - wanted - 16) x) ∧
      (splitBlock h b.addr wanted).stats = h.stats ∧
      (splitBlock h b.addr wanted).ready = h.ready := by
  obtain ⟨cutArena, _⟩ := arena_cut held.arena (held_off held) large even room
  have fresh : (cutRest b wanted).addr ∉ listed := leftover_off held room
  rw [split_large held even room]
  change ∃ rest' tail' listed', Arena (coalesceForward (freeListInsert _ (cutRest b wanted).addr)
    (cutRest b wanted).addr) _ _ ∧ _
  have restMember : cutRest b wanted ∈ blocks
      (left ++ (r, front ++ ([cutBlock b wanted, cutRest b wanted] ++ tail)) :: right) := by simp
  obtain ⟨insArena, insTouched⟩ := arena_insert cutArena restMember fresh
  have shape : front ++ ([cutBlock b wanted, cutRest b wanted] ++ tail) =
      (front ++ [cutBlock b wanted]) ++ ([cutRest b wanted] ++ tail) := by simp
  rw [shape] at insArena
  obtain ⟨rest', tail', listed', arena, addr, flag, _, outcome, untouched, stats, ready, _⟩ :=
    arena_coalesce insArena fun n head free =>
      List.mem_cons_of_mem _ (held_next_listed held.others n head free)
  refine ⟨rest', tail', listed', ?_, ⟨addr, flag, outcome⟩, ?_, stats, ready⟩
  · have reshape : (front ++ [cutBlock b wanted]) ++ ([rest'] ++ tail') =
        front ++ ([cutBlock b wanted] ++ (rest' :: tail')) := by simp
    rw [← reshape]
    exact arena
  · -- the blocks that are off the list keep their payloads through both later steps
    intro c member off x inside
    refine (untouched c (shape ▸ member) off x inside).trans (insTouched x ?_)
    apply links_off_payload cutArena.phys _ member off inside
    intro y node
    rcases List.mem_cons.mp node with same | old
    · exact ⟨cutRest b wanted, restMember, same.symm⟩
    · exact cutArena.known y old

end Splitting

theorem held_split (held : Held h left r front b tail right listed) {wanted : Nat}
    (large : 16 ≤ wanted) (even : wanted % 16 = 0) (enough : wanted ≤ b.size) :
    ∃ b' tail' listed', Held (splitBlock h b.addr wanted) left r front b' tail' right listed' ∧
      b'.addr = b.addr ∧ b'.free = b.free ∧ wanted ≤ b'.size ∧ b'.size ≤ b.size ∧
      usedIn tail' = usedIn tail ∧
      Spares h.mem (splitBlock h b.addr wanted).mem (around left front tail right) ∧
      (∀ x, b.addr + 16 ≤ x → x < b.addr + 16 + wanted →
        (splitBlock h b.addr wanted).mem x = h.mem x) ∧
      (splitBlock h b.addr wanted).stats = h.stats ∧
      (splitBlock h b.addr wanted).ready = h.ready := by
  by_cases small : b.size < wanted + 32
  · rw [split_small held enough small]
    exact ⟨b, tail, listed, held, rfl, rfl, enough, Nat.le_refl _, rfl, fun _ _ _ _ _ => rfl,
      fun _ _ _ => rfl, rfl, rfl⟩
  have room : wanted + 32 ≤ b.size := by omega
  obtain ⟨rest', tail', listed', arena, joined, quiet, stats, ready⟩ := split_arena held large even room
  obtain ⟨_, touched⟩ := arena_cut held.arena (held_off held) large even room
  have spared : Spares h.mem (splitBlock h b.addr wanted).mem (around left front tail right) := by
    intro c member used x inside
    have inCut : c ∈ blocks
        (left ++ (r, front ++ ([cutBlock b wanted, cutRest b wanted] ++ tail)) :: right) := by
      simp only [around, List.mem_append] at member
      simp only [blocks_append, blocks_cons, List.mem_append]
      tauto
    exact (quiet c inCut (cut_used_off held room member used) x inside).trans
      (cut_spares held large even room c member used x inside)
  have keptFirst : ∀ x, b.addr + 16 ≤ x → x < b.addr + 16 + wanted →
      (splitBlock h b.addr wanted).mem x = h.mem x := by
    intro x lower upper
    have off : (cutBlock b wanted).addr ∉ (cutRest b wanted).addr :: listed := by
      simp only [List.mem_cons, not_or]
      have first : b.addr ∉ listed := held_off held
      exact ⟨by simp only [cutBlock, cutRest]; omega, first⟩
    refine (quiet (cutBlock b wanted) (by simp) off x ⟨lower, upper⟩).trans (touched x ?_)
    simp only [Block.stop]
    omega
  have others : ((cutRest b wanted).addr :: listed).Perm
      (freeIn (around left front (cutRest b wanted :: tail) right)) := by
    have free : (cutRest b wanted).free = true := rfl
    refine (held.others.cons (cutRest b wanted).addr).trans ?_
    simp only [around, freeIn_append, freeIn_cons, free, ↓reduceIte, List.cons_append]
    rw [← List.append_assoc, ← List.append_assoc (freeIn (blocks left)) (freeIn front)]
    exact List.perm_middle.symm
  obtain ⟨calm, used⟩ := joined_calm joined held.calmTail
  refine ⟨cutBlock b wanted, rest' :: tail', listed', ?_, rfl, rfl, Nat.le_refl _, enough,
    joined_used joined rfl, spared, keptFirst, stats, ready⟩
  exact { held with
    arena := arena
    others := joined_others joined rfl others
    calmTail := calm_cons calm fun _ => used }

end Hold
end R2Apps.HeapOperations
