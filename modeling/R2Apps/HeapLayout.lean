import Mathlib.Data.List.Perm.Lattice
import R2Apps.DoublyLinked
import R2Apps.HeapArena

/-! The abstract arena: every region is a list of blocks that ends in its
sentinel. `Chain` reads that list off the boundary tags in memory, `Physical`
does so for all regions at once, and `Arena` adds the linked free list. None of
them says yet which blocks are on the list: the operations pass through states
where a free block is off it. -/
namespace R2Apps.HeapLayout
open ByteMemory DoublyLinked HeapArena

@[ext]
structure Block where
  addr : Nat
  size : Nat
  free : Bool
  deriving DecidableEq

def Block.stop (b : Block) : Nat := b.addr + 16 + b.size

def Block.word (b : Block) : Nat := b.size + if b.free then 1 else 0

def Chain (m : Memory) : Nat → Nat → List Block → Prop
  | _, _, [] => True
  | address, previous, b :: rest =>
      b.addr = address ∧ load64 m address = b.word ∧ load64 m (address + 8) = previous ∧
        Chain m b.stop b.size rest

/-- Where the blocks placed from `address` on end. -/
def reach : Nat → List Block → Nat
  | address, [] => address
  | _, b :: rest => reach b.stop rest

/-- The `prev_size` the block after them has to carry. -/
def behind : Nat → List Block → Nat
  | previous, [] => previous
  | _, b :: rest => behind b.size rest

def sentinel (r : Region) : Block := ⟨r.base + r.size - 16, 0, false⟩

def sized (b : Block) : Prop := 16 ≤ b.size ∧ b.size % 16 = 0

structure Placed (m : Memory) (r : Region) (bs : List Block) : Prop where
  baseAligned : r.base % 16 = 0
  sizeAligned : r.size % 16 = 0
  real : 0 < r.base
  room : 32 ≤ r.size
  fits : r.base + r.size < wordSpan
  sizes : ∀ b ∈ bs, sized b
  chain : Chain m r.base 0 (bs ++ [sentinel r])

abbrev Layout := List (Region × List Block)

def blocks (L : Layout) : List Block := L.flatMap Prod.snd

def headers (L : Layout) : List Block := L.flatMap fun e => e.2 ++ [sentinel e.1]

def regionApart (r s : Region) : Prop := r.base + r.size ≤ s.base ∨ s.base + s.size ≤ r.base

structure Physical (m : Memory) (regions : List Region) (L : Layout) : Prop where
  regions : L.map Prod.fst = regions
  placed : ∀ e ∈ L, Placed m e.1 e.2
  apart : L.Pairwise fun d e => regionApart d.1 e.1

/-- The bytes outside `touched` are the same in both memories. -/
def Within (m m' : Memory) (touched : Nat → Prop) : Prop := ∀ x, ¬ touched x → m' x = m x

theorem within_refl (m : Memory) (touched : Nat → Prop) : Within m m touched := fun _ _ => rfl

theorem within_store64 {m m' : Memory} {touched : Nat → Prop} {address value : Nat}
    (before : Within m m' touched) (inside : ∀ x, address ≤ x → x < address + 8 → touched x) :
    Within m (store64 m' address value) touched := by
  intro x out
  rw [store64_outside, before x out]
  by_contra overlap
  exact out (inside x (by omega) (by omega))

theorem within_load {m m' : Memory} {touched : Nat → Prop} {address : Nat}
    (same : Within m m' touched) (out : ∀ x, address ≤ x → x < address + 8 → ¬ touched x) :
    load64 m' address = load64 m address :=
  load64_congr m m' address fun x lower upper => same x (out x lower upper)

section Chains
variable {m m' : Memory} {address previous : Nat} {front bs : List Block}

theorem chain_append (front bs : List Block) :
    Chain m address previous (front ++ bs) ↔
      Chain m address previous front ∧ Chain m (reach address front) (behind previous front) bs := by
  induction front generalizing address previous with
  | nil => simp [Chain, reach, behind]
  | cons b rest ih => simp only [List.cons_append, Chain, reach, behind, ih, and_assoc]

theorem chain_frame (chain : Chain m address previous bs)
    (same : ∀ b ∈ bs, load64 m' b.addr = load64 m b.addr ∧
      load64 m' (b.addr + 8) = load64 m (b.addr + 8)) : Chain m' address previous bs := by
  induction bs generalizing address previous with
  | nil => trivial
  | cons b rest ih =>
      obtain ⟨place, word, tag, tail⟩ := chain
      obtain ⟨sameWord, sameTag⟩ := same b (by simp)
      subst place
      exact ⟨rfl, sameWord.trans word, sameTag.trans tag,
        ih tail fun c member => same c (List.mem_cons_of_mem b member)⟩

theorem chain_reach_le (chain : Chain m address previous bs) : address ≤ reach address bs := by
  induction bs generalizing address previous with
  | nil => exact Nat.le_refl address
  | cons b rest ih =>
      obtain ⟨place, _, _, tail⟩ := chain
      have further := ih tail
      simp only [reach, Block.stop] at *
      omega

theorem chain_bounds (chain : Chain m address previous bs) {b : Block} (member : b ∈ bs) :
    address ≤ b.addr ∧ b.stop ≤ reach address bs := by
  induction bs generalizing address previous with
  | nil => simp at member
  | cons c rest ih =>
      obtain ⟨place, _, _, tail⟩ := chain
      rcases List.mem_cons.mp member with same | inside
      · subst same
        exact ⟨Nat.le_of_eq place.symm, chain_reach_le tail⟩
      · obtain ⟨lower, upper⟩ := ih tail inside
        simp only [reach, Block.stop] at *
        omega

theorem chain_ordered (chain : Chain m address previous bs) :
    bs.Pairwise fun b c => b.stop ≤ c.addr := by
  induction bs generalizing address previous with
  | nil => exact List.Pairwise.nil
  | cons b rest ih =>
      obtain ⟨_, _, _, tail⟩ := chain
      refine List.pairwise_cons.mpr ⟨?_, ih tail⟩
      intro c member
      exact (chain_bounds tail member).1

theorem chain_words (chain : Chain m address previous bs) {b : Block} (member : b ∈ bs) :
    load64 m b.addr = b.word := by
  induction bs generalizing address previous with
  | nil => simp at member
  | cons c rest ih =>
      obtain ⟨place, word, _, tail⟩ := chain
      rcases List.mem_cons.mp member with same | inside
      · subst same
        rw [place]
        exact word
      · exact ih tail inside

theorem chain_aligned (chain : Chain m address previous bs) (start : address % 16 = 0)
    (sizes : ∀ b ∈ bs, b.size % 16 = 0) {b : Block} (member : b ∈ bs) : b.addr % 16 = 0 := by
  induction bs generalizing address previous with
  | nil => simp at member
  | cons c rest ih =>
      obtain ⟨place, _, _, tail⟩ := chain
      rcases List.mem_cons.mp member with same | inside
      · subst same
        omega
      · have size := sizes c (by simp)
        apply ih tail _ (fun d inside => sizes d (List.mem_cons_of_mem c inside)) inside
        simp only [Block.stop]
        omega

theorem chain_edit {old new post : List Block} {nx : Block} {low : Nat}
    (chain : Chain m address previous (front ++ (old ++ nx :: post)))
    (place : reach address front = low)
    (agree : ∀ w, w + 8 ≤ low ∨ nx.addr + 16 ≤ w → load64 m' w = load64 m w)
    (newChain : Chain m' low (behind previous front) new)
    (sameReach : reach low new = nx.addr)
    (nxWord : load64 m' nx.addr = nx.word)
    (nxTag : load64 m' (nx.addr + 8) = behind (behind previous front) new) :
    Chain m' address previous (front ++ (new ++ nx :: post)) := by
  subst place
  obtain ⟨chainFront, chainRest⟩ := (chain_append front _).mp chain
  obtain ⟨_, placeNext, _, _, chainPost⟩ := (chain_append old _).mp chainRest
  refine (chain_append front _).mpr ⟨?_, (chain_append new _).mpr ⟨newChain, ?_⟩⟩
  · apply chain_frame chainFront
    intro b member
    have bound := (chain_bounds chainFront member).2
    simp only [Block.stop] at bound
    exact ⟨agree _ (Or.inl (by omega)), agree _ (Or.inl (by omega))⟩
  · rw [sameReach]
    refine ⟨rfl, nxWord, nxTag, ?_⟩
    apply chain_frame chainPost
    intro b member
    have bound := (chain_bounds chainPost member).1
    simp only [Block.stop] at bound
    exact ⟨agree _ (Or.inr (by omega)), agree _ (Or.inr (by omega))⟩

end Chains

section Regions
variable {m m' : Memory} {r : Region} {bs : List Block}

theorem placed_header_sizes (placed : Placed m r bs) {b : Block}
    (member : b ∈ bs ++ [sentinel r]) : b.size % 16 = 0 := by
  rcases List.mem_append.mp member with inside | last
  · exact (placed.sizes b inside).2
  · rw [List.mem_singleton.mp last]
    rfl

theorem placed_reach (placed : Placed m r bs) : reach r.base bs = r.base + r.size - 16 := by
  obtain ⟨_, place, _⟩ := (chain_append bs _).mp placed.chain
  exact place.symm

theorem reach_append (address : Nat) (front bs : List Block) :
    reach address (front ++ bs) = reach (reach address front) bs := by
  induction front generalizing address with
  | nil => rfl
  | cons b rest ih => exact ih b.stop

theorem placed_header_bounds (placed : Placed m r bs) {b : Block}
    (member : b ∈ bs ++ [sentinel r]) : r.base ≤ b.addr ∧ b.stop ≤ r.base + r.size := by
  obtain ⟨lower, upper⟩ := chain_bounds placed.chain member
  rw [reach_append, placed_reach placed] at upper
  have room := placed.room
  simp only [reach, sentinel, Block.stop] at *
  omega

theorem placed_header_aligned (placed : Placed m r bs) {b : Block}
    (member : b ∈ bs ++ [sentinel r]) : b.addr % 16 = 0 :=
  chain_aligned placed.chain placed.baseAligned (fun _ inside => placed_header_sizes placed inside)
    member

end Regions

section Layouts
variable {m m' : Memory} {regions : List Region} {L : Layout}

theorem mem_headers_of_mem_blocks {b : Block} (member : b ∈ blocks L) : b ∈ headers L := by
  obtain ⟨e, inside, found⟩ := List.mem_flatMap.mp member
  exact List.mem_flatMap.mpr ⟨e, inside, List.mem_append_left _ found⟩

theorem physical_sized (phys : Physical m regions L) {b : Block} (member : b ∈ blocks L) :
    sized b := by
  obtain ⟨e, inside, found⟩ := List.mem_flatMap.mp member
  exact (phys.placed e inside).sizes b found

theorem physical_aligned (phys : Physical m regions L) {b : Block} (member : b ∈ headers L) :
    b.addr % 16 = 0 := by
  obtain ⟨e, inside, found⟩ := List.mem_flatMap.mp member
  exact placed_header_aligned (phys.placed e inside) found

theorem physical_word (phys : Physical m regions L) {b : Block} (member : b ∈ headers L) :
    load64 m b.addr = b.word := by
  obtain ⟨e, inside, found⟩ := List.mem_flatMap.mp member
  exact chain_words (phys.placed e inside).chain found

theorem physical_range (phys : Physical m regions L) {b : Block} (member : b ∈ headers L) :
    16 ≤ b.addr ∧ b.stop < wordSpan := by
  obtain ⟨e, inside, found⟩ := List.mem_flatMap.mp member
  have placed := phys.placed e inside
  have bounds := placed_header_bounds placed found
  have base := placed.baseAligned
  have real := placed.real
  have fits := placed.fits
  omega

theorem physical_disjoint (phys : Physical m regions L) {b c : Block}
    (bMember : b ∈ headers L) (cMember : c ∈ headers L) :
    b = c ∨ b.stop ≤ c.addr ∨ c.stop ≤ b.addr := by
  obtain ⟨d, dInside, bFound⟩ := List.mem_flatMap.mp bMember
  obtain ⟨e, eInside, cFound⟩ := List.mem_flatMap.mp cMember
  by_cases same : d = e
  · subst same
    have ordered := chain_ordered (phys.placed d dInside).chain
    by_cases equal : b = c
    · exact Or.inl equal
    · refine Or.inr ?_
      have either := List.Pairwise.forall_of_forall_of_flip
        (R := fun b c => b = c ∨ b.stop ≤ c.addr ∨ c.stop ≤ b.addr)
        (fun x _ => Or.inl rfl)
        (ordered.imp fun h => Or.inr (Or.inl h))
        (ordered.imp fun h => Or.inr (Or.inr h)) bFound cFound
      exact either.resolve_left equal
  · have either := List.Pairwise.forall_of_forall_of_flip
      (R := fun d e : Region × List Block => d = e ∨ regionApart d.1 e.1)
      (fun x _ => Or.inl rfl)
      (phys.apart.imp fun h => Or.inr h)
      (phys.apart.imp fun h => Or.inr (Or.symm h)) dInside eInside
    have bBounds := placed_header_bounds (phys.placed d dInside) bFound
    have cBounds := placed_header_bounds (phys.placed e eInside) cFound
    rcases either.resolve_left same with before | after
    · exact Or.inr (Or.inl (by omega))
    · exact Or.inr (Or.inr (by omega))

theorem addr_injective (phys : Physical m regions L) {b c : Block}
    (bMember : b ∈ headers L) (cMember : c ∈ headers L) (same : b.addr = c.addr) : b = c := by
  have either := physical_disjoint phys bMember cMember
  simp only [Block.stop] at either
  exact either.resolve_right (by omega)

theorem physical_frame (phys : Physical m regions L)
    (same : ∀ b ∈ headers L, load64 m' b.addr = load64 m b.addr ∧
      load64 m' (b.addr + 8) = load64 m (b.addr + 8)) : Physical m' regions L := by
  refine ⟨phys.regions, ?_, phys.apart⟩
  intro e inside
  have placed := phys.placed e inside
  have chain : Chain m' e.1.base 0 (e.2 ++ [sentinel e.1]) := chain_frame placed.chain
    fun b found => same b (List.mem_flatMap.mpr ⟨e, inside, found⟩)
  exact { placed with chain := chain }

theorem physical_edit {left right : Layout} {r : Region} {front new tail post : List Block}
    {nx : Block} {low : Nat} (old : List Block)
    (phys : Physical m regions (left ++ (r, front ++ (old ++ tail)) :: right))
    (ending : tail ++ [sentinel r] = nx :: post) (place : reach r.base front = low)
    (agree : ∀ w, w + 8 ≤ low ∨ nx.addr + 16 ≤ w → load64 m' w = load64 m w)
    (newSizes : ∀ b ∈ new, sized b)
    (newChain : Chain m' low (behind 0 front) new)
    (sameReach : reach low new = nx.addr)
    (nxWord : load64 m' nx.addr = nx.word)
    (nxTag : load64 m' (nx.addr + 8) = behind (behind 0 front) new) :
    Physical m' regions (left ++ (r, front ++ (new ++ tail)) :: right) := by
  have placed := phys.placed (r, front ++ (old ++ tail)) (by simp)
  have chain := placed.chain
  simp only [List.append_assoc, ending] at chain
  have nxInside : nx ∈ (front ++ (old ++ tail)) ++ [sentinel r] := by
    simp only [List.append_assoc, ending]
    simp
  have nxBounds := placed_header_bounds placed nxInside
  simp only [Block.stop] at nxBounds
  have lowBound : r.base ≤ low := place ▸ chain_reach_le ((chain_append front _).mp chain).1
  have edited : Placed m' r (front ++ (new ++ tail)) := by
    refine { placed with sizes := ?_, chain := ?_ }
    · intro b member
      simp only [List.mem_append] at member
      rcases member with inFront | inNew | inTail
      · exact placed.sizes b (by simp [inFront])
      · exact newSizes b inNew
      · exact placed.sizes b (by simp [inTail])
    · simp only [List.append_assoc, ending]
      exact chain_edit chain place agree newChain sameReach nxWord nxTag
  have others : ∀ e ∈ left ++ right, regionApart e.1 r := by
    intro e member
    have apart := List.pairwise_append.mp phys.apart
    rcases List.mem_append.mp member with inLeft | inRight
    · exact apart.2.2 e inLeft (r, front ++ (old ++ tail)) List.mem_cons_self
    · exact Or.symm ((List.pairwise_cons.mp apart.2.1).1 e inRight)
  have kept : ∀ e ∈ left ++ right, Placed m' e.1 e.2 := by
    intro e member
    have old := phys.placed e (by
      rcases List.mem_append.mp member with inLeft | inRight
      · simp [inLeft]
      · simp [inRight])
    have away := others e member
    refine { old with chain := chain_frame old.chain ?_ }
    intro b found
    have bounds := placed_header_bounds old found
    simp only [Block.stop, regionApart] at bounds away
    exact ⟨agree _ (by omega), agree _ (by omega)⟩
  refine ⟨by simpa using phys.regions, ?_, ?_⟩
  · intro e member
    rcases List.mem_append.mp member with inLeft | inRest
    · exact kept e (List.mem_append_left _ inLeft)
    · rcases List.mem_cons.mp inRest with same | inRight
      · rw [same]
        exact edited
      · exact kept e (List.mem_append_right _ inRight)
  · have apart := phys.apart
    simp only [List.pairwise_append, List.pairwise_cons, List.mem_cons, forall_eq_or_imp] at *
    exact apart

end Layouts

/-- The physical layout and the linked free list `listed` of block addresses. -/
structure Arena (h : Heap) (L : Layout) (listed : List Nat) : Prop where
  phys : Physical h.mem h.regions L
  links : Linked (linkNext h.mem) (linkPrev h.mem) 0 0 h.freeList listed
  unique : listed.Nodup
  known : ∀ x ∈ listed, ∃ b ∈ blocks L, b.addr = x

/-- The link words of the listed blocks and of `extra`. -/
def linkBytes (nodes : List Nat) (x : Nat) : Prop := ∃ y ∈ nodes, y + 16 ≤ x ∧ x < y + 32

section Links
variable {h : Heap} {L : Layout} {listed : List Nat}

theorem arena_listed_bounds (arena : Arena h L listed) {x : Nat} (member : x ∈ listed) :
    x % 16 = 0 ∧ 16 ≤ x ∧ x + 32 < wordSpan := by
  obtain ⟨b, found, same⟩ := arena.known x member
  have inside := mem_headers_of_mem_blocks found
  have aligned := physical_aligned arena.phys inside
  have range := physical_range arena.phys inside
  have size := (physical_sized arena.phys found).1
  simp only [Block.stop] at range
  omega

theorem linkBytes_off_headers {m : Memory} {regions : List Region} (phys : Physical m regions L)
    {nodes : List Nat} (known : ∀ x ∈ nodes, ∃ b ∈ blocks L, b.addr = x)
    {b : Block} (member : b ∈ headers L) {x : Nat} (lower : b.addr ≤ x) (upper : x < b.addr + 16) :
    ¬ linkBytes nodes x := by
  rintro ⟨y, node, low, high⟩
  obtain ⟨c, found, same⟩ := known y node
  have size := (physical_sized phys found).1
  have apart := physical_disjoint phys member (mem_headers_of_mem_blocks found)
  simp only [Block.stop] at apart
  rcases apart with equal | before | after
  · subst equal
    omega
  · omega
  · omega

theorem physical_of_links {m m' : Memory} {regions : List Region} (phys : Physical m regions L)
    {nodes : List Nat} (known : ∀ x ∈ nodes, ∃ b ∈ blocks L, b.addr = x)
    (same : Within m m' (linkBytes nodes)) : Physical m' regions L := by
  apply physical_frame phys
  intro b member
  constructor
  · exact within_load same fun x lower upper =>
      linkBytes_off_headers phys known member lower (by omega)
  · exact within_load same fun x lower upper =>
      linkBytes_off_headers phys known member (by omega) (by omega)

end Links
end R2Apps.HeapLayout
