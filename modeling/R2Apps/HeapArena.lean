import R2Apps.ByteMemory

/-! The arena allocator of `libc++r2/src/heap.cpp`. Addresses and sizes are
naturals; a `size_t` sum that the code compares is reduced modulo 2^64, and one
it stores is reduced by the store. Block headers, free-list links and payload
bytes share one byte memory. A walk over linked blocks carries fuel 2^64 and
returns `none` only if it runs out: no list of distinct addresses is longer. -/
namespace R2Apps.HeapArena
open ByteMemory

def alignment : Nat := 16
def headerSize : Nat := 16
def minPayload : Nat := 16
def freeFlag : Nat := 1
def maxRegions : Nat := 32

def wrap (value : Nat) : Nat := value % wordSpan

/-! `struct Block` is `size` (with `freeFlag` in bit 0) and `prev_size`;
`struct FreeLinks` is `next` and `prev` at the start of the payload. -/

def payloadSize (m : Memory) (b : Nat) : Nat := load64 m b &&& (wordSpan - 1 - freeFlag)

def isFree (m : Memory) (b : Nat) : Bool := load64 m b &&& freeFlag != 0

def setFree (m : Memory) (b : Nat) (free : Bool) : Memory :=
  store64 m b (payloadSize m b ||| if free then freeFlag else 0)

def prevSize (m : Memory) (b : Nat) : Nat := load64 m (b + 8)

def setPrevSize (m : Memory) (b size : Nat) : Memory := store64 m (b + 8) size

def payloadOf (b : Nat) : Nat := b + headerSize

def blockOf (p : Nat) : Nat := p - headerSize

def linkNext (m : Memory) (b : Nat) : Nat := load64 m (b + 16)

def linkPrev (m : Memory) (b : Nat) : Nat := load64 m (b + 24)

def setLinkNext (m : Memory) (b target : Nat) : Memory := store64 m (b + 16) target

def setLinkPrev (m : Memory) (b target : Nat) : Memory := store64 m (b + 24) target

def nextBlock (m : Memory) (b : Nat) : Nat := b + headerSize + payloadSize m b

/-- The block physically before `b`; 0 is the null pointer. -/
def prevBlock (m : Memory) (b : Nat) : Nat :=
  if prevSize m b = 0 then 0 else b - headerSize - prevSize m b

def roundUp (value multiple : Nat) : Nat := wrap (value + multiple - 1) &&& (wordSpan - multiple)

structure Region where
  base : Nat
  size : Nat

structure Stats where
  arenaBytes : Nat := 0
  usedBytes : Nat := 0
  liveAllocations : Nat := 0
  totalAllocations : Nat := 0
  failedAllocations : Nat := 0

structure Heap where
  mem : Memory
  freeList : Nat := 0
  regions : List Region := []
  ready : Bool := false
  stats : Stats := {}

/-- The application's side of one call: what `__r2_heap_config` reports and
what `__r2_heap_more`, if the application defines it, answers to a request. -/
structure Platform where
  config : Nat × Nat
  more : Option (Nat → Option (Nat × Nat))

def freeListInsert (h : Heap) (b : Nat) : Heap :=
  let m := setLinkPrev h.mem b 0
  let m := setLinkNext m b h.freeList
  let m := if h.freeList ≠ 0 then setLinkPrev m h.freeList b else m
  { h with mem := m, freeList := b }

def freeListRemove (h : Heap) (b : Nat) : Heap :=
  let h := if linkPrev h.mem b ≠ 0 then
      { h with mem := setLinkNext h.mem (linkPrev h.mem b) (linkNext h.mem b) }
    else { h with freeList := linkNext h.mem b }
  if linkNext h.mem b ≠ 0 then
    { h with mem := setLinkPrev h.mem (linkNext h.mem b) (linkPrev h.mem b) }
  else h

/-- Lays a region out as one free block and a sentinel. -/
def addRegion (h : Heap) (base size : Nat) : Heap × Bool :=
  if h.regions.length = maxRegions then (h, false)
  else
    let alignedBase := roundUp base alignment
    let skipped := wrap (alignedBase + wordSpan - base)
    if size < skipped then (h, false)
    else
      let size := (size - skipped) &&& (wordSpan - alignment)
      if size < headerSize * 2 + minPayload then (h, false)
      else
        let usable := (size - headerSize - headerSize) &&& (wordSpan - alignment)
        let m := store64 h.mem alignedBase (usable ||| freeFlag)
        let m := setPrevSize m alignedBase 0
        let sentinel := nextBlock m alignedBase
        let m := store64 m sentinel 0
        let m := setPrevSize m sentinel usable
        let h := { h with mem := m, regions := h.regions ++ [⟨alignedBase, size⟩] }
        let h := freeListInsert h alignedBase
        ({ h with stats := { h.stats with arenaBytes := wrap (h.stats.arenaBytes + size) } }, true)

/-- Asks the application for another region big enough for `wanted`. -/
def grow (platform : Platform) (h : Heap) (wanted : Nat) : Heap × Bool :=
  match platform.more with
  | none => (h, false)
  | some more =>
      let need := wrap (wanted + headerSize * 2 + alignment)
      if need < wanted then (h, false)
      else match more need with
        | none => (h, false)
        | some (base, size) => if base = 0 then (h, false) else addRegion h base size

/-- The first block on the list, from `b` on, that holds `wanted`; 0 if none. -/
def firstFitFrom (m : Memory) (wanted : Nat) : Nat → Nat → Option Nat
  | 0, _ => none
  | fuel + 1, b =>
      if b = 0 then some 0
      else if payloadSize m b ≥ wanted then some b
      else firstFitFrom m wanted fuel (linkNext m b)

def firstFit (h : Heap) (wanted : Nat) : Option Nat :=
  firstFitFrom h.mem wanted wordSpan h.freeList

def regionOf (regions : List Region) (p : Nat) : Option Region :=
  regions.find? fun r => r.base ≤ p && p < r.base + r.size

def coalesceForward (h : Heap) (b : Nat) : Heap :=
  let after := nextBlock h.mem b
  if !isFree h.mem after then h
  else
    let h := freeListRemove h after
    let m := store64 h.mem b
      ((payloadSize h.mem b + headerSize + payloadSize h.mem after) |||
        (load64 h.mem b &&& freeFlag))
    { h with mem := setPrevSize m (nextBlock m b) (payloadSize m b) }

/-- Splits `b` so that it holds exactly `wanted` payload bytes, if the leftover
is big enough to be a block of its own. -/
def splitBlock (h : Heap) (b wanted : Nat) : Heap :=
  let have_ := payloadSize h.mem b
  if have_ < wrap (wanted + headerSize + minPayload) then h
  else
    let leftover := have_ - wanted - headerSize
    let m := store64 h.mem b (wanted ||| if isFree h.mem b then freeFlag else 0)
    let rest := nextBlock m b
    let m := store64 m rest (leftover ||| freeFlag)
    let m := setPrevSize m rest wanted
    let m := setPrevSize m (nextBlock m rest) leftover
    coalesceForward (freeListInsert { h with mem := m } rest) rest

def init (platform : Platform) (h : Heap) : Heap :=
  if h.ready then h
  else
    let h := { h with freeList := 0, regions := [], stats := {}, ready := true }
    let (base, size) := platform.config
    if base ≠ 0 ∧ size ≥ headerSize * 2 + minPayload then (addRegion h base size).1 else h

def ensureReady (platform : Platform) (h : Heap) : Heap :=
  if h.ready then h else init platform h

def countFailure (h : Heap) : Heap :=
  { h with stats := { h.stats with failedAllocations := wrap (h.stats.failedAllocations + 1) } }

/-- The rounding `allocate` and `reallocate` share: up to 16, at least 16. -/
def wantedFor (size : Nat) : Nat :=
  let wanted := roundUp size alignment
  if wanted < minPayload then minPayload else wanted

/-- `allocate` once a block `b` was found: unlink it, cut it, mark it used. -/
def takeBlock (h : Heap) (b wanted : Nat) : Heap × Nat :=
  let h := splitBlock (freeListRemove h b) b wanted
  let m := setFree h.mem b false
  ({ h with
      mem := m
      stats := { h.stats with
        usedBytes := wrap (h.stats.usedBytes + payloadSize m b)
        liveAllocations := wrap (h.stats.liveAllocations + 1)
        totalAllocations := wrap (h.stats.totalAllocations + 1) } },
    payloadOf b)

def allocate (platform : Platform) (h : Heap) (size : Nat) : Option (Heap × Nat) :=
  let h := ensureReady platform h
  let size := if size = 0 then 1 else size
  let wanted := wantedFor size
  if wanted < size then some (countFailure h, 0)
  else do
    let b ← firstFit h wanted
    if b ≠ 0 then some (takeBlock h b wanted)
    else
      let (h, grown) := grow platform h wanted
      if !grown then some (countFailure h, 0)
      else do
        let b ← firstFit h wanted
        if b = 0 then some (countFailure h, 0) else some (takeBlock h b wanted)

def deallocate (h : Heap) (ptr : Nat) : Heap :=
  if ptr = 0 then h
  else
    let b := blockOf ptr
    if isFree h.mem b then h
    else
      let stats := { h.stats with
        usedBytes := wrap (h.stats.usedBytes + wordSpan - payloadSize h.mem b)
        liveAllocations := wrap (h.stats.liveAllocations + wordSpan - 1) }
      let h := coalesceForward { h with stats := stats, mem := setFree h.mem b true } b
      let before := prevBlock h.mem b
      if before ≠ 0 ∧ isFree h.mem before then
        let m := store64 h.mem before
          ((payloadSize h.mem before + headerSize + payloadSize h.mem b) ||| freeFlag)
        { h with mem := setPrevSize m (nextBlock m before) (payloadSize m before) }
      else freeListInsert h b

/-- `split_block` on a live block, with `used_bytes` following the cut. -/
def shrinkTo (h : Heap) (b wanted : Nat) : Heap :=
  let before := payloadSize h.mem b
  let h := splitBlock h b wanted
  { h with stats := { h.stats with
      usedBytes := wrap (h.stats.usedBytes + wordSpan - (before - payloadSize h.mem b)) } }

/-- Grows the live block `b` in place by the free block after it. -/
def swallowNext (h : Heap) (b : Nat) : Heap :=
  let size := payloadSize h.mem b
  let after := nextBlock h.mem b
  let h := freeListRemove h after
  let m := store64 h.mem b (size + headerSize + payloadSize h.mem after)
  let m := setPrevSize m (nextBlock m b) (payloadSize m b)
  { h with
    mem := m
    stats := { h.stats with usedBytes := wrap (h.stats.usedBytes + (payloadSize m b - size)) } }

def reallocate (platform : Platform) (h : Heap) (ptr newSize : Nat) : Option (Heap × Nat) :=
  if ptr = 0 then allocate platform h newSize
  else if newSize = 0 then some (deallocate h ptr, 0)
  else
    let h := ensureReady platform h
    let b := blockOf ptr
    let size := payloadSize h.mem b
    let wanted := wantedFor newSize
    if wanted ≤ size then some (shrinkTo h b wanted, ptr)
    else
      let after := nextBlock h.mem b
      if isFree h.mem after ∧ wrap (size + headerSize + payloadSize h.mem after) ≥ wanted then
        some (shrinkTo (swallowNext h b) b wanted, ptr)
      else do
        let (h, fresh) ← allocate platform h newSize
        if fresh = 0 then some (h, 0)
        else
          let m := copyBytes h.mem fresh ptr (if size < newSize then size else newSize)
          some (deallocate { h with mem := m } ptr, fresh)

def blockSize (h : Heap) (ptr : Nat) : Nat := if ptr = 0 then 0 else payloadSize h.mem (blockOf ptr)

inductive Integrity where
  | ok | notReady | badPrevSize | blockOutOfRange | noSentinel
  | freeNotMarked | freeOutOfRange | freeListLoop
  deriving DecidableEq

/-- One region's walk of `validate`; the second component is `*where`. -/
def validateRegion (m : Memory) (stop : Nat) : Nat → Nat → Nat → Option (Integrity × Nat)
  | 0, _, _ => none
  | fuel + 1, b, previous =>
      if b + headerSize ≤ stop then
        if prevSize m b ≠ previous then some (.badPrevSize, b)
        else if payloadSize m b = 0 then some (.ok, 0)
        else
          let next := nextBlock m b
          if next ≤ b ∨ next + headerSize > stop then some (.blockOutOfRange, b)
          else validateRegion m stop fuel next (payloadSize m b)
      else some (.noSentinel, b)

def validateRegions (m : Memory) : List Region → Option (Integrity × Nat)
  | [] => some (.ok, 0)
  | r :: rest => do
      let result ← validateRegion m (r.base + r.size) wordSpan r.base 0
      if result.1 = .ok then validateRegions m rest else some result

/-- The free-list walk of `validate`, `steps` entries in. -/
def validateFree (h : Heap) (limit : Nat) : Nat → Nat → Nat → Option (Integrity × Nat)
  | 0, _, _ => none
  | fuel + 1, f, steps =>
      if f = 0 then some (.ok, 0)
      else match regionOf h.regions f with
        | none => some (.freeOutOfRange, f)
        | some r =>
            if f + headerSize > r.base + r.size then some (.freeOutOfRange, f)
            else if !isFree h.mem f then some (.freeNotMarked, f)
            else if steps + 1 > limit then some (.freeListLoop, f)
            else validateFree h limit fuel (linkNext h.mem f) (steps + 1)

def validate (h : Heap) : Option (Integrity × Nat) :=
  if !h.ready then some (.notReady, 0)
  else do
    let result ← validateRegions h.mem h.regions
    if result.1 = .ok then
      let total := wrap (h.regions.map Region.size).sum
      validateFree h (total / (headerSize + minPayload) + 2) wordSpan h.freeList 0
    else some result

end R2Apps.HeapArena
