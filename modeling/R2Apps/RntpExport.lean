import R2Apps.RntpProtocol

/-! The shared export of `c/rntp/sessions.c`: eight peers, one lock, and an undo
copy of every sector that the lock's owner has written. The peer number -1 is
`none`. -/
namespace R2Apps.RntpExport
open R2Apps.ByteMemory R2Apps.BlockImages R2Apps.RntpProtocol

abbrev peerCount : Nat := 8
abbrev dirtyBytes : Nat := (64 <<< 20) / sectorBytes / 8

inductive Mode
  | absent
  | legacy
  | shared
deriving DecidableEq

structure RntpSessions where
  image : Memory
  undo : Memory
  sectors : Nat
  generation : Nat
  revision : Nat
  committedFree : Nat
  legacy : Option Nat
  locked : Option Nat
  peers : Nat → Mode
  dirty : Memory
  modified : Bool

def setPeer (peers : Nat → Mode) (peer : Nat) (mode : Mode) : Nat → Mode :=
  fun p => if p = peer then mode else peers p

/-- Undo copies go back over the sectors marked dirty, in ascending order. -/
def restore (s : RntpSessions) : Memory :=
  (List.range s.sectors).foldl
    (fun image lba => if marked s.dirty lba then
      paste image (lba * sectorBytes) s.undo (lba * sectorBytes) sectorBytes else image) s.image

/-- The revision after a commit: 64 bits, never 0. -/
def nextRevision (revision : Nat) : Nat :=
  if (revision + 1) % 2 ^ 64 = 0 then 1 else (revision + 1) % 2 ^ 64

def countFree (s : RntpSessions) : RntpSessions :=
  { s with committedFree := (rntpFreeSpace s.image s.sectors).getD s.committedFree }

def finish (s : RntpSessions) (commit : Bool) : RntpSessions :=
  let s :=
    if s.modified then
      if !commit then { s with image := restore s }
      else countFree { s with revision := nextRevision s.revision }
    else s
  { s with dirty := fun i => if i < (s.sectors + 7) / 8 then 0 else s.dirty i,
           modified := false, locked := none }

def rntpSessionsInit (image undo : Memory) (sectors generation : Nat) : Option RntpSessions :=
  if generation = 0 ∨ sectors = 0 ∨ sectors > dirtyBytes * 8 then none
  else (rntpFreeSpace image sectors).map fun free =>
    { image, undo, sectors, generation, revision := 1, committedFree := free, legacy := none,
      locked := none, peers := fun _ => .absent, dirty := fun _ => 0, modified := false }

def rntpSessionsRelease (s : RntpSessions) (peer : Nat) : RntpSessions :=
  if peer ≥ peerCount then s
  else
    let s := if s.locked = some peer then finish s false else s
    let s := if s.legacy = some peer then { s with legacy := none } else s
    { s with peers := setPeer s.peers peer .absent }

def remember (s : RntpSessions) (lba : Nat) : RntpSessions :=
  let s :=
    if marked s.dirty lba then s
    else { s with undo := paste s.undo (lba * sectorBytes) s.image (lba * sectorBytes) sectorBytes,
                  dirty := mark s.dirty lba }
  { s with modified := true }

/-- The reply's length, the sessions after the request, and the reply buffer. -/
structure Handled where
  count : Nat
  sessions : RntpSessions
  reply : Memory

def answer (s : RntpSessions) (reply : Memory) (out : RntpHeader) : Handled :=
  ⟨headerBytes + out.length, s, rntpEncode reply out⟩

def greet (s : RntpSessions) (peer : Nat) (h : RntpHeader) (reply : Memory) : Handled :=
  let out := replyTo h s.generation
  if h.length ≠ 0 ∨ h.lba ≠ 0 ∨ h.generation ≠ 0 ∨ s.peers peer ≠ .absent then
    answer s reply { out with status := statusInvalid }
  else
    let shared := h.op = opHelloShared
    if s.legacy.isSome ∨ (¬shared ∧ ∃ p < peerCount, s.peers p ≠ .absent) then
      answer s reply { out with status := statusBusy }
    else
      answer { s with peers := setPeer s.peers peer (if shared then .shared else .legacy),
                      legacy := if shared then s.legacy else some peer }
        (paste reply headerBytes s.image 0 sectorBytes)
        { out with lba := s.sectors, length := sectorBytes }

/-- LOCK, UNLOCK and ABORT; a granted one reports the revision after it. -/
def arbitrate (s : RntpSessions) (peer : Nat) (h : RntpHeader) (reply : Memory) : Handled :=
  let out := replyTo h s.generation
  let grant := fun s : RntpSessions =>
    answer s (rntpPutNumber reply headerBytes s.revision 8) { out with length := 8 }
  if s.peers peer ≠ .shared ∨ h.length ≠ 0 ∨ h.lba ≠ 0 then
    answer s reply { out with status := statusInvalid }
  else if h.op = opLock then
    if s.locked.isSome then answer s reply { out with status := statusBusy }
    else grant { s with locked := some peer }
  else if s.locked ≠ some peer then answer s reply { out with status := statusInvalid }
  else grant (finish s (h.op = opUnlock))

/-- A request that `rntp_handle` answers from the image of `s`. -/
def delegate (s : RntpSessions) (request reply : Memory) : Handled :=
  let (count, image, reply) := rntpHandle s.image s.sectors s.generation true request reply
  ⟨count, { s with image }, reply⟩

def sharedWriteCount (h : RntpHeader) (request : Memory) : Nat :=
  if h.op = opWrite then 1 else batchCount h request

def sharedWriteLba (h : RntpHeader) (request : Memory) (i : Nat) : Nat :=
  if h.op = opWrite then h.lba else recordLba request i

/-- The lock's owner writes: undo copies first, then the block service. -/
def sharedWrite (s : RntpSessions) (h : RntpHeader) (request reply : Memory) : Handled :=
  let count := sharedWriteCount h request
  -- sector 0 is immutable in shared mode: all mounts rely on its geometry
  if (h.op = opWrite ∧ h.length ≠ sectorBytes) ∨ (h.op = opWriteBatch ∧ badBatch h count) ∨
      ∃ i < count, sharedWriteLba h request i = 0 ∨ sharedWriteLba h request i ≥ s.sectors then
    answer s reply { replyTo h s.generation with status := statusInvalid }
  else
    delegate ((List.range count).foldl (fun s i => remember s (sharedWriteLba h request i)) s)
      request reply

def accepted (count : Nat) (reply : Memory) : Bool :=
  count ≠ 0 && (rntpDecode reply).any fun result => result.status = statusOk

/-- A legacy peer's request, or a shared peer's request that writes nothing. -/
def directService (s : RntpSessions) (write : Bool) (request reply : Memory) : Handled :=
  let result := delegate s request reply
  if write && accepted result.count result.reply then
    let s := result.sessions
    { result with sessions := countFree { s with revision := (s.revision + 1) % 2 ^ 64 } }
  else result

def serveBlocks (s : RntpSessions) (peer : Nat) (h : RntpHeader) (request reply : Memory) : Handled :=
  let write := h.op = opWrite ∨ h.op = opWriteBatch
  let block := write ∨ h.op = opRead ∨ h.op = opReadBatch
  if block ∧ s.peers peer = .shared ∧ s.locked ≠ some peer then
    answer s reply { replyTo h s.generation with status := statusBusy }
  else if write ∧ s.peers peer = .shared then sharedWrite s h request reply
  else directService s write request reply

def rntpSessionsHandle (s : RntpSessions) (peer : Nat) (request reply : Memory) : Handled :=
  if peer ≥ peerCount then ⟨0, s, reply⟩
  else match rntpDecode request with
    | none => ⟨0, s, reply⟩
    | some h =>
        let out := replyTo h s.generation
        if h.id = 0 ∨ h.status ≠ 0 ∨ h.op &&& response ≠ 0 then
          answer s reply { out with status := statusInvalid }
        else if h.op = opHello ∨ h.op = opHelloShared then greet s peer h reply
        else if s.peers peer = .absent then answer s reply { out with status := statusBusy }
        else if h.generation ≠ s.generation then answer s reply { out with status := statusStale }
        else if h.op = opCaps ∧ h.length = 0 ∧ h.lba = 0 then
          answer s (rntpPutNumber reply headerBytes (capBatch ||| capShared ||| capReadBatch) 8)
            { out with length := 8 }
        else if h.op = opLock ∨ h.op = opUnlock ∨ h.op = opAbort then arbitrate s peer h reply
        else if h.op = opStat ∧ h.length = 0 ∧ h.lba = 0 then
          answer s (rntpPutNumber reply headerBytes s.committedFree statBytes)
            { out with length := statBytes }
        else serveBlocks s peer h request reply

/-! One case for each way a request is answered, with the checks it has passed. -/
section Cases
variable {s : RntpSessions} {peer : Nat} {request reply : Memory} {h : RntpHeader}

theorem handle_cases (decoded : rntpDecode request = some h) (motive : Handled → Prop)
    (ignored : motive ⟨0, s, reply⟩)
    (refused : ∀ status, status ≠ statusOk → status ≤ statusStale →
      motive (answer s reply { replyTo h s.generation with status }))
    (greeted : h.op = opHello ∨ h.op = opHelloShared → motive (greet s peer h reply))
    (told : ∀ value, ¬(h.op = opHello ∨ h.op = opHelloShared) → h.op = opCaps ∨ h.op = opStat →
      motive (answer s (rntpPutNumber reply headerBytes value 8)
        { replyTo h s.generation with length := 8 }))
    (arbitrated : h.op = opLock ∨ h.op = opUnlock ∨ h.op = opAbort →
      motive (arbitrate s peer h reply))
    (served : ¬(h.op = opHello ∨ h.op = opHelloShared) → s.peers peer ≠ .absent →
      ¬(h.op = opLock ∨ h.op = opUnlock ∨ h.op = opAbort) →
      ¬(h.op = opStat ∧ h.length = 0 ∧ h.lba = 0) → motive (serveBlocks s peer h request reply)) :
    motive (rntpSessionsHandle s peer request reply) := by
  unfold rntpSessionsHandle
  refine iteInduction (motive := motive) (fun _ => ignored) fun _ => ?_
  rw [decoded]
  refine iteInduction (motive := motive) (fun _ => refused _ (by decide) (by decide)) fun _ => ?_
  refine iteInduction (motive := motive) greeted fun greeting => ?_
  refine iteInduction (motive := motive) (fun _ => refused _ (by decide) (by decide)) fun present => ?_
  refine iteInduction (motive := motive) (fun _ => refused _ (by decide) (by decide)) fun _ => ?_
  refine iteInduction (motive := motive) (fun caps => told _ greeting (Or.inl caps.1)) fun _ => ?_
  refine iteInduction (motive := motive) arbitrated fun other => ?_
  exact iteInduction (motive := motive) (fun stat => told _ greeting (Or.inr stat.1))
    fun usage => served greeting present other usage

theorem arbitrate_cases (motive : Handled → Prop)
    (refused : ∀ status, status ≠ statusOk → status ≤ statusStale →
      motive (answer s reply { replyTo h s.generation with status }))
    (locked : h.op = opLock → s.peers peer = .shared → s.locked = none →
      motive (answer { s with locked := some peer } (rntpPutNumber reply headerBytes s.revision 8)
        { replyTo h s.generation with length := 8 }))
    (finished : h.op ≠ opLock → s.peers peer = .shared → s.locked = some peer →
      motive (answer (finish s (h.op = opUnlock))
        (rntpPutNumber reply headerBytes (finish s (h.op = opUnlock)).revision 8)
        { replyTo h s.generation with length := 8 })) :
    motive (arbitrate s peer h reply) := by
  unfold arbitrate
  refine iteInduction (motive := motive) (fun _ => refused _ (by decide) (by decide)) fun arguments => ?_
  have shared : s.peers peer = .shared := by tauto
  refine iteInduction (motive := motive) (fun locking => ?_) fun finishing => ?_
  · refine iteInduction (motive := motive) (fun _ => refused _ (by decide) (by decide)) fun free => ?_
    exact locked locking shared (by simpa using free)
  · refine iteInduction (motive := motive) (fun _ => refused _ (by decide) (by decide)) fun owner => ?_
    exact finished finishing shared (by simpa using owner)

theorem serveBlocks_cases (motive : Handled → Prop) (present : s.peers peer ≠ .absent)
    (refused : ∀ status, status ≠ statusOk → status ≤ statusStale →
      motive (answer s reply { replyTo h s.generation with status }))
    (written : h.op = opWrite ∨ h.op = opWriteBatch → s.peers peer = .shared →
      s.locked = some peer →
      (∀ i < sharedWriteCount h request, sharedWriteLba h request i ≠ 0 ∧
        sharedWriteLba h request i < s.sectors) →
      motive (delegate ((List.range (sharedWriteCount h request)).foldl
        (fun s i => remember s (sharedWriteLba h request i)) s) request reply))
    (direct : s.peers peer = .legacy ∨
        ¬(h.op = opWrite ∨ h.op = opWriteBatch) ∧
          (h.op = opRead ∨ h.op = opReadBatch → s.locked = some peer) →
      motive (directService s (h.op = opWrite ∨ h.op = opWriteBatch) request reply)) :
    motive (serveBlocks s peer h request reply) := by
  unfold serveBlocks
  refine iteInduction (motive := motive) (fun _ => refused _ (by decide) (by decide)) fun open_ => ?_
  refine iteInduction (motive := motive) (fun writing => ?_) fun other => ?_
  · have held : s.locked = some peer := by tauto
    unfold sharedWrite
    refine iteInduction (motive := motive) (fun _ => refused _ (by decide) (by decide)) fun checked => ?_
    simp only [not_or, not_exists, not_and] at checked
    exact written writing.1 writing.2 held fun i below =>
      ⟨(checked.2.2 i below).1, Nat.lt_of_not_le (checked.2.2 i below).2⟩
  · apply direct
    cases mode : s.peers peer with
    | absent => exact absurd mode present
    | legacy => exact Or.inl rfl
    | shared => exact Or.inr (by tauto)

end Cases
end R2Apps.RntpExport
