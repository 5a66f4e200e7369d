import R2Apps.RntpExport

/-! Transactions on the shared export. Beside the server runs the committed
image: the initial one, replaced at each accepted UNLOCK and at each accepted
legacy write. The invariant says how image, undo copies and dirty marks rebuild
it at any moment. -/
namespace R2Apps.RntpTransactions
open R2Apps.ByteMemory R2Apps.BlockImages R2Apps.RntpProtocol R2Apps.RntpExport

/-- Whether this handled request makes the current image the committed one. -/
def publishes (s : RntpSessions) (peer : Nat) (request : Memory) (result : Handled) : Bool :=
  accepted result.count result.reply && (rntpDecode request).any fun h =>
    h.op = opUnlock ∨ (s.peers peer = .legacy ∧ (h.op = opWrite ∨ h.op = opWriteBatch))

inductive Call
  | handle (peer : Nat) (request reply : Memory)
  | release (peer : Nat)

structure Export where
  sessions : RntpSessions
  committed : Memory

def step (x : Export) : Call → Export
  | .handle peer request reply =>
      let result := rntpSessionsHandle x.sessions peer request reply
      ⟨result.sessions,
        if publishes x.sessions peer request result then result.sessions.image else x.committed⟩
  | .release peer => ⟨rntpSessionsRelease x.sessions peer, x.committed⟩

def run (x : Export) (calls : List Call) : Export := calls.foldl step x

/-! What one request can do to the sessions. The flag says whether it publishes. -/
section Effects

inductive Effect (s : RntpSessions) (peer : Nat) : Bool → RntpSessions → Prop
  | nothing : Effect s peer false s
  | joinShared : s.peers peer = .absent → s.legacy = none →
      Effect s peer false { s with peers := setPeer s.peers peer .shared }
  | joinLegacy : (∀ p < peerCount, s.peers p = .absent) → s.legacy = none →
      Effect s peer false { s with peers := setPeer s.peers peer .legacy, legacy := some peer }
  | lock : s.peers peer = .shared → s.locked = none →
      Effect s peer false { s with locked := some peer }
  | unlock : s.locked = some peer → Effect s peer true (finish s true)
  | abort : s.locked = some peer → Effect s peer false (finish s false)
  | write (lbas : List Nat) (image : Memory) : s.locked = some peer →
      (∀ lba ∈ lbas, lba ≠ 0 ∧ lba < s.sectors) →
      (∀ k, k ∉ lbas → block sectorBytes image k = block sectorBytes s.image k) →
      Effect s peer false { lbas.foldl remember s with image }
  | legacyWrite (image : Memory) (revision free : Nat) : s.peers peer = .legacy →
      Effect s peer true { s with image, revision, committedFree := free }

/-- The effect of a handled request, with the flag read off its reply. -/
abbrev Does (s : RntpSessions) (peer : Nat) (request : Memory) (result : Handled) : Prop :=
  Effect s peer (publishes s peer request result) result.sessions

theorem accepted_answer (s : RntpSessions) (reply : Memory) (out : RntpHeader)
    (fits : out.length ≤ batchBytes) (status : out.status ≤ statusStale) :
    accepted (answer s reply out).count (answer s reply out).reply = decide (out.status = statusOk) := by
  have narrow : out.status % 65536 = out.status :=
    Nat.mod_eq_of_lt (Nat.lt_of_le_of_lt status (by decide))
  simp [accepted, answer, decode_encode reply out fits, narrow]

variable {s : RntpSessions} {peer : Nat} {request reply : Memory} {h : RntpHeader}

theorem publishes_answer (decoded : rntpDecode request = some h) (s' : RntpSessions)
    (text : Memory) (out : RntpHeader) (fits : out.length ≤ batchBytes)
    (status : out.status ≤ statusStale) :
    publishes s peer request (answer s' text out) =
      (decide (out.status = statusOk) && decide (h.op = opUnlock ∨
        (s.peers peer = .legacy ∧ (h.op = opWrite ∨ h.op = opWriteBatch)))) := by
  rw [publishes, accepted_answer s' text out fits status, decoded]
  rfl

theorem refused_effect (decoded : rntpDecode request = some h) (status : Nat)
    (failed : status ≠ statusOk) (bound : status ≤ statusStale) (text : Memory) :
    Does s peer request (answer s text { replyTo h s.generation with status }) := by
  unfold Does
  rw [publishes_answer decoded s text _ (Nat.zero_le _) bound]
  simp only [failed, decide_false, Bool.false_and]
  exact Effect.nothing

theorem granted_effect (decoded : rntpDecode request = some h) (s' : RntpSessions) (text : Memory)
    (lba length : Nat) (fits : length ≤ batchBytes)
    (effect : Effect s peer (decide (h.op = opUnlock ∨
      (s.peers peer = .legacy ∧ (h.op = opWrite ∨ h.op = opWriteBatch)))) s') :
    Does s peer request (answer s' text { replyTo h s.generation with lba, length }) := by
  unfold Does
  rw [publishes_answer decoded s' text _ fits (Nat.zero_le _)]
  exact effect

theorem quiet_effect (decoded : rntpDecode request = some h) (s' : RntpSessions) (text : Memory)
    (lba length : Nat) (fits : length ≤ batchBytes)
    (quiet : h.op ≠ opUnlock ∧ h.op ≠ opWrite ∧ h.op ≠ opWriteBatch)
    (effect : Effect s peer false s') :
    Does s peer request (answer s' text { replyTo h s.generation with lba, length }) := by
  apply granted_effect decoded s' text lba length fits
  simpa only [quiet, false_or, and_false, decide_false] using effect

theorem greet_effect (decoded : rntpDecode request = some h)
    (hello : h.op = opHello ∨ h.op = opHelloShared) :
    Does s peer request (greet s peer h reply) := by
  have quiet : h.op ≠ opUnlock ∧ h.op ≠ opWrite ∧ h.op ≠ opWriteBatch := by
    rcases hello with is | is <;> rw [is] <;> decide
  unfold greet
  refine iteInduction (motive := Does s peer request)
    (fun _ => refused_effect decoded _ (by decide) (by decide) reply) fun arguments => ?_
  refine iteInduction (motive := Does s peer request)
    (fun _ => refused_effect decoded _ (by decide) (by decide) reply) fun idle => ?_
  refine quiet_effect decoded _ _ s.sectors sectorBytes (by decide) quiet ?_
  simp only [not_or, not_and, not_exists, ne_eq, not_not] at arguments idle
  have vacant : s.legacy = none := by simpa using idle.1
  by_cases shared : h.op = opHelloShared
  · simpa only [shared, if_true] using Effect.joinShared (by simpa using arguments.2.2.2) vacant
  · simpa only [shared, if_false] using Effect.joinLegacy (idle.2 shared) vacant

theorem arbitrate_effect (decoded : rntpDecode request = some h) :
    Does s peer request (arbitrate s peer h reply) := by
  apply arbitrate_cases (Does s peer request)
  · intro status failed bound
    exact refused_effect decoded status failed bound reply
  · intro locking shared free
    exact quiet_effect decoded _ _ h.lba 8 (by decide) (by rw [locking]; decide)
      (Effect.lock shared free)
  · intro _ shared held
    apply granted_effect decoded _ _ h.lba 8 (by decide)
    simp only [shared, reduceCtorEq, false_and, or_false]
    by_cases commit : h.op = opUnlock
    · simpa only [commit, decide_true] using Effect.unlock held
    · simpa only [commit, decide_false] using Effect.abort held

theorem accepted_delegate (s : RntpSessions) (reply : Memory) (decoded : rntpDecode request = some h) :
    accepted (delegate s request reply).count (delegate s request reply).reply =
      decide ((rntpOutcome s.image s.sectors s.generation true request reply h).out.status =
        statusOk) := by
  have bounds := outcome_bounds s.image s.sectors s.generation true request reply h
  have sent := accepted_answer s
    (rntpOutcome s.image s.sectors s.generation true request reply h).reply _ bounds.1 bounds.2
  rw [← sent]
  simp only [delegate, rntpHandle, decoded, answer]

theorem directService_effect (decoded : rntpDecode request = some h)
    (unlock : h.op ≠ opUnlock)
    (peers : s.peers peer = .legacy ∨ ¬(h.op = opWrite ∨ h.op = opWriteBatch)) :
    Does s peer request (directService s (h.op = opWrite ∨ h.op = opWriteBatch) request reply) := by
  obtain ⟨result, made⟩ : ∃ result,
      directService s (h.op = opWrite ∨ h.op = opWriteBatch) request reply = result := ⟨_, rfl⟩
  rw [made]
  unfold Does
  obtain ⟨outcome, is⟩ : ∃ outcome,
      rntpOutcome s.image s.sectors s.generation true request reply h = outcome := ⟨_, rfl⟩
  have sent := accepted_delegate s reply decoded
  rw [is] at sent
  have image : (delegate s request reply).sessions = { s with image := outcome.image } := by
    simp only [delegate, rntpHandle, decoded, is]
  by_cases write : h.op = opWrite ∨ h.op = opWriteBatch
  · have legacy : s.peers peer = .legacy := peers.resolve_right (not_not_intro write)
    rcases outcome_image _ _ _ _ _ _ _ outcome is with ⟨same, failed | reading⟩ | ⟨done, -, -⟩
    · have kept : result = delegate s request reply := by
        simp only [← made, directService, sent, failed, decide_false, Bool.and_false,
          Bool.false_eq_true, if_false]
      rw [kept, publishes, sent, image, same]
      simpa only [failed, decide_false, Bool.false_and] using Effect.nothing
    · exact absurd write reading
    · have moved : result = { delegate s request reply with
          sessions := countFree { s with
            image := outcome.image, revision := (s.revision + 1) % 2 ^ 64 } } := by
        simp only [← made, directService, sent, done, write, decide_true, Bool.and_true, if_true,
          image]
      rw [moved, publishes, sent, decoded]
      simp only [done, decide_true, Option.any_some, legacy, write, and_self, or_true, Bool.and_self]
      exact Effect.legacyWrite _ _ _ legacy
  · have kept : result = delegate s request reply := by
      simp only [← made, directService, write, decide_false, Bool.false_and, Bool.false_eq_true,
        if_false]
    rcases outcome_image _ _ _ _ _ _ _ outcome is with ⟨same, -⟩ | ⟨-, writing, -⟩
    · rw [kept, publishes, decoded, image, same]
      simp only [Option.any_some, unlock, write, and_false, or_false, decide_false, Bool.and_false]
      exact Effect.nothing
    · exact absurd writing write

theorem sharedWrite_lbas (request : Memory) (write : h.op = opWrite ∨ h.op = opWriteBatch) :
    (List.range (sharedWriteCount h request)).map (sharedWriteLba h request) =
      writtenLbas request h := by
  rcases write with is | is
  · have other : h.op ≠ opWriteBatch := by rw [is]; decide
    rw [writtenLbas, if_neg other, sharedWriteCount, if_pos is]
    simp only [List.range_one, List.map_cons, List.map_nil, sharedWriteLba, if_pos is]
  · have other : h.op ≠ opWrite := by rw [is]; decide
    have named : sharedWriteLba h request = recordLba request := by
      funext i
      simp only [sharedWriteLba, other, if_false]
    rw [named, sharedWriteCount, writtenLbas, if_neg other, if_pos is]

theorem remember_rest (s : RntpSessions) (lba : Nat) :
    remember s lba = { s with
      undo := (remember s lba).undo, dirty := (remember s lba).dirty, modified := true } := by
  unfold remember
  split <;> rfl

theorem remember_all_rest (s : RntpSessions) (lbas : List Nat) :
    lbas.foldl remember s = { s with
      undo := (lbas.foldl remember s).undo, dirty := (lbas.foldl remember s).dirty,
      modified := (lbas.foldl remember s).modified } := by
  induction lbas generalizing s with
  | nil => rfl
  | cons lba rest ih =>
      have tail := ih (remember s lba)
      rw [remember_rest s lba] at tail
      simp only [List.foldl_cons]
      rw [remember_rest s lba]
      exact tail

theorem sharedWrite_effect (decoded : rntpDecode request = some h)
    (write : h.op = opWrite ∨ h.op = opWriteBatch) (shared : s.peers peer = .shared)
    (held : s.locked = some peer)
    (inside : ∀ i < sharedWriteCount h request, sharedWriteLba h request i ≠ 0 ∧
      sharedWriteLba h request i < s.sectors) :
    Does s peer request (delegate ((List.range (sharedWriteCount h request)).foldl
      (fun s i => remember s (sharedWriteLba h request i)) s) request reply) := by
  have lbas := sharedWrite_lbas request write
  have noPublish : ∀ r, publishes s peer request r = false := by
    intro r
    rw [publishes, decoded]
    have op : h.op ≠ opUnlock := by rcases write with is | is <;> rw [is] <;> decide
    simp [op, shared]
  unfold Does
  rw [noPublish, ← List.foldl_map, lbas]
  have rest := remember_all_rest s (writtenLbas request h)
  obtain ⟨saved, is⟩ : ∃ saved, (writtenLbas request h).foldl remember s = saved := ⟨_, rfl⟩
  have image : saved.image = s.image := by rw [← is, rest]
  obtain ⟨outcome, made⟩ : ∃ outcome,
      rntpOutcome saved.image saved.sectors saved.generation true request reply h = outcome := ⟨_, rfl⟩
  have untouched : ∀ k, k ∉ writtenLbas request h →
      block sectorBytes outcome.image k = block sectorBytes s.image k := by
    intro k absent
    rcases outcome_image _ _ _ _ _ _ _ outcome made with ⟨same, -⟩ | ⟨-, -, other⟩
    · rw [same, image]
    · rw [other k absent, image]
  have range : ∀ lba ∈ writtenLbas request h, lba ≠ 0 ∧ lba < s.sectors := by
    intro lba member
    rw [← lbas] at member
    obtain ⟨i, below, rfl⟩ := List.mem_map.mp member
    exact inside i (List.mem_range.mp below)
  have effect : Effect s peer false _ :=
    Effect.write (writtenLbas request h) outcome.image held range untouched
  rw [is] at effect ⊢
  simpa only [delegate, rntpHandle, decoded, made] using effect

theorem handle_effect (s : RntpSessions) (peer : Nat) (request reply : Memory) :
    Does s peer request (rntpSessionsHandle s peer request reply) := by
  have ignored : Does s peer request ⟨0, s, reply⟩ := by
    have silent : publishes s peer request ⟨0, s, reply⟩ = false := by simp [publishes, accepted]
    rw [Does, silent]
    exact Effect.nothing
  cases decoded : rntpDecode request with
  | none =>
      have same : rntpSessionsHandle s peer request reply = ⟨0, s, reply⟩ := by
        simp only [rntpSessionsHandle, decoded, ite_self]
      rwa [same]
  | some h =>
      have refused : ∀ status, status ≠ statusOk → status ≤ statusStale →
          Does s peer request (answer s reply { replyTo h s.generation with status }) :=
        fun status failed bound => refused_effect decoded status failed bound reply
      apply handle_cases decoded (Does s peer request) ignored refused
      · exact greet_effect decoded
      · rintro value _ (caps | stat)
        · exact quiet_effect decoded s _ h.lba 8 (by decide) (by rw [caps]; decide) Effect.nothing
        · exact quiet_effect decoded s _ h.lba 8 (by decide) (by rw [stat]; decide) Effect.nothing
      · exact fun _ => arbitrate_effect decoded
      · intro _ present finishing _
        apply serveBlocks_cases (Does s peer request) present refused
        · exact sharedWrite_effect decoded
        · intro direct
          exact directService_effect decoded (by tauto) (direct.imp_right And.left)

end Effects

/-! The committed image can be rebuilt at any moment: off the marks it is the
image, on the marks it is the undo copy. Sector 0 is never marked. -/
section Invariant

structure Inv (s : RntpSessions) (committed : Memory) : Prop where
  absent : ∀ p, p ≥ peerCount → s.peers p = .absent
  legacyMode : ∀ p, s.peers p = .legacy ↔ s.legacy = some p
  legacyAlone : ∀ p q, s.legacy = some p → q ≠ p → s.peers q = .absent
  ownerShared : ∀ p, s.locked = some p → s.peers p = .shared
  markedRange : ∀ lba, marked s.dirty lba → lba ≠ 0 ∧ lba < s.sectors
  markedOwned : ∀ lba, marked s.dirty lba → s.locked ≠ none ∧ s.modified = true
  clean : ∀ lba, ¬marked s.dirty lba → block sectorBytes s.image lba = block sectorBytes committed lba
  saved : ∀ lba, marked s.dirty lba → block sectorBytes s.undo lba = block sectorBytes committed lba

theorem restore_block (s : RntpSessions) (k : Nat) :
    block sectorBytes (restore s) k =
      if k < s.sectors ∧ marked s.dirty k then block sectorBytes s.undo k
      else block sectorBytes s.image k := by
  unfold restore
  generalize s.sectors = n
  -- the sectors before `n` are done, in ascending order
  induction n with
  | zero => simp
  | succ n ih =>
      rw [List.range_succ, List.foldl_append, List.foldl_cons, List.foldl_nil]
      by_cases dirty : marked s.dirty n
      · rw [if_pos dirty, block_paste, ih]
        by_cases same : k = n
        · subst same
          simp [dirty, block]
        · have order : k < n + 1 ↔ k < n := by omega
          simp [same, order]
      · rw [if_neg dirty, ih]
        have order : k < n + 1 ∧ marked s.dirty k ↔ k < n ∧ marked s.dirty k := by
          constructor
          · rintro ⟨below, mark⟩
            have different : k ≠ n := fun same => dirty (same ▸ mark)
            exact ⟨by omega, mark⟩
          · rintro ⟨below, mark⟩
            exact ⟨by omega, mark⟩
        simp only [order]

variable {s : RntpSessions} {committed : Memory}

theorem Inv.restored (inv : Inv s committed) : restore s = committed := by
  apply ext_of_blocks sectorBytes (by decide)
  intro k
  rw [restore_block]
  by_cases dirty : marked s.dirty k
  · rw [if_pos ⟨(inv.markedRange k dirty).2, dirty⟩, inv.saved k dirty]
  · rw [if_neg (fun both => dirty both.2), inv.clean k dirty]

theorem Inv.unmarked_image (inv : Inv s committed) (none : ∀ lba, ¬marked s.dirty lba) :
    s.image = committed :=
  ext_of_blocks sectorBytes (by decide) fun k => inv.clean k (none k)

theorem finish_image (inv : Inv s committed) (commit : Bool) :
    (finish s commit).image = if commit then s.image else committed := by
  cases changed : s.modified with
  | true =>
      cases commit with
      | true => simp [finish, changed, countFree]
      | false => simpa [finish, changed] using inv.restored
  | false =>
      have same := inv.unmarked_image fun lba mark => by
        have modified := (inv.markedOwned lba mark).2
        rw [changed] at modified
        contradiction
      cases commit <;> simp [finish, changed, same]

theorem finish_unmarked (inv : Inv s committed) (commit : Bool) (lba : Nat) :
    ¬marked (finish s commit).dirty lba := by
  have dirty : (finish s commit).dirty =
      fun i => if i < (s.sectors + 7) / 8 then 0 else s.dirty i := by
    unfold finish countFree
    split_ifs <;> rfl
  intro mark
  simp only [marked, dirty] at mark
  split at mark
  · simp at mark
  · have range := (inv.markedRange lba mark).2
    omega

theorem finish_rest (s : RntpSessions) (commit : Bool) :
    (finish s commit).peers = s.peers ∧ (finish s commit).legacy = s.legacy ∧
    (finish s commit).sectors = s.sectors ∧ (finish s commit).generation = s.generation ∧
    (finish s commit).locked = none ∧ (finish s commit).undo = s.undo := by
  unfold finish countFree
  split_ifs <;> exact ⟨rfl, rfl, rfl, rfl, rfl, rfl⟩

theorem Inv.finish (inv : Inv s committed) (commit : Bool) :
    Inv (finish s commit) (if commit then s.image else committed) := by
  obtain ⟨peers, legacy, sectors, -, locked, undo⟩ := finish_rest s commit
  have none := finish_unmarked inv commit
  constructor
  · rw [peers]
    exact inv.absent
  · rw [peers, legacy]
    exact inv.legacyMode
  · rw [peers, legacy]
    exact inv.legacyAlone
  · intro p owner
    rw [locked] at owner
    contradiction
  · intro lba mark
    exact absurd mark (none lba)
  · intro lba mark
    exact absurd mark (none lba)
  · intro lba _
    rw [finish_image inv commit]
  · intro lba mark
    exact absurd mark (none lba)

theorem remember_marked (s : RntpSessions) (lba k : Nat) :
    marked (remember s lba).dirty k ↔ k = lba ∨ marked s.dirty k := by
  unfold remember
  by_cases known : marked s.dirty lba
  · simp only [known, if_true]
    constructor
    · exact Or.inr
    · rintro (rfl | old)
      · exact known
      · exact old
  · simp only [known, if_false]
    exact marked_mark s.dirty lba k

theorem remember_undo (s : RntpSessions) (lba k : Nat) (new : k ≠ lba ∨ marked s.dirty k) :
    block sectorBytes (remember s lba).undo k = block sectorBytes s.undo k := by
  unfold remember
  by_cases known : marked s.dirty lba
  · simp only [known, if_true]
  · simp only [known, if_false]
    have different : k ≠ lba := by
      rintro rfl
      exact new.elim (fun apart => apart rfl) known
    rw [block_paste, if_neg different]

theorem Inv.remember (inv : Inv s committed) (lba : Nat) (range : lba ≠ 0 ∧ lba < s.sectors)
    (held : s.locked ≠ none) : Inv (remember s lba) committed := by
  have rest := remember_rest s lba
  constructor
  · rw [rest]
    exact inv.absent
  · rw [rest]
    exact inv.legacyMode
  · rw [rest]
    exact inv.legacyAlone
  · rw [rest]
    exact inv.ownerShared
  · intro k mark
    have sectors : (RntpExport.remember s lba).sectors = s.sectors := by rw [rest]
    rw [sectors]
    rcases (remember_marked s lba k).mp mark with rfl | old
    · exact range
    · exact inv.markedRange k old
  · intro k _
    rw [rest]
    exact ⟨held, rfl⟩
  · intro k clear
    have old : ¬marked s.dirty k := fun mark => clear ((remember_marked s lba k).mpr (Or.inr mark))
    rw [rest]
    exact inv.clean k old
  · intro k mark
    by_cases old : marked s.dirty k
    · rw [remember_undo s lba k (Or.inr old)]
      exact inv.saved k old
    · -- the sector was still clean, so its image is the committed one
      have same : k = lba := ((remember_marked s lba k).mp mark).resolve_right old
      subst same
      have copied : block sectorBytes (RntpExport.remember s k).undo k = block sectorBytes s.image k := by
        simp only [RntpExport.remember, old, if_false]
        rw [block_paste, if_pos rfl, block]
      rw [copied]
      exact inv.clean k old

theorem remember_all_marked (lbas : List Nat) (s : RntpSessions) (k : Nat) :
    marked (lbas.foldl RntpExport.remember s).dirty k ↔ k ∈ lbas ∨ marked s.dirty k := by
  induction lbas generalizing s with
  | nil => simp
  | cons lba rest ih =>
      rw [List.foldl_cons, ih, remember_marked, List.mem_cons]
      tauto

theorem Inv.remember_all (lbas : List Nat) (inv : Inv s committed)
    (range : ∀ lba ∈ lbas, lba ≠ 0 ∧ lba < s.sectors) (held : s.locked ≠ none) :
    Inv (lbas.foldl RntpExport.remember s) committed := by
  induction lbas generalizing s with
  | nil => exact inv
  | cons lba rest ih =>
      have next := inv.remember lba (range lba (by simp)) held
      have kept := remember_rest s lba
      apply ih next
      · rw [kept]
        exact fun k member => range k (List.mem_cons_of_mem _ member)
      · rw [kept]
        exact held

theorem Inv.write (inv : Inv s committed) (image : Memory)
    (covered : ∀ k, ¬marked s.dirty k → block sectorBytes image k = block sectorBytes s.image k) :
    Inv { s with image } committed :=
  { inv with clean := fun k clear => (covered k clear).trans (inv.clean k clear) }

theorem Inv.unlocked (inv : Inv s committed) (free : s.locked = none) : s.image = committed :=
  inv.unmarked_image fun lba mark => (inv.markedOwned lba mark).1 free

theorem Inv.join_shared {peer : Nat} (inv : Inv s committed) (below : peer < peerCount)
    (alone : s.legacy = none) :
    Inv { s with peers := setPeer s.peers peer .shared } committed := by
  refine { inv with absent := ?_, legacyMode := ?_, legacyAlone := ?_, ownerShared := ?_ }
  · intro p beyond
    have different : p ≠ peer := fun same => absurd below (Nat.not_lt.mpr (same ▸ beyond))
    simpa only [setPeer, different, if_false] using inv.absent p beyond
  · intro p
    have mode := inv.legacyMode p
    rw [alone] at mode ⊢
    by_cases same : p = peer <;> simp_all [setPeer]
  · intro p q legacy
    rw [alone] at legacy
    contradiction
  · intro p owner
    by_cases same : p = peer
    · simp only [setPeer, same, if_true]
    · simpa only [setPeer, same, if_false] using inv.ownerShared p owner

theorem Inv.join_legacy {peer : Nat} (inv : Inv s committed) (below : peer < peerCount)
    (vacant : ∀ p < peerCount, s.peers p = .absent) :
    Inv { s with peers := setPeer s.peers peer .legacy, legacy := some peer } committed := by
  have nobody : ∀ p, s.peers p = .absent := fun p =>
    (Nat.lt_or_ge p peerCount).elim (vacant p) (inv.absent p)
  refine { inv with absent := ?_, legacyMode := ?_, legacyAlone := ?_, ownerShared := ?_ }
  · intro p beyond
    have different : p ≠ peer := fun same => absurd below (Nat.not_lt.mpr (same ▸ beyond))
    simpa only [setPeer, different, if_false] using inv.absent p beyond
  · intro p
    by_cases same : p = peer
    · simp [setPeer, same]
    · simp [setPeer, same, nobody, Ne.symm same]
  · rintro p q ⟨⟩ different
    simpa only [setPeer, different, if_false] using nobody q
  · intro p owner
    have shared := inv.ownerShared p owner
    rw [nobody p] at shared
    contradiction

theorem Inv.leave {peer : Nat} (inv : Inv s committed) (unlocked : s.locked ≠ some peer) :
    Inv { s with peers := setPeer s.peers peer .absent,
                 legacy := if s.legacy = some peer then none else s.legacy } committed := by
  refine { inv with absent := ?_, legacyMode := ?_, legacyAlone := ?_, ownerShared := ?_ }
  · intro p beyond
    by_cases same : p = peer
    · simp only [setPeer, same, if_true]
    · simpa only [setPeer, same, if_false] using inv.absent p beyond
  · intro p
    have mode := inv.legacyMode p
    by_cases same : p = peer <;> by_cases legacy : s.legacy = some peer <;> simp_all [setPeer]
    exact fun back => same back.symm
  · intro p q legacy different
    have before : s.legacy = some p := by
      by_cases gone : s.legacy = some peer <;> simp_all
    by_cases same : q = peer
    · simp only [setPeer, same, if_true]
    · simpa only [setPeer, same, if_false] using inv.legacyAlone p q before different
  · intro p owner
    have different : p ≠ peer := fun same => unlocked (same ▸ owner)
    simpa only [setPeer, different, if_false] using inv.ownerShared p owner

theorem release_cases (s : RntpSessions) (peer : Nat) (below : peer < peerCount) :
    rntpSessionsRelease s peer =
      let t := if s.locked = some peer then finish s false else s
      { t with peers := setPeer t.peers peer .absent,
               legacy := if t.legacy = some peer then none else t.legacy } := by
  have inside : ¬peer ≥ peerCount := Nat.not_le.mpr below
  simp only [rntpSessionsRelease, if_neg inside]
  generalize (if s.locked = some peer then RntpExport.finish s false else s) = t
  by_cases legacy : t.legacy = some peer
  · simp only [legacy, if_true]
  · simp only [legacy, if_false]

theorem Inv.release (inv : Inv s committed) (peer : Nat) :
    Inv (rntpSessionsRelease s peer) committed := by
  by_cases below : peer < peerCount
  · rw [release_cases s peer below]
    by_cases owner : s.locked = some peer
    · have done := inv.finish false
      have free := (finish_rest s false).2.2.2.2.1
      simp only [owner, if_true]
      exact Inv.leave done (by rw [free]; simp)
    · simp only [owner, if_false]
      exact inv.leave owner
  · have outside : peer ≥ peerCount := Nat.not_lt.mp below
    rwa [rntpSessionsRelease, if_pos outside]

def Separate (s : RntpSessions) : Prop := ∀ p q, ¬(s.peers p = .legacy ∧ s.peers q = .shared)

theorem Inv.separate (inv : Inv s committed) : Separate s := by
  rintro p q ⟨legacy, shared⟩
  by_cases same : q = p
  · rw [same, legacy] at shared
    contradiction
  · have alone := inv.legacyAlone p q ((inv.legacyMode p).mp legacy) same
    rw [shared] at alone
    contradiction

theorem Inv.legacy_unlocked (inv : Inv s committed) {peer : Nat} (legacy : s.peers peer = .legacy) :
    s.locked = none := by
  cases locked : s.locked with
  | none => rfl
  | some owner => exact absurd ⟨legacy, inv.ownerShared owner locked⟩ (inv.separate peer owner)

theorem Inv.effect {s' : RntpSessions} {peer : Nat} {flag : Bool} (inv : Inv s committed)
    (below : peer < peerCount) (effect : Effect s peer flag s') :
    Inv s' (if flag then s'.image else committed) := by
  cases effect with
  | nothing => exact inv
  | joinShared vacant alone => exact inv.join_shared below alone
  | joinLegacy vacant alone => exact inv.join_legacy below vacant
  | lock shared free =>
      have none : ∀ k, ¬marked s.dirty k := fun k mark => (inv.markedOwned k mark).1 free
      exact { inv with
        ownerShared := by rintro p ⟨⟩; exact shared
        markedOwned := fun k mark => absurd mark (none k) }
  | unlock held =>
      have done := inv.finish true
      have image := finish_image inv true
      simp only [if_true] at done image ⊢
      rwa [image]
  | abort held => exact inv.finish false
  | write lbas image held range untouched =>
      have owned : s.locked ≠ none := by rw [held]; simp
      refine (inv.remember_all lbas range owned).write image fun k clear => ?_
      have old : k ∉ lbas := fun member => clear ((remember_all_marked lbas s k).mpr (Or.inl member))
      rw [remember_all_rest s lbas]
      exact untouched k old
  | legacyWrite image revision free legacy =>
      have alone := inv.legacy_unlocked legacy
      exact { inv with
        clean := fun k _ => rfl
        saved := fun k mark => absurd alone (inv.markedOwned k mark).1 }

theorem handle_outside (s : RntpSessions) (peer : Nat) (request reply : Memory)
    (outside : peer ≥ peerCount) : rntpSessionsHandle s peer request reply = ⟨0, s, reply⟩ := by
  rw [rntpSessionsHandle, if_pos outside]

theorem Inv.step {x : Export} (inv : Inv x.sessions x.committed) (call : Call) :
    Inv (step x call).sessions (step x call).committed := by
  cases call with
  | handle peer request reply =>
      have does := handle_effect x.sessions peer request reply
      by_cases below : peer < peerCount
      · exact inv.effect below does
      · have ignored := handle_outside x.sessions peer request reply (Nat.not_lt.mp below)
        simp only [RntpTransactions.step, ignored]
        simpa [publishes, accepted] using inv
  | release peer => exact inv.release peer

theorem Inv.run {x : Export} (inv : Inv x.sessions x.committed) (calls : List Call) :
    Inv (run x calls).sessions (run x calls).committed := by
  induction calls generalizing x with
  | nil => exact inv
  | cons call rest ih => exact ih (inv.step call)

theorem Inv.init {image undo : Memory} {sectors generation : Nat} {start : RntpSessions}
    (opened : rntpSessionsInit image undo sectors generation = some start) : Inv start image := by
  have unmarked : ∀ lba, ¬marked (fun _ => 0) lba := fun lba mark => by simp [marked] at mark
  unfold rntpSessionsInit at opened
  split at opened
  · contradiction
  · obtain ⟨free, -, rfl⟩ := Option.map_eq_some_iff.mp opened
    exact {
      absent := fun _ _ => rfl
      legacyMode := by simp
      legacyAlone := by simp
      ownerShared := by simp
      markedRange := fun lba mark => absurd mark (unmarked lba)
      markedOwned := fun lba mark => absurd mark (unmarked lba)
      clean := fun _ _ => rfl
      saved := fun lba mark => absurd mark (unmarked lba) }

end Invariant

/-! What the invariant means for the peers. -/
section Guarantees

/-- The image is the committed one, up to the undo copies of a transaction that is under way. -/
def Recoverable (x : Export) : Prop :=
  (x.sessions.locked = none → x.sessions.image = x.committed) ∧
  ∀ owner, x.sessions.locked = some owner → ∀ lba < x.sessions.sectors,
    if marked x.sessions.dirty lba then
      block sectorBytes x.sessions.undo lba = block sectorBytes x.committed lba
    else block sectorBytes x.sessions.image lba = block sectorBytes x.committed lba

/-- An UNLOCK or ABORT as the protocol has it: an id, nothing in it, and the export's generation. -/
structure WellFormed (s : RntpSessions) (h : RntpHeader) : Prop where
  status : h.status = 0
  id : h.id ≠ 0
  length : h.length = 0
  lba : h.lba = 0
  generation : h.generation = s.generation

/-- A transaction that is aborted, or whose owner goes away, leaves the committed image, and
the owner's ABORT is taken. -/
def RollsBack (x : Export) : Prop :=
  (∀ owner, x.sessions.locked = some owner →
    (rntpSessionsRelease x.sessions owner).image = x.committed) ∧
  (∀ peer request reply h, rntpDecode request = some h → h.op = opAbort →
    accepted (rntpSessionsHandle x.sessions peer request reply).count
      (rntpSessionsHandle x.sessions peer request reply).reply = true →
    (rntpSessionsHandle x.sessions peer request reply).sessions.image = x.committed) ∧
  ∀ owner request reply h, x.sessions.locked = some owner → rntpDecode request = some h → h.op = opAbort →
    WellFormed x.sessions h → accepted (rntpSessionsHandle x.sessions owner request reply).count
      (rntpSessionsHandle x.sessions owner request reply).reply = true

/-- While a peer holds the lock, another peer's request leaves the image alone, and its reply is
the same for any image and undo buffer with the same sector 0. -/
def Isolated (s : RntpSessions) : Prop :=
  ∀ owner, s.locked = some owner → s.peers owner = .shared ∧ ∀ peer, peer ≠ owner →
    ∀ request reply,
      (rntpSessionsHandle s peer request reply).sessions.image = s.image ∧
      ∀ image undo, block sectorBytes image 0 = block sectorBytes s.image 0 →
        (rntpSessionsHandle { s with image, undo } peer request reply).count =
          (rntpSessionsHandle s peer request reply).count ∧
        (rntpSessionsHandle { s with image, undo } peer request reply).reply =
          (rntpSessionsHandle s peer request reply).reply

def BootKept (x : Export) : Prop :=
  x.sessions.legacy = none → ∀ call,
    block sectorBytes (step x call).sessions.image 0 = block sectorBytes x.sessions.image 0

variable {x : Export} {s : RntpSessions} {committed : Memory}

theorem Inv.recoverable (inv : Inv x.sessions x.committed) : Recoverable x := by
  constructor
  · exact inv.unlocked
  · intro owner _ lba _
    split
    · rename_i mark
      exact inv.saved lba mark
    · rename_i clear
      exact inv.clean lba clear

theorem release_image (inv : Inv s committed) (peer : Nat) :
    (rntpSessionsRelease s peer).image = if s.locked = some peer then committed else s.image := by
  by_cases below : peer < peerCount
  · rw [release_cases s peer below]
    by_cases owner : s.locked = some peer
    · simp only [owner, if_true]
      exact finish_image inv false
    · simp only [owner, if_false]
  · have outside : peer ≥ peerCount := Nat.not_lt.mp below
    have stranger : s.locked ≠ some peer := by
      intro owner
      have shared := inv.ownerShared peer owner
      rw [inv.absent peer outside] at shared
      contradiction
    rw [rntpSessionsRelease, if_pos outside, if_neg stranger]

theorem refused_not_accepted (s : RntpSessions) (text : Memory) (h : RntpHeader)
    (generation status : Nat) (failed : status ≠ statusOk) (bound : status ≤ statusStale) :
    accepted (answer s text { replyTo h generation with status }).count
      (answer s text { replyTo h generation with status }).reply = false := by
  rw [accepted_answer s text _ (Nat.zero_le _) bound]
  simpa only [decide_eq_false_iff_not] using failed

theorem abort_image (inv : Inv s committed) {peer : Nat} {request reply : Memory} {h : RntpHeader}
    (decoded : rntpDecode request = some h) (abort : h.op = opAbort)
    (granted : accepted (rntpSessionsHandle s peer request reply).count
      (rntpSessionsHandle s peer request reply).reply = true) :
    (rntpSessionsHandle s peer request reply).sessions.image = committed := by
  let restored : Handled → Prop := fun r =>
    accepted r.count r.reply = true → r.sessions.image = committed
  have refused : ∀ status, status ≠ statusOk → status ≤ statusStale →
      restored (answer s reply { replyTo h s.generation with status }) := by
    intro status failed bound granted
    rw [refused_not_accepted s reply h s.generation status failed bound] at granted
    contradiction
  have greeting : ¬(h.op = opHello ∨ h.op = opHelloShared) := by rw [abort]; decide
  refine handle_cases decoded restored ?_ refused ?_ ?_ ?_ ?_ granted
  · intro granted
    simp [accepted] at granted
  · exact fun hello => absurd hello greeting
  · rintro value _ (caps | stat)
    · exact absurd (abort.symm.trans caps) (by decide)
    · exact absurd (abort.symm.trans stat) (by decide)
  · intro _
    apply arbitrate_cases restored refused
    · intro locking
      exact absurd (abort.symm.trans locking) (by decide)
    · intro _ _ _ _
      have unlock : ¬h.op = opUnlock := by rw [abort]; decide
      simp only [answer, unlock, decide_false]
      exact finish_image inv false
  · intro _ _ other _
    exact absurd (Or.inr (Or.inr abort)) other

theorem abort_granted (inv : Inv s committed) {owner : Nat} (held : s.locked = some owner)
    {request reply : Memory}
    {h : RntpHeader} (decoded : rntpDecode request = some h) (abort : h.op = opAbort)
    (plain : WellFormed s h) :
    accepted (rntpSessionsHandle s owner request reply).count
      (rntpSessionsHandle s owner request reply).reply = true := by
  obtain ⟨status, id, length, lba, generation⟩ := plain
  have shared : s.peers owner = .shared := inv.ownerShared owner held
  have known : ¬owner ≥ peerCount := by
    intro beyond
    rw [inv.absent owner beyond] at shared
    cases shared
  have asks : ¬(h.id = 0 ∨ h.status ≠ 0 ∨ h.op &&& response ≠ 0) := by
    rintro (none_ | failed | answer)
    · exact id none_
    · exact failed status
    · rw [abort] at answer
      exact answer (by decide)
  have caps : ¬(h.op = opCaps ∧ h.length = 0 ∧ h.lba = 0) := by
    rintro ⟨same, _⟩
    rw [abort] at same
    exact absurd same (by decide)
  unfold rntpSessionsHandle
  rw [if_neg known, decoded]
  dsimp only
  rw [if_neg asks, if_neg (by rw [abort]; decide), if_neg (by simp [shared]), if_neg (by simp [generation]),
    if_neg caps, if_pos (.inr (.inr abort))]
  unfold arbitrate
  rw [if_neg (by simp [shared, length, lba]), if_neg (by rw [abort]; decide), if_neg (by simp [held])]
  exact accepted_answer _ _ _ (show 8 ≤ batchBytes by decide) (Nat.zero_le _)

theorem Inv.rollsBack (inv : Inv x.sessions x.committed) : RollsBack x := by
  refine ⟨?_, ?_, ?_⟩
  · intro owner held
    rw [release_image inv owner, if_pos held]
  · intro peer request reply h decoded abort granted
    exact abort_image inv decoded abort granted
  · intro owner request reply h held decoded abort plain
    exact abort_granted inv held decoded abort plain

theorem Inv.foreign_image (inv : Inv s committed) {owner peer : Nat} {flag : Bool}
    {s' : RntpSessions} (held : s.locked = some owner) (foreign : peer ≠ owner)
    (effect : Effect s peer flag s') : s'.image = s.image := by
  have stranger : s.locked ≠ some peer := by
    rw [held]
    exact fun same => foreign (Option.some.inj same).symm
  cases effect with
  | nothing => rfl
  | joinShared => rfl
  | joinLegacy => rfl
  | lock => rfl
  | unlock own => exact absurd own stranger
  | abort own => exact absurd own stranger
  | write _ _ own => exact absurd own stranger
  | legacyWrite _ _ _ legacy =>
      have free := inv.legacy_unlocked legacy
      rw [held] at free
      contradiction

/-- The same reply over another image and undo buffer. -/
def onto (image undo : Memory) (result : Handled) : Handled :=
  { result with sessions := { result.sessions with image, undo } }

variable {peer : Nat} {request reply : Memory} {h : RntpHeader} (image undo : Memory)

theorem greet_onto (boot : block sectorBytes image 0 = block sectorBytes s.image 0) :
    greet { s with image, undo } peer h reply = onto image undo (greet s peer h reply) := by
  have same : paste reply headerBytes image 0 sectorBytes =
      paste reply headerBytes s.image 0 sectorBytes := by
    funext x
    simp only [paste]
    refine ite_congr rfl (fun inside => ?_) fun _ => rfl
    have byte := congrFun boot ⟨x - headerBytes, by omega⟩
    simpa [block, window] using byte
  simp only [greet, same, apply_ite (onto image undo)]
  rfl

theorem arbitrate_onto (stranger : s.locked ≠ some peer) :
    arbitrate { s with image, undo } peer h reply = onto image undo (arbitrate s peer h reply) := by
  simp only [arbitrate, stranger, apply_ite (onto image undo), ne_eq, not_false_eq_true, if_true]
  rfl

theorem directService_onto (decoded : rntpDecode request = some h) (hello : h.op ≠ opHello)
    (noBlock : ¬((h.op = opWrite ∨ h.op = opWriteBatch) ∨ h.op = opRead ∨ h.op = opReadBatch))
    (stat : h.op = opStat → h.length ≠ 0 ∨ h.lba ≠ 0) :
    directService { s with image, undo } false request reply =
      onto image undo (directService s false request reply) := by
  have answer := outcome_quiet s.image s.sectors s.generation true request reply h image hello
    noBlock stat
  simp only [directService, delegate, rntpHandle, decoded, answer, Bool.false_and,
    Bool.false_eq_true, if_false]
  rfl

theorem handle_onto (stranger : s.locked ≠ some peer) (modern : s.peers peer ≠ .legacy)
    (boot : block sectorBytes image 0 = block sectorBytes s.image 0) :
    rntpSessionsHandle { s with image, undo } peer request reply =
      onto image undo (rntpSessionsHandle s peer request reply) := by
  unfold rntpSessionsHandle
  rw [apply_ite (onto image undo)]
  refine ite_congr rfl (fun _ => rfl) fun _ => ?_
  cases decoded : rntpDecode request with
  | none => rfl
  | some h =>
      simp only [apply_ite (onto image undo)]
      refine ite_congr rfl (fun _ => rfl) fun _ => ?_
      refine ite_congr rfl (fun _ => greet_onto image undo boot) fun greeting => ?_
      refine ite_congr rfl (fun _ => rfl) fun present => ?_
      refine ite_congr rfl (fun _ => rfl) fun _ => ?_
      refine ite_congr rfl (fun _ => rfl) fun _ => ?_
      refine ite_congr rfl (fun _ => arbitrate_onto image undo stranger) fun _ => ?_
      refine ite_congr rfl (fun _ => rfl) fun usage => ?_
      have shared : s.peers peer = .shared := by
        cases mode : s.peers peer with
        | absent => exact absurd mode present
        | legacy => exact absurd mode modern
        | shared => rfl
      simp only [serveBlocks, apply_ite (onto image undo), shared, stranger, ne_eq,
        not_false_eq_true, and_true]
      refine ite_congr rfl (fun _ => rfl) fun noBlock => ?_
      have noWrite : ¬(h.op = opWrite ∨ h.op = opWriteBatch) := fun write => noBlock (Or.inl write)
      rw [if_neg noWrite, if_neg noWrite]
      simp only [noWrite, decide_false]
      exact directService_onto image undo decoded (fun hello => greeting (Or.inl hello)) noBlock
        (by tauto)

theorem Inv.isolated (inv : Inv s committed) : Isolated s := by
  intro owner held
  refine ⟨inv.ownerShared owner held, fun peer foreign request reply => ?_⟩
  have stranger : s.locked ≠ some peer := by
    rw [held]
    exact fun same => foreign (Option.some.inj same).symm
  have modern : s.peers peer ≠ .legacy := by
    intro legacy
    have free := inv.legacy_unlocked legacy
    rw [held] at free
    contradiction
  refine ⟨inv.foreign_image held foreign (handle_effect s peer request reply), ?_⟩
  intro image undo boot
  rw [handle_onto image undo stranger modern boot]
  exact ⟨rfl, rfl⟩

theorem Inv.boot_clean (inv : Inv s committed) :
    block sectorBytes committed 0 = block sectorBytes s.image 0 :=
  (inv.clean 0 fun mark => (inv.markedRange 0 mark).1 rfl).symm

theorem Inv.boot_effect (inv : Inv s committed) (modern : s.legacy = none) {flag : Bool}
    {s' : RntpSessions} (effect : Effect s peer flag s') :
    block sectorBytes s'.image 0 = block sectorBytes s.image 0 := by
  cases effect with
  | nothing => rfl
  | joinShared => rfl
  | joinLegacy => rfl
  | lock => rfl
  | unlock =>
      have image := finish_image inv true
      rw [image]
      rfl
  | abort =>
      have image := finish_image inv false
      rw [image]
      exact inv.boot_clean
  | write lbas image _ range untouched => exact untouched 0 fun member => (range 0 member).1 rfl
  | legacyWrite _ _ _ legacy =>
      have mode := (inv.legacyMode peer).mp legacy
      rw [modern] at mode
      contradiction

theorem Inv.bootKept (inv : Inv x.sessions x.committed) : BootKept x := by
  intro modern call
  cases call with
  | handle peer request reply => exact inv.boot_effect modern (handle_effect _ peer request reply)
  | release peer =>
      simp only [RntpTransactions.step]
      rw [release_image inv peer]
      split
      · exact inv.boot_clean
      · rfl

theorem shared_export_is_transactional (image undo : Memory) (sectors generation : Nat)
    (start : RntpSessions)
    (opened : rntpSessionsInit image undo sectors generation = some start) (calls : List Call) :
    let x := run ⟨start, image⟩ calls
    Recoverable x ∧ RollsBack x ∧ Isolated x.sessions ∧ BootKept x ∧ Separate x.sessions := by
  intro x
  have inv : Inv x.sessions x.committed := Inv.run (x := ⟨start, image⟩) (Inv.init opened) calls
  exact ⟨inv.recoverable, inv.rollsBack, inv.isolated, inv.bootKept, inv.separate⟩

/-- A ten-sector FAT12 export: one FAT sector, one root sector, seven clusters. -/
def smallImage : Memory := fun x =>
  if x = 12 then 2 else if x = 13 then 1 else if x = 14 then 1 else if x = 16 then 1
  else if x = 17 then 16 else if x = 19 then 10 else if x = 22 then 1
  else if x = 510 then 0x55 else if x = 511 then 0xaa else 0

def frame (op : UInt8) (length lba generation : Nat) : Memory :=
  rntpEncode (fun _ => 7) { op, status := 0, length, id := 1, lba, generation }

/-- Two peers join; the first takes the lock and writes sector 4, the second asks for the lock. -/
def contention : List Call :=
  [.handle 1 (frame opHelloShared 0 0 0) (fun _ => 0), .handle 2 (frame opHelloShared 0 0 0) (fun _ => 0),
   .handle 1 (frame opLock 0 0 5) (fun _ => 0), .handle 1 (frame opWrite 512 4 5) (fun _ => 0),
   .handle 2 (frame opLock 0 0 5) (fun _ => 0)]

/-- The first aborts, and the second writes sector 5 under the lock. -/
def settled : List Call := contention ++
  [.handle 1 (frame opAbort 0 0 5) (fun _ => 0), .handle 2 (frame opLock 0 0 5) (fun _ => 0),
   .handle 2 (frame opWrite 512 5 5) (fun _ => 0), .handle 2 (frame opUnlock 0 0 5) (fun _ => 0)]

theorem small_image_opens : (rntpSessionsInit smallImage (fun _ => 0) 10 5).isSome = true := by
  decide

theorem contention_is_transactional :
    ∃ start, rntpSessionsInit smallImage (fun _ => 0) 10 5 = some start ∧
      (run ⟨start, smallImage⟩ contention).sessions.locked = some 1 ∧
      marked (run ⟨start, smallImage⟩ contention).sessions.dirty 4 ∧
      Recoverable (run ⟨start, smallImage⟩ contention) ∧
      RollsBack (run ⟨start, smallImage⟩ contention) ∧
      (run ⟨start, smallImage⟩ settled).sessions.locked = none ∧
      (run ⟨start, smallImage⟩ settled).committed (4 * 512) = 0 ∧
      (run ⟨start, smallImage⟩ settled).committed (5 * 512) = 7 ∧
      (run ⟨start, smallImage⟩ settled).sessions.image = (run ⟨start, smallImage⟩ settled).committed := by
  have opened := (Option.some_get small_image_opens).symm
  have holds := shared_export_is_transactional smallImage (fun _ => 0) 10 5 _ opened contention
  have after := shared_export_is_transactional smallImage (fun _ => 0) 10 5 _ opened settled
  have free : (run ⟨(rntpSessionsInit smallImage (fun _ => 0) 10 5).get small_image_opens, smallImage⟩
      settled).sessions.locked = none := by decide
  exact ⟨_, opened, by decide, by decide, holds.1, holds.2.1, free, by decide, by decide, after.1.1 free⟩

end Guarantees
end R2Apps.RntpTransactions
