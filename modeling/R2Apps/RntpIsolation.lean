import R2Apps.RntpServing
import R2Apps.TcpReceiveBounds

/-! Session isolation of the serve loop. A slot whose buffer is not installed is blank, and a segment
that claims a slot takes its buffer away, so a fresh connection finds nothing of the one before it. The
SYN-ACK that is repeated is the exception: it keeps the socket with all that has been read from it. -/
namespace R2Apps.RntpIsolation
open SlotTables RntpExport TcpSockets TcpHistory TcpSending TcpReceiveBounds RntpServing
open RntpTransactions hiding run step
open TntServer (pool beginsIn repeatsIn)

/-! ## Sockets -/

/-- A socket in use knows its slot. -/
def Named (net : Net) : Prop := ∀ a, (net.sockets a).used = true → (net.sockets a).id = a

/-- The table stays, and so does which sockets are in use. -/
structure Steady (net net' : Net) : Prop where
  storage : net'.storage = net.storage
  used : ∀ a, (net'.sockets a).used = (net.sockets a).used
  id : ∀ a, (net'.sockets a).id = (net.sockets a).id

section Nets
variable {net net' : Net} {a c : Nat}

theorem Steady.refl (net : Net) : Steady net net := ⟨rfl, fun _ => rfl, fun _ => rfl⟩

theorem Steady.trans {net'' : Net} (first : Steady net net') (second : Steady net' net'') :
    Steady net net'' :=
  ⟨second.storage.trans first.storage, fun a => (second.used a).trans (first.used a),
    fun a => (second.id a).trans (first.id a)⟩

theorem Steady.named (steady : Steady net net') (named : Named net) : Named net' := by
  intro b used
  rw [steady.used] at used
  rw [steady.id]
  exact named b used

theorem Steady.edit {s : Socket} (used : s.used = (net'.sockets a).used) (id : s.id = (net'.sockets a).id)
    (steady : Steady net net') : Steady net (net'.set a s) := by
  refine steady.trans ⟨rfl, fun b => ?_, fun b => ?_⟩
  all_goals
    by_cases hit : b = a
    · subst hit
      rw [set_same]
      assumption
    · rw [set_other _ _ hit]

theorem Steady.sent {kernel : Nat → Bool} {len : Nat} {flags : UInt8} (steady : Steady net net') :
    Steady net (sendTcpPacket kernel net' a len flags) := by
  refine steady.trans ⟨send_storage kernel net' a len flags, fun b => ?_, fun b => ?_⟩
  all_goals
    by_cases hit : b = a
    · subst hit
      rw [send_self]
    · rw [send_other kernel net' len flags hit]

theorem Steady.written {kernel : Nat → Bool} {len : Nat} (steady : Steady net net') :
    Steady net (tcpWrite kernel net' a len).1 := by
  simp only [tcpWrite]
  split
  · exact steady.sent
  · exact Steady.edit rfl rfl steady.sent

theorem Steady.noted {e : TcpSockets.Event} (steady : Steady net net') : Steady net (net'.note a e) :=
  steady.trans ⟨rfl, fun _ => rfl, fun _ => rfl⟩

theorem named_set {s : Socket} (named : Named net) (here : s.used = true → s.id = a) :
    Named (net.set a s) := by
  intro b used
  by_cases hit : b = a
  · subst hit
    rw [set_same] at used ⊢
    exact here used
  · rw [set_other _ _ hit] at used ⊢
    exact named b used

theorem named_rebound (named : Named net) (buffer : Option Nat) :
    Named (tcpSetReceiveBuffer net a buffer).1 := by
  simp only [Named, (buffer_sockets net a buffer).1]
  exact named

theorem named_free (named : Named net) : Named (freeSocket net a) :=
  named_rebound (named_set named (by rintro ⟨⟩)) none

theorem named_claim (named : Named net) : Named (socketClaim net a a) := by
  have claimed := named_rebound (a := a)
    (named_set (s := { net.sockets a with used := true, id := a, rx := [] }) named fun _ => rfl) none
  refine named_set claimed fun used => ?_
  exact claimed a used

theorem slot_address {p : Nat → Bool} {i : Nat} (found : firstSlot pool p = some (i, a)) : i = a := by
  obtain ⟨j, -, there⟩ := Option.bind_eq_some_iff.mp found
  obtain ⟨b, is, same⟩ := Option.map_eq_some_iff.mp there
  obtain ⟨inside, rfl⟩ := List.getElem?_eq_some_iff.mp is
  cases same
  exact (List.getElem_range inside).symm

theorem named_alloc (named : Named net) (got : allocSocket net pool = some (net', c)) : Named net' := by
  simp only [allocSocket] at got
  split at got
  · next i b found =>
    cases got
    obtain rfl := slot_address found
    exact named_claim named
  · split at got
    · next i b found =>
      cases got
      obtain rfl := slot_address found
      refine named_claim (named_set named fun used => ?_)
      exact named _ used
    · cases got

theorem named_openPassive (kernel : Nat → Bool) (t : Segment) (named : Named net) :
    Named (openPassive kernel net pool t) := by
  simp only [openPassive]
  cases got : allocSocket net pool with
  | none => exact named
  | some result =>
      obtain ⟨net', c⟩ := result
      have claimed := named_alloc named got
      refine Steady.named ?_ claimed
      refine Steady.edit rfl rfl ?_
      apply Steady.sent
      apply Steady.noted
      exact Steady.edit rfl rfl (Steady.refl net')

theorem steady_repeat (kernel : Nat → Bool) (t : Segment) : Steady net (repeatSynAck kernel net a t) := by
  simp only [repeatSynAck]
  refine Steady.edit rfl rfl ?_
  apply Steady.sent
  apply Steady.noted
  exact Steady.edit rfl rfl (Steady.refl net)

theorem named_listenSyn (kernel : Nat → Bool) (l : Nat) (t : Segment) (named : Named net) :
    Named (onListenSyn kernel net pool l t) := by
  simp only [onListenSyn]
  cases findConn net pool t l with
  | none => exact named_openPassive kernel t named
  | some d =>
      dsimp only
      split
      · exact (steady_repeat kernel t).named named
      · exact named_openPassive kernel t (named_free named)

theorem named_opened (kernel : Nat → Bool) (t : Segment) (named : Named net) :
    Named (onOpened kernel net a t) := by
  simp only [onOpened]
  split
  · exact named_free named
  · have noted : Steady net (noteAck net a t) := by
      have heard : Steady net (net.note a (.heard (t.has flagAck) t.ackNum)) := Steady.noted (Steady.refl net)
      simp only [noteAck]
      split <;> exact Steady.edit rfl rfl heard
    have taken : Steady net (takeData kernel (noteAck net a t) a t) := by
      simp only [takeData]
      split
      · exact noted
      · apply Steady.sent
        split
        · apply Steady.noted
          exact Steady.edit rfl rfl noted
        · exact noted
    generalize takeData kernel (noteAck net a t) a t = before at taken
    simp only [takeFin]
    split
    · have answered : Steady net (sendTcpPacket kernel
          ((before.set a { before.sockets a with ackNum := t.seqNum + t.dataLen + 1 }).note a
            (.finished (t.seqNum + t.dataLen))) a 0 flagAck) := by
        apply Steady.sent
        apply Steady.noted
        exact Steady.edit rfl rfl taken
      split
      · exact named_free (answered.named named)
      · refine Steady.named ?_ named
        exact Steady.edit rfl rfl answered
    · exact taken.named named

theorem named_packet (kernel : Nat → Bool) (t : Segment) (named : Named net) :
    Named (onTcpPacket kernel net pool t) := by
  simp only [onTcpPacket]
  cases route net pool t with
  | none => exact named
  | some found =>
      obtain ⟨b, branch⟩ := found
      cases branch with
      | listenSyn => exact named_listenSyn kernel b t named
      | synSentReset => exact named_free named
      | challenge =>
          refine Steady.named ?_ named
          simp only [onChallenge]
          refine Steady.edit rfl rfl ?_
          apply Steady.sent
          refine Steady.edit rfl rfl ?_
          apply Steady.sent
          exact Steady.edit rfl rfl (Steady.refl net)
      | synAck =>
          refine Steady.named ?_ named
          simp only [onSynAck]
          apply Steady.sent
          apply Steady.noted
          apply Steady.noted
          exact Steady.edit rfl rfl (Steady.refl net)
      | finWait =>
          simp only [onFinWait]
          split
          · exact named_free named
          · have heard : Steady net (net.note b (.heard (t.has flagAck) t.ackNum)) :=
              Steady.noted (Steady.refl net)
            have marked : Steady net ((net.note b (.heard (t.has flagAck) t.ackNum)).set b
                { net.sockets b with lastActivity := net.now }) := Steady.edit rfl rfl heard
            split
            · apply named_free
              refine Steady.named ?_ named
              apply Steady.sent
              apply Steady.noted
              exact Steady.edit rfl rfl marked
            · exact marked.named named
      | opened => exact named_opened kernel t named

/-! ## Receive buffers -/

/-- The socket receives into a buffer of the application. -/
def Owned (net : Net) (a : Nat) : Prop := (ownSlot net.storage a).isSome = true

theorem owned_iff : Owned net a ↔ ∃ i capacity, Holds net.storage i a capacity := by
  rw [Owned, ownSlot_eq]
  constructor
  · intro some_
    obtain ⟨i, found⟩ := Option.isSome_iff_exists.mp some_
    obtain ⟨capacity, held⟩ := findIdx_holds found
    exact ⟨i, capacity, held⟩
  · rintro ⟨i, capacity, held⟩
    by_contra missing
    exact findIdx_absent (Option.not_isSome_iff_eq_none.mp missing) i capacity held

theorem once_move {kernel : Nat → Bool} (once : Once net.storage) (move : Move kernel net net') :
    Once net'.storage := by
  cases move with
  | rebound a buffer =>
      cases buffer with
      | none =>
          simp only [tcpSetReceiveBuffer]
          split
          · exact once
          · cases ownSlot net.storage a with
            | none => exact once
            | some i => exact once_clear once i
      | some capacity =>
          simp only [tcpSetReceiveBuffer]
          split
          · exact once
          · cases picked : storageSlot net.storage a with
            | none => exact once
            | some i => exact once_put once (storageSlot_cases once picked).1
  | sent a len flags =>
      rw [send_storage]
      exact once
  | _ => exact once

theorem once_moves {kernel : Nat → Bool} (once : Once net.storage) (moves : Moves kernel net net') :
    Once net'.storage := by
  induction moves with
  | refl => exact once
  | tail _ move ih => exact once_move ih move

theorem owned_other {b : Nat} (once : Once net.storage) (apart : b ≠ a) (buffer : Option Nat)
    (owned : Owned net b) :
    Owned (tcpSetReceiveBuffer net a buffer).1 b := by
  rw [owned_iff] at owned ⊢
  obtain ⟨j, capacity, held⟩ := owned
  cases buffer with
  | none =>
      simp only [tcpSetReceiveBuffer]
      split
      · exact ⟨j, capacity, held⟩
      · cases own : ownSlot net.storage a with
        | none => exact ⟨j, capacity, held⟩
        | some i =>
            obtain ⟨mine, there⟩ := findIdx_holds (ownSlot_eq net.storage a ▸ own)
            have elsewhere : j ≠ i := by
              rintro rfl
              have same := held.symm.trans there
              simp only [Option.some.injEq, Prod.mk.injEq] at same
              exact apart same.1
            exact ⟨j, capacity, (holds_set_ne elsewhere).mpr held⟩
  | some size =>
      simp only [tcpSetReceiveBuffer]
      split
      · exact ⟨j, capacity, held⟩
      · cases picked : storageSlot net.storage a with
        | none => exact ⟨j, capacity, held⟩
        | some i =>
            have elsewhere : j ≠ i := by
              rintro rfl
              exact apart ((storageSlot_cases once picked).2.2 b capacity held)
            exact ⟨j, capacity, (holds_set_ne elsewhere).mpr held⟩

theorem owned_installed {size : Nat} (once : Once net.storage)
    (done : tcpSetReceiveBuffer net a (some size) = (net', true)) : Owned net' a := by
  simp only [tcpSetReceiveBuffer] at done
  split at done
  · cases done
  · cases picked : storageSlot net.storage a with
    | none =>
        rw [picked] at done
        cases done
    | some i =>
        rw [picked] at done
        cases done
        exact owned_iff.mpr ⟨i, size, holds_put (storageSlot_cases once picked).2.1⟩

theorem bare_cleared (once : Once net.storage) (empty : (net.sockets a).rx = []) :
    ¬ Owned (tcpSetReceiveBuffer net a none).1 a := by
  have few : ¬ (net.sockets a).rx.length > rxBufferSize := by
    rw [empty]
    exact Nat.not_lt_zero _
  rw [owned_iff]
  simp only [tcpSetReceiveBuffer, if_neg few]
  rintro ⟨j, capacity, held⟩
  cases own : ownSlot net.storage a with
  | none =>
      rw [own] at held
      exact findIdx_absent (ownSlot_eq net.storage a ▸ own) j capacity held
  | some i =>
      rw [own] at held
      obtain ⟨mine, there⟩ := findIdx_holds (ownSlot_eq net.storage a ▸ own)
      exact cleared_absent once there j capacity held

theorem bare_claim (once : Once net.storage) (i : Nat) : ¬ Owned (socketClaim net a i) a := by
  have taken : Once (net.set a { net.sockets a with used := true, id := i, rx := [] }).storage := once
  exact bare_cleared taken (by rw [set_same])

theorem bare_alloc (once : Once net.storage) (got : allocSocket net pool = some (net', c)) :
    ¬ Owned net' c := by
  simp only [allocSocket] at got
  split at got
  · next i b found =>
    obtain ⟨rfl, rfl⟩ := Prod.mk.inj (Option.some.inj got)
    exact bare_claim once i
  · split at got
    · next i b found =>
      obtain ⟨rfl, rfl⟩ := Prod.mk.inj (Option.some.inj got)
      have closed : Once (net.set b { net.sockets b with state := .closed }).storage := once
      exact bare_claim closed i
    · cases got

theorem taken_alloc (taken : slotTaken net pool = some c) :
    ∃ net', allocSocket net pool = some (net', c) := by
  simp only [slotTaken] at taken
  simp only [allocSocket]
  cases found : firstSlot pool fun a => !(net.sockets a).used with
  | some e =>
      rw [found] at taken
      cases taken
      exact ⟨_, rfl⟩
  | none =>
      rw [found] at taken
      obtain ⟨⟨i, b⟩, old, rfl⟩ := Option.map_eq_some_iff.mp taken
      dsimp only
      rw [old]
      exact ⟨_, rfl⟩

theorem bare_openPassive (kernel : Nat → Bool) (t : Segment) (once : Once net.storage)
    (taken : slotTaken net pool = some c) : ¬ Owned (openPassive kernel net pool t) c := by
  obtain ⟨net', got⟩ := taken_alloc taken
  have bare := bare_alloc once got
  simp only [openPassive, got]
  simpa only [Owned, send_storage, Net.set, Net.note] using bare

theorem begun_bare (kernel : Nat → Bool) (t : Segment) (once : Once net.storage)
    (begins : beginsIn net t = some c) :
    ¬ Owned (onTcpPacket kernel net pool t) c := by
  simp only [beginsIn] at begins
  split at begins
  · next l routed =>
    simp only [onTcpPacket, routed, onListenSyn]
    cases found : findConn net pool t l with
    | some d =>
        rw [found] at begins
        dsimp only at begins ⊢
        by_cases fresh : untouched (net.sockets d) = true
        · rw [if_pos fresh] at begins
          cases begins
        · rw [if_neg fresh] at begins ⊢
          have moves : Moves kernel net (freeSocket net d) := moves_free Relation.ReflTransGen.refl
          exact bare_openPassive kernel t (once_moves once moves) begins
    | none =>
        rw [found] at begins
        exact bare_openPassive kernel t once begins
  · cases begins

theorem repeats_packet (kernel : Nat → Bool) {t : Segment} {d : Nat} (repeats : repeatsIn net t = some d) :
    onTcpPacket kernel net pool t = repeatSynAck kernel net d t ∧ beginsIn net t = none ∧
      (net.sockets d).used = true := by
  simp only [repeatsIn] at repeats
  split at repeats
  · next l routed =>
    obtain ⟨found, still⟩ := Option.filter_eq_some_iff.mp repeats
    refine ⟨?_, ?_, ?_⟩
    · simp only [onTcpPacket, routed, onListenSyn, found, still, if_true]
    · simp only [beginsIn, routed, found, still, if_true]
    · have owner := List.find?_some found
      simp only [Bool.and_eq_true] at owner
      exact owner.1.1.1.1.1
  · cases repeats

end Nets

/-! ## The export -/

section Sessions
variable {s s' : RntpSessions} {i peer : Nat}

theorem effect_absent {flag : Bool} (effect : Effect s peer flag s') (apart : i ≠ peer)
    (absent : Absent s i) :
    Absent s' i := by
  obtain ⟨mode, legacy, locked, committed⟩ := absent
  have elsewhere (m : Mode) : setPeer s.peers peer m i = .absent := by
    rw [setPeer, if_neg apart]
    exact mode
  cases effect with
  | nothing => exact ⟨mode, legacy, locked, committed⟩
  | joinShared _ _ => exact ⟨elsewhere _, legacy, locked, committed⟩
  | joinLegacy _ _ => exact ⟨elsewhere _, by simpa using apart.symm, locked, committed⟩
  | lock _ _ => exact ⟨mode, legacy, by simpa using apart.symm, fun _ => by simp⟩
  | unlock owner | abort owner =>
      refine ⟨?_, ?_, ?_, ?_⟩
      · rw [(finish_rest s _).1]
        exact mode
      · rw [(finish_rest s _).2.1]
        exact legacy
      · rw [(finish_rest s _).2.2.2.2.1]
        simp
      · exact fun uncommitted => absurd uncommitted (by simp [finish])
  | write lbas image owner _ _ =>
      rw [remember_all_rest s lbas]
      exact ⟨mode, legacy, locked, fun _ => by simp [owner]⟩
  | legacyWrite image revision free _ => exact ⟨mode, legacy, locked, committed⟩

theorem release_absent (below : i < peerCount) (committed : s.modified = true → s.locked ≠ none) :
    Absent (rntpSessionsRelease s i) i := by
  rw [release_cases s i below]
  by_cases owner : s.locked = some i
  · rw [if_pos owner]
    refine ⟨by simp [setPeer], ?_, ?_, ?_⟩
    · dsimp only
      split <;> simp_all
    · rw [(finish_rest s false).2.2.2.2.1]
      simp
    · exact fun uncommitted => absurd uncommitted (by simp [finish])
  · rw [if_neg owner]
    refine ⟨by simp [setPeer], ?_, owner, committed⟩
    dsimp only
    split <;> simp_all

theorem release_absent_other (apart : i ≠ peer) (absent : Absent s i) :
    Absent (rntpSessionsRelease s peer) i := by
  obtain ⟨mode, legacy, locked, committed⟩ := absent
  by_cases below : peer < peerCount
  · rw [release_cases s peer below]
    by_cases owner : s.locked = some peer
    · rw [if_pos owner]
      refine ⟨?_, ?_, ?_, ?_⟩
      · simp only [setPeer, if_neg apart, (finish_rest s false).1]
        exact mode
      · simp only [(finish_rest s false).2.1]
        split <;> simp_all
      · rw [(finish_rest s false).2.2.2.2.1]
        simp
      · exact fun uncommitted => absurd uncommitted (by simp [finish])
    · rw [if_neg owner]
      refine ⟨?_, ?_, locked, committed⟩
      · simp only [setPeer, if_neg apart]
        exact mode
      · dsimp only
        split <;> simp_all
  · rw [rntpSessionsRelease, if_pos (Nat.not_lt.mp below)]
    exact ⟨mode, legacy, locked, committed⟩

end Sessions

/-! ## The serve loop -/

theorem stream_same (s : Server) (i : Nat) (st : Stream) : (s.setStream i st).streams i = st :=
  Function.update_self _ _ _

theorem stream_other (s : Server) {i j : Nat} (st : Stream) (apart : j ≠ i) :
    (s.setStream i st).streams j = s.streams j := Function.update_of_ne apart _ _

/-- What holds before and after each visit; `log` is what has been noted of the connections. -/
structure Kept (log : List (Nat × Bool)) (s : Server) : Prop where
  once : Once s.net.storage
  named : Named s.net
  listener : (s.streams 0).receiveInstalled = false
  /-- A slot without a buffer has nothing left of another connection. -/
  blank : ∀ i, (s.streams i).receiveInstalled = false → Blank s i
  inside : ∀ i, (s.streams i).receiveInstalled = true → i < maxSockets
  held : ∀ i, (s.streams i).receiveInstalled = true → (s.net.sockets i).used = true ∧ Owned s.net i
  started : s.started = log

section Visits
variable (kernel : Nat → Bool) {log : List (Nat × Bool)} {s : Server} {i : Nat}

theorem Kept.committed (kept : Kept log s) :
    s.exported.sessions.modified = true → s.exported.sessions.locked ≠ none :=
  (kept.blank 0 kept.listener).1.2.2.2

theorem kept_net {net : Net} (kept : Kept log s) (steady : Steady s.net net) :
    Kept log { s with net := net } where
  once := by
    rw [steady.storage]
    exact kept.once
  named := steady.named kept.named
  listener := kept.listener
  blank := kept.blank
  inside := kept.inside
  held j installed := by
    obtain ⟨used, owned⟩ := kept.held j installed
    refine ⟨(steady.used j).trans used, ?_⟩
    rw [Owned, steady.storage]
    exact owned
  started := kept.started

theorem kept_stream (kept : Kept log s) (st : Stream) (installed : st.receiveInstalled = true)
    (elsewhere : i ≠ 0) (below : i < maxSockets) (used : (s.net.sockets i).used = true)
    (owned : Owned s.net i) :
    Kept log (s.setStream i st) where
  once := kept.once
  named := kept.named
  listener := by
    rw [stream_other s st elsewhere.symm]
    exact kept.listener
  blank j bare := by
    by_cases hit : j = i
    · subst hit
      rw [stream_same, installed] at bare
      cases bare
    · rw [stream_other s st hit] at bare
      rw [Blank, stream_other s st hit]
      exact kept.blank j bare
  inside j set := by
    by_cases hit : j = i
    · exact hit ▸ below
    · rw [stream_other s st hit] at set
      exact kept.inside j set
  held j set := by
    by_cases hit : j = i
    · subst hit
      exact ⟨used, owned⟩
    · rw [stream_other s st hit] at set
      exact kept.held j set
  started := kept.started

theorem listener_apart (kept : Kept log s) (installed : (s.streams i).receiveInstalled = true) : i ≠ 0 := by
  rintro rfl
  rw [kept.listener] at installed
  cases installed

theorem kept_again (kept : Kept log s) (st : Stream) (installed : (s.streams i).receiveInstalled = true)
    (still : st.receiveInstalled = (s.streams i).receiveInstalled) : Kept log (s.setStream i st) := by
  obtain ⟨used, owned⟩ := kept.held i installed
  exact kept_stream kept st (still.trans installed) (listener_apart kept installed)
    (kept.inside i installed) used owned

theorem release_kept {net : Net} (kept : Kept log s) (below : i < maxSockets)
    (once : Once net.storage) (named : Named net)
    (others : ∀ j, j ≠ i → Owned s.net j → (net.sockets j).used = (s.net.sockets j).used ∧ Owned net j) :
    Kept log (({ s.release i with net := net }).setStream i {}) where
  once := once
  named := named
  listener := by
    by_cases hit : i = 0
    · subst hit
      rw [stream_same]
    · rw [stream_other _ _ (Ne.symm hit)]
      exact kept.listener
  blank j bare := by
    by_cases hit : j = i
    · subst hit
      refine ⟨release_absent below kept.committed, ?_, ?_⟩
      all_goals rw [stream_same]
    · rw [stream_other _ _ hit] at bare
      rw [Blank, stream_other _ _ hit]
      obtain ⟨absent, rest⟩ := kept.blank j bare
      exact ⟨release_absent_other hit absent, rest⟩
  inside j installed := by
    by_cases hit : j = i
    · exact hit ▸ below
    · rw [stream_other _ _ hit] at installed
      exact kept.inside j installed
  held j installed := by
    by_cases hit : j = i
    · subst hit
      rw [stream_same] at installed
      cases installed
    · rw [stream_other _ _ hit] at installed
      obtain ⟨used, owned⟩ := kept.held j installed
      obtain ⟨same, still⟩ := others j hit owned
      exact ⟨same.trans used, still⟩
  started := kept.started

/-- After a step of a visit the slot has its buffer, or its socket is gone. -/
structure Visited (log : List (Nat × Bool)) (s : Server) (i : Nat) : Prop where
  kept : Kept log s
  still : (s.net.sockets i).used = true → (s.streams i).receiveInstalled = true

theorem reset_visited (kept : Kept log s) (below : i < maxSockets) (used : (s.net.sockets i).used = true) :
    Visited log (reset kernel s i) i := by
  have id := kept.named i used
  have before : Steady s.net
      (if (s.net.sockets i).used && (s.net.sockets i).state == .established then
        sendTcpPacket kernel s.net i 0 (flagRst ||| flagAck) else s.net) := by
    split
    · exact Steady.sent (Steady.refl _)
    · exact Steady.refl _
  simp only [reset, id]
  generalize (if (s.net.sockets i).used && (s.net.sockets i).state == .established then
        sendTcpPacket kernel s.net i 0 (flagRst ||| flagAck) else s.net) = net at before
  have once : Once net.storage := by
    rw [before.storage]
    exact kept.once
  have moves : Moves kernel net (freeSocket net i) := moves_free Relation.ReflTransGen.refl
  have freed : Once (freeSocket net i).storage := once_moves once moves
  constructor
  · refine release_kept kept below freed (named_free (before.named kept.named)) fun j apart owned => ⟨?_, ?_⟩
    · rw [free_other net apart]
      exact before.used j
    · rw [Owned, ← before.storage] at owned
      have cleared : Once
        (net.set i { net.sockets i with used := false, state := .closed, rx := [] }).storage := once
      exact owned_other cleared apart none owned
  · intro alive
    have gone : ((freeSocket net i).sockets i).used = false := by rw [free_self]
    rw [show ((({ s.release i with net := freeSocket net i } : Server).setStream i {}).net.sockets i).used =
      ((freeSocket net i).sockets i).used from rfl, gone] at alive
    cases alive

theorem acknowledge_installed (sock : Socket) (st : Stream) (now : UInt64) :
    (acknowledge sock st now).receiveInstalled = st.receiveInstalled := by
  simp only [acknowledge]
  split <;> rfl

theorem replayFrom_steady (mss flight : UInt32) (fuel : Nat) : ∀ (net : Net) (pos : UInt32),
    Steady net (replayFrom kernel mss i flight fuel net pos) := by
  induction fuel with
  | zero => exact fun net _ => Steady.refl net
  | succ fuel ih =>
      intro net pos
      simp only [replayFrom]
      split
      · exact (Steady.sent (Steady.refl net)).trans (ih _ _)
      · exact Steady.refl net

theorem replay_steady (t : Ticks) (net : Net) (st : Stream) :
    Steady net (replay kernel t i net st).1 ∧
      (replay kernel t i net st).2.receiveInstalled = st.receiveInstalled := by
  simp only [replay]
  split
  · refine ⟨?_, rfl⟩
    refine Steady.edit rfl rfl (Steady.trans ?_ (replayFrom_steady kernel _ _ _ _ _))
    exact Steady.edit rfl rfl (Steady.refl net)
  · exact ⟨Steady.refl net, rfl⟩

theorem bursts_steady (t : Ticks) (burst : Nat) : ∀ (net : Net) (st : Stream),
    Steady net (bursts kernel t i burst net st).1 ∧
      (bursts kernel t i burst net st).2.receiveInstalled = st.receiveInstalled := by
  induction burst with
  | zero => exact fun net _ => ⟨Steady.refl net, rfl⟩
  | succ burst ih =>
      intro net st
      simp only [bursts]
      have first : (if st.flight = 0 then
          { st with flightSeq := (net.sockets i).seqNum, sentAt := t.now } else st).receiveInstalled =
            st.receiveInstalled := by
        split <;> rfl
      split
      · split
        · exact ⟨Steady.written (Steady.refl net), first⟩
        · obtain ⟨steady, same⟩ := ih (tcpWrite kernel net i _).1 _
          exact ⟨(Steady.written (Steady.refl net)).trans steady, same.trans first⟩
      · exact ⟨Steady.refl net, rfl⟩

theorem probe_steady (t : Ticks) (net : Net) (st : Stream) :
    Steady net (probe kernel t i net st).1 ∧
      (probe kernel t i net st).2.receiveInstalled = st.receiveInstalled := by
  simp only [probe]
  split
  · exact ⟨Steady.sent (Steady.refl net), rfl⟩
  · exact ⟨Steady.refl net, rfl⟩

theorem visited_again {net : Net} (kept : Kept log s) (installed : (s.streams i).receiveInstalled = true)
    (steady : Steady s.net net) (st : Stream) (still : st.receiveInstalled = (s.streams i).receiveInstalled) :
    Visited log (({ s with net := net } : Server).setStream i st) i := by
  refine ⟨kept_again (kept_net kept steady) st installed still, fun _ => ?_⟩
  rw [stream_same, still]
  exact installed

theorem transmit_visited (kept : Kept log s) (below : i < maxSockets)
    (installed : (s.streams i).receiveInstalled = true) (t : Ticks) :
    Visited log (transmit kernel t s i) i := by
  have acked := acknowledge_installed (s.net.sockets i) (s.streams i) t.now
  simp only [transmit]
  generalize acknowledge (s.net.sockets i) (s.streams i) t.now = st at acked
  obtain ⟨steady, same⟩ := replay_steady kernel (i := i) t s.net st
  generalize replay kernel t i s.net st = replayed at steady same
  obtain ⟨steady', same'⟩ := bursts_steady kernel (i := i) t 8 replayed.1 replayed.2
  generalize bursts kernel t i 8 replayed.1 replayed.2 = burst at steady' same'
  obtain ⟨steady'', same''⟩ := probe_steady kernel (i := i) t burst.1 burst.2
  generalize probe kernel t i burst.1 burst.2 = probed at steady'' same''
  have all := (steady.trans steady').trans steady''
  have still := same''.trans (same'.trans (same.trans acked))
  split
  · have done := visited_again kept installed all { probed.2 with txLen := 0, txPos := 0 } still
    split
    · have alive := (all.used i).trans (kept.held i installed).1
      exact reset_visited kernel done.kept below alive
    · exact done
  · exact visited_again kept installed all probed.2 still

theorem takeIncoming_kept (t : Ticks) (fuel : Nat) : ∀ {s : Server}, Kept log s →
    (s.streams i).receiveInstalled = true → Kept log (takeIncoming kernel t i fuel s).1 ∧
      ((takeIncoming kernel t i fuel s).1.streams i).receiveInstalled = true := by
  induction fuel with
  | zero => exact fun kept installed => ⟨kept, installed⟩
  | succ fuel ih =>
      intro s kept installed
      simp only [takeIncoming]
      split
      · exact ⟨kept, installed⟩
      · split
        · exact ⟨kept, installed⟩
        · split
          · exact ⟨kept, installed⟩
          · have taken (n : Nat) : Steady s.net (sendTcpPacket kernel (s.net.set i { s.net.sockets i with
                rx := (s.net.sockets i).rx.drop n }) i 0 flagAck) :=
              Steady.sent (Steady.edit rfl rfl (Steady.refl s.net))
            have next (n : Nat) (st : Stream)
                (still : st.receiveInstalled = (s.streams i).receiveInstalled) :=
              visited_again kept installed (taken n) st still
            refine ih (next _ _ ?_).kept
              ((next _ _ ?_).still (((taken _).used i).trans (kept.held i installed).1))
            all_goals rfl

theorem handle_kept (kept : Kept log s) (installed : (s.streams i).receiveInstalled = true)
    (request reply : ByteMemory.Memory) :
    Kept log { s with exported := RntpTransactions.step s.exported (.handle i request reply) } where
  once := kept.once
  named := kept.named
  listener := kept.listener
  blank j bare := by
    have apart : j ≠ i := by
      rintro rfl
      rw [show (s.streams j).receiveInstalled = false from bare] at installed
      cases installed
    obtain ⟨absent, rest⟩ := kept.blank j bare
    exact ⟨effect_absent (handle_effect s.exported.sessions i request reply) apart absent, rest⟩
  inside := kept.inside
  held := kept.held
  started := kept.started

theorem answerRequest_visited (kept : Kept log s) (below : i < maxSockets)
    (installed : (s.streams i).receiveInstalled = true) (t : Ticks) :
    Visited log (answerRequest kernel t s i) i := by
  have handled := handle_kept kept installed (s.streams i).rx (s.streams i).tx
  have alive := (kept.held i installed).1
  simp only [answerRequest]
  split
  · have replied := kept_again handled { s.streams i with
        tx := (rntpSessionsHandle s.exported.sessions i (s.streams i).rx
          (s.streams i).tx).reply } installed rfl
    exact reset_visited kernel replied below alive
  · have replied := kept_again handled (outgoing { s.streams i with
        tx := (rntpSessionsHandle s.exported.sessions i (s.streams i).rx (s.streams i).tx).reply
        rxLen := 0
        closeAfter := refusal (RntpProtocol.rntpDecode (s.streams i).rx) (RntpProtocol.rntpDecode
          (rntpSessionsHandle s.exported.sessions i (s.streams i).rx (s.streams i).tx).reply) }
        (UInt32.ofNat (rntpSessionsHandle s.exported.sessions i (s.streams i).rx
          (s.streams i).tx).count) t.now)
        installed rfl
    refine transmit_visited kernel replied below ?_ t
    rw [stream_same]
    exact installed

theorem exchange_visited (kept : Kept log s) (below : i < maxSockets)
    (installed : (s.streams i).receiveInstalled = true) (t : Ticks) :
    Visited log (exchange kernel t s i) i := by
  have still : (if (s.streams i).activity = 0 then { s.streams i with activity := t.now }
    else s.streams i).receiveInstalled =
      (s.streams i).receiveInstalled := by
    split <;> rfl
  simp only [exchange]
  generalize (if (s.streams i).activity = 0 then { s.streams i with activity := t.now }
    else s.streams i) = st at still
  have marked := kept_again kept st installed still
  split
  · exact reset_visited kernel marked below (kept.held i installed).1
  · have sent := transmit_visited kernel marked below
      (by rw [stream_same, still]; exact installed) t
    generalize transmit kernel t (s.setStream i st) i = s' at sent
    split
    · exact sent
    · next going =>
      have alive : (s'.net.sockets i).used = true := by
        by_contra gone
        exact going (.inl (by simpa using gone))
      obtain ⟨kept', installed'⟩ := takeIncoming_kept kernel t ((s'.net.sockets i).rx.length + 1) sent.kept
        (sent.still alive)
      simp only [incoming]
      generalize takeIncoming kernel t i ((s'.net.sockets i).rx.length + 1) s' = taken at kept' installed'
      obtain ⟨s'', message⟩ := taken
      cases message with
      | malformed => exact reset_visited kernel kept' below (kept'.held i installed').1
      | partly => exact ⟨kept', fun _ => installed'⟩
      | whole => exact answerRequest_visited kernel kept' below installed' t

theorem install_refused {net net' : Net} {size : Nat}
    (refused : tcpSetReceiveBuffer net i (some size) = (net', false)) : net' = net := by
  simp only [tcpSetReceiveBuffer] at refused
  split at refused
  · exact (Prod.mk.inj refused).1.symm
  · split at refused
    · exact (Prod.mk.inj refused).1.symm
    · cases refused

theorem install_kept {net : Net} (kept : Kept log s) (elsewhere : i ≠ 0) (below : i < maxSockets)
    (used : (s.net.sockets i).used = true)
    (done : tcpSetReceiveBuffer s.net i (some tcpRxBytes) = (net, true)) :
    Kept log (({ s with net := sendTcpPacket kernel net i 0 flagAck } : Server).setStream i
      { s.streams i with receiveInstalled := true }) := by
  have sent : Steady net (sendTcpPacket kernel net i 0 flagAck) := Steady.sent (Steady.refl net)
  have sockets := (buffer_sockets s.net i (some tcpRxBytes)).1
  have rebound : Move kernel s.net (tcpSetReceiveBuffer s.net i (some tcpRxBytes)).1 := .rebound ..
  have moved := once_move kept.once rebound
  have others (j : Nat) (apart : j ≠ i) (owned : Owned s.net j) :=
    owned_other kept.once apart (some tcpRxBytes) owned
  rw [done] at sockets moved others
  dsimp only at sockets
  have own := owned_installed kept.once done
  refine ⟨?_, ?_, ?_, ?_, ?_, ?_, kept.started⟩
  · simp only [Server.setStream, sent.storage]
    exact moved
  · apply sent.named
    simp only [Named, sockets]
    exact kept.named
  · rw [stream_other _ _ elsewhere.symm]
    exact kept.listener
  -- the slot has the buffer now, so it has not to be blank
  · intro j bare
    have apart : j ≠ i := by
      rintro rfl
      rw [stream_same] at bare
      cases bare
    rw [stream_other _ _ apart] at bare
    rw [Blank, stream_other _ _ apart]
    exact kept.blank j bare
  · intro j installed
    by_cases hit : j = i
    · exact hit ▸ below
    · rw [stream_other _ _ hit] at installed
      exact kept.inside j installed
  · intro j installed
    simp only [Server.setStream, Owned, sent.storage, sent.used, sockets]
    by_cases hit : j = i
    · subst hit
      exact ⟨used, own⟩
    · rw [stream_other _ _ hit] at installed
      obtain ⟨alive, owned⟩ := kept.held j installed
      exact ⟨alive, others j hit owned⟩

theorem visit_kept (kept : Kept log s) (below : i < maxSockets) (t : Ticks) :
    Kept log (visit kernel t s i) := by
  simp only [visit]
  split
  · exact kept
  · next elsewhere =>
    split
    · exact release_kept kept below kept.once kept.named fun j _ owned => ⟨rfl, owned⟩
    · next alive =>
      have used : (s.net.sockets i).used = true := by simpa using alive
      split
      · split
        · next net done =>
          refine (exchange_visited kernel
            (install_kept kernel kept elsewhere below used done) below ?_ t).kept
          rw [stream_same]
        · next net refused =>
          rw [install_refused refused]
          exact (reset_visited kernel kept below used).kept
      · next bare =>
        exact (exchange_visited kernel kept below (by simpa using bare) t).kept

/-! ## Segments -/

/-- Between a segment and the look at the slots. -/
structure Swept (log : List (Nat × Bool)) (before : Nat → Stream) (net : Net) (s : Server) : Prop where
  net : s.net = net
  listener : (s.streams 0).receiveInstalled = false
  blank : ∀ i, (s.streams i).receiveInstalled = false → Blank s i
  installed : ∀ i, (s.streams i).receiveInstalled = true → (before i).receiveInstalled = true
  started : s.started = log

/-- What a look leaves installed. -/
def Stays (net : Net) (i : Nat) : Prop := (net.sockets i).used = true ∧ Owned net i

theorem replaced_swept {before : Nat → Stream} {net : Net} (swept : Swept log before net s)
    (below : i < maxSockets) :
    Swept log before net (releaseReplaced s i) ∧
      (((releaseReplaced s i).streams i).receiveInstalled = true → Stays net i) ∧
        ∀ j, ((releaseReplaced s i).streams j).receiveInstalled = true →
          (s.streams j).receiveInstalled = true := by
  simp only [releaseReplaced]
  split
  -- a replaced slot is released and its stream begins anew
  · have other {j : Nat} (installed : (((s.release i).setStream i {}).streams j).receiveInstalled = true) :
        j ≠ i ∧ (s.streams j).receiveInstalled = true := by
      by_cases hit : j = i
      · subst hit
        rw [stream_same] at installed
        cases installed
      · rw [stream_other _ _ hit] at installed
        exact ⟨hit, installed⟩
    refine ⟨⟨swept.net, ?_, ?_, ?_, swept.started⟩, ?_, ?_⟩
    · by_contra installed
      have there := (other (Bool.not_eq_false _ ▸ installed)).2
      rw [swept.listener] at there
      cases there
    · intro j bare
      by_cases hit : j = i
      · subst hit
        refine ⟨release_absent below (swept.blank 0 swept.listener).1.2.2.2, ?_, ?_⟩
        all_goals rw [stream_same]
      · rw [stream_other _ _ hit] at bare
        rw [Blank, stream_other _ _ hit]
        obtain ⟨absent, rest⟩ := swept.blank j bare
        exact ⟨release_absent_other hit absent, rest⟩
    · exact fun j installed => swept.installed j (other installed).2
    · exact fun installed => absurd rfl (other installed).1
    · exact fun j installed => (other installed).2
  -- nothing was replaced: the slot is in use and the buffer its own
  · next still =>
    refine ⟨swept, fun installed => ?_, fun _ => id⟩
    rw [swept.net] at still
    constructor
    · by_contra gone
      exact still ⟨installed, .inl (by simpa using gone)⟩
    · by_contra gone
      exact still ⟨installed, .inr (by simpa [Owned] using gone)⟩

theorem sweep {before : Nat → Stream} {net : Net} (slots : List Nat) :
    ∀ {s : Server}, Swept log before net s →
    (∀ i ∈ slots, i < maxSockets) → Swept log before net (slots.foldl releaseReplaced s) ∧
      ∀ j, ((slots.foldl releaseReplaced s).streams j).receiveInstalled = true →
        (s.streams j).receiveInstalled = true ∧ (j ∈ slots → Stays net j) := by
  induction slots with
  | nil => exact fun swept _ =>
    ⟨swept, fun j installed => ⟨installed, fun member => absurd member List.not_mem_nil⟩⟩
  | cons i rest ih =>
      intro s swept below
      obtain ⟨next, here, fewer⟩ := replaced_swept swept (below i List.mem_cons_self)
      obtain ⟨done, all⟩ := ih next fun j member => below j (List.mem_cons_of_mem _ member)
      refine ⟨done, fun j installed => ?_⟩
      obtain ⟨now, stays⟩ := all j installed
      refine ⟨fewer j now, fun member => ?_⟩
      rcases List.mem_cons.mp member with rfl | later
      · exact here now
      · exact stays later

theorem sweep_nothing (slots : List Nat)
    (stays : ∀ i, (s.streams i).receiveInstalled = true → Stays s.net i) :
    slots.foldl releaseReplaced s = s := by
  induction slots with
  | nil => rfl
  | cons i rest ih =>
      have same : releaseReplaced s i = s := by
        rw [releaseReplaced, if_neg]
        rintro ⟨installed, gone | gone⟩
        · rw [(stays i installed).1] at gone
          cases gone
        · have owned := (stays i installed).2
          rw [Owned, Option.isSome_iff_ne_none] at owned
          exact owned (Option.isNone_iff_eq_none.mp gone)
      rw [List.foldl_cons, same]
      exact ih

/-- A client that dials anew has its SYN-ACK repeated on a slot that is not blank. -/
def Stale (s : Server) (t : Segment) (anew : Bool) : Prop :=
  ∃ i, repeatsIn s.net t = some i ∧ anew = true ∧ ¬ Blank s i

theorem packet_swept (kept : Kept log s) (t : Segment) :
    Swept log s.streams (onTcpPacket kernel s.net pool t)
        (pool.foldl releaseReplaced { s with net := onTcpPacket kernel s.net pool t }) ∧
      ∀ i < maxSockets, ((pool.foldl releaseReplaced
          { s with net := onTcpPacket kernel s.net pool t }).streams i).receiveInstalled = true →
        Stays (onTcpPacket kernel s.net pool t) i := by
  have start : Swept log s.streams (onTcpPacket kernel s.net pool t)
      { s with net := onTcpPacket kernel s.net pool t } :=
    ⟨rfl, kept.listener, kept.blank, fun _ => id, kept.started⟩
  obtain ⟨swept, all⟩ := sweep pool start fun i member => List.mem_range.mp member
  exact ⟨swept, fun i below installed => (all i installed).2 (List.mem_range.mpr below)⟩

theorem packet_kept (kept : Kept log s) (t : Segment) (anew : Bool) :
    ∃ log', Kept log' (onPacket kernel s t anew) ∧
      ((∀ e ∈ log', e.2 = true) ↔ (∀ e ∈ log, e.2 = true) ∧ ¬ Stale s t anew) := by
  obtain ⟨swept, stays⟩ := packet_swept kernel kept t
  have once : Once (onTcpPacket kernel s.net pool t).storage :=
    once_moves kept.once (moves_packet Relation.ReflTransGen.refl pool t)
  have named := named_packet kernel t kept.named
  have sweptNothing (repeats : ∃ d, repeatsIn s.net t = some d) :
      pool.foldl releaseReplaced { s with net := onTcpPacket kernel s.net pool t } =
        { s with net := onTcpPacket kernel s.net pool t } := by
    obtain ⟨d, repeats⟩ := repeats
    have steady : Steady s.net (onTcpPacket kernel s.net pool t) := by
      rw [(repeats_packet kernel repeats).1]
      exact steady_repeat kernel t
    exact sweep_nothing pool (kept_net kept steady).held
  simp only [onPacket]
  generalize pool.foldl releaseReplaced { s with net := onTcpPacket kernel s.net pool t } = s'
    at swept stays sweptNothing
  refine ⟨_, ⟨?_, ?_, swept.listener, swept.blank, ?_, ?_, rfl⟩, ?_⟩
  · rw [show s'.net = onTcpPacket kernel s.net pool t from swept.net]
    exact once
  · rw [show s'.net = onTcpPacket kernel s.net pool t from swept.net]
    exact named
  · exact fun i installed => kept.inside i (swept.installed i installed)
  · intro i installed
    have below := kept.inside i (swept.installed i installed)
    rw [show s'.net = onTcpPacket kernel s.net pool t from swept.net]
    exact stays i below installed
  · rw [List.forall_mem_append, swept.started]
    refine and_congr_right fun _ => ?_
    simp only [List.forall_mem_map, Option.mem_toList]
    cases repeats : repeatsIn s.net t with
    | none =>
        -- a fresh connection: its slot has lost its buffer
        have never : ¬ Stale s t anew := by
          rintro ⟨i, is, -⟩
          rw [repeats] at is
          cases is
        refine iff_of_true (fun i starts => ?_) never
        rw [startsIn, repeats, Option.filter_none, Option.or_none] at starts
        have bare := begun_bare kernel t kept.once starts
        refine decide_eq_true (swept.blank i ?_)
        by_contra installed
        have below := kept.inside i (swept.installed i (by simpa using installed))
        exact bare (stays i below (by simpa using installed)).2
    | some d =>
        have same := sweptNothing ⟨d, repeats⟩
        have starts : startsIn s.net t anew = (some d).filter fun _ => anew := by
          rw [startsIn, (repeats_packet kernel repeats).2.1, repeats, Option.none_or]
        have blank : Blank s' d ↔ Blank s d := by
          rw [same]
          exact Iff.rfl
        rw [starts]
        constructor
        · rintro all ⟨i, is, dialled, stale⟩
          obtain rfl : d = i := Option.some.inj (repeats.symm.trans is)
          have noted := all d (Option.filter_eq_some_iff.mpr ⟨rfl, dialled⟩)
          exact stale (blank.mp (of_decide_eq_true noted))
        · intro fine i member
          obtain ⟨is, dialled⟩ := Option.filter_eq_some_iff.mp member
          obtain rfl : d = i := Option.some.inj is
          refine decide_eq_true (blank.mpr ?_)
          by_contra stale
          exact fine ⟨d, repeats, dialled, stale⟩

end Visits

/-! ## Runs -/

section Runs
variable (kernel : Nat → Bool)

theorem run_kept (events : List RntpServing.Event) : ∀ {log : List (Nat × Bool)} {s : Server}, Kept log s →
    ((∀ e ∈ (run kernel s events).started, e.2 = true) ↔ (∀ e ∈ log, e.2 = true) ∧
      ∀ before t anew after, events = before ++ .packet t anew :: after →
        ¬ Stale (run kernel s before) t anew) := by
  induction events with
  | nil =>
      intro log s kept
      rw [run, List.foldl_nil, kept.started]
      refine ⟨fun all => ⟨all, fun before t anew after is => ?_⟩, And.left⟩
      simp at is
  | cons e rest ih =>
      intro log s kept
      -- an event that is no segment leaves the log as it is, and every segment one place later
      have quiet {s' : Server} (kept' : Kept log s') (is : step kernel s e = s')
          (other : ∀ t anew, e ≠ .packet t anew) :
          ((∀ x ∈ (run kernel s (e :: rest)).started, x.2 = true) ↔ (∀ x ∈ log, x.2 = true) ∧
            ∀ before t anew after, e :: rest = before ++ .packet t anew :: after →
              ¬ Stale (run kernel s before) t anew) := by
        rw [run, List.foldl_cons, is, ← run, ih kept']
        refine and_congr_right fun _ => ⟨?_, ?_⟩
        · intro fine before t anew after split
          cases before with
          | nil => exact absurd (List.cons.inj split).1 (other t anew)
          | cons first before =>
              obtain ⟨same, tail⟩ := List.cons.inj split
              rw [← same, run, List.foldl_cons, is]
              exact fine before t anew after tail
        · intro fine before t anew after split
          have now := fine (e :: before) t anew after (by rw [split]; rfl)
          rwa [run, List.foldl_cons, is] at now
      cases e with
      | time secs =>
          have steady : Steady s.net (netSetTime s.net secs) := ⟨rfl, fun _ => rfl, fun _ => rfl⟩
          exact quiet (kept_net kept steady) rfl (by rintro _ _ ⟨⟩)
      | visit i t =>
          by_cases below : i < maxSockets
          · exact quiet (visit_kept kernel kept below t) (by rw [step, if_pos below]) (by rintro _ _ ⟨⟩)
          · exact quiet kept (by rw [step, if_neg below]) (by rintro _ _ ⟨⟩)
      | packet t anew =>
          obtain ⟨log', kept', all⟩ := packet_kept kernel kept t anew
          rw [run, List.foldl_cons, ← run, step, ih kept', all, and_assoc]
          refine and_congr_right fun _ => ⟨?_, ?_⟩
          · rintro ⟨first, later⟩ before t' anew' after split
            cases before with
            | nil =>
                obtain ⟨same, -⟩ := List.cons.inj split
                cases same
                exact first
            | cons e before =>
                obtain ⟨same, tail⟩ := List.cons.inj split
                rw [← same]
                exact later before t' anew' after tail
          · intro fine
            refine ⟨fine [] t anew rest rfl, fun before t' anew' after split => ?_⟩
            exact fine (.packet t anew :: before) t' anew' after (by rw [split]; rfl)

theorem serving_kept {image undo : ByteMemory.Memory} {sectors generation : Nat} {start : RntpSessions}
    (opened : rntpSessionsInit image undo sectors generation = some start) (port : UInt16) :
    Kept [] (serving start image port) := by
  have fresh : ∀ i, Absent start i := by
    unfold rntpSessionsInit at opened
    split at opened
    · cases opened
    · obtain ⟨free, -, rfl⟩ := Option.map_eq_some_iff.mp opened
      exact fun i => ⟨rfl, by simp, by simp, by rintro ⟨⟩⟩
  have named : Named (serving start image port).net := by
    have claimed : Named (socketTcp4 {} pool).1 := by
      simp only [socketTcp4]
      cases got : allocSocket {} pool with
      | none => rintro _ ⟨⟩
      | some result =>
          obtain ⟨net, a⟩ := result
          have taken : Named net := named_alloc (by rintro _ ⟨⟩) got
          exact named_set taken (taken a)
    have bound : Named (bind (socketTcp4 {} pool).1 0 port) := named_set claimed (claimed 0)
    exact named_set bound (bound 0)
  have taken : Moves (fun _ => true) {} (socketTcp4 {} pool).1 := moves_socket Relation.ReflTransGen.refl pool
  have bound : Moves (fun _ => true) {} (bind (socketTcp4 {} pool).1 0 port) := moves_edit taken rfl
  have listening : Moves (fun _ => true) {} (listen (bind (socketTcp4 {} pool).1 0 port) 0) :=
    moves_edit bound rfl
  refine ⟨?_, named, rfl, fun i _ => ⟨fresh i, rfl, rfl⟩, by rintro _ ⟨⟩, by rintro _ ⟨⟩, rfl⟩
  exact once_moves bounded_start.once listening

/-- In every run of the serve loop, every connection starts blank if and only if no segment is stale. -/
theorem sessions_isolated_iff (kernel : Nat → Bool) (image undo : ByteMemory.Memory)
    (sectors generation : Nat)
    (start : RntpSessions) (opened : rntpSessionsInit image undo sectors generation = some start)
    (port : UInt16)
    (events : List RntpServing.Event) :
    (∀ e ∈ (run kernel (serving start image port) events).started, e.2 = true) ↔
      ∀ before t anew after, events = before ++ .packet t anew :: after →
        ¬ Stale (run kernel (serving start image port) before) t anew := by
  rw [run_kept kernel events (serving_kept opened port)]
  simp

end Runs

/-! A peer sends the first ten bytes of a request, loses its state and dials again from the same port. -/
section Redial

/-- The SYN of `tcp_connect`. -/
def dial : Segment :=
  { srcIp := 0x0a000002, dstIp := 0x0a000001, sourcePort := 40000, destPort := 7780, seqNum := 0, ackNum := 0,
    headerLen := 20, flags := flagSyn, windowSize := 1000, packet := List.replicate 20 0 }

def tenBytes : Segment :=
  { dial with seqNum := 1, ackNum := 1, flags := flagAck, packet := List.replicate 30 0 }

def ticks (now : UInt64) : Ticks := { now, taken := fun _ => now, mss := 536 }

def redial : List RntpServing.Event :=
  [.packet dial true, .visit 1 (ticks 5), .packet tenBytes false, .visit 1 (ticks 6), .packet dial true]

theorem redial_not_blank :
    ∃ start, rntpSessionsInit smallImage (fun _ => 0) 10 5 = some start ∧
      (run (fun _ => true) (serving start smallImage 7780) redial).started = [(1, true), (1, false)] := by
  have opened := (Option.some_get small_image_opens).symm
  exact ⟨_, opened, by decide⟩

theorem first_dial_blank :
    ∃ start, rntpSessionsInit smallImage (fun _ => 0) 10 5 = some start ∧
      (run (fun _ => true) (serving start smallImage 7780) [.packet dial true]).started = [(1, true)] ∧
      ((∀ e ∈ (run (fun _ => true) (serving start smallImage 7780) [.packet dial true]).started, e.2 = true) ↔
        ∀ before t anew after, [.packet dial true] = before ++ .packet t anew :: after →
          ¬ Stale (run (fun _ => true) (serving start smallImage 7780) before) t anew) := by
  have opened := (Option.some_get small_image_opens).symm
  exact ⟨_, opened, by decide, sessions_isolated_iff _ smallImage (fun _ => 0) 10 5 _ opened 7780 _⟩

end Redial
end R2Apps.RntpIsolation
