import Mathlib.Data.List.Induction
import R2Apps.TcpSockets

/-! What has happened on a socket since its connection began, read off the log,
and the invariants that tie a socket to it. `Stable` lists the transitions a
socket can make; a predicate that each of them keeps is kept by every function
of the socket layer. Three transitions are left to the caller: acknowledging a
FIN, repeating a SYN-ACK and handing bytes to the application. -/
namespace R2Apps.TcpHistory
open TcpSockets

/-- One connection: the peer's initial sequence number, the bytes appended to
the receive buffer, the bytes read out of it, whether the FIN was acknowledged,
and whether every segment sent so far acknowledged what it should. -/
structure Life where
  irs : UInt32 := 0
  appended : List UInt8 := []
  returned : List UInt8 := []
  fin : Bool := false
  honest : Bool := true

/-- The sequence number of the first byte that is not in `appended`. -/
def Life.next (l : Life) : UInt32 := l.irs + 1 + UInt32.ofNat l.appended.length

def Life.ack (l : Life) : UInt32 := l.next + if l.fin then 1 else 0

/-- What an event has to say about the connection it happens on. -/
def Life.allows (l : Life) : Event → Bool
  | .finished position => position == l.next
  | .sent segment => !segment.state.synchronised || segment.ackNum == l.ack
  | _ => true

def Life.after (l : Life) (e : Event) : Life :=
  let l := { l with honest := l.honest && l.allows e }
  match e with
  | .opened irs => { l with irs := irs, appended := [], returned := [], fin := false }
  | .repeated irs => { l with irs := irs }
  | .stored bytes _ _ => { l with appended := l.appended ++ bytes }
  | .finished _ => { l with fin := true }
  | .returned bytes => { l with returned := l.returned ++ bytes }
  | .sent _ | .cleared | .heard _ _ => l

def life (log : List (Nat × Event)) (a : Nat) : Life :=
  log.foldl (fun l e => if e.1 = a then l.after e.2 else l) {}

@[simp] theorem life_nil (a : Nat) : life [] a = {} := rfl

@[simp] theorem life_snoc (log : List (Nat × Event)) (b : Nat) (e : Event) (a : Nat) :
    life (log ++ [(b, e)]) a = if b = a then (life log a).after e else life log a := by
  simp [life]

@[simp] theorem after_cleared (l : Life) : l.after .cleared = l := by simp [Life.after, Life.allows]

@[simp] theorem after_heard (l : Life) (ack : Bool) (number : UInt32) : l.after (.heard ack number) = l := by
  simp [Life.after, Life.allows]

theorem honest_of_after {l : Life} {e : Event} (honest : (l.after e).honest = true) :
    l.honest = true ∧ l.allows e = true := by
  cases e <;> simpa [Life.after] using honest

theorem honest_at {log : List (Nat × Event)} {a : Nat} (honest : (life log a).honest = true) :
    ∀ before e after, log = before ++ (a, e) :: after → (life before a).allows e = true := by
  induction log using List.reverseRecOn with
  | nil =>
      intro before e after split
      exact absurd split (by simp)
  | append_singleton log last ih =>
      obtain ⟨b, e'⟩ := last
      intro before e after split
      rw [life_snoc] at honest
      rcases List.eq_nil_or_concat after with none_ | ⟨front, final, shape⟩
      · subst none_
        obtain ⟨same, tail⟩ := List.append_inj' split rfl
        cases tail
        rw [if_pos rfl] at honest
        rw [← same]
        exact (honest_of_after honest).2
      · rw [List.concat_eq_append] at shape
        subst shape
        have longer : log ++ [(b, e')] = (before ++ (a, e) :: front) ++ [final] := by
          rw [split]
          simp
        obtain ⟨same, _⟩ := List.append_inj' longer rfl
        refine ih ?_ before e front same
        by_cases hit : b = a
        · rw [if_pos hit] at honest
          exact (honest_of_after honest).1
        · rw [if_neg hit] at honest
          exact honest

/-- The fields of a socket that its receive side depends on. -/
structure Core where
  state : SocketState
  used : Bool
  rx : List UInt8
  ackNum : UInt32

def core (s : Socket) : Core := ⟨s.state, s.used, s.rx, s.ackNum⟩

def Inv (P : Core → Life → Prop) (net : Net) : Prop :=
  ∀ a, P (core (net.sockets a)) (life net.log a)

structure Stable (P : Core → Life → Prop) : Prop where
  idle : ∀ {c l}, P c l → c.used = false → c.state.synchronised = false
  sent : ∀ {c l} (seg : Sent), P c l → seg.state = c.state → seg.ackNum = c.ackNum →
    P c (l.after (.sent seg))
  freed : ∀ {c l}, P c l → P { c with used := false, state := .closed, rx := [] } l
  claimed : ∀ {c l}, P c l → c.state.synchronised = false → P { c with used := true, rx := [] } l
  parked : ∀ {c l} (st : SocketState), P c l → st = .closed ∨ st = .listening →
    P { c with state := st } l
  dialled : ∀ {c l} (ack : UInt32), P c l → c.rx = [] →
    P { c with state := .synSent, ackNum := ack } l
  opened : ∀ {c l} (irs : UInt32), P c l → c.used = true → c.rx = [] →
    P { c with state := .established, ackNum := irs + 1 } (l.after (.opened irs))
  answered : ∀ {c l}, P c l → c.state = .synSent → c.rx = []
  moved : ∀ {c l} (st : SocketState), P c l → c.state.synchronised = true →
    st.synchronised = true → P { c with state := st } l
  stored : ∀ {c l} (bytes : List UInt8) (rxLen capacity : Nat), P c l → c.state.synchronised = true →
    P { c with rx := c.rx ++ bytes, ackNum := c.ackNum + UInt32.ofNat bytes.length }
      (l.after (.stored bytes rxLen capacity))

def MayFinish (P : Core → Life → Prop) (c : Core) (l : Life) (t : Segment) : Prop :=
  P { c with ackNum := t.seqNum + t.dataLen + 1 } (l.after (.finished (t.seqNum + t.dataLen)))

def MayRepeat (P : Core → Life → Prop) (c : Core) (l : Life) (irs : UInt32) : Prop :=
  P { c with ackNum := irs + 1 } (l.after (.repeated irs))

def MayReturn (P : Core → Life → Prop) (c : Core) (l : Life) (bytes : List UInt8) : Prop :=
  P { c with rx := [] } (l.after (.returned bytes))

@[simp] theorem set_log (net : Net) (a : Nat) (s : Socket) : (net.set a s).log = net.log := rfl

@[simp] theorem set_same (net : Net) (a : Nat) (s : Socket) : (net.set a s).sockets a = s := by
  simp [Net.set]

@[simp] theorem note_sockets (net : Net) (a : Nat) (e : Event) :
    (net.note a e).sockets = net.sockets := rfl

@[simp] theorem note_log (net : Net) (a : Nat) (e : Event) :
    (net.note a e).log = net.log ++ [(a, e)] := rfl

theorem buffer_sockets (net : Net) (a : Nat) (buffer : Option Nat) :
    (tcpSetReceiveBuffer net a buffer).1.sockets = net.sockets ∧
      (tcpSetReceiveBuffer net a buffer).1.log = net.log := by
  cases buffer <;> simp only [tcpSetReceiveBuffer] <;> repeat' split
  all_goals exact ⟨rfl, rfl⟩

section Keeps
variable {P : Core → Life → Prop} {net : Net} {a : Nat}

theorem inv_set (s : Socket) (inv : Inv P net) (here : P (core s) (life net.log a)) :
    Inv P (net.set a s) := by
  intro b
  by_cases hit : b = a
  · subst hit
    simpa using here
  · simpa [Net.set, Function.update_of_ne hit] using inv b

theorem inv_note (e : Event) (inv : Inv P net)
    (here : P (core (net.sockets a)) ((life net.log a).after e)) : Inv P (net.note a e) := by
  intro b
  by_cases hit : a = b
  · subst hit
    simpa using here
  · simpa [hit] using inv b

/-- What has been acknowledged is no matter of the receive side. -/
theorem inv_heard (inv : Inv P net) (ack : Bool) (number : UInt32) : Inv P (net.note a (.heard ack number)) :=
  inv_note _ inv (by simpa only [after_heard] using inv a)

theorem life_heard (net : Net) (a : Nat) (ack : Bool) (number : UInt32) (b : Nat) :
    life (net.note a (.heard ack number)).log b = life net.log b := by
  simp

theorem inv_change (s : Socket) (e : Event) (inv : Inv P net)
    (here : P (core s) ((life net.log a).after e)) : Inv P ((net.set a s).note a e) := by
  intro b
  by_cases hit : a = b
  · subst hit
    simpa using here
  · have other := Function.update_of_ne (Ne.symm hit) s net.sockets
    simpa [hit, Net.set, other] using inv b

theorem inv_send (stable : Stable P) (inv : Inv P net) (kernel : Nat → Bool) (len : Nat)
    (flags : UInt8) : Inv P (sendTcpPacket kernel net a len flags) := by
  simp only [sendTcpPacket]
  split
  · exact inv
  · have noted (seg : Sent) (state : seg.state = (net.sockets a).state)
        (ack : seg.ackNum = (net.sockets a).ackNum) :
        Inv P ({ net with attempts := net.attempts + 1 }.note a (.sent seg)) :=
      inv_note _ inv (stable.sent seg (inv a) state ack)
    exact inv_set _ (noted _ rfl rfl) (noted _ rfl rfl a)

theorem send_core (kernel : Nat → Bool) (len : Nat) (flags : UInt8) :
    core ((sendTcpPacket kernel net a len flags).sockets a) = core (net.sockets a) := by
  simp only [sendTcpPacket]
  split
  · rfl
  · simp [core]

theorem inv_buffer (inv : Inv P net) (buffer : Option Nat) :
    Inv P (tcpSetReceiveBuffer net a buffer).1 := by
  intro b
  rw [(buffer_sockets net a buffer).1, (buffer_sockets net a buffer).2]
  exact inv b

theorem inv_free (stable : Stable P) (inv : Inv P net) : Inv P (freeSocket net a) :=
  inv_buffer (inv_set { net.sockets a with used := false, state := .closed, rx := [] } inv
    (stable.freed (inv a))) none

theorem inv_claim (stable : Stable P) (inv : Inv P net) (i : Nat)
    (idle : (net.sockets a).state.synchronised = false) :
    Inv P (socketClaim net a i) ∧ ((socketClaim net a i).sockets a).used = true ∧
      ((socketClaim net a i).sockets a).rx = [] := by
  have taken := inv_buffer (a := a)
    (inv_set { net.sockets a with used := true, id := i, rx := [] } inv
      (stable.claimed (inv a) idle)) none
  have claimed := inv_note .cleared taken (by simpa only [after_cleared] using taken a)
  refine ⟨inv_set _ claimed (claimed a), ?_, ?_⟩
  · simp [socketClaim, buffer_sockets]
  · simp [socketClaim, buffer_sockets]

theorem firstSlot_holds {pool : List Nat} {p : Nat → Bool} {i b : Nat}
    (found : firstSlot pool p = some (i, b)) : p b = true := by
  simp only [firstSlot, Option.bind_eq_some_iff, Option.map_eq_some_iff, Prod.mk.injEq] at found
  obtain ⟨j, index, c, entry, _, same⟩ := found
  obtain ⟨inside, holds, _⟩ := List.findIdx?_eq_some_iff_getElem.mp index
  rw [List.getElem?_eq_getElem inside] at entry
  cases entry
  rw [← same]
  exact holds

theorem inv_alloc (stable : Stable P) (inv : Inv P net) {pool : List Nat} {net' : Net} {b : Nat}
    (got : allocSocket net pool = some (net', b)) :
    Inv P net' ∧ (net'.sockets b).used = true ∧ (net'.sockets b).rx = [] := by
  simp only [allocSocket] at got
  split at got
  · rename_i i c found
    cases got
    have free : (net.sockets b).used = false := by simpa using firstSlot_holds found
    exact inv_claim stable inv i (stable.idle (inv b) free)
  · split at got
    · rename_i i c found
      cases got
      have parked := inv_set { net.sockets b with state := .closed } inv
        (stable.parked .closed (inv b) (Or.inl rfl))
      refine inv_claim stable parked i ?_
      simp [SocketState.synchronised]
    · exact absurd got (by simp)

theorem route_classify {pool : List Nat} {t : Segment} {branch : Branch}
    (routed : route net pool t = some (a, branch)) : classify (net.sockets a) t = some branch := by
  obtain ⟨b, _, found⟩ := List.exists_of_findSome?_eq_some routed
  obtain ⟨other, classified, same⟩ := Option.map_eq_some_iff.mp found
  cases same
  exact classified

theorem classify_state {s : Socket} {t : Segment} {branch : Branch}
    (taken : classify s t = some branch) :
    s.used = true ∧ match branch with
      | .listenSyn => s.state = .listening
      | .synSentReset | .challenge | .synAck => s.state = .synSent
      | .finWait => s.state = .finWait
      | .opened => s.state = .established ∨ s.state = .closeWait := by
  revert taken
  simp only [classify]
  repeat' split
  all_goals
    intro taken
    cases taken <;> grind

theorem inv_repeat (stable : Stable P) (inv : Inv P net) (kernel : Nat → Bool) (t : Segment)
    (may : MayRepeat P (core (net.sockets a)) (life net.log a) t.seqNum) :
    Inv P (repeatSynAck kernel net a t) := by
  have changed := inv_change { net.sockets a with ackNum := t.seqNum + 1, seqNum := 0 } _ inv may
  have sent := inv_send (a := a) stable changed kernel 0 (flagSyn ||| flagAck)
  exact inv_set _ sent (sent a)

theorem inv_openPassive (stable : Stable P) (inv : Inv P net) (kernel : Nat → Bool)
    (pool : List Nat) (t : Segment) : Inv P (openPassive kernel net pool t) := by
  simp only [openPassive]
  cases got : allocSocket net pool with
  | none => exact inv
  | some result =>
      obtain ⟨net', c⟩ := result
      obtain ⟨inv', used, empty⟩ := inv_alloc stable inv got
      have changed := inv_change { net'.sockets c with
        remoteIp := t.srcIp, localIp := t.dstIp
        localPort := t.destPort, remotePort := t.sourcePort
        state := .established, seqNum := 0, ackNum := t.seqNum + 1
        txAcked := 0, peerWindow := t.windowSize } _ inv'
        (stable.opened t.seqNum (inv' c) used empty)
      have sent := inv_send (a := c) stable changed kernel 0 (flagSyn ||| flagAck)
      exact inv_set _ sent (sent c)

theorem inv_listenSyn (stable : Stable P) (inv : Inv P net) (kernel : Nat → Bool)
    (pool : List Nat) (t : Segment)
    (may : ∀ d, findConn net pool t a = some d → untouched (net.sockets d) = true →
      MayRepeat P (core (net.sockets d)) (life net.log d) t.seqNum) :
    Inv P (onListenSyn kernel net pool a t) := by
  simp only [onListenSyn]
  cases found : findConn net pool t a with
  | none => exact inv_openPassive stable inv kernel pool t
  | some d =>
      by_cases fresh : untouched (net.sockets d) = true
      · simp only [fresh, ↓reduceIte]
        exact inv_repeat stable inv kernel t (may d found fresh)
      · simp only [fresh, Bool.false_eq_true, ↓reduceIte]
        exact inv_openPassive stable (inv_free stable inv) kernel pool t

theorem inv_challenge (stable : Stable P) (inv : Inv P net) (kernel : Nat → Bool) (t : Segment)
    (dialling : (net.sockets a).state = .synSent) : Inv P (onChallenge kernel net a t) := by
  have reset := stable.dialled 0 (inv a) (stable.answered (inv a) dialling)
  have first := inv_set { net.sockets a with seqNum := t.ackNum, ackNum := 0 } inv
    (by simpa only [core, dialling] using reset)
  have second := inv_send (a := a) stable first kernel 0 flagRst
  have third := inv_set { (sendTcpPacket kernel _ a 0 flagRst).sockets a with seqNum := 0 }
    second (second a)
  have fourth := inv_send (a := a) stable third kernel 0 flagSyn
  exact inv_set _ fourth (fourth a)

theorem inv_synAck (stable : Stable P) (inv : Inv P net) (kernel : Nat → Bool) (t : Segment)
    (used : (net.sockets a).used = true) (dialling : (net.sockets a).state = .synSent) :
    Inv P (onSynAck kernel net a t) := by
  have changed := inv_change { net.sockets a with
    localIp := t.dstIp, ackNum := t.seqNum + 1, txAcked := t.ackNum
    peerWindow := t.windowSize, state := .established, lastActivity := net.now } _ inv
    (stable.opened t.seqNum (inv a) used (stable.answered (inv a) dialling))
  exact inv_send stable (inv_heard (a := a) changed true t.ackNum) kernel 0 flagAck

theorem inv_finWait (stable : Stable P) (inv : Inv P net) (kernel : Nat → Bool) (t : Segment)
    (may : t.has flagRst = false → t.has flagFin = true →
      MayFinish P (core (net.sockets a)) (life net.log a) t) :
    Inv P (onFinWait kernel net a t) := by
  simp only [onFinWait]
  by_cases reset : t.has flagRst = true
  · simp only [reset, ↓reduceIte]
    exact inv_free stable inv
  · simp only [reset, Bool.false_eq_true, ↓reduceIte]
    have heard := inv_heard (a := a) inv (t.has flagAck) t.ackNum
    have stamped := inv_set { net.sockets a with lastActivity := net.now } heard (heard a)
    by_cases fin : t.has flagFin = true
    · simp only [fin, ↓reduceIte, set_same]
      have finishes := may (by simpa using reset) fin
      rw [← life_heard net a (t.has flagAck) t.ackNum] at finishes
      have changed := inv_change { net.sockets a with
        lastActivity := net.now, ackNum := t.seqNum + t.dataLen + 1 } _ stamped finishes
      exact inv_free stable (inv_send stable changed kernel 0 flagAck)
    · simp only [fin, Bool.false_eq_true, ↓reduceIte]
      exact stamped

theorem inv_noteAck (inv : Inv P net) (t : Segment) : Inv P (noteAck net a t) := by
  have heard := inv_heard (a := a) inv (t.has flagAck) t.ackNum
  simp only [noteAck]
  split
  · exact inv_set _ heard (heard a)
  · exact inv_set _ heard (heard a)

theorem noteAck_core (t : Segment) :
    core ((noteAck net a t).sockets a) = core (net.sockets a) := by
  simp only [noteAck, set_same]
  split <;> rfl

/-- The socket after `takeData`: unchanged but for the bytes that were in order and fit. -/
theorem takeData_core (kernel : Nat → Bool) (t : Segment) :
    (core ((takeData kernel net a t).sockets a)).state = (net.sockets a).state := by
  simp only [takeData]
  split
  · rfl
  · rw [send_core]
    split
    · simp [core]
    · rfl

theorem inv_takeData (stable : Stable P) (inv : Inv P net) (kernel : Nat → Bool) (t : Segment)
    (open_ : (net.sockets a).state.synchronised = true) : Inv P (takeData kernel net a t) := by
  simp only [takeData]
  split
  · exact inv
  · apply inv_send stable
    split
    · rename_i inOrder
      apply inv_change _ _ inv
      have stored := stable.stored (t.data.take (receiveSpace net a)) (net.sockets a).rx.length
        (receiveCapacity net a) (inv a) open_
      simpa only [core, inOrder] using stored
    · exact inv

theorem inv_takeFin (stable : Stable P) (inv : Inv P net) (kernel : Nat → Bool) (t : Segment)
    (open_ : (net.sockets a).state.synchronised = true)
    (may : t.has flagFin = true → MayFinish P (core (net.sockets a)) (life net.log a) t) :
    Inv P (takeFin kernel net a t) := by
  simp only [takeFin]
  by_cases fin : t.has flagFin = true
  · simp only [fin, ↓reduceIte]
    have changed := inv_change { net.sockets a with ackNum := t.seqNum + t.dataLen + 1 } _ inv
      (may fin)
    have sent := inv_send (a := a) stable changed kernel 0 flagAck
    split
    · exact inv_free stable sent
    · refine inv_set _ sent (stable.moved .closeWait (sent a) ?_ rfl)
      rw [send_core]
      simpa [core] using open_
  · simp only [fin, Bool.false_eq_true, ↓reduceIte]
    exact inv

theorem inv_opened (stable : Stable P) (inv : Inv P net) (kernel : Nat → Bool) (t : Segment)
    (open_ : (net.sockets a).state.synchronised = true)
    (may : t.has flagRst = false → t.has flagFin = true →
      MayFinish P (core ((takeData kernel (noteAck net a t) a t).sockets a))
        (life (takeData kernel (noteAck net a t) a t).log a) t) :
    Inv P (onOpened kernel net a t) := by
  simp only [onOpened]
  by_cases reset : t.has flagRst = true
  · simp only [reset, ↓reduceIte]
    exact inv_free stable inv
  · simp only [reset, Bool.false_eq_true, ↓reduceIte]
    have acked : ((noteAck net a t).sockets a).state = (net.sockets a).state :=
      congrArg Core.state (noteAck_core t)
    have stored := inv_takeData stable (inv_noteAck (a := a) inv t) kernel t (acked ▸ open_)
    refine inv_takeFin stable stored kernel t ?_ (may (by simpa using reset))
    have same : ((takeData kernel (noteAck net a t) a t).sockets a).state =
        ((noteAck net a t).sockets a).state := takeData_core kernel t
    rw [same, acked]
    exact open_

theorem inv_read (stable : Stable P) (inv : Inv P net) (kernel : Nat → Bool) (maxlen : Nat)
    (may : MayReturn P (core (net.sockets a)) (life net.log a)
      ((net.sockets a).rx.take maxlen)) :
    Inv P (tcpRead kernel net a maxlen).1 := by
  have changed := inv_change { net.sockets a with rx := [] } _ inv may
  simp only [tcpRead]
  split
  · exact inv_send stable changed kernel 0 flagAck
  · exact changed

theorem inv_write (stable : Stable P) (inv : Inv P net) (kernel : Nat → Bool) (len : Nat) :
    Inv P (tcpWrite kernel net a len).1 := by
  have sent := inv_send (a := a) stable inv kernel len flagAck
  simp only [tcpWrite]
  split
  · exact sent
  · exact inv_set _ sent (sent a)

theorem inv_close (stable : Stable P) (inv : Inv P net) (kernel : Nat → Bool) :
    Inv P (tcpClose kernel net a) := by
  have ends (open_ : (net.sockets a).state.synchronised = true) :
      Inv P ((sendTcpPacket kernel net a 0 (flagFin ||| flagAck)).set a
        { (sendTcpPacket kernel net a 0 (flagFin ||| flagAck)).sockets a with
          state := .finWait, lastActivity := net.now }) := by
    have sent := inv_send (a := a) stable inv kernel 0 (flagFin ||| flagAck)
    refine inv_set _ sent (stable.moved .finWait (sent a) ?_ rfl)
    rw [send_core]
    exact open_
  have stamp : (sendTcpPacket kernel net a 0 (flagFin ||| flagAck)).now = net.now := by
    simp only [sendTcpPacket]
    split <;> rfl
  simp only [tcpClose]
  cases state : (net.sockets a).state with
  | closed => exact inv_free stable inv
  | listening => exact inv_free stable inv
  | synSent => exact inv_free stable (inv_send stable inv kernel 0 flagRst)
  | established =>
      simp only [stamp]
      exact ends (by rw [state]; rfl)
  | finWait => exact inv
  | closeWait =>
      simp only [stamp]
      exact ends (by rw [state]; rfl)

theorem inv_connect (stable : Stable P) (inv : Inv P net) (kernel : Nat → Bool) (pool : List Nat)
    (remoteIp : UInt32) (remotePort localPort : UInt16) (localIp : UInt32) :
    Inv P (tcpConnect kernel net pool remoteIp remotePort localPort localIp).1 := by
  simp only [tcpConnect]
  cases got : allocSocket net pool with
  | none => exact inv
  | some result =>
      obtain ⟨net', c⟩ := result
      obtain ⟨inv', _, empty⟩ := inv_alloc stable inv got
      have dialled := inv_set { net'.sockets c with
        remoteIp := remoteIp, localIp := localIp, remotePort := remotePort
        localPort := localPort, seqNum := 0, ackNum := 0, state := .synSent } inv'
        (stable.dialled 0 (inv' c) empty)
      have sent := inv_send (a := c) stable dialled kernel 0 flagSyn
      exact inv_set _ sent (sent c)

theorem inv_socket (stable : Stable P) (inv : Inv P net) (pool : List Nat) :
    Inv P (socketTcp4 net pool).1 := by
  simp only [socketTcp4]
  cases got : allocSocket net pool with
  | none => exact inv
  | some result =>
      obtain ⟨net', c⟩ := result
      obtain ⟨inv', _, _⟩ := inv_alloc stable inv got
      exact inv_set _ inv' (stable.parked .closed (inv' c) (Or.inl rfl))

theorem inv_reapOne (stable : Stable P) (inv : Inv P net) (kernel : Nat → Bool)
    (idleSecs : UInt32) (protect : Nat → Bool) (i : Nat) :
    Inv P (reapOne kernel idleSecs protect net i a).1 := by
  simp only [reapOne]
  generalize (if net.now ≥ (net.sockets a).lastActivity then _ else _ : UInt32) = idle
  split
  · exact inv
  split
  · split
    · exact inv_free stable inv
    · exact inv
  split
  · exact inv
  split
  · exact inv_free stable (inv_send stable inv kernel 0 flagRst)
  · exact inv_free stable inv

theorem inv_reap (stable : Stable P) (inv : Inv P net) (kernel : Nat → Bool) (pool : List Nat)
    (idleSecs : UInt32) (protect : Nat → Bool) :
    Inv P (socketReap kernel net pool idleSecs protect).1 := by
  simp only [socketReap]
  split
  case isTrue => exact inv
  case isFalse ticking =>
    clear ticking
    generalize pool.zipIdx = slots
    generalize (0 : UInt8) = freed
    induction slots generalizing net freed with
    | nil => exact inv
    | cons slot rest ih =>
        exact ih (inv_reapOne (a := slot.1) stable inv kernel idleSecs protect slot.2) _

theorem inv_initOne (stable : Stable P) (inv : Inv P net) (zero : ∀ {c l}, P c l →
      c.state = .closed → P { c with ackNum := 0 } l) (i : Nat) : Inv P (initOne net i a) := by
  have emptied := inv_buffer (a := a) (inv_set { net.sockets a with
    used := false, state := .closed, id := i, localPort := 0, remotePort := 0, rx := [] } inv
    (stable.freed (inv a))) none
  have cleared := inv_note .cleared emptied (by simpa only [after_cleared] using emptied a)
  refine inv_set _ cleared (zero (cleared a) ?_)
  rw [note_sockets, (buffer_sockets _ a none).1]
  simp [core]

end Keeps
end R2Apps.TcpHistory
