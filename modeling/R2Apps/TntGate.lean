import R2Apps.TntServer

/-! The login gate. As long as no SYN begins a connection in a slot whose session is
active, each connection is a `Talk` of its own: its session is what its own greeting
and its own bytes make it, and so are the logins it tried and the lines that were
dispatched. -/
namespace R2Apps.TntGate
open TntAuth TntSessions TcpSockets TcpHistory TcpSending TntServer
open WireBytes (ascii)

/-! What the TCP layer can do to the slots. -/

/-- No socket dials. -/
def Settled (net : Net) : Prop := ∀ a, (net.sockets a).state ≠ .synSent

def Open (net : Net) (a : Nat) : Prop :=
  (net.sockets a).used = true ∧ (net.sockets a).state = .established

/-- No connection begins. -/
structure Calm (net net' : Net) : Prop where
  settled : Settled net → Settled net'
  lives : ∀ a, lives net' a = lives net a
  opened : ∀ a, Open net' a → Open net a

/-- One connection begins. -/
structure Begun (c : Nat) (net net' : Net) : Prop where
  settled : Settled net → Settled net'
  first : lives net' c = lives net c + 1
  lives : ∀ a, a ≠ c → lives net' a = lives net a
  opened : ∀ a, a ≠ c → Open net' a → Open net a

theorem Calm.refl (net : Net) : Calm net net := ⟨id, fun _ => rfl, fun _ => id⟩

theorem Calm.trans {net net' net'' : Net} (first : Calm net net') (second : Calm net' net'') :
    Calm net net'' :=
  ⟨second.settled ∘ first.settled, fun a => (second.lives a).trans (first.lives a),
    fun a => first.opened a ∘ second.opened a⟩

theorem Begun.after {c : Nat} {net net' net'' : Net} (calm : Calm net net') (begun : Begun c net' net'') :
    Begun c net net'' where
  settled := begun.settled ∘ calm.settled
  first := by rw [begun.first, calm.lives]
  lives a apart := (begun.lives a apart).trans (calm.lives a)
  opened a apart := calm.opened a ∘ begun.opened a apart

theorem Begun.before {c : Nat} {net net' net'' : Net} (begun : Begun c net net') (calm : Calm net' net'') :
    Begun c net net'' where
  settled := calm.settled ∘ begun.settled
  first := by rw [calm.lives, begun.first]
  lives a apart := (calm.lives a).trans (begun.lives a apart)
  opened a apart := begun.opened a apart ∘ calm.opened a

section Sockets
variable {net : Net} {a : Nat}

theorem calm_only {net' : Net} (others : ∀ b, b ≠ a → net'.sockets b = net.sockets b)
    (settled : (net.sockets a).state ≠ .synSent → (net'.sockets a).state ≠ .synSent)
    (opened : Open net' a → Open net a) (log : ∀ b, lives net' b = lives net b) : Calm net net' := by
  refine ⟨?_, log, ?_⟩
  · intro before b
    by_cases hit : b = a
    · subst hit
      exact settled (before b)
    · rw [others b hit]
      exact before b
  · intro b
    by_cases hit : b = a
    · subst hit
      exact opened
    · rw [Open, others b hit]
      exact id

theorem lives_congr {net' : Net} (log : net'.log = net.log) (b : Nat) : lives net' b = lives net b := by
  rw [lives, lives, log]

theorem calm_set {sock : Socket} (settled : (net.sockets a).state ≠ .synSent → sock.state ≠ .synSent)
    (opened : sock.used = true → sock.state = .established → Open net a) : Calm net (net.set a sock) := by
  apply calm_only fun b apart => set_other net sock apart
  · simpa using settled
  · intro now
    simp only [Open, set_same] at now
    exact opened now.1 now.2
  · exact lives_congr rfl

theorem calm_attempt : Calm net { net with attempts := net.attempts + 1 } :=
  ⟨id, fun _ => rfl, fun _ => id⟩

variable {net' : Net}

theorem Calm.edit {sock : Socket} (used : sock.used = (net'.sockets a).used)
    (state : sock.state = (net'.sockets a).state) (calm : Calm net net') : Calm net (net'.set a sock) :=
  calm.trans (calm_set (fun settled => by rw [state]; exact settled) fun now open_ =>
    ⟨used ▸ now, state ▸ open_⟩)

theorem Calm.shut {sock : Socket} (settled : sock.state ≠ .synSent) (shut : sock.state ≠ .established)
    (calm : Calm net net') : Calm net (net'.set a sock) :=
  calm.trans (calm_set (fun _ => settled) fun _ open_ => absurd open_ shut)

theorem Calm.noted {e : TcpSockets.Event} (plain : ∀ irs, e ≠ .opened irs) (calm : Calm net net') :
    Calm net (net'.note a e) := by
  refine calm.trans ⟨id, ?_, fun _ => id⟩
  intro b
  cases e with
  | opened irs => exact absurd rfl (plain irs)
  | _ => simp [TntServer.lives, Net.note]

theorem Calm.sent {kernel : Nat → Bool} {len : Nat} {flags : UInt8} (calm : Calm net net') :
    Calm net (sendTcpPacket kernel net' a len flags) := by
  simp only [sendTcpPacket]
  split
  · exact calm.trans calm_attempt
  · refine Calm.edit rfl rfl ?_
    exact Calm.noted (fun _ same => TcpSockets.Event.noConfusion same) (calm.trans calm_attempt)

theorem Calm.rebound {buffer : Option Nat} (calm : Calm net net') :
    Calm net (tcpSetReceiveBuffer net' a buffer).1 := by
  obtain ⟨sockets, log⟩ := buffer_sockets net' a buffer
  refine calm.trans ⟨?_, lives_congr log, ?_⟩
  · simp only [Settled, sockets]
    exact id
  · simp only [Open, sockets]
    exact fun _ => id

theorem Calm.freed (calm : Calm net net') : Calm net (freeSocket net' a) := by
  apply Calm.rebound
  exact Calm.shut (by simp) (by simp) calm

theorem lives_alloc {c : Nat} (got : allocSocket net pool = some (net', c)) (b : Nat) :
    lives net' b = lives net b := by
  simp [lives, (alloc_log got).1]

theorem Calm.read {kernel : Nat → Bool} {maxlen : Nat} (calm : Calm net net') :
    Calm net (tcpRead kernel net' a maxlen).1 := by
  have taken (bytes : List UInt8) :
      Calm net ((net'.set a { net'.sockets a with rx := [] }).note a (.returned bytes)) := by
    apply Calm.noted (fun _ same => TcpSockets.Event.noConfusion same)
    exact Calm.edit rfl rfl calm
  simp only [tcpRead]
  split
  · exact (taken _).sent
  · exact taken _

theorem Calm.written {kernel : Nat → Bool} {len : Nat} (calm : Calm net net') :
    Calm net (tcpWrite kernel net' a len).1 := by
  simp only [tcpWrite]
  split
  · exact calm.sent
  · exact Calm.edit rfl rfl calm.sent

theorem Calm.closed {kernel : Nat → Bool} (calm : Calm net net') : Calm net (tcpClose kernel net' a) := by
  simp only [tcpClose]
  split
  · exact Calm.shut (by simp) (by simp) calm.sent
  · exact Calm.shut (by simp) (by simp) calm.sent
  · exact calm
  · exact calm.sent.freed
  · exact calm.freed

theorem calm_taken {c : Nat} {sock : Socket} (got : allocSocket net pool = some (net', c))
    (settled : sock.state ≠ .synSent)
    (shut : sock.state ≠ .established) : Calm net (net'.set c sock) := by
  obtain ⟨_, _, _, others⟩ := alloc_taken got
  refine calm_only (a := c) ?_ ?_ ?_ ?_
  · intro b apart
    rw [set_other _ _ apart, others b apart]
  · intro _
    simpa using settled
  · intro now
    simp only [Open, set_same] at now
    exact absurd now.2 shut
  · intro b
    exact (lives_congr (set_log net' c sock) b).trans (lives_alloc got b)

theorem begun_openPassive (net : Net) (kernel : Nat → Bool) (t : Segment) :
    Calm net (openPassive kernel net pool t) ∨
      ∃ c, slotTaken net pool = some c ∧ Begun c net (openPassive kernel net pool t) := by
  simp only [openPassive]
  cases got : allocSocket net pool with
  | none => exact Or.inl calm_attempt
  | some result =>
      obtain ⟨net', c⟩ := result
      obtain ⟨taken, _, _, others⟩ := alloc_taken got
      refine Or.inr ⟨c, taken, ?_⟩
      dsimp only
      apply Begun.before ?_ (Calm.edit ?_ ?_ (Calm.sent (Calm.refl _))) <;> try rfl
      have count (b : Nat) (sock : Socket) : lives ((net'.set c sock).note c (.opened t.seqNum)) b =
          lives net b + if b = c then 1 else 0 := by
        rw [← lives_alloc got b]
        simp only [lives, note_log, set_log, List.countP_append, List.countP_singleton]
        by_cases hit : b = c
        · simp [hit]
        · simp [hit, Ne.symm hit]
      refine ⟨?_, ?_, ?_, ?_⟩
      · intro before b
        by_cases hit : b = c
        · subst hit
          simp
        · rw [note_sockets, set_other _ _ hit, others b hit]
          exact before b
      · rw [count, if_pos rfl]
      · intro b apart
        rw [count, if_neg apart, Nat.add_zero]
      · intro b apart now
        rw [Open, note_sockets, set_other _ _ apart, others b apart] at now
        exact now

theorem calm_repeat (kernel : Nat → Bool) (t : Segment) : Calm net (repeatSynAck kernel net a t) := by
  simp only [repeatSynAck]
  refine Calm.edit rfl rfl ?_
  apply Calm.sent
  apply Calm.noted (fun _ same => TcpSockets.Event.noConfusion same)
  exact Calm.edit rfl rfl (Calm.refl net)

theorem calm_finWait (kernel : Nat → Bool) (t : Segment) : Calm net (onFinWait kernel net a t) := by
  simp only [onFinWait]
  split
  · exact (Calm.refl net).freed
  · have heard : Calm net (net.note a (.heard (t.has flagAck) t.ackNum)) :=
      Calm.noted (fun _ same => TcpSockets.Event.noConfusion same) (Calm.refl net)
    split
    · apply Calm.freed
      apply Calm.sent
      apply Calm.noted (fun _ same => TcpSockets.Event.noConfusion same)
      refine Calm.edit rfl rfl ?_
      exact Calm.edit rfl rfl heard
    · exact Calm.edit rfl rfl heard

theorem calm_noteAck (t : Segment) : Calm net (noteAck net a t) := by
  have heard : Calm net (net.note a (.heard (t.has flagAck) t.ackNum)) :=
    Calm.noted (fun _ same => TcpSockets.Event.noConfusion same) (Calm.refl net)
  simp only [noteAck]
  split <;> exact Calm.edit rfl rfl heard

theorem calm_takeData (kernel : Nat → Bool) (t : Segment) : Calm net (takeData kernel net a t) := by
  simp only [takeData]
  split
  · exact Calm.refl net
  · apply Calm.sent
    split
    · apply Calm.noted (fun _ same => TcpSockets.Event.noConfusion same)
      exact Calm.edit rfl rfl (Calm.refl net)
    · exact Calm.refl net

theorem calm_takeFin (kernel : Nat → Bool) (t : Segment) : Calm net (takeFin kernel net a t) := by
  have answered : Calm net (sendTcpPacket kernel
      ((net.set a { net.sockets a with ackNum := t.seqNum + t.dataLen + 1 }).note a
        (.finished (t.seqNum + t.dataLen))) a 0 flagAck) := by
    apply Calm.sent
    apply Calm.noted (fun _ same => TcpSockets.Event.noConfusion same)
    exact Calm.edit rfl rfl (Calm.refl net)
  simp only [takeFin]
  split
  · split
    · exact answered.freed
    · exact Calm.shut (by simp) (by simp) answered
  · exact Calm.refl net

theorem begun_listenSyn (kernel : Nat → Bool) (l : Nat) (t : Segment)
    (routed : route net pool t = some (l, .listenSyn)) :
    Calm net (onListenSyn kernel net pool l t) ∨
      ∃ c, beginsIn net t = some c ∧ Begun c net (onListenSyn kernel net pool l t) := by
  simp only [onListenSyn, beginsIn, routed]
  cases findConn net pool t l with
  | none => exact begun_openPassive net kernel t
  | some d =>
      dsimp only
      by_cases retransmitted : untouched (net.sockets d) = true
      · rw [if_pos retransmitted]
        exact Or.inl (calm_repeat kernel t)
      · rw [if_neg retransmitted, if_neg retransmitted]
        have freed : Calm net (freeSocket net d) := (Calm.refl net).freed
        have next := begun_openPassive (freeSocket net d) kernel t
        rcases next with calm | ⟨c, taken, begun⟩
        · exact Or.inl (freed.trans calm)
        · exact Or.inr ⟨c, taken, begun.after freed⟩

theorem packet_cases (kernel : Nat → Bool) (t : Segment) (settled : Settled net) :
    Calm net (onTcpPacket kernel net pool t) ∨
      ∃ c, beginsIn net t = some c ∧ Begun c net (onTcpPacket kernel net pool t) := by
  unfold onTcpPacket
  cases routed : route net pool t with
  | none => exact Or.inl (Calm.refl net)
  | some found =>
      obtain ⟨b, branch⟩ := found
      have state := (classify_state (route_classify routed)).2
      cases branch with
      | listenSyn => exact begun_listenSyn kernel b t routed
      | synSentReset => exact absurd state (settled b)
      | challenge => exact absurd state (settled b)
      | synAck => exact absurd state (settled b)
      | finWait => exact Or.inl (calm_finWait kernel t)
      | opened =>
          left
          simp only [onOpened]
          split
          · exact (Calm.refl net).freed
          · exact ((calm_noteAck t).trans (calm_takeData kernel t)).trans (calm_takeFin kernel t)

theorem calm_abort (w : World) (net : Net) (a : Nat) : Calm net (abortConn w net a) := by
  simp only [abortConn]
  split
  · exact (Calm.refl net).sent.freed
  · exact Calm.refl net

theorem calm_endData (w : World) (l : Nat) (port : UInt16) (conn : Option Nat) :
    Calm net (endData w net l port conn) := by
  simp only [endData]
  apply Calm.freed
  generalize pool = slots
  induction slots generalizing net with
  | nil => exact Calm.refl net
  | cons b rest ih =>
      rw [List.foldl_cons]
      refine Calm.trans ?_ ih
      split
      · exact calm_abort w net b
      · exact Calm.refl net

end Sockets

/-! What the log says of one connection. -/

def typedAt (a e : Nat) : TntServer.Event → Option (UInt8 × Bytes)
  | .typed b life byte file => if b = a ∧ life = e then some (byte, file) else none
  | _ => none

def cameAt (a e : Nat) : TntServer.Event → Option Outcome
  | .came b life outcome => if b = a ∧ life = e then some outcome else none
  | _ => none

/-- The bytes the connection typed, with what `SESSION.CFG` held at each. -/
def typedOf (log : List TntServer.Event) (a e : Nat) : List (UInt8 × Bytes) := log.filterMap (typedAt a e)

def outcomesOf (log : List TntServer.Event) (a e : Nat) : List Outcome := log.filterMap (cameAt a e)

/-- Each connection is the `Talk` its greeting and its own bytes make, its session
included, and what is written into a slot is meant for the connection there. -/
structure Separate (s : Server) : Prop where
  told : ∀ a e r, .greeted a e r ∈ s.log →
    outcomesOf s.log a e = (talk r (typedOf s.log a e)).outcomes
  own : ∀ a, (s.sessions a).active = true → ∃ r, .greeted a (lives s.net a) r ∈ s.log ∧
    Alike (talk r (typedOf s.log a (lives s.net a))).session (s.sessions a)
  written : ∀ a e bytes, .wrote a e bytes ∈ s.log → ∀ x ∈ bytes, x.1 = e

/-- `closing` is the slot of a connection that is about to be hung up. -/
structure Good (closing : Option Nat) (s : Server) : Prop where
  separate : Separate s
  settled : Settled s.net
  past : ∀ a e r, .greeted a e r ∈ s.log → e ≤ lives s.net a
  fresh : ∀ a, Open s.net a → (s.sessions a).active = false → ∀ r, .greeted a (lives s.net a) r ∉ s.log
  silent : ∀ a e, (∀ r, .greeted a e r ∉ s.log) → typedOf s.log a e = [] ∧ outcomesOf s.log a e = []
  once : ∀ a e r r', .greeted a e r ∈ s.log → .greeted a e r' ∈ s.log → r = r'
  going : ∀ a r, (s.sessions a).active = true → closing ≠ some a → .greeted a (lives s.net a) r ∈ s.log →
    (talk r (typedOf s.log a (lives s.net a))).ended = false

/-- What waits in `out_buf` is meant for the connection in the slot it goes to. -/
def Buffered (s : Server) : Prop :=
  s.outBuf = [] ∨ ∃ a, s.outSock = some a ∧ (s.sessions a).active = true ∧
    ∀ x ∈ s.outBuf, x.1 = lives s.net a

/-- What the code does for the `life`-th connection of the slot. -/
structure Acting (closing : Option Nat) (a life : Nat) (s : Server) : Prop where
  good : Good closing s
  buffered : Buffered s
  active : (s.sessions a).active = true
  life : lives s.net a = life

/-- Nothing but calm and well-meant writes. -/
structure Still (s s' : Server) : Prop where
  net : Calm s.net s'.net
  sessions : s'.sessions = s.sessions
  log : ∃ more, s'.log = s.log ++ more ∧ ∀ x ∈ more, ∃ a bytes,
    x = .wrote a (lives s.net a) bytes ∧ ∀ y ∈ bytes, y.1 = lives s.net a
  clash : s'.clash = s.clash

theorem Still.refl (s : Server) : Still s s := ⟨Calm.refl _, rfl, ⟨[], by simp⟩, rfl⟩

theorem Still.trans {s s' s'' : Server} (first : Still s s') (second : Still s' s'') : Still s s'' := by
  obtain ⟨more, log, meant⟩ := first.log
  obtain ⟨more', log', meant'⟩ := second.log
  refine ⟨first.net.trans second.net, second.sessions.trans first.sessions, ⟨more ++ more', ?_, ?_⟩,
    second.clash.trans first.clash⟩
  · rw [log', log, List.append_assoc]
  · intro x member
    rcases List.mem_append.mp member with old | new
    · exact meant x old
    · obtain ⟨a, bytes, same, tags⟩ := meant' x new
      rw [first.net.lives] at same tags
      exact ⟨a, bytes, same, tags⟩

section Frames
variable {closing : Option Nat} {s s' : Server}

theorem still_typed (still : Still s s') (a e : Nat) : typedOf s'.log a e = typedOf s.log a e := by
  obtain ⟨more, log, meant⟩ := still.log
  have nothing : more.filterMap (typedAt a e) = [] := by
    rw [List.filterMap_eq_nil_iff]
    intro x member
    obtain ⟨b, bytes, rfl, _⟩ := meant x member
    rfl
  rw [typedOf, log, List.filterMap_append, nothing, List.append_nil]
  rfl

theorem still_outcomes (still : Still s s') (a e : Nat) :
    outcomesOf s'.log a e = outcomesOf s.log a e := by
  obtain ⟨more, log, meant⟩ := still.log
  have nothing : more.filterMap (cameAt a e) = [] := by
    rw [List.filterMap_eq_nil_iff]
    intro x member
    obtain ⟨b, bytes, rfl, _⟩ := meant x member
    rfl
  rw [outcomesOf, log, List.filterMap_append, nothing, List.append_nil]
  rfl

theorem still_greeted (still : Still s s') (a e : Nat) (r : Bool) :
    .greeted a e r ∈ s'.log ↔ .greeted a e r ∈ s.log := by
  obtain ⟨more, log, meant⟩ := still.log
  rw [log, List.mem_append]
  constructor
  · rintro (old | new)
    · exact old
    · obtain ⟨b, bytes, same, _⟩ := meant _ new
      exact absurd same (by simp)
  · exact Or.inl

theorem good_still (good : Good closing s) (still : Still s s') : Good closing s' := by
  have greeted := still_greeted still
  refine ⟨⟨?_, ?_, ?_⟩, still.net.settled good.settled, ?_, ?_, ?_, ?_, ?_⟩
  · intro a e r there
    rw [still_outcomes still, still_typed still]
    exact good.separate.told a e r ((greeted a e r).mp there)
  · intro a active
    rw [still.sessions] at active ⊢
    obtain ⟨r, there, alike⟩ := good.separate.own a active
    refine ⟨r, ?_, ?_⟩
    · rw [greeted, still.net.lives]
      exact there
    · rw [still_typed still, still.net.lives]
      exact alike
  · intro a e bytes there
    obtain ⟨more, log, meant⟩ := still.log
    rw [log] at there
    rcases List.mem_append.mp there with old | new
    · exact good.separate.written a e bytes old
    · obtain ⟨b, bytes', same, tags⟩ := meant _ new
      cases same
      exact tags
  · intro a e r there
    rw [still.net.lives]
    exact good.past a e r ((greeted a e r).mp there)
  · intro a open_ idle r
    rw [still.sessions] at idle
    rw [greeted, still.net.lives]
    exact good.fresh a (still.net.opened a open_) idle r
  · intro a e none_
    rw [still_outcomes still, still_typed still]
    exact good.silent a e fun r there => none_ r ((greeted a e r).mpr there)
  · intro a e r r' there there'
    exact good.once a e r r' ((greeted a e r).mp there) ((greeted a e r').mp there')
  · intro a r active apart there
    rw [still.sessions] at active
    rw [greeted, still.net.lives] at there
    rw [still_typed still, still.net.lives]
    exact good.going a r active apart there

theorem still_net (calm : Calm s.net s'.net) (sessions : s'.sessions = s.sessions)
    (log : s'.log = s.log) (clash : s'.clash = s.clash) : Still s s' :=
  ⟨calm, sessions, ⟨[], by simp [log]⟩, clash⟩

theorem buffered_still (buffered : Buffered s) (still : Still s s') (buf : s'.outBuf = s.outBuf)
    (sock : s'.outSock = s.outSock) : Buffered s' := by
  rcases buffered with empty | ⟨a, there, active, meant⟩
  · exact Or.inl (buf.trans empty)
  · refine Or.inr ⟨a, sock.trans there, ?_, ?_⟩
    · rw [still.sessions]
      exact active
    · rw [buf, still.net.lives]
      exact meant

theorem acting_still {a life : Nat} (acting : Acting closing a life s) (still : Still s s')
    (buffered : Buffered s') : Acting closing a life s' where
  good := good_still acting.good still
  buffered := buffered
  active := by
    rw [still.sessions]
    exact acting.active
  life := by rw [still.net.lives, acting.life]

/-- Unless a connection was begun over an active session. -/
def Acts (closing : Option Nat) (a life : Nat) (s : Server) : Prop :=
  s.clash = false → Acting closing a life s

theorem acts_net {a life : Nat} (acts : Acts closing a life s) (calm : Calm s.net s'.net)
    (sessions : s'.sessions = s.sessions) (log : s'.log = s.log) (clash : s'.clash = s.clash)
    (buf : s'.outBuf = s.outBuf) (sock : s'.outSock = s.outSock) : Acts closing a life s' := by
  intro clear
  have acting := acts (clash ▸ clear)
  have still := still_net calm sessions log clash
  exact acting_still acting still (buffered_still acting.buffered still buf sock)

/-! Output. -/

variable {w : World}

theorem still_write {a : Nat} {bytes : List (Nat × UInt8)} (meant : ∀ x ∈ bytes, x.1 = lives s.net a) :
    Still s (write w s a bytes) :=
  ⟨(Calm.refl _).written, rfl, ⟨_, rfl, fun _ member =>
    ⟨a, bytes, List.mem_singleton.mp member, meant⟩⟩, rfl⟩

theorem tagged (life : Nat) (text : Bytes) : ∀ x ∈ text.map (life, ·), x.1 = life := by
  intro x member
  obtain ⟨_, _, rfl⟩ := List.mem_map.mp member
  rfl

theorem acts_say {a life : Nat} (acts : Acts closing a life s) (text : Bytes) :
    Acts closing a life (say w a life s text) := by
  intro clear
  have acting := acts clear
  have still : Still s (say w a life s text) := by
    apply still_write
    rw [acting.life]
    exact tagged life text
  exact acting_still acting still (buffered_still acting.buffered still rfl rfl)

theorem acts_says {a life : Nat} (acts : Acts closing a life s) (texts : List Bytes) :
    Acts closing a life (texts.foldl (say w a life) s) := by
  induction texts generalizing s with
  | nil => exact acts
  | cons text rest ih => exact ih (acts_say acts text)

theorem says_outBuf (a life : Nat) (s : Server) (texts : List Bytes) :
    (texts.foldl (say w a life) s).outBuf = s.outBuf := by
  induction texts generalizing s with
  | nil => rfl
  | cons text rest ih => exact ih (say w a life s text)

theorem flush_clash : (shellFlush w s).clash = s.clash := by
  unfold shellFlush
  dsimp only
  split
  · split <;> rfl
  · rfl

theorem flush_sock : (shellFlush w s).outSock = s.outSock := by
  unfold shellFlush
  dsimp only
  split
  · split <;> rfl
  · rfl

theorem still_flush (buffered : Buffered s) : Still s (shellFlush w s) := by
  have emptied (s' : Server) (still : Still s s') : Still s { s' with outBuf := [] } :=
    still.trans (still_net (Calm.refl _) rfl rfl rfl)
  unfold shellFlush
  dsimp only
  split
  · rename_i a sock
    split
    · exact emptied s (Still.refl s)
    · rename_i some_
      rcases buffered with empty | ⟨b, there, _, meant⟩
      · exact absurd (by rw [empty]; rfl) some_
      · cases sock.symm.trans there
        exact emptied _ (still_write meant)
  · exact emptied s (Still.refl s)

theorem acts_flush {a life : Nat} (acts : Acts closing a life s) : Acts closing a life (shellFlush w s) := by
  intro clear
  have acting := acts (flush_clash.symm.trans clear)
  exact acting_still acting (still_flush acting.buffered) (Or.inl rfl)

/-- The buffer is for the slot that is acted for. -/
def Gathers (closing : Option Nat) (a life : Nat) (s : Server) : Prop :=
  Acts closing a life s ∧ s.outSock = some a

theorem gathers_byte {a life : Nat} (gathers : Gathers closing a life s) {x : Nat × UInt8}
    (meant : x.1 = life) : Gathers closing a life (outByte w s x) := by
  have appended {s : Server} (gathers : Gathers closing a life s) :
      Gathers closing a life { s with outBuf := s.outBuf ++ [x] } := by
    refine ⟨?_, gathers.2⟩
    intro clear
    have acting := gathers.1 clear
    refine acting_still acting (still_net (Calm.refl _) rfl rfl rfl)
      (Or.inr ⟨a, gathers.2, acting.active, ?_⟩)
    intro y member
    rcases List.mem_append.mp member with old | new
    · rcases acting.buffered with empty | ⟨b, there, _, tags⟩
      · rw [empty] at old
        exact absurd old List.not_mem_nil
      · cases gathers.2.symm.trans there
        exact tags y old
    · rw [List.mem_singleton.mp new, meant]
      exact acting.life.symm
  simp only [outByte]
  split
  · exact appended ⟨acts_flush gathers.1, flush_sock.trans gathers.2⟩
  · exact appended gathers

theorem gathers_bytes {a life : Nat} (bytes : List (Nat × UInt8)) (gathers : Gathers closing a life s)
    (meant : ∀ x ∈ bytes, x.1 = life) : Gathers closing a life (bytes.foldl (outByte w) s) := by
  induction bytes generalizing s with
  | nil => exact gathers
  | cons x rest ih =>
      exact ih (gathers_byte gathers (meant x List.mem_cons_self)) fun y member =>
        meant y (List.mem_cons_of_mem _ member)

theorem acts_out {a life : Nat} (acts : Acts closing a life s) (text : Bytes) :
    Acts closing a life (out w a life s text) := by
  simp only [out]
  refine (gathers_bytes _ ?_ (tagged life text)).1
  split
  · refine ⟨?_, rfl⟩
    intro clear
    have acting := acts_flush acts clear
    exact acting_still acting (still_net (Calm.refl _) rfl rfl rfl) (Or.inl rfl)
  · rename_i same
    exact ⟨acts, not_not.mp same⟩

theorem acts_prompt {a life : Nat} (acts : Acts closing a life s) :
    Acts closing a life (shellPrompt w a life s) := by
  have counted : Acts closing a life { s with calls := s.calls + 1 } :=
    acts_net acts (Calm.refl _) rfl rfl rfl rfl rfl
  exact acts_out counted _

/-! Packets. -/

theorem packet_lives (settled : Settled s.net) {t : Segment} (clear : (onPacket w s t).clash = false)
    {a : Nat} (active : (s.sessions a).active = true) :
    lives (onPacket w s t).net a = lives s.net a := by
  rcases packet_cases w.kernel t settled with calm | ⟨c, begins, begun⟩
  · exact calm.lives a
  · apply begun.lives a
    rintro rfl
    simp [onPacket, begins, active] at clear

theorem good_packet (good : Good closing s) {t : Segment} (clear : (onPacket w s t).clash = false) :
    Good closing (onPacket w s t) := by
  rcases packet_cases w.kernel t good.settled with calm | ⟨c, begins, begun⟩
  · have before : s.clash = false := by
      simp only [onPacket, Bool.or_eq_false_iff] at clear
      exact clear.1
    exact good_still good (still_net calm rfl rfl (clear.trans before.symm))
  · have idle : (s.sessions c).active = false := by
      simp only [onPacket, begins, Bool.or_eq_false_iff] at clear
      exact clear.2
    have kept (a : Nat) (active : (s.sessions a).active = true) :
        lives (onPacket w s t).net a = lives s.net a := packet_lives good.settled clear active
    refine ⟨⟨good.separate.told, ?_, good.separate.written⟩, begun.settled good.settled, ?_, ?_,
      good.silent, good.once, ?_⟩
    · intro a active
      rw [kept a active]
      exact good.separate.own a active
    · intro a e r there
      have old := good.past a e r there
      by_cases hit : a = c
      · subst hit
        exact Nat.le_trans old (begun.first ▸ Nat.le_succ _)
      · exact (begun.lives a hit).symm ▸ old
    · intro a open_ quiet r there
      by_cases hit : a = c
      · -- the new connection's number is greater than any before
        subst hit
        have old := good.past a _ r there
        rw [show lives (onPacket w s t).net a = lives s.net a + 1 from begun.first] at old
        omega
      · rw [show lives (onPacket w s t).net a = lives s.net a from begun.lives a hit] at there
        exact good.fresh a (begun.opened a hit open_) quiet r there
    · intro a r active apart there
      rw [kept a active] at there ⊢
      exact good.going a r active apart there

theorem acts_packet {a life : Nat} (acts : Acts closing a life s) (t : Segment) :
    Acts closing a life (onPacket w s t) := by
  intro clear
  have before : s.clash = false := by
    simp only [onPacket, Bool.or_eq_false_iff] at clear
    exact clear.1
  have acting := acts before
  have kept := fun b => packet_lives (w := w) (t := t) (a := b) acting.good.settled clear
  refine ⟨good_packet acting.good clear, ?_, acting.active, ?_⟩
  · rcases acting.buffered with empty | ⟨b, there, active, meant⟩
    · exact Or.inl empty
    · exact Or.inr ⟨b, there, active, fun x member => (meant x member).trans (kept b active).symm⟩
  · rw [kept a acting.active, acting.life]

theorem acts_answerFin {a life : Nat} (acts : Acts closing a life s) (p : Peer) (t : Segment) :
    Acts closing a life (answerFin w s p t) := by
  simp only [answerFin]
  split
  · exact acts
  · split
    · refine acts_net acts ?_ rfl rfl rfl rfl rfl
      apply Calm.sent
      exact Calm.shut (by simp) (by simp) (Calm.refl _)
    · split
      · exact acts_net acts (Calm.refl _).sent rfl rfl rfl rfl rfl
      · exact acts

theorem acts_pump {a life : Nat} (acts : Acts closing a life s) (packet : Option Segment) :
    Acts closing a life (pump w s packet) := by
  have watched {s' : Server} (acts' : Acts closing a life s') (p : Option Peer) :
      Acts closing a life { s' with peer := p } := acts_net acts' (Calm.refl _) rfl rfl rfl rfl rfl
  unfold pump
  split
  · exact acts
  · exact watched acts _
  · exact acts_packet acts _
  · dsimp only
    split
    · exact watched (acts_answerFin (acts_packet acts _) _ _) _
    · exact watched (acts_packet acts _) _

/-! Commands. -/

theorem acts_onData {a life : Nat} (acts : Acts closing a life s) {f : Net → Nat → Net}
    (calm : ∀ net c, Calm net (f net c)) : Acts closing a life (onData s f) := by
  simp only [onData]
  split
  · split
    · exact acts
    · exact acts_net acts (calm _ _) rfl rfl rfl rfl rfl
  · exact acts

theorem acts_perform {a life : Nat} (acts : Acts closing a life s) (action : Action) :
    Acts closing a life (perform w a life s action) := by
  have quietly {s' : Server} (calm : Calm s.net s'.net) (sessions : s'.sessions = s.sessions)
      (log : s'.log = s.log) (clash : s'.clash = s.clash) (buf : s'.outBuf = s.outBuf)
      (sock : s'.outSock = s.outSock) : Acts closing a life s' :=
        acts_net acts calm sessions log clash buf sock
  cases action with
  | put text => exact acts_out acts text
  | flush => exact acts_flush acts
  | pump packet => exact acts_pump acts packet
  | cancel =>
      simp only [perform]
      split
      · exact quietly (Calm.edit rfl rfl (Calm.refl _)) rfl rfl rfl rfl rfl
      · exact acts
  | openData port =>
      simp only [perform, socketTcp4]
      split
      · exact acts
      · cases got : allocSocket s.net pool with
        | none => exact quietly (Calm.refl _) rfl rfl rfl rfl rfl
        | some result =>
            obtain ⟨net', l⟩ := result
            refine quietly ?_ rfl rfl rfl rfl rfl
            refine Calm.shut (by simp) (by simp) ?_
            refine Calm.edit rfl rfl ?_
            exact calm_taken got (by simp) (by simp)
  | pickClient =>
      simp only [perform]
      split
      · exact acts
      · split
        · exact acts
        · exact quietly (Calm.refl _) rfl rfl rfl rfl rfl
  | dropRequest => exact acts_onData acts fun net c => Calm.edit rfl rfl (Calm.refl net)
  | seek seq => exact acts_onData acts fun net c => Calm.edit rfl rfl (Calm.refl net)
  | sendData len => exact acts_onData acts fun net c => (Calm.refl net).written
  | closeData => exact acts_onData acts fun net c => (Calm.refl net).closed
  | resendFin => exact acts_onData acts fun net c => (Calm.refl net).sent
  | freeData => exact acts_onData acts fun net c => (Calm.refl net).freed
  | abortData => exact acts_onData acts (calm_abort w)
  | endData =>
      simp only [perform]
      split
      · exact acts
      · exact quietly (calm_endData w _ _ _) rfl rfl rfl rfl rfl
  | watchSelf => exact quietly (Calm.refl _) rfl rfl rfl rfl rfl
  | stream bytes =>
      simp only [perform]
      split
      · split
        · exact acts_say acts bytes
        · exact acts
      · exact acts
  | unwatch => exact quietly (Calm.refl _) rfl rfl rfl rfl rfl

theorem acts_dispatch {a life : Nat} (acts : Acts closing a life s) :
    Acts closing a life (shellDispatch w a life s).1 := by
  simp only [shellDispatch]
  have begun : Acts closing a life { s with calls := s.calls + 1 } :=
    acts_net acts (Calm.refl _) rfl rfl rfl rfl rfl
  generalize (w.command s.calls).actions = actions
  generalize ({ s with calls := s.calls + 1 } : Server) = s' at begun
  induction actions generalizing s' with
  | nil => exact begun
  | cons action rest ih => exact ih _ (acts_perform begun action)

/-! The main loop. -/

/-- Between the connections: nothing waits to be written. -/
def Rests (s : Server) : Prop := s.outBuf = [] ∧ (s.clash = false → Good none s)

theorem good_over (good : Good none s) (closing : Option Nat) : Good closing s :=
  { good with going := fun a r active _ => good.going a r active (by simp) }

theorem good_idle {i : Nat} {sess : Session} (good : Good (some i) s) (shut : ¬ Open s.net i)
    (idle : sess.active = false) : Good none (s.setSession i sess) := by
  have other {a : Nat} (active : ((s.setSession i sess).sessions a).active = true) :
      a ≠ i ∧ (s.setSession i sess).sessions a = s.sessions a := by
    by_cases hit : a = i
    · subst hit
      simp [Server.setSession, idle] at active
    · exact ⟨hit, Function.update_of_ne hit _ _⟩
  refine ⟨⟨good.separate.told, ?_, good.separate.written⟩, good.settled, good.past, ?_, good.silent,
    good.once, ?_⟩
  · intro a active
    obtain ⟨_, same⟩ := other active
    rw [same] at active ⊢
    exact good.separate.own a active
  · intro a open_ quiet
    by_cases hit : a = i
    · subst hit
      exact absurd open_ shut
    · rw [show (s.setSession i sess).sessions a = s.sessions a from Function.update_of_ne hit _ _] at quiet
      exact good.fresh a open_ quiet
  · intro a r active _
    obtain ⟨apart, same⟩ := other active
    rw [same] at active
    exact good.going a r active fun hit => apart (Option.some.inj hit).symm

theorem close_shut (kernel : Nat → Bool) (net : Net) (a : Nat) : ¬ Open (tcpClose kernel net a) a := by
  intro open_
  simp only [tcpClose, Open] at open_
  split at open_
  · simp at open_
  · simp at open_
  · rename_i state
    exact absurd (state.symm.trans open_.2) (by simp)
  · simp [free_self] at open_
  · simp [free_self] at open_

theorem rests_hangUp {a life : Nat} (acts : Acts (some a) a life s) (empty : s.outBuf = []) :
    Rests (hangUp w a s) := by
  refine ⟨empty, ?_⟩
  intro clear
  have closed : Acts (some a) a life { s with net := tcpClose w.kernel s.net a } :=
    acts_net acts (Calm.refl _).closed rfl rfl rfl rfl rfl
  exact good_idle (closed clear).good (close_shut w.kernel s.net a) rfl

theorem lineByte_active {check : Bytes → Bytes → Bool} (sess : Session) (b : UInt8) :
    (lineByte check sess b).1.active = sess.active := by
  have asked (sess' : Session) : (authLine check sess').1.active = sess'.active := by
    unfold authLine
    dsimp only
    repeat' split
    all_goals rfl
  unfold lineByte
  dsimp only
  repeat' split
  all_goals first | rfl | exact asked _

theorem takeByte_active {check : Bytes → Bytes → Bool} (sess : Session) (b : UInt8) :
    (takeByte check sess b).1.active = sess.active := by
  have first : (telnetByte sess b).1.active = sess.active := by
    unfold telnetByte
    cases sess.iacState <;> dsimp only <;> repeat' split
    all_goals rfl
  unfold takeByte
  generalize telnetByte sess b = result at *
  obtain ⟨next, taken, reply⟩ := result
  cases taken with
  | true => exact first
  | false => exact (lineByte_active next b).trans first

/-- The server after a byte was taken, before anything is written. -/
def took (a life : Nat) (s : Server) (b : UInt8) (file : Bytes) : Server :=
  let (sess, effect) := takeByte (authCheck file) (s.sessions a) b
  let s := { s with calls := s.calls + 1 }.setSession a sess
  { s with log := s.log ++ .typed a life b file :: (effect.outcome.map (.came a life)).toList }

/-- The slot whose connection the byte ends, if it does. -/
def ended (a : Nat) (s : Server) (b : UInt8) (file : Bytes) : Option Nat :=
  let (sess, effect) := takeByte (authCheck file) (s.sessions a) b
  if effect.quits sess then some a else none

theorem took_typed (a life : Nat) (b : UInt8) (file : Bytes) (a' e : Nat) :
    typedOf (took a life s b file).log a' e =
      typedOf s.log a' e ++ if a = a' ∧ life = e then [(b, file)] else [] := by
  simp only [took, typedOf, List.filterMap_append]
  congr 1
  cases (takeByte (authCheck file) (s.sessions a) b).2.outcome with
  | none => by_cases here : a = a' ∧ life = e <;> simp [typedAt, here]
  | some outcome => by_cases here : a = a' ∧ life = e <;> simp [typedAt, here]

theorem took_outcomes (a life : Nat) (b : UInt8) (file : Bytes) (a' e : Nat) :
    outcomesOf (took a life s b file).log a' e = outcomesOf s.log a' e ++
      if a = a' ∧ life = e then (takeByte (authCheck file) (s.sessions a) b).2.outcome.toList else [] := by
  simp only [took, outcomesOf, List.filterMap_append]
  congr 1
  cases (takeByte (authCheck file) (s.sessions a) b).2.outcome with
  | none => by_cases here : a = a' ∧ life = e <;> simp [List.filterMap_cons, cameAt, here]
  | some outcome => by_cases here : a = a' ∧ life = e <;> simp [List.filterMap_cons, cameAt, here]

theorem took_greeted (a life : Nat) (b : UInt8) (file : Bytes) (a' e : Nat) (r : Bool) :
    .greeted a' e r ∈ (took a life s b file).log ↔ .greeted a' e r ∈ s.log := by
  simp only [took, List.mem_append, List.mem_cons]
  cases (takeByte (authCheck file) (s.sessions a) b).2.outcome <;> simp [Server.setSession]

theorem took_wrote (a life : Nat) (b : UInt8) (file : Bytes) (a' e : Nat) (bytes : List (Nat × UInt8)) :
    .wrote a' e bytes ∈ (took a life s b file).log ↔ .wrote a' e bytes ∈ s.log := by
  simp only [took, List.mem_append, List.mem_cons]
  cases (takeByte (authCheck file) (s.sessions a) b).2.outcome <;> simp [Server.setSession]

theorem took_session (a life : Nat) (b : UInt8) (file : Bytes) (a' : Nat) :
    (took a life s b file).sessions a' =
      if a' = a then (takeByte (authCheck file) (s.sessions a) b).1 else s.sessions a' := by
  by_cases hit : a' = a
  · subst hit
    simp [took, Server.setSession]
  · simp [took, Server.setSession, hit]

theorem quits_alike {sess sess' : Session} {effect : Effect} (alike : Alike sess sess') :
    effect.quits sess' = effect.quits sess := by
  obtain ⟨verb, rfl, _⟩ := alike
  rfl

theorem took_elsewhere {a a' life e : Nat} (b : UInt8) (file : Bytes) (apart : ¬ (a = a' ∧ life = e)) :
    typedOf (took a life s b file).log a' e = typedOf s.log a' e ∧
      outcomesOf (took a life s b file).log a' e = outcomesOf s.log a' e := by
  rw [took_typed, took_outcomes, if_neg apart, if_neg apart, List.append_nil, List.append_nil]
  exact ⟨rfl, rfl⟩

section Took
variable {a : Nat} {r : Bool}

theorem took_talk (acting : Acting none a (lives s.net a) s) (b : UInt8) (file : Bytes)
    (hello : .greeted a (lives s.net a) r ∈ s.log)
    (alike : Alike (talk r (typedOf s.log a (lives s.net a))).session (s.sessions a)) :
    talk r (typedOf (took a (lives s.net a) s b file).log a (lives s.net a)) =
      ⟨(takeByte (authCheck file) (talk r (typedOf s.log a (lives s.net a))).session b).1,
        (talk r (typedOf s.log a (lives s.net a))).outcomes ++
          (takeByte (authCheck file) (s.sessions a) b).2.outcome.toList,
        (takeByte (authCheck file) (s.sessions a) b).2.quits
          (takeByte (authCheck file) (talk r (typedOf s.log a (lives s.net a))).session b).1⟩ := by
  have going := acting.good.going a r acting.active (by simp) hello
  have effect : _ = (takeByte (authCheck file) _ b).2 := (takeByte_alike alike b).2
  rw [took_typed, if_pos ⟨rfl, rfl⟩, talk_append]
  simp only [Talk.next, going, Bool.false_eq_true, if_false, effect]

theorem took_separate (acting : Acting none a (lives s.net a) s) (b : UInt8) (file : Bytes)
    (hello : .greeted a (lives s.net a) r ∈ s.log)
    (alike : Alike (talk r (typedOf s.log a (lives s.net a))).session (s.sessions a)) :
    Separate (took a (lives s.net a) s b file) := by
  have good := acting.good
  have next := took_talk acting b file hello alike
  have greetings := took_greeted (s := s) a (lives s.net a) b file
  have session (a' : Nat) := took_session (s := s) a (lives s.net a) b file a'
  refine ⟨?_, ?_, ?_⟩
  · intro a' e r' there
    rw [greetings] at there
    by_cases mine : a = a' ∧ lives s.net a = e
    · obtain ⟨rfl, rfl⟩ := mine
      cases good.once _ _ _ _ there hello
      rw [next, took_outcomes, if_pos ⟨rfl, rfl⟩, good.separate.told _ _ _ hello]
    · rw [(took_elsewhere b file mine).1, (took_elsewhere b file mine).2]
      exact good.separate.told a' e r' there
  · intro a' active'
    by_cases mine : a' = a
    · subst mine
      refine ⟨r, (greetings _ _ _).mpr hello, ?_⟩
      rw [session, if_pos rfl, show lives (took a' (lives s.net a') s b file).net a' =
        lives s.net a' from rfl, next]
      exact (takeByte_alike alike b).1
    · rw [session, if_neg mine] at active' ⊢
      obtain ⟨r', there, same⟩ := good.separate.own a' active'
      refine ⟨r', (greetings _ _ _).mpr there, ?_⟩
      rw [(took_elsewhere b file fun hit => mine hit.1.symm).1]
      exact same
  · intro a' e bytes there
    rw [took_wrote] at there
    exact good.separate.written a' e bytes there

theorem acting_took {life : Nat} (acting : Acting none a life s) (empty : s.outBuf = []) (b : UInt8)
    (file : Bytes) : Acting (ended a s b file) a life (took a life s b file) := by
  obtain rfl := acting.life
  have good := acting.good
  obtain ⟨r, hello, alike⟩ := good.separate.own a acting.active
  have greetings := took_greeted (s := s) a (lives s.net a) b file
  have session (a' : Nat) := took_session (s := s) a (lives s.net a) b file a'
  have stays : ((took a (lives s.net a) s b file).sessions a).active = true := by
    rw [session, if_pos rfl, takeByte_active]
    exact acting.active
  refine ⟨⟨took_separate acting b file hello alike, good.settled, ?_, ?_, ?_, ?_, ?_⟩, Or.inl empty, stays,
    rfl⟩
  · intro a' e r' there
    exact good.past a' e r' ((greetings _ _ _).mp there)
  · intro a' open_ idle r' there
    by_cases mine : a' = a
    · subst mine
      exact absurd (stays.symm.trans idle) (by simp)
    · rw [session, if_neg mine] at idle
      exact good.fresh a' open_ idle r' ((greetings _ _ _).mp there)
  · intro a' e none_
    by_cases mine : a = a' ∧ lives s.net a = e
    · obtain ⟨rfl, rfl⟩ := mine
      exact absurd ((greetings _ _ _).mpr hello) (none_ r)
    · rw [(took_elsewhere b file mine).1, (took_elsewhere b file mine).2]
      exact good.silent a' e fun r' there => none_ r' ((greetings _ _ _).mpr there)
  · intro a' e r1 r2 there there'
    exact good.once a' e r1 r2 ((greetings _ _ _).mp there) ((greetings _ _ _).mp there')
  · intro a' r' active' apart there
    rw [greetings] at there
    by_cases mine : a' = a
    · subst mine
      cases good.once _ _ _ _ there hello
      rw [show lives (took a' (lives s.net a') s b file).net a' = lives s.net a' from rfl,
        took_talk acting b file hello alike]
      simp only [ended] at apart
      by_cases quits : (takeByte (authCheck file) (s.sessions a') b).2.quits
          (takeByte (authCheck file) (s.sessions a') b).1 = true
      · simp [quits] at apart
      · rw [quits_alike (takeByte_alike alike b).1] at quits
        exact Bool.eq_false_iff.mpr quits
    · rw [session, if_neg mine] at active'
      rw [show lives (took a (lives s.net a) s b file).net a' = lives s.net a' from rfl,
        (took_elsewhere b file fun hit => mine hit.1.symm).1]
      exact good.going a' r' active' (by simp) there

end Took

/-- What is left of a byte once it was taken: what is written, and a line that ends. -/
def after (w : World) (a life : Nat) (s : Server) (sess : Session) (effect : Effect) : Server × Bool :=
  let s := effect.writes.foldl (say w a life) s
  match effect.outcome with
  | none => (s, false)
  | some (.tried _ _ true) => (shellFlush w (shellPrompt w a life s), false)
  | some (.tried _ _ false) => (s, effect.quits sess)
  | some (.dispatched _) =>
      let (s, quit) := shellDispatch w a life s
      if quit then (shellFlush w s, true) else (shellFlush w (shellPrompt w a life s), false)

theorem feedByte_eq (a life : Nat) (s : Server) (b : UInt8) :
    feedByte w a life s b =
      after w a life (took a life s b (w.file s.calls))
        (takeByte (authCheck (w.file s.calls)) (s.sessions a) b).1
        (takeByte (authCheck (w.file s.calls)) (s.sessions a) b).2 := rfl

theorem acts_over {a life : Nat} (acts : Acts none a life s) (closing : Option Nat) : Acts closing a life s :=
  fun clear =>
    let acting := acts clear
    ⟨good_over acting.good closing, acting.buffered, acting.active, acting.life⟩

theorem after_acts {a life : Nat} {sess : Session} {effect : Effect}
    (acts : Acts (if effect.quits sess then some a else none) a life s) (empty : s.outBuf = []) :
    (after w a life s sess effect).1.outBuf = [] ∧
      Acts (if (after w a life s sess effect).2 then some a else none) a life
        (after w a life s sess effect).1 := by
  have said := acts_says (w := w) acts effect.writes
  have still := (says_outBuf (w := w) a life s effect.writes).trans empty
  unfold after
  generalize effect.writes.foldl (say w a life) s = s' at *
  cases outcome : effect.outcome with
  | none =>
      simp only [Effect.quits, outcome] at said ⊢
      exact ⟨still, said⟩
  | some out =>
      cases out with
      | tried login pass ok =>
          cases ok with
          | true =>
              simp only [Effect.quits, outcome] at said ⊢
              exact ⟨rfl, acts_flush (acts_prompt said)⟩
          | false => exact ⟨still, said⟩
      | dispatched line =>
          simp only [Effect.quits, outcome, Bool.false_eq_true, if_false] at said ⊢
          have ran := acts_dispatch (w := w) said
          by_cases quit : (shellDispatch w a life s').2 = true
          · simp only [quit, if_true]
            exact ⟨rfl, acts_over (acts_flush ran) _⟩
          · simp only [quit, Bool.false_eq_true, if_false]
            exact ⟨rfl, acts_flush (acts_prompt ran)⟩

theorem feedByte_acts {a life : Nat} (acts : Acts none a life s) (empty : s.outBuf = []) (b : UInt8) :
    (feedByte w a life s b).1.outBuf = [] ∧
      Acts (if (feedByte w a life s b).2 then some a else none) a life (feedByte w a life s b).1 := by
  rw [feedByte_eq]
  apply after_acts
  · exact fun clear => acting_took (acts clear) empty b (w.file s.calls)
  · exact empty

theorem feed_rests {a life : Nat} (bytes : Bytes) (acts : Acts none a life s) (empty : s.outBuf = []) :
    Rests (feed w a life s bytes) := by
  induction bytes generalizing s with
  | nil => exact ⟨empty, fun clear => (acts clear).good⟩
  | cons b rest ih =>
      have taken := feedByte_acts (w := w) acts empty b
      unfold feed
      generalize feedByte w a life s b = result at *
      obtain ⟨s', quit⟩ := result
      cases quit with
      | true => exact rests_hangUp taken.2 taken.1
      | false => exact ih taken.2 taken.1

/-- What the greeting of the connection in slot `i` changes. -/
structure Greeting (s : Server) (i : Nat) (r : Bool) (s' : Server) : Prop where
  log : s'.log = s.log ++ [.greeted i (lives s.net i) r]
  net : s'.net = s.net
  session : ∀ a, s'.sessions a = if a = i then greeted r (s.sessions i) else s.sessions a

section Greetings
variable {i : Nat} {r : Bool}

theorem Greeting.typed (greeting : Greeting s i r s') (a e : Nat) : typedOf s'.log a e = typedOf s.log a e := by
  simp [typedOf, greeting.log, List.filterMap_append, typedAt]

theorem Greeting.outcomes (greeting : Greeting s i r s') (a e : Nat) :
    outcomesOf s'.log a e = outcomesOf s.log a e := by
  simp [outcomesOf, greeting.log, List.filterMap_append, cameAt]

theorem Greeting.greetings (greeting : Greeting s i r s') (a e : Nat) (r' : Bool) :
    .greeted a e r' ∈ s'.log ↔ .greeted a e r' ∈ s.log ∨ a = i ∧ e = lives s.net i ∧ r' = r := by
  simp [greeting.log]

theorem Greeting.active (greeting : Greeting s i r s') : (s'.sessions i).active = true := by
  rw [greeting.session, if_pos rfl]
  rfl

theorem greeting_separate (greeting : Greeting s i r s') (good : Good none s) (open_ : Open s.net i)
    (idle : (s.sessions i).active = false) : Separate s' := by
  obtain ⟨untyped, nothing⟩ := good.silent i (lives s.net i) (good.fresh i open_ idle)
  refine ⟨?_, ?_, ?_⟩
  · intro a e r' there
    rw [greeting.typed, greeting.outcomes]
    rcases (greeting.greetings a e r').mp there with old | ⟨rfl, rfl, rfl⟩
    · exact good.separate.told a e r' old
    · rw [nothing, untyped]
      rfl
  · intro a now
    rw [greeting.net]
    by_cases mine : a = i
    · subst mine
      refine ⟨r, (greeting.greetings _ _ _).mpr (Or.inr ⟨rfl, rfl, rfl⟩), ?_⟩
      rw [greeting.typed, untyped, greeting.session, if_pos rfl]
      exact greeted_alike r (s.sessions a)
    · rw [greeting.session, if_neg mine] at now ⊢
      obtain ⟨r', there, alike⟩ := good.separate.own a now
      refine ⟨r', (greeting.greetings _ _ _).mpr (Or.inl there), ?_⟩
      rw [greeting.typed]
      exact alike
  · intro a e bytes there
    rw [greeting.log] at there
    rcases List.mem_append.mp there with old | new
    · exact good.separate.written a e bytes old
    · exact absurd (List.mem_singleton.mp new) (by simp)

theorem greeting_good (greeting : Greeting s i r s') (good : Good none s) (open_ : Open s.net i)
    (idle : (s.sessions i).active = false) : Good none s' := by
  have unknown : ∀ r', .greeted i (lives s.net i) r' ∉ s.log := good.fresh i open_ idle
  obtain ⟨untyped, -⟩ := good.silent i (lives s.net i) unknown
  refine ⟨greeting_separate greeting good open_ idle, greeting.net ▸ good.settled, ?_, ?_, ?_, ?_, ?_⟩
  · intro a e r' there
    rw [greeting.net]
    rcases (greeting.greetings a e r').mp there with old | ⟨rfl, rfl, rfl⟩
    · exact good.past a e r' old
    · exact Nat.le_refl _
  · intro a opened quiet r' there
    rw [greeting.net] at opened there
    by_cases mine : a = i
    · subst mine
      exact absurd (greeting.active.symm.trans quiet) (by simp)
    · rw [greeting.session, if_neg mine] at quiet
      rcases (greeting.greetings a _ r').mp there with old | ⟨same, _, _⟩
      · exact good.fresh a opened quiet r' old
      · exact mine same
  · intro a e none_
    rw [greeting.typed, greeting.outcomes]
    exact good.silent a e fun r' there => none_ r' ((greeting.greetings a e r').mpr (Or.inl there))
  · intro a e r1 r2 there there'
    rcases (greeting.greetings a e r1).mp there with old | ⟨rfl, rfl, rfl⟩
    · rcases (greeting.greetings a e r2).mp there' with old' | ⟨rfl, rfl, rfl⟩
      · exact good.once a e r1 r2 old old'
      · exact absurd old (unknown r1)
    · rcases (greeting.greetings _ _ r2).mp there' with old' | ⟨_, _, rfl⟩
      · exact absurd old' (unknown r2)
      · rfl
  · intro a r' now _ there
    rw [greeting.net] at there ⊢
    rw [greeting.typed]
    by_cases mine : a = i
    · subst mine
      rw [untyped]
      rfl
    · rw [greeting.session, if_neg mine] at now
      rcases (greeting.greetings a _ r').mp there with old | ⟨same, _, _⟩
      · exact good.going a r' now (by simp) old
      · exact absurd same mine

theorem acting_greeted (good : Good none s) (empty : s.outBuf = []) (open_ : Open s.net i)
    (idle : (s.sessions i).active = false) (r : Bool) (calls : Nat) :
    Acting none i (lives s.net i) (({ s with calls := calls }.setSession i (greeted r (s.sessions i))).note
      (.greeted i (lives s.net i) r)) := by
  have greeting : Greeting s i r (({ s with calls := calls }.setSession i (greeted r (s.sessions i))).note
      (.greeted i (lives s.net i) r)) := by
    refine ⟨rfl, rfl, fun a => ?_⟩
    by_cases hit : a = i
    · subst hit
      simp [Server.note, Server.setSession]
    · simp [Server.note, Server.setSession, hit]
  exact ⟨greeting_good greeting good open_ idle, Or.inl empty, greeting.active, by rw [greeting.net]⟩

end Greetings

theorem greet_rests {i : Nat} (rests : Rests s) (open_ : Open s.net i)
    (idle : (s.sessions i).active = false) : Rests (greet w s i) := by
  obtain ⟨empty, good⟩ := rests
  simp only [greet]
  generalize authRequired (w.file s.calls) (w.file (s.calls + 1)) (w.file (s.calls + 2)) = required
  have begun : Acts none i (lives s.net i)
      (({ s with calls := s.calls + 3 }.setSession i (greeted required (s.sessions i))).note
        (.greeted i (lives s.net i) required)) :=
    fun clear => acting_greeted (good clear) empty open_ idle required (s.calls + 3)
  have greeting := acts_out (w := w) begun banner
  cases required with
  | true => exact ⟨rfl, fun clear => (acts_say (acts_flush greeting) loginPrompt clear).good⟩
  | false => exact ⟨rfl, fun clear => (acts_flush (acts_prompt greeting) clear).good⟩

theorem scanSlot_rests (rests : Rests s) (i : Nat) : Rests (scanSlot w s i) := by
  unfold scanSlot
  dsimp only
  split
  · rename_i there
    split
    · exact rests
    · rename_i idle
      simp only [Bool.and_eq_true, beq_iff_eq] at there
      exact greet_rests rests there.1 (Bool.eq_false_iff.mpr idle)
  · split
    · rename_i gone
      simp only [Bool.and_eq_true, Bool.not_eq_true'] at gone
      refine ⟨rests.1, fun clear => good_idle (good_over (rests.2 clear) _) ?_ rfl⟩
      intro open_
      exact absurd (gone.1.symm.trans open_.1) (by simp)
    · exact rests

theorem scan_rests (rests : Rests s) (slots : List Nat) : Rests (slots.foldl (scanSlot w) s) := by
  induction slots generalizing s with
  | nil => exact rests
  | cons i rest ih => exact ih (scanSlot_rests rests i)

theorem takeInput_rests (rests : Rests s) : Rests (takeInput w s) := by
  unfold takeInput
  split
  · exact rests
  · rename_i a found
    split
    · rename_i active
      apply feed_rests
      · intro clear
        have acting : Acting none a (lives s.net a) s :=
          ⟨rests.2 clear, Or.inl rests.1, active, rfl⟩
        exact acting_still acting (still_net (Calm.refl _).read rfl rfl rfl) (Or.inl rests.1)
      · exact rests.1
    · exact rests

theorem pass_rests (rests : Rests s) (packet : Option Segment) : Rests (pass w s packet) := by
  unfold TntServer.pass
  apply takeInput_rests
  apply scan_rests
  cases packet with
  | none => exact rests
  | some t =>
      refine ⟨rests.1, fun clear => good_packet (rests.2 ?_) clear⟩
      simp only [onPacket, Bool.or_eq_false_iff] at clear
      exact clear.1

end Frames

theorem start_rests : Rests start := by
  have nothing (a e : Nat) (r : Bool) : .greeted a e r ∉ start.log := by
    simp [start]
  refine ⟨rfl, fun _ => ⟨⟨?_, ?_, ?_⟩, ?_, ?_, ?_, ?_, ?_, ?_⟩⟩
  · exact fun a e r there => absurd there (nothing a e r)
  · exact fun a active => absurd active (by simp [start])
  · exact fun a e bytes there => absurd there (by simp [start])
  · intro a
    by_cases server : a = 0
    · subst server
      simp [start, TcpSockets.listen]
    · simp [start, TcpSockets.listen, TcpSockets.bind, set_other _ _ server, claim_other _ _ server]
  · exact fun a e r there => absurd there (nothing a e r)
  · exact fun a _ _ r there => absurd there (nothing a _ r)
  · exact fun a e _ => ⟨rfl, rfl⟩
  · exact fun a e r r' there => absurd there (nothing a e r)
  · exact fun a r active => absurd active (by simp [start])

theorem run_rests (w : World) (packets : List (Option Segment)) : Rests (run w packets) := by
  have each {s : Server} (rests : Rests s) (packets : List (Option Segment)) :
      Rests (packets.foldl (pass w) s) := by
    induction packets generalizing s with
    | nil => exact rests
    | cons packet rest ih => exact ih (pass_rests rests packet)
  exact each start_rests packets

/-! The gate. -/

structure Gated (s : Server) : Prop where
  separate : Separate s
  admitted : ∀ before a e line after, s.log = before ++ .came a e (.dispatched line) :: after →
    .greeted a e false ∈ s.log ∨ ∃ login pass, .came a e (.tried login pass true) ∈ before
  checked : ∀ a e login pass, .came a e (.tried login pass true) ∈ s.log →
    ∃ x ∈ typedOf s.log a e, authCheck x.2 login pass = true
  tries : ∀ a e, attempts (outcomesOf s.log a e) ≤ authTries

theorem mem_outcomes {log : List TntServer.Event} {a e : Nat} {outcome : Outcome} :
    outcome ∈ outcomesOf log a e ↔ .came a e outcome ∈ log := by
  simp only [outcomesOf, List.mem_filterMap]
  constructor
  · rintro ⟨x, member, here⟩
    cases x with
    | came b life found =>
        simp only [cameAt] at here
        split at here
        · rename_i same
          obtain ⟨rfl, rfl⟩ := same
          cases here
          exact member
        · exact absurd here (by simp)
    | _ => exact absurd here (by simp [cameAt])
  · intro member
    exact ⟨_, member, by simp [cameAt]⟩

theorem outcome_greeted {s : Server} (good : Good none s) {a e : Nat} {outcome : Outcome}
    (came : outcome ∈ outcomesOf s.log a e) : ∃ r, .greeted a e r ∈ s.log := by
  by_contra never
  have none_ := (good.silent a e fun r there => never ⟨r, there⟩).2
  rw [none_] at came
  exact absurd came List.not_mem_nil

/-- Unless a SYN begins a connection over an active session, no connection gets a
command through without its own login, or more than three tries, or anything of the
connections before it in its slot. -/
theorem connections_gated (w : World) (packets : List (Option Segment))
    (clear : (run w packets).clash = false) : Gated (run w packets) := by
  have good := (run_rests w packets).2 clear
  generalize run w packets = s at *
  have told := good.separate.told
  refine ⟨good.separate, ?_, ?_, ?_⟩
  · intro before a e line rest split
    have parts : outcomesOf s.log a e =
        outcomesOf before a e ++ .dispatched line :: outcomesOf rest a e := by
      simp [split, outcomesOf, List.filterMap_append, cameAt]
    have member : Outcome.dispatched line ∈ outcomesOf s.log a e := by simp [parts]
    obtain ⟨r, greeted⟩ := outcome_greeted good member
    rcases (talk_sane r (typedOf s.log a e)).gated _ line _ ((told a e r greeted).symm.trans parts) with
      free | ⟨login, pass, tried⟩
    · subst free
      exact Or.inl greeted
    · exact Or.inr ⟨login, pass, mem_outcomes.mp tried⟩
  · intro a e login pass came
    have member := mem_outcomes.mpr came
    obtain ⟨r, greeted⟩ := outcome_greeted good member
    rw [told a e r greeted] at member
    exact (talk_sane r (typedOf s.log a e)).checked login pass member
  · intro a e
    by_cases known : ∃ r, .greeted a e r ∈ s.log
    · obtain ⟨r, greeted⟩ := known
      rw [told a e r greeted]
      exact (talk_sane r (typedOf s.log a e)).few
    · have none_ := (good.silent a e fun r there => known ⟨r, there⟩).2
      rw [none_]
      exact Nat.zero_le _

/-! Two clients on one slot. -/

def clientIp : UInt32 := 0x0a000002
def serverIp : UInt32 := 0x0a000001

def clientSegment (seq : UInt32) (flags : UInt8) (data : Bytes) : Segment :=
  { srcIp := clientIp, dstIp := serverIp, sourcePort := 40000, destPort := bindPort, seqNum := seq
    ackNum := 0, headerLen := 20, flags := flags, windowSize := 4096
    packet := List.replicate 20 0 ++ data }

/-- No session at first; Memento is logged in to by the fourth look. -/
def loggedInLater : World where
  kernel _ := true
  file k := if k < 3 then [] else ascii "salt=0123456789abcdef0123456789abcdef
"
  prompt _ := ascii "> "
  command _ := ⟨[.put (ascii "ok
")], false⟩

/-- The client connects, and a SYN from the same port begins another connection. -/
def startsOver : List (Option Segment) :=
  [some (clientSegment 100 flagSyn []), some (clientSegment 900 flagSyn []),
    some (clientSegment 901 flagAck (ascii "rm x
"))]

/-- The second connection is in the shell, though it was never greeted. -/
theorem second_syn_skips_login : ¬ Gated (run loggedInLater startsOver) := by
  intro gated
  have all : outcomesOf (run loggedInLater startsOver).log 1 2 = [.dispatched (ascii "rm x")] := by
    decide +kernel
  have unasked : .greeted 1 2 false ∉ (run loggedInLater startsOver).log := by
    decide +kernel
  have came : .came 1 2 (.dispatched (ascii "rm x")) ∈ (run loggedInLater startsOver).log :=
    mem_outcomes.mp (all ▸ List.mem_singleton_self _)
  obtain ⟨before, after, split⟩ := List.append_of_mem came
  rcases gated.admitted before 1 2 _ after split with greeted | ⟨login, pass, tried⟩
  · exact unasked greeted
  · have there : Outcome.tried login pass true ∈ outcomesOf (run loggedInLater startsOver).log 1 2 := by
      rw [mem_outcomes, split]
      exact List.mem_append_left _ tried
    rw [all] at there
    exact absurd there (by simp)

/-- One connection, greeted while nobody is logged in, types a command. -/
theorem first_connection_gated :
    .came 1 1 (.dispatched (ascii "ls")) ∈ (run loggedInLater
        [some (clientSegment 100 flagSyn []), some (clientSegment 101 flagAck (ascii "ls\n"))]).log ∧
      Gated (run loggedInLater
        [some (clientSegment 100 flagSyn []), some (clientSegment 101 flagAck (ascii "ls\n"))]) :=
  ⟨by decide +kernel, connections_gated _ _ (by decide +kernel)⟩

end R2Apps.TntGate
