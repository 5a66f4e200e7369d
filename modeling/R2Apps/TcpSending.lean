import R2Apps.SerialNumbers
import R2Apps.TcpDelivery

/-! What a connection has sent and not yet seen acknowledged, counted from the log:
a SYN and a FIN take a number each, data one for each byte, and an ACK number
that arrives acknowledges what stands before the position it names, if that has
been sent. `seq_num` and `tx_acked` are the serial numbers of the two counts.
The established path checks the peer's ACK against both; the one that completes
a `tcp_connect` takes it as it is, and the one that waits for the peer's FIN does
not look at it. -/
namespace R2Apps.TcpSending
open SerialNumbers TcpSockets TcpHistory TcpDelivery

def tcpBytesInFlight (s : Socket) : UInt32 :=
  if (s.seqNum - s.txAcked).toInt32 ≤ 0 then 0 else s.seqNum - s.txAcked

/-! The counts. -/

/-- How many sequence numbers a connection has sent, and how many of them the peer
has acknowledged. -/
structure Count where
  sent : Nat := 0
  acked : Nat := 0

/-- The numbers acknowledged after an ACK number has come. -/
def Count.accept (c : Count) (number : UInt32) : Nat :=
  let position := c.acked + (number - serial 0 c.acked).toNat
  if position ≤ c.sent then position else c.acked

def numbers (len : Nat) (flags : UInt8) : Nat :=
  len + if flags &&& (flagSyn ||| flagFin) != 0 then 1 else 0

def Count.after (c : Count) : Event → Count
  | .cleared => {}
  | .sent segment =>
      -- a SYN has number zero, and the numbers begin again behind it
      if segment.flags &&& flagSyn != 0 then ⟨1, min c.acked 1⟩
      else { c with sent := c.sent + numbers segment.length segment.flags }
  | .heard true number => { c with acked := c.accept number }
  | _ => c

def count (log : List (Nat × Event)) (a : Nat) : Count :=
  log.foldl (fun c e => if e.1 = a then c.after e.2 else c) {}

@[simp] theorem count_snoc (log : List (Nat × Event)) (b : Nat) (e : Event) (a : Nat) :
    count (log ++ [(b, e)]) a = if b = a then (count log a).after e else count log a := by
  simp [count]

/-- The two numbers of the socket stand for the counts, which are less than half of
the number space apart; a connection that waits for its SYN-ACK has had nothing
acknowledged. -/
structure Accounted (c : Count) (s : Socket) : Prop where
  seq : s.seqNum = serial 0 c.sent
  acked : s.txAcked = serial 0 c.acked
  order : c.acked ≤ c.sent
  near : c.sent < c.acked + 2 ^ 31
  dialling : s.state = .synSent → c.acked = 0

def AllAccounted (net : Net) : Prop := ∀ a, Accounted (count net.log a) (net.sockets a)

theorem Accounted.difference {c : Count} {s : Socket} (accounted : Accounted c s) :
    (s.seqNum - s.txAcked).toNat = c.sent - c.acked := by
  have near := accounted.near
  rw [accounted.seq, accounted.acked, toNat_behind 0 accounted.order (by omega)]

theorem in_flight_eq {c : Count} {s : Socket} (accounted : Accounted c s) :
    (tcpBytesInFlight s).toNat = c.sent - c.acked := by
  have near := accounted.near
  have order := accounted.order
  have difference := accounted.difference
  unfold tcpBytesInFlight
  generalize s.seqNum - s.txAcked = distance at difference ⊢
  have signed := toInt_toInt32 distance
  rw [if_pos (by omega)] at signed
  split
  · rename_i nothing
    rw [Int32.le_iff_toInt_le, signed] at nothing
    have zero : distance.toNat = 0 := by simpa using nothing
    rw [← difference, zero]
    rfl
  · exact difference

/-! What a send does. -/

/-- By how much a send moves `seq_num`. -/
def advance (kernel : Nat → Bool) (attempts len : Nat) (flags : UInt8) : UInt32 :=
  if kernel attempts && decide (len ≤ tcpMaxPayload) then
    UInt32.ofNat len + if flags &&& (flagSyn ||| flagFin) != 0 then 1 else 0
  else 0

theorem advance_bare (kernel : Nat → Bool) (attempts : Nat) {flags : UInt8}
    (bare : flags &&& (flagSyn ||| flagFin) = 0) : advance kernel attempts 0 flags = 0 := by
  simp [advance, bare]

theorem numbers_word (len : Nat) (flags : UInt8) : UInt32.ofNat (numbers len flags) =
    UInt32.ofNat len + if flags &&& (flagSyn ||| flagFin) != 0 then 1 else 0 := by
  unfold numbers
  split
  · exact UInt32.ofNat_add len 1
  · exact (UInt32.add_zero _).symm

section Steps
variable {net : Net} {a : Nat}

theorem set_other (net : Net) {a b : Nat} (s : Socket) (apart : b ≠ a) :
    (net.set a s).sockets b = net.sockets b := by
  simp [Net.set, Function.update_of_ne apart]

theorem send_sockets (kernel : Nat → Bool) (net : Net) (a len : Nat) (flags : UInt8) :
    (sendTcpPacket kernel net a len flags).sockets =
      Function.update net.sockets a { net.sockets a with
        seqNum := (net.sockets a).seqNum + advance kernel net.attempts len flags } := by
  by_cases out : (kernel net.attempts && decide (len ≤ tcpMaxPayload)) = true
  · simp [sendTcpPacket, advance, out, Net.set]
  · simp [sendTcpPacket, advance, out]

theorem send_self (kernel : Nat → Bool) (net : Net) (a len : Nat) (flags : UInt8) :
    (sendTcpPacket kernel net a len flags).sockets a = { net.sockets a with
      seqNum := (net.sockets a).seqNum + advance kernel net.attempts len flags } := by
  rw [send_sockets, Function.update_self]

theorem send_other (kernel : Nat → Bool) (net : Net) {a b : Nat} (len : Nat) (flags : UInt8)
    (apart : b ≠ a) : (sendTcpPacket kernel net a len flags).sockets b = net.sockets b := by
  rw [send_sockets, Function.update_of_ne apart]

theorem send_attempts (kernel : Nat → Bool) (net : Net) (a len : Nat) (flags : UInt8) :
    (sendTcpPacket kernel net a len flags).attempts = net.attempts + 1 := by
  simp only [sendTcpPacket]
  split <;> rfl

theorem send_count (kernel : Nat → Bool) (net : Net) (a len : Nat) (flags : UInt8) :
    count (sendTcpPacket kernel net a len flags).log a =
      if kernel net.attempts && decide (len ≤ tcpMaxPayload) then
        if flags &&& flagSyn != 0 then ⟨1, min (count net.log a).acked 1⟩
        else { count net.log a with sent := (count net.log a).sent + numbers len flags }
      else count net.log a := by
  by_cases out : (kernel net.attempts && decide (len ≤ tcpMaxPayload)) = true
  · simp [sendTcpPacket, out, Net.note, Count.after]
  · simp [sendTcpPacket, out]

theorem send_count_other (kernel : Nat → Bool) (net : Net) {a b : Nat} (len : Nat) (flags : UInt8)
    (apart : b ≠ a) : count (sendTcpPacket kernel net a len flags).log b = count net.log b := by
  simp only [sendTcpPacket]
  split
  · rfl
  · simp [Net.note, Ne.symm apart]

theorem send_syn {kernel : Nat → Bool} {flags : UInt8} (syn : (flags &&& flagSyn != 0) = true)
    (out : kernel net.attempts = true) :
    count (sendTcpPacket kernel net a 0 flags).log a = ⟨1, min (count net.log a).acked 1⟩ := by
  simp [send_count, out, syn]

theorem send_bare (kernel : Nat → Bool) (net : Net) (a : Nat) {flags : UInt8}
    (bare : flags &&& (flagSyn ||| flagFin) = 0) (plain : flags &&& flagSyn = 0) :
    count (sendTcpPacket kernel net a 0 flags).log a = count net.log a := by
  simp [send_count, plain, numbers, bare]

/-- What a socket does leaves the others and their counts alone. -/
def Apart (a : Nat) (net net' : Net) : Prop :=
  ∀ b, b ≠ a → net'.sockets b = net.sockets b ∧ count net'.log b = count net.log b

theorem Apart.refl (a : Nat) (net : Net) : Apart a net net := fun _ _ => ⟨rfl, rfl⟩

theorem Apart.set {net' : Net} (apart : Apart a net net') (s : Socket) : Apart a net (net'.set a s) :=
  fun b other => ⟨(set_other net' s other).trans (apart b other).1, (apart b other).2⟩

theorem Apart.note {net' : Net} (apart : Apart a net net') (e : Event) : Apart a net (net'.note a e) :=
  fun b other => ⟨(apart b other).1, by rw [note_log, count_snoc, if_neg (Ne.symm other), (apart b other).2]⟩

theorem Apart.send {net' : Net} (apart : Apart a net net') (kernel : Nat → Bool) (len : Nat) (flags : UInt8) :
    Apart a net (sendTcpPacket kernel net' a len flags) :=
  fun b other => ⟨(send_other kernel net' len flags other).trans (apart b other).1,
    (send_count_other kernel net' len flags other).trans (apart b other).2⟩

theorem Apart.buffer {net' : Net} (apart : Apart a net net') (b : Nat) (buffer : Option Nat) :
    Apart a net (tcpSetReceiveBuffer net' b buffer).1 := by
  intro c other
  rw [(buffer_sockets net' b buffer).1, (buffer_sockets net' b buffer).2]
  exact apart c other

theorem accounted_only {net' : Net} (all : AllAccounted net) (apart : Apart a net net')
    (here : Accounted (count net'.log a) (net'.sockets a)) : AllAccounted net' := by
  intro b
  by_cases hit : b = a
  · subst hit
    exact here
  · rw [(apart b hit).1, (apart b hit).2]
    exact all b

theorem accounted_set {s : Socket} (all : AllAccounted net) (seq : s.seqNum = (net.sockets a).seqNum)
    (acked : s.txAcked = (net.sockets a).txAcked)
    (dialling : s.state = .synSent → (net.sockets a).state = .synSent) : AllAccounted (net.set a s) := by
  refine accounted_only all ((Apart.refl a net).set s) ?_
  rw [set_same, set_log]
  exact ⟨seq.trans (all a).seq, acked.trans (all a).acked, (all a).order, (all a).near,
    fun state => (all a).dialling (dialling state)⟩

theorem accounted_note {e : Event} (all : AllAccounted net)
    (quiet : (count net.log a).after e = count net.log a) : AllAccounted (net.note a e) := by
  refine accounted_only all ((Apart.refl a net).note e) ?_
  rw [note_log, count_snoc, if_pos rfl, quiet]
  exact all a

theorem accounted_send (kernel : Nat → Bool) (len : Nat) {flags : UInt8} (plain : flags &&& flagSyn = 0)
    (all : AllAccounted net)
    (room : kernel net.attempts = true → len ≤ tcpMaxPayload →
      (count net.log a).sent + numbers len flags < (count net.log a).acked + 2 ^ 31) :
    AllAccounted (sendTcpPacket kernel net a len flags) := by
  refine accounted_only all ((Apart.refl a net).send kernel len flags) ?_
  obtain ⟨seq, acked, order, near, dialling⟩ := all a
  rw [send_self, send_count]
  by_cases out : (kernel net.attempts && decide (len ≤ tcpMaxPayload)) = true
  · obtain ⟨handed, short⟩ := Bool.and_eq_true_iff.mp out
    have room := room handed (of_decide_eq_true short)
    simp only [out, if_true, advance, plain, bne_self_eq_false, Bool.false_eq_true, if_false]
    refine ⟨?_, acked, Nat.le_add_right_of_le order, room, dialling⟩
    rw [seq, ← numbers_word, ← serial_add]
  · simp only [out, Bool.false_eq_true, if_false, advance, UInt32.add_zero]
    exact ⟨seq, acked, order, near, dialling⟩

theorem accounted_bare (kernel : Nat → Bool) {flags : UInt8}
    (bare : flags &&& (flagSyn ||| flagFin) = 0) (plain : flags &&& flagSyn = 0) (all : AllAccounted net) :
    AllAccounted (sendTcpPacket kernel net a 0 flags) := by
  refine accounted_send kernel 0 plain all fun _ _ => ?_
  have near := (all a).near
  simpa [numbers, bare] using near

theorem accounted_ack (a : Nat) (kernel : Nat → Bool) (all : AllAccounted net) :
    AllAccounted (sendTcpPacket kernel net a 0 flagAck) :=
  accounted_bare kernel (by decide) (by decide) all

theorem free_self (net : Net) (a : Nat) : (freeSocket net a).sockets a =
    { net.sockets a with used := false, state := .closed, rx := [] } := by
  simp [freeSocket, buffer_sockets]

theorem free_other (net : Net) {a b : Nat} (apart : b ≠ a) :
    (freeSocket net a).sockets b = net.sockets b := by
  simp [freeSocket, buffer_sockets, set_other _ _ apart]

theorem free_log (net : Net) (a : Nat) : (freeSocket net a).log = net.log := by
  simp [freeSocket, buffer_sockets]

theorem buffer_attempts (net : Net) (a : Nat) (buffer : Option Nat) :
    (tcpSetReceiveBuffer net a buffer).1.attempts = net.attempts := by
  cases buffer <;> simp only [tcpSetReceiveBuffer] <;> repeat' split
  all_goals rfl

theorem free_attempts (net : Net) (a : Nat) : (freeSocket net a).attempts = net.attempts := by
  simp [freeSocket, buffer_attempts, Net.set]

theorem accounted_free (all : AllAccounted net) : AllAccounted (freeSocket net a) := by
  refine accounted_only all (((Apart.refl a net).set _).buffer a none) ?_
  rw [free_self, free_log]
  exact ⟨(all a).seq, (all a).acked, (all a).order, (all a).near, fun state => SocketState.noConfusion state⟩

/-- The slot `alloc_socket` takes. -/
def slotTaken (net : Net) (pool : List Nat) : Option Nat :=
  match firstSlot pool fun a => !(net.sockets a).used with
  | some (_, a) => some a
  | none => (firstSlot pool fun a =>
      (net.sockets a).used && (net.sockets a).state == .finWait).map Prod.snd

theorem claim_self (net : Net) (a i : Nat) :
    ((socketClaim net a i).sockets a).seqNum = (net.sockets a).seqNum ∧
      ((socketClaim net a i).sockets a).txAcked = 0 := by
  simp [socketClaim, buffer_sockets]

theorem claim_other (net : Net) {a b : Nat} (i : Nat) (apart : b ≠ a) :
    (socketClaim net a i).sockets b = net.sockets b := by
  simp [socketClaim, buffer_sockets, set_other _ _ apart]

theorem claim_log (net : Net) (a i : Nat) : (socketClaim net a i).log = net.log ++ [(a, .cleared)] := by
  simp [socketClaim, buffer_sockets]

theorem alloc_taken {pool : List Nat} {net' : Net} {c : Nat}
    (got : allocSocket net pool = some (net', c)) :
    slotTaken net pool = some c ∧ (net'.sockets c).seqNum = (net.sockets c).seqNum ∧
      (net'.sockets c).txAcked = 0 ∧ ∀ b, b ≠ c → net'.sockets b = net.sockets b := by
  simp only [allocSocket] at got
  split at got
  · rename_i i b found
    cases got
    obtain ⟨seq, acked⟩ := claim_self net c i
    exact ⟨by simp [slotTaken, found], seq, acked, fun _ apart => claim_other net i apart⟩
  · rename_i full
    split at got
    · rename_i i b found
      cases got
      obtain ⟨seq, acked⟩ := claim_self (net.set c { net.sockets c with state := .closed }) c i
      refine ⟨by simp only [slotTaken, full, found, Option.map_some], ?_, acked, ?_⟩
      · rw [seq, set_same]
      · intro b apart
        rw [claim_other _ i apart, set_other _ _ apart]
    · exact absurd got (by simp)

theorem alloc_log {pool : List Nat} {net' : Net} {c : Nat} (got : allocSocket net pool = some (net', c)) :
    net'.log = net.log ++ [(c, .cleared)] ∧ net'.attempts = net.attempts := by
  have attempts (net : Net) (i : Nat) : (socketClaim net c i).attempts = net.attempts := by
    simp [socketClaim, buffer_attempts, Net.set, Net.note]
  simp only [allocSocket] at got
  split at got
  · cases got
    exact ⟨claim_log net c _, attempts net _⟩
  · split at got
    · cases got
      exact ⟨claim_log _ c _, attempts _ _⟩
    · exact absurd got (by simp)

theorem alloc_apart {pool : List Nat} {net' : Net} {c : Nat} (got : allocSocket net pool = some (net', c)) :
    Apart c net net' ∧ count net'.log c = {} := by
  obtain ⟨_, _, _, others⟩ := alloc_taken got
  rw [(alloc_log got).1]
  refine ⟨fun b apart => ⟨others b apart, ?_⟩, ?_⟩
  · rw [(alloc_log got).1, count_snoc, if_neg (Ne.symm apart)]
  · rw [count_snoc, if_pos rfl]
    rfl

theorem accounted_syn {s : Socket} (seq : s.seqNum = 1) (acked : s.txAcked = 0) : Accounted ⟨1, 0⟩ s :=
  ⟨seq, acked, Nat.zero_le _, by decide, fun _ => rfl⟩

theorem accounted_openPassive {kernel : Nat → Bool} {pool : List Nat} (t : Segment)
    (all : AllAccounted net) (handed : slotTaken net pool ≠ none → kernel net.attempts = true) :
    AllAccounted (openPassive kernel net pool t) := by
  simp only [openPassive]
  cases got : allocSocket net pool with
  | none => exact all
  | some result =>
      obtain ⟨net', c⟩ := result
      obtain ⟨taken, _⟩ := alloc_taken got
      obtain ⟨apart, empty⟩ := alloc_apart got
      have out := handed (by rw [taken]; exact Option.some_ne_none c)
      rw [← (alloc_log got).2] at out
      refine accounted_only (a := c) all ((((apart.set _).note _).send kernel _ _).set _) ?_
      dsimp only
      rw [set_log, send_syn (by decide) (by exact out), note_log, count_snoc, if_pos rfl, set_log, empty]
      apply accounted_syn <;> simp [send_self]

theorem accounted_repeat {kernel : Nat → Bool} (t : Segment) (all : AllAccounted net)
    (untouched_ : (net.sockets a).state = .established)
    (again : if kernel net.attempts then (net.sockets a).txAcked.toNat = min (count net.log a).acked 1
      else (net.sockets a).seqNum = 1) : AllAccounted (repeatSynAck kernel net a t) := by
  refine accounted_only (a := a) all (((((Apart.refl a net).set _).note _).send kernel _ _).set _) ?_
  rw [repeatSynAck, set_log]
  by_cases out : kernel net.attempts = true
  · rw [if_pos out] at again
    rw [send_syn (by decide) (by exact out), note_log, count_snoc, if_pos rfl, set_log]
    change Accounted ⟨1, min (count net.log a).acked 1⟩ _
    refine ⟨by simp; rfl, ?_, Nat.min_le_right _ _, ?_, by simp [send_self, untouched_]⟩
    · have word : (net.sockets a).txAcked = serial 0 (min (count net.log a).acked 1) := by
        rw [← again]
        simp [serial]
      simpa [send_self] using word
    · dsimp only
      omega
  · rw [if_neg out] at again
    have still : count (sendTcpPacket kernel ((net.set a { net.sockets a with
        ackNum := t.seqNum + 1, seqNum := 0 }).note a (.repeated t.seqNum)) a 0 (flagSyn ||| flagAck)).log a =
        count net.log a := by
      rw [send_count, if_neg (by simpa [Net.set, Net.note] using out), note_log, count_snoc,
        if_pos rfl, set_log]
      rfl
    rw [still]
    obtain ⟨seq, acked, order, near, _⟩ := all a
    rw [again] at seq
    exact ⟨by simpa using seq, by simpa [send_self] using acked, order, near, by simp [send_self, untouched_]⟩

theorem accounted_challenge {kernel : Nat → Bool} (t : Segment) (all : AllAccounted net)
    (dialling : (net.sockets a).state = .synSent)
    (again : kernel (net.attempts + 1) = true ∨ (net.sockets a).seqNum = 1) :
    AllAccounted (onChallenge kernel net a t) := by
  obtain ⟨seq, acked, order, near, nothing⟩ := all a
  have none_ := nothing dialling
  refine accounted_only (a := a) all
    ((((((Apart.refl a net).set _).send kernel _ _).set _).send kernel _ _).set _) ?_
  rw [onChallenge, set_log]
  have reset : count (sendTcpPacket kernel (net.set a { net.sockets a with seqNum := t.ackNum, ackNum := 0 })
      a 0 flagRst).log a = count net.log a := by
    rw [send_bare kernel _ a (by decide) (by decide), set_log]
  have zero : (net.sockets a).txAcked = 0 := by
    rw [acked, none_]
    rfl
  by_cases out : kernel (net.attempts + 1) = true
  · rw [send_syn (by decide) (by rw [← out]; exact congrArg kernel (send_attempts kernel _ a 0 flagRst)),
      set_log,
      reset, none_]
    apply accounted_syn <;> simp [send_self, zero]
  · rw [send_count, if_neg, set_log, reset]
    · have one := again.resolve_left out
      rw [one] at seq
      exact ⟨by simpa using seq, by simpa [send_self] using acked, order, near, fun _ => none_⟩
    · have attempts := send_attempts kernel (net.set a { net.sockets a with seqNum := t.ackNum, ackNum := 0 })
        a 0 flagRst
      intro handed
      obtain ⟨sent, _⟩ := Bool.and_eq_true_iff.mp handed
      exact out ((congrArg kernel attempts).symm.trans sent)

theorem accept_first {c : Count} {number : UInt32} (nothing : c.acked = 0) (sent : number.toNat ≤ c.sent) :
    c.accept number = number.toNat := by
  have whole : number - serial 0 0 = number := by simp [serial]
  simp only [Count.accept, nothing, whole, Nat.zero_add]
  rw [if_pos sent]

theorem accounted_synAck (kernel : Nat → Bool) (t : Segment) (all : AllAccounted net)
    (dialling : (net.sockets a).state = .synSent) (sent : t.ackNum ≤ (net.sockets a).seqNum) :
    AllAccounted (onSynAck kernel net a t) := by
  obtain ⟨seq, _, _, near, nothing⟩ := all a
  have none_ := nothing dialling
  have position : (net.sockets a).seqNum.toNat = (count net.log a).sent := by
    rw [seq, serial, UInt32.zero_add, UInt32.toNat_ofNat']
    exact Nat.mod_eq_of_lt (by omega)
  have within : t.ackNum.toNat ≤ (count net.log a).sent := by
    rw [← position]
    exact UInt32.le_iff_toNat_le.mp sent
  simp only [onSynAck]
  apply accounted_bare kernel (by decide) (by decide)
  refine accounted_only all ((((Apart.refl a net).set _).note _).note _) ?_
  rw [note_log, count_snoc, if_pos rfl, note_log, count_snoc, if_pos rfl, set_log]
  have heard : ((count net.log a).after (.opened t.seqNum)).after (.heard true t.ackNum) =
      { count net.log a with acked := t.ackNum.toNat } :=
    congrArg (Count.mk _) (accept_first none_ within)
  rw [heard]
  refine ⟨by simpa using seq, ?_, within, ?_, by simp⟩
  · simp [serial]
  · dsimp only
    omega

theorem accept_between {c : Count} (order : c.acked ≤ c.sent) (number : UInt32) :
    c.acked ≤ c.accept number ∧ c.accept number ≤ c.sent := by
  simp only [Count.accept]
  split
  · exact ⟨Nat.le_add_right _ _, by assumption⟩
  · exact ⟨Nat.le_refl _, order⟩

theorem fresh_iff {c : Count} {s : Socket} (accounted : Accounted c s) (number : UInt32) :
    (0 < (number - s.txAcked).toInt32 ∧ number - s.txAcked ≤ s.seqNum - s.txAcked) ↔
      0 < (number - s.txAcked).toNat ∧ (number - s.txAcked).toNat ≤ c.sent - c.acked := by
  have near := accounted.near
  have zero : Int32.toInt 0 = 0 := rfl
  rw [UInt32.le_iff_toNat_le, accounted.difference, Int32.lt_iff_toInt_lt, toInt_toInt32, zero]
  generalize (number - s.txAcked).toNat = distance
  constructor
  · rintro ⟨positive, within⟩
    rw [if_pos (by omega)] at positive
    exact ⟨by omega, within⟩
  · rintro ⟨positive, within⟩
    rw [if_pos (by omega)]
    exact ⟨by omega, within⟩

theorem ack_accepted {c : Count} {s : Socket} (accounted : Accounted c s) (number : UInt32) :
    (if 0 < (number - s.txAcked).toInt32 ∧ number - s.txAcked ≤ s.seqNum - s.txAcked then number
      else s.txAcked) = serial 0 (c.accept number) := by
  have fresh := fresh_iff accounted number
  obtain ⟨_, acked, order, near, _⟩ := accounted
  have step : serial 0 (c.acked + (number - s.txAcked).toNat) = number := by
    rw [serial_add, ← acked, UInt32.ofNat_toNat, UInt32.add_comm, UInt32.sub_add_cancel]
  simp only [Count.accept, ← acked]
  by_cases new : 0 < (number - s.txAcked).toNat ∧ (number - s.txAcked).toNat ≤ c.sent - c.acked
  · rw [if_pos (fresh.mpr new), if_pos (by omega), step]
  · -- nothing new: the number is `tx_acked` itself, or past what was sent
    rw [if_neg fun both => new (fresh.mp both)]
    split
    · have none_ : (number - s.txAcked).toNat = 0 := by omega
      rw [none_, Nat.add_zero, acked]
    · exact acked

theorem accounted_noteAck (t : Segment) (all : AllAccounted net)
    (open_ : (net.sockets a).state ≠ .synSent) : AllAccounted (noteAck net a t) := by
  have apart := (Apart.refl a net).note (.heard (t.has flagAck) t.ackNum)
  simp only [noteAck]
  refine accounted_only all (apart.set _) ?_
  rw [set_same, set_log, note_log, count_snoc, if_pos rfl]
  obtain ⟨seq, acked, order, near, dialling⟩ := all a
  cases ack : t.has flagAck with
  | false =>
      simp only [Bool.false_and, Bool.false_eq_true, if_false]
      exact ⟨seq, acked, order, near, dialling⟩
  | true =>
      have taken := ack_accepted (all a) t.ackNum
      obtain ⟨above, within⟩ := accept_between order t.ackNum
      have heard : (count net.log a).after (.heard true t.ackNum) =
          ⟨(count net.log a).sent, (count net.log a).accept t.ackNum⟩ := rfl
      rw [heard]
      simp only [Bool.true_and, note_sockets, Bool.and_eq_true]
      split
      · rename_i fresh
        rw [if_pos ⟨of_decide_eq_true fresh.1, of_decide_eq_true fresh.2⟩] at taken
        exact ⟨seq, taken, within, by dsimp only; omega, fun state => absurd state open_⟩
      · rename_i stale
        rw [if_neg fun both => stale ⟨decide_eq_true both.1, decide_eq_true both.2⟩] at taken
        exact ⟨seq, taken, within, by dsimp only; omega, fun state => absurd state open_⟩

theorem accounted_takeData (kernel : Nat → Bool) (t : Segment) (all : AllAccounted net) :
    AllAccounted (takeData kernel net a t) := by
  simp only [takeData]
  split
  · exact all
  · apply accounted_bare kernel (by decide) (by decide)
    split
    · apply accounted_note ?_ rfl
      exact accounted_set all rfl rfl id
    · exact all

theorem accounted_takeFin (kernel : Nat → Bool) (t : Segment) (all : AllAccounted net) :
    AllAccounted (takeFin kernel net a t) := by
  simp only [takeFin]
  split
  · have finished : AllAccounted ((net.set a { net.sockets a with
        ackNum := t.seqNum + t.dataLen + 1 }).note a (.finished (t.seqNum + t.dataLen))) := by
      apply accounted_note ?_ rfl
      exact accounted_set all rfl rfl id
    have acked := accounted_ack a kernel finished
    split
    · exact accounted_free acked
    · exact accounted_set acked rfl rfl fun state => SocketState.noConfusion state
  · exact all

theorem accounted_opened (kernel : Nat → Bool) (t : Segment) (all : AllAccounted net)
    (open_ : (net.sockets a).state ≠ .synSent) : AllAccounted (onOpened kernel net a t) := by
  simp only [onOpened]
  split
  · exact accounted_free all
  · exact accounted_takeFin kernel t
      (accounted_takeData kernel t (accounted_noteAck t all open_))

theorem accounted_finWait (kernel : Nat → Bool) (t : Segment) (all : AllAccounted net)
    (nothing : t.has flagRst = false → t.has flagAck = true →
      (count net.log a).accept t.ackNum = (count net.log a).acked) :
        AllAccounted (onFinWait kernel net a t) := by
  simp only [onFinWait]
  by_cases reset : t.has flagRst = true
  · rw [if_pos reset]
    exact accounted_free all
  · rw [if_neg reset]
    have heard : AllAccounted (net.note a (.heard (t.has flagAck) t.ackNum)) := by
      refine accounted_note all ?_
      cases ack : t.has flagAck with
      | false => rfl
      | true => exact congrArg (Count.mk _) (nothing (Bool.eq_false_iff.mpr reset) ack)
    have stamped := accounted_set (a := a)
      (s := { net.sockets a with lastActivity := net.now }) heard rfl rfl id
    split
    · apply accounted_free
      apply accounted_bare kernel (by decide) (by decide)
      apply accounted_note ?_ rfl
      exact accounted_set stamped rfl rfl id
    · exact stamped

theorem accounted_listenSyn {kernel : Nat → Bool} {pool : List Nat} (t : Segment) (all : AllAccounted net)
    (again : ∀ d, findConn net pool t a = some d → if untouched (net.sockets d) then
        if kernel net.attempts then (net.sockets d).txAcked.toNat = min (count net.log d).acked 1
        else (net.sockets d).seqNum = 1
      else kernel net.attempts = true)
    (fresh : findConn net pool t a = none → slotTaken net pool ≠ none → kernel net.attempts = true) :
    AllAccounted (onListenSyn kernel net pool a t) := by
  simp only [onListenSyn]
  cases found : findConn net pool t a with
  | none => exact accounted_openPassive t all (fresh found)
  | some d =>
      have again := again d found
      by_cases idle : untouched (net.sockets d) = true
      · have state : (net.sockets d).state = .established := by
          simp only [untouched, Bool.and_eq_true, beq_iff_eq] at idle
          exact idle.1.1
        rw [if_pos idle] at again
        simp only [idle, if_true]
        exact accounted_repeat t all state again
      · rw [if_neg idle] at again
        simp only [idle, Bool.false_eq_true, if_false]
        refine accounted_openPassive t (accounted_free all) fun _ => ?_
        rw [free_attempts]
        exact again

theorem accounted_read (kernel : Nat → Bool) (maxlen : Nat) (all : AllAccounted net) :
    AllAccounted (tcpRead kernel net a maxlen).1 := by
  have drained : AllAccounted ((net.set a { net.sockets a with rx := [] }).note a
      (.returned ((net.sockets a).rx.take maxlen))) := by
    apply accounted_note ?_ rfl
    exact accounted_set all rfl rfl id
  simp only [tcpRead]
  split
  · exact accounted_bare kernel (by decide) (by decide) drained
  · exact drained

theorem accounted_write (kernel : Nat → Bool) (len : Nat) (all : AllAccounted net)
    (room : kernel net.attempts = true → len ≤ tcpMaxPayload →
      (count net.log a).sent + len < (count net.log a).acked + 2 ^ 31) :
    AllAccounted (tcpWrite kernel net a len).1 := by
  have sent : AllAccounted (sendTcpPacket kernel net a len flagAck) :=
    accounted_send kernel len (by decide) all room
  simp only [tcpWrite]
  split
  · exact sent
  · exact accounted_set sent rfl rfl id

theorem accounted_close (kernel : Nat → Bool) (all : AllAccounted net)
    (room : (net.sockets a).state = .established ∨ (net.sockets a).state = .closeWait →
      kernel net.attempts = true → (count net.log a).sent + 1 < (count net.log a).acked + 2 ^ 31) :
    AllAccounted (tcpClose kernel net a) := by
  -- the FIN is the one segment of a close that takes a sequence number
  have ends (open_ : kernel net.attempts = true →
      (count net.log a).sent + 1 < (count net.log a).acked + 2 ^ 31) (now : UInt32) :
      AllAccounted ((sendTcpPacket kernel net a 0 (flagFin ||| flagAck)).set a
        { (sendTcpPacket kernel net a 0 (flagFin ||| flagAck)).sockets a with
          state := .finWait, lastActivity := now }) := by
    have sent : AllAccounted (sendTcpPacket kernel net a 0 (flagFin ||| flagAck)) :=
      accounted_send kernel 0 (by decide) all fun handed _ => open_ handed
    exact accounted_set sent rfl rfl fun state => SocketState.noConfusion state
  simp only [tcpClose]
  cases state : (net.sockets a).state with
  | closed => exact accounted_free all
  | listening => exact accounted_free all
  | synSent => exact accounted_free (accounted_bare kernel (by decide) (by decide) all)
  | established => exact ends (room (Or.inl state)) _
  | finWait => exact all
  | closeWait => exact ends (room (Or.inr state)) _

theorem accounted_connect {kernel : Nat → Bool} {pool : List Nat} (remoteIp : UInt32)
    (remotePort localPort : UInt16) (localIp : UInt32) (all : AllAccounted net)
    (handed : slotTaken net pool ≠ none → kernel net.attempts = true) :
    AllAccounted (tcpConnect kernel net pool remoteIp remotePort localPort localIp).1 := by
  simp only [tcpConnect]
  cases got : allocSocket net pool with
  | none => exact all
  | some result =>
      obtain ⟨net', c⟩ := result
      obtain ⟨taken, _, acked, _⟩ := alloc_taken got
      obtain ⟨apart, empty⟩ := alloc_apart got
      have out := handed (by rw [taken]; exact Option.some_ne_none c)
      rw [← (alloc_log got).2] at out
      refine accounted_only (a := c) all (((apart.set _).send kernel _ _).set _) ?_
      dsimp only
      rw [set_log, send_syn (by decide) (by exact out), set_log, empty]
      apply accounted_syn <;> simp [send_self, acked]

theorem accounted_socket {pool : List Nat} (all : AllAccounted net)
    (unused : ∀ c, slotTaken net pool = some c → (net.sockets c).seqNum = 0) :
    AllAccounted (socketTcp4 net pool).1 := by
  simp only [socketTcp4]
  cases got : allocSocket net pool with
  | none => exact all
  | some result =>
      obtain ⟨net', c⟩ := result
      obtain ⟨taken, seq, acked, _⟩ := alloc_taken got
      obtain ⟨apart, empty⟩ := alloc_apart got
      refine accounted_only (a := c) all (apart.set _) ?_
      dsimp only
      rw [set_same, set_log, empty]
      exact ⟨seq.trans (unused c taken), acked, Nat.le_refl _, by decide, fun _ => rfl⟩

theorem accounted_reapOne (kernel : Nat → Bool) (idleSecs : UInt32) (protect : Nat → Bool) (i : Nat)
    (all : AllAccounted net) : AllAccounted (reapOne kernel idleSecs protect net i a).1 := by
  simp only [reapOne]
  generalize (if net.now ≥ (net.sockets a).lastActivity then _ else _ : UInt32) = idle
  split
  · exact all
  split
  · split
    · exact accounted_free all
    · exact all
  split
  · exact all
  split
  · exact accounted_free (accounted_bare kernel (by decide) (by decide) all)
  · exact accounted_free all

theorem accounted_reap (kernel : Nat → Bool) (pool : List Nat) (idleSecs : UInt32)
    (protect : Nat → Bool) (all : AllAccounted net) :
    AllAccounted (socketReap kernel net pool idleSecs protect).1 := by
  simp only [socketReap]
  split
  case isTrue => exact all
  case isFalse ticking =>
    clear ticking
    generalize pool.zipIdx = slots
    generalize (0 : UInt8) = freed
    induction slots generalizing net freed with
    | nil => exact all
    | cons slot rest ih => exact ih (accounted_reapOne (a := slot.1) kernel idleSecs protect slot.2 all) _

theorem accounted_init (pool : List Nat) (all : AllAccounted net) :
    AllAccounted (socketPoolInit net pool) := by
  simp only [socketPoolInit]
  generalize pool.zipIdx = slots
  induction slots generalizing net with
  | nil => exact all
  | cons slot rest ih =>
      refine ih (accounted_only (a := slot.1) all
        (((((Apart.refl slot.1 net).set _).buffer slot.1 none).note _).set _) ?_)
      have empty : count (initOne net slot.2 slot.1).log slot.1 = {} := by
        simp [initOne, buffer_sockets]
        rfl
      rw [empty]
      constructor <;> simp [initOne, serial]

end Steps

/-- What the caller, the peer and the kernel have to keep to at a step. A SYN-ACK
acknowledges nothing beyond what was sent, and a segment after a close nothing
new; a SYN goes out, and one that is repeated finds `tx_acked` as its SYN left it;
data and a FIN leave less than half of the number space in flight; and
`socket_tcp4` takes a slot that has sent nothing since the pool was set up. -/
def keepsBehind (kernel : Nat → Bool) (net : Net) : Op → Bool
  | .packet pool t =>
      match route net pool t with
      | some (a, .synAck) => decide (t.ackNum ≤ (net.sockets a).seqNum)
      | some (a, .finWait) =>
          t.has flagRst || !t.has flagAck || (count net.log a).accept t.ackNum == (count net.log a).acked
      | some (a, .challenge) => kernel (net.attempts + 1) || (net.sockets a).seqNum == 1
      | some (a, .listenSyn) =>
          match findConn net pool t a with
          | some d =>
              if untouched (net.sockets d) then
                if kernel net.attempts then (net.sockets d).txAcked.toNat == min (count net.log d).acked 1
                else (net.sockets d).seqNum == 1
              else kernel net.attempts
          | none => (slotTaken net pool).isNone || kernel net.attempts
      | _ => true
  | .connect pool _ _ _ _ => (slotTaken net pool).isNone || kernel net.attempts
  | .write a len =>
      !kernel net.attempts || decide (tcpMaxPayload < len) ||
        decide ((count net.log a).sent + len < (count net.log a).acked + 2 ^ 31)
  | .close a =>
      !((net.sockets a).state == .established || (net.sockets a).state == .closeWait) ||
        !kernel net.attempts || decide ((count net.log a).sent + 1 < (count net.log a).acked + 2 ^ 31)
  | .socket pool => (slotTaken net pool).all fun c => (net.sockets c).seqNum == 0
  | _ => true

theorem accounted_packet {kernel : Nat → Bool} {net : Net} {pool : List Nat} {t : Segment}
    (all : AllAccounted net) (kept : keepsBehind kernel net (.packet pool t) = true) :
    AllAccounted (onTcpPacket kernel net pool t) := by
  simp only [onTcpPacket]
  simp only [keepsBehind] at kept
  cases routed : route net pool t with
  | none => exact all
  | some entry =>
      obtain ⟨a, branch⟩ := entry
      obtain ⟨_, state⟩ := classify_state (route_classify routed)
      simp only [routed] at kept
      cases branch with
      | listenSyn =>
          refine accounted_listenSyn t all (fun d found => ?_) fun found some_ => ?_
          · simp only [found] at kept
            split at kept
            · rename_i idle
              rw [if_pos idle]
              split at kept
              · rename_i out
                rw [if_pos out]
                exact beq_iff_eq.mp kept
              · rename_i out
                rw [if_neg out]
                exact beq_iff_eq.mp kept
            · rename_i idle
              rw [if_neg idle]
              exact kept
          · simp only [found, Bool.or_eq_true, Option.isNone_iff_eq_none] at kept
            exact kept.resolve_left some_
      | synSentReset => exact accounted_free all
      | challenge =>
          simp only [Bool.or_eq_true, beq_iff_eq] at kept
          exact accounted_challenge t all state kept
      | synAck => exact accounted_synAck kernel t all state (of_decide_eq_true kept)
      | finWait =>
          refine accounted_finWait kernel t all fun noReset ack => ?_
          simpa [noReset, ack] using kept
      | opened =>
          apply accounted_opened kernel t all
          intro dialling
          rcases state with state | state
          · exact absurd (dialling.symm.trans state) (by decide)
          · exact absurd (dialling.symm.trans state) (by decide)

theorem accounted_step {kernel : Nat → Bool} {net : Net} {op : Op} (all : AllAccounted net)
    (kept : keepsBehind kernel net op = true) : AllAccounted (step kernel net op) := by
  cases op with
  | init pool => exact accounted_init pool all
  | socket pool =>
      apply accounted_socket all
      intro c taken
      simpa [keepsBehind, taken] using kept
  | bind a port => exact accounted_set all rfl rfl id
  | listen a => exact accounted_set all rfl rfl fun state => SocketState.noConfusion state
  | connect pool ip port localPort localIp =>
      refine accounted_connect ip port localPort localIp all fun some_ => ?_
      simp only [keepsBehind, Bool.or_eq_true, Option.isNone_iff_eq_none] at kept
      exact kept.resolve_left some_
  | packet pool t => exact accounted_packet all kept
  | read a maxlen => exact accounted_read kernel maxlen all
  | write a len =>
      refine accounted_write kernel len all fun handed fits => ?_
      have short : ¬tcpMaxPayload < len := Nat.not_lt.mpr fits
      simpa [keepsBehind, handed, short] using kept
  | close a =>
      refine accounted_close kernel all fun open_ handed => ?_
      simp only [keepsBehind, handed, Bool.or_eq_true, Bool.not_eq_true', Bool.or_eq_false_iff,
        beq_eq_false_iff_ne, decide_eq_true_eq, Bool.not_true, Bool.false_eq_true, or_false] at kept
      rcases kept with neither | room
      · rcases open_ with open_ | open_
        · exact absurd open_ neither.1
        · exact absurd open_ neither.2
      · exact room
  | setBuffer a buffer =>
      intro b
      rw [step, (buffer_sockets net a buffer).1, (buffer_sockets net a buffer).2]
      exact all b
  | reap pool idleSecs protect => exact accounted_reap kernel pool idleSecs protect all
  | time secs => exact all

theorem accounted_run {kernel : Nat → Bool} {net : Net} {ops : List Op} (all : AllAccounted net)
    (kept : meets kernel (keepsBehind kernel) net ops = true) : AllAccounted (run kernel net ops) := by
  induction ops generalizing net with
  | nil => exact all
  | cons op rest ih =>
      simp only [meets, Bool.and_eq_true] at kept
      exact ih (accounted_step all kept.1) kept.2

theorem accounted_start : AllAccounted {} :=
  fun _ => ⟨rfl, rfl, Nat.le_refl _, (by decide : (0 : Nat) < 0 + 2 ^ 31), fun _ => rfl⟩

/-- The sequence numbers sent and not acknowledged, as the log has them. -/
def outstanding (net : Net) (a : Nat) : Nat := (count net.log a).sent - (count net.log a).acked

/-- `tx_acked` is at most half of the number space behind `seq_num` and never ahead of
it, and `tcp_bytes_in_flight` counts what was sent and has not been acknowledged. -/
structure Behind (net : Net) (a : Nat) : Prop where
  order : ((net.sockets a).seqNum - (net.sockets a).txAcked).toNat < 2 ^ 31
  flight : (tcpBytesInFlight (net.sockets a)).toNat = outstanding net a

/-- So it is at every socket, in every state of a run whose steps keep to `keepsBehind`. -/
theorem acked_never_ahead (kernel : Nat → Bool) (ops : List Op)
    (kept : meets kernel (keepsBehind kernel) {} ops = true) (a : Nat) : Behind (run kernel {} ops) a := by
  have accounted := accounted_run accounted_start kept a
  have near := accounted.near
  refine ⟨?_, in_flight_eq accounted⟩
  rw [accounted.difference]
  omega

/-! A client that dials port 80 and gets a SYN-ACK, writes, and gets an ACK of a part. -/

def dialled : List Op := [.init [0, 1], .connect [0, 1] 0x0a030401 80 4000 0x0a030402]

def synAckOf (ackNum : UInt32) : Segment where
  srcIp := 0x0a030401
  dstIp := 0x0a030402
  sourcePort := 80
  destPort := 4000
  seqNum := 100
  ackNum := ackNum
  headerLen := 20
  flags := flagSyn ||| flagAck
  windowSize := 4096
  packet := List.replicate 20 0

def written : List Op := dialled ++ [.packet [0, 1] (synAckOf 1), .write 0 300,
  .packet [0, 1] { synAckOf 101 with flags := flagAck, seqNum := 101 }]

theorem write_is_in_flight : outstanding (run everySend {} written) 0 = 200 ∧
    (tcpBytesInFlight ((run everySend {} written).sockets 0)).toNat = 200 := by
  have sent : outstanding (run everySend {} written) 0 = 200 := by decide
  exact ⟨sent, ((acked_never_ahead everySend written (by decide) 0).flight).trans sent⟩

/-- A SYN-ACK that acknowledges a thousand numbers after the SYN puts `tx_acked`
ahead of `seq_num`; one with a number just past half of the number space makes
`tcp_bytes_in_flight` count what was never sent. -/
theorem forged_ack_runs_ahead :
    ¬ (∀ (kernel : Nat → Bool) (ops : List Op) (a : Nat), Behind (run kernel {} ops) a) ∧
    (tcpBytesInFlight ((run everySend {} (dialled ++
      [.packet [0, 1] (synAckOf 0x80000002)])).sockets 0)).toNat =
      2147483647 := by
  constructor
  · intro claimed
    have ahead := (claimed everySend (dialled ++ [.packet [0, 1] (synAckOf 1000)]) 0).order
    exact absurd ahead (by decide)
  · decide

end R2Apps.TcpSending
