import Mathlib.Algebra.Ring.Nat
import R2Apps.MementoSnapshots

/-! The ring of commands in the shared block: what the callback gets is what `send` accepted, in order,
no slot is filled again before it has been read, and the counters may wrap. A drain takes what was
there when it began. Behind them, the block is not touched once the client has gone. -/
namespace R2Apps.MementoQueue
open MementoBlock MementoSnapshots

variable {W : Nat}

/-! ## Counters that wrap -/

/-- The slot of command number `k`. -/
def slot (k : Nat) : UInt32 := UInt32.ofNat k % QueueSize

theorem slot_inj {j k : Nat} (near : j < k) (close : k < j + 32) : slot j ≠ slot k := by
  intro same
  have values := congrArg UInt32.toNat same
  have size : QueueSize.toNat = 32 := rfl
  simp only [slot, UInt32.toNat_mod, UInt32.toNat_ofNat', size] at values
  omega

theorem ofNat_sub {head tail : Nat} (ordered : tail ≤ head) :
    (UInt32.ofNat head - UInt32.ofNat tail).toNat = (head - tail) % 2 ^ 32 := by
  rw [UInt32.toNat_sub]
  simp only [UInt32.toNat_ofNat']
  omega

theorem size_lt_iff {head tail : Nat} (ordered : tail ≤ head) (close : head ≤ tail + 32) :
    ¬ UInt32.ofNat head - UInt32.ofNat tail > QueueSize := by
  have size : QueueSize.toNat = 32 := rfl
  rw [gt_iff_lt, UInt32.lt_iff_toNat_lt, ofNat_sub ordered, size]
  omega

theorem room_iff {head tail : Nat} (ordered : tail ≤ head) (close : head ≤ tail + 32) :
    UInt32.ofNat head - UInt32.ofNat tail ≥ QueueSize ↔ head = tail + 32 := by
  have size : QueueSize.toNat = 32 := rfl
  rw [ge_iff_le, UInt32.le_iff_toNat_le, ofNat_sub ordered, size]
  omega

theorem ofNat_ne_iff {head tail : Nat} (ordered : tail ≤ head) (close : head ≤ tail + 32) :
    UInt32.ofNat tail ≠ UInt32.ofNat head ↔ tail < head := by
  rw [ne_eq, ← UInt32.toNat_inj]
  simp only [UInt32.toNat_ofNat']
  omega

/-! ## The invariant -/

/-- The head that a drain goes by. -/
structure Counters (taken entry sent : Nat) (head : UInt32) : Prop where
  head : head = UInt32.ofNat entry
  behind : taken ≤ entry
  there : entry ≤ sent

def DrainOk (s : State W) : DrainPc → Prop
  | .head => True
  | .tail head => Counters s.taken s.entry s.sent.length head
  | .copy head tail got done =>
    Counters s.taken s.entry s.sent.length head ∧ tail = UInt32.ofNat s.taken ∧ s.taken < s.entry ∧
      ∀ c, s.sent[s.taken]? = some c → SoFar c got done
  | .store head tail command =>
    Counters s.taken s.entry s.sent.length head ∧ tail = UInt32.ofNat (s.taken + 1) ∧ s.taken < s.entry ∧
      s.sent[s.taken]? = some command
  | .handle head tail command => Counters s.taken s.entry s.sent.length head ∧ tail = UInt32.ofNat s.taken ∧
      s.sent[s.handled.length]? = some command

def ClientOk (s : State W) : ClientPc W → Prop
  | .poll (.tail head) => ∃ n, head = UInt32.ofNat n ∧ s.taken ≤ n ∧ n ≤ s.sent.length
  | .drain d => DrainOk s d ∧ s.client.loop = none
  | .stop reason => reason ≠ .badQueue
  | _ => True

def SendOk (s : State W) : SendPc → Prop
  | .exited _ => True
  | .head _ => True
  | .tail _ head => head = UInt32.ofNat s.sent.length
  | .copy command head done => head = UInt32.ofNat s.sent.length ∧ s.sent.length < s.taken + 32 ∧
      SoFar command (s.block.commands (slot s.sent.length)) done
  | .store command head => head = UInt32.ofNat s.sent.length ∧ s.sent.length < s.taken + 32 ∧
      s.block.commands (slot s.sent.length) = command

/-- The client has read a command out of its slot and not handed it on yet. -/
def handing : ClientPc W → Nat
  | .drain (.handle _ _ _) => 1
  | _ => 0

structure Queued (s : State W) : Prop where
  head : s.block.head = UInt32.ofNat s.sent.length
  tail : s.block.tail = UInt32.ofNat s.taken
  ordered : s.taken ≤ s.sent.length
  close : s.sent.length ≤ s.taken + 32
  slots : ∀ k, s.taken ≤ k → ∀ c, s.sent[k]? = some c → s.block.commands (slot k) = c
  handled : s.handled = s.sent.take s.handled.length
  count : s.taken = s.handled.length + handing s.client.pc
  entered : s.called ≤ s.entry ∧ s.entry ≤ s.sent.length
  loop : ∀ head tail, s.client.loop = some (head, tail) →
    Counters s.taken s.entry s.sent.length head ∧ tail = UInt32.ofNat s.taken
  client : ClientOk s s.client.pc
  sending : ∀ p, s.host.pc = .send p → SendOk s p
  reason : s.client.reason ≠ .badQueue

/-! ## The client -/

theorem queued_client {s : State W} (q : Queued s) (pc : ClientPc W) (same : handing pc = handing s.client.pc)
    (ok : ClientOk s pc) : Queued (s.setClient pc) :=
  ⟨q.head, q.tail, q.ordered, q.close, q.slots, q.handled, q.count.trans (congrArg _ same.symm),
    q.entered, q.loop,
    ok, q.sending, q.reason⟩

theorem pollStep_queued {s : State W} (q : Queued s) (p : PollPc) (here : s.client.pc = .poll p) :
    Queued (s.pollStep p) := by
  have ok := q.client
  rw [here] at ok
  have idle : handing s.client.pc = 0 := by
    rw [here]
    rfl
  cases p with
  | quit now =>
      simp only [State.pollStep]
      split
      · exact queued_client q _ idle.symm (by rintro ⟨⟩)
      · exact queued_client q _ idle.symm trivial
  | beat now =>
      simp only [State.pollStep]
      split
      · exact ⟨q.head, q.tail, q.ordered, q.close, q.slots, q.handled,
          q.count.trans (congrArg _ idle), q.entered,
          q.loop, trivial, q.sending, q.reason⟩
      · split
        · exact queued_client q _ idle.symm (by rintro ⟨⟩)
        · exact queued_client q _ idle.symm trivial
  | add =>
      exact ⟨q.head, q.tail, q.ordered, q.close, q.slots, q.handled,
        q.count.trans (congrArg _ idle), q.entered,
        q.loop, trivial, q.sending, q.reason⟩
  | head => exact queued_client q _ idle.symm ⟨s.sent.length, q.head, q.ordered, Nat.le_refl _⟩
  | tail head =>
      obtain ⟨n, rfl, low, high⟩ := ok
      have close := q.close
      simp only [State.pollStep, q.tail]
      rw [if_neg (size_lt_iff low (by omega))]
      exact queued_client q _ idle.symm trivial

theorem drainLoop_queued {s : State W} (q : Queued s) (still : s.taken = s.handled.length)
    {head tail : UInt32}
    (counters : Counters s.taken s.entry s.sent.length head) (at_ : tail = UInt32.ofNat s.taken)
    (fresh : s.client.loop = none) :
    Queued (s.drainLoop head tail) := by
  have close := q.close
  have behind := counters.behind
  have there := counters.there
  unfold State.drainLoop
  rw [counters.head, at_]
  split
  · next more =>
    rw [ofNat_ne_iff behind (by omega)] at more
    exact ⟨q.head, q.tail, q.ordered, q.close, q.slots, q.handled, still, q.entered, q.loop,
      ⟨⟨⟨rfl, behind, there⟩, rfl, more, fun c _ => soFar_none _ _⟩, fresh⟩, q.sending, q.reason⟩
  · next done =>
    rw [ofNat_ne_iff behind (by omega)] at done
    exact ⟨q.head, q.tail, q.ordered, q.close, q.slots, q.handled, still, q.entered,
      by rintro _ _ ⟨⟩, trivial,
      q.sending, q.reason⟩

/-- Tail moves on: the slot is given back to the host, and the command is still to be handed over. -/
theorem storeTail_queued {s : State W} (q : Queued s) (c : Choice W) {head tail : UInt32} {command : Command}
    (here : s.client.pc = .drain (.store head tail command)) (ok : DrainOk s (.store head tail command))
    (fresh : s.client.loop = none) : Queued (s.drainStep c (.store head tail command)) := by
  have count := q.count
  have close := q.close
  rw [here] at count
  obtain ⟨counters, at_, more, is⟩ := ok
  have there := counters.there
  change s.taken = s.handled.length + 0 at count
  refine ⟨q.head, at_, ?_, ?_, ?_, q.handled, ?_, q.entered, ?_, ⟨⟨?_, at_, ?_⟩, fresh⟩, ?_, q.reason⟩
  · simp only [State.drainStep]
    omega
  · simp only [State.drainStep]
    omega
  · intro k low c there
    exact q.slots k (Nat.le_of_succ_le low) c there
  · simp only [State.drainStep, handing]
    omega
  · intro h t loop
    rw [State.drainStep] at loop
    rw [fresh] at loop
    cases loop
  · exact ⟨counters.head, more, there⟩
  · simp only [State.drainStep]
    rw [← Nat.add_zero s.handled.length, ← count]
    exact is
  · intro p sends
    have sending := q.sending p sends
    cases p with
    | exited command => exact trivial
    | head command => exact trivial
    | tail command head => exact sending
    | copy command head done =>
        obtain ⟨place, room, far⟩ := sending
        exact ⟨place, Nat.lt_of_lt_of_le room (Nat.add_le_add_right (Nat.le_add_right _ 1) 32), far⟩
    | store command head =>
        obtain ⟨place, room, whole⟩ := sending
        exact ⟨place, Nat.lt_of_lt_of_le room (Nat.add_le_add_right (Nat.le_add_right _ 1) 32), whole⟩

theorem drainStep_queued {s : State W} (q : Queued s) (c : Choice W) (d : DrainPc)
    (here : s.client.pc = .drain d) :
    Queued (s.drainStep c d) := by
  have ok := q.client
  rw [here] at ok
  obtain ⟨ok, fresh⟩ := ok
  have count := q.count
  rw [here] at count
  have close := q.close
  cases d with
  | head =>
      have before : s.called ≤ s.sent.length := Nat.le_trans q.entered.1 q.entered.2
      refine ⟨q.head, q.tail, q.ordered, q.close, q.slots, q.handled, count,
        ⟨before, Nat.le_refl _⟩, ?_, ⟨?_, fresh⟩,
        q.sending, q.reason⟩
      · intro head tail is
        rw [State.drainStep] at is
        rw [fresh] at is
        cases is
      · exact ⟨q.head, q.ordered, Nat.le_refl _⟩
  | tail head =>
      have counters : Counters s.taken s.entry s.sent.length head := ok
      have behind := counters.behind
      have there := counters.there
      simp only [State.drainStep, q.tail]
      rw [counters.head, if_neg (size_lt_iff behind (by omega))]
      exact drainLoop_queued q count ⟨rfl, behind, there⟩ rfl fresh
  | copy head tail got done =>
      obtain ⟨counters, at_, more, far⟩ := ok
      have there := counters.there
      cases c with
      | word i => exact q
      | half i =>
          refine queued_client q _ (by rw [here]; rfl) ⟨⟨counters, at_, more, fun c is => ?_⟩, fresh⟩
          have read := q.slots s.taken (Nat.le_refl _) c is
          rw [slot, ← at_] at read
          rw [read]
          exact soFar_word (far c is) i
      | next =>
          simp only [State.drainStep]
          split
          · next all =>
            refine queued_client q _ (by rw [here]; rfl) ⟨⟨counters, ?_, more, ?_⟩, fresh⟩
            · rw [at_, UInt32.ofNat_add]
              rfl
            · have inside : s.taken < s.sent.length := by omega
              rw [soFar_all (far _ (List.getElem?_eq_getElem inside)) all]
              exact List.getElem?_eq_getElem inside
          · exact q
  | store head tail command => exact storeTail_queued q c here ok fresh
  | handle head tail command =>
      obtain ⟨counters, at_, is⟩ := ok
      change s.taken = s.handled.length + 1 at count
      refine ⟨q.head, q.tail, q.ordered, q.close, q.slots, ?_, ?_, q.entered, ?_, trivial,
        q.sending, q.reason⟩
      · simp only [State.drainStep, List.length_append, List.length_singleton]
        rw [List.take_add_one, is, ← q.handled]
        rfl
      · simp only [State.drainStep, List.length_append, List.length_singleton, handing]
        exact count
      · rintro h t ⟨⟩
        exact ⟨⟨counters.head, counters.behind, counters.there⟩, at_⟩

/-! ## The host -/

theorem queued_host {s : State W} (q : Queued s) (pc : HostPc W) (ok : ∀ p, pc = .send p → SendOk s p) :
    Queued (s.setHost pc) :=
  ⟨q.head, q.tail, q.ordered, q.close, q.slots, q.handled, q.count, q.entered, q.loop, q.client, ok, q.reason⟩

/-- Another command at the end changes nothing for what the client looks at. -/
theorem clientOk_append {s t : State W} {pc : ClientPc W} {command : Command} (ok : ClientOk s pc)
    (sent : t.sent = s.sent ++ [command]) (taken : t.taken = s.taken) (entry : t.entry = s.entry)
    (handled : t.handled = s.handled) (loop : t.client.loop = s.client.loop) : ClientOk t pc := by
  have longer : s.sent.length ≤ t.sent.length := by simp [sent]
  have kept {k : Nat} {c : Command} (there : s.sent[k]? = some c) : t.sent[k]? = some c := by
    obtain ⟨inside, -⟩ := List.getElem?_eq_some_iff.mp there
    rw [sent, List.getElem?_append_left inside, there]
  have counters {head : UInt32} (c : Counters s.taken s.entry s.sent.length head) :
      Counters t.taken t.entry t.sent.length head := by
    rw [taken, entry]
    exact ⟨c.head, c.behind, Nat.le_trans c.there longer⟩
  cases pc with
  | poll p =>
      cases p with
      | tail head =>
          obtain ⟨n, is, low, high⟩ := ok
          exact ⟨n, is, taken ▸ low, Nat.le_trans high longer⟩
      | _ => exact trivial
  | drain d =>
      obtain ⟨ok, fresh⟩ := ok
      refine ⟨?_, loop.trans fresh⟩
      cases d with
      | head => exact trivial
      | tail head => exact counters ok
      | copy head tail got done =>
          obtain ⟨c, place, more, far⟩ := ok
          have there := c.there
          refine ⟨counters c, taken ▸ place, by omega, fun command is => far command ?_⟩
          rwa [taken, sent, List.getElem?_append_left (by omega)] at is
      | store head tail command =>
          obtain ⟨c, place, more, is⟩ := ok
          exact ⟨counters c, taken ▸ place, by omega, taken ▸ kept is⟩
      | handle head tail command =>
          obtain ⟨c, place, is⟩ := ok
          exact ⟨counters c, taken ▸ place, handled ▸ kept is⟩
  | _ => exact ok

theorem storeHead_queued {s : State W} (q : Queued s) (c : Choice W) {head : UInt32} {command : Command}
    (ok : SendOk s (.store command head)) : Queued (s.sendStep c (.store command head)) := by
  have ordered := q.ordered
  have close := q.close
  obtain ⟨rfl, room, whole⟩ := ok
  have longer : s.sent.length ≤ (s.sent ++ [command]).length := by simp
  refine ⟨?_, q.tail, Nat.le_trans ordered longer, ?_, ?_, ?_, q.count,
    ⟨q.entered.1, Nat.le_trans q.entered.2 longer⟩, ?_, ?_, by rintro _ ⟨⟩,
    q.reason⟩
  · simp only [State.sendStep, List.length_append, List.length_singleton, UInt32.ofNat_add]
    rfl
  · simp only [State.sendStep, List.length_append, List.length_singleton]
    omega
  · intro k low c there
    rcases Nat.lt_or_ge k s.sent.length with inside | outside
    · refine q.slots k low c ?_
      rwa [State.sendStep, List.getElem?_append_left inside] at there
    · rw [State.sendStep, List.getElem?_append_right outside] at there
      obtain ⟨only, rfl⟩ := List.getElem?_eq_some_iff.mp there
      rw [List.length_singleton] at only
      obtain rfl : k = s.sent.length := by omega
      simp only [Nat.sub_self, List.getElem_cons_zero]
      exact whole
  · simp only [State.sendStep]
    rw [List.take_append_of_le_length]
    · exact q.handled
    · have count := q.count
      omega
  · intro head tail is
    obtain ⟨c, place⟩ := q.loop head tail is
    exact ⟨⟨c.head, c.behind, Nat.le_trans c.there longer⟩, place⟩
  · exact clientOk_append q.client rfl rfl rfl rfl rfl

theorem sendStep_queued {s : State W} (q : Queued s) (c : Choice W) (p : SendPc)
    (here : s.host.pc = .send p) :
    Queued (s.sendStep c p) := by
  have ok := q.sending p here
  have ordered := q.ordered
  have close := q.close
  cases p with
  | exited command =>
      simp only [State.sendStep]
      split
      · exact queued_host q _ (by rintro _ ⟨⟩)
      · exact queued_host q _ (by rintro _ ⟨⟩; exact trivial)
  | head command => exact queued_host q _ (by rintro _ ⟨⟩; exact q.head)
  | tail command head =>
      obtain rfl : head = UInt32.ofNat s.sent.length := ok
      simp only [State.sendStep, q.tail]
      split
      · exact queued_host q _ (by rintro _ ⟨⟩)
      · next room =>
        rw [room_iff ordered close] at room
        refine queued_host q _ ?_
        rintro _ ⟨⟩
        exact ⟨rfl, by omega, soFar_none _ _⟩
  | copy command head done =>
      obtain ⟨rfl, room, far⟩ := ok
      cases c with
      | word i => exact q
      | half i =>
          refine ⟨q.head, q.tail, ordered, close, ?_, q.handled, q.count, q.entered, q.loop,
            q.client, ?_, q.reason⟩
          · intro k low c there
            -- the slots that are still to be read are others
            obtain ⟨inside, -⟩ := List.getElem?_eq_some_iff.mp there
            have inside' : k < s.sent.length := inside
            have low' : s.taken ≤ k := low
            have apart : slot k ≠ slot s.sent.length := slot_inj inside' (by omega)
            exact (Function.update_of_ne apart _ _).trans (q.slots k low' c there)
          · rintro _ ⟨⟩
            refine ⟨rfl, room, ?_⟩
            have filled : SoFar command (Function.update s.block.commands (slot s.sent.length)
                (copyWord command (s.block.commands (slot s.sent.length)) i) (slot s.sent.length))
                (alsoDone done i) := by
              rw [Function.update_self]
              exact soFar_word far i
            exact filled
      | next =>
          simp only [State.sendStep]
          split
          · next all =>
            refine queued_host q _ ?_
            rintro _ ⟨⟩
            exact ⟨rfl, room, soFar_all far all⟩
          · exact q
  | store command head => exact storeHead_queued q c ok

/-! ## Everything else -/

theorem queued_frame {s t : State W} (q : Queued s) (head : t.block.head = s.block.head)
    (tail : t.block.tail = s.block.tail) (commands : t.block.commands = s.block.commands)
    (sent : t.sent = s.sent)
    (taken : t.taken = s.taken) (entry : t.entry = s.entry) (handled : t.handled = s.handled)
    (called : t.called = s.called) (loop : t.client.loop = s.client.loop)
    (same : handing t.client.pc = handing s.client.pc) (client : ClientOk t t.client.pc)
    (sending : ∀ p, t.host.pc = .send p → s.host.pc = .send p) (reason : t.client.reason ≠ .badQueue) :
    Queued t := by
  constructor
  · rw [head, sent]
    exact q.head
  · rw [tail, taken]
    exact q.tail
  · rw [taken, sent]
    exact q.ordered
  · rw [taken, sent]
    exact q.close
  · rw [taken, sent, commands]
    exact q.slots
  · rw [handled, sent]
    exact q.handled
  · rw [taken, handled, same]
    exact q.count
  · rw [called, entry, sent]
    exact q.entered
  · rw [loop, taken, entry, sent]
    exact q.loop
  · exact client
  · intro p is
    have ok := q.sending p (sending p is)
    cases p <;> simp only [SendOk, sent, taken, commands] at ok ⊢ <;> exact ok
  · exact reason

theorem publishStep_queued {s : State W} (q : Queued s) (c : Choice W) (p : PublishPc W)
    (here : s.client.pc = .publish p) : Queued (s.publishStep c p) := by
  have idle : handing s.client.pc = 0 := by
    rw [here]
    rfl
  have aside {t : State W} (head : t.block.head = s.block.head) (tail : t.block.tail = s.block.tail)
      (commands : t.block.commands = s.block.commands) (sent : t.sent = s.sent) (taken : t.taken = s.taken)
      (entry : t.entry = s.entry) (handled : t.handled = s.handled) (called : t.called = s.called)
      (loop : t.client.loop = s.client.loop) (host : t.host = s.host)
        (reason : t.client.reason = s.client.reason)
      (pc : (∃ p, t.client.pc = .publish p) ∨ t.client.pc = .idle) : Queued t := by
    refine queued_frame q head tail commands sent taken entry handled called loop ?_ ?_
      (fun p is => by rwa [host] at is) (reason ▸ q.reason)
    · rcases pc with ⟨p, is⟩ | is <;> rw [is, idle] <;> rfl
    · rcases pc with ⟨p, is⟩ | is <;> rw [is] <;> exact trivial
  cases p with
  | front snapshot =>
      simp only [State.publishStep]
      split
      · exact aside rfl rfl rfl rfl rfl rfl rfl rfl rfl rfl rfl (.inr rfl)
      · exact aside rfl rfl rfl rfl rfl rfl rfl rfl rfl rfl rfl (.inl ⟨_, rfl⟩)
  | reading snapshot front =>
      simp only [State.publishStep]
      split
      · exact aside rfl rfl rfl rfl rfl rfl rfl rfl rfl rfl rfl (.inr rfl)
      · exact aside rfl rfl rfl rfl rfl rfl rfl rfl rfl rfl rfl (.inl ⟨_, rfl⟩)
  | copy snapshot back done =>
      cases c with
      | half i => exact q
      | word i => exact aside rfl rfl rfl rfl rfl rfl rfl rfl rfl rfl rfl (.inl ⟨_, rfl⟩)
      | next =>
          simp only [State.publishStep]
          split
          · exact aside rfl rfl rfl rfl rfl rfl rfl rfl rfl rfl rfl (.inl ⟨_, rfl⟩)
          · exact q
  | store snapshot back => exact aside rfl rfl rfl rfl rfl rfl rfl rfl rfl rfl rfl (.inl ⟨_, rfl⟩)
  | add => exact aside rfl rfl rfl rfl rfl rfl rfl rfl rfl rfl rfl (.inr rfl)

theorem clientOk_congr {s t : State W} {pc : ClientPc W} (ok : ClientOk s pc)
    (loop : t.client.loop = s.client.loop)
    (sent : t.sent = s.sent) (taken : t.taken = s.taken) (entry : t.entry = s.entry)
    (handled : t.handled = s.handled) :
    ClientOk t pc := by
  cases pc with
  | poll p =>
      cases p with
      | tail head =>
          simp only [ClientOk, sent, taken] at ok ⊢
          exact ok
      | _ => exact trivial
  | drain d =>
      refine ⟨?_, loop.trans ok.2⟩
      have ok := ok.1
      cases d <;> simp only [DrainOk, sent, taken, entry, handled] at ok ⊢ <;> exact ok
  | _ => exact ok

theorem queued_aside {s t : State W} (q : Queued s) (head : t.block.head = s.block.head)
    (tail : t.block.tail = s.block.tail) (commands : t.block.commands = s.block.commands)
    (sent : t.sent = s.sent)
    (taken : t.taken = s.taken) (entry : t.entry = s.entry) (handled : t.handled = s.handled)
    (called : t.called = s.called) (client : t.client = s.client)
    (sending : ∀ p, t.host.pc = .send p → s.host.pc = .send p) : Queued t :=
  queued_frame q head tail commands sent taken entry handled called (by rw [client]) (by rw [client])
    (client.symm ▸ clientOk_congr q.client (by rw [client]) sent taken entry handled) sending
      (client ▸ q.reason)

theorem readStep_queued {s : State W} (q : Queued s) (c : Choice W) (r : ReadPc W) :
    Queued (s.readStep c r) := by
  have aside {t : State W} (head : t.block.head = s.block.head) (tail : t.block.tail = s.block.tail)
      (commands : t.block.commands = s.block.commands) (sent : t.sent = s.sent) (taken : t.taken = s.taken)
      (entry : t.entry = s.entry) (handled : t.handled = s.handled) (called : t.called = s.called)
      (client : t.client = s.client) (pc : ∀ p, t.host.pc ≠ .send p) : Queued t :=
    queued_aside q head tail commands sent taken entry handled called client fun p is => absurd is (pc p)
  cases r with
  | frame =>
      simp only [State.readStep]
      split
      all_goals exact aside rfl rfl rfl rfl rfl rfl rfl rfl rfl (by rintro _ ⟨⟩)
  | front frame =>
      simp only [State.readStep]
      split
      all_goals exact aside rfl rfl rfl rfl rfl rfl rfl rfl rfl (by rintro _ ⟨⟩)
  | lease frame front => exact aside rfl rfl rfl rfl rfl rfl rfl rfl rfl (by rintro _ ⟨⟩)
  | check frame front =>
      simp only [State.readStep]
      split
      all_goals exact aside rfl rfl rfl rfl rfl rfl rfl rfl rfl (by rintro _ ⟨⟩)
  | copy frame front number got done =>
      cases c with
      | half i => exact q
      | word i => exact aside rfl rfl rfl rfl rfl rfl rfl rfl rfl (by rintro _ ⟨⟩)
      | next =>
          simp only [State.readStep]
          split
          · exact aside rfl rfl rfl rfl rfl rfl rfl rfl rfl (by rintro _ ⟨⟩)
          · exact q
  | release ready => exact aside rfl rfl rfl rfl rfl rfl rfl rfl rfl (by rintro _ ⟨⟩)

theorem hostStep_queued {s : State W} (q : Queued s) (c : Choice W) : Queued (s.hostStep c) := by
  unfold State.hostStep
  split
  · exact q
  · next p here => exact sendStep_queued q c p here
  · exact readStep_queued q c _
  all_goals exact queued_aside q rfl rfl rfl rfl rfl rfl rfl rfl rfl (by rintro _ ⟨⟩)

theorem queued_touched {s : State W} (q : Queued s) (touched : Bool) : Queued { s with touched := touched } :=
  queued_aside q rfl rfl rfl rfl rfl rfl rfl rfl rfl fun _ => id

theorem clientStep_queued {s : State W} (q : Queued s) (c : Choice W) : Queued (s.clientStep c) := by
  have ok := q.client
  have count := q.count
  unfold State.clientStep
  split
  · exact q
  · next p here => exact queued_touched (pollStep_queued q p here) _
  · next here => exact drainStep_queued q c _ here
  · next d _ here => exact queued_touched (drainStep_queued q c d here) _
  · next p here => exact queued_touched (publishStep_queued q c p here) _
  · next reason here =>
    rw [here] at ok count
    exact ⟨q.head, q.tail, q.ordered, q.close, q.slots, q.handled, count, q.entered, q.loop,
      trivial, q.sending, ok⟩
  · next here =>
    rw [here] at count
    exact ⟨q.head, q.tail, q.ordered, q.close, q.slots, q.handled, count, q.entered, q.loop,
      trivial, q.sending,
      q.reason⟩

theorem free_pc {s : State W} (free : s.free = true) : s.client.pc = .idle := by
  unfold State.free at free
  split at free
  · assumption
  · cases free

theorem running_free {s : State W} (running : s.running = true) : s.client.pc = .idle := by
  simp only [State.running, Bool.and_eq_true] at running
  exact free_pc running.1.1

theorem act_queued {s : State W} (q : Queued s) (e : Event W) : Queued (s.act e) := by
  have call (pc : ClientPc W) (idle : s.client.pc = .idle) (none_ : handing pc = 0) (ok : ClientOk s pc) :
      Queued (s.setClient pc) := queued_client q pc (by rw [idle, none_]; rfl) ok
  have hostCall (pc : HostPc W) (ok : ∀ p, pc = .send p → SendOk s p) : Queued (s.setHost pc) :=
    queued_host q pc ok
  have count := q.count
  cases e with
  | poll now =>
      simp only [State.act]
      split
      · next running => exact call _ (running_free running) rfl trivial
      · exact q
  | drain =>
      simp only [State.act]
      split
      · next running =>
        rw [running_free running.1] at count
        refine ⟨q.head, q.tail, q.ordered, q.close, q.slots, q.handled, count,
          ⟨Nat.le_refl _, Nat.le_refl _⟩, ?_,
          ⟨trivial, running.2⟩, q.sending, q.reason⟩
        intro head tail is
        rw [show s.client.loop = some (head, tail) from is] at running
        cases running.2
      · exact q
  | publish snapshot =>
      simp only [State.act]
      split
      · next running => exact call _ (running_free running) rfl trivial
      · exact q
  | close =>
      simp only [State.act]
      split
      · next free =>
        rw [free_pc free.1] at count
        exact ⟨q.head, q.tail, q.ordered, q.close, q.slots, q.handled, count, q.entered, q.loop,
          trivial, q.sending,
          q.reason⟩
      · exact q
  | callbackReturns =>
      simp only [State.act]
      split
      · next head tail loop =>
        split
        · next free =>
          have idle := free_pc free
          obtain ⟨counters, place⟩ := q.loop head tail loop
          have fresh : Queued ({ s with client := { s.client with loop := none } } : State W) := by
            refine ⟨q.head, q.tail, q.ordered, q.close, q.slots, q.handled, q.count, q.entered,
              by rintro _ _ ⟨⟩, ?_,
              q.sending, q.reason⟩
            simp only [idle]
            exact trivial
          rw [idle] at count
          exact drainLoop_queued fresh count counters place rfl
        · exact q
      · exact q
  | client c => exact clientStep_queued q c
  | send command =>
      simp only [State.act]
      split
      · exact hostCall _ (by rintro _ ⟨⟩; exact trivial)
      · exact q
  | read =>
      simp only [State.act]
      split
      · exact hostCall _ (by rintro _ ⟨⟩)
      · exact q
  | keepAlive =>
      simp only [State.act]
      split
      · exact hostCall _ (by rintro _ ⟨⟩)
      · exact q
  | requestClose =>
      simp only [State.act]
      split
      · exact hostCall _ (by rintro _ ⟨⟩)
      · exact q
  | host c => exact hostStep_queued q c

theorem step_queued {s : State W} (q : Queued s) (e : Event W) : Queued (s.step e) := by
  have next := act_queued q e
  simp only [State.step]
  split
  · exact ⟨next.head, next.tail, next.ordered, next.close, next.slots, next.handled, next.count,
      next.entered, next.loop,
      next.client, next.sending, next.reason⟩
  · exact next

theorem run_queued (events : List (Event W)) : ∀ {s : State W}, Queued s → Queued (s.run events) := by
  induction events with
  | nil => exact fun q => q
  | cons e rest ih => exact fun q => ih (step_queued q e)

theorem connected_queued (beat : UInt32) (now : UInt64) : Queued (connected W beat now) := by
  constructor
  case head => rfl
  case tail => rfl
  case ordered => exact Nat.le_refl _
  case close => exact Nat.zero_le _
  case slots => rintro k - c ⟨⟩
  case handled => rfl
  case count => rfl
  case entered => exact ⟨Nat.le_refl _, Nat.le_refl _⟩
  case loop => rintro _ _ ⟨⟩
  case client => exact trivial
  case sending => rintro _ ⟨⟩
  case reason => rintro ⟨⟩

/-! ## After `Exited` -/

structure Quiet (s : State W) : Prop where
  untouched : s.touched = false
  gone : s.client.attached = false → s.client.loop = none ∧ (s.client.pc = .idle ∨ s.client.pc = .close)
  closing : s.client.pc = .close → s.client.attached = false
  exited : s.block.exited ≠ 0 → s.client.attached = false ∧ s.client.pc = .idle

/-- A step of a call goes on or returns. -/
structure GoesOn (s t : State W) : Prop where
  attached : t.client.attached = s.client.attached
  exited : t.block.exited = s.block.exited
  touched : t.touched = s.touched
  pc : t.client.pc ≠ .close

theorem pollStep_goesOn (s : State W) (p : PollPc) : GoesOn s (s.pollStep p) := by
  cases p <;> simp only [State.pollStep]
  all_goals repeat' split
  all_goals exact ⟨rfl, rfl, rfl, by rintro ⟨⟩⟩

theorem drainLoop_goesOn (s : State W) (head tail : UInt32) : GoesOn s (s.drainLoop head tail) := by
  unfold State.drainLoop
  split
  all_goals exact ⟨rfl, rfl, rfl, by rintro ⟨⟩⟩

theorem drainStep_goesOn {s : State W} (c : Choice W) (d : DrainPc) (here : s.client.pc = .drain d) :
    GoesOn s (s.drainStep c d) := by
  have stays : GoesOn s s := ⟨rfl, rfl, rfl, by rw [here]; rintro ⟨⟩⟩
  cases d with
  | tail head =>
      simp only [State.drainStep]
      split
      · exact ⟨rfl, rfl, rfl, by rintro ⟨⟩⟩
      · exact drainLoop_goesOn s _ _
  | copy head tail got done =>
      cases c with
      | word i => exact stays
      | half i => exact ⟨rfl, rfl, rfl, by rintro ⟨⟩⟩
      | next =>
          simp only [State.drainStep]
          split
          · exact ⟨rfl, rfl, rfl, by rintro ⟨⟩⟩
          · exact stays
  | _ => exact ⟨rfl, rfl, rfl, by rintro ⟨⟩⟩

theorem publishStep_goesOn {s : State W} (c : Choice W) (p : PublishPc W) (here : s.client.pc = .publish p) :
    GoesOn s (s.publishStep c p) := by
  have stays : GoesOn s s := ⟨rfl, rfl, rfl, by rw [here]; rintro ⟨⟩⟩
  cases p with
  | copy snapshot back done =>
      cases c with
      | half i => exact stays
      | word i => exact ⟨rfl, rfl, rfl, by rintro ⟨⟩⟩
      | next =>
          simp only [State.publishStep]
          split
          · exact ⟨rfl, rfl, rfl, by rintro ⟨⟩⟩
          · exact stays
  | front snapshot | reading snapshot front =>
      simp only [State.publishStep]
      split
      all_goals exact ⟨rfl, rfl, rfl, by rintro ⟨⟩⟩
  | _ => exact ⟨rfl, rfl, rfl, by rintro ⟨⟩⟩

theorem busy_attached {s : State W} (q : Quiet s) (busy : s.client.pc ≠ .idle ∧ s.client.pc ≠ .close) :
    s.client.attached = true ∧ s.block.exited = 0 := by
  constructor
  · by_contra left_
    rcases (q.gone (Bool.eq_false_iff.mpr left_)).2 with is | is
    · exact busy.1 is
    · exact busy.2 is
  · by_contra gone
    exact busy.1 (q.exited gone).2

theorem goesOn_quiet {s t : State W} (q : Quiet s) (attached : s.client.attached = true) (g : GoesOn s t) :
    Quiet t := by
  have still := g.attached.trans attached
  refine ⟨g.touched.trans q.untouched, fun left_ => ?_, fun is => absurd is g.pc, fun gone => ?_⟩
  · rw [still] at left_
    cases left_
  · rw [g.exited] at gone
    rw [(q.exited gone).1] at attached
    cases attached

theorem touching_quiet {t : State W} {touched : Bool} (q : Quiet t) {exited : UInt32} (still : exited = 0)
    (before : touched = false) : Quiet { t with touched := touched || decide (exited ≠ 0) } := by
  refine ⟨?_, q.gone, q.closing, q.exited⟩
  rw [still, before]
  rfl

theorem clientStep_quiet {s : State W} (q : Quiet s) (c : Choice W) : Quiet (s.clientStep c) := by
  unfold State.clientStep
  split
  · exact q
  · next p here =>
    obtain ⟨attached, running⟩ := busy_attached q (by rw [here]; exact ⟨by rintro ⟨⟩, by rintro ⟨⟩⟩)
    exact touching_quiet (goesOn_quiet q attached (pollStep_goesOn s p)) running q.untouched
  · next here =>
    obtain ⟨attached, -⟩ := busy_attached q (by rw [here]; exact ⟨by rintro ⟨⟩, by rintro ⟨⟩⟩)
    exact goesOn_quiet q attached (drainStep_goesOn c _ here)
  · next d _ here =>
    obtain ⟨attached, running⟩ := busy_attached q (by rw [here]; exact ⟨by rintro ⟨⟩, by rintro ⟨⟩⟩)
    exact touching_quiet (goesOn_quiet q attached (drainStep_goesOn c d here)) running q.untouched
  · next p here =>
    obtain ⟨attached, running⟩ := busy_attached q (by rw [here]; exact ⟨by rintro ⟨⟩, by rintro ⟨⟩⟩)
    exact touching_quiet (goesOn_quiet q attached (publishStep_goesOn c p here)) running q.untouched
  · next reason here =>
    obtain ⟨attached, running⟩ := busy_attached q (by rw [here]; exact ⟨by rintro ⟨⟩, by rintro ⟨⟩⟩)
    have on : GoesOn s ({ s with
        block := { s.block with exitReason := reason }
        client := { s.client with reason := reason, pc := .idle } } : State W) :=
          ⟨rfl, rfl, rfl, by rintro ⟨⟩⟩
    exact touching_quiet (goesOn_quiet q attached on) running q.untouched
  · next here =>
    have running : s.block.exited = 0 := by
      by_contra gone
      have idle := (q.exited gone).2
      rw [here] at idle
      cases idle
    refine ⟨?_, fun left_ => ⟨(q.gone left_).1, .inl rfl⟩, by rintro ⟨⟩, fun _ => ⟨q.closing here, rfl⟩⟩
    simp only [q.untouched, running]
    rfl

theorem quiet_host {s t : State W} (q : Quiet s) (client : t.client = s.client)
    (exited : t.block.exited = s.block.exited)
    (touched : t.touched = s.touched) : Quiet t := by
  constructor
  · rw [touched]
    exact q.untouched
  · rw [client]
    exact q.gone
  · rw [client]
    exact q.closing
  · rw [client, exited]
    exact q.exited

theorem hostStep_quiet {s : State W} (q : Quiet s) (c : Choice W) : Quiet (s.hostStep c) := by
  unfold State.hostStep
  split
  · exact q
  · next p _ =>
    cases p <;> simp only [State.sendStep]
    all_goals repeat' split
    all_goals exact quiet_host q rfl rfl rfl
  · next r _ =>
    cases r <;> simp only [State.readStep]
    all_goals repeat' split
    all_goals exact quiet_host q rfl rfl rfl
  all_goals exact quiet_host q rfl rfl rfl

theorem running_attached {s : State W} (running : s.running = true) : s.client.attached = true := by
  simp only [State.running, Bool.and_eq_true] at running
  exact running.1.2

theorem act_quiet {s : State W} (q : Quiet s) (e : Event W) : Quiet (s.act e) := by
  cases e with
  | poll now | publish now =>
      simp only [State.act]
      split
      · next running => exact goesOn_quiet q (running_attached running) ⟨rfl, rfl, rfl, by rintro ⟨⟩⟩
      · exact q
  | drain =>
      simp only [State.act]
      split
      · next running => exact goesOn_quiet q (running_attached running.1) ⟨rfl, rfl, rfl, by rintro ⟨⟩⟩
      · exact q
  | close =>
      simp only [State.act]
      split
      · next free =>
        obtain ⟨-, attached, fresh⟩ := free
        refine ⟨q.untouched, fun _ => ⟨fresh, .inr rfl⟩, fun _ => rfl, fun gone => ?_⟩
        rw [(q.exited gone).1] at attached
        cases attached
      · exact q
  | callbackReturns =>
      simp only [State.act]
      split
      · next head tail loop =>
        split
        · have attached : s.client.attached = true := by
            by_contra left_
            rw [(q.gone (Bool.eq_false_iff.mpr left_)).1] at loop
            cases loop
          have on := drainLoop_goesOn
            ({ s with client := { s.client with loop := none } } : State W) head tail
          exact goesOn_quiet q attached ⟨on.attached, on.exited, on.touched, on.pc⟩
        · exact q
      · exact q
  | client c => exact clientStep_quiet q c
  | send _ | read | keepAlive | requestClose =>
      simp only [State.act]
      split
      · exact quiet_host q rfl rfl rfl
      · exact q
  | host c => exact hostStep_quiet q c

theorem step_quiet {s : State W} (q : Quiet s) (e : Event W) : Quiet (s.step e) := by
  have next := act_quiet q e
  simp only [State.step]
  split
  · exact ⟨next.untouched, next.gone, next.closing, next.exited⟩
  · exact next

theorem run_quiet (events : List (Event W)) : ∀ {s : State W}, Quiet s → Quiet (s.run events) := by
  induction events with
  | nil => exact fun q => q
  | cons e rest ih => exact fun q => ih (step_quiet q e)

theorem connected_quiet (beat : UInt32) (now : UInt64) : Quiet (connected W beat now) :=
  ⟨rfl, by rintro ⟨⟩, by rintro ⟨⟩, fun gone => absurd rfl gone⟩

end R2Apps.MementoQueue
