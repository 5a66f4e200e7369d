import R2Apps.WebTcpConnects

/-! Every run of the browser's stack, and when a `connect` in it may say that no
local port could be bound. -/
namespace R2Apps.WebTcpConnectRuns
open WebTcp WebTcpPorts WebTcpPortRuns WebTcpConnects PrefixRoutes

/-! ## Runs -/

section Runs
variable {n : Net}

theorem noteSent_state (c : Tcp) (sent : Bool) (now : UInt64) : (noteSent c sent now).state = c.state :=
  (noteSent_fields c sent now).1

theorem pump_state (c : Tcp) (now : UInt64) (known : Bool) : (pump c now known).state = c.state := by
  unfold pump
  split
  · rfl
  · split
    · exact noteSent_state _ known now
    · split <;> rfl

theorem send_state (c : Tcp) (data : Bytes) (now : UInt64) (known : Bool) :
    (send c data now known).1.state = c.state := by
  unfold send
  split
  · rfl
  · exact pump_state _ now known

theorem recv_state (c : Tcp) (count : Nat) : (recv c count).1.state = c.state := by
  unfold recv
  split
  · rfl
  · dsimp only
    split <;> rfl

theorem tickOne_sound (good : Sound n) (now : UInt64) (look : Fin maxConns → Look)
    (unbinds : Fin maxConns → Bool)
    (h : Fin maxConns) : Sound (n.tickOne now look unbinds h) := by
  unfold Net.tickOne
  split
  · exact good
  · rename_i live
    exact put_sound good live (keeps_tick _ now (look h))

theorem tickOne_exact (exact_ : Exact n) (now : UInt64) (look : Fin maxConns → Look)
    (unbinds : Fin maxConns → Bool) (sure : ∀ h, unbinds h = true) (h : Fin maxConns) :
    Exact (n.tickOne now look unbinds h) := by
  unfold Net.tickOne
  split
  · exact exact_
  · rw [sure h]
    exact put_exact exact_ (keeps_tick _ now (look h))

theorem route_live {src : Ip4} {sport dport : UInt16} {h : Fin maxConns}
    (found : n.table.route src sport dport = some h) : n.Live h := by
  have holds := List.find?_some found
  rw [Bool.and_eq_true, Bool.and_eq_true, Bool.and_eq_true, decide_eq_true_eq] at holds
  exact holds.1.1.1

theorem step_sound (good : Sound n) (event : Event) : Sound (n.step event) := by
  cases event with
  | poll boot => exact bringUp_sound good boot
  | connect call => exact connect_sound good call
  | frame src p now known unbinds =>
    change Sound (n.onTcp src p now known unbinds)
    unfold Net.onTcp
    split
    · exact good
    · split
      · exact good
      · rename_i h found
        exact put_sound good (route_live found) (keeps_onSegment _ _ now known)
  | ticks now look unbinds =>
    -- one connection after the other
    change Sound ((List.finRange maxConns).foldl (Net.tickOne now look unbinds) n)
    generalize List.finRange maxConns = slots
    induction slots generalizing n with
    | nil => exact good
    | cons h rest ih => exact ih (tickOne_sound good now look unbinds h)
  | send h data now known =>
    have keeps := keeps_send (n.conn h) data now known
    exact ⟨set_accounted good.accounted keeps, set_owned good.owned fun live =>
      by rw [send_state]; exact live⟩
  | recv h count =>
    change Sound (if (n.buffers h).rx = none then n else n.set h (recv (n.conn h) count).1)
    split
    · exact good
    · have keeps := keeps_recv (n.conn h) count
      exact ⟨set_accounted good.accounted keeps, set_owned good.owned fun live =>
        by rw [recv_state]; exact live⟩
  | close h now later known unbinds =>
    change Sound (if (n.conn h).state = .free then n else n.put h (close (n.conn h) now later known) unbinds)
    split
    · exact good
    · rename_i live
      exact put_sound good live (keeps_close _ now later known)

theorem step_exact (good : Sound n) (exact_ : Exact n) (event : Event) (sure : event.Unbinds) :
    Exact (n.step event) := by
  cases event with
  | poll boot => exact bringUp_exact good exact_ boot
  | connect call => exact connect_exact good exact_ call sure.1 sure.2
  | frame src p now known unbinds =>
    change Exact (n.onTcp src p now known unbinds)
    rw [show unbinds = true from sure]
    unfold Net.onTcp
    split
    · exact exact_
    · split
      · exact exact_
      · exact put_exact exact_ (keeps_onSegment _ _ now known)
  | ticks now look unbinds =>
    change Exact ((List.finRange maxConns).foldl (Net.tickOne now look unbinds) n)
    generalize List.finRange maxConns = slots
    induction slots generalizing n with
    | nil => exact exact_
    | cons h rest ih =>
      exact ih (tickOne_sound good now look unbinds h) (tickOne_exact exact_ now look unbinds sure h)
  | send h data now known =>
    exact set_exact exact_ (keeps_send (n.conn h) data now known) fun live => by rw [send_state]; exact live
  | recv h count =>
    change Exact (if (n.buffers h).rx = none then n else n.set h (recv (n.conn h) count).1)
    split
    · exact exact_
    · exact set_exact exact_ (keeps_recv (n.conn h) count) fun live => by rw [recv_state]; exact live
  | close h now later known unbinds =>
    change Exact (if (n.conn h).state = .free then n else n.put h (close (n.conn h) now later known) unbinds)
    rw [show unbinds = true from sure]
    split
    · exact exact_
    · exact put_exact exact_ (keeps_close _ now later known)

theorem booted_sound (base : PortBase) (ip : Ip4) : Sound (booted base ip) := by
  have dead (h : Fin maxConns) : ¬ (booted base ip).Live h := fun live => live rfl
  refine ⟨⟨fun _ => ⟨dead, fun _ => rfl⟩, fun h _ live => absurd live (dead h), fun h live =>
    absurd live (dead h), ?_⟩,
    ⟨fun _ _ => rfl, ⟨?_, ?_, ?_⟩⟩⟩
  · intro port
    constructor
    · intro held
      exact nomatch held
    · rintro ⟨_, _, _, held⟩
      exact nomatch held
  · intro block
    constructor
    · intro held
      exact absurd held (Finset.notMem_empty block)
    · rintro ⟨_, points⟩
      exact absurd points (noBuffers_point block)
  · intro _ _ block points
    exact absurd points (noBuffers_point block)
  · intro block held
    exact absurd held (Finset.notMem_empty block)

theorem run_sound (good : Sound n) (events : List Event) : Sound (runs n events) := by
  induction events generalizing n with
  | nil => exact good
  | cons event rest ih => exact ih (step_sound good event)

theorem run_exact (good : Sound n) (exact_ : Exact n) (events : List Event)
    (sure : ∀ event ∈ events, event.Unbinds) :
    Exact (runs n events) := by
  induction events generalizing n with
  | nil => exact exact_
  | cons event rest ih =>
    exact ih (step_sound good event)
      (step_exact good exact_ event (sure event List.mem_cons_self)) fun later member =>
      sure later (List.mem_cons_of_mem event member)

theorem bindings_exact (good : Sound n) (exact_ : Exact n) (plain : n.driver = false) (port : UInt16) :
    n.kernel port = true ↔ ∃ h, n.Live h ∧ (n.conn h).lport = port := by
  rw [good.accounted.agreed]
  constructor
  · rintro ⟨i, inside, equal, held⟩
    obtain ⟨h, live, same⟩ := exact_ plain i inside held
    exact ⟨h, live, same.trans equal.symm⟩
  · rintro ⟨h, live, same⟩
    obtain ⟨i, inside, equal, bound⟩ := good.accounted.marked h live
    exact ⟨i, inside, same.symm.trans equal, bound plain⟩

end Runs

/-! ## When a search may give up -/

section GivingUp
variable {n : Net} {call : Call}

/-- What the error text promises. -/
def EveryPortTried (o : Outcome) : Prop :=
  o.got = .error noPort → ∀ i < portCount,
    (∃ h, o.net.Live h ∧ (o.net.conn h).lport = o.net.base.port i) ∨ o.net.base.port i ∈ o.refused

/-- The search, from the state before the call: it comes by a port that it can have, or
by every port that no other connection has. -/
def SearchReaches (n : Net) (call : Call) : Prop :=
  (n.bringUp call.boot).2 = true → ∀ h, (n.bringUp call.boot).1.table.allocConn = some h →
    let u := (n.bringUp call.boot).1
    let asked := asks (usedByOthers u h) portCount 0 u.nextPort
    (∃ ask ∈ asked, u.driver = true ∨ stillBound u h call.reclaims ask.2 = true ∨ call.binds ask.1 = true) ∨
      ∀ i < portCount, usedByOthers u h i = true ∨ i ∈ asked.map Prod.snd

theorem asks_inside (used : Nat → Bool) (turns k cursor : Nat) :
    ∀ ask ∈ asks used turns k cursor, ask.2 < portCount := by
  induction turns generalizing k cursor with
  | zero => exact fun _ member => absurd member List.not_mem_nil
  | succ turns ih =>
    intro ask member
    rw [asks] at member
    split at member
    · exact ih _ _ ask member
    · rcases List.mem_cons.mp member with here | later
      · rw [here]
        exact turn_inside cursor k
      · exact ih _ _ ask later

theorem allocConn_slot (n : Net) (unbinds : Bool) : (n.allocConn unbinds).2 = n.table.allocConn := by
  have free_ : ((List.finRange maxConns).find? fun h => decide ((n.table.conns h).state = .free)) =
      (List.finRange maxConns).find? fun h => decide ((n.conn h).state = .free) := rfl
  have closing : ((List.finRange maxConns).find? fun h => decide ((n.table.conns h).state = .finWait)) =
      (List.finRange maxConns).find? fun h => decide ((n.conn h).state = .finWait) := rfl
  unfold Net.allocConn WebTcp.Stack.allocConn
  rw [free_, closing]
  split
  · rename_i h found
    rw [found]
    rfl
  · rename_i full
    rw [full]
    split
    · rename_i h found
      rw [found]
      rfl
    · rename_i busy
      rw [busy]
      rfl

theorem connect_slot (up : (n.bringUp call.boot).2 = true) {h : Fin maxConns}
    (slot : ((n.bringUp call.boot).1.allocConn call.reclaims).2 = some h) :
    n.connect call =
      if (((n.bringUp call.boot).1.allocConn call.reclaims).1.allocPort call.binds).port = 0 then
        (((n.bringUp call.boot).1.allocConn call.reclaims).1.allocPort call.binds).net.fail noPort
          (((n.bringUp call.boot).1.allocConn call.reclaims).1.allocPort call.binds).refused
      else
        (((n.bringUp call.boot).1.allocConn call.reclaims).1.allocPort call.binds).net.openAt call h
          (((n.bringUp call.boot).1.allocConn call.reclaims).1.allocPort call.binds).port
          (((n.bringUp call.boot).1.allocConn call.reclaims).1.allocPort call.binds).refused := by
  unfold Net.connect
  dsimp only
  rw [if_neg (by rw [up]; exact nofun), slot]

theorem openAt_got (n : Net) (call : Call) (h : Fin maxConns) (lport : UInt16) (refused : List UInt16) :
    (n.openAt call h lport refused).got ≠ .error noPort := by
  rcases openAt_cases n call h lport refused with failed | opened
  · rw [failed]
    intro equal
    have texts : noMemory = noPort := Except.error.inj equal
    exact absurd texts (by decide)
  · rw [opened]
    exact nofun

theorem noPort_iff (up : (n.bringUp call.boot).2 = true) {h : Fin maxConns}
    (slot : (n.bringUp call.boot).1.table.allocConn = some h) :
    (n.connect call).got = .error noPort ↔
      ∀ ask ∈ asks (usedByOthers (n.bringUp call.boot).1 h) portCount 0 (n.bringUp call.boot).1.nextPort,
        (n.bringUp call.boot).1.driver = false ∧
          stillBound (n.bringUp call.boot).1 h call.reclaims ask.2 = false ∧ call.binds ask.1 = false := by
  have slot' : ((n.bringUp call.boot).1.allocConn call.reclaims).2 = some h := (allocConn_slot _ _).trans slot
  have slotted := allocConn_slotted slot'
  have same : (fun i => ((n.bringUp call.boot).1.allocConn call.reclaims).1.used
      (((n.bringUp call.boot).1.allocConn call.reclaims).1.base.port i)) =
      usedByOthers (n.bringUp call.boot).1 h := funext slotted.unused
  have given_up : (n.connect call).got = .error noPort ↔
      (((n.bringUp call.boot).1.allocConn call.reclaims).1.allocPort call.binds).port = 0 := by
    rw [connect_slot up slot']
    split
    · rename_i zero
      exact ⟨fun _ => zero, fun _ => rfl⟩
    · rename_i found
      exact ⟨fun equal => absurd equal (openAt_got _ call h _ _), fun zero => absurd zero found⟩
  rw [given_up, Net.allocPort, allocFrom_none, same, slotted.nextPort, slotted.driver]
  constructor
  · intro denied ask member
    obtain ⟨plain, clear, refused⟩ := denied ask member
    rw [slotted.bound plain ask.2 (asks_inside _ _ _ _ ask member)] at clear
    exact ⟨plain, clear, refused⟩
  · intro denied ask member
    obtain ⟨plain, clear, refused⟩ := denied ask member
    rw [← slotted.bound plain ask.2 (asks_inside _ _ _ _ ask member)] at clear
    exact ⟨plain, clear, refused⟩

theorem noPort_tried (up : (n.bringUp call.boot).2 = true) {h : Fin maxConns}
    (slot : (n.bringUp call.boot).1.table.allocConn = some h)
    (gave : (n.connect call).got = .error noPort) {i : Nat}
    (inside : i < portCount) :
    ((∃ k, (n.connect call).net.Live k ∧
      ((n.connect call).net.conn k).lport = (n.connect call).net.base.port i) ↔
        usedByOthers (n.bringUp call.boot).1 h i = true) ∧
      ((n.connect call).net.base.port i ∈ (n.connect call).refused ↔
        i ∈ (asks (usedByOthers (n.bringUp call.boot).1 h) portCount 0 (n.bringUp call.boot).1.nextPort).map
          Prod.snd) := by
  have slot' : ((n.bringUp call.boot).1.allocConn call.reclaims).2 = some h := (allocConn_slot _ _).trans slot
  have slotted := allocConn_slotted slot'
  have same : (fun i => ((n.bringUp call.boot).1.allocConn call.reclaims).1.used
      (((n.bringUp call.boot).1.allocConn call.reclaims).1.base.port i)) =
      usedByOthers (n.bringUp call.boot).1 h := funext slotted.unused
  have parts := connect_slot up slot'
  rw [parts] at gave ⊢
  split at gave
  · rename_i zero
    rw [if_pos zero]
    rcases allocFrom_cases call.binds portCount 0 ((n.bringUp call.boot).1.allocConn call.reclaims).1 with
      ⟨_, next, net⟩ | ⟨j, within, port, _, _⟩
    · constructor
      · rw [← slotted.unused i, used_iff]
        rw [show ((n.bringUp call.boot).1.allocConn call.reclaims).1.allocPort call.binds =
          ((n.bringUp call.boot).1.allocConn call.reclaims).1.allocFrom call.binds portCount 0 from rfl, net]
        exact Iff.rfl
      · change (((n.bringUp call.boot).1.allocConn call.reclaims).1.allocFrom call.binds
          portCount 0).net.base.port i ∈
          (((n.bringUp call.boot).1.allocConn call.reclaims).1.allocFrom call.binds portCount 0).refused ↔ _
        rw [allocFrom_refused call.binds portCount 0 _ zero, same, net, slotted.nextPort,
          List.mem_map, List.mem_map]
        constructor
        · rintro ⟨ask, member, equal⟩
          exact ⟨ask, member, port_inj (asks_inside _ _ _ _ ask member) inside equal⟩
        · rintro ⟨ask, member, equal⟩
          exact ⟨ask, member, by rw [equal]⟩
    · exact absurd zero (port ▸ port_positive within)
  · exact absurd gave (openAt_got _ call h _ _)

theorem tried_iff (n : Net) (call : Call) : EveryPortTried (n.connect call) ↔ SearchReaches n call := by
  constructor
  · intro tried up h slot
    dsimp only
    by_cases gave : (n.connect call).got = .error noPort
    · refine .inr fun i inside => ?_
      have facts := noPort_tried up slot gave inside
      exact (tried gave i inside).imp facts.1.mp facts.2.mp
    · -- something that was asked for was granted
      refine .inl ?_
      rw [noPort_iff up slot] at gave
      push Not at gave
      obtain ⟨ask, member, granted⟩ := gave
      refine ⟨ask, member, ?_⟩
      by_cases driver : (n.bringUp call.boot).1.driver = true
      · exact .inl driver
      · by_cases bound : stillBound (n.bringUp call.boot).1 h call.reclaims ask.2 = true
        · exact .inr (.inl bound)
        · exact .inr (.inr (eq_true_of_ne_false
            (granted (Bool.not_eq_true _ ▸ driver) (Bool.not_eq_true _ ▸ bound))))
  · intro reaches gave i inside
    have up : (n.bringUp call.boot).2 = true := by
      by_contra down
      have parts : n.connect call = ⟨(n.bringUp call.boot).1, .error noNetwork, []⟩ := by
        unfold Net.connect
        exact if_pos (Bool.not_eq_true _ ▸ down)
      rw [parts] at gave
      have texts : noNetwork = noPort := Except.error.inj gave
      exact absurd texts (by decide)
    cases slot : (n.bringUp call.boot).1.table.allocConn with
    | none =>
      have full : ((n.bringUp call.boot).1.allocConn call.reclaims).2 = none :=
        (allocConn_slot _ _).trans slot
      unfold Net.connect at gave
      dsimp only at gave
      rw [if_neg (by rw [up]; exact nofun), full] at gave
      have texts : tooMany = noPort := Except.error.inj gave
      exact absurd texts (by decide)
    | some h =>
      have facts := noPort_tried up slot gave inside
      rcases reaches up h slot with ⟨ask, member, granted⟩ | all_
      · obtain ⟨plain, clear, refused⟩ := (noPort_iff up slot).mp gave ask member
        rw [plain, clear, refused] at granted
        simp at granted
      · exact (all_ i inside).imp facts.1.mpr facts.2.mpr

/-- In every run no two connections have one port. Outside the driver's role, and if every
unbinding succeeds, the kernel's bindings are the connections' ports. Every block in use is
a connection's buffer, and a call that fails leaves no connection, block or binding that was
not there before. And a call that gives up for want of a port has found each of the
eight in use or refused just when its search reaches them all, or one that it can have. -/
theorem connections_accounted (base : PortBase) (ip : Ip4) (events : List Event) :
    let n := runs (booted base ip) events
    (∀ h k, n.Live h → n.Live k → (n.conn h).lport = (n.conn k).lport → h = k) ∧
      ((∀ event ∈ events, event.Unbinds) → n.driver = false →
        ∀ port, n.kernel port = true ↔ ∃ h, n.Live h ∧ (n.conn h).lport = port) ∧
      (∀ block, block ∈ n.heap ↔ ∃ h, n.Live h ∧ Buffers.Points (n.buffers h) block) ∧
      (∀ call why, (n.connect call).got = .error why → LeavesNothing n (n.connect call).net call.undoes) ∧
      ∀ call, EveryPortTried (n.connect call) ↔ SearchReaches n call := by
  intro n
  have sound : Sound n := run_sound (booted_sound base ip) events
  refine ⟨sound.accounted.distinct, ?_, ?_, fun call why => connect_leaves sound call, tried_iff n⟩
  · intro sure plain
    have exact_ : Exact (booted base ip) := fun _ _ _ held => nomatch held
    exact bindings_exact sound (run_exact (booted_sound base ip) exact_ events sure) plain
  · intro block
    rw [sound.owned.pool.owned]
    constructor
    · rintro ⟨h, points⟩
      refine ⟨h, ?_, points⟩
      by_contra dead
      rw [sound.owned.bare h dead] at points
      exact noBuffers_point block points
    · rintro ⟨h, _, points⟩
      exact ⟨h, points⟩

def usualPorts : PortBase := ⟨47000, by decide, by decide⟩

/-- The first call on a machine where another process drives the card and has the
ports 47000 to 47006: 47007 is free, and is not asked for. -/
def crowdedOut : Call where
  ip := dotted 10 0 0 2
  port := 80
  boot := { network := true, driver := false, rdtsc := 0, ip := dotted 10 3 4 2 }
  binds := fun _ => false
  reclaims := true
  undoes := true
  tx := true
  rx := true
  peer := noPast
  now := 0
  known := true

/-- The text is reported, and the last port was neither in use nor refused. -/
theorem port_unasked : ¬ ∀ (base : PortBase) (ip : Ip4) (events : List Event) (call : Call),
    EveryPortTried ((runs (booted base ip) events).connect call) := by
  intro every
  have gave : ((runs (booted usualPorts (dotted 10 3 4 2)) []).connect crowdedOut).got = .error noPort := rfl
  rcases every usualPorts (dotted 10 3 4 2) [] crowdedOut gave 7 (by decide) with ⟨h, live, _⟩ | refused
  · exact live rfl
  · exact absurd refused (by decide)

end GivingUp
end R2Apps.WebTcpConnectRuns
