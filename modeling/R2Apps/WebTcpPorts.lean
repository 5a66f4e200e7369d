import Mathlib.Data.Finset.Basic
import R2Apps.WebTcp

/-! What the connection table of the browser's stack holds outside itself: local
ports, the kernel's bindings of them and blocks of the big pool. Whatever is
called and whatever the kernel answers, no two connections share a port, a
binding is held for the connections' ports alone, and a `connect` that fails
leaves nothing behind. -/
namespace R2Apps.WebTcpPorts
open WebTcp PrefixRoutes

def portCount : Nat := 8

/-- Where the local ports begin: 47000, or what `r2NetSetPortBase` was told before
the first connection, which is at most 48224. -/
structure PortBase where
  base : Nat
  positive : 0 < base
  fits : base + portCount ≤ 65536

def PortBase.port (b : PortBase) (i : Nat) : UInt16 := UInt16.ofNat (b.base + i)

structure Buffers where
  tx : Option Nat
  rx : Option Nat
deriving DecidableEq

def noBuffers : Buffers := ⟨none, none⟩

structure Net where
  base : PortBase
  up : Bool
  driver : Bool
  table : WebTcp.Stack
  buffers : Fin maxConns → Buffers
  nextPort : Nat
  boundPorts : Nat → Bool -- by the distance from the first port
  kernel : UInt16 → Bool -- what the kernel has bound for this process
  heap : Finset Nat -- the big pool's blocks that this stack was given and has not freed
  fresh : Nat -- a block is named by when it was given
  err : String

def Net.conn (n : Net) (h : Fin maxConns) : Tcp := n.table.conns h
def Net.Live (n : Net) (h : Fin maxConns) : Prop := (n.conn h).state ≠ .free

instance (n : Net) (h : Fin maxConns) : Decidable (n.Live h) := inferInstanceAs (Decidable (_ ≠ _))

def Net.set (n : Net) (h : Fin maxConns) (c : Tcp) : Net := { n with table := n.table.set h c }

/-- What `bringUp` finds: a network, the driver's role or not, its clock and its address. -/
structure Boot where
  network : Bool
  driver : Bool
  rdtsc : Nat
  ip : Ip4

def noNetwork : String := "the kernel reports no network"
def tooMany : String := "too many connections"
def noPort : String := "no local port could be bound"
def noMemory : String := "out of memory"

def Net.bringUp (n : Net) (boot : Boot) : Net × Bool :=
  if n.up then (n, true)
  else if boot.network then
    ({ n with
        driver := boot.driver, table := { n.table with ip := boot.ip },
        nextPort := boot.rdtsc % portCount, up := true }, true)
  else ({ n with err := noNetwork }, false)

section Pool

def Net.bigAlloc (n : Net) (gives : Bool) : Net × Option Nat :=
  if gives then ({ n with heap := insert n.fresh n.heap, fresh := n.fresh + 1 }, some n.fresh) else (n, none)

def Net.bigFree (n : Net) : Option Nat → Net
  | none => n
  | some block => { n with heap := n.heap.erase block }

end Pool

section Freeing

/-- The end of `freeConn`: a binding is given back with its connection. -/
def Net.release (n : Net) (port : UInt16) (unbinds : Bool) : Net :=
  if n.driver = false ∧ n.base.base ≤ port.toNat ∧ port.toNat < n.base.base + portCount then
    let bit := port.toNat - n.base.base
    if n.boundPorts bit = true ∧ unbinds = true then
      { n with
        boundPorts := fun b => if b = bit then false else n.boundPorts b
        kernel := fun p => if p = port then false else n.kernel p }
    else n
  else n

/-- `freeConn` of a slot; `ended` is the blank connection with its past. -/
def Net.freeConn (n : Net) (h : Fin maxConns) (ended : Tcp) (unbinds : Bool) : Net :=
  let port := (n.conn h).lport
  let n' := (n.bigFree (n.buffers h).tx).bigFree (n.buffers h).rx
  { n' with
    table := n.table.set h ended
    buffers := fun k => if k = h then noBuffers else n.buffers k }.release port unbinds

/-- A connection after a call. What makes it free is always `freeConn`, the last
thing that the call does. -/
def Net.put (n : Net) (h : Fin maxConns) (c : Tcp) (unbinds : Bool) : Net :=
  if c.state = .free then n.freeConn h c unbinds else n.set h c

end Freeing

section Choosing

def Net.allocConn (n : Net) (unbinds : Bool) : Net × Option (Fin maxConns) :=
  match (List.finRange maxConns).find? fun h => (n.conn h).state = .free with
  | some h => (n, some h)
  | none =>
    -- all taken: the first closing connection gives way
    match (List.finRange maxConns).find? fun h => (n.conn h).state = .finWait with
    | some h => (n.freeConn h (WebTcp.freeConn (n.conn h)) unbinds, some h)
    | none => (n, none)

def Net.used (n : Net) (port : UInt16) : Bool :=
  (List.finRange maxConns).any fun h => (n.conn h).state ≠ .free && (n.conn h).lport == port

/-- A search for a port: 0 when there is none. `refused` is what the kernel said no to. -/
structure Found where
  net : Net
  port : UInt16
  refused : List UInt16

/-- The loop of `allocPort` from turn `k` on. The cursor moves within the loop, and
the next turn counts from where it is then. -/
def Net.allocFrom (binds : Nat → Bool) : Nat → Nat → Net → Found
  | 0, _, n => ⟨n, 0, []⟩
  | turns + 1, k, n =>
    let i := (n.nextPort + k) % portCount
    let port := n.base.port i
    if n.used port then allocFrom binds turns (k + 1) n
    else
      let n := { n with nextPort := (n.nextPort + k + 1) % portCount }
      let bit := port.toNat - n.base.base
      if n.driver = false ∧ n.boundPorts bit = false then
        if binds k then
          ⟨{ n with
              boundPorts := fun b => if b = bit then true else n.boundPorts b
              kernel := fun p => if p = port then true else n.kernel p }, port, []⟩
        else
          let rest := allocFrom binds turns (k + 1) n
          { rest with refused := port :: rest.refused }
      else ⟨n, port, []⟩

def Net.allocPort (n : Net) (binds : Nat → Bool) : Found := n.allocFrom binds portCount 0

/-- A call of `connect`: its arguments, what the kernel answers to `binds` at each
turn and to the two unbindings there may be, what the heap answers, the clock. -/
structure Call where
  ip : Ip4
  port : UInt16
  boot : Boot
  binds : Nat → Bool
  reclaims : Bool
  undoes : Bool
  tx : Bool
  rx : Bool
  peer : Past
  now : UInt64
  known : Bool

structure Outcome where
  net : Net
  got : Except String (Fin maxConns)
  refused : List UInt16

def Net.fail (n : Net) (why : String) (refused : List UInt16) : Outcome :=
  ⟨{ n with err := why }, .error why, refused⟩

/-- The rest of `connect`, with a slot and a port. -/
def Net.openAt (n : Net) (call : Call) (h : Fin maxConns) (lport : UInt16) (refused : List UInt16) :
    Outcome :=
  -- freeConn must release the binding if allocation fails
  let n := n.set h { WebTcp.freeConn (n.conn h) with lport := lport }
  let tx := n.bigAlloc call.tx
  let rx := tx.1.bigAlloc call.rx
  let n := { rx.1 with buffers := fun k => if k = h then ⟨tx.2, rx.2⟩ else n.buffers k }
  if tx.2 = none ∨ rx.2 = none then
    (n.freeConn h (WebTcp.freeConn (n.conn h)) call.undoes).fail noMemory refused
  else
    ⟨n.set h (openConn (if first call.ip = 127 then n.table.ip
      else call.ip) call.port lport call.peer call.now
      call.known), .ok h, refused⟩

def Net.connect (n : Net) (call : Call) : Outcome :=
  let up := n.bringUp call.boot
  if up.2 = false then ⟨up.1, .error noNetwork, []⟩
  else
    let slot := up.1.allocConn call.reclaims
    match slot.2 with
    | none => slot.1.fail tooMany []
    | some h =>
      let found := slot.1.allocPort call.binds
      if found.port = 0 then found.net.fail noPort found.refused
      else found.net.openAt call h found.port found.refused

end Choosing

section Steps

inductive Event where
  | poll (boot : Boot)
  | connect (call : Call)
  | frame (src : Ip4) (p : Bytes) (now : UInt64) (known unbinds : Bool)
  | ticks (now : UInt64) (look : Fin maxConns → Look) (unbinds : Fin maxConns → Bool)
  | send (h : Fin maxConns) (data : Bytes) (now : UInt64) (known : Bool)
  | recv (h : Fin maxConns) (count : Nat)
  | close (h : Fin maxConns) (now later : UInt64) (known unbinds : Bool)

def Net.tickOne (now : UInt64) (look : Fin maxConns → Look) (unbinds : Fin maxConns → Bool) (n : Net)
    (h : Fin maxConns) : Net :=
  if (n.conn h).state = .free then n else n.put h (tick (n.conn h) now (look h)) (unbinds h)

def Net.onTcp (n : Net) (src : Ip4) (p : Bytes) (now : UInt64) (known unbinds : Bool) : Net :=
  match decode p with
  | none => n
  | some (sport, dport, seg) =>
    match n.table.route src sport dport with
    | none => n
    | some h => n.put h (onSegment (n.conn h) seg now known) unbinds

def Net.step (n : Net) : Event → Net
  | .poll boot => (n.bringUp boot).1
  | .connect call => (n.connect call).net
  | .frame src p now known unbinds => n.onTcp src p now known unbinds
  | .ticks now look unbinds => (List.finRange maxConns).foldl (Net.tickOne now look unbinds) n
  | .send h data now known => n.set h (send (n.conn h) data now known).1
  | .recv h count => if (n.buffers h).rx = none then n else n.set h (recv (n.conn h) count).1
  | .close h now later known unbinds =>
    if (n.conn h).state = .free then n else n.put h (close (n.conn h) now later known) unbinds

/-- The kernel gives back every port that it is asked to. -/
def Event.Unbinds : Event → Prop
  | .connect call => call.reclaims = true ∧ call.undoes = true
  | .frame _ _ _ _ unbinds => unbinds = true
  | .ticks _ _ unbinds => ∀ h, unbinds h = true
  | .close _ _ _ _ unbinds => unbinds = true
  | _ => True

/-- A stack before its first call. -/
def booted (base : PortBase) (ip : Ip4) : Net where
  base := base
  up := false
  driver := false
  table := { ip := ip, conns := fun _ => blank }
  buffers := fun _ => noBuffers
  nextPort := 0
  boundPorts := fun _ => false
  kernel := fun _ => false
  heap := ∅
  fresh := 0
  err := ""

def runs (n : Net) (events : List Event) : Net := events.foldl Net.step n

end Steps

/-! ## What the calls make of one connection -/

section Keeping
variable {c d e : Tcp}

/-- A connection that is there afterwards was there before, on the same port. -/
def Keeps (c d : Tcp) : Prop := d.state ≠ .free → c.state ≠ .free ∧ d.lport = c.lport

theorem Keeps.refl (c : Tcp) : Keeps c c := fun live => ⟨live, rfl⟩

theorem Keeps.trans (first : Keeps c d) (second : Keeps d e) : Keeps c e := by
  intro live
  have ⟨between, same⟩ := second live
  have ⟨before, same'⟩ := first between
  exact ⟨before, same.trans same'⟩

theorem keeps_freeConn (c d : Tcp) : Keeps c (freeConn d) := fun live => absurd rfl live

theorem keeps_of (state : d.state = c.state) (port : d.lport = c.lport) : Keeps c d :=
  fun live => ⟨state ▸ live, port⟩

theorem keeps_used (live : c.state ≠ .free) (port : d.lport = c.lport) : Keeps c d := fun _ => ⟨live, port⟩

theorem keeps_ite {p : Prop} [Decidable p] (yes : p → Keeps c d) (no : ¬p → Keeps c e) :
    Keeps c (if p then d else e) := by
  by_cases holds : p
  · rw [if_pos holds]
    exact yes holds
  · rw [if_neg holds]
    exact no holds

theorem noteSent_fields (c : Tcp) (sent : Bool) (now : UInt64) :
    (noteSent c sent now).state = c.state ∧ (noteSent c sent now).lport = c.lport := by
  unfold noteSent
  split
  · exact ⟨rfl, rfl⟩
  · split <;> exact ⟨rfl, rfl⟩

theorem keeps_noteSent (keeps : Keeps c d) (sent : Bool) (now : UInt64) : Keeps c (noteSent d sent now) :=
  keeps.trans (keeps_of (noteSent_fields d sent now).1 (noteSent_fields d sent now).2)

theorem keeps_pump (keeps : Keeps c d) (now : UInt64) (known : Bool) : Keeps c (pump d now known) := by
  apply keeps.trans
  unfold pump
  apply keeps_ite
  · intro _
    exact Keeps.refl d
  · intro _
    apply keeps_ite
    · intro _
      exact keeps_noteSent (keeps_of rfl rfl) known now
    · intro _
      exact keeps_ite (fun _ => keeps_of rfl rfl) fun _ => Keeps.refl d

theorem keeps_giveUp (keeps : Keeps c d) (why : String) : Keeps c (giveUp d why) :=
  keeps_ite (fun _ => keeps_freeConn c d) fun _ => keeps.trans (keeps_of rfl rfl)

theorem keeps_resend (c : Tcp) : Keeps c (resend c) :=
  keeps_ite (fun _ => keeps_of rfl rfl) fun _ =>
    keeps_ite (fun _ => keeps_of rfl rfl) fun _ => keeps_of rfl rfl

theorem keeps_timeout (c : Tcp) (now : UInt64) (look : Look) : Keeps c (timeout c now look) := by
  unfold timeout
  apply keeps_ite
  · intro _
    apply keeps_ite
    · intro _
      exact keeps_giveUp (Keeps.refl c) _
    · intro _
      exact keeps_noteSent (keeps_resend c) _ _
  · intro _
    apply keeps_ite
    · intro _
      exact keeps_giveUp (keeps_of rfl rfl) _
    · intro _
      exact keeps_noteSent (Keeps.trans (keeps_of rfl rfl) (keeps_resend _)) _ _

theorem keeps_tick (c : Tcp) (now : UInt64) (look : Look) : Keeps c (tick c now look) := by
  apply keeps_ite
  · intro _
    exact keeps_freeConn c c
  · intro _
    apply keeps_ite
    · intro _
      exact Keeps.refl c
    · intro _
      exact keeps_ite (fun _ => keeps_timeout c now look) fun _ => keeps_pump (Keeps.refl c) now look.known

theorem keeps_onRst (c : Tcp) : Keeps c (onRst c) :=
  keeps_ite (fun _ => keeps_freeConn c c) fun _ => keeps_of rfl rfl

theorem keeps_onSynSent (opening : c.state = .synSent) (s : Segment) (now : UInt64) (known : Bool) :
    Keeps c (onSynSent c s now known) := by
  apply keeps_ite
  · intro _
    exact keeps_of rfl rfl
  · intro _
    apply keeps_ite
    · intro _
      exact Keeps.refl c
    · intro _
      have live : c.state ≠ .free := by
        rw [opening]
        exact nofun
      apply keeps_pump
      exact keeps_used live rfl

theorem keeps_onAck (c : Tcp) (ack : UInt32) : Keeps c (onAck c ack) := by
  apply keeps_ite
  · intro _
    apply keeps_ite
    · intro _
      exact keeps_ite (fun _ => keeps_of rfl rfl) fun _ => Keeps.refl c
    · intro _
      exact keeps_ite (fun _ => keeps_of rfl rfl) fun _ => Keeps.refl c
  · intro _
    exact Keeps.refl c

theorem keeps_signalGap (c : Tcp) (now : UInt64) : Keeps c (signalGap c now) :=
  keeps_ite (fun _ => keeps_of rfl rfl) fun _ => keeps_of rfl rfl

theorem keeps_onData (c : Tcp) (seq : UInt32) (data : Bytes) (now : UInt64) :
    Keeps c (onData c seq data now) := by
  apply keeps_ite
  · intro _
    exact Keeps.refl c
  · intro _
    apply keeps_ite
    · intro _
      exact Keeps.refl c
    · intro _
      apply keeps_ite
      · intro _
        exact keeps_of rfl rfl
      · intro _
        exact keeps_ite (fun _ => keeps_signalGap c now) fun _ => keeps_of rfl rfl

theorem keeps_onFin (c : Tcp) (last : UInt32) (now : UInt64) : Keeps c (onFin c last now) := by
  apply keeps_ite
  · intro _
    apply keeps_ite
    · intro opened
      have live : c.state ≠ .free := by
        rw [show c.state = .established from opened]
        exact nofun
      exact keeps_used live rfl
    · intro _
      exact keeps_of rfl rfl
  · intro _
    exact keeps_ite (fun _ => keeps_signalGap c now) fun _ => Keeps.refl c

theorem keeps_hear (c : Tcp) (s : Segment) : Keeps c (hear c s) :=
  keeps_ite (fun _ => keeps_of rfl rfl) fun _ => Keeps.refl c

theorem keeps_onSynchronized (c : Tcp) (s : Segment) (now : UInt64) (known : Bool) :
    Keeps c (onSynchronized c s now known) := by
  have acked : Keeps c (if s.flags &&& flagAck ≠ 0 then onAck c s.ack else c) :=
    keeps_ite (fun _ => keeps_onAck c s.ack) fun _ => Keeps.refl c
  have stored := acked.trans (keeps_onData _ s.seq s.data now)
  have finished := stored.trans (keeps_ite (p := s.flags &&& flagFin ≠ 0)
    (fun _ => keeps_onFin _ (s.seq + UInt32.ofNat s.data.length) now) fun _ => Keeps.refl _)
  exact keeps_ite (fun _ => keeps_freeConn c _) fun _ => keeps_pump finished now known

theorem keeps_onSegment (c : Tcp) (s : Segment) (now : UInt64) (known : Bool) :
    Keeps c (onSegment c s now known) := by
  apply (keeps_hear c s).trans
  apply keeps_ite
  · intro _
    exact keeps_onRst _
  · intro _
    apply keeps_ite
    · intro opening
      have same : (hear c s).state = c.state := by
        unfold hear
        split <;> rfl
      exact keeps_onSynSent (same.trans opening) s now known
    · intro _
      exact keeps_onSynchronized _ s now known

theorem keeps_send (c : Tcp) (data : Bytes) (now : UInt64) (known : Bool) :
    Keeps c (send c data now known).1 := by
  unfold send
  split
  · exact Keeps.refl c
  · exact keeps_pump (keeps_of rfl rfl) now known

theorem keeps_recv (c : Tcp) (count : Nat) : Keeps c (recv c count).1 := by
  unfold recv
  split
  · exact Keeps.refl c
  · dsimp only
    split <;> exact keeps_of rfl rfl

theorem keeps_close (c : Tcp) (now later : UInt64) (known : Bool) : Keeps c (close c now later known) := by
  apply keeps_ite
  · intro _
    exact Keeps.refl c
  · intro live
    apply keeps_ite
    · intro _
      exact keeps_freeConn c c
    · intro _
      apply keeps_ite
      · intro _
        exact keeps_freeConn c _
      · intro _
        apply keeps_pump
        exact keeps_used live rfl

end Keeping
end R2Apps.WebTcpPorts
