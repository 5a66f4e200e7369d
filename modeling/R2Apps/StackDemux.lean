import Mathlib.Logic.Function.Basic
import R2Apps.StreamReceive

/-! The connections of a `Stack` in `r2net/tcp.go`: `Dial`, `allocPort`, `Close`, `drop`
and `Exchange`, and the routing of incoming segments. A connection is a pointer into
`heap`. `Dial`, `Close` and `Write` wait in a loop that takes in segments and runs the
timers; what they do before and after a wait are operations of their own, which may come
in any order. An operation says what the kernel and the link did for it. -/
namespace R2Apps.StackDemux
open StreamReceive

abbrev IP := UInt32

def ephemeralBase : UInt16 := 40000
def ephemeralCount : UInt16 := 8
def tcpHeaderLen : Nat := 20
def flagPSH : UInt8 := 0x08

structure Endpoint where
  remote : IP := 0
  rport : UInt16 := 0
  lport : UInt16 := 0
  conn : Conn := {}

structure Stack where
  driver : Bool
  portBase : UInt16
  portCount : UInt16
  nextPort : UInt16
  bound : UInt16 → Bool := fun _ => false
  conns : List Nat := []
  heap : Nat → Endpoint := fun _ => {}
  /-- how many connections there ever were; the next pointer -/
  made : Nat := 0

def open_ (driver : Bool) (portBase portCount : UInt16) : Stack :=
  let base := if portBase = 0 then ephemeralBase else portBase
  let count := if portCount = 0 ∨ portCount > ephemeralCount then ephemeralCount else portCount
  { driver := driver, portBase := base, portCount := count, nextPort := base }

def Stack.allocPort (s : Stack) (bindOk : Bool) : Stack × Option UInt16 :=
  let port := s.nextPort
  let next := s.nextPort + 1
  let next := if next < s.portBase ∨ next ≥ s.portBase + s.portCount then s.portBase else next
  let s := { s with nextPort := next }
  if s.driver ∨ s.bound port then (s, some port)
  else if bindOk then ({ s with bound := Function.update s.bound port true }, some port)
  else (s, none)

/-- `sent` says whether the link took the segment; no data is `none`. -/
def transmit (c : Conn) (sent : Bool) (flags : UInt8) (data : Option (List UInt8)) : Conn :=
  let used := UInt32.ofNat (data.getD []).length + if flags &&& (flagSYN ||| flagFIN) ≠ 0 then 1 else 0
  if !sent || used == 0 then c
  else { c with snd := c.snd + used, pending := data, pendFlags := flags, pendSeq := c.snd }

def Stack.setConn (s : Stack) (i : Nat) (c : Conn) : Stack :=
  { s with heap := Function.update s.heap i { s.heap i with conn := c } }

/-- `Dial` up to its wait. -/
def Stack.dial (s : Stack) (dst : IP) (port : UInt16) (isn : UInt32) (bindOk sent : Bool) : Stack :=
  match s.allocPort bindOk with
  | (s, none) => s
  | (s, some lport) =>
      let conn := transmit { snd := isn, sndUna := isn } sent flagSYN none
      { s with
        conns := s.conns ++ [s.made]
        heap := Function.update s.heap s.made { remote := dst, rport := port, lport := lport, conn := conn }
        made := s.made + 1 }

/-- `Close` up to its wait. -/
def closing (c : Conn) (sent : Bool) : Conn :=
  match c.state with
  | .established | .closeWait =>
      let c := transmit { c with pending := none } sent (flagFIN ||| flagACK) none
      if sent then { c with state := .finWait } else c
  | .synSent => transmit c sent flagRST none
  | _ => c

def dropped (c : Conn) : Conn :=
  { c with state := .closed, pending := none, pendFlags := 0, rx := [], reorder := {} }

def Stack.drop (s : Stack) (i : Nat) (unbindOk : Bool) : Stack :=
  let s := { s.setConn i (dropped (s.heap i).conn) with conns := s.conns.erase i }
  let lport := (s.heap i).lport
  if !s.driver && s.bound lport && !(s.conns.any fun j => (s.heap j).lport == lport) && unbindOk then
    { s with bound := Function.update s.bound lport false }
  else s

def word16 (seg : List UInt8) (i : Nat) : UInt16 :=
  (seg.getD i 0).toUInt16 <<< 8 ||| (seg.getD (i + 1) 0).toUInt16

def word32 (seg : List UInt8) (i : Nat) : UInt32 :=
  (word16 seg i).toUInt32 <<< 16 ||| (word16 seg (i + 2)).toUInt32

/-- The connection a segment from `src` is handed to. -/
def Stack.route (s : Stack) (src : IP) (srcPort dstPort : UInt16) : Option Nat :=
  s.conns.find? fun i =>
    (s.heap i).lport == dstPort && (s.heap i).rport == srcPort && (s.heap i).remote == src

/-- A reset for a segment that is nobody's changes nothing here. -/
def Stack.onTCP (s : Stack) (src : IP) (seg : List UInt8) : Stack :=
  if seg.length < tcpHeaderLen then s
  else
    let hdrLen := ((seg.getD 12 0) >>> 4).toNat * 4
    if hdrLen < tcpHeaderLen ∨ hdrLen > seg.length then s
    else match s.route src (word16 seg 0) (word16 seg 2) with
      | none => s
      | some i =>
          s.setConn i
            ((s.heap i).conn.onSegment (seg.getD 13 0) (word32 seg 4) (word32 seg 8) (seg.drop hdrLen))

inductive Op where
  | dial (dst : IP) (port : UInt16) (isn : UInt32) (bindOk sent : Bool)
  | segment (src : IP) (seg : List UInt8)
  /-- a timer gives the connection up -/
  | expire (i : Nat)
  | write (i : Nat) (data : List UInt8) (sent : Bool)
  | read (i : Nat) (size : Nat)
  | close (i : Nat) (sent : Bool)
  | drop (i : Nat) (unbindOk : Bool)
  /-- `Exchange`: a datagram takes a port too -/
  | exchange (bindOk : Bool)
  /-- `Stack.Close`, after it closed every connection -/
  | clear

def step (s : Stack) : Op → Stack
  | .dial dst port isn bindOk sent => s.dial dst port isn bindOk sent
  | .segment src seg => s.onTCP src seg
  | .expire i => s.setConn i { (s.heap i).conn with err := some .timeout, state := .closed, pending := none }
  | .write i data sent => s.setConn i (transmit (s.heap i).conn sent (flagACK ||| flagPSH) (some data))
  | .read i size => s.setConn i ((s.heap i).conn.read size).1
  | .close i sent => s.setConn i (closing (s.heap i).conn sent)
  | .drop i unbindOk => s.drop i unbindOk
  | .exchange bindOk => if s.driver then (s.allocPort bindOk).1 else s
  | .clear => { s with conns := [] }

def run (s : Stack) (ops : List Op) : Stack := ops.foldl step s

def tuple (e : Endpoint) : UInt16 × IP × UInt16 := (e.lport, e.remote, e.rport)

/-- No two connections share a local port, a remote address and a remote port, and so a
segment goes to the connection whose it is. -/
structure Demuxed (s : Stack) : Prop where
  distinct : s.conns.Pairwise fun i j => tuple (s.heap i) ≠ tuple (s.heap j)
  routed : ∀ i ∈ s.conns, s.route (s.heap i).remote (s.heap i).rport (s.heap i).lport = some i

/-- A connection is dialled while no other one to the same address and port holds the
local port whose turn it is. -/
def Clear (s : Stack) : Op → Prop
  | .dial dst port _ bindOk _ =>
      (s.allocPort bindOk).2 = none ∨ ∀ i ∈ s.conns, tuple (s.heap i) ≠ (s.nextPort, dst, port)
  | _ => True

def Careful (s : Stack) : List Op → Prop
  | [] => True
  | op :: rest => Clear s op ∧ Careful (step s op) rest

/-! Only the three numbers of a connection matter, and they never change. -/

/-- What any operation but `Dial` does: connections may go, none comes or changes its
numbers. -/
structure Quiet (s s' : Stack) : Prop where
  fewer : s'.conns.Sublist s.conns
  same : ∀ i, tuple (s'.heap i) = tuple (s.heap i)
  made : s'.made = s.made

theorem quiet_setConn (s : Stack) (i : Nat) (c : Conn) : Quiet s (s.setConn i c) where
  fewer := List.Sublist.refl _
  same j := by
    by_cases hit : j = i
    · subst hit
      simp [Stack.setConn, tuple]
    · simp [Stack.setConn, hit]
  made := rfl

theorem quiet_alloc (s : Stack) (bindOk : Bool) : Quiet s (s.allocPort bindOk).1 := by
  unfold Stack.allocPort
  dsimp only
  split
  · exact ⟨List.Sublist.refl _, fun _ => rfl, rfl⟩
  · split <;> exact ⟨List.Sublist.refl _, fun _ => rfl, rfl⟩

theorem quiet_drop (s : Stack) (i : Nat) (unbindOk : Bool) : Quiet s (s.drop i unbindOk) := by
  have shut := quiet_setConn s i (dropped (s.heap i).conn)
  unfold Stack.drop
  dsimp only
  split <;> exact ⟨List.erase_sublist, shut.same, rfl⟩

theorem quiet_onTCP (s : Stack) (src : IP) (seg : List UInt8) : Quiet s (s.onTCP src seg) := by
  unfold Stack.onTCP
  dsimp only
  split
  · exact ⟨List.Sublist.refl _, fun _ => rfl, rfl⟩
  · split
    · exact ⟨List.Sublist.refl _, fun _ => rfl, rfl⟩
    · split
      · exact ⟨List.Sublist.refl _, fun _ => rfl, rfl⟩
      · exact quiet_setConn s _ _

theorem dial_cases (s : Stack) (dst : IP) (port : UInt16) (isn : UInt32) (bindOk sent : Bool) :
    (s.allocPort bindOk).2 = none ∧ Quiet s (s.dial dst port isn bindOk sent) ∨
      (s.allocPort bindOk).2 = some s.nextPort ∧
        (s.dial dst port isn bindOk sent).conns = s.conns ++ [s.made] ∧
        (s.dial dst port isn bindOk sent).made = s.made + 1 ∧
        tuple ((s.dial dst port isn bindOk sent).heap s.made) = (s.nextPort, dst, port) ∧
        ∀ i, i ≠ s.made → tuple ((s.dial dst port isn bindOk sent).heap i) = tuple (s.heap i) := by
  have quiet := quiet_alloc s bindOk
  have turn : (s.allocPort bindOk).2 = none ∨ (s.allocPort bindOk).2 = some s.nextPort := by
    unfold Stack.allocPort
    dsimp only
    split
    · exact Or.inr rfl
    · split
      · exact Or.inr rfl
      · exact Or.inl rfl
  have kept : (s.allocPort bindOk).1.conns = s.conns ∧ (s.allocPort bindOk).1.heap = s.heap := by
    unfold Stack.allocPort
    dsimp only
    split
    · exact ⟨rfl, rfl⟩
    · split <;> exact ⟨rfl, rfl⟩
  unfold Stack.dial
  generalize s.allocPort bindOk = result at *
  obtain ⟨s', lport⟩ := result
  dsimp only at quiet turn kept
  rcases turn with rfl | rfl
  · exact Or.inl ⟨rfl, quiet⟩
  · refine Or.inr ⟨rfl, ?_, ?_, ?_, ?_⟩
    · dsimp only
      rw [kept.1, quiet.made]
    · dsimp only
      rw [quiet.made]
    · simp [tuple, ← quiet.made]
    · intro i other
      rw [← quiet.made] at other
      simp [other, kept.2]

/-! One step. -/

/-- Pointers in use were handed out. -/
def Allocated (s : Stack) : Prop := ∀ i ∈ s.conns, i < s.made

def Distinct (s : Stack) : Prop := s.conns.Pairwise fun i j => tuple (s.heap i) ≠ tuple (s.heap j)

theorem quiet_distinct {s s' : Stack} (quiet : Quiet s s') (distinct : Distinct s) : Distinct s' := by
  unfold Distinct
  simp only [quiet.same]
  exact List.Pairwise.sublist quiet.fewer distinct

theorem quiet_allocated {s s' : Stack} (quiet : Quiet s s') (allocated : Allocated s) : Allocated s' := by
  intro i member
  rw [quiet.made]
  exact allocated i (quiet.fewer.subset member)

theorem step_quiet (s : Stack) (op : Op)
    (other : ∀ dst port isn bindOk sent, op ≠ .dial dst port isn bindOk sent) :
    Quiet s (step s op) := by
  cases op with
  | dial dst port isn bindOk sent => exact absurd rfl (other dst port isn bindOk sent)
  | segment src seg => exact quiet_onTCP s src seg
  | expire i => exact quiet_setConn s i _
  | write i data sent => exact quiet_setConn s i _
  | read i size => exact quiet_setConn s i _
  | close i sent => exact quiet_setConn s i _
  | drop i unbindOk => exact quiet_drop s i unbindOk
  | exchange bindOk =>
      simp only [step]
      split
      · exact quiet_alloc s bindOk
      · exact ⟨List.Sublist.refl _, fun _ => rfl, rfl⟩
  | clear => exact ⟨List.nil_sublist _, fun _ => rfl, rfl⟩

theorem step_allocated {s : Stack} (allocated : Allocated s) (op : Op) : Allocated (step s op) := by
  cases op with
  | dial dst port isn bindOk sent =>
      rcases dial_cases s dst port isn bindOk sent with ⟨_, quiet⟩ | ⟨_, conns, made, _⟩
      · exact quiet_allocated quiet allocated
      · intro i member
        rw [step, conns] at member
        rw [step, made]
        rcases List.mem_append.mp member with old | new
        · exact Nat.lt_succ_of_lt (allocated i old)
        · rw [List.mem_singleton.mp new]
          exact Nat.lt_succ_self _
  | _ => exact quiet_allocated (step_quiet s _ (by simp)) allocated

theorem step_distinct_iff {s : Stack} (allocated : Allocated s) (distinct : Distinct s) (op : Op) :
    Distinct (step s op) ↔ Clear s op := by
  cases op with
  | dial dst port isn bindOk sent =>
      rcases dial_cases s dst port isn bindOk sent with ⟨failed, quiet⟩ | ⟨port_, conns, _, new, others⟩
      · exact ⟨fun _ => Or.inl failed, fun _ => quiet_distinct quiet distinct⟩
      · have old (i : Nat) (member : i ∈ s.conns) :
            tuple ((s.dial dst port isn bindOk sent).heap i) = tuple (s.heap i) :=
          others i (Nat.ne_of_lt (allocated i member))
        simp only [Distinct, step, conns, List.pairwise_append, List.mem_singleton, Clear, port_,
          reduceCtorEq, false_or]
        constructor
        · rintro ⟨_, _, apart⟩ i member same
          exact apart i member s.made rfl ((old i member).trans (same.trans new.symm))
        · intro clear
          refine ⟨?_, List.pairwise_singleton _ _, ?_⟩
          · refine List.Pairwise.imp_of_mem ?_ distinct
            intro i j first second apart
            rw [old i first, old j second]
            exact apart
          · rintro i member j rfl same
            exact clear i member ((old i member).symm.trans (same.trans new))
  | _ => exact ⟨fun _ => trivial, fun _ => quiet_distinct (step_quiet s _ (by simp)) distinct⟩

theorem distinct_routed {s : Stack} (distinct : Distinct s) {i : Nat} (member : i ∈ s.conns) :
    s.route (s.heap i).remote (s.heap i).rport (s.heap i).lport = some i := by
  unfold Stack.route
  unfold Distinct at distinct
  generalize s.conns = conns at *
  induction conns with
  | nil => exact absurd member List.not_mem_nil
  | cons j rest ih =>
      obtain ⟨apart, tail⟩ := List.pairwise_cons.mp distinct
      by_cases hit : j = i
      · subst hit
        simp
      · have later : i ∈ rest := by
          rcases List.mem_cons.mp member with same | later
          · exact absurd same.symm hit
          · exact later
        rw [List.find?_cons_of_neg, ih tail later]
        intro fits
        simp only [Bool.and_eq_true, beq_iff_eq] at fits
        obtain ⟨⟨lport, rport⟩, remote⟩ := fits
        exact apart i later (by simp only [tuple, lport, rport, remote])

theorem demuxed_iff {s : Stack} : Demuxed s ↔ Distinct s :=
  ⟨Demuxed.distinct, fun distinct => ⟨distinct, fun _ member => distinct_routed distinct member⟩⟩

/-! Whole runs. -/

theorem runs_distinct_iff {s : Stack} (allocated : Allocated s) (distinct : Distinct s) (ops : List Op) :
    (∀ k, Distinct (run s (ops.take k))) ↔ Careful s ops := by
  induction ops generalizing s with
  | nil => exact ⟨fun _ => trivial, fun _ _ => by simpa [run] using distinct⟩
  | cons op rest ih =>
      have clear := step_distinct_iff allocated distinct op
      have later (now : Distinct (step s op)) := ih (step_allocated allocated op) now
      constructor
      · intro always
        have now : Distinct (step s op) := always 1
        exact ⟨clear.mp now, (later now).mp fun k => always (k + 1)⟩
      · rintro ⟨fine, careful⟩ k
        cases k with
        | zero => exact distinct
        | succ k => exact (later (clear.mpr fine)).mpr careful k

/-- The connections are told apart in every state of a run exactly if every dial of the
run is clear. -/
theorem demuxed_iff_careful (driver : Bool) (portBase portCount : UInt16) (ops : List Op) :
    (∀ k, Demuxed (run (open_ driver portBase portCount) (ops.take k))) ↔
      Careful (open_ driver portBase portCount) ops := by
  simp only [demuxed_iff]
  apply runs_distinct_iff
  · exact fun _ member => absurd member List.not_mem_nil
  · exact List.Pairwise.nil

/-! Nine connections to one server. -/

def serverIp : IP := 0x0a030401

def byte (w : UInt16) (i : UInt16) : UInt8 := (w >>> i).toUInt8

/-- The server's answer to the SYN from port `lport` with number 0. -/
def synAck (lport : UInt16) : List UInt8 :=
  [0, 80, byte lport 8, byte lport 0, 0, 0, 3, 232, 0, 0, 0, 1, 0x50, 0x12, 16, 0, 0, 0, 0, 0]

def connectTo (lport : UInt16) : List Op :=
  [.dial serverIp 80 0 true true, .segment serverIp (synAck lport)]

/-- Eight local ports go round, so the ninth connection takes the first one's. -/
def nineDials : List Op :=
  [40000, 40001, 40002, 40003, 40004, 40005, 40006, 40007, 40000].flatMap connectTo

theorem ninth_dial_collides : ¬ Demuxed (run (open_ true 0 0) nineDials) := by
  rw [demuxed_iff]
  unfold Distinct
  decide

/-- The answer to the ninth SYN is handed to the first connection. -/
example : (run (open_ true 0 0) nineDials).route serverIp 80 40000 = some 0 ∧
    ((run (open_ true 0 0) nineDials).heap 8).conn.state = .synSent := by
  decide

end R2Apps.StackDemux
