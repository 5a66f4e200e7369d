import Mathlib.Data.List.Perm.Basic
import Mathlib.Logic.Function.Basic
import R2Apps.FifoRings

/-! One process, two network stacks and a tool window, one frame queue:
`memento-hello/netmux.cpp`. Whoever asks reads the kernel's queue for everyone
and puts the others' frames aside in bounded rings. -/
namespace R2Apps.FrameMux
open R2Apps.FifoRings

inductive Client where
  | web
  | cr2
  | nsk
deriving DecidableEq

def clients : List Client := [.web, .cr2, .nsk]

def frameSize : Nat := 2048
def stashSize : Nat := 32
def idleMs : UInt64 := 3000

/-- A frame of the kernel's queue. The code sees the bytes; `id` is the frame's
place among the arrivals, for the statements. -/
structure Frame where
  id : Nat
  bytes : List UInt8
deriving DecidableEq

structure Stash where
  frames : Bool -- allocated on first use
  ring : Fifo Frame stashSize
  lastPull : UInt64
  active : Bool

structure Claim where
  who : Client
  lo : UInt16
  hi : UInt16
deriving DecidableEq

structure NetmuxStats where
  frames : Client → UInt64
  dropped : Client → UInt64
  rxFrames : UInt64
  rxBytes : UInt64

/-- What happened to a frame. `took` records what `owner` answered and for which
clients the frame was; `skipped` is a frame that does not fit a buffer. -/
inductive Event where
  | took (f : Frame) (owner : Option Client) (audience : List Client)
  | skipped (f : Frame)
  | delivered (who : Client) (f : Frame) (bytes : List UInt8)
  | dropped (who : Client) (f : Frame)
  | discarded (who : Client) (f : Frame)

structure Mux where
  kernel : List Frame
  stash : Client → Stash
  claims : List Claim
  stats : NetmuxStats
  -- how many frames the kernel queued, what became of them, what the pulls returned
  arrivals : Nat
  history : List Event
  returned : List (Client × List UInt8)

section Sorting

def get16 (p : List UInt8) (i : Nat) : Nat := (p.getD i 0).toNat * 256 + (p.getD (i + 1) 0).toNat

/-- The clock is a `uint64_t`: a pull in the future of `now` looks long ago. -/
def listening (s : Mux) (who : Client) (now : UInt64) : Bool :=
  (s.stash who).active && now - (s.stash who).lastPull < idleMs

/-- The echo ids of the scan, of ping and of traceroute. -/
def toolId (id : Nat) : Bool := id == 0x4e53 || id == 0x5047 || id == 0x5452

def toolIcmp (icmp : List UInt8) (len : Nat) : Bool :=
  if len < 8 then false
  else if icmp.getD 0 0 = 0 then toolId (get16 icmp 4)
  else if icmp.getD 0 0 ≠ 3 ∧ icmp.getD 0 0 ≠ 11 then false
  else if len < 8 + 20 then false
  else
    -- the error quotes the probe's IP header and its first eight bytes
    let inner := icmp.drop 8
    let ihl := (inner.getD 0 0).toNat % 16 * 4
    if (inner.getD 0 0).toNat / 16 ≠ 4 ∨ inner.getD 9 0 ≠ 1 ∨ ihl < 20 ∨ len < 8 + ihl + 8 then false
    else inner.getD ihl 0 == 8 && toolId (get16 inner (ihl + 4))

def claimant (claims : List Claim) (dport : Nat) : Option Client :=
  (claims.find? fun k => k.lo.toNat ≤ dport && dport ≤ k.hi.toNat).map Claim.who

def fallback (s : Mux) (now : UInt64) : Client :=
  if listening s .cr2 now || !listening s .web now then .cr2 else .web

/-- The IPv4 part of `owner`: `ip` starts at the header, `room` bytes are there. -/
def ipOwner (s : Mux) (now : UInt64) (ip : List UInt8) (room : Nat) : Client :=
  let proto := ip.getD 9 0
  let ihl := (ip.getD 0 0).toNat % 16 * 4
  let total := get16 ip 2
  if (ip.getD 0 0).toNat / 16 ≠ 4 ∨ ihl < 20 ∨ total < ihl ∨ room < total ∨ get16 ip 6 % 0x4000 ≠ 0 then
    fallback s now
  else if proto = 1 ∧ ihl + 8 ≤ total ∧ toolIcmp (ip.drop ihl) (total - ihl) = true then
    if listening s .nsk now then .nsk else fallback s now
  else if (proto = 6 ∨ proto = 17) ∧ ihl + 4 ≤ total then
    (claimant s.claims (get16 ip (ihl + 2))).getD .cr2
  else if listening s .web now then .web else fallback s now

def isArp (f : List UInt8) : Bool := 14 ≤ f.length && get16 f 12 == 0x0806

/-- Whose the frame is: a client, or none for all of them (ARP). -/
def owner (s : Mux) (f : List UInt8) (now : UInt64) : Option Client :=
  if f.length < 14 then some (fallback s now)
  else if get16 f 12 = 0x0806 then none
  else if get16 f 12 ≠ 0x0800 ∨ f.length < 14 + 20 then some (fallback s now)
  else some (ipOwner s now (f.drop 14) (f.length - 14))

end Sorting

section Pulling

def Mux.log (s : Mux) (e : Event) : Mux := { s with history := s.history ++ [e] }

def NetmuxStats.drop (t : NetmuxStats) (who : Client) : NetmuxStats :=
  { t with dropped := Function.update t.dropped who (t.dropped who + 1) }

def NetmuxStats.give (t : NetmuxStats) (who : Client) : NetmuxStats :=
  { t with frames := Function.update t.frames who (t.frames who + 1) }

def lose (s : Mux) (who : Client) (f : Frame) : Mux :=
  ({ s with stats := s.stats.drop who } : Mux).log (.dropped who f)

/-- `memory` is what the heap answers when the ring has no memory yet. -/
def backed (held : Stash) (memory : Bool) : Stash := { held with frames := held.frames || memory }

def keep (s : Mux) (who : Client) (f : Frame) (memory : Bool) : Mux :=
  let held := backed (s.stash who) memory
  if room : (backed (s.stash who) memory).frames = true ∧
      (backed (s.stash who) memory).ring.count < stashSize then
    { s with stash := Function.update s.stash who { held with ring := held.ring.put f room.2 } }
  else lose { s with stash := Function.update s.stash who held } who f

def deliver (s : Mux) (who : Client) (f : Frame) (cap : Nat) : Mux × List UInt8 :=
  (({ s with stats := s.stats.give who } : Mux).log (.delivered who f (f.bytes.take cap)), f.bytes.take cap)

def give (s : Mux) (who : Client) (cap : Nat) : Mux × List UInt8 :=
  let held := s.stash who
  let rest := { held with ring := held.ring.discard 1 }
  deliver { s with stash := Function.update s.stash who rest } who held.ring.front cap

def others (s : Mux) (who : Client) (now : UInt64) : List Client :=
  clients.filter fun c => c ≠ who && listening s c now

def audience (s : Mux) (who : Client) (now : UInt64) (f : Frame) : List Client :=
  match owner s f.bytes now with
  | none => who :: others s who now
  | some c => [c]

/-- The frame leaves the kernel's queue and is counted. -/
def take (s : Mux) (who : Client) (now : UInt64) (f : Frame) (rest : List Frame) : Mux :=
  ({ s with
      kernel := rest
      stats := { s.stats with
        rxFrames := s.stats.rxFrames + 1, rxBytes := s.stats.rxBytes + UInt64.ofNat f.bytes.length } }
    : Mux).log (.took f (owner s f.bytes now) (audience s who now f))

def skip (s : Mux) (f : Frame) (rest : List Frame) : Mux :=
  ({ s with kernel := rest } : Mux).log (.skipped f)

def copies (memory : Client → Bool) (f : Frame) : List Client → Mux → Mux
  | [], s => s
  | c :: more, s => copies memory f more (keep s c f (memory c))

def setAside (s : Mux) (c : Client) (now : UInt64) (f : Frame) (memory : Bool) : Mux :=
  if listening s c now then keep s c f memory else lose s c f

/-- The kernel's queue, at most `rounds` frames of it; `memory k c` is what the
heap answers for the client `c` when `k` rounds are left. -/
def drain (who : Client) (cap : Nat) (now : UInt64) (memory : Nat → Client → Bool) :
    Nat → Mux → Mux × List UInt8
  | 0, s => (s, [])
  | rounds + 1, s =>
    match s.kernel with
    | [] => (s, [])
    | f :: rest =>
      if f.bytes.length = 0 then (skip s f rest, []) -- the call's result is 0: no frame
      else if frameSize < f.bytes.length then drain who cap now memory rounds (skip s f rest)
      else
        match owner s f.bytes now with
        | none =>
          deliver (copies (memory rounds) f (others s who now) (take s who now f rest)) who f cap
        | some c =>
          if c = who then deliver (take s who now f rest) who f cap
          else drain who cap now memory rounds (setAside (take s who now f rest) c now f (memory rounds c))

def asked (s : Mux) (who : Client) (now : UInt64) : Mux :=
  let held := s.stash who
  { s with stash := Function.update s.stash who { held with lastPull := now, active := true } }

def netmuxPull (s : Mux) (who : Client) (cap : Nat) (now : UInt64) (memory : Nat → Client → Bool) :
    Mux × List UInt8 :=
  if 0 < (s.stash who).ring.count then give (asked s who now) who cap
  else drain who cap now memory 64 (asked s who now)

def netmuxClaim (s : Mux) (k : Claim) : Mux :=
  if k ∈ s.claims then s
  else if s.claims.length < 8 then { s with claims := s.claims ++ [k] } else s

def netmuxForget (s : Mux) (who : Client) : Mux :=
  let held := s.stash who
  { s with
    stash := Function.update s.stash who { held with ring := held.ring.clear, active := false }
    history := s.history ++ held.ring.contents.map (Event.discarded who) }

end Pulling

inductive Op where
  | arrive (bytes : List UInt8)
  | pull (who : Client) (now : UInt64) (memory : Nat → Client → Bool)
  | claim (k : Claim)
  | forget (who : Client)

def returns (r : Mux × List UInt8) (who : Client) : Mux :=
  { r.1 with returned := r.1.returned ++ if r.2 = [] then [] else [(who, r.2)] }

def step (s : Mux) : Op → Mux
  | .arrive bytes => { s with kernel := s.kernel ++ [⟨s.arrivals, bytes⟩], arrivals := s.arrivals + 1 }
  | .pull who now memory => returns (netmuxPull s who frameSize now memory) who
  | .claim k => netmuxClaim s k
  | .forget who => netmuxForget s who

def blankStash : Stash where
  frames := false
  ring := { cells := fun _ => ⟨0, []⟩, head := 0, count := 0, head_lt := by decide, count_le := by decide }
  lastPull := 0
  active := false

def boot : Mux where
  kernel := []
  stash := fun _ => blankStash
  claims := []
  stats := { frames := fun _ => 0, dropped := fun _ => 0, rxFrames := 0, rxBytes := 0 }
  arrivals := 0
  history := []
  returned := []

def run (ops : List Op) : Mux := ops.foldl step boot

end R2Apps.FrameMux
