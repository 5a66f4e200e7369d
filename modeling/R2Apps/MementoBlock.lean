import Mathlib.Data.List.Basic
import Mathlib.Logic.Function.Basic

/-! The block that a window's host and its client share, `libgor2/memento/memento.go` and `host.hpp`.
Every load and store of one word is a step of its own, and a command or a snapshot is copied word by
word, in any order. What `RuntimeOutput` writes is left out: none of these operations reads it. -/
namespace R2Apps.MementoBlock

def QueueSize : UInt32 := 32
def NoBuffer : UInt32 := 2
def HostTimeoutMS : UInt64 := 10000

abbrev Words (n : Nat) := Fin n → UInt32

/-- Its operation and its value. -/
abbrev Command := Words 2

inductive ExitReason where
  | running | hostClosed | hostTimeout | badQueue
deriving DecidableEq

structure Block (W : Nat) where
  clientBeat : UInt32 := 0
  frame : UInt32 := 0
  front : UInt32 := 0
  exited : UInt32 := 0
  tail : UInt32 := 0
  hostBeat : UInt32 := 1
  reading : UInt32 := NoBuffer
  quit : UInt32 := 0
  head : UInt32 := 0
  commands : UInt32 → Command := fun _ _ => 0
  snapshots : UInt32 → Words W := fun _ _ => 0
  exitReason : ExitReason := .running

section Copying
variable {n : Nat}

def copyWord (source target : Words n) (i : Fin n) : Words n := Function.update target i (source i)

def noneDone : Fin n → Bool := fun _ => false

def alsoDone (done : Fin n → Bool) (i : Fin n) : Fin n → Bool := Function.update done i true

end Copying

/-! ## The client -/

inductive PollPc where
  | quit (now : UInt64)
  | beat (now : UInt64)
  | add
  | head
  | tail (head : UInt32)

/-- The next step of `DrainCommands`; `handle` calls the callback. -/
inductive DrainPc where
  | head
  | tail (head : UInt32)
  | copy (head tail : UInt32) (got : Command) (done : Fin 2 → Bool)
  | store (head tail : UInt32) (command : Command)
  | handle (head tail : UInt32) (command : Command)

inductive PublishPc (W : Nat) where
  | front (snapshot : Words W)
  | reading (snapshot : Words W) (front : UInt32)
  | copy (snapshot : Words W) (back : UInt32) (done : Fin W → Bool)
  | store (snapshot : Words W) (back : UInt32)
  | add

inductive ClientPc (W : Nat) where
  | idle
  | poll (p : PollPc)
  | drain (d : DrainPc)
  | publish (p : PublishPc W)
  | stop (reason : ExitReason)
  | close

structure Client (W : Nat) where
  attached : Bool := true
  hostBeat : UInt32
  hostSeen : UInt64
  reason : ExitReason := .running
  pc : ClientPc W := .idle
  /-- Head and tail of the drain whose callback runs; the callback may poll and publish. -/
  loop : Option (UInt32 × UInt32) := none

/-! ## The host -/

inductive SendPc where
  | exited (command : Command)
  | head (command : Command)
  | tail (command : Command) (head : UInt32)
  | copy (command : Command) (head : UInt32) (done : Fin 2 → Bool)
  | store (command : Command) (head : UInt32)

/-- `number` counts the snapshots published before the one that is read; nothing reads it. -/
inductive ReadPc (W : Nat) where
  | frame
  | front (frame : UInt32)
  | lease (frame front : UInt32)
  | check (frame front : UInt32)
  | copy (frame front : UInt32) (number : Nat) (got : Words W) (done : Fin W → Bool)
  | release (ready : Option (Nat × Words W))

inductive HostPc (W : Nat) where
  | idle
  | send (p : SendPc)
  | read (p : ReadPc W)
  | beatLoad
  | beatStore (beat : UInt32)
  | quit

structure Host (W : Nat) where
  pc : HostPc W := .idle
  lastFrame : UInt32 := 0

/-! ## Both -/

/-- A drain that has returned: how many commands were accepted when it was called and when it read the
head, and how many the callback had been given when it returned. -/
structure Drained where
  called : Nat
  entry : Nat
  handled : Nat
deriving DecidableEq

/-- The block and both sides, and a history that neither reads. -/
structure State (W : Nat) where
  block : Block W := {}
  client : Client W
  host : Host W := {}
  /-- The commands that `send` has accepted. -/
  sent : List Command := []
  taken : Nat := 0
  handled : List Command := []
  called : Nat := 0
  /-- How many were accepted when it read the head; until then, when it was called. -/
  entry : Nat := 0
  finished : List Drained := []
  published : List (Words W) := []
  returned : List (Nat × Words W) := []
  /-- The client has touched the block after `Exited` was stored. -/
  touched : Bool := false

inductive Choice (W : Nat) where
  | next
  | word (i : Fin W)
  | half (i : Fin 2)

inductive Event (W : Nat) where
  | poll (now : UInt64)
  | drain
  | publish (snapshot : Words W)
  | close
  | callbackReturns
  | client (c : Choice W)
  | send (command : Command)
  | read
  | keepAlive
  | requestClose
  | host (c : Choice W)

section Steps
variable {W : Nat}

namespace State

def setClient (s : State W) (pc : ClientPc W) : State W := { s with client := { s.client with pc := pc } }
def setHost (s : State W) (pc : HostPc W) : State W := { s with host := { s.host with pc := pc } }

def pollStep (s : State W) : PollPc → State W
  | .quit now => if s.block.quit ≠ 0 then s.setClient (.stop .hostClosed) else s.setClient (.poll (.beat now))
  | .beat now =>
      if s.block.hostBeat ≠ s.client.hostBeat then
        { s with client := { s.client with hostBeat := s.block.hostBeat, hostSeen := now, pc := .poll .add } }
      else if now - s.client.hostSeen > HostTimeoutMS then s.setClient (.stop .hostTimeout)
      else s.setClient (.poll .add)
  | .add =>
      { s with
        block := { s.block with clientBeat := s.block.clientBeat + 1 }
        client := { s.client with pc := .poll .head } }
  | .head => s.setClient (.poll (.tail s.block.head))
  | .tail head =>
      if head - s.block.tail > QueueSize then s.setClient (.stop .badQueue) else s.setClient .idle

def drainLoop (s : State W) (head tail : UInt32) : State W :=
  if tail ≠ head then s.setClient (.drain (.copy head tail (fun _ => 0) noneDone))
  else { s with client := { s.client with pc := .idle, loop := none } }

def drainStep (s : State W) (c : Choice W) : DrainPc → State W
  | .head =>
      { s with client := { s.client with pc := .drain (.tail s.block.head) }, entry := s.sent.length }
  | .tail head =>
      if head - s.block.tail > QueueSize then s.setClient (.stop .badQueue)
      else s.drainLoop head s.block.tail
  | .copy head tail got done =>
      match c with
      | .half i =>
          s.setClient (.drain (.copy head tail (copyWord (s.block.commands (tail % QueueSize)) got i)
            (alsoDone done i)))
      | .next => if ∀ i, done i then s.setClient (.drain (.store head (tail + 1) got)) else s
      | .word _ => s
  | .store head tail command =>
      { s with
        block := { s.block with tail := tail }
        client := { s.client with pc := .drain (.handle head tail command) }
        taken := s.taken + 1 }
  | .handle head tail command =>
      { s with
        client := { s.client with pc := .idle, loop := some (head, tail) }
        handled := s.handled ++ [command] }

def publishStep (s : State W) (c : Choice W) : PublishPc W → State W
  | .front snapshot =>
      if s.block.front > 1 then s.setClient .idle
      else s.setClient (.publish (.reading snapshot s.block.front))
  | .reading snapshot front =>
      if s.block.reading = 1 - front then s.setClient .idle
      else s.setClient (.publish (.copy snapshot (1 - front) noneDone))
  | .copy snapshot back done =>
      match c with
      | .word i =>
          { s with
            block := { s.block with
              snapshots := Function.update s.block.snapshots back
                (copyWord snapshot (s.block.snapshots back) i) }
            client := { s.client with pc := .publish (.copy snapshot back (alsoDone done i)) } }
      | .next => if ∀ i, done i then s.setClient (.publish (.store snapshot back)) else s
      | .half _ => s
  | .store snapshot back =>
      { s with
        block := { s.block with front := back }
        client := { s.client with pc := .publish .add }
        published := s.published ++ [snapshot] }
  | .add =>
      { s with
        block := { s.block with frame := s.block.frame + 1 }
        client := { s.client with pc := .idle } }

/-- The next step of what the client is in; each but the callback is an access to the block. -/
def clientStep (s : State W) (c : Choice W) : State W :=
  let touching (t : State W) : State W := { t with touched := s.touched || decide (s.block.exited ≠ 0) }
  match s.client.pc with
  | .idle => s
  | .poll p => touching (s.pollStep p)
  | .drain (.handle head tail command) => s.drainStep c (.handle head tail command)
  | .drain d => touching (s.drainStep c d)
  | .publish p => touching (s.publishStep c p)
  | .stop reason =>
      touching { s with
        block := { s.block with exitReason := reason }
        client := { s.client with reason := reason, pc := .idle } }
  | .close =>
      touching { s with
        block := { s.block with exited := 1 }
        client := { s.client with pc := .idle } }

def sendStep (s : State W) (c : Choice W) : SendPc → State W
  | .exited command => if s.block.exited ≠ 0 then s.setHost .idle else s.setHost (.send (.head command))
  | .head command => s.setHost (.send (.tail command s.block.head))
  | .tail command head =>
      if head - s.block.tail ≥ QueueSize then s.setHost .idle
        else s.setHost (.send (.copy command head noneDone))
  | .copy command head done =>
      match c with
      | .half i =>
          { s with
            block := { s.block with
              commands := Function.update s.block.commands (head % QueueSize)
                (copyWord command (s.block.commands (head % QueueSize)) i) }
            host := { s.host with pc := .send (.copy command head (alsoDone done i)) } }
      | .next => if ∀ i, done i then s.setHost (.send (.store command head)) else s
      | .word _ => s
  | .store command head =>
      { s with
        block := { s.block with head := head + 1 }
        host := { s.host with pc := .idle }
        sent := s.sent ++ [command] }

def readStep (s : State W) (c : Choice W) : ReadPc W → State W
  | .frame =>
      if s.block.frame = s.host.lastFrame then s.setHost .idle
      else s.setHost (.read (.front s.block.frame))
  | .front frame =>
      if s.block.front > 1 then s.setHost .idle else s.setHost (.read (.lease frame s.block.front))
  | .lease frame front =>
      { s with
        block := { s.block with reading := front }
        host := { s.host with pc := .read (.check frame front) } }
  | .check frame front =>
      if s.block.front = front then
        s.setHost (.read (.copy frame front (s.published.length - 1) (fun _ => 0) noneDone))
      else s.setHost (.read (.release none))
  | .copy frame front number got done =>
      match c with
      | .word i =>
          s.setHost (.read (.copy frame front number (copyWord (s.block.snapshots front) got i)
            (alsoDone done i)))
      | .next =>
          if ∀ i, done i then
            { s with host := { pc := .read (.release (some (number, got))), lastFrame := frame } }
          else s
      | .half _ => s
  | .release ready =>
      { s with
        block := { s.block with reading := NoBuffer }
        host := { s.host with pc := .idle }
        returned := s.returned ++ ready.toList }

def hostStep (s : State W) (c : Choice W) : State W :=
  match s.host.pc with
  | .idle => s
  | .send p => s.sendStep c p
  | .read p => s.readStep c p
  | .beatLoad => s.setHost (.beatStore (s.block.hostBeat + 1))
  | .beatStore beat =>
      { s with block := { s.block with hostBeat := beat }, host := { s.host with pc := .idle } }
  | .quit => { s with block := { s.block with quit := 1 }, host := { s.host with pc := .idle } }

/-- The client can be called: it is in no call, or in a callback. -/
def free (s : State W) : Bool :=
  match s.client.pc with
  | .idle => true
  | _ => false

def hostFree (s : State W) : Bool :=
  match s.host.pc with
  | .idle => true
  | _ => false

/-- The client's methods go on only while it is attached and has not stopped. -/
def running (s : State W) : Bool := s.free && s.client.attached && s.client.reason = .running

/-- What cannot happen changes nothing; so does a call that returns before its first access. -/
def act (s : State W) : Event W → State W
  | .poll now => if s.running then s.setClient (.poll (.quit now)) else s
  | .drain =>
      if s.running ∧ s.client.loop = none then
        { s with
          client := { s.client with pc := .drain .head }
          called := s.sent.length
          entry := s.sent.length }
      else s
  | .publish snapshot => if s.running then s.setClient (.publish (.front snapshot)) else s
  | .close =>
      if s.free ∧ s.client.attached ∧ s.client.loop = none then
        { s with client := { s.client with attached := false, pc := .close } }
      else s
  | .callbackReturns =>
      match s.client.loop with
      | some (head, tail) =>
          if s.free then ({ s with client := { s.client with loop := none } } :
            State W).drainLoop head tail else s
      | none => s
  | .client c => s.clientStep c
  | .send command => if s.hostFree then s.setHost (.send (.exited command)) else s
  | .read => if s.hostFree then s.setHost (.read .frame) else s
  | .keepAlive => if s.hostFree then s.setHost .beatLoad else s
  | .requestClose => if s.hostFree then s.setHost .quit else s
  | .host c => s.hostStep c

def draining (s : State W) : Bool :=
  s.client.loop.isSome || match s.client.pc with
    | .drain _ => true
    | _ => false

-- However a drain comes to its end, its return is noted.
def step (s : State W) (e : Event W) : State W :=
  let t := s.act e
  if s.draining && !t.draining
    then { t with finished := t.finished ++ [⟨t.called, t.entry, t.handled.length⟩] }
  else t

def run (s : State W) (events : List (Event W)) : State W := events.foldl step s

end State

/-- The host has initialised the block and the client has connected to it. -/
def connected (W : Nat) (beat : UInt32) (now : UInt64) : State W where
  client := { hostBeat := beat, hostSeen := now }

end Steps

end R2Apps.MementoBlock
