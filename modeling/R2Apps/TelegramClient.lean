import Mathlib.Algebra.GroupWithZero.Nat
import R2Apps.TelegramApp
import R2Apps.WireHttp

/-! `go/telegram/net.go`: a job is one request over one connection, which is kept from
one to the next. What the connection, the dialer, the clock and the allocator do in an
attempt is an `Outside`; the server has received a first part of what was handed to
`Write`, and answers with bytes that come before the connection breaks. -/
namespace R2Apps.TelegramClient
open WireHttp
open WireBytes (ascii)

abbrev jsonLimit : Nat := 1024 * 1024
abbrev keepIdleMS : UInt64 := 15000
abbrev bigBody : Nat := 64 * 1024

structure Job where
  kind : TelegramApp.Request
  api : Bytes
  path : Bytes
  body : Option (List Bytes)
  contentType : Bytes
  limit : Nat

/-- `release` is the room outside the Go heap that the body is in. -/
structure Result where
  kind : TelegramApp.Request
  status : Int
  body : Bytes
  release : Option Nat
  err : Option Err
  took : UInt64
  fresh : Bool
deriving DecidableEq

structure Endpoint where
  secure : Bool
  host : Bytes
  port : Nat
  path : Bytes
deriving DecidableEq

section Heads

/-- What stands behind `start`, when `s` starts so. -/
def cut (start s : Bytes) : Option Bytes := if start.isPrefixOf s then some (s.drop start.length) else none

def trimSlashes (s : Bytes) : Bytes := (s.reverse.dropWhile (· == 47)).reverse

def cutPort (s : Bytes) : Option (Bytes × Bytes) :=
  (s.reverse.idxOf? 58).map fun i => (s.take (s.length - (i + 1)), s.drop (s.length - i))

def parsePort (secure : Bool) (rest : Bytes) : Except Err (Bytes × Nat) :=
  match cutPort rest with
  | none => .ok (rest, if secure then 443 else 80)
  | some (host, port) =>
      match parseUint 10 65535 port with
      | none => .error (.text "bad port in the API address")
      | some 0 => .error (.text "bad port in the API address")
      | some (p + 1) => .ok (host, p + 1)

def parseEndpoint (secure : Bool) (rest : Bytes) : Except Err Endpoint :=
  let path := match rest.idxOf? 47 with
    | some i => trimSlashes (rest.drop i)
    | none => []
  match parsePort secure (rest.takeWhile (· != 47)) with
  | .error e => .error e
  | .ok (host, port) =>
      if host = [] ∨ 32 ∈ host ∨ 13 ∈ host ∨ 10 ∈ host then .error (.text "bad host in the API address")
      else .ok ⟨secure, host, port, path⟩

def parseAPI (api : Bytes) : Except Err Endpoint :=
  match cut (ascii "https://") api, cut (ascii "http://") api with
  | some rest, _ => parseEndpoint true rest
  | none, some rest => parseEndpoint false rest
  | none, none => .error (.text "the API address must start with https:// or http://")

def Job.method (j : Job) : Bytes := if j.body.isSome then ascii "POST" else ascii "GET"

def decimal (n : Nat) : Bytes := ascii (toString n)

def bodyLength (j : Job) : Nat := ((j.body.getD []).map List.length).sum

def Endpoint.request (e : Endpoint) (j : Job) : Bytes :=
  let port := if e.port = if e.secure then 443 else 80 then [] else 58 :: decimal e.port
  let type := if j.contentType = [] then ascii "application/x-www-form-urlencoded" else j.contentType
  let about := if j.body.isNone then []
    else ascii "Content-Type: " ++ type ++ ascii "\r\nContent-Length: " ++ decimal (bodyLength j) ++
      ascii "\r\n"
  j.method ++ [32] ++ e.path ++ j.path ++ ascii " HTTP/1.1\r\nHost: " ++ e.host ++ port ++
    ascii "\r\nUser-Agent: r2telegram/1.0\r\nAccept-Encoding: identity\r\nConnection: keep-alive\r\n" ++
      about ++
    ascii "\r\n"

def Endpoint.whole (e : Endpoint) (j : Job) : Nat := (e.request j).length + bodyLength j

end Heads

/-- A connection to the API. `unread` is what the server has sent and nobody has read. `answer` is history:
the last answer read from it. -/
structure Conn where
  unread : Bytes
  answer : Option Response

/-- `given` and `back` are history: the rooms that `alloc` gave and those that `free` was called with. -/
structure Client where
  conn : Option Conn
  key : Bytes
  usedAt : UInt64
  allocs : Bool
  given : List Nat
  back : List Nat

/-- What meets an attempt: the clock when the age of the connection is looked at and when the answer is
complete, what dialing says, what each `Write` takes and says, how many of the bytes handed to `Write`
get to the server, what it has sent on a kept connection before the request and what it sends for it, the
error that ends the reading, how far `bufio` has read past the answer, and what `alloc` gives. -/
structure Outside where
  now : UInt64
  used : UInt64
  dial : Option Err
  write : Nat → Nat × Option Err
  reach : Nat
  early : Bytes
  sent : Bytes
  broken : Err
  ahead : Nat
  room : Option Nat

def isStopped : Err → Bool
  | .stopped => true
  | .upload _ _ err => isStopped err
  | _ => false

def Client.drop (c : Client) : Client := { c with conn := none }

def Result.free (r : Result) (c : Client) : Result × Client :=
  ({ r with release := none, body := [] }, { c with back := r.release.toList ++ c.back })

section Attempt
variable (w : Outside)

/-- Bytes sent, the error, and the calls so far. Each call takes a byte or is the last. -/
def writeBytes : Nat → Nat → Nat → Bytes → Nat × Option Err × Nat
  | 0, call, sent, _ => (sent, none, call)
  | fuel + 1, call, sent, b =>
      if b = [] then (sent, none, call)
      else
        let n := min (w.write call).1 b.length
        match (w.write call).2 with
        | some err => (sent + n, some err, call + 1)
        | none =>
            if n = 0 then (sent, some .shortWrite, call + 1)
            else writeBytes fuel (call + 1) (sent + n) (b.drop n)

/-- The error of the first part that does not go out, and how many bytes `Write` has been handed. -/
def writeParts (total : Nat) : Nat → Nat → Nat → List Bytes → Option Err × Nat
  | _, _, handed, [] => (none, handed)
  | call, sent, handed, p :: rest =>
      match writeBytes w p.length call 0 p with
      | (n, some err, _) => (some (.upload (sent + n) total err), handed + p.length)
      | (n, none, call) => writeParts total call (sent + n) (handed + p.length) rest

def send (e : Endpoint) (j : Job) : Option Err × Nat :=
  let head := e.request j
  match writeBytes w head.length 0 0 head with
  | (_, some err, _) => (some err, head.length)
  | (_, none, call) => writeParts w (bodyLength j) call 0 head.length (j.body.getD [])

/-- The server has received all of the request, and acts on it. -/
def acts (e : Endpoint) (j : Job) : Bool := decide (e.whole j ≤ min w.reach (send w e j).2)

def opens (fresh : Bool) (j : Job) (c : Client) : Bool :=
  fresh || c.conn.isNone || c.key != j.api || decide (w.now - c.usedAt > keepIdleMS)

/-- What is on the kept connection when the request goes out. -/
def old (c : Client) : Bytes := ((c.conn.map Conn.unread).getD []) ++ w.early

/-- The connection's bytes from before the request, and the client with it. -/
def connect (fresh : Bool) (j : Job) (c : Client) : Except Err (Bytes × Client) :=
  if opens w fresh j c then
    match w.dial with
    | some err => .error err
    | none => .ok ([], { c with conn := some ⟨[], none⟩, key := j.api })
  else .ok (old w c, c)

def answerLimit (j : Job) : Nat := if j.limit = 0 then jsonLimit else j.limit

def receive (j : Job) (r : Result) (unread : Bytes) (c : Client) : Result × Client × Nat :=
  let stream := unread ++ w.sent
  let read := readAlloc w.broken (answerLimit j) stream
  let big := match read.asked with
    | some n => if bigBody ≤ n ∧ c.allocs = true then w.room else none
    | none => none
  let r := { r with release := big }
  let c := { c with given := big.toList ++ c.given }
  match read.answer with
  | .error err =>
      let status : Int := if stream = [] then r.status else 0
      let err := if err = .tooLarge then .text "the answer is too big" else err
      let freed := Result.free { r with status := status } c.drop
      ({ freed.1 with err := some err }, freed.2, 0)
  | .ok (resp, rest) =>
      let c := if resp.reusable
        then { c with usedAt := w.used, conn := some ⟨rest.drop w.ahead, some resp⟩ } else c.drop
      ({ r with status := Int.ofNat resp.status, body := resp.body }, c,
        min unread.length (stream.length - rest.length))

/-- An attempt's result and the client after it. `acted` is history: whether the server has acted on the
job; `stale` as well: how many bytes of the answer came before the request. -/
structure Attempt where
  result : Result
  client : Client
  acted : Bool
  stale : Nat

def attempt (fresh : Bool) (j : Job) (c : Client) : Attempt :=
  let r : Result := ⟨j.kind, -1, [], none, none, 0, false⟩
  match parseAPI j.api with
  | .error err => ⟨{ r with err := some err }, c, false, 0⟩
  | .ok e =>
      match connect w fresh j c with
      | .error err => ⟨{ r with err := some err }, c.drop, false, 0⟩
      | .ok (unread, d) =>
          let r := { r with fresh := opens w fresh j c }
          match (send w e j).1 with
          | some err => ⟨{ r with err := some err }, d.drop, acts w e j, 0⟩
          | none =>
              let received := receive w j r unread d
              ⟨received.1, received.2.1, acts w e j, received.2.2⟩

end Attempt

structure Trip where
  start : UInt64
  finish : UInt64
  first : Outside
  second : Outside

def retries (j : Job) (r : Result) : Bool :=
  match r.err with
  | none => false
  | some err => !r.fresh && !isStopped err && (j.body.isNone || r.status == -1)

/-- A job's result and the client after it; `acted` is how often the server has acted on it. -/
structure Done where
  result : Result
  client : Client
  acted : Nat
  stale : Nat

def finished (t : Trip) (r : Result) : Result :=
  { r with
    err := r.err.map fun err => if isStopped err then .stopped else err
    status := if r.status < 0 then 0 else r.status
    took := t.finish - t.start }

def do_ (t : Trip) (j : Job) (c : Client) : Done :=
  let a := attempt t.first false j c
  if retries j a.result then
    let b := attempt t.second true j (a.result.free a.client).2
    ⟨finished t b.result, b.client, a.acted.toNat + b.acted.toNat, b.stale⟩
  else ⟨finished t a.result, a.client, a.acted.toNat, a.stale⟩

end R2Apps.TelegramClient
