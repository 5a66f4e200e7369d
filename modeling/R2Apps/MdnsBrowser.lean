import R2Apps.MdnsResponder

/-! The browser of `c/mdnsd/browse.c`: a cache of the services on the network and the questions that
keep it current. Times are milliseconds, as natural numbers; a service's type is its number in
`types`. What `zero` clears and `copy` moves is written as the values that are there afterwards. -/
namespace R2Apps.MdnsBrowser
open WireBytes MdnsMessages MdnsResponder

def maxTypes : Nat := 24
def maxFound : Nat := 48
def maxHosts : Nat := 48
def targetMax : Nat := 64
def listSize : Nat := 8192

def firstInterval : Nat := 1000
def maxInterval : Nat := 3600000
def batchMs : Nat := 250
def maxAsked : Nat := 32
def maxTtlS : Nat := 86400
def goodbyeMs : Nat := 1000
def refreshes : Nat := 4
def maxAsks : Nat := 3
def trailerRoom : Nat := 40

def seeds : List Label := [ascii "_http", ascii "_telnet", ascii "_rntp", ascii "_ssh"]

structure BrowseType where
  name : Label
  udp : Bool
  askAt : Nat
  interval : Nat

structure BrowseService where
  instance_ : Label
  type : Nat
  target : Name := []
  port : Nat := 0
  ptrExpires : Nat := 0
  srvExpires : Nat := 0
  ptrTtl : Nat := 0
  srvTtl : Nat := 0
  ptrRefreshes : Nat := 0
  srvRefreshes : Nat := 0
  asks : Nat := 0
  askAt : Nat

structure BrowseHost where
  name : Name
  ip : Bytes
  expires : Nat

structure Browse where
  types : List BrowseType := []
  services : List BrowseService := []
  hosts : List BrowseHost := []
  metaAt : Nat
  metaInterval : Nat

/-! ## Names -/

/-- Labels alike, ASCII case aside. -/
def same (a b : Label) : Bool := a.map lower == b.map lower

/-- At most four labels. -/
def split (name : Name) : Option Name := if name = [] ∨ 4 < name.length then none else some name

/-- Whether labels `i` on are a service type, `_x._tcp.local` or `_x._udp.local`, and if so, which. -/
def typeAt (l : Name) (i : Nat) : Option Bool :=
  match l.drop i with
  | [type, proto, domain] =>
      if type.head? ≠ some 95 ∨ !same domain (ascii "local") then none
      else if same proto (ascii "_tcp") then some false
      else if same proto (ascii "_udp") then some true
      else none
  | _ => none

/-- Names alike, and short enough for a target. -/
def wireEq (a b : Name) : Bool := nameEq a b && decide (wireLen a ≤ targetMax)

def BrowseType.wire (t : BrowseType) : Name :=
  [t.name, if t.udp then ascii "_udp" else ascii "_tcp", ascii "local"]

/-- `service_wire` without an instance. -/
def typeWire (b : Browse) (t : Nat) : Name := (b.types[t]?).elim [] BrowseType.wire

def serviceWire (b : Browse) (s : BrowseService) : Name := s.instance_ :: typeWire b s.type

/-! ## The cache -/

def ttlMs (ttl : Nat) : Nat := min ttl maxTtlS * 1000

def expiry (ttl now : Nat) : Nat := now + if ttl = 0 then goodbyeMs else ttlMs ttl

def findType (b : Browse) (name : Label) (udp : Bool) : Option Nat :=
  b.types.findIdx? fun t => t.udp == udp && same t.name name

def addType (b : Browse) (name : Label) (udp : Bool) (now : Nat) : Browse × Option Nat :=
  match findType b name udp with
  | some t => (b, some t)
  | none =>
      if b.types.length = maxTypes then (b, none)
      else ({ b with types := b.types ++ [⟨name, udp, now, firstInterval⟩] }, some b.types.length)

def findService (b : Browse) (instance_ : Label) (t : Nat) : Option Nat :=
  b.services.findIdx? fun s => s.type == t && same s.instance_ instance_

def findHost (b : Browse) (name : Name) : Option Nat := b.hosts.findIdx? fun h => wireEq h.name name

def isTarget (b : Browse) (name : Name) : Bool :=
  b.services.any fun s => s.srvExpires != 0 && s.target != [] && wireEq s.target name

def renewPtr (r : MdnsRecord) (now : Nat) (s : BrowseService) : BrowseService :=
  { s with
    ptrExpires := expiry r.ttl now, ptrTtl := ttlMs r.ttl, ptrRefreshes :=
      if r.ttl = 0 then refreshes else 0 }

/-- A PTR to an instance of a type. -/
def onInstance (b : Browse) (r : MdnsRecord) (type instance_ : Label) (udp : Bool) (now : Nat) : Browse :=
  match addType b type udp now with
  | (b, none) => b
  | (b, some t) =>
      match findService b instance_ t with
      | some i => { b with services := b.services.modify i (renewPtr r now) }
      | none =>
          if r.ttl = 0 ∨ b.services.length = maxFound then b
          else { b with services := b.services ++ [renewPtr r now { instance_, type := t, askAt := now }] }

def onPtr (b : Browse) (r : MdnsRecord) (now : Nat) : Browse :=
  match split r.name, split r.target with
  | some name, some target =>
      if nameEq name metaName then
        match typeAt target 0, target with
        | some udp, type :: _ => if r.ttl ≠ 0 then (addType b type udp now).1 else b
        | _, _ => b
      else
        match typeAt name 0, typeAt target 1, name, target with
        | some udp, some targetUdp, type :: _, instance_ :: type' :: _ =>
            if udp ≠ targetUdp ∨ !same type type' then b else onInstance b r type instance_ udp now
        | _, _, _, _ => b
  | _, _ => b

def renewSrv (r : MdnsRecord) (now : Nat) (s : BrowseService) : BrowseService :=
  { s with
    target := if wireLen r.target ≤ targetMax then r.target else []
    port := r.port
    srvExpires := expiry r.ttl now, srvTtl := ttlMs r.ttl, srvRefreshes := if r.ttl = 0 then refreshes else 0
    asks := 0, askAt := now }

def onSrv (b : Browse) (r : MdnsRecord) (now : Nat) : Browse :=
  match split r.name with
  | some (instance_ :: type :: rest) =>
      match typeAt (instance_ :: type :: rest) 1 with
      | some udp =>
          match (findType b type udp).bind (findService b instance_) with
          | some i => { b with services := b.services.modify i (renewSrv r now) }
          | none => b
      | none => b
  | _ => b

def onA (b : Browse) (r : MdnsRecord) (now : Nat) : Browse :=
  if wireLen r.name > targetMax ∨ !isTarget b r.name then b
  else
    let renewed : BrowseHost := ⟨r.name, r.ip, expiry r.ttl now⟩
    match findHost b r.name with
    | some i => { b with hosts := b.hosts.modify i fun h => { renewed with name := h.name } }
    | none =>
        if r.ttl = 0 then b
        else if b.hosts.length < maxHosts then { b with hosts := b.hosts ++ [renewed] }
        else
          -- a host no SRV points at any more makes room
          match b.hosts.findIdx? fun h => !isTarget b h.name with
          | some i => { b with hosts := b.hosts.set i renewed }
          | none => b

def browseStart (now : Nat) : Browse :=
  seeds.foldl (fun b seed => (addType b seed false now).1) { metaAt := now, metaInterval := firstInterval }

def takeRecord (pass : Nat) (now : Nat) (b : Browse) (r : MdnsRecord) : Browse :=
  if pass = 0 ∧ r.type = typePtr then onPtr b r now
  else if pass = 1 ∧ r.type = typeSrv then onSrv b r now
  else if pass = 2 ∧ r.type = typeA then onA b r now
  else b

/-- PTRs first, which make the services; then their SRVs; then the targets' addresses. -/
def browseInput (b : Browse) (m : Mdns) (frame : Bytes) (now : Nat) : Browse :=
  match mdnsResponse m frame with
  | none => b
  | some (msg, off, left_) =>
      let rs := allRecords msg left_ left_ off
      (List.range 3).foldl (fun b pass => rs.foldl (takeRecord pass now) b) b

/-- Drops what is gone, the last entry taking its place, and keeps the rest up to date. -/
def sweep {α : Type} (gone : α → Bool) (keep : α → α) : Nat → Nat → List α → List α
  | 0, _, l => l
  | turns + 1, i, l =>
      match l[i]? with
      | none => l
      | some x =>
          if gone x then sweep gone keep turns i ((l.set i (l.getLastD x)).dropLast)
          else sweep gone keep turns (i + 1) (l.set i (keep x))

def expireSrv (now : Nat) (s : BrowseService) : BrowseService :=
  if s.srvExpires ≠ 0 ∧ now ≥ s.srvExpires then
    { s with srvExpires := 0, target := [], port := 0, asks := 0, askAt := now }
  else s

def browseExpire (b : Browse) (now : Nat) : Browse :=
  { b with
    services := sweep (fun s => decide (now ≥ s.ptrExpires)) (expireSrv now) b.services.length 0 b.services
    hosts := sweep (fun h => decide (now ≥ h.expires)) id b.hosts.length 0 b.hosts }

/-! ## Asking -/

def refreshDue (expires ttl done now : Nat) : Bool :=
  expires ≠ 0 ∧ done < refreshes ∧ now + batchMs ≥ expires - ttl * (20 - 5 * done) / 100

def ptrDue (now : Nat) (s : BrowseService) : Bool := refreshDue s.ptrExpires s.ptrTtl s.ptrRefreshes now
def srvDue (now : Nat) (s : BrowseService) : Bool := refreshDue s.srvExpires s.srvTtl s.srvRefreshes now

def addressOf (b : Browse) (s : BrowseService) : Option BrowseHost :=
  if s.srvExpires ≠ 0 ∧ s.target ≠ [] then (findHost b s.target).bind fun i => b.hosts[i]? else none

inductive Kind where
  | meta_ | type (t : Nat) | srv (i : Nat) | a (i : Nat)

/-- A question of `q`, or none for one that is in the frame already, and what it stands for. -/
structure Due where
  question : Option MdnsQuestion
  kind : Kind

def askMeta (b : Browse) (now : Nat) : List Due :=
  if now ≥ b.metaAt then [⟨some ⟨metaName, typePtr⟩, .meta_⟩] else []

def askType (b : Browse) (now : Nat) (due : List Due) (e : BrowseType × Nat) : List Due :=
  if due.length < maxAsked ∧
    (now ≥ e.1.askAt ∨ b.services.any fun s => s.type == e.2 && (ptrDue now s || srvDue now s)) then
    due ++ [⟨some ⟨e.1.wire, typePtr⟩, .type e.2⟩]
  else due

/-- One question per target, whatever number of its services wait for it. -/
def asksFor (target : Name) (d : Due) : Bool :=
  d.question.any fun q => q.type == typeA && wireEq q.name target

def askService (b : Browse) (now : Nat) (due : List Due) (e : BrowseService × Nat) : List Due :=
  let s := e.1
  if due.length ≥ maxAsked ∨ s.asks ≥ maxAsks ∨ now < s.askAt ∨ s.ptrTtl = 0 then due
  else if s.srvExpires = 0 then due ++ [⟨some ⟨serviceWire b s, typeSrv⟩, .srv e.2⟩]
  else if s.target ≠ [] ∧ (addressOf b s).isNone then
    due ++ [⟨if due.any (asksFor s.target) then none else some ⟨s.target, typeA⟩, .a e.2⟩]
  else due

/-- What is due, in the order in which it is asked. -/
def dueNow (b : Browse) (now : Nat) : List Due :=
  b.services.zipIdx.foldl (askService b now) (b.types.zipIdx.foldl (askType b now) (askMeta b now))

def doubled (interval : Nat) : Nat := min (interval * 2) maxInterval

def markType (now : Nat) (t : BrowseType) : BrowseType :=
  if now ≥ t.askAt then { t with askAt := now + t.interval, interval := doubled t.interval } else t

def markRefreshes (now t : Nat) (s : BrowseService) : BrowseService :=
  if s.type ≠ t then s
  else { s with
    ptrRefreshes := if ptrDue now s then s.ptrRefreshes + 1 else s.ptrRefreshes
    srvRefreshes := if srvDue now s then s.srvRefreshes + 1 else s.srvRefreshes }

def markAsks (now : Nat) (s : BrowseService) : BrowseService :=
  { s with asks := s.asks + 1, askAt := now + firstInterval <<< (s.asks + 1) }

def mark (now : Nat) (b : Browse) : Kind → Browse
  | .meta_ => { b with metaAt := now + b.metaInterval, metaInterval := doubled b.metaInterval }
  | .type t =>
    { b with
      types := b.types.modify t (markType now)
      services := b.services.map (markRefreshes now t) }
  | .srv i | .a i => { b with services := b.services.modify i (markAsks now) }

/-- How many questions are in the frame up to this one. -/
def sentOf (due : List Due) (i : Nat) : Nat := ((due.take (i + 1)).filterMap Due.question).length

def browseQuery (b : Browse) (m : Mdns) (now : Nat) : Browse × Mdns × Bytes :=
  if m.ip = noIp then (b, m, [])
  else
    let due := dueNow b now
    let send := due.filterMap Due.question
    if send = [] then (b, m, [])
    else
      let ((m, frame), fitted) := mdnsQuery m send
      if frame = [] then (b, m, [])
      else
        let asked := (due.zipIdx.takeWhile fun e => decide (sentOf due e.2 ≤ fitted)).map fun e => e.1.kind
        (asked.foldl (mark now) b, m, frame)

/-! ## The list -/

structure Text where
  buf : Bytes := []
  cap : Nat
  full : Bool := false

def put (o : Text) (c : UInt8) : Text :=
  if o.buf.length < o.cap then { o with buf := o.buf ++ [c] } else { o with full := true }

def putText (o : Text) (text : Bytes) : Text := text.foldl put o

/-- The last digit first; a number of 32 bits has at most ten. -/
def digits : Nat → Nat → Bytes
  | 0, _ => []
  | fuel + 1, v => UInt8.ofNat (48 + v % 10) :: if v / 10 = 0 then [] else digits fuel (v / 10)

def num (v : Nat) : Bytes := (digits 10 v).reverse

/-- A label as text: printable ASCII as it is, `?` for anything else, once per UTF-8 character. -/
def labelText (label : Label) : Bytes :=
  (label.filter fun c => !(0x80 ≤ c ∧ c < 0xc0)).map fun c => if 0x20 ≤ c ∧ c < 0x7f then c else 63

def ipText (ip : Bytes) : Bytes :=
  if ip = noIp then [] else List.intercalate [46] (ip.map fun v => num v.toNat)

/-- The labels of a target up to its 64th byte. -/
def targetLabels : Name → Nat → List Bytes
  | [], _ => []
  | label :: rest, p =>
    if p < targetMax then labelText label :: targetLabels rest (p + 1 + label.length) else []

def lineText (instance_ type : Label) (udp : Bool) (target : Name) (ip : Bytes) (port : Nat) : Bytes :=
  labelText instance_ ++ [9] ++ labelText type ++ (if udp then ascii "._udp" else ascii "._tcp") ++ [9] ++
    List.intercalate [46] (targetLabels target 0) ++ [9] ++ ipText ip ++ [9] ++ num port ++ [10]

/-- One line, or none when it does not fit. -/
def putLine (o : Text) (line : Bytes) : Text × Nat :=
  let o' := putText o line
  if o'.full then ({ o' with buf := o'.buf.take o.buf.length }, 0) else (o', 1)

/-- Lines until one does not fit; how many went in. -/
def putLines (o : Text) (lines : List Bytes) : Text × Nat :=
  lines.foldl (fun (o, n) line => if o.full then (o, n) else let (o, k) := putLine o line; (o, n + k)) (o, 0)

def ownLine (m : Mdns) (s : MdnsService) : Bytes :=
  lineText s.instance_ s.type false (hostName m) m.ip s.port.toNat

/-- Found, resolved and not gone. -/
def listed (s : BrowseService) : Bool := s.srvExpires != 0 && s.srvTtl != 0 && s.ptrTtl != 0

def foundLine (b : Browse) (s : BrowseService) : Option Bytes :=
  if listed s then
    (b.types[s.type]?).map fun ty =>
      lineText s.instance_ ty.name ty.udp s.target ((addressOf b s).elim noIp BrowseHost.ip) s.port
  else none

def browseList (b : Browse) (m : Mdns) (seq : Nat) : Bytes :=
  let o : Text := { cap := listSize - trailerRoom }
  let o := putText o (ascii "# mdnsd " ++ num seq ++ [10])
  let (o, lines) := putLines o (m.services.map (ownLine m))
  let (o, more) := putLines o (b.services.filterMap (foundLine b))
  let o := putText { o with cap := listSize - 1, full := false }
    (ascii "# end " ++ num seq ++ ascii " " ++ num (lines + more) ++ [10])
  o.buf

end R2Apps.MdnsBrowser
