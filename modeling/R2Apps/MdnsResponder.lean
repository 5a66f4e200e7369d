import R2Apps.EthernetReceive
import R2Apps.MdnsMessages

/-! The responder of `c/mdnsd/mdns.c`: the records of a host, the questions it answers, its
announcements, and for the browser the questions it sends and the responses it reads. A set of
services is a predicate on their numbers, for the bits of `Set_T`. Times to live and lengths are
natural numbers; a frame is its bytes, and no frame is the empty list. -/
namespace R2Apps.MdnsResponder
open EthernetReceive (inetCksum)
open WireBytes MdnsMessages

def maxQuestions : Nat := 8

def noIp : Bytes := [0, 0, 0, 0]
def groupIp : Bytes := [224, 0, 0, 251]
def groupMac : Bytes := [0x01, 0x00, 0x5e, 0x00, 0x00, 0xfb]

structure MdnsService where
  port : UInt16
  type : Label
  instance_ : Label
  typeOk : 1 ≤ type.length ∧ type.length ≤ labelMax
  instanceOk : 1 ≤ instance_.length ∧ instance_.length ≤ labelMax

structure Mdns where
  host : Label
  ip : Bytes
  mac : Bytes
  services : List MdnsService
  ipId : Nat
  hostOk : 1 ≤ host.length ∧ host.length ≤ hostMax
  ipFour : ip.length = 4
  macSix : mac.length = 6
  few : services.length ≤ maxServices

/-! ## Names and records of the host -/

def hostName (m : Mdns) : Name := [m.host, ascii "local"]

def metaName : Name := [ascii "_services", ascii "_dns-sd", ascii "_udp", ascii "local"]

def typeName (s : MdnsService) : Name := [s.type, ascii "_tcp", ascii "local"]

def instanceName (s : MdnsService) : Name := [s.instance_, s.type, ascii "_tcp", ascii "local"]

def recordA (m : Mdns) : Record := ⟨hostName m, true, ttlHost, .a m.ip⟩

def recordMeta (s : MdnsService) : Record := ⟨metaName, false, ttlOther, .ptr (typeName s)⟩

def recordPtr (s : MdnsService) : Record := ⟨typeName s, false, ttlOther, .ptr (instanceName s)⟩

def recordSrv (m : Mdns) (s : MdnsService) : Record :=
  ⟨instanceName s, true, ttlHost, .srv s.port (hostName m)⟩

def recordTxt (s : MdnsService) : Record := ⟨instanceName s, true, ttlOther, .txt⟩

def rrA (g : Msg) (m : Mdns) : Msg := rr g (recordA m)
def rrMeta (g : Msg) (s : MdnsService) : Msg := rr g (recordMeta s)
def rrPtr (g : Msg) (s : MdnsService) : Msg := rr g (recordPtr s)
def rrSrv (g : Msg) (m : Mdns) (s : MdnsService) : Msg := rr g (recordSrv m s)
def rrTxt (g : Msg) (s : MdnsService) : Msg := rr g (recordTxt s)

/-! ## Frames -/

def ipHeader (m : Mdns) (length : Nat) (ip : Bytes) (cksum : Nat) : Bytes :=
  [0x45, 0] ++ be16 (28 + length) ++ be16 m.ipId ++ be16 0 ++ [255, 17] ++ be16 cksum ++ m.ip ++ ip

def udpHeader (length port : Nat) : Bytes := be16 mdnsPort ++ be16 port ++ be16 (8 + length) ++ be16 0

def wrap (m : Mdns) (g : Msg) (mac ip : Bytes) (port : Nat) : Mdns × Bytes :=
  let header := ipHeader m g.buf.length ip (inetCksum (ipHeader m g.buf.length ip 0))
  ({ m with ipId := m.ipId + 1 },
    mac ++ m.mac ++ [0x08, 0x00] ++ header ++ udpHeader g.buf.length port ++ g.buf)

structure Datagram where
  src : Bytes
  dst : Bytes
  sport : Nat
  msg : Bytes

/-- What a responder and a browser both ask of a frame: to port 5353, to the group or to this host, and
not by this host. -/
def datagram (m : Mdns) (frame : Bytes) : Option Datagram :=
  let ihl := (byteAt frame 14).toNat % 16 * 4
  let total := rd16 frame 16
  let src := (frame.drop 26).take 4
  let dst := (frame.drop 30).take 4
  let udp := 14 + ihl
  let ulen := rd16 frame (udp + 4)
  if m.ip = noIp ∨ frame.length < hdrLen + 12 ∨ byteAt frame 12 ≠ 0x08 ∨ byteAt frame 13 ≠ 0x00 then none
  else if (byteAt frame 14).toNat / 16 ≠ 4 ∨ ihl < 20 ∨ byteAt frame 23 ≠ 17 ∨ total < ihl + 8 + 12 ∨
      total > frame.length - 14 ∨ rd16 frame 20 % 0x4000 ≠ 0 then none
  else if (dst ≠ groupIp ∧ dst ≠ m.ip) ∨ src = m.ip then none
  else if rd16 frame (udp + 2) ≠ mdnsPort ∨ ulen < 8 + 12 ∨ ulen > total - ihl then none
  else some ⟨src, dst, rd16 frame udp, (frame.drop (udp + 8)).take (ulen - 8)⟩

/-! ## Answering -/

structure AnswerSet where
  a : Bool := false
  metas : Nat → Bool := fun _ => false
  ptr : Nat → Bool := fun _ => false
  srv : Nat → Bool := fun _ => false
  txt : Nat → Bool := fun _ => false

def writeSet (g : Msg) (m : Mdns) (s : AnswerSet) : Msg :=
  let g := if s.a then rrA g m else g
  let g := m.services.zipIdx.foldl (fun g e => if s.metas e.2 then rrMeta g e.1 else g) g
  m.services.zipIdx.foldl (fun g e =>
    let g := if s.ptr e.2 then rrPtr g e.1 else g
    let g := if s.srv e.2 then rrSrv g m e.1 else g
    if s.txt e.2 then rrTxt g e.1 else g) g

/-- Whether an earlier service is of the type of service `i`. -/
def typeSeen (m : Mdns) (i : Nat) : Bool :=
  (m.services.take i).any fun s => (m.services[i]?).any fun t => t.type == s.type

def matchQuestion (m : Mdns) (qname : Name) (qtype : Nat) (ans : AnswerSet) : AnswerSet :=
  let any := qtype == typeAny
  let on (name : MdnsService → Name) (i : Nat) : Bool := (m.services[i]?).any fun s => nameEq qname (name s)
  { a := ans.a || ((any || qtype == typeA) && nameEq qname (hostName m))
    metas := fun i => ans.metas i ||
      ((any || qtype == typePtr) && nameEq qname metaName && decide (i < m.services.length) && !typeSeen m i)
    ptr := fun i => ans.ptr i || ((any || qtype == typePtr) && on typeName i)
    srv := fun i => ans.srv i || ((any || qtype == typeSrv) && on instanceName i)
    txt := fun i => ans.txt i || ((any || qtype == typeTxt) && on instanceName i) }

structure Asked where
  name : Name
  type : Nat
  cls : Nat
deriving DecidableEq

def readQuestions (msg : Bytes) : Nat → Nat → Option (List Asked × Nat)
  | 0, off => some ([], off)
  | n + 1, off =>
      match readName msg off with
      | none => none
      | some (name, p) =>
          if p + 4 > msg.length then none
          else (readQuestions msg n (p + 4)).map fun (qs, stop) =>
            (⟨name, rd16 msg p, rd16 msg (p + 2)⟩ :: qs, stop)

def answersTo (m : Mdns) (qs : List Asked) : AnswerSet :=
  qs.foldl (fun ans q =>
    if q.cls % classTop = classIn ∨ q.cls % classTop = typeAny
      then matchQuestion m q.name q.type ans else ans) {}

/-- What a client asks next. -/
def additional (m : Mdns) (ans : AnswerSet) : AnswerSet :=
  { a := !ans.a && (List.range m.services.length).any fun i => ans.ptr i || ans.srv i
    srv := fun i => ans.ptr i && !ans.srv i
    txt := fun i => ans.ptr i && !ans.txt i }

def putAsked (g : Msg) (q : Asked) : Msg := put16 (put16 (putName g q.name) q.type) q.cls

def mdnsHandle (m : Mdns) (frame : Bytes) : Mdns × Bytes :=
  match datagram m frame with
  | none => (m, [])
  | some d =>
      if rd16 d.msg 2 &&& 0xf80f ≠ 0 then (m, [])
      else
        match readQuestions d.msg (min (rd16 d.msg 4) maxQuestions) 12 with
        | none => (m, [])
        | some (qs, _) =>
            let ans := answersTo m qs
            let legacy := decide (d.sport ≠ mdnsPort)
            let g : Msg := { beginMessage (if legacy then rd16 d.msg 0 else 0) with legacy := legacy }
            let g := if legacy then qs.foldl putAsked g else g
            if legacy ∧ g.full then (m, [])
            else
              let g : Msg := if legacy then { g with buf := wr16 g.buf 4 qs.length } else g
              let g := writeSet g m ans
              if g.count = 0 then (m, [])
              else
                let g : Msg := { g with buf := wr16 g.buf 6 g.count, count := 0 }
                let g := writeSet g m (additional m ans)
                let g : Msg := { g with buf := wr16 g.buf 10 g.count }
                if legacy ∨ d.dst ≠ groupIp then wrap m g ((frame.drop 6).take 6) d.src d.sport
                else wrap m g groupMac groupIp mdnsPort

def mdnsAnnounce (m : Mdns) (svc : Option MdnsService) (goodbye : Bool) : Mdns × Bytes :=
  if m.ip = noIp then (m, [])
  else
    let g : Msg := { beginMessage 0 with goodbye := goodbye }
    let g := match svc with
      | some s => rrTxt (rrSrv (rrPtr g s) m s) s
      | none => g
    let g :=
      if goodbye then g
      else match svc with
        | some s => rrA (rrMeta g s) m
        | none => rrA g m
    if g.count = 0 then (m, [])
    else wrap m { g with buf := wr16 g.buf 6 g.count } groupMac groupIp mdnsPort

/-! ## Asking -/

structure MdnsQuestion where
  name : Name
  type : Nat
deriving DecidableEq

/-- The questions that fit, and how many they are. -/
def putQuestions : List MdnsQuestion → Msg → Nat → Msg × Nat
  | [], g, asked => (g, asked)
  | q :: rest, g, asked =>
      if wireLen q.name > nameMax then (g, asked)
      else
        let h := put16 (put16 (putName g q.name) q.type) classIn
        if h.full then ({ h with buf := h.buf.take g.buf.length }, asked) else putQuestions rest h (asked + 1)

/-- The frame, and how many of the questions it asks. -/
def mdnsQuery (m : Mdns) (qs : List MdnsQuestion) : (Mdns × Bytes) × Nat :=
  if m.ip = noIp then ((m, []), 0)
  else
    let g := beginMessage 0
    let (g, asked) := putQuestions qs { g with buf := wr16 g.buf 2 0 } 0
    if asked = 0 then ((m, []), 0)
    else (wrap m { g with buf := wr16 g.buf 4 asked } groupMac groupIp mdnsPort, asked)

/-! ## Reading answers -/

/-- A response with its first record: the message, the offset and how many records there are. -/
def mdnsResponse (m : Mdns) (frame : Bytes) : Option (Bytes × Nat × Nat) :=
  (datagram m frame).bind fun d =>
    if d.sport ≠ mdnsPort ∨ rd16 d.msg 2 &&& 0xf80f ≠ 0x8000 then none
    else (readQuestions d.msg (rd16 d.msg 4) 12).map fun (_, off) =>
      (d.msg, off, rd16 d.msg 6 + rd16 d.msg 8 + rd16 d.msg 10)

end R2Apps.MdnsResponder
