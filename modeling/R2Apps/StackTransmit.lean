import R2Apps.InternetChecksums
import R2Apps.PrefixRoutes

/-! Sending in `memento-hello/web/net_r2.cpp`: one buffer, `txFrame_`, is filled by
`segment`, `dnsSendUdp` or `onIcmp` from its byte 34 on, and `sendIp` puts the headers in
front of it. When the MAC of the next hop is not known, the ARP request for it is made in
the same buffer. `sent` is what goes to `netmux_send`. -/
namespace R2Apps.StackTransmit
open ByteMemory BufferPrefixes EthernetReceive InternetChecksums PrefixRoutes

abbrev Bytes := List UInt8
abbrev Mac := Vector UInt8 6

def arpResendMs : UInt64 := 250
def fallbackMs : UInt64 := 1500

structure Arp where
  ip : Ip4
  mac : Mac
  valid : Bool

structure Stack where
  driver : Bool
  mac : Mac
  ip : Ip4
  mask : Ip4
  gw : Ip4
  ipId : UInt16
  txFrame : Memory
  arp : Vector Arp 8
  arpAskedAt : UInt64
  arpAsked : Ip4
  /-- an address on the link still without a MAC, and since when -/
  unanswered : Ip4
  unansweredSince : UInt64
  asked : UInt32

/-- What the driver publishes. -/
structure Published where
  gateway : Ip4
  gatewayMac : Mac
  gatewayMacKnown : Bool

/-- What a call of `sendIp` finds: the clock where `arpAsk` and `sendIp` read it, the
configuration, and the slot that `rdtsc` picks. -/
structure Look where
  askedAt : UInt64
  now : UInt64
  config : Option Published
  slot : Fin 8

def sum16 (p : Bytes) (sum : Nat) : Nat := sum + sumPairs p

def fold (sum : Nat) : Nat := 65535 - foldCarry 3 (sum % 2 ^ 32) % 65536

def onLink (s : Stack) (ip : Ip4) : Bool :=
  (List.finRange 4).all fun i => ip.get i &&& s.mask.get i == s.ip.get i &&& s.mask.get i

def nextHop (s : Stack) (dst : Ip4) : Ip4 := if onLink s dst then dst else s.gw

def arpLookup (s : Stack) (ip : Ip4) : Option Mac :=
  (s.arp.toList.find? fun a => a.valid && a.ip == ip).map Arp.mac

def arpRemember (s : Stack) (ip : Ip4) (mac : Mac) (pick : Fin 8) : Stack :=
  if ip = Vector.replicate 4 0 ∨ mac[0] &&& 1 ≠ 0 ∨ mac = s.mac then s
  else
    let known := ((List.finRange 8).filter fun i => s.arp[i].valid && s.arp[i].ip == ip).getLast?
    let free := (List.finRange 8).find? fun i => !s.arp[i].valid
    let slot := (known.or free).getD pick
    { s with arp := s.arp.set slot { ip := ip, mac := mac, valid := true } }

/-- The frame of `arpSend`: a request has `op` 1. -/
def arpFrame (s : Stack) (op : Nat) (tip : Ip4) (tmac : Mac) : Bytes :=
  (if op = 1 then List.replicate 6 0xFF else tmac.toList) ++ s.mac.toList ++ [0x08, 0x06] ++
    [0, 1, 0x08, 0, 6, 4] ++ big16 op ++ s.mac.toList ++ s.ip.toList ++
    (if op = 1 then List.replicate 6 0 else tmac.toList) ++ tip.toList

def sendFrame (s : Stack) (length : Nat) : Bytes := bytesAt s.txFrame 0 length

def arpSend (s : Stack) (op : Nat) (tip : Ip4) (tmac : Mac) : Stack × List Bytes :=
  let s := { s with
    txFrame := put s.txFrame 0 (arpFrame s op tip tmac)
    asked := if op = 1 then s.asked + 1 else s.asked }
  (s, [sendFrame s 42])

/-- The gateway's MAC, when the driver has it. -/
def publishedMac (s : Stack) (config : Option Published) : Option Mac :=
  config.bind fun cfg => if cfg.gatewayMacKnown && cfg.gateway == s.gw then some cfg.gatewayMac else none

def arpAsk (s : Stack) (look : Look) (ip : Ip4) : Stack × List Bytes :=
  if s.arpAsked = ip ∧ look.askedAt - s.arpAskedAt < arpResendMs then (s, [])
  else
    let s := { s with arpAsked := ip, arpAskedAt := look.askedAt }
    if !s.driver ∧ ip = s.gw then
      match publishedMac s look.config with
      | some mac => (arpRemember s s.gw mac look.slot, [])
      | none => arpSend s 1 ip (Vector.replicate 6 0)
    else arpSend s 1 ip (Vector.replicate 6 0)

def noteUnanswered (s : Stack) (look : Look) (hop : Ip4) : Stack :=
  if s.unanswered ≠ hop then { s with unanswered := hop, unansweredSince := look.now } else s

/-- The gateway, for a host that has not answered for a while. -/
def fallback (s : Stack) (look : Look) (hop : Ip4) : Option Mac :=
  if s.driver || hop == s.gw || look.now - s.unansweredSince < fallbackMs then none else arpLookup s s.gw

/-- The MAC that the frame goes to, with what it takes to find it. -/
def resolve (s : Stack) (look : Look) (hop : Ip4) : Stack × List Bytes × Option Mac :=
  match arpLookup s hop with
  | some mac => (s, [], some mac)
  | none =>
      let asked := arpAsk s look hop
      let s := noteUnanswered asked.1 look hop
      (s, asked.2, fallback s look hop)

def ipHeader (s : Stack) (dst : Ip4) (proto : UInt8) (total : Nat) : Bytes :=
  let before : Bytes := [0x45, 0] ++ big16 total ++ big16 (s.ipId + 1).toNat ++ [0x40, 0, 64, proto]
  let after := s.ip.toList ++ dst.toList
  before ++ big16 (fold (sum16 (before ++ [0, 0] ++ after) 0)) ++ after

def sendIp (s : Stack) (look : Look) (dst : Ip4) (proto : UInt8) (payloadLen : Nat) :
    Stack × List Bytes × Bool :=
  match resolve s look (nextHop s dst) with
  | (s, frames, none) => (s, frames, false)
  | (s, frames, some mac) =>
      let total := 20 + payloadLen
      let header := mac.toList ++ s.mac.toList ++ [0x08, 0] ++ ipHeader s dst proto total
      let s := { s with txFrame := put s.txFrame 0 header, ipId := s.ipId + 1 }
      (s, frames ++ [sendFrame s (14 + total)], true)

def big32 (x : UInt32) : Bytes := [(x >>> 24).toUInt8, (x >>> 16).toUInt8, (x >>> 8).toUInt8, x.toUInt8]

structure Segment where
  rip : Ip4
  lport : UInt16
  rport : UInt16
  flags : UInt8
  seq : UInt32
  ack : UInt32
  wnd : UInt16
  opt : Bytes := []
  data : Bytes := []

/-- The words that a checksum of TCP or UDP takes in before the segment. -/
def pseudoSum (ip dst : Ip4) (proto : UInt8) (length : Nat) : Nat :=
  sum16 dst.toList (sum16 ip.toList 0) + proto.toNat + length

def tcpBytes (ip : Ip4) (t : Segment) : Bytes :=
  let hl := 20 + t.opt.length
  let before := big16 t.lport.toNat ++ big16 t.rport.toNat ++ big32 t.seq ++ big32 t.ack ++
    [UInt8.ofNat (hl / 4) <<< 4, t.flags] ++ big16 t.wnd.toNat
  let after := [0, 0] ++ t.opt ++ t.data
  let zeroed := before ++ [0, 0] ++ after
  before ++ big16 (fold (sum16 zeroed (pseudoSum ip t.rip 6 zeroed.length))) ++ after

/-- `segment` as `sendRst` calls it. -/
def rstSegment (dst : Ip4) (lport rport : UInt16) (seq ack : UInt32) (flags : UInt8) (dataLen : Nat) :
    Segment :=
  if flags &&& 0x10 ≠ 0
    then { rip := dst, lport := lport, rport := rport, flags := 0x04, seq := ack, ack := 0, wnd := 0 }
  else
    let used := UInt32.ofNat dataLen + if flags &&& 0x03 ≠ 0 then 1 else 0
    { rip := dst, lport := lport, rport := rport, flags := 0x14, seq := 0, ack := seq + used, wnd := 0 }

/-- `port` is `DNS_PORT_LOCAL`, which `r2NetSetPortBase` sets. -/
def udpBytes (ip server : Ip4) (port : UInt16) (query : Bytes) : Bytes :=
  let length := 8 + query.length
  let before := big16 port.toNat ++ big16 53 ++ big16 length
  let ck := fold (sum16 (before ++ [0, 0] ++ query) (pseudoSum ip server 17 length))
  before ++ big16 (if ck ≠ 0 then ck else 0xFFFF) ++ query

/-- The reply to an echo request. -/
def icmpBytes (p : Bytes) : Bytes :=
  let zeroed := 0 :: p.getD 1 0 :: 0 :: 0 :: p.drop 4
  [0, p.getD 1 0] ++ big16 (fold (sum16 zeroed 0)) ++ p.drop 4

/-- What is sent, with the bounds that its callers keep. -/
inductive Sender where
  | segment (t : Segment) (opt : t.opt.length ≤ 4) (data : t.data.length ≤ 1024)
  | rst (dst : Ip4) (lport rport : UInt16) (seq ack : UInt32) (flags : UInt8) (dataLen : Nat)
  | dns (server : Ip4) (port : UInt16) (query : Bytes) (fits : query.length ≤ 300)
  | icmp (src : Ip4) (request : Bytes) (least : 8 ≤ request.length) (fits : request.length ≤ 2014)

def Sender.dst : Sender → Ip4
  | .segment t _ _ => t.rip
  | .rst dst _ _ _ _ _ _ => dst
  | .dns server _ _ _ => server
  | .icmp src _ _ _ => src

def Sender.proto : Sender → UInt8
  | .segment _ _ _ => 6
  | .rst _ _ _ _ _ _ _ => 6
  | .dns _ _ _ _ => 17
  | .icmp _ _ _ _ => 1

def Sender.bytes (ip : Ip4) : Sender → Bytes
  | .segment t _ _ => tcpBytes ip t
  | .rst dst lport rport seq ack flags dataLen =>
    tcpBytes ip (rstSegment dst lport rport seq ack flags dataLen)
  | .dns server port query _ => udpBytes ip server port query
  | .icmp _ request _ _ => icmpBytes request

/-- The buffer with the bytes of a caller after the room for the headers. -/
def filled (s : Stack) (bytes : Bytes) : Stack := { s with txFrame := put s.txFrame 34 bytes }

def transmit (s : Stack) (look : Look) (x : Sender) : Stack × List Bytes × Bool :=
  let bytes := x.bytes s.ip
  sendIp (filled s bytes) look x.dst x.proto bytes.length

section Checksums

@[simp] theorem big16_length (x : Nat) : (big16 x).length = 2 := rfl

@[simp] theorem big32_length (x : UInt32) : (big32 x).length = 4 := rfl

theorem sumPairs_big16 {x : Nat} (small : x < 65536) : sumPairs (big16 x) = x := by
  simp only [big16, sumPairs, UInt8.toNat_ofNat']
  omega

theorem fold_sumPairs (data : Bytes) : fold (sumPairs data) = inetCksum data := rfl

theorem big16_cksum (data : Bytes) : big16 (inetCksum data) = cksumBytes data := rfl

/-- The words of the pseudo header. -/
def pseudo (ip dst : Ip4) (proto : UInt8) (length : Nat) : Bytes :=
  ip.toList ++ dst.toList ++ [0, proto] ++ big16 length

theorem pseudo_length (ip dst : Ip4) (proto : UInt8) (length : Nat) :
    (pseudo ip dst proto length).length = 12 := by
  simp [pseudo]

theorem sum16_pseudo (ip dst : Ip4) (proto : UInt8) (data : Bytes) (length : Nat) (small : length < 65536) :
    sum16 data (pseudoSum ip dst proto length) = sumPairs (pseudo ip dst proto length ++ data) := by
  rw [sumPairs_append _ _ (by rw [pseudo_length]), pseudo, sumPairs_append _ _ (by simp),
    sumPairs_append _ _ (by simp), sumPairs_append _ _ (by simp), sumPairs_big16 small]
  simp only [sum16, pseudoSum, sumPairs, UInt8.toNat_zero]
  omega

/-- What the receiver of a segment checks. -/
def ChecksumValid (proto : UInt8) (ip dst : Ip4) (transport : Bytes) : Prop :=
  if proto = 1 then Verifies transport else Verifies (pseudo ip dst proto transport.length ++ transport)

theorem segment_verifies (ip dst : Ip4) (proto : UInt8) {before after : Bytes} {n : Nat}
    (even : before.length % 2 = 0)
    (length : (before ++ [0, 0] ++ after).length = n) (short : n ≤ 60000) :
    Verifies (pseudo ip dst proto n ++
      (before ++ big16 (fold (sum16 (before ++ [0, 0] ++ after) (pseudoSum ip dst proto n))) ++ after)) := by
  have head := pseudo_length ip dst proto n
  rw [sum16_pseudo _ _ _ _ _ (by omega), fold_sumPairs, big16_cksum]
  have words : (pseudo ip dst proto n ++ before).length % 2 = 0 := by
    rw [List.length_append, head]
    omega
  have bounded : (pseudo ip dst proto n ++ before ++ [0, 0] ++ after).length ≤ 65536 := by
    rw [List.append_assoc, List.append_assoc, List.length_append, ← List.append_assoc, length, head]
    omega
  simpa only [List.append_assoc] using cksumBytes_verifies
    (pseudo ip dst proto n ++ before) after words bounded

theorem tcpBytes_length (ip : Ip4) (t : Segment) :
    (tcpBytes ip t).length = 20 + t.opt.length + t.data.length := by
  simp [tcpBytes]
  omega

theorem tcpBytes_valid (ip : Ip4) (t : Segment) (opt : t.opt.length ≤ 4) (data : t.data.length ≤ 1024) :
    ChecksumValid 6 ip t.rip (tcpBytes ip t) := by
  rw [ChecksumValid, if_neg (by decide), tcpBytes_length]
  rw [tcpBytes]
  have length : (big16 t.lport.toNat ++ big16 t.rport.toNat ++ big32 t.seq ++ big32 t.ack ++
      [UInt8.ofNat ((20 + t.opt.length) / 4) <<< 4, t.flags] ++ big16 t.wnd.toNat ++ [0, 0] ++
      ([0, 0] ++ t.opt ++ t.data)).length = 20 + t.opt.length + t.data.length := by
    simp
    omega
  simp only [length]
  exact segment_verifies ip t.rip 6 (by simp) length (by omega)

theorem udpBytes_length (ip server : Ip4) (port : UInt16) (query : Bytes) :
    (udpBytes ip server port query).length = 8 + query.length := by
  simp [udpBytes]
  omega

theorem verifies_ones {front before after : Bytes} (even : (front ++ before).length % 2 = 0)
    (zero : Verifies (front ++ (before ++ big16 0 ++ after))) :
    Verifies (front ++ (before ++ big16 0xFFFF ++ after)) := by
  have sum : ∀ x, x < 65536 → sumPairs (front ++ (before ++ big16 x ++ after)) =
      sumPairs (front ++ before) + x + sumPairs after := by
    intro x small
    rw [← List.append_assoc, ← List.append_assoc, sumPairs_append _ _ (by
      rw [List.length_append, big16_length]; omega), sumPairs_append _ _ even, sumPairs_big16 small]
  have ⟨some_, multiple⟩ := zero
  rw [sum 0 (by decide)] at some_ multiple
  constructor
  · rw [sum 0xFFFF (by decide)]
    omega
  · rw [sum 0xFFFF (by decide)]
    omega

theorem udpBytes_valid (ip server : Ip4) (port : UInt16) (query : Bytes) (fits : query.length ≤ 300) :
    ChecksumValid 17 ip server (udpBytes ip server port query) := by
  rw [ChecksumValid, if_neg (by decide), udpBytes_length]
  have length : (big16 port.toNat ++ big16 53 ++ big16 (8 + query.length) ++ [0, 0] ++ query).length =
      8 + query.length := by
    simp
    omega
  have verified := segment_verifies ip server 17 (by simp) length (by omega)
  simp only [udpBytes]
  split
  · exact verified
  · next zero =>
      rw [Classical.not_not.mp zero] at verified
      exact verifies_ones (by rw [List.length_append, pseudo_length]; simp) verified

theorem icmpBytes_length {p : Bytes} (least : 8 ≤ p.length) : (icmpBytes p).length = p.length := by
  simp [icmpBytes]
  omega

theorem icmpBytes_valid {p : Bytes} (ip src : Ip4) (fits : p.length ≤ 2014) :
    ChecksumValid 1 ip src (icmpBytes p) := by
  have sum : fold (sum16 (0 :: p.getD 1 0 :: 0 :: 0 :: p.drop 4) 0) =
      inetCksum ([0, p.getD 1 0] ++ [0, 0] ++ p.drop 4) := by
    rw [sum16, Nat.zero_add]
    rfl
  rw [ChecksumValid, if_pos rfl, icmpBytes, sum, big16_cksum]
  exact cksumBytes_verifies [0, p.getD 1 0] (p.drop 4) (by simp) (by simp; omega)

end Checksums

theorem bytes_valid (ip : Ip4) (x : Sender) : ChecksumValid x.proto ip x.dst (x.bytes ip) := by
  cases x with
  | segment t opt data => exact tcpBytes_valid ip t opt data
  | rst dst lport rport seq ack flags dataLen =>
      have target : (rstSegment dst lport rport seq ack flags dataLen).rip = dst := by
        simp only [rstSegment]
        split <;> rfl
      have empty : (rstSegment dst lport rport seq ack flags dataLen).opt = [] ∧
          (rstSegment dst lport rport seq ack flags dataLen).data = [] := by
        simp only [rstSegment]
        split <;> exact ⟨rfl, rfl⟩
      have valid := tcpBytes_valid ip (rstSegment dst lport rport seq ack flags dataLen) (by simp [empty.1])
        (by simp [empty.2])
      rw [target] at valid
      exact valid
  | dns server port query fits => exact udpBytes_valid ip server port query fits
  | icmp src request least fits => exact icmpBytes_valid ip src fits

theorem bytes_length (ip : Ip4) (x : Sender) : 8 ≤ (x.bytes ip).length := by
  cases x with
  | segment t opt data =>
      rw [Sender.bytes, tcpBytes_length]
      omega
  | rst dst lport rport seq ack flags dataLen =>
      rw [Sender.bytes, tcpBytes_length]
      omega
  | dns server port query fits =>
      rw [Sender.bytes, udpBytes_length]
      omega
  | icmp src request least fits =>
      rw [Sender.bytes, icmpBytes_length least]
      exact least

section Buffer

variable {m : Memory} {header bytes : Bytes}

theorem put_whole (m : Memory) (address : Nat) (bytes : Bytes) :
    bytesAt (put m address bytes) address bytes.length = bytes := by
  apply List.ext_getElem
  · simp
  · intro i short _
    have inside : i < bytes.length := by simpa using short
    simp only [bytesAt, List.getElem_map, List.getElem_range]
    rw [put_inside (by omega) (by omega)]
    simp [List.getD_eq_getElem?_getD, inside]

theorem frame_payload (length : header.length = 34) (n : Nat) :
    (bytesAt (put m 0 header) 0 (34 + n)).drop 34 = bytesAt m 34 n := by
  apply List.ext_getElem
  · simp
  · intro i short _
    have inside : i < n := by simpa using short
    simp only [bytesAt, List.getElem_drop, List.getElem_map, List.getElem_range]
    rw [put_outside (by omega), Nat.zero_add]

theorem arp_payload (length : header.length = 42) (least : 8 ≤ bytes.length) :
    bytesAt (put (put m 34 bytes) 0 header) 34 bytes.length = header.drop 34 ++ bytes.drop 8 := by
  apply List.ext_getElem
  · simp
    omega
  · intro i short _
    have inside : i < bytes.length := by simpa using short
    simp only [bytesAt, List.getElem_map, List.getElem_range]
    by_cases front : i < 8
    · rw [put_inside (by omega) (by omega), List.getElem_append_left (by simp; omega)]
      simp [List.getD_eq_getElem?_getD, show 34 + i < header.length by omega]
    · rw [put_outside (by omega), put_inside (by omega) (by omega),
        List.getElem_append_right (by simp; omega)]
      simp [List.getD_eq_getElem?_getD, length, inside, show 8 + (i - 8) = i by omega]

end Buffer

/-- The type field of an Ethernet frame says IPv4. -/
def IsIpv4 (frame : Bytes) : Prop := frame.getD 12 0 = 0x08 ∧ frame.getD 13 0 = 0

/-- Every IPv4 frame of a call carries the bytes of the caller, and they verify. -/
def Intact (s : Stack) (look : Look) (x : Sender) : Prop :=
  ∀ frame ∈ (transmit s look x).2.1, IsIpv4 frame →
    frame.drop 34 = x.bytes s.ip ∧ ChecksumValid x.proto s.ip x.dst (frame.drop 34)

/-- The call asks for the MAC of the next hop, and falls back to the gateway. -/
def AskedAndFellBack (s : Stack) (look : Look) (hop : Ip4) : Prop :=
  arpLookup s hop = none ∧ ¬(s.arpAsked = hop ∧ look.askedAt - s.arpAskedAt < arpResendMs) ∧
    s.driver = false ∧ hop ≠ s.gw ∧ s.unanswered = hop ∧ look.now - s.unansweredSince ≥ fallbackMs ∧
    (arpLookup s s.gw).isSome = true

/-- The bytes differ from what the request leaves in their place. -/
def Overwritten (s : Stack) (look : Look) (x : Sender) : Prop :=
  AskedAndFellBack s look (nextHop s x.dst) ∧
    (x.bytes s.ip).take 8 ≠ [0, 0, 0, 0] ++ (nextHop s x.dst).toList

section Arp

theorem arpFrame_length (s : Stack) (op : Nat) (tip : Ip4) (tmac : Mac) :
    (arpFrame s op tip tmac).length = 42 := by
  simp only [arpFrame]
  split <;> simp

theorem arpFrame_tail (s : Stack) (tip : Ip4) (tmac : Mac) :
    (arpFrame s 1 tip tmac).drop 34 = [0, 0, 0, 0] ++ tip.toList := by
  have front : (List.replicate 6 0xFF ++ s.mac.toList ++ [0x08, 0x06] ++ [0, 1, 0x08, 0, 6, 4] ++ big16 1 ++
      s.mac.toList ++ s.ip.toList : Bytes).length = 32 := by
    simp
  simp only [arpFrame, if_true]
  rw [List.append_assoc, List.drop_append, List.drop_of_length_le (by omega), front]
  rfl

theorem arpFrame_type (s : Stack) (op : Nat) (tip : Ip4) (tmac : Mac) : ¬IsIpv4 (arpFrame s op tip tmac) := by
  intro type
  have thirteen : (arpFrame s op tip tmac).getD 13 0 = 0x06 := by
    simp only [arpFrame]
    split <;> simp [List.getD_eq_getElem?_getD]
  have zero := type.2
  rw [thirteen] at zero
  exact absurd zero (by decide)

theorem arpSend_frame (s : Stack) (op : Nat) (tip : Ip4) (tmac : Mac) :
    (arpSend s op tip tmac).2 = [arpFrame s op tip tmac] := by
  have whole := put_whole s.txFrame 0 (arpFrame s op tip tmac)
  rw [arpFrame_length] at whole
  simp only [arpSend, sendFrame, whole]

variable {s : Stack} {look : Look} {hop : Ip4}

theorem arpRemember_keeps (s : Stack) (ip : Ip4) (mac : Mac) (pick : Fin 8) :
    ∃ arp, arpRemember s ip mac pick = { s with arp := arp } := by
  simp only [arpRemember]
  split
  · exact ⟨s.arp, rfl⟩
  · exact ⟨_, rfl⟩

theorem arpAsk_frames (s : Stack) (look : Look) (hop : Ip4) :
    ∀ frame ∈ (arpAsk s look hop).2, ¬IsIpv4 frame := by
  have request : ∀ s' : Stack, ∀ frame ∈ (arpSend s' 1 hop (Vector.replicate 6 0)).2, ¬IsIpv4 frame := by
    intro s' frame member
    rw [arpSend_frame, List.mem_singleton] at member
    exact member ▸ arpFrame_type _ _ _ _
  simp only [arpAsk]
  split
  · simp
  · split
    · split
      · simp
      · exact request _
    · exact request _

theorem arpAsk_keeps (s : Stack) (look : Look) (hop : Ip4) :
    (arpAsk s look hop).1.driver = s.driver ∧ (arpAsk s look hop).1.gw = s.gw := by
  simp only [arpAsk]
  split
  · exact ⟨rfl, rfl⟩
  · split
    · split
      · obtain ⟨arp, same⟩ :=
          arpRemember_keeps { s with arpAsked := hop, arpAskedAt := look.askedAt } s.gw _ look.slot
        rw [same]
        exact ⟨rfl, rfl⟩
      · exact ⟨rfl, rfl⟩
    · exact ⟨rfl, rfl⟩

theorem arpAsk_request (old : ¬(s.arpAsked = hop ∧ look.askedAt - s.arpAskedAt < arpResendMs))
    (host : hop ≠ s.gw) :
    arpAsk s look hop = arpSend { s with arpAsked := hop, arpAskedAt := look.askedAt } 1 hop
      (Vector.replicate 6 0) := by
  rw [arpAsk, if_neg old]
  simp [host]

theorem resolve_frames (s : Stack) (look : Look) (hop : Ip4) :
    ∀ frame ∈ (resolve s look hop).2.1, ¬IsIpv4 frame := by
  simp only [resolve]
  split
  · simp
  · exact arpAsk_frames s look hop

theorem noteUnanswered_txFrame (s : Stack) (look : Look) (hop : Ip4) :
    (noteUnanswered s look hop).txFrame = s.txFrame := by
  rw [noteUnanswered]
  split <;> rfl

theorem fallback_some {s : Stack} {mac : Mac}
    (found : fallback (noteUnanswered s look hop) look hop = some mac) :
    s.driver = false ∧ hop ≠ s.gw ∧ s.unanswered = hop ∧ look.now - s.unansweredSince ≥ fallbackMs ∧
      arpLookup s s.gw = some mac := by
  by_cases waited : s.unanswered = hop
  · simp only [noteUnanswered, waited, ne_eq, not_true, if_false, fallback] at found
    split at found
    · cases found
    · next fell =>
        simp only [Bool.or_eq_true, beq_iff_eq, decide_eq_true_eq, not_or, Bool.not_eq_true] at fell
        exact ⟨fell.1.1, fell.1.2, waited, UInt64.not_lt.mp fell.2, found⟩
  · -- the wait has only begun
    simp only [noteUnanswered, waited, ne_eq, not_false_eq_true, if_true, fallback, UInt64.sub_self] at found
    simp [fallbackMs] at found

theorem resolve_clean {mac : Mac} (found : (resolve s look hop).2.2 = some mac)
    (not : ¬AskedAndFellBack s look hop) : (resolve s look hop).1.txFrame = s.txFrame := by
  cases unknown : arpLookup s hop with
  | some mac' => simp only [resolve, unknown]
  | none =>
      simp only [resolve, unknown, noteUnanswered_txFrame] at found ⊢
      by_cases recent : s.arpAsked = hop ∧ look.askedAt - s.arpAskedAt < arpResendMs
      · rw [arpAsk, if_pos recent]
      · exfalso
        have ⟨driver, gw⟩ := arpAsk_keeps s look hop
        have ⟨other, host, waited, long, known⟩ := fallback_some found
        rw [driver] at other
        rw [gw] at host
        rw [arpAsk_request recent host] at waited long known
        exact not ⟨unknown, recent, other, host, waited, long, Option.isSome_iff_exists.mpr ⟨mac, known⟩⟩

theorem resolve_asked (fell : AskedAndFellBack s look hop) :
    ∃ mac header, (resolve s look hop).2.2 = some mac ∧ header.length = 42 ∧
      header.drop 34 = [0, 0, 0, 0] ++ hop.toList ∧
        (resolve s look hop).1.txFrame = put s.txFrame 0 header := by
  obtain ⟨unknown, old, other, host, waited, long, gateway⟩ := fell
  obtain ⟨mac, known⟩ := Option.isSome_iff_exists.mp gateway
  have patient : ¬(look.now - s.unansweredSince < fallbackMs) := UInt64.not_lt.mpr long
  refine ⟨mac, arpFrame { s with
    arpAsked := hop, arpAskedAt := look.askedAt } 1 hop (Vector.replicate 6 0), ?_,
    arpFrame_length _ _ _ _, arpFrame_tail _ _ _, ?_⟩
  · simp only [resolve, unknown, arpAsk_request old host, arpSend, noteUnanswered, waited, ne_eq,
      not_true, if_false]
    simp only [fallback, other, Bool.false_or, patient, decide_false, Bool.or_false, beq_iff_eq,
      host, if_false]
    exact known
  · simp only [resolve, unknown, arpAsk_request old host, noteUnanswered_txFrame]
    rfl

end Arp

theorem ipHeader_length (s : Stack) (dst : Ip4) (proto : UInt8) (total : Nat) :
    (ipHeader s dst proto total).length = 20 := by
  simp [ipHeader]

theorem sendIp_frames (s : Stack) (look : Look) (dst : Ip4) (proto : UInt8) (n : Nat) :
    (∃ frame, (resolve s look (nextHop s dst)).2.2.isSome = true ∧ IsIpv4 frame ∧
      frame.drop 34 = bytesAt (resolve s look (nextHop s dst)).1.txFrame 34 n ∧
      (sendIp s look dst proto n).2.1 = (resolve s look (nextHop s dst)).2.1 ++ [frame]) ∨
    ((resolve s look (nextHop s dst)).2.2 = none ∧
      (sendIp s look dst proto n).2.1 = (resolve s look (nextHop s dst)).2.1) := by
  simp only [sendIp]
  rcases resolved : resolve s look (nextHop s dst) with ⟨s', frames, _ | mac⟩
  · right
    exact ⟨rfl, rfl⟩
  · left
    have length : (mac.toList ++ s'.mac.toList ++ [0x08, 0] ++ ipHeader s' dst proto (20 + n)).length =
        34 := by
      simp [ipHeader_length]
    refine ⟨_, rfl, ?_, ?_, rfl⟩
    · constructor
      · simp only [sendFrame]
        rw [bytesAt_getD _ _ (by omega), put_inside (by omega) (by rw [length]; omega)]
        simp [List.getD_eq_getElem?_getD, List.getElem?_append]
      · simp only [sendFrame]
        rw [bytesAt_getD _ _ (by omega), put_inside (by omega) (by rw [length]; omega)]
        simp [List.getD_eq_getElem?_getD, List.getElem?_append]
    · have size : 14 + (20 + n) = 34 + n := by omega
      simp only [sendFrame, size]
      exact frame_payload length n

theorem transmit_frames (s : Stack) (look : Look) (x : Sender) :
    (∃ frame, (resolve (filled s (x.bytes s.ip)) look (nextHop s x.dst)).2.2.isSome = true ∧ IsIpv4 frame ∧
      frame.drop 34 = bytesAt (resolve (filled s (x.bytes s.ip)) look (nextHop s x.dst)).1.txFrame 34
        (x.bytes s.ip).length ∧
      (transmit s look x).2.1 = (resolve (filled s (x.bytes s.ip)) look (nextHop s x.dst)).2.1 ++ [frame]) ∨
    ((resolve (filled s (x.bytes s.ip)) look (nextHop s x.dst)).2.2 = none ∧
      (transmit s look x).2.1 = (resolve (filled s (x.bytes s.ip)) look (nextHop s x.dst)).2.1) :=
  sendIp_frames (filled s (x.bytes s.ip)) look x.dst x.proto (x.bytes s.ip).length

theorem overwritten_payload {s : Stack} {look : Look} {hop : Ip4} {bytes : Bytes} (least : 8 ≤ bytes.length)
    (fell : AskedAndFellBack s look hop) : (resolve (filled s bytes) look hop).2.2.isSome = true ∧
      bytesAt (resolve (filled s bytes) look hop).1.txFrame 34 bytes.length =
        [0, 0, 0, 0] ++ hop.toList ++ bytes.drop 8 := by
  have fell' : AskedAndFellBack (filled s bytes) look hop := fell
  obtain ⟨mac, header, found, length, tail, buffer⟩ := resolve_asked fell'
  constructor
  · rw [found]
    rfl
  · rw [buffer, filled, arp_payload length least, tail]

/-- Every IPv4 frame carries the caller's bytes, unless the request for the next hop was
made over them. -/
theorem intact_iff (s : Stack) (look : Look) (x : Sender) : Intact s look x ↔ ¬Overwritten s look x := by
  have quiet := resolve_frames (filled s (x.bytes s.ip)) look (nextHop s x.dst)
  have least := bytes_length s.ip x
  constructor
  · rintro intact ⟨fell, differ⟩
    have ⟨found, left_⟩ := overwritten_payload least fell
    rcases transmit_frames s look x with ⟨frame, _, type, payload, sent⟩ | ⟨none_, _⟩
    · have ⟨carried, _⟩ := intact frame (sent ▸ List.mem_append_right _ (List.mem_singleton.mpr rfl)) type
      have front : (x.bytes s.ip).take 8 = [0, 0, 0, 0] ++ (nextHop s x.dst).toList := by
        rw [← carried, payload, left_, List.take_append_of_le_length (by simp),
          List.take_of_length_le (by simp)]
      exact differ front
    · rw [none_] at found
      cases found
  · intro fine frame member type
    rcases transmit_frames s look x with ⟨frame', some_, _, payload, sent⟩ | ⟨_, sent⟩
    · rw [sent] at member
      rcases List.mem_append.mp member with request | last
      · exact absurd type (quiet frame request)
      · cases List.mem_singleton.mp last
        have carried : frame.drop 34 = x.bytes s.ip := by
          rw [payload]
          by_cases fell : AskedAndFellBack s look (nextHop s x.dst)
          · -- the request left the same bytes
            have same : (x.bytes s.ip).take 8 = [0, 0, 0, 0] ++ (nextHop s x.dst).toList :=
              Classical.not_not.mp fun differ => fine ⟨fell, differ⟩
            rw [(overwritten_payload least fell).2, ← same, List.take_append_drop]
          · obtain ⟨mac, found⟩ := Option.isSome_iff_exists.mp some_
            rw [resolve_clean found fell, filled, put_whole]
        exact ⟨carried, carried ▸ bytes_valid s.ip x⟩
    · rw [sent] at member
      exact absurd type (quiet frame member)

section Example

/-- Another process is the driver; the host 10.3.4.9 has been waited for since 1000, and
the gateway's MAC is known. -/
def waitingStack : Stack where
  driver := false
  mac := #v[0x52, 0x54, 0, 0x12, 0x34, 0x56]
  ip := #v[10, 3, 4, 2]
  mask := #v[255, 255, 255, 0]
  gw := #v[10, 3, 4, 1]
  ipId := 7
  txFrame := fun _ => 0
  arp := (Vector.replicate 8
    { ip := Vector.replicate 4 0, mac := Vector.replicate 6 0, valid := false }).set 0
    { ip := #v[10, 3, 4, 1], mac := #v[0x52, 0x54, 0, 0x12, 0x34, 0x57], valid := true }
  arpAskedAt := 2300
  arpAsked := #v[10, 3, 4, 9]
  unanswered := #v[10, 3, 4, 9]
  unansweredSince := 1000
  asked := 6

/-- The SYN that is tried again 250 ms after the last request. -/
def waitingSyn : Sender :=
  .segment { rip := #v[10, 3, 4, 9], lport := 47000, rport := 80, flags := 0x02, seq := 1000, ack := 0, wnd := 23360,
             opt := [2, 4, 5, 180] } (by decide) (by decide)

theorem a_slot : 0 < 8 := by decide

def waitingLook : Look := { askedAt := 2550, now := 2550, config := none, slot := ⟨0, a_slot⟩ }

/-- The frame to the gateway has ports 0 and the next hop for its sequence number. -/
theorem syn_overwritten : ¬Intact waitingStack waitingLook waitingSyn := by
  intro intact
  have sent : (transmit waitingStack waitingLook waitingSyn).2.1.getD 1 [] ∈
      (transmit waitingStack waitingLook waitingSyn).2.1 := by
    decide
  have carried := (intact _ sent ⟨by decide, by decide⟩).1
  exact absurd carried (by decide)

end Example

end R2Apps.StackTransmit
