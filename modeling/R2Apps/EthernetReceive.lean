import R2Apps.BufferPrefixes
import Mathlib.Data.Fintype.Card

/-! The Ethernet side of `c/libcr2/net.c`: one frame is taken from the receive
buffer; ARP and echo requests are answered here, other IPv4 packets are handed
to the caller. The buffer keeps old bytes beyond the frame, and the replies are
put together in stack memory. -/
namespace R2Apps.EthernetReceive
open R2Apps.ByteMemory R2Apps.BufferPrefixes

abbrev ethHdrLen : Nat := 14
abbrev arpPktLen : Nat := 28
abbrev etypeIpv4 : Nat := 0x0800
abbrev etypeArp : Nat := 0x0806
abbrev arpCacheSize : Nat := 8

/-- A big-endian field of two bytes. -/
def field16 (m : Memory) (address : Nat) : Nat := (m address).toNat * 256 + (m (address + 1)).toNat

section Checksum

def sumPairs : List UInt8 → Nat
  | [] => 0
  | [last] => last.toNat * 256
  | first :: second :: rest => first.toNat * 256 + second.toNat + sumPairs rest

/-- `while (sum >> 16)`: a sum of 32 bits takes at most two rounds. -/
def foldCarry : Nat → Nat → Nat
  | 0, sum => sum
  | rounds + 1, sum => if sum / 65536 = 0 then sum else foldCarry rounds (sum % 65536 + sum / 65536)

def inetCksum (data : List UInt8) : Nat := 65535 - foldCarry 3 (sumPairs data % 2 ^ 32) % 65536

def cksumBytes (data : List UInt8) : List UInt8 :=
  [UInt8.ofNat (inetCksum data / 256), UInt8.ofNat (inetCksum data % 256)]

end Checksum

structure EthArpEntry where
  ip : List UInt8
  mac : List UInt8
  valid : Bool
deriving DecidableEq

abbrev ArpCache := Fin arpCacheSize → EthArpEntry

/-- The first entry that is free or has this address, else the first of all. -/
def arpSlot (cache : ArpCache) (ip : List UInt8) : Fin arpCacheSize :=
  ((List.finRange arpCacheSize).find? fun i => !(cache i).valid || (cache i).ip = ip).getD 0

def ethArpCacheUpdate (cache : ArpCache) (ip mac : List UInt8) : ArpCache :=
  fun i => if i = arpSlot cache ip then { ip, mac, valid := true } else cache i

structure EthState where
  arpCache : ArpCache
  myMac : Vector UInt8 6
  myIp : Vector UInt8 4

/-- `sysinfo` is the address that `read_sysinfo` has, all zero when there is none. -/
def ethSyncIp (sysinfo : Vector UInt8 4) (s : EthState) (seen : List UInt8) : EthState :=
  if seen = s.myIp.toList ∨ (seen.getD 0 0).toNat ≥ 224 then s
  else if sysinfo.toList.any (· ≠ 0) then { s with myIp := sysinfo } else s

/-- What a call returns, the state it leaves, and the frames it has sent. -/
structure Received where
  packet : List UInt8
  state : EthState
  sent : List (List UInt8)

/-- The Ethernet header of a reply: its destination is the sender of `buffer`. -/
def replyHeader (s : EthState) (buffer reply : Memory) (etype : List UInt8) : Memory :=
  put (put (put reply 0 (bytesAt buffer 6 6)) 6 s.myMac.toList) 12 etype

def ethSendArpReply (s : EthState) (buffer stack : Memory) : List UInt8 :=
  let frame := replyHeader s buffer stack [0x08, 0x06]
  let frame := put frame 14 [0, 1, 0x08, 0x00, 6, 4, 0, 2]
  let frame := put frame 22 s.myMac.toList
  let frame := put frame 28 s.myIp.toList
  let frame := put frame 32 (bytesAt buffer 22 6)
  let frame := put frame 38 (bytesAt buffer 28 4)
  bytesAt frame 0 (ethHdrLen + arpPktLen)

def receiveArp (sysinfo : Vector UInt8 4) (s : EthState) (buffer stack : Memory) : Received :=
  let s := ethSyncIp sysinfo s (bytesAt buffer 38 4)
  if field16 buffer 20 = 1 ∧ bytesAt buffer 38 4 = s.myIp.toList then
    let s := { s with arpCache := ethArpCacheUpdate s.arpCache (bytesAt buffer 28 4) (bytesAt buffer 6 6) }
    { packet := [], state := s, sent := [ethSendArpReply s buffer stack] }
  else if field16 buffer 20 = 2 ∧ bytesAt buffer 32 6 = s.myMac.toList then
    let s := { s with arpCache := ethArpCacheUpdate s.arpCache (bytesAt buffer 28 4) (bytesAt buffer 6 6) }
    { packet := [], state := s, sent := [] }
  else { packet := [], state := s, sent := [] }

/-- The addresses of the IPv4 header are exchanged where a header of 20 bytes has them. -/
def exchangeAddresses (reply : Memory) : Memory :=
  let tmp := bytesAt reply 26 4
  let reply := put reply 26 (bytesAt reply 30 4)
  put reply 30 tmp

def echoReply (s : EthState) (buffer stack : Memory) (hdrLen ipTotal : Nat) : List UInt8 :=
  let reply := replyHeader s buffer stack [0x08, 0x00]
  let reply := put reply ethHdrLen (bytesAt buffer ethHdrLen hdrLen)
  let reply := exchangeAddresses reply
  let reply := put reply 24 [0, 0]
  let reply := put reply 24 (cksumBytes (bytesAt reply ethHdrLen hdrLen))
  let icmp := ethHdrLen + hdrLen
  let reply := put reply icmp (bytesAt buffer icmp (ipTotal - hdrLen))
  let reply := put reply icmp [0]
  let reply := put reply (icmp + 2) [0, 0]
  let reply := put reply (icmp + 2) (cksumBytes (bytesAt reply icmp (ipTotal - hdrLen)))
  bytesAt reply 0 (ethHdrLen + ipTotal)

def receiveIpv4 (sysinfo : Vector UInt8 4) (maxlen : Nat) (s : EthState) (n : Nat) (buffer stack : Memory) :
    Received :=
  let ipLen := n - ethHdrLen
  let hdrLen := (buffer 14).toNat % 16 * 4
  if hdrLen = 0 then { packet := [], state := s, sent := [] }
  else
    let s := ethSyncIp sysinfo s (bytesAt buffer 30 4)
    let s := { s with arpCache := ethArpCacheUpdate s.arpCache (bytesAt buffer 26 4) (bytesAt buffer 6 6) }
    let ipTotal := field16 buffer 16
    if buffer 23 = 1 then
      if ipTotal > ipLen ∨ ipTotal < hdrLen then { packet := [], state := s, sent := [] }
      else
        let icmp := ethHdrLen + hdrLen
        if ipTotal - hdrLen < 8 ∨ buffer icmp ≠ 8 ∨ buffer (icmp + 1) ≠ 0 then
          { packet := [], state := s, sent := [] }
        else if ethHdrLen + ipTotal > 1514 then { packet := [], state := s, sent := [] }
        else { packet := [], state := s, sent := [echoReply s buffer stack hdrLen ipTotal] }
    else if ipTotal > ipLen ∨ ipTotal < hdrLen then { packet := [], state := s, sent := [] }
    else { packet := bytesAt buffer ethHdrLen (min ipTotal maxlen), state := s, sent := [] }

/-- The body of both receive functions: `n` bytes have come into the buffer. -/
def receiveFrame (sysinfo : Vector UInt8 4) (maxlen : Nat) (s : EthState) (n : Nat) (buffer stack : Memory) :
    Received :=
  if n < ethHdrLen then { packet := [], state := s, sent := [] }
  else if field16 buffer 12 = etypeArp then
    if n < ethHdrLen + arpPktLen then { packet := [], state := s, sent := [] }
    else receiveArp sysinfo s buffer stack
  else if field16 buffer 12 = etypeIpv4 then receiveIpv4 sysinfo maxlen s n buffer stack
  else { packet := [], state := s, sent := [] }

/-- The blocking and the non-blocking function, on the frame that `eth_next_frame` has put into the
buffer; it is empty when there is none. -/
def ethDrvRecv (sysinfo : Vector UInt8 4) (maxlen : Nat) (s : EthState) (frame : List UInt8)
    (stale stack : Memory) : Received :=
  receiveFrame sysinfo maxlen s frame.length (received frame stale) stack

def ethDrvRecvNb (sysinfo : Vector UInt8 4) (maxlen : Nat) (s : EthState) (frame : List UInt8)
    (stale stack : Memory) : Received :=
  receiveFrame sysinfo maxlen s frame.length (received frame stale) stack

/-- What a call shows to the outside: the packet, the ARP cache and the frames sent. -/
def visible (r : Received) : List UInt8 × ArpCache × List (List UInt8) :=
  (r.packet, r.state.arpCache, r.sent)

/-! The frame decides. -/
section Frames
variable {sysinfo : Vector UInt8 4} {maxlen : Nat} {s t : EthState} {n : Nat}
  {buffer buffer' stack stack' : Memory}

theorem field16_congr {count at_ : Nat} (same : PrefixEq count buffer buffer') (inside : at_ + 2 ≤ count) :
    field16 buffer at_ = field16 buffer' at_ := by
  rw [field16, field16, same at_ (by omega), same (at_ + 1) (by omega)]

theorem replyHeader_prefix (s : EthState) (stack stack' : Memory) (same : PrefixEq 12 buffer buffer')
    (etype : List UInt8) (two : etype.length = 2) :
    PrefixEq 14 (replyHeader s buffer stack etype) (replyHeader s buffer' stack' etype) := by
  have sender : bytesAt buffer 6 6 = bytesAt buffer' 6 6 := bytesAt_congr same (by decide)
  have none : PrefixEq 0 stack stack' := fun x low => absurd low (Nat.not_lt_zero x)
  unfold replyHeader
  rw [sender]
  have first : PrefixEq 6 _ _ := put_extends none (bytesAt buffer' 6 6) (by simp)
  have second : PrefixEq 12 _ _ := put_extends first s.myMac.toList (by simp)
  exact put_extends second etype (by rw [two])

theorem arpReply_same (s : EthState) (same : PrefixEq 42 buffer buffer') :
    ethSendArpReply s buffer stack = ethSendArpReply s buffer' stack' := by
  have target : bytesAt buffer 22 6 = bytesAt buffer' 22 6 := bytesAt_congr same (by decide)
  have address : bytesAt buffer 28 4 = bytesAt buffer' 28 4 := bytesAt_congr same (by decide)
  have header := replyHeader_prefix s stack stack' (prefix_shorter same (by decide)) [0x08, 0x06] rfl
  unfold ethSendArpReply
  dsimp only
  rw [target, address]
  have fixed : PrefixEq 22 _ _ := put_extends header [0, 1, 0x08, 0x00, 6, 4, 0, 2] rfl
  have hardware : PrefixEq 28 _ _ := put_extends fixed s.myMac.toList (by simp)
  have protocol : PrefixEq 32 _ _ := put_extends hardware s.myIp.toList (by simp)
  have sender : PrefixEq 38 _ _ := put_extends protocol (bytesAt buffer' 22 6) (by simp)
  have whole : PrefixEq 42 _ _ := put_extends sender (bytesAt buffer' 28 4) (by simp)
  exact bytesAt_congr whole (by decide)

theorem exchange_prefix {count : Nat} {m m' : Memory} (same : PrefixEq count m m')
    (harmless : 34 ≤ count ∨ count ≤ 26) : PrefixEq count (exchangeAddresses m) (exchangeAddresses m') := by
  unfold exchangeAddresses
  dsimp only
  rcases harmless with whole | short
  · have source : bytesAt m 26 4 = bytesAt m' 26 4 := bytesAt_congr same (by omega)
    have destination : bytesAt m 30 4 = bytesAt m' 30 4 := bytesAt_congr same (by omega)
    rw [source, destination]
    exact put_same (put_same same 26 _) 30 _
  · exact put_beyond (put_beyond same _ _ short) _ _ (by omega)

theorem echoReply_same (mac : s.myMac = t.myMac) (stack stack' : Memory) {hdrLen ipTotal : Nat}
    (same : PrefixEq (ethHdrLen + ipTotal) buffer buffer')
    (within : hdrLen + 8 ≤ ipTotal) (harmless : 20 ≤ hdrLen ∨ hdrLen ≤ 12) :
    echoReply s buffer stack hdrLen ipTotal = echoReply t buffer' stack' hdrLen ipTotal := by
  have headerBytes : bytesAt buffer ethHdrLen hdrLen = bytesAt buffer' ethHdrLen hdrLen :=
    bytesAt_congr same (by omega)
  have payload : bytesAt buffer (ethHdrLen + hdrLen) (ipTotal - hdrLen) =
      bytesAt buffer' (ethHdrLen + hdrLen) (ipTotal - hdrLen) := bytesAt_congr same (by omega)
  have ethernet := replyHeader_prefix t stack stack'
    (prefix_shorter same (by simp only [ethHdrLen]; omega)) [0x08, 0x00] rfl
  have sender : replyHeader s buffer stack [0x08, 0x00] = replyHeader t buffer stack [0x08, 0x00] := by
    rw [replyHeader, replyHeader, mac]
  unfold echoReply
  dsimp only
  rw [headerBytes, payload, sender]
  have header : PrefixEq (ethHdrLen + hdrLen) _ _ :=
    put_extends ethernet (bytesAt buffer' ethHdrLen hdrLen) (by simp)
  have exchanged := exchange_prefix header (by simp only [ethHdrLen]; omega)
  have cleared := put_same exchanged 24 [0, 0]
  rw [bytesAt_congr cleared (Nat.le_refl _)]
  have summed := put_same cleared 24 (cksumBytes (bytesAt (put (exchangeAddresses (put
    (replyHeader t buffer' stack' [8, 0]) ethHdrLen (bytesAt buffer' ethHdrLen hdrLen))) 24 [0, 0])
      ethHdrLen hdrLen))
  have filled : PrefixEq (ethHdrLen + ipTotal) _ _ := put_extends summed
    (bytesAt buffer' (ethHdrLen + hdrLen) (ipTotal - hdrLen)) (by rw [bytesAt_length]; omega)
  have typed := put_same filled (ethHdrLen + hdrLen) [0]
  have blank := put_same typed (ethHdrLen + hdrLen + 2) [0, 0]
  rw [bytesAt_congr blank (show ethHdrLen + hdrLen + (ipTotal - hdrLen) ≤ ethHdrLen + ipTotal by omega)]
  exact bytesAt_congr (put_same blank (ethHdrLen + hdrLen + 2) _) (by omega)

theorem syncIp_frame (sysinfo : Vector UInt8 4) (s : EthState) (seen : List UInt8) :
    (ethSyncIp sysinfo s seen).arpCache = s.arpCache ∧ (ethSyncIp sysinfo s seen).myMac = s.myMac := by
  unfold ethSyncIp
  split
  · exact ⟨rfl, rfl⟩
  · split <;> exact ⟨rfl, rfl⟩

theorem arp_same (same : PrefixEq 42 buffer buffer') :
    receiveArp sysinfo s buffer stack = receiveArp sysinfo s buffer' stack' := by
  have opcode : field16 buffer 20 = field16 buffer' 20 := field16_congr same (by decide)
  have target : bytesAt buffer 38 4 = bytesAt buffer' 38 4 := bytesAt_congr same (by decide)
  have hardware : bytesAt buffer 32 6 = bytesAt buffer' 32 6 := bytesAt_congr same (by decide)
  have sender : bytesAt buffer 28 4 = bytesAt buffer' 28 4 := bytesAt_congr same (by decide)
  have mac : bytesAt buffer 6 6 = bytesAt buffer' 6 6 := bytesAt_congr same (by decide)
  simp only [receiveArp, opcode, target, hardware, sender, mac]
  rw [arpReply_same _ same]

/-- The echo request that is answered with a header of 16 bytes, which has no room for the second
address. -/
def ShortEcho (n : Nat) (m : Memory) : Prop :=
  (m 14).toNat % 16 = 4 ∧ m 23 = 1 ∧ 24 ≤ field16 m 16 ∧ field16 m 16 ≤ n - ethHdrLen ∧
    m 30 = 8 ∧ m 31 = 0 ∧ ethHdrLen + field16 m 16 ≤ 1514

theorem ipv4_same (same : PrefixEq n buffer buffer') (long : 30 ≤ n) (fine : ¬ShortEcho n buffer') :
    visible (receiveIpv4 sysinfo maxlen s n buffer stack) =
      visible (receiveIpv4 sysinfo maxlen s n buffer' stack') := by
  have version : buffer 14 = buffer' 14 := same 14 (by omega)
  have total : field16 buffer 16 = field16 buffer' 16 := field16_congr same (by omega)
  have protocol : buffer 23 = buffer' 23 := same 23 (by omega)
  have source : bytesAt buffer 26 4 = bytesAt buffer' 26 4 := bytesAt_congr same long
  have mac : bytesAt buffer 6 6 = bytesAt buffer' 6 6 := bytesAt_congr same (by omega)
  simp only [receiveIpv4, version, total, protocol, source, mac]
  obtain ⟨cache, hardware⟩ := syncIp_frame sysinfo s (bytesAt buffer 30 4)
  obtain ⟨cache', hardware'⟩ := syncIp_frame sysinfo s (bytesAt buffer' 30 4)
  obtain ⟨t, is⟩ : ∃ t, ethSyncIp sysinfo s (bytesAt buffer 30 4) = t := ⟨_, rfl⟩
  obtain ⟨t', is'⟩ : ∃ t', ethSyncIp sysinfo s (bytesAt buffer' 30 4) = t' := ⟨_, rfl⟩
  rw [is] at cache hardware ⊢
  rw [is'] at cache' hardware' ⊢
  obtain ⟨hdrLen, header⟩ : ∃ hdrLen, (buffer' 14).toNat % 16 * 4 = hdrLen := ⟨_, rfl⟩
  obtain ⟨ipTotal, length⟩ : ∃ ipTotal, field16 buffer' 16 = ipTotal := ⟨_, rfl⟩
  rw [header, length, cache, cache']
  by_cases none : hdrLen = 0
  · simp only [none, if_true]
  · simp only [none, if_false]
    by_cases outside : ipTotal > n - ethHdrLen ∨ ipTotal < hdrLen
    · simp only [outside, if_true]
      split <;> rfl
    · simp only [outside, if_false]
      by_cases icmp : buffer' 23 = 1
      · simp only [icmp, if_true]
        by_cases short : ipTotal - hdrLen < 8
        · simp only [short, true_or, if_true]
          rfl
        · have first : buffer (ethHdrLen + hdrLen) = buffer' (ethHdrLen + hdrLen) := same _ (by omega)
          have second : buffer (ethHdrLen + hdrLen + 1) = buffer' (ethHdrLen + hdrLen + 1) :=
            same _ (by omega)
          rw [first, second]
          by_cases other : buffer' (ethHdrLen + hdrLen) ≠ 8 ∨ buffer' (ethHdrLen + hdrLen + 1) ≠ 0
          · simp only [other, or_true, if_true]
            rfl
          · simp only [short, other, or_self, if_false]
            by_cases large : ethHdrLen + ipTotal > 1514
            · simp only [large, if_true]
              rfl
            · simp only [large, if_false]
              have harmless : 20 ≤ hdrLen ∨ hdrLen ≤ 12 := by
                by_contra between
                -- the header length is a multiple of four
                have sixteen : (buffer' 14).toNat % 16 = 4 := by omega
                rw [sixteen] at header
                subst header
                obtain ⟨request, code⟩ := not_or.mp other
                exact fine ⟨sixteen, icmp, by omega, by omega, not_not.mp request, not_not.mp code,
                  by omega⟩
              have whole : PrefixEq (ethHdrLen + ipTotal) buffer buffer' :=
                prefix_shorter same (by omega)
              obtain ⟨cache, updated⟩ : ∃ cache,
                  ethArpCacheUpdate s.arpCache (bytesAt buffer' 26 4) (bytesAt buffer' 6 6) = cache :=
                    ⟨_, rfl⟩
              rw [updated]
              have reply : echoReply { t with arpCache := cache } buffer stack hdrLen ipTotal =
                  echoReply { t' with arpCache := cache } buffer' stack' hdrLen ipTotal :=
                echoReply_same (hardware.trans hardware'.symm) stack stack' whole (by omega) harmless
              rw [reply]
              rfl
      · simp only [icmp, if_false]
        have packet : bytesAt buffer ethHdrLen (min ipTotal maxlen) =
            bytesAt buffer' ethHdrLen (min ipTotal maxlen) := bytesAt_congr same (by omega)
        rw [packet]
        rfl

/-- Whether what a frame causes is decided by the frame: it is too short to be looked at, or not
IPv4, or says that its header is empty; or it has the fields up to the source address and does not ask
for an echo with a header of 16 bytes. -/
def Contained (frame : List UInt8) : Prop :=
  let m := received frame fun _ => 0
  frame.length < ethHdrLen ∨ field16 m 12 ≠ etypeIpv4 ∨ (15 ≤ frame.length ∧ (m 14).toNat % 16 = 0) ∨
    (30 ≤ frame.length ∧ ¬ShortEcho frame.length m)

theorem contained_same (frame : List UInt8) (contained : Contained frame) (stale stack : Memory) :
    visible (ethDrvRecv sysinfo maxlen s frame stale stack) =
      visible (ethDrvRecv sysinfo maxlen s frame (fun _ => 0) (fun _ => 0)) := by
  have same := received_same frame stale fun _ => 0
  unfold ethDrvRecv receiveFrame
  by_cases short : frame.length < ethHdrLen
  · simp only [short, if_true]
  · have etype : field16 (received frame stale) 12 = field16 (received frame fun _ => 0) 12 :=
      field16_congr same (by simp only [ethHdrLen] at short; omega)
    simp only [short, if_false, etype]
    by_cases arp : field16 (received frame fun _ => 0) 12 = etypeArp
    · simp only [arp, if_true]
      by_cases cut : frame.length < ethHdrLen + arpPktLen
      · simp only [cut, if_true]
      · simp only [cut, if_false]
        rw [arp_same (prefix_shorter same (Nat.not_lt.mp cut))]
    · simp only [arp, if_false]
      by_cases ipv4 : field16 (received frame fun _ => 0) 12 = etypeIpv4
      · simp only [ipv4, if_true]
        rcases contained with tiny | other | ⟨some_, empty⟩ | ⟨long, fine⟩
        · exact absurd tiny short
        · exact absurd ipv4 other
        · have version : received frame stale 14 = received frame (fun _ => 0) 14 := same 14 some_
          simp only [receiveIpv4, version, empty, Nat.zero_mul, if_true]
        · exact ipv4_same same long fine
      · simp only [ipv4, if_false]

/-! Where the frame does not decide. -/

theorem updated_entry (cache : ArpCache) (ip mac : List UInt8) :
    ∃ i, (ethArpCacheUpdate cache ip mac i).ip = ip :=
  ⟨arpSlot cache ip, by simp [ethArpCacheUpdate]⟩

theorem cache_tells_apart (cache : ArpCache) (ip : Fin 9 → List UInt8) (mac : List UInt8)
    (distinct : Function.Injective ip) :
    ∃ j k, ethArpCacheUpdate cache (ip j) mac ≠ ethArpCacheUpdate cache (ip k) mac := by
  by_contra alike
  simp only [not_exists, not_not] at alike
  have every : ∀ j, ∃ i, (ethArpCacheUpdate cache (ip 0) mac i).ip = ip j := by
    intro j
    rw [alike 0 j]
    exact updated_entry cache (ip j) mac
  choose place found using every
  have injective : Function.Injective place := by
    intro j k same
    apply distinct
    rw [← found j, ← found k, same]
  have size := Fintype.card_le_of_injective place injective
  simp only [Fintype.card_fin] at size
  exact absurd size (by decide)

/-- Old contents of the buffer: a header of 20 bytes from a sender that ends in `last`. -/
def oldHeader (last : UInt8) : Memory := fun x => if x = 14 then 0x45 else if x = 29 then last else 0

theorem ipv4_cache (s : EthState) (n : Nat) (buffer stack : Memory) (header : (buffer 14).toNat % 16 ≠ 0) :
    (receiveIpv4 sysinfo maxlen s n buffer stack).state.arpCache =
      ethArpCacheUpdate s.arpCache (bytesAt buffer 26 4) (bytesAt buffer 6 6) := by
  obtain ⟨cache, -⟩ := syncIp_frame sysinfo s (bytesAt buffer 30 4)
  have some_ : ¬(buffer 14).toNat % 16 * 4 = 0 := by omega
  simp only [receiveIpv4, some_, if_false, cache]
  split
  · split
    · rfl
    · split
      · rfl
      · split <;> rfl
  · split <;> rfl

theorem receiveFrame_ipv4 (stack : Memory) (long : ethHdrLen ≤ n) (ipv4 : field16 buffer 12 = etypeIpv4) :
    receiveFrame sysinfo maxlen s n buffer stack = receiveIpv4 sysinfo maxlen s n buffer stack := by
  have other : etypeIpv4 ≠ etypeArp := by decide
  simp only [receiveFrame, Nat.not_lt.mpr long, if_false, ipv4, other, if_true]

variable (sysinfo maxlen s stack)

theorem short_header_leaks (frame : List UInt8) (long : ethHdrLen ≤ frame.length) (short : frame.length < 30)
    (ipv4 : field16 (received frame fun _ => 0) 12 = etypeIpv4)
    (header : ¬(15 ≤ frame.length ∧ (received frame (fun _ => 0) 14).toNat % 16 = 0)) :
    ∃ stale stale', visible (ethDrvRecv sysinfo maxlen s frame stale stack) ≠
      visible (ethDrvRecv sysinfo maxlen s frame stale' stack) := by
  obtain ⟨buffer, is⟩ : ∃ buffer : Fin 9 → Memory,
      (fun j => received frame (oldHeader (UInt8.ofNat j.val))) = buffer := ⟨_, rfl⟩
  have cache : ∀ j, (ethDrvRecv sysinfo maxlen s frame (oldHeader (UInt8.ofNat j.val)) stack).state.arpCache =
      ethArpCacheUpdate s.arpCache (bytesAt (buffer j) 26 4) (bytesAt (buffer 0) 6 6) := by
    intro j
    have same := received_same frame (oldHeader (UInt8.ofNat j.val)) fun _ => 0
    have etype : field16 (received frame (oldHeader (UInt8.ofNat j.val))) 12 = etypeIpv4 :=
      (field16_congr same long).trans ipv4
    have version : (received frame (oldHeader (UInt8.ofNat j.val)) 14).toNat % 16 ≠ 0 := by
      by_cases last : frame.length = 14
      · rw [received_stale frame _ (Nat.le_of_eq last)]
        exact (by decide : (0x45 : UInt8).toNat % 16 ≠ 0)
      · have inside : 15 ≤ frame.length := by simp only [ethHdrLen] at long; omega
        rw [same 14 inside]
        exact fun empty => header ⟨inside, empty⟩
    have mac : bytesAt (received frame (oldHeader (UInt8.ofNat j.val))) 6 6 = bytesAt (buffer 0) 6 6 := by
      rw [← is]
      exact bytesAt_congr (received_same frame _ _) (Nat.le_trans (by decide) long)
    rw [ethDrvRecv, receiveFrame_ipv4 stack long etype, ipv4_cache s _ _ stack version, mac, ← is]
  have distinct : Function.Injective fun j => bytesAt (buffer j) 26 4 := by
    intro j k same
    have last : (bytesAt (buffer j) 26 4).getD 3 0 = (bytesAt (buffer k) 26 4).getD 3 0 :=
      congrArg (fun ip => List.getD ip 3 0) same
    rw [bytesAt_getD _ _ (by decide), bytesAt_getD _ _ (by decide), ← is] at last
    simp only [received_stale frame _ (show frame.length ≤ 26 + 3 by omega)] at last
    have numbers : ∀ j k : Fin 9, UInt8.ofNat j.val = UInt8.ofNat k.val → j = k := by decide
    exact numbers j k last
  obtain ⟨j, k, differ⟩ := cache_tells_apart s.arpCache _ (bytesAt (buffer 0) 6 6) distinct
  refine ⟨oldHeader (UInt8.ofNat j.val), oldHeader (UInt8.ofNat k.val), fun same => differ ?_⟩
  have caches := congrArg (fun seen => seen.2.1) same
  simp only [visible, cache] at caches
  exact caches

theorem echoReply_leaks (buffer : Memory) {ipTotal : Nat} (long : 24 ≤ ipTotal) :
    (echoReply s buffer stack 16 ipTotal).getD 26 0 = stack 30 := by
  unfold echoReply
  dsimp only
  rw [bytesAt_getD _ _ (by simp only [ethHdrLen]; omega)]
  simp only [exchangeAddresses]
  rw [put_outside (by left; decide), put_outside (by left; decide), put_outside (by left; decide),
    put_outside (by left; decide), put_outside (Or.inr (by decide : 24 + 2 ≤ 0 + 26)),
    put_outside (Or.inr (by decide : 24 + 2 ≤ 0 + 26)),
    put_outside (by left; decide), put_inside (by decide) (by rw [bytesAt_length]; decide),
    bytesAt_getD _ _ (by decide), put_outside (by right; rw [bytesAt_length])]
  unfold replyHeader
  rw [put_outside (by right; decide), put_outside (by right; simp), put_outside (by right; simp)]

theorem shortEcho_sent (m : Memory) (echo : ShortEcho n m) :
    (receiveIpv4 sysinfo maxlen s n m stack).sent =
      [echoReply { ethSyncIp sysinfo s (bytesAt m 30 4) with
                   arpCache := ethArpCacheUpdate (ethSyncIp sysinfo s (bytesAt m 30 4)).arpCache
                     (bytesAt m 26 4) (bytesAt m 6 6) } m stack 16 (field16 m 16)] := by
  obtain ⟨sixteen, icmp, many, inside, request, code, fits⟩ := echo
  have within : ¬(field16 m 16 > n - ethHdrLen ∨ field16 m 16 < 4 * 4) := by omega
  have asked : ¬(field16 m 16 - 4 * 4 < 8 ∨ m (ethHdrLen + 4 * 4) ≠ 8 ∨ m (ethHdrLen + 4 * 4 + 1) ≠ 0) := by
    rw [show ethHdrLen + 4 * 4 = 30 from rfl, show 30 + 1 = 31 from rfl, request, code]
    simp only [ne_eq, not_true_eq_false, or_false]
    omega
  have some_ : ¬4 * 4 = 0 := by decide
  simp only [receiveIpv4, sixteen]
  rw [if_neg some_, if_pos icmp, if_neg within, if_neg asked, if_neg (Nat.not_lt.mpr fits)]

theorem short_echo_leaks (frame : List UInt8) (long : 30 ≤ frame.length)
    (ipv4 : field16 (received frame fun _ => 0) 12 = etypeIpv4)
    (echo : ShortEcho frame.length (received frame fun _ => 0)) :
    ∃ stack stack', visible (ethDrvRecv sysinfo maxlen s frame (fun _ => 0) stack) ≠
      visible (ethDrvRecv sysinfo maxlen s frame (fun _ => 0) stack') := by
  have wide : ethHdrLen ≤ frame.length := Nat.le_trans (by decide) long
  refine ⟨fun _ => 0, fun _ => 1, fun same => ?_⟩
  have frames := congrArg (fun seen => (seen.2.2.headD []).getD 26 0) same
  simp only [visible, ethDrvRecv, receiveFrame_ipv4 _ wide ipv4, shortEcho_sent _ _ _ _ _ echo,
    List.headD_cons, echoReply_leaks _ _ _ echo.2.2.1] at frames
  exact absurd frames (by decide)

end Frames

/-- The outcome is a function of the frame exactly for the frames of `Contained`. -/
theorem receive_depends_on_frame_iff (sysinfo : Vector UInt8 4) (maxlen : Nat) (s : EthState)
    (frame : List UInt8) :
    ((∀ stale stale' stack stack', visible (ethDrvRecv sysinfo maxlen s frame stale stack) =
        visible (ethDrvRecv sysinfo maxlen s frame stale' stack')) ∧
      ∀ stale stale' stack stack', visible (ethDrvRecvNb sysinfo maxlen s frame stale stack) =
        visible (ethDrvRecvNb sysinfo maxlen s frame stale' stack')) ↔ Contained frame := by
  constructor
  · rintro ⟨decided, -⟩
    by_contra leaky
    simp only [Contained, not_or, not_and, not_not] at leaky
    obtain ⟨long, ipv4, header, echo⟩ := leaky
    by_cases short : frame.length < 30
    · obtain ⟨stale, stale', differ⟩ := short_header_leaks sysinfo maxlen s (fun _ => 0) frame
        (Nat.not_lt.mp long) short ipv4 (fun both => header both.1 both.2)
      exact differ (decided stale stale' _ _)
    · obtain ⟨stack, stack', differ⟩ := short_echo_leaks sysinfo maxlen s frame
        (Nat.not_lt.mp short) ipv4 (echo (Nat.not_lt.mp short))
      exact differ (decided _ _ stack stack')
  · intro contained
    constructor
    · intro stale stale' stack stack'
      rw [contained_same frame contained stale stack, contained_same frame contained stale' stack']
    · intro stale stale' stack stack'
      exact (contained_same frame contained stale stack).trans
        (contained_same frame contained stale' stack').symm

def quietHost : EthState :=
  { arpCache := fun _ => { ip := [], mac := [], valid := false }
    myMac := #v[2, 0, 0, 0, 0, 1], myIp := #v[10, 0, 0, 1] }

/-- An Ethernet header and nothing else. -/
def bareHeader : List UInt8 := [2, 0, 0, 0, 0, 1, 2, 0, 0, 0, 0, 2, 0x08, 0x00]

/-- An echo request with a header of four words. -/
def fourWordEcho : List UInt8 :=
  bareHeader ++ [0x44, 0, 0, 24, 0, 0, 0, 0, 64, 1, 0, 0, 10, 0, 0, 2, 8, 0, 0, 0, 0, 0, 0, 0]

/-- A sender is learnt from old bytes of the buffer, and stack bytes are sent out. -/
theorem receive_leaks :
    (visible (ethDrvRecv quietHost.myIp 1500 quietHost bareHeader (oldHeader 7) fun _ => 0) ≠
      visible (ethDrvRecv quietHost.myIp 1500 quietHost bareHeader (oldHeader 9) fun _ => 0)) ∧
    (visible (ethDrvRecv quietHost.myIp 1500 quietHost fourWordEcho (fun _ => 0) fun _ => 0) ≠
      visible (ethDrvRecv quietHost.myIp 1500 quietHost fourWordEcho (fun _ => 0) fun _ => 0xAA)) := by
  constructor
  · intro same
    have learnt := congrArg (fun seen => (seen.2.1 0).ip) same
    exact absurd learnt (by decide)
  · intro same
    have sent := congrArg (fun seen => seen.2.2) same
    exact absurd sent (by decide)

end R2Apps.EthernetReceive
