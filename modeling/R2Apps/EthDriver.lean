import R2Apps.EthernetReceive

/-! `c/eth/main.c`, the Ethernet driver: it answers ARP and echo requests, finds the
gateway's MAC, and is a DHCP client of five states that resends, falls back to a static
address, renews and starts over. -/
namespace R2Apps.EthDriver
open ByteMemory BufferPrefixes EthernetReceive

abbrev Ip := Vector UInt8 4
abbrev Mac := Vector UInt8 6

def zeroIp : Ip := Vector.replicate 4 0
def bcastIp : Ip := Vector.replicate 4 255
def bcastMac : List UInt8 := List.replicate 6 255

def ipOf (bytes : List UInt8) : Ip := Vector.ofFn fun i => bytes.getD i.val 0
def ipAt (m : Memory) (address : Nat) : Ip := ipOf (bytesAt m address 4)

abbrev dhcpOptLen : Nat := 96
abbrev dhcpPktLen : Nat := 236 + 4 + dhcpOptLen
abbrev dhcpFrameLen : Nat := ethHdrLen + 20 + 8 + dhcpPktLen
def dhcpRetryMinMs : UInt32 := 1000
def dhcpRetryMaxMs : UInt32 := 16000
def dhcpFallbackMs : UInt64 := 6000
def dhcpNameCheckMs : UInt64 := 2000

inductive NetSource where
  | none | static | dhcp | fallback
deriving DecidableEq

inductive DhcpState where
  | off | discovering | requesting | bound | renewing
deriving DecidableEq

/-- What goes to the kernel with syscall 0x3d. -/
structure NetConfig where
  ip : Ip
  netmask : Ip
  gateway : Ip
  dns : Ip
  gatewayMac : Mac
  source : NetSource
deriving DecidableEq

inductive Sent where
  | dhcp (frame : List UInt8)
  | arp (frame : List UInt8)
  | echo (frame : List UInt8)
deriving DecidableEq

/-- `hostname` with `hostname_len` of its 32 bytes in use. -/
abbrev Hostname := { name : List UInt8 // name.length ≤ 32 }

/-- The variables of the program. `card` has MY_MAC, my_ip and the ARP cache, `dhcpFrame` is the
shared send buffer with the memory behind it; `published` is what the kernel was last given. -/
structure Driver where
  card : EthState
  netMask : Ip
  netGw : Ip
  netDns : Ip
  netSource : NetSource
  gwMac : Mac
  gwMacKnown : Bool
  gwArpAt : UInt64
  dhcpState : DhcpState
  dhcpXid : UInt32
  dhcpOffered : Ip
  dhcpServer : Ip
  dhcpMask : Ip
  dhcpRouter : Ip
  dhcpDns : Ip
  dhcpLeaseS : UInt32
  dhcpStartedMs : UInt64
  dhcpResendMs : UInt64
  dhcpBackoffMs : UInt32
  dhcpRenewMs : UInt64
  dhcpExpireMs : UInt64
  dhcpNameCheckMs : UInt64
  fallbackIp : Ip
  onFallback : Bool
  hostname : Hostname
  dhcpFrame : Memory
  published : Option NetConfig
  sent : List Sent

def Driver.myIp (d : Driver) : Ip := d.card.myIp

def setMyIp (ip : Ip) (d : Driver) : Driver := { d with card := { d.card with myIp := ip } }

def publishedSource (ip : Ip) (source : NetSource) : NetSource := if ip = zeroIp then .none else source

def netConfig (d : Driver) : NetConfig :=
  { ip := d.myIp, netmask := d.netMask, gateway := d.netGw, dns := d.netDns
    gatewayMac := bif d.gwMacKnown then d.gwMac else Vector.replicate 6 0
    source := publishedSource d.myIp d.netSource }

def publishConfig (d : Driver) : Driver := { d with published := some (netConfig d) }

def setIp (ip : Ip) (d : Driver) : Driver := publishConfig (setMyIp ip d)

def sendEthFrame (frame : Sent) (d : Driver) : Driver := { d with sent := d.sent ++ [frame] }

def setGateway (gw : Ip) (d : Driver) : Driver :=
  if gw ≠ d.netGw ∨ d.gwMacKnown = false then { d with netGw := gw, gwMacKnown := false, gwArpAt := 0 }
  else d

def slash24 : Ip := Vector.ofFn fun i => if i.val < 3 then 255 else 0

def firstOfNet (ip mask : Ip) : Ip :=
  Vector.ofFn fun i => if i.val = 3 then (ip.get i &&& mask.get i) ||| 1 else ip.get i &&& mask.get i

def defaultMask (d : Driver) : Driver := if d.netMask = zeroIp then { d with netMask := slash24 } else d

def defaultMaskGw (d : Driver) : Driver :=
  let d := defaultMask d
  if d.netGw = zeroIp then setGateway (firstOfNet d.myIp d.netMask) d else d

section Frames

def buildIpv4 (proto : UInt8) (src dst : Ip) (payloadLen : Nat) : List UInt8 :=
  let total := (20 + payloadLen) % 65536
  let before := [0x45, 0, UInt8.ofNat (total / 256), UInt8.ofNat total, 0x12, 0x34, 0, 0, 64, proto]
  let after := src.toList ++ dst.toList
  before ++ cksumBytes (before ++ [0, 0] ++ after) ++ after

def arpFrame (dst : List UInt8) (oper : UInt8) (mac : Mac) (spa : Ip) (tha : List UInt8) (tpa : Ip) :
    List UInt8 :=
  dst ++ mac.toList ++ [0x08, 0x06] ++ [0, 1, 0x08, 0x00, 6, 4, 0, oper] ++ mac.toList ++ spa.toList ++
    tha ++ tpa.toList

def xidBytes (xid : UInt32) : List UInt8 :=
  [(xid >>> 24).toUInt8, (xid >>> 16).toUInt8, (xid >>> 8).toUInt8, xid.toUInt8]

/-- Where the options begin in the frame. -/
abbrev optionsAt : Nat := ethHdrLen + 20 + 8 + 240

def dhcpBuildFrame (ciaddr : Ip) (d : Driver) : Memory :=
  let frame := put d.dhcpFrame 0 (List.replicate dhcpFrameLen 0)
  let frame := put frame 0 (bcastMac ++ d.card.myMac.toList ++ [0x08, 0x00])
  let frame := put frame ethHdrLen (buildIpv4 17 ciaddr bcastIp (8 + dhcpPktLen))
  let frame := put frame 34 [0, 68, 0, 67, UInt8.ofNat ((8 + dhcpPktLen) / 256),
    UInt8.ofNat (8 + dhcpPktLen), 0, 0]
  let frame := put frame 42 ([1, 1, 6, 0] ++ xidBytes d.dhcpXid)
  let frame := if ciaddr = zeroIp then put frame 52 [0x80] else frame
  let frame := put frame 54 ciaddr.toList
  let frame := put frame 70 d.card.myMac.toList
  put frame 278 [99, 130, 83, 99]

/-- What `read_sysinfo` returns and has put into `system_name`. -/
structure SysRead where
  ok : Bool
  systemName : Vector UInt8 32

def hostChar (c : UInt8) : Bool :=
  (97 ≤ c && c ≤ 122) || (65 ≤ c && c ≤ 90) || (48 ≤ c && c ≤ 57) || c == 45

theorem hostname_fits (name : Vector UInt8 32) :
    ((name.toList.takeWhile (· ≠ 0)).filter hostChar).length ≤ 32 := by
  calc ((name.toList.takeWhile (· ≠ 0)).filter hostChar).length
      ≤ (name.toList.takeWhile (· ≠ 0)).length := List.length_filter_le _ _
    _ ≤ name.toList.length := (List.takeWhile_sublist _).length_le
    _ = 32 := by simp

def hostnameOf (name : Vector UInt8 32) : Hostname :=
  if (name.toList.takeWhile (· ≠ 0)).filter hostChar = [] then ⟨[114, 50], by decide⟩
  else ⟨(name.toList.takeWhile (· ≠ 0)).filter hostChar, hostname_fits name⟩

/-- The flag says whether the name has changed. -/
def dhcpReadHostname (si : SysRead) (d : Driver) : Bool × Driver :=
  if si.ok = false ∧ d.hostname.val ≠ [] then (false, d)
  else if hostnameOf si.systemName = d.hostname then (false, d)
  else (true, { d with hostname := hostnameOf si.systemName })

/-- The options that every message carries; `i` counts them in eight bits, and they are fewer. -/
def dhcpCommonOpts (msgType : UInt8) (d : Driver) : List UInt8 :=
  [53, 1, msgType] ++ ([61, 7, 1] ++ d.card.myMac.toList) ++
    ([12, UInt8.ofNat d.hostname.val.length] ++ d.hostname.val) ++ [55, 6, 1, 3, 6, 15, 51, 58]

def sendDhcpFrame (ciaddr : Ip) (options : List UInt8) (d : Driver) : Driver :=
  let frame := put (dhcpBuildFrame ciaddr d) optionsAt options
  sendEthFrame (.dhcp (bytesAt frame 0 dhcpFrameLen)) { d with dhcpFrame := frame }

end Frames

section Sending

def dhcpArmRetry (now : UInt64) (d : Driver) : Driver :=
  { d with
    dhcpResendMs := now + d.dhcpBackoffMs.toUInt64
    dhcpBackoffMs := if d.dhcpBackoffMs * 2 > dhcpRetryMaxMs then dhcpRetryMaxMs else d.dhcpBackoffMs * 2 }

def dhcpSendDiscover (now : UInt64) (si : SysRead) (d : Driver) : Driver :=
  let d := (dhcpReadHostname si d).2
  let d := sendDhcpFrame zeroIp (dhcpCommonOpts 1 d ++ [255]) d
  dhcpArmRetry now { d with dhcpState := .discovering }

def dhcpStart (now : UInt64) (si : SysRead) (d : Driver) : Driver :=
  let xid := now.toUInt32 ^^^ ((d.card.myMac.get 4).toUInt32 <<< 24) ^^^
    ((d.card.myMac.get 5).toUInt32 <<< 16) ^^^ 0x5a5a1234
  dhcpSendDiscover now si { d with dhcpXid := xid, dhcpStartedMs := now, dhcpBackoffMs := dhcpRetryMinMs }

def requestOpts (renew : Bool) (d : Driver) : List UInt8 :=
  if renew then [] else ([50, 4] ++ d.dhcpOffered.toList) ++ ([54, 4] ++ d.dhcpServer.toList)

def dhcpSendRequest (now : UInt64) (renew : Bool) (si : SysRead) (d : Driver) : Driver :=
  let d := (dhcpReadHostname si d).2
  let ciaddr := if renew then d.myIp else zeroIp
  let d := sendDhcpFrame ciaddr (dhcpCommonOpts 3 d ++ requestOpts renew d ++ [255]) d
  dhcpArmRetry now { d with dhcpState := if renew then .renewing else .requesting }

def sendGratuitousArp (d : Driver) : Driver :=
  sendEthFrame (.arp (arpFrame bcastMac 1 d.card.myMac d.myIp (List.replicate 6 0) d.myIp)) d

def gwPoll (now : UInt64) (d : Driver) : Driver :=
  if d.gwMacKnown ∨ d.myIp = zeroIp ∨ d.netGw = zeroIp then d
  else if now < d.gwArpAt then d
  else
    let d := { d with gwArpAt := now + 1000 }
    sendEthFrame (.arp (arpFrame bcastMac 1 d.card.myMac d.myIp (List.replicate 6 0) d.netGw)) d

end Sending

section Receiving

/-- The options that `on_dhcp_packet` keeps. -/
structure Options where
  msgType : UInt8
  serverIp : Ip
  mask : Ip
  router : Ip
  dns : Ip
  lease : UInt32

def noOptions : Options :=
  { msgType := 0, serverIp := zeroIp, mask := zeroIp, router := zeroIp, dns := zeroIp, lease := 0 }

def word32 (bytes : List UInt8) : UInt32 :=
  (bytes.getD 0 0).toUInt32 <<< 24 ||| (bytes.getD 1 0).toUInt32 <<< 16 |||
    (bytes.getD 2 0).toUInt32 <<< 8 ||| (bytes.getD 3 0).toUInt32

/-- `value` is the packet from the option's value on. -/
def takeOption (opt olen : UInt8) (value : List UInt8) (o : Options) : Options :=
  let o := if opt = 53 ∧ olen = 1 then { o with msgType := value.getD 0 0 } else o
  let o := if opt = 54 ∧ olen = 4 then { o with serverIp := ipOf value } else o
  let o := if opt = 1 ∧ olen = 4 then { o with mask := ipOf value } else o
  let o := if opt = 3 ∧ 4 ≤ olen then { o with router := ipOf value } else o
  let o := if opt = 6 ∧ 4 ≤ olen then { o with dns := ipOf value } else o
  if opt = 51 ∧ olen = 4 then { o with lease := word32 value } else o

/-- `while (i < len)`: at most as many rounds as there are bytes. -/
def walkOptions : Nat → List UInt8 → Options → Options
  | 0, _, o => o
  | _ + 1, [], o => o
  | fuel + 1, opt :: rest, o =>
      if opt = 255 then o
      else if opt = 0 then walkOptions fuel rest o
      else match rest with
        | [] => o
        | olen :: value =>
            -- an option that would reach beyond the packet ends the walk
            if value.length < olen.toNat then o
            else walkOptions fuel (value.drop olen.toNat) (takeOption opt olen value o)

def optionsOf (packet : List UInt8) : Options :=
  walkOptions packet.length (packet.drop 240) noOptions

/-- The checks before the options are read. -/
def forUs (packet : List UInt8) (d : Driver) : Prop :=
  240 ≤ packet.length ∧ packet.getD 0 0 = 2 ∧ (packet.drop 236).take 4 = [99, 130, 83, 99] ∧
    word32 (packet.drop 4) = d.dhcpXid ∧ (packet.drop 28).take 6 = d.card.myMac.toList

instance (packet : List UInt8) (d : Driver) : Decidable (forUs packet d) := by
  unfold forUs
  infer_instance

def yiaddr (packet : List UInt8) : Ip := ipOf (packet.drop 16)

/-- `renew_ms` and `expire_ms` of a lease of so many seconds. -/
def leaseTimes (now : UInt64) (seconds : UInt32) : UInt64 × UInt64 :=
  let lease := if seconds = 0 then 3600 else seconds
  if lease = 0xFFFFFFFF then (0xFFFFFFFFFFFFFFFF, 0xFFFFFFFFFFFFFFFF)
  else (now + lease.toUInt64 * 500, now + lease.toUInt64 * 1000)

/-- The part of `dhcp_on_ack` that takes the lease over. -/
def bindLease (now : UInt64) (ip : Ip) (d : Driver) : Driver :=
  let d := { d with onFallback := false, netMask := d.dhcpMask, netDns := d.dhcpDns }
  let d := setGateway d.dhcpRouter d
  let d := setIp ip { d with netSource := .dhcp }
  let times := leaseTimes now d.dhcpLeaseS
  { d with dhcpState := .bound, dhcpRenewMs := times.1, dhcpExpireMs := times.2 }

def dhcpOnAck (now : UInt64) (ip : Ip) (d : Driver) : Driver :=
  if d.myIp ≠ ip ∨ d.onFallback ∨ d.netGw ≠ d.dhcpRouter then sendGratuitousArp (bindLease now ip d)
  else bindLease now ip d

def onDhcpPacket (now : UInt64) (si : SysRead) (packet : List UInt8) (d : Driver) : Driver :=
  if forUs packet d then
    let o := optionsOf packet
    if o.msgType = 2 ∧ d.dhcpState = .discovering then
      dhcpSendRequest now false si
        { d with dhcpOffered := yiaddr packet, dhcpServer := o.serverIp, dhcpBackoffMs := dhcpRetryMinMs }
    else if o.msgType = 5 ∧ (d.dhcpState = .requesting ∨ d.dhcpState = .renewing) then
      dhcpOnAck now (yiaddr packet)
        { d with
          dhcpServer := if o.serverIp = zeroIp then d.dhcpServer else o.serverIp
          dhcpMask := o.mask, dhcpRouter := o.router, dhcpDns := o.dns, dhcpLeaseS := o.lease }
    else if o.msgType = 6 ∧ (d.dhcpState = .requesting ∨ d.dhcpState = .renewing) then
      dhcpStart now si d
    else d
  else d

def arpReply (m : Memory) (d : Driver) : Driver :=
  sendEthFrame (.arp (arpFrame (bytesAt m 6 6) 2 d.card.myMac d.myIp (bytesAt m 22 6) (ipAt m 28))) d

/-- Anything the gateway says tells its MAC. -/
def learnGateway (m : Memory) (d : Driver) : Driver :=
  if d.netGw ≠ zeroIp ∧ ipAt m 28 = d.netGw ∧ (d.gwMacKnown = false ∨ d.gwMac.toList ≠ bytesAt m 22 6) then
    publishConfig { d with gwMac := Vector.ofFn fun i => m (22 + i.val), gwMacKnown := true }
  else d

def onArp (m : Memory) (len : Nat) (d : Driver) : Driver :=
  if len < ethHdrLen + arpPktLen then d
  else if d.myIp = zeroIp then d
  else
    let d := learnGateway m d
    if field16 m 20 ≠ 1 then d
    else if ipAt m 38 ≠ d.myIp then d
    else
      let cache := ethArpCacheUpdate d.card.arpCache (bytesAt m 28 4) (bytesAt m 6 6)
      arpReply m { d with card := { d.card with arpCache := cache } }

def onIcmp (m stack : Memory) (hdrLen ipTotal : Nat) (d : Driver) : Driver :=
  let icmp := ethHdrLen + hdrLen
  if d.myIp = zeroIp then d
  else if ipTotal - hdrLen < 8 then d
  else if m icmp ≠ 8 ∨ m (icmp + 1) ≠ 0 then d
  else if ethHdrLen + ipTotal > 1514 then d
  else sendEthFrame (.echo (echoReply d.card m stack hdrLen ipTotal)) d

/-- The payload of a UDP packet to port 68 in an IPv4 frame. -/
def dhcpPayload (m : Memory) (len : Nat) : Option (List UInt8) :=
  let hdrLen := (m 14).toNat % 16 * 4
  let ipTotal := field16 m 16
  let udp := ethHdrLen + hdrLen
  if len < ethHdrLen ∨ field16 m 12 ≠ etypeIpv4 then none
  else if hdrLen = 0 ∨ ipTotal > len - ethHdrLen ∨ ipTotal < hdrLen then none
  else if m 23 ≠ 17 ∨ ipTotal - hdrLen < 8 ∨ field16 m (udp + 2) ≠ 68 then none
  else some (bytesAt m (udp + 8) (ipTotal - hdrLen - 8))

def onIpv4 (now : UInt64) (si : SysRead) (m stack : Memory) (len : Nat) (d : Driver) : Driver :=
  let hdrLen := (m 14).toNat % 16 * 4
  let ipTotal := field16 m 16
  let udp := ethHdrLen + hdrLen
  if hdrLen = 0 then d
  else if ipTotal > len - ethHdrLen ∨ ipTotal < hdrLen then d
  else if m 23 = 1 then onIcmp m stack hdrLen ipTotal d
  else if m 23 = 17 then
    if ipTotal - hdrLen < 8 then d
    else if field16 m (udp + 2) = 68 then
      onDhcpPacket now si (bytesAt m (udp + 8) (ipTotal - hdrLen - 8)) d
    else d
  else d

/-- A frame of `len` bytes in the receive buffer; what lies behind it is left from before. -/
def onEthFrame (now : UInt64) (si : SysRead) (m stack : Memory) (len : Nat) (d : Driver) : Driver :=
  if len < ethHdrLen then d
  else if field16 m 12 = etypeArp then onArp m len d
  else if field16 m 12 = etypeIpv4 then onIpv4 now si m stack len d
  else d

end Receiving

section Polling

def adoptFallback (d : Driver) : Driver :=
  setIp d.fallbackIp { defaultMaskGw (setMyIp d.fallbackIp { d with
    onFallback := true }) with netSource := .fallback }

def fallBack (now : UInt64) (d : Driver) : Driver :=
  if d.onFallback = false ∧ d.myIp = zeroIp ∧ now - d.dhcpStartedMs ≥ dhcpFallbackMs
    then adoptFallback d else d

/-- An unanswered REQUEST goes back to DISCOVER: the offer may be gone. -/
def resend (now : UInt64) (si : SysRead) (d : Driver) : Driver :=
  if d.dhcpState = .requesting ∧ d.dhcpBackoffMs ≥ 8000 then dhcpStart now si d
  else if d.dhcpState = .requesting then dhcpSendRequest now false si d
  else dhcpSendDiscover now si d

def pollAsking (now : UInt64) (si : SysRead) (d : Driver) : Driver :=
  let d := fallBack now d
  if now ≥ d.dhcpResendMs then resend now si d else d

def renewNow (now : UInt64) (si : SysRead) (d : Driver) : Driver :=
  dhcpSendRequest now true si { d with dhcpBackoffMs := dhcpRetryMinMs }

/-- `checked` is what the look for a new name reads, `si` what the message's own look reads. -/
def pollBound (now : UInt64) (checked si : SysRead) (d : Driver) : Driver :=
  if now ≥ d.dhcpRenewMs then renewNow now si d
  else if now ≥ d.dhcpNameCheckMs then
    let named := dhcpReadHostname checked { d with dhcpNameCheckMs := now + dhcpNameCheckMs }
    if named.1 then renewNow now si named.2 else named.2
  else d

def pollRenewing (now : UInt64) (si : SysRead) (d : Driver) : Driver :=
  if now ≥ d.dhcpExpireMs then dhcpStart now si (setIp zeroIp d)
  else if now ≥ d.dhcpResendMs then dhcpSendRequest now true si d
  else d

def dhcpPoll (now : UInt64) (checked si : SysRead) (d : Driver) : Driver :=
  match d.dhcpState with
  | .off => d
  | .discovering | .requesting => pollAsking now si d
  | .bound => pollBound now checked si d
  | .renewing => pollRenewing now si d

end Polling

/-- What `main` makes of the options before its loop: `ip` is my_ip as the arguments and sysinfo
leave it, and the other addresses are those of `--mask`, `--gw` and `--dns`. -/
structure Setup where
  mac : Mac
  cache : ArpCache
  ip : Ip
  mask : Ip
  gw : Ip
  dns : Ip
  memory : Memory

/-- The static variables as the program finds them. -/
def loaded (s : Setup) : Driver :=
  { card := { arpCache := s.cache, myMac := s.mac, myIp := s.ip }
    netMask := s.mask, netGw := s.gw, netDns := s.dns, netSource := .none
    gwMac := Vector.replicate 6 0, gwMacKnown := false, gwArpAt := 0
    dhcpState := .off, dhcpXid := 0, dhcpOffered := zeroIp, dhcpServer := zeroIp, dhcpMask := zeroIp
    dhcpRouter := zeroIp, dhcpDns := zeroIp, dhcpLeaseS := 0, dhcpStartedMs := 0, dhcpResendMs := 0
    dhcpBackoffMs := 0, dhcpRenewMs := 0, dhcpExpireMs := 0, dhcpNameCheckMs := 0
    fallbackIp := zeroIp, onFallback := false, hostname := ⟨[], Nat.zero_le 32⟩
    dhcpFrame := s.memory, published := none, sent := [] }

def mainStatic (s : Setup) : Driver :=
  let d := defaultMaskGw (loaded s)
  setIp d.myIp { d with netSource := .static }

def mainDhcp (now : UInt64) (si : SysRead) (s : Setup) : Driver :=
  dhcpStart now si (setMyIp zeroIp { loaded s with fallbackIp := s.ip })

inductive Event where
  | frame (now : UInt64) (si : SysRead) (m stack : Memory) (len : Nat)
  | poll (now : UInt64) (checked si : SysRead)
  | gwPoll (now : UInt64)

def step (d : Driver) : Event → Driver
  | .frame now si m stack len => onEthFrame now si m stack len d
  | .poll now checked si => dhcpPoll now checked si d
  | .gwPoll now => gwPoll now d

end R2Apps.EthDriver
