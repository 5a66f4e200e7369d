import R2Apps.InternetChecksums
import R2Apps.WgdSettings
import R2Apps.WireGuardPeer

/-! `wgd/engine.c`. The scratch buffers `tx` and `plain` are values of the call that fills
them; `pending` is the packet up to `pending_len`. Each call is given what it finds: the
clock at each reading, the random draws and what `send` and `inject` answer. `log` is what
the engine did, oldest first; nothing reads it. -/
namespace R2Apps.WgdEngine
open EthernetReceive InternetChecksums PrefixRoutes WgdSettings WireGuardPeer
open KernelTunnel (addressAt byte half)

def wgdDatagramMax : Nat := 1472
def plainSize : Nat := 1420 + 16

def wgdChecksum (p : Bytes) : Nat := inetCksum p

/-- The total length and the header length. -/
def wgdIpv4 (p : Bytes) : Option (Nat × Nat) :=
  if p.length < 20 ∨ byte p 0 >>> 4 ≠ 4 then none
  else
    let ihl := (byte p 0 &&& 15).toNat * 4
    let total := half p 2
    if ihl ≥ 20 ∧ ihl ≤ p.length ∧ total ≥ ihl ∧ total ≤ p.length ∧ byte p 6 &&& 0xbf = 0 ∧ byte p 7 = 0 ∧
        byte p 8 ≠ 0 ∧ wgdChecksum (p.take ihl) = 0 then some (total, ihl)
    else none

/-- On whose account `transport` is called. -/
inductive Origin where
  | keepalive | pending | echo | sendIp
  deriving DecidableEq

inductive Event where
  | received (device : Device) (ip : Ip4) (port : UInt16) (datagram : Bytes)
  | called
  /-- the message of a handshake is taken -/
  | greeted
  /-- a data message is let in, with the keypair that it came in on -/
  | opened (datagram : Bytes) (keypair : Keypair) (plain : Bytes)
  | send (ip : Ip4) (port : UInt16) (datagram : Bytes) (ok : Bool)
  /-- with the plaintext that the packet is in -/
  | inject (packet plain : Bytes) (ok : Bool)
  | event (text : String)
  /-- a plaintext given to `transport`, and whether it was sent -/
  | transport (origin : Origin) (ip : Bytes) (sent : Bool)
  | hold (ip : Bytes)
  | session
  | fault
  deriving DecidableEq

structure Wgd where
  device : Device := {}
  config : WgdConfig := {}
  pending : Bytes := []
  handshakes : UInt32 := 0
  rxPackets : UInt32 := 0
  txPackets : UInt32 := 0
  drops : UInt32 := 0
  replays : UInt32 := 0
  rateAt : UInt32 := 0
  rateCount : UInt32 := 0
  timerAt : UInt32 := 0
  lastDataRx : UInt32 := 0
  established : Bool := false
  needKeepalive : Bool := false
  log : List Event := []

def Wgd.note (wg : Wgd) (e : Event) : Wgd := { wg with log := wg.log ++ [e] }

def Wgd.setPeer (wg : Wgd) (p : Peer) : Wgd := { wg with device := { wg.device with peer := p } }

def Wgd.drop (wg : Wgd) : Wgd := { wg with drops := wg.drops + 1 }

/-- `ok` is the answer of the platform. -/
def sendTo (wg : Wgd) (ip : Ip4) (port : UInt16) (data : Bytes) (ok : Bool) : Wgd × Bool :=
  if port = 0 then (wg, false) else (wg.note (.send ip port data ok), ok)

structure Sending where
  rejectAt : UInt32
  sentAt : UInt32
  rekeyAt : UInt32
  ok : Bool

def usable (t : Sending) (k : Keypair) : Bool :=
  k.valid && k.sendingValid && !wireguardExpired t.rejectAt k.keypairMillis rejectAfterTime &&
    k.sendingCounter < rejectAfterMessages

/-- The datagram for a plaintext, padded to blocks of 16 bytes. -/
def sealed (c : Crypto) (k : Keypair) (ip : Bytes) : Bytes :=
  let padded := (ip.length + 15) / 16 * 16
  [4, 0, 0, 0] ++ le32 k.remoteIndex ++ le64 k.sendingCounter ++
    c.aeadEncrypt k.sendingKey k.sendingCounter [] (ip ++ List.replicate (padded - ip.length) 0)

/-- The peer after a plaintext was encrypted and handed to `send`. -/
def spent (t : Sending) (p : Peer) (sent : Bool) : Peer :=
  let k := { p.curr with sendingCounter := p.curr.sendingCounter + 1 }
  let k := if sent then { k with lastTx := t.sentAt } else k
  let rekey := k.sendingCounter ≥ rekeyAfterMessages ∨
    (k.initiator ∧ wireguardExpired t.rekeyAt k.keypairMillis rekeyAfterTime)
  { p with
    curr := k
    lastTx := if sent then t.sentAt else p.lastTx
    sendHandshake := p.sendHandshake || decide rekey }

def transport (c : Crypto) (t : Sending) (origin : Origin) (wg : Wgd) (ip : Bytes) : Wgd × Bool :=
  let p := wg.device.peer
  if !usable t p.curr then (wg.note (.transport origin ip false), false)
  else
    let (wg, sent) := sendTo wg p.ip p.port (sealed c p.curr ip) t.ok
    let wg := if sent ∧ ip ≠ [] then { wg with txPackets := wg.txPackets + 1 } else wg
    ((wg.setPeer (spent t p sent)).note (.transport origin ip sent), sent)

structure Initiating where
  timeoutAt : UInt32
  draw : Draw
  startedAt : UInt32
  ok : Bool

def initiate (c : Crypto) (t : Initiating) (wg : Wgd) : Wgd :=
  let p := wg.device.peer
  if p.port = 0 ∨ (p.lastInitiationTx ≠ 0 ∧
    !wireguardExpired t.timeoutAt p.lastInitiationTx rekeyTimeout) then wg
  else
    match wireguardCreateHandshakeInitiation c wg.device t.draw with
    | (p, none) => wg.setPeer p
    | (p, some msg) => (sendTo (wg.setPeer { p with lastInitiationTx := t.startedAt }) p.ip p.port msg t.ok).1

def endpoint (p : Peer) (ip : Ip4) (port : UInt16) : Peer := { p with ip := ip, port := port }

def established (c : Crypto) (t : Sending) (wg : Wgd) : Wgd :=
  let wg := if wg.established then wg else { wg with established := true }.note (.event "session established")
  if wg.pending = [] then wg
  else
    match transport c t .pending wg wg.pending with
    | (wg, true) => { wg with pending := [] }
    | (wg, false) => wg

/-- `none` when it returns false. -/
def wgdInit (c : Crypto) (cfg : WgdConfig) (secret : Bytes) (now : UInt32) : Option Wgd :=
  (wireguardDeviceInit c cfg.privateKey secret now).bind fun d =>
    (wireguardPeerInit c d cfg.publicKey cfg.presharedKey).map fun p =>
      { device := { d with
          peer := { endpoint p cfg.endpoint cfg.endpointPort with
            active := cfg.endpointPort ≠ 0, keepaliveInterval := cfg.keepalive } }
        config := { cfg with privateKey := zeroKey, presharedKey := zeroKey } }

structure Arrival where
  rateAt : UInt32
  mac2 : SecretTurn
  cookie : SecretTurn
  cookieNonce : Bytes
  cookieOk : Bool
  processedAt : UInt32
  draw : Draw
  sessionAt : UInt32
  responseOk : Bool
  keepalive : Sending
  rejectAt : UInt32
  receivedAt : UInt32
  rekeyAt : UInt32
  pending : Sending
  dataAt : UInt32
  echo : Sending
  injectOk : Bool

/-- One more handshake message in the second that is counted. -/
def counted (a : Arrival) (wg : Wgd) : Wgd :=
  let wg := if a.rateAt - wg.rateAt ≥ 1000 then { wg with rateAt := a.rateAt, rateCount := 0 } else wg
  { wg with rateCount := wg.rateCount + 1 }

/-- Under load the sender has to show a cookie; one without is sent it. -/
def checkCookie (c : Crypto) (a : Arrival) (wg : Wgd) (ip : Ip4) (port : UInt16) (data : Bytes) :
    Wgd × Bool :=
  let n := data.length
  let source := ip.toList ++ [(port >>> 8).toUInt8, port.toUInt8]
  match wireguardCheckMac2 c wg.device a.mac2 (data.take (n - 16)) source (data.drop (n - 16)) with
  | (d, true) => ({ wg with device := d }, true)
  | (d, false) =>
      let reply :=
        wireguardCreateCookieReply c d a.cookie a.cookieNonce (slice data (n - 32) 16) (le32At data 4) source
      ((sendTo { wg with device := reply.1 } ip port reply.2 a.cookieOk).1, false)

def checkHandshake (c : Crypto) (a : Arrival) (wg : Wgd) (ip : Ip4) (port : UInt16) (data : Bytes) :
    Wgd × Bool :=
  let n := data.length
  if !wireguardCheckMac1 c wg.device (data.take (n - 32)) (slice data (n - 32) 16) then (wg, false)
  else
    let wg := counted a wg
    if wg.rateCount > 20 then (wg, false)
    else if wg.rateCount > 4 then checkCookie c a wg ip port data
    else (wg, true)

def receiveInitiation (c : Crypto) (a : Arrival) (wg : Wgd) (ip : Ip4) (port : UInt16) (data : Bytes) : Wgd :=
  match checkHandshake c a wg ip port data with
  | (wg, false) => wg.drop
  | (wg, true) =>
      match wireguardProcessInitiationMessage c wg.device data a.processedAt with
      | none => wg.drop
      | some p =>
          let wg := wg.note .greeted
          match wireguardCreateHandshakeResponse c { wg.device with peer := p } a.draw with
          | (p, none) => wg.setPeer p
          | (p, some response) =>
              let p := { wireguardStartSession c (endpoint p ip port) false a.sessionAt with
                sendHandshake := false }
              let wg := ((wg.setPeer p).note .session).note (.event "handshake response")
              (sendTo { wg with handshakes := wg.handshakes + 1 } ip port response a.responseOk).1

def receiveResponse (c : Crypto) (a : Arrival) (wg : Wgd) (ip : Ip4) (port : UInt16) (data : Bytes) : Wgd :=
  match checkHandshake c a wg ip port data with
  | (wg, false) => wg.drop
  | (wg, true) =>
      let h := wg.device.peer.handshake
      if !h.valid || !h.initiator || le32At data 8 ≠ h.localIndex then wg.drop
      else
        match wireguardProcessHandshakeResponse c wg.device data with
        | none => wg.drop
        | some p =>
            let wg := wg.note .greeted
            let p := { wireguardStartSession c (endpoint p ip port) true a.sessionAt with
              sendHandshake := false }
            let wg := { (wg.setPeer p).note .session with handshakes := wg.handshakes + 1 }
            established c a.pending (transport c a.keepalive .keepalive wg []).1

def receiveCookie (c : Crypto) (a : Arrival) (wg : Wgd) (ip : Ip4) (port : UInt16) (data : Bytes) : Wgd :=
  let p := wg.device.peer
  if !p.handshake.valid || le32At data 4 ≠ p.handshake.localIndex || ip ≠ p.ip || port ≠ p.port then wg.drop
  else
    match wireguardProcessCookieMessage c p data a.processedAt with
    | none => wg.drop
    | some p => (wg.note .greeted).setPeer { p with sendHandshake := true }

def overwrite (p : Bytes) (i : Nat) (bytes : Bytes) : Bytes := p.take i ++ bytes ++ p.drop (i + bytes.length)

def echoReply (cfg : WgdConfig) (plain : Bytes) (total ihl : Nat) : Bytes :=
  let remote := slice plain 12 4
  let p := overwrite (overwrite plain 12 cfg.address.toList) 16 remote
  let p := overwrite (overwrite p ihl [0]) (ihl + 2) [0, 0]
  let p := overwrite p (ihl + 2) (big16 (wgdChecksum (slice p ihl (total - ihl))))
  let p := overwrite p 10 [0, 0]
  overwrite p 10 (big16 (wgdChecksum (p.take ihl)))

/-- What is not for this end of the tunnel. -/
def refused (cfg : WgdConfig) (plain : Bytes) (total : Nat) : Bool :=
  decide (total > 1420) || byte plain 12 == 0 || byte plain 12 == 127 || byte plain 12 ≥ 224 ||
    !wgdAllowed cfg (addressAt plain 12) || addressAt plain 12 == cfg.address ||
      addressAt plain 16 != cfg.address

def icmpFits (plain : Bytes) (total ihl : Nat) : Bool :=
  byte plain 9 == 1 && decide (total ≥ ihl + 8) && wgdChecksum (slice plain ihl (total - ihl)) == 0

def tcpFits (plain : Bytes) (total ihl : Nat) : Bool :=
  let offset := (byte plain (ihl + 12) >>> 4).toNat
  byte plain 9 == 6 && decide (total ≥ ihl + 20) && decide (offset ≥ 5) && decide (offset * 4 ≤ total - ihl)

def wgdInject (wg : Wgd) (plain : Bytes) (total : Nat) (ok : Bool) : Wgd :=
  let wg := wg.note (.inject (plain.take total) plain ok)
  if ok then wg else wg.drop

/-- The plaintext of a data message that is not a keepalive. -/
def deliver (c : Crypto) (a : Arrival) (wg : Wgd) (plain : Bytes) : Wgd :=
  match wgdIpv4 plain with
  | none => wg.drop
  | some (total, ihl) =>
      if refused wg.config plain total then wg.drop
      else
        let wg := { wg with rxPackets := wg.rxPackets + 1, lastDataRx := a.dataAt, needKeepalive := true }
        let kind := byte plain ihl
        if icmpFits plain total ihl ∧ kind = 8 ∧ byte plain (ihl + 1) = 0 then
          (transport c a.echo .echo wg ((echoReply wg.config plain total ihl).take total)).1
        else if icmpFits plain total ihl ∧ (kind = 0 ∨ kind = 3 ∨ kind = 11) then
          wgdInject wg plain total a.injectOk
        else if tcpFits plain total ihl then wgdInject wg plain total a.injectOk
        else wg.drop

/-- The keypair a data message is for, and its plaintext; `none` for one that is dropped. -/
def openData (c : Crypto) (a : Arrival) (p : Peer) (data : Bytes) : Option (Slot × Bytes) :=
  (getPeerKeypairForIdx p (le32At data 4)).bind fun slot =>
    let k := p.keypair slot
    if !k.receivingValid || wireguardExpired a.rejectAt k.keypairMillis rejectAfterTime ||
        le64At data 8 ≥ rejectAfterMessages || data.length - 32 > plainSize then none
    else (c.aeadDecrypt k.receivingKey (le64At data 8) [] (data.drop 16)).map fun plain => (slot, plain)

def receiveData (c : Crypto) (a : Arrival) (wg : Wgd) (ip : Ip4) (port : UInt16) (data : Bytes) : Wgd :=
  match openData c a wg.device.peer data with
  | none => wg.drop
  | some (slot, plain) =>
      let p := wg.device.peer
      match wireguardCheckReplay (p.keypair slot) (le64At data 8) with
      | (_, false) => { wg with replays := wg.replays + 1 }
      | (k, true) =>
          let wg := wg.note (.opened data (p.keypair slot) plain)
          let p := { p.setKeypair slot { k with lastRx := a.receivedAt } with lastRx := a.receivedAt }
          let p := keypairUpdate (endpoint p ip port) slot
          match getPeerKeypairForIdx p (le32At data 4) with
          | none => wg.note .fault
          | some slot =>
              let k := p.keypair slot
              let rekey := k.initiator && wireguardExpired a.rekeyAt k.keypairMillis
                (rejectAfterTime - keepaliveTimeout - rekeyTimeout)
              let p := { p with sendHandshake := p.sendHandshake || rekey }
              let wg := established c a.pending (wg.setPeer p)
              if plain = [] then wg else deliver c a wg plain

def wgdReceive (c : Crypto) (a : Arrival) (wg : Wgd) (ip : Ip4) (port : UInt16) (data : Bytes) : Wgd :=
  if port = 0 ∨ data.length > wgdDatagramMax ∨ first ip = 0 ∨ first ip = 127 ∨ first ip ≥ 224 then wg.drop
  else
    match wireguardGetMessageType data with
    | .handshakeInitiation => receiveInitiation c a wg ip port data
    | .handshakeResponse => receiveResponse c a wg ip port data
    | .cookieReply => receiveCookie c a wg ip port data
    | .transportData => receiveData c a wg ip port data
    | .invalid => wg.drop

/-- What may be sent through the tunnel. -/
def sendable (cfg : WgdConfig) (ip : Bytes) : Option Nat :=
  (wgdIpv4 ip).bind fun (total, _) =>
    if total > 1420 ∨ addressAt ip 12 ≠ cfg.address ∨ addressAt ip 16 = cfg.address ∨
      !wgdAllowed cfg (addressAt ip 16) then none else some total

def wgdSendIp (c : Crypto) (t : Sending) (i : Initiating) (wg : Wgd) (ip : Bytes) : Wgd × Bool :=
  match sendable wg.config ip with
  | none => (wg.drop, false)
  | some total =>
      match transport c t .sendIp wg (ip.take total) with
      | (wg, true) => (wg, true)
      | (wg, false) =>
          let wg := if wg.pending = []
            then { wg with pending := ip.take total }.note (.hold (ip.take total)) else wg
          (initiate c i (wg.setPeer { wg.device.peer with sendHandshake := true }), false)

structure Ticking where
  now : UInt32
  expiredAt : Slot → UInt32
  handshakeAt : UInt32
  quietAt : UInt32
  keepalive : Sending
  pending : Sending
  initiating : Initiating

def expireKeypair (t : Ticking) (p : Peer) (slot : Slot) : Peer :=
  let k := p.keypair slot
  if k.valid && wireguardExpired (t.expiredAt slot) k.keypairMillis rejectAfterTime
    then p.setKeypair slot {} else p

def expireKeys (t : Ticking) (p : Peer) : Peer :=
  let p := [Slot.prev, .curr, .next].foldl (expireKeypair t) p
  if p.handshake.valid && wireguardExpired t.handshakeAt p.lastInitiationTx rejectAfterTime then
    { p with handshake := {} }
  else p

def keepaliveDue (t : Ticking) (wg : Wgd) : Bool :=
  let p := wg.device.peer
  (p.keepaliveInterval ≠ 0 && wireguardExpired t.quietAt p.lastTx p.keepaliveInterval.toUInt32) ||
    (wg.needKeepalive && t.now - wg.lastDataRx ≥ keepaliveTimeout * 1000 &&
      (p.lastTx - wg.lastDataRx).toInt32 < 0)

def expire (t : Ticking) (wg : Wgd) : Wgd :=
  let wg := { wg with timerAt := t.now }.setPeer (expireKeys t wg.device.peer)
  if wg.established ∧ !wg.device.peer.curr.valid
    then { wg with established := false }.note (.event "session expired")
  else wg

def sendKeepalive (c : Crypto) (t : Ticking) (wg : Wgd) : Wgd :=
  if keepaliveDue t wg then
    match transport c t.keepalive .keepalive wg [] with
    | (wg, true) => { wg with needKeepalive := false }
    | (wg, false) => wg
  else wg

def flush (c : Crypto) (t : Ticking) (wg : Wgd) : Wgd :=
  if wg.pending ≠ [] ∧ wg.device.peer.curr.valid then established c t.pending wg else wg

def wgdTick (c : Crypto) (t : Ticking) (wg : Wgd) : Wgd :=
  if t.now - wg.timerAt < 100 then wg
  else
    let wg := flush c t (sendKeepalive c t (expire t wg))
    let p := wg.device.peer
    if p.sendHandshake || (p.active && !p.curr.valid) then initiate c t.initiating wg else wg

inductive Call where
  | receive (a : Arrival) (ip : Ip4) (port : UInt16) (data : Bytes)
  | sendIp (t : Sending) (i : Initiating) (ip : Bytes)
  | tick (t : Ticking)

def call (c : Crypto) (wg : Wgd) : Call → Wgd
  | .receive a ip port data => wgdReceive c a (wg.note (.received wg.device ip port data)) ip port data
  | .sendIp t i ip => (wgdSendIp c t i (wg.note .called) ip).1
  | .tick t => wgdTick c t (wg.note .called)

def run (c : Crypto) (wg : Wgd) (calls : List Call) : Wgd := calls.foldl (call c) wg

end R2Apps.WgdEngine
