import Mathlib.Tactic.Ring

/-! The parts of `wgd/vendor/wireguard/wireguard.c` that the daemon calls: one device with
one peer, its three keypairs and its handshake. The primitives of `crypto.h` are a
parameter. A clock reading or a random draw is an argument of the function that takes it.
Sessions are numbered, which nothing reads. -/
namespace R2Apps.WireGuardPeer

abbrev Bytes := List UInt8

/-- `crypto.h`, with the hashing built on it in `wireguard.c`. -/
structure Crypto where
  mixHash : Bytes → Bytes → Bytes
  kdf1 : Bytes → Bytes → Bytes
  kdf2 : Bytes → Bytes → Bytes × Bytes
  kdf3 : Bytes → Bytes → Bytes × Bytes × Bytes
  /-- the product, and whether it is not zero -/
  x25519 : Bytes → Bytes → Bytes × Bool
  mac : Bytes → Bytes → Bytes
  macKey : Bytes → Bytes → Bytes
  aeadEncrypt (key : Bytes) (counter : UInt64) (aad plain : Bytes) : Bytes
  aeadDecrypt (key : Bytes) (counter : UInt64) (aad sealed : Bytes) : Option Bytes
  xaeadEncrypt (key nonce aad plain : Bytes) : Bytes
  xaeadDecrypt (key nonce aad sealed : Bytes) : Option Bytes
  /-- the tag of 16 bytes is all that decryption takes away -/
  plainLength : ∀ {key counter aad sealed plain}, aeadDecrypt key counter aad sealed = some plain →
    plain.length = sealed.length - 16

def rekeyAfterMessages : UInt64 := (1 : UInt64) <<< 60
def rejectAfterMessages : UInt64 := (0xFFFFFFFFFFFFFFFF : UInt64) - (1 : UInt64) <<< 13
def rekeyAfterTime : UInt32 := 120
def rejectAfterTime : UInt32 := 180
def rekeyTimeout : UInt32 := 5
def keepaliveTimeout : UInt32 := 10
def cookieSecretMaxAge : UInt32 := 120
def zeroKey : Bytes := List.replicate 32 0

structure Keypair where
  valid : Bool := false
  initiator : Bool := false
  keypairMillis : UInt32 := 0
  sendingKey : Bytes := zeroKey
  sendingValid : Bool := false
  sendingCounter : UInt64 := 0
  receivingKey : Bytes := zeroKey
  receivingValid : Bool := false
  lastTx : UInt32 := 0
  lastRx : UInt32 := 0
  replayBitmap : UInt32 := 0
  replayCounter : UInt64 := 0
  localIndex : UInt32 := 0
  remoteIndex : UInt32 := 0
  number : Nat := 0
  deriving DecidableEq

structure Handshake where
  valid : Bool := false
  initiator : Bool := false
  localIndex : UInt32 := 0
  remoteIndex : UInt32 := 0
  ephemeralPrivate : Bytes := zeroKey
  remoteEphemeral : Bytes := zeroKey
  hash : Bytes := zeroKey
  chainingKey : Bytes := zeroKey
  deriving DecidableEq

structure Peer where
  valid : Bool := false
  active : Bool := false
  ip : Vector UInt8 4 := Vector.replicate 4 0
  port : UInt16 := 0
  keepaliveInterval : UInt16 := 0
  publicKey : Bytes := zeroKey
  presharedKey : Bytes := zeroKey
  publicKeyDh : Bytes := zeroKey
  curr : Keypair := {}
  prev : Keypair := {}
  next : Keypair := {}
  greatestTimestamp : Bytes := List.replicate 12 0
  handshake : Handshake := {}
  cookieMillis : UInt32 := 0
  cookie : Bytes := List.replicate 16 0
  handshakeMac1Valid : Bool := false
  handshakeMac1 : Bytes := List.replicate 16 0
  labelCookieKey : Bytes := zeroKey
  labelMac1Key : Bytes := zeroKey
  lastInitiationRx : UInt32 := 0
  lastInitiationTx : UInt32 := 0
  lastTx : UInt32 := 0
  lastRx : UInt32 := 0
  sendHandshake : Bool := false
  sessions : Nat := 0
  deriving DecidableEq

structure Device where
  publicKey : Bytes := zeroKey
  privateKey : Bytes := zeroKey
  cookieSecret : Bytes := zeroKey
  cookieSecretMillis : UInt32 := 0
  labelCookieKey : Bytes := zeroKey
  labelMac1Key : Bytes := zeroKey
  peer : Peer := {}
  valid : Bool := false
  deriving DecidableEq

def slice (data : Bytes) (start count : Nat) : Bytes := (data.drop start).take count

/-- `U8TO32_LITTLE`. -/
def le32At (data : Bytes) (i : Nat) : UInt32 :=
  (data.getD i 0).toUInt32 ||| (data.getD (i + 1) 0).toUInt32 <<< 8 |||
    (data.getD (i + 2) 0).toUInt32 <<< 16 ||| (data.getD (i + 3) 0).toUInt32 <<< 24

def le64At (data : Bytes) (i : Nat) : UInt64 :=
  (le32At data i).toUInt64 ||| (le32At data (i + 4)).toUInt64 <<< 32

def le32 (x : UInt32) : Bytes := [x.toUInt8, (x >>> 8).toUInt8, (x >>> 16).toUInt8, (x >>> 24).toUInt8]

def le64 (x : UInt64) : Bytes := le32 x.toUInt32 ++ le32 (x >>> 32).toUInt32

/-- `now` is what `wireguard_sys_now` says. -/
def wireguardExpired (now created validSeconds : UInt32) : Bool := now - created ≥ validSeconds * 1000

inductive MessageType where
  | invalid | handshakeInitiation | handshakeResponse | cookieReply | transportData
  deriving DecidableEq

def wireguardGetMessageType (data : Bytes) : MessageType :=
  if data.length ≥ 4 ∧ data.getD 1 0 = 0 ∧ data.getD 2 0 = 0 ∧ data.getD 3 0 = 0 then
    if data.getD 0 0 = 1 ∧ data.length = 148 then .handshakeInitiation
    else if data.getD 0 0 = 2 ∧ data.length = 92 then .handshakeResponse
    else if data.getD 0 0 = 3 ∧ data.length = 64 then .cookieReply
    else if data.getD 0 0 = 4 ∧ data.length ≥ 32 then .transportData
    else .invalid
  else .invalid

def wireguardCheckReplay (k : Keypair) (seq : UInt64) : Keypair × Bool :=
  let seq := seq + 1
  if seq = 0 then (k, false)
  else if seq > k.replayCounter then
    let diff := seq - k.replayCounter
    let bitmap := if diff < 32 then k.replayBitmap <<< diff.toUInt32 ||| 1 else 1
    ({ k with replayBitmap := bitmap, replayCounter := seq }, true)
  else
    let diff := k.replayCounter - seq
    if diff < 32 then
      let bit := (1 : UInt32) <<< diff.toUInt32
      if k.replayBitmap &&& bit ≠ 0 then (k, false)
      else ({ k with replayBitmap := k.replayBitmap ||| bit }, true)
    else (k, false)

/-- Which keypair of the peer a pointer is to. -/
inductive Slot where
  | curr | next | prev
  deriving DecidableEq

def Peer.keypair (p : Peer) : Slot → Keypair
  | .curr => p.curr
  | .next => p.next
  | .prev => p.prev

def Peer.setKeypair (p : Peer) (slot : Slot) (k : Keypair) : Peer :=
  match slot with
  | .curr => { p with curr := k }
  | .next => { p with next := k }
  | .prev => { p with prev := k }

def getPeerKeypairForIdx (p : Peer) (idx : UInt32) : Option Slot :=
  if p.curr.valid ∧ p.curr.localIndex = idx then some .curr
  else if p.next.valid ∧ p.next.localIndex = idx then some .next
  else if p.prev.valid ∧ p.prev.localIndex = idx then some .prev
  else none

def keypairUpdate (p : Peer) (received : Slot) : Peer :=
  if received = .next then { p with prev := p.curr, curr := p.next, next := {} } else p

def addNewKeypair (p : Peer) (new : Keypair) : Peer :=
  if new.initiator then
    if p.next.valid then { p with prev := p.next, next := {}, curr := new }
    else { p with prev := p.curr, curr := new }
  else { p with next := new, prev := {} }

def wireguardStartSession (c : Crypto) (p : Peer) (initiator : Bool) (now : UInt32) : Peer :=
  let h := p.handshake
  let (first, second) := c.kdf2 h.chainingKey []
  let new : Keypair :=
    { initiator := initiator, localIndex := h.localIndex, remoteIndex := h.remoteIndex
      keypairMillis := now, sendingValid := true, receivingValid := true
      sendingKey := if initiator then first else second
      receivingKey := if initiator then second else first
      valid := true, number := p.sessions }
  addNewKeypair { p with handshake := { initiator := h.initiator }, sessions := p.sessions + 1 } new

/-- What a turn of the cookie secret finds: when its age is read, and the secret drawn then. -/
structure SecretTurn where
  expiredAt : UInt32
  secret : Bytes
  drawnAt : UInt32

def generatePeerCookie (c : Crypto) (d : Device) (t : SecretTurn) (source : Bytes) : Device × Bytes :=
  let d :=
    if wireguardExpired t.expiredAt d.cookieSecretMillis cookieSecretMaxAge then
      { d with cookieSecret := t.secret, cookieSecretMillis := t.drawnAt }
    else d
  (d, c.mac d.cookieSecret source)

def wireguardCheckMac1 (c : Crypto) (d : Device) (data mac1 : Bytes) : Bool :=
  c.mac d.labelMac1Key data = mac1

def wireguardCheckMac2 (c : Crypto) (d : Device) (t : SecretTurn) (data source mac2 : Bytes) :
    Device × Bool :=
  let (d, cookie) := generatePeerCookie c d t source
  (d, c.mac cookie data = mac2)

def wireguardCreateCookieReply (c : Crypto) (d : Device) (t : SecretTurn) (nonce mac1 : Bytes)
    (index : UInt32)
    (source : Bytes) : Device × Bytes :=
  let (d, cookie) := generatePeerCookie c d t source
  (d, [3, 0, 0, 0] ++ le32 index ++ nonce ++ c.xaeadEncrypt d.labelCookieKey nonce mac1 cookie)

def constructionHash (c : Crypto) : Bytes :=
  c.mixHash [] "Noise_IKpsk2_25519_ChaChaPoly_BLAKE2s".toUTF8.toList

def identifierHash (c : Crypto) : Bytes :=
  c.mixHash (constructionHash c) "WireGuard v1 zx2c4 Jason@zx2c4.com".toUTF8.toList

/-- The peer with the handshake of an initiation that is in order; nothing of it changes otherwise. -/
def wireguardProcessInitiationMessage (c : Crypto) (d : Device) (msg : Bytes) (now : UInt32) : Option Peer :=
  let ephemeral := slice msg 8 32
  let encStatic := slice msg 40 48
  let encTimestamp := slice msg 88 28
  let hash := c.mixHash (identifierHash c) d.publicKey
  let chainingKey := c.kdf1 (constructionHash c) ephemeral
  let hash := c.mixHash hash ephemeral
  let dh := (c.x25519 d.privateKey ephemeral).1
  if dh = zeroKey then none
  else
    let (chainingKey, key) := c.kdf2 chainingKey dh
    match c.aeadDecrypt key 0 hash encStatic with
    | none => none
    | some static =>
        let hash := c.mixHash hash encStatic
        let p := d.peer
        if !p.valid || p.publicKey ≠ static then none
        else
          let (chainingKey, key) := c.kdf2 chainingKey p.publicKeyDh
          match c.aeadDecrypt key 0 hash encTimestamp with
          | none => none
          | some timestamp =>
              let hash := c.mixHash hash encTimestamp
              let replay := !(p.greatestTimestamp < timestamp)
              let rateLimit := p.lastInitiationRx ≠ 0 ∧ now - p.lastInitiationRx < 500
              if replay ∨ rateLimit then none
              else
                some { p with
                  lastInitiationRx := now
                  greatestTimestamp := timestamp
                  handshake := { p.handshake with
                    remoteEphemeral := ephemeral, hash := hash, chainingKey := chainingKey
                    remoteIndex := le32At msg 4, valid := true, initiator := false } }

def wireguardProcessHandshakeResponse (c : Crypto) (d : Device) (msg : Bytes) : Option Peer :=
  let p := d.peer
  let h := p.handshake
  if !h.valid || !h.initiator then none
  else
    let ephemeral := slice msg 12 32
    let chainingKey := c.kdf1 h.chainingKey ephemeral
    let hash := c.mixHash h.hash ephemeral
    let dh := (c.x25519 h.ephemeralPrivate ephemeral).1
    if dh = zeroKey then none
    else
      let chainingKey := c.kdf1 chainingKey dh
      let dh := (c.x25519 d.privateKey ephemeral).1
      if dh = zeroKey then none
      else
        let (chainingKey, tau, key) := c.kdf3 (c.kdf1 chainingKey dh) p.presharedKey
        let hash := c.mixHash hash tau
        match c.aeadDecrypt key 0 hash (slice msg 44 16) with
        | none => none
        | some _ =>
            some { p with handshake := { h with
              remoteEphemeral := ephemeral, hash := hash, chainingKey := chainingKey, remoteIndex :=
                le32At msg 4 } }

def wireguardProcessCookieMessage (c : Crypto) (p : Peer) (msg : Bytes) (now : UInt32) : Option Peer :=
  if !p.handshakeMac1Valid then none
  else
    (c.xaeadDecrypt p.labelCookieKey (slice msg 8 24) p.handshakeMac1 (slice msg 32 32)).map fun cookie =>
      { p with cookie := cookie, cookieMillis := now, handshakeMac1Valid := false }

def clampPrivateKey (key : Bytes) : Bytes :=
  (key.set 0 (key.getD 0 0 &&& 248)).set 31 ((key.getD 31 0 &&& 127) ||| 64)

def generatePublicKey (c : Crypto) (private_ : Bytes) : Bytes × Bool :=
  if private_ = zeroKey then (zeroKey, false) else c.x25519 private_ (9 :: List.replicate 31 0)

/-- What the creation of a handshake message draws and reads: `index` is the one that
`wireguard_generate_unique_index` ends with. -/
structure Draw where
  private_ : Bytes
  index : UInt32
  timestamp : Bytes
  cookieAt : UInt32

/-- `mac1` and `mac2` after the rest of a message. -/
def withMacs (c : Crypto) (p : Peer) (r : Draw) (msg : Bytes) : Bytes :=
  let msg := msg ++ c.mac p.labelMac1Key msg
  msg ++ if p.cookieMillis = 0 ∨ wireguardExpired r.cookieAt p.cookieMillis cookieSecretMaxAge
    then List.replicate 16 0 else c.mac p.cookie msg

/-- The peer, and the message when there is one. -/
def wireguardCreateHandshakeInitiation (c : Crypto) (d : Device) (r : Draw) : Peer × Option Bytes :=
  let p := d.peer
  let h := { p.handshake with
    chainingKey := constructionHash c
    hash := c.mixHash (identifierHash c) p.publicKey
    ephemeralPrivate := clampPrivateKey r.private_ }
  let (ephemeral, ok) := generatePublicKey c h.ephemeralPrivate
  if !ok then ({ p with handshake := h }, none)
  else
    let h := { h with chainingKey := c.kdf1 h.chainingKey ephemeral, hash := c.mixHash h.hash ephemeral }
    let dh := (c.x25519 h.ephemeralPrivate p.publicKey).1
    if dh = zeroKey then ({ p with handshake := h }, none)
    else
      let (chainingKey, key) := c.kdf2 h.chainingKey dh
      let encStatic := c.aeadEncrypt key 0 h.hash d.publicKey
      let hash := c.mixHash h.hash encStatic
      let (chainingKey, key) := c.kdf2 chainingKey p.publicKeyDh
      let encTimestamp := c.aeadEncrypt key 0 hash r.timestamp
      let h := { h with
        chainingKey := chainingKey, hash := c.mixHash hash encTimestamp
        valid := true, initiator := true, localIndex := r.index }
      let p := { p with handshake := h }
      (p, some (withMacs c p r ([1, 0, 0, 0] ++ le32 r.index ++ ephemeral ++ encStatic ++ encTimestamp)))

def wireguardCreateHandshakeResponse (c : Crypto) (d : Device) (r : Draw) : Peer × Option Bytes :=
  let p := d.peer
  let h := p.handshake
  if !h.valid || h.initiator then (p, none)
  else
    let h := { h with ephemeralPrivate := clampPrivateKey r.private_ }
    let (ephemeral, ok) := generatePublicKey c h.ephemeralPrivate
    if !ok then ({ p with handshake := h }, none)
    else
      let h := { h with chainingKey := c.kdf1 h.chainingKey ephemeral, hash := c.mixHash h.hash ephemeral }
      let dh := (c.x25519 h.ephemeralPrivate h.remoteEphemeral).1
      if dh = zeroKey then ({ p with handshake := h }, none)
      else
        let h := { h with chainingKey := c.kdf1 h.chainingKey dh }
        let dh := (c.x25519 h.ephemeralPrivate p.publicKey).1
        if dh = zeroKey then ({ p with handshake := h }, none)
        else
          let (chainingKey, tau, key) := c.kdf3 (c.kdf1 h.chainingKey dh) p.presharedKey
          let hash := c.mixHash h.hash tau
          let encEmpty := c.aeadEncrypt key 0 hash []
          let h := { h with
            chainingKey := chainingKey
            hash := c.mixHash hash encEmpty
            localIndex := r.index }
          let p := { p with handshake := h }
          (p, some (withMacs c p r
            ([2, 0, 0, 0] ++ le32 r.index ++ le32 h.remoteIndex ++ ephemeral ++ encEmpty)))

def wireguardDeviceInit (c : Crypto) (private_ secret : Bytes) (now : UInt32) : Option Device :=
  let (publicKey, valid) := generatePublicKey c private_
  if !valid then none
  else
    some {
      privateKey := clampPrivateKey private_, publicKey := publicKey, valid := true
      cookieSecret := secret, cookieSecretMillis := now
      labelMac1Key := c.macKey publicKey "mac1----".toUTF8.toList
      labelCookieKey := c.macKey publicKey "cookie--".toUTF8.toList }

def wireguardPeerInit (c : Crypto) (d : Device) (publicKey presharedKey : Bytes) : Option Peer :=
  let (publicKeyDh, ok) := c.x25519 d.privateKey publicKey
  if !d.valid || !ok then none
  else
    some {
      publicKey := publicKey, presharedKey := presharedKey, publicKeyDh := publicKeyDh, valid := true
      labelMac1Key := c.macKey publicKey "mac1----".toUTF8.toList
      labelCookieKey := c.macKey publicKey "cookie--".toUTF8.toList }

/-- Some keypair of the peer holds a session. -/
def Peer.HasSession (p : Peer) : Prop := p.curr.valid = true ∨ p.next.valid = true ∨ p.prev.valid = true

theorem lookup_after_update {p : Peer} {idx : UInt32} {slot : Slot}
    (found : getPeerKeypairForIdx p idx = some slot) :
    (getPeerKeypairForIdx (keypairUpdate p slot) idx).isSome = true := by
  by_cases next : slot = .next
  · subst next
    simp only [getPeerKeypairForIdx] at found
    split at found
    · cases found
    · split at found
      · next _ match_ => simp [keypairUpdate, getPeerKeypairForIdx, match_]
      · split at found <;> cases found
  · simp [keypairUpdate, next, found]

theorem checkReplay_same (k : Keypair) (seq : UInt64) :
    (wireguardCheckReplay k seq).1.valid = k.valid ∧
      (wireguardCheckReplay k seq).1.localIndex = k.localIndex := by
  simp only [wireguardCheckReplay]
  repeat' split
  all_goals exact ⟨rfl, rfl⟩

theorem lookup_slot {p : Peer} {idx : UInt32} {slot : Slot} (found : getPeerKeypairForIdx p idx = some slot) :
    (p.keypair slot).valid = true := by
  simp only [getPeerKeypairForIdx] at found
  split at found
  · next curr => cases found; exact curr.1
  · split at found
    · next next_ => cases found; exact next_.1
    · split at found
      · next prev => cases found; exact prev.1
      · cases found

theorem lookup_congr {p p' : Peer} (idx : UInt32)
    (same : ∀ slot, (p'.keypair slot).valid = (p.keypair slot).valid ∧
      (p'.keypair slot).localIndex = (p.keypair slot).localIndex) :
    getPeerKeypairForIdx p' idx = getPeerKeypairForIdx p idx := by
  have curr : p'.curr.valid = p.curr.valid ∧ p'.curr.localIndex = p.curr.localIndex := same .curr
  have next : p'.next.valid = p.next.valid ∧ p'.next.localIndex = p.next.localIndex := same .next
  have prev : p'.prev.valid = p.prev.valid ∧ p'.prev.localIndex = p.prev.localIndex := same .prev
  simp only [getPeerKeypairForIdx, curr, next, prev]

theorem lookup_set {p : Peer} {idx : UInt32} {slot : Slot} {k : Keypair}
    (valid : k.valid = (p.keypair slot).valid)
    (index : k.localIndex = (p.keypair slot).localIndex) :
    getPeerKeypairForIdx (p.setKeypair slot k) idx = getPeerKeypairForIdx p idx := by
  apply lookup_congr
  intro at_
  cases slot <;> cases at_ <;> first | exact ⟨rfl, rfl⟩ | exact ⟨valid, index⟩

/-- The messages of a handshake do not touch the keypairs. -/
def SameKeys (p p' : Peer) : Prop :=
  p'.curr = p.curr ∧ p'.next = p.next ∧ p'.prev = p.prev ∧ p'.sessions = p.sessions

variable (c : Crypto) (d : Device)

theorem createInitiation_keys (r : Draw) : SameKeys d.peer (wireguardCreateHandshakeInitiation c d r).1 := by
  simp only [wireguardCreateHandshakeInitiation]
  split
  · exact ⟨rfl, rfl, rfl, rfl⟩
  · split <;> exact ⟨rfl, rfl, rfl, rfl⟩

theorem createResponse_keys (r : Draw) : SameKeys d.peer (wireguardCreateHandshakeResponse c d r).1 := by
  simp only [wireguardCreateHandshakeResponse]
  split
  · exact ⟨rfl, rfl, rfl, rfl⟩
  · split
    · exact ⟨rfl, rfl, rfl, rfl⟩
    · split
      · exact ⟨rfl, rfl, rfl, rfl⟩
      · split <;> exact ⟨rfl, rfl, rfl, rfl⟩

variable {c d} {msg : Bytes} {p : Peer} {now : UInt32}

theorem processInitiation_keys (taken : wireguardProcessInitiationMessage c d msg now = some p) :
    SameKeys d.peer p := by
  simp only [wireguardProcessInitiationMessage] at taken
  repeat' split at taken
  all_goals cases taken
  exact ⟨rfl, rfl, rfl, rfl⟩

theorem processResponse_keys (taken : wireguardProcessHandshakeResponse c d msg = some p) :
    SameKeys d.peer p := by
  simp only [wireguardProcessHandshakeResponse] at taken
  repeat' split at taken
  all_goals cases taken
  exact ⟨rfl, rfl, rfl, rfl⟩

theorem processCookie_keys {p' : Peer} (taken : wireguardProcessCookieMessage c p msg now = some p') :
    SameKeys p p' := by
  simp only [wireguardProcessCookieMessage] at taken
  split at taken
  · cases taken
  · obtain ⟨_, _, rfl⟩ := Option.map_eq_some_iff.mp taken
    exact ⟨rfl, rfl, rfl, rfl⟩

end R2Apps.WireGuardPeer
