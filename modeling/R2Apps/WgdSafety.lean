import R2Apps.WgdEngine
import R2Apps.WireGuardWindows

/-! What the daemon lets through, over every run of its three calls: the packets it hands
to the kernel, the plaintexts it sends, the pending packet, and the datagrams that change
nothing. The log of the run is looked at event by event, each with what came before it;
`door` is what it says of the datagram that is being received. -/
namespace R2Apps.WgdSafety
open EthernetReceive InternetChecksums PrefixRoutes WgdSettings WireGuardPeer WireGuardWindows WgdEngine
open KernelTunnel (addressAt byte half)

variable {c : Crypto} {cfg : WgdConfig} {wg : Wgd}

section Packets

/-- A packet that is not a fragment, as long as it says, with a header that verifies. -/
structure WholePacket (p : Bytes) : Prop where
  version : byte p 0 >>> 4 = 4
  header : 20 ≤ (byte p 0 &&& 15).toNat * 4
  fits : (byte p 0 &&& 15).toNat * 4 ≤ p.length
  total : half p 2 = p.length
  unfragmented : byte p 6 &&& 0xbf = 0 ∧ byte p 7 = 0
  checksum : Verifies (p.take ((byte p 0 &&& 15).toNat * 4))

theorem byte_take {p : Bytes} {total i : Nat} (inside : i < total) : byte (p.take total) i = byte p i := by
  simp [byte, List.getD_eq_getElem?_getD, inside]

theorem half_take {p : Bytes} {total i : Nat} (inside : i + 1 < total) :
    half (p.take total) i = half p i := by
  rw [half, half, byte_take (by omega), byte_take inside]

theorem addressAt_take {p : Bytes} {total i : Nat} (inside : i + 3 < total) :
    addressAt (p.take total) i = addressAt p i := by
  ext b bound
  have : i + b < total := by omega
  simp [addressAt, List.getD_eq_getElem?_getD, this]

theorem wgdIpv4_whole {p : Bytes} {total ihl : Nat} (read : wgdIpv4 p = some (total, ihl)) :
    total ≤ p.length ∧ 20 ≤ ihl ∧ ihl ≤ total ∧ WholePacket (p.take total) := by
  simp only [wgdIpv4] at read
  split at read
  · cases read
  · next start =>
      split at read
      · next fine =>
          cases read
          obtain ⟨header, fits, least, whole, flags, offset, _, sum⟩ := fine
          have version : byte p 0 >>> 4 = 4 := Classical.not_not.mp (not_or.mp start).2
          have first : byte (p.take (half p 2)) 0 = byte p 0 := byte_take (by omega)
          have cut : (p.take (half p 2)).length = half p 2 := List.length_take_of_le whole
          have small : (byte p 0 &&& 15).toNat ≤ 15 := by
            rw [UInt8.toNat_and]
            exact Nat.and_le_right
          refine ⟨whole, header, least, ?_⟩
          constructor
          · rw [first]
            exact version
          · rw [first]
            exact header
          · rw [first, cut]
            exact least
          · rw [half_take (by omega), cut]
          · rw [byte_take (by omega), byte_take (by omega)]
            exact ⟨flags, offset⟩
          · rw [first, List.take_take, Nat.min_eq_left least]
            refine (inetCksum_zero _ ?_).mp sum
            rw [List.length_take_of_le fits]
            omega
      · cases read

end Packets

/-- A packet for the kernel, in a plaintext. -/
structure Injected (cfg : WgdConfig) (packet plain : Bytes) : Prop where
  inside : packet <+: plain
  whole : WholePacket packet
  short : packet.length ≤ 1420
  source : wgdAllowed cfg (addressAt packet 12) = true
  foreign : addressAt packet 12 ≠ cfg.address
  target : addressAt packet 16 = cfg.address
  protocol : byte packet 9 = 6 ∨ byte packet 9 = 1

/-- A packet for the tunnel. -/
structure Outgoing (cfg : WgdConfig) (packet : Bytes) : Prop where
  whole : WholePacket packet
  short : packet.length ≤ 1420
  source : addressAt packet 12 = cfg.address
  foreign : addressAt packet 16 ≠ cfg.address
  target : wgdAllowed cfg (addressAt packet 16) = true

/-- The packet that was held and not sent since. -/
def keep (w : Option Bytes) : Event → Option Bytes
  | .hold ip => some ip
  | .transport .pending _ true => none
  | _ => w

def waiting (log : List Event) : Option Bytes := log.foldl keep none

/-- What `transport` may be given. -/
def Entitled (cfg : WgdConfig) (held : Option Bytes) : Origin → Bytes → Prop
  | .sendIp, ip => Outgoing cfg ip
  | .pending, ip => Outgoing cfg ip ∧ held = some ip
  | _, _ => True

/-- The datagram that the current call is for, whether it has been taken in, and the
plaintext that has not been passed on yet. -/
structure Door where
  arrival : Option (Device × Ip4 × UInt16 × Bytes) := none
  taken : Bool := false
  opened : Option (Bytes × Keypair × Bytes) := none

def Door.after (x : Door) : Event → Door
  | .received device ip port datagram => { arrival := some (device, ip, port, datagram) }
  | .called => {}
  | .greeted => { x with taken := true }
  | .opened datagram keypair plain => { x with taken := true, opened := some (datagram, keypair, plain) }
  | .inject _ _ _ => { x with opened := none }
  | _ => x

def door (log : List Event) : Door := log.foldl Door.after {}

/-- The counters that the session of this number has let in. -/
def Used (log : List Event) (n : Nat) (counter : UInt64) : Prop :=
  ∃ datagram keypair plain, .opened datagram keypair plain ∈ log ∧ keypair.number = n ∧
    le64At datagram 8 = counter

/-- The data message opens with the keypair of the peer that it names, under its own counter. -/
structure Opens (c : Crypto) (p : Peer) (datagram : Bytes) (keypair : Keypair) (plain : Bytes) : Prop where
  found : ∃ slot, getPeerKeypairForIdx p (le32At datagram 4) = some slot ∧ keypair = p.keypair slot
  receiving : keypair.receivingValid = true
  counter : le64At datagram 8 < rejectAfterMessages
  decrypted : c.aeadDecrypt keypair.receivingKey (le64At datagram 8) [] (datagram.drop 16) = some plain

/-- The message of a handshake is for this device, and `wireguard.c` takes it. -/
def Greets (c : Crypto) (d : Device) (ip : Ip4) (port : UInt16) (datagram : Bytes) : Prop :=
  let n := datagram.length
  let mac1 := wireguardCheckMac1 c d (datagram.take (n - 32)) (slice datagram (n - 32) 16) = true
  match wireguardGetMessageType datagram with
  | .handshakeInitiation => mac1 ∧ ∃ now, (wireguardProcessInitiationMessage c d datagram now).isSome = true
  | .handshakeResponse =>
      mac1 ∧ le32At datagram 8 = d.peer.handshake.localIndex ∧
        (wireguardProcessHandshakeResponse c d datagram).isSome = true
  | .cookieReply =>
      le32At datagram 4 = d.peer.handshake.localIndex ∧ ip = d.peer.ip ∧ port = d.peer.port ∧
        ∃ now, (wireguardProcessCookieMessage c d.peer datagram now).isSome = true
  | _ => False

/-- The peer sealed the datagram, and this session has not let its counter in. -/
def Authentic (c : Crypto) (wg : Wgd) (ip : Ip4) (port : UInt16) (datagram : Bytes) : Prop :=
  Greets c wg.device ip port datagram ∨ ∃ keypair plain, Opens c wg.device.peer datagram keypair plain ∧
    ¬ Used wg.log keypair.number (le64At datagram 8)

/-- The plaintext is that of the datagram being received, and has not been passed on. -/
def Delivered (c : Crypto) (before : List Event) (plain : Bytes) : Prop :=
  ∃ device ip port datagram keypair, door before =
      { arrival := some (device, ip, port, datagram)
        taken := true
        opened := some (datagram, keypair, plain) } ∧
    Opens c device.peer datagram keypair plain

/-- What an event may be after the events before it. -/
def Good (c : Crypto) (cfg : WgdConfig) (before : List Event) : Event → Prop
  | .greeted => ∃ device ip port datagram, (door before).arrival = some (device, ip, port, datagram) ∧
      Greets c device ip port datagram
  | .opened datagram keypair plain =>
    (∃ device ip port, (door before).arrival = some (device, ip, port, datagram) ∧
      Opens c device.peer datagram keypair plain) ∧ ¬ Used before keypair.number (le64At datagram 8)
  | .inject packet plain _ => Injected cfg packet plain ∧ Delivered c before plain
  | .transport origin ip sent =>
    Entitled cfg (waiting before) origin ip ∧ (sent = true → Event.session ∈ before)
  | .hold ip => waiting before = none ∧ Outgoing cfg ip
  | .fault => False
  | _ => True

def Lawful (c : Crypto) (cfg : WgdConfig) (log : List Event) : Prop :=
  ∀ before e after, log = before ++ e :: after → Good c cfg before e

section Logs

variable {log : List Event} {e : Event}

@[simp] theorem waiting_snoc : waiting (log ++ [e]) = keep (waiting log) e := by
  simp [waiting]

@[simp] theorem door_snoc : door (log ++ [e]) = (door log).after e := by
  simp [door]

theorem used_snoc {n : Nat} {counter : UInt64} : Used (log ++ [e]) n counter ↔ Used log n counter ∨
    ∃ datagram keypair plain, e = .opened datagram keypair plain ∧ keypair.number = n ∧
      le64At datagram 8 = counter := by
  simp only [Used, List.mem_append, List.mem_singleton]
  constructor
  · rintro ⟨datagram, keypair, plain, old | rfl, number, same⟩
    · exact .inl ⟨datagram, keypair, plain, old, number, same⟩
    · exact .inr ⟨datagram, keypair, plain, rfl, number, same⟩
  · rintro (⟨datagram, keypair, plain, old, number, same⟩ | ⟨datagram, keypair, plain, rfl, number, same⟩)
    · exact ⟨datagram, keypair, plain, .inl old, number, same⟩
    · exact ⟨datagram, keypair, plain, .inr rfl, number, same⟩

theorem lawful_snoc (lawful : Lawful c cfg log) (good : Good c cfg log e) : Lawful c cfg (log ++ [e]) := by
  intro before e' after split
  rcases List.eq_nil_or_concat after with rfl | ⟨rest, last, rfl⟩
  · have ⟨same, lasts⟩ := List.append_inj' split rfl
    cases lasts
    exact same ▸ good
  · have split : log ++ [e] = (before ++ e' :: rest) ++ [last] := by simpa using split
    have ⟨same, _⟩ := List.append_inj' split rfl
    exact lawful before e' rest same

end Logs

variable {x : Door}

/-- What holds after every call; `x` is what the log says of the datagram. -/
structure Inv (c : Crypto) (cfg : WgdConfig) (x : Door) (wg : Wgd) : Prop where
  config : wg.config = cfg
  lawful : Lawful c cfg wg.log
  session : wg.device.peer.HasSession → Event.session ∈ wg.log
  pending : waiting wg.log = if wg.pending = [] then none else some wg.pending
  outgoing : wg.pending ≠ [] → Outgoing cfg wg.pending
  windows : Windows (Used wg.log) wg.device.peer
  door : door wg.log = x

theorem Inv.same {wg' : Wgd} (inv : Inv c cfg x wg) (config : wg'.config = wg.config) (log : wg'.log = wg.log)
    (pending : wg'.pending = wg.pending) (peer : Fewer wg'.device.peer wg.device.peer) : Inv c cfg x wg' := by
  constructor
  · exact config.trans inv.config
  · exact log ▸ inv.lawful
  · exact fun has => log ▸ inv.session (peer.session has)
  · rw [log, pending]
    exact inv.pending
  · rw [pending]
    exact inv.outgoing
  · rw [log]
    exact windows_fewer inv.windows peer
  · exact log ▸ inv.door

/-- An event that is not about the datagram or the packet that waits. -/
def Aside : Event → Prop
  | .send .. | .event _ | .session => True
  | .transport origin _ sent => origin ≠ .pending ∨ sent = false
  | _ => False

theorem windows_note {log : List Event} {e : Event} {p : Peer} (windows : Windows (Used log) p)
    (closed : ∀ datagram keypair plain, e ≠ .opened datagram keypair plain) :
    Windows (Used (log ++ [e])) p := by
  have same : Used (log ++ [e]) = Used log := by
    funext n counter
    rw [used_snoc, eq_iff_iff]
    refine or_iff_left ?_
    rintro ⟨datagram, keypair, plain, is, _⟩
    exact closed datagram keypair plain is
  rw [same]
  exact windows

theorem Inv.note (inv : Inv c cfg x wg) {e : Event} (good : Good c cfg wg.log e)
    (kept : keep (waiting wg.log) e = waiting wg.log)
    (closed : ∀ datagram keypair plain, e ≠ .opened datagram keypair plain) :
    Inv c cfg (x.after e) (wg.note e) := by
  constructor
  · exact inv.config
  · exact lawful_snoc inv.lawful good
  · exact fun has => List.mem_append_left _ (inv.session has)
  · exact waiting_snoc.trans (kept.trans inv.pending)
  · exact inv.outgoing
  · exact windows_note inv.windows closed
  · rw [← inv.door]
    exact door_snoc

theorem Inv.aside (inv : Inv c cfg x wg) {e : Event} (good : Good c cfg wg.log e) (aside : Aside e) :
    Inv c cfg x (wg.note e) := by
  have kept : keep (waiting wg.log) e = waiting wg.log := by
    cases e with
    | transport origin ip sent =>
        rcases aside with other | rfl
        · cases origin <;> first | rfl | exact absurd rfl other
        · cases origin <;> rfl
    | send | event | session => rfl
    | _ => cases aside
  have stays : x.after e = x := by
    cases e with
    | transport | send | event | session => rfl
    | _ => cases aside
  have noted := inv.note good kept (by rintro datagram keypair plain rfl; cases aside)
  rwa [stays] at noted

theorem Inv.session_note (inv : Inv c cfg x wg) {p : Peer} (windows : Windows (Used wg.log) p) :
    Inv c cfg x ((wg.setPeer p).note .session) := by
  constructor
  · exact inv.config
  · exact lawful_snoc inv.lawful trivial
  · exact fun _ => List.mem_append_right _ (List.mem_singleton.mpr rfl)
  · exact waiting_snoc.trans inv.pending
  · exact inv.outgoing
  · exact windows_note windows (by rintro _ _ _ ⟨⟩)
  · exact door_snoc.trans inv.door

theorem Inv.event (inv : Inv c cfg x wg) (text : String) : Inv c cfg x (wg.note (.event text)) :=
  inv.aside trivial trivial

theorem Inv.drop (inv : Inv c cfg x wg) : Inv c cfg x wg.drop := inv.same rfl rfl rfl (Fewer.refl _)

theorem sendTo_inv (inv : Inv c cfg x wg) (ip : Ip4) (port : UInt16) (data : Bytes) (ok : Bool) :
    Inv c cfg x (sendTo wg ip port data ok).1 := by
  simp only [sendTo]
  split
  · exact inv
  · exact inv.aside trivial trivial

section Transport

/-- What a call of `transport` leaves, and what it tells the log. -/
structure Transported (wg wg' : Wgd) (origin : Origin) (ip : Bytes) (sent : Bool) : Prop where
  config : wg'.config = wg.config
  pending : wg'.pending = wg.pending
  log : ∃ inner : Wgd, (inner = wg ∨ ∃ dst port data ok, inner = wg.note (.send dst port data ok)) ∧
    wg'.log = inner.log ++ [.transport origin ip sent]
  peer : Fewer wg'.device.peer wg.device.peer
  valid : sent = true → wg.device.peer.curr.valid = true

theorem spent_fewer (t : Sending) (p : Peer) (sent : Bool) : Fewer (spent t p sent) p := by
  refine ⟨rfl, fun slot valid => ?_⟩
  cases slot with
  | curr => cases sent <;> exact ⟨valid, rfl, rfl, rfl⟩
  | next | prev => exact Like.self valid

theorem transport_does (c : Crypto) (t : Sending) (origin : Origin) (wg : Wgd) (ip : Bytes) :
    Transported wg (transport c t origin wg ip).1 origin ip (transport c t origin wg ip).2 := by
  by_cases ready : usable t wg.device.peer.curr = true
  · have valid : wg.device.peer.curr.valid = true := by
      simp only [usable, Bool.and_eq_true] at ready
      exact ready.1.1.1
    simp only [transport, ready, Bool.not_true, Bool.false_eq_true, if_false]
    -- the two ways through `send_to`, and the counter of packets
    have inner : ∀ inner : Wgd, ∀ sent : Bool, inner.config = wg.config → inner.pending = wg.pending →
        (inner = wg ∨ ∃ dst port data ok, inner = wg.note (.send dst port data ok)) →
        Transported wg (((if sent ∧ ip ≠ [] then { inner with txPackets := inner.txPackets + 1 }
          else inner).setPeer (spent t wg.device.peer sent)).note
            (.transport origin ip sent)) origin ip sent := by
      intro inner sent config pending which
      by_cases counted : sent ∧ ip ≠ []
      · rw [if_pos counted]
        exact ⟨config, pending, ⟨inner, which, rfl⟩, spent_fewer t _ sent, fun _ => valid⟩
      · rw [if_neg counted]
        exact ⟨config, pending, ⟨inner, which, rfl⟩, spent_fewer t _ sent, fun _ => valid⟩
    rw [sendTo]
    split
    · exact inner wg false rfl rfl (.inl rfl)
    · exact inner _ t.ok rfl rfl (.inr ⟨_, _, _, _, rfl⟩)
  · simp only [transport, ready]
    exact ⟨rfl, rfl, ⟨wg, .inl rfl, rfl⟩, Fewer.refl _, fun h => by cases h⟩

variable {wg' : Wgd} {origin : Origin} {ip : Bytes} {sent : Bool}

theorem transported_log (inv : Inv c cfg x wg) (did : Transported wg wg' origin ip sent)
    (entitled : Entitled cfg (waiting wg.log) origin ip) :
    Lawful c cfg wg'.log ∧ waiting wg'.log = keep (waiting wg.log) (.transport origin ip sent) ∧
      (∀ e ∈ wg.log, e ∈ wg'.log) ∧ Windows (Used wg'.log) wg'.device.peer ∧ door wg'.log = x := by
  obtain ⟨inner, which, log⟩ := did.log
  have before : Inv c cfg x inner ∧ waiting inner.log = waiting wg.log ∧ (∀ e ∈ wg.log, e ∈ inner.log) ∧
      inner.device = wg.device := by
    rcases which with rfl | ⟨dst, port, data, ok, rfl⟩
    · exact ⟨inv, rfl, fun e h => h, rfl⟩
    · exact ⟨inv.aside trivial trivial, waiting_snoc, fun e h => List.mem_append_left _ h, rfl⟩
  obtain ⟨good, same, older, device⟩ := before
  have peer : Fewer wg'.device.peer inner.device.peer := device ▸ did.peer
  rw [log]
  refine ⟨lawful_snoc good.lawful ⟨same ▸ entitled, ?_⟩, ?_, ?_, ?_, ?_⟩
  · intro yes
    exact older _ (inv.session (.inl (did.valid yes)))
  · rw [waiting_snoc, same]
  · intro e member
    exact List.mem_append_left _ (older e member)
  · exact windows_fewer (windows_note good.windows (by rintro _ _ _ ⟨⟩)) peer
  · exact door_snoc.trans good.door

theorem transported_inv (inv : Inv c cfg x wg) (did : Transported wg wg' origin ip sent)
    (entitled : Entitled cfg (waiting wg.log) origin ip) (other : origin ≠ .pending ∨ sent = false) :
    Inv c cfg x wg' := by
  have ⟨lawful, kept, older, windows, at_door⟩ := transported_log inv did entitled
  have same : keep (waiting wg.log) (.transport origin ip sent) = waiting wg.log := by
    rcases other with other | other
    · cases origin with
      | pending => exact absurd rfl other
      | keepalive => rfl
      | echo => rfl
      | sendIp => rfl
    · subst other
      cases origin <;> rfl
  constructor
  · exact did.config.trans inv.config
  · exact lawful
  · exact fun has => older _ (inv.session (did.peer.session has))
  · rw [kept, same, did.pending]
    exact inv.pending
  · rw [did.pending]
    exact inv.outgoing
  · exact windows
  · exact at_door

theorem transport_inv (inv : Inv c cfg x wg) (t : Sending) (origin : Origin) (ip : Bytes)
    (entitled : Entitled cfg (waiting wg.log) origin ip) (other : origin ≠ .pending) :
    Inv c cfg x (transport c t origin wg ip).1 :=
  transported_inv inv (transport_does c t origin wg ip) entitled (.inl other)

theorem established_inv (inv : Inv c cfg x wg) (t : Sending) : Inv c cfg x (established c t wg) := by
  have noted : Inv c cfg x (if wg.established then wg
      else { wg with established := true }.note (.event "session established")) := by
    split
    · exact inv
    · exact (inv.same rfl rfl rfl (Fewer.refl _) : Inv c cfg x { wg with established := true }).event _
  simp only [established]
  generalize (if wg.established then wg
      else { wg with established := true }.note (.event "session established")) = wg₁ at noted ⊢
  split
  · exact noted
  · next held =>
      have did := transport_does c t .pending wg₁ wg₁.pending
      have entitled : Entitled cfg (waiting wg₁.log) .pending wg₁.pending := by
        refine ⟨noted.outgoing held, ?_⟩
        rw [noted.pending, if_neg held]
      split
      · next wg₂ result =>
          rw [result] at did
          have ⟨lawful, kept, older, windows, at_door⟩ := transported_log noted did entitled
          constructor
          · exact did.config.trans noted.config
          · exact lawful
          · exact fun has => older _ (noted.session (did.peer.session has))
          · exact kept
          · exact fun held => absurd rfl held
          · exact windows
          · exact at_door
      · next wg₂ result =>
          rw [result] at did
          exact transported_inv noted did entitled (.inr rfl)

end Transport

theorem initiate_inv (inv : Inv c cfg x wg) (t : Initiating) : Inv c cfg x (initiate c t wg) := by
  have keys := createInitiation_keys c wg.device t.draw
  simp only [initiate]
  split
  · exact inv
  · split
    · next p none_ =>
        rw [none_] at keys
        exact inv.same rfl rfl rfl (SameKeys.fewer keys)
    · next p msg created =>
        rw [created] at keys
        have started : Inv c cfg x (wg.setPeer { p with lastInitiationTx := t.startedAt }) :=
          inv.same rfl rfl rfl (SameKeys.fewer keys)
        exact sendTo_inv started _ _ _ _

theorem endpoint_fewer (p : Peer) (ip : Ip4) (port : UInt16) : Fewer (endpoint p ip port) p :=
  ⟨rfl, fun slot valid => by cases slot <;> exact Like.self valid⟩

theorem asked_fewer (p : Peer) (ask : Bool) : Fewer { p with sendHandshake := ask } p :=
  ⟨rfl, fun slot valid => by cases slot <;> exact Like.self valid⟩

theorem stamped_fewer (p : Peer) (now : UInt32) (ip : Ip4) (port : UInt16) :
    Fewer (endpoint { p with lastRx := now } ip port) p :=
  ⟨rfl, fun slot valid => by cases slot <;> exact Like.self valid⟩

section Receive

variable {a : Arrival} {ip : Ip4} {port : UInt16} {data : Bytes}

/-- The state without the counters of what was refused, the window of the rate limit, the
secret that cookies are made of, and the log. -/
def kept (wg : Wgd) : Wgd :=
  { wg with
    drops := 0, replays := 0, rateAt := 0, rateCount := 0, log := []
    device := { wg.device with cookieSecret := [], cookieSecretMillis := 0 } }

/-- The device without that secret. -/
def keptDevice (d : Device) : Device := { d with cookieSecret := [], cookieSecretMillis := 0 }

theorem kept_device {wg : Wgd} {d : Device} (same : keptDevice d = keptDevice wg.device) :
    kept { wg with device := d } = kept wg :=
  congrArg (fun d => { kept wg with device := d }) same

theorem cookie_kept (d : Device) (t : SecretTurn) (source : Bytes) :
    keptDevice (generatePeerCookie c d t source).1 = keptDevice d := by
  simp only [generatePeerCookie]
  split <;> rfl

theorem checkMac2_kept {d d' : Device} {t : SecretTurn} {data source mac2 : Bytes} {ok : Bool}
    (checked : wireguardCheckMac2 c d t data source mac2 = (d', ok)) : keptDevice d' = keptDevice d := by
  have same : (generatePeerCookie c d t source).1 = d' := congrArg Prod.fst checked
  exact same ▸ cookie_kept d t source

theorem sendTo_kept (wg : Wgd) (dst : Ip4) (port : UInt16) (data : Bytes) (ok : Bool) :
    kept (sendTo wg dst port data ok).1 = kept wg := by
  rw [sendTo]
  split <;> rfl

theorem Inv.device (inv : Inv c cfg x wg) {d : Device} (same : keptDevice d = keptDevice wg.device) :
    Inv c cfg x { wg with device := d } := by
  have peer : (keptDevice d).peer = (keptDevice wg.device).peer := congrArg Device.peer same
  have same : d.peer = wg.device.peer := peer
  exact inv.same rfl rfl rfl (same ▸ Fewer.refl _)

/-- A state that the guards may leave behind. -/
def Guarded (c : Crypto) (cfg : WgdConfig) (x : Door) (wg wg' : Wgd) : Prop :=
  Inv c cfg x wg' ∧ kept wg' = kept wg

theorem counted_kept (inv : Inv c cfg x wg) : Guarded c cfg x wg (counted a wg) := by
  simp only [counted]
  split <;> exact ⟨inv.same rfl rfl rfl (Fewer.refl _), rfl⟩

variable (a ip port data) in
theorem checkCookie_kept (inv : Inv c cfg x wg) : Guarded c cfg x wg (checkCookie c a wg ip port data).1 := by
  simp only [checkCookie]
  split
  · next d valid =>
      have same := checkMac2_kept valid
      exact ⟨inv.device same, kept_device same⟩
  · next d invalid =>
      have same := checkMac2_kept invalid
      have replied := (cookie_kept (c := c) d a.cookie
        (ip.toList ++ [(port >>> 8).toUInt8, port.toUInt8])).trans same
      exact ⟨sendTo_inv (inv.device replied) _ _ _ _, (sendTo_kept _ _ _ _ _).trans (kept_device replied)⟩

variable (a ip port data) in
theorem checkHandshake_kept (inv : Inv c cfg x wg) :
    Guarded c cfg x wg (checkHandshake c a wg ip port data).1 := by
  have ⟨inv', same⟩ := counted_kept (a := a) inv
  simp only [checkHandshake]
  split
  · exact ⟨inv, rfl⟩
  · split
    · exact ⟨inv', same⟩
    · split
      · have ⟨inv'', same'⟩ := checkCookie_kept a ip port data inv'
        exact ⟨inv'', same'.trans same⟩
      · exact ⟨inv', same⟩

theorem checkHandshake_mac1 (passed : (checkHandshake c a wg ip port data).2 = true) :
    wireguardCheckMac1 c wg.device (data.take (data.length - 32)) (slice data (data.length - 32) 16) =
      true := by
  simp only [checkHandshake] at passed
  split at passed
  · cases passed
  · next fine => simpa using fine

theorem processInitiation_congr {d d' : Device} (same : keptDevice d' = keptDevice d) (now : UInt32) :
    wireguardProcessInitiationMessage c d' data now = wireguardProcessInitiationMessage c d data now := by
  have public_ : (keptDevice d').publicKey = (keptDevice d).publicKey := by rw [same]
  have private_ : (keptDevice d').privateKey = (keptDevice d).privateKey := by rw [same]
  have peer : (keptDevice d').peer = (keptDevice d).peer := by rw [same]
  simp only [keptDevice] at public_ private_ peer
  simp only [wireguardProcessInitiationMessage, public_, private_, peer]

theorem processResponse_congr {d d' : Device} (same : keptDevice d' = keptDevice d) :
    wireguardProcessHandshakeResponse c d' data = wireguardProcessHandshakeResponse c d data := by
  have private_ : (keptDevice d').privateKey = (keptDevice d).privateKey := by rw [same]
  have peer : (keptDevice d').peer = (keptDevice d).peer := by rw [same]
  simp only [keptDevice] at private_ peer
  simp only [wireguardProcessHandshakeResponse, private_, peer]

theorem guarded_device {wg wg' : Wgd} (same : kept wg' = kept wg) :
    keptDevice wg'.device = keptDevice wg.device := by
  have device : (kept wg').device = (kept wg).device := by rw [same]
  exact device

theorem kept_peer {wg wg' : Wgd} (same : kept wg' = kept wg) : wg'.device.peer = wg.device.peer := by
  have peer : (kept wg').device.peer = (kept wg).device.peer := by rw [same]
  exact peer

variable (c cfg ip port data) in
/-- The datagram changes nothing, or is let in as one that the peer sealed. -/
def Handled (wg wg' : Wgd) : Prop :=
  ∃ y, Inv c cfg y wg' ∧ (kept wg' = kept wg ∨ y.taken = true ∧ Authentic c wg ip port data)

theorem greeted_inv {wg' : Wgd} (inv : Inv c cfg x wg')
    (arrived : x.arrival = some (wg.device, ip, port, data))
    (greets : Greets c wg.device ip port data) : Inv c cfg { x with taken := true } (wg'.note .greeted) := by
  have good : Good c cfg wg'.log .greeted := ⟨_, _, _, _, by rw [inv.door]; exact arrived, greets⟩
  exact inv.note good rfl (by rintro _ _ _ ⟨⟩)

theorem receiveInitiation_handled (inv : Inv c cfg x wg)
    (arrived : x.arrival = some (wg.device, ip, port, data))
    (type : wireguardGetMessageType data = .handshakeInitiation) :
    Handled c cfg ip port data wg (receiveInitiation c a wg ip port data) := by
  have ⟨inv', same⟩ := checkHandshake_kept a ip port data inv
  simp only [receiveInitiation]
  split
  · next wg' result =>
      rw [result] at inv' same
      exact ⟨x, inv'.drop, .inl same⟩
  · next wg' result =>
      have mac1 := checkHandshake_mac1 (congrArg Prod.snd result)
      rw [result] at inv' same
      split
      · exact ⟨x, inv'.drop, .inl same⟩
      · next p taken =>
          have greets : Greets c wg.device ip port data := by
            simp only [Greets, type]
            refine ⟨mac1, a.processedAt, ?_⟩
            rw [← processInitiation_congr (guarded_device same), taken]
            rfl
          have noted := greeted_inv inv' arrived greets
          have keys := SameKeys.fewer (processInitiation_keys taken)
          have keys' := createResponse_keys c { wg'.device with peer := p } a.draw
          refine ⟨{ x with taken := true }, ?_, .inr ⟨rfl, .inl greets⟩⟩
          have device : (wg'.note .greeted).device = wg'.device := rfl
          cases created : wireguardCreateHandshakeResponse c { wg'.device with peer := p } a.draw with
          | mk p' response =>
              rw [created] at keys'
              simp only [device, created]
              cases response with
              | none => exact noted.same rfl rfl rfl ((SameKeys.fewer keys').trans keys)
              | some response =>
                  have windows : Windows (Used (wg'.note .greeted).log) p' :=
                    windows_fewer noted.windows ((SameKeys.fewer keys').trans keys)
                  have started := windows_start c
                    (windows_fewer windows (endpoint_fewer p' ip port)) false a.sessionAt
                  apply sendTo_inv
                  have begun := noted.session_note (windows_fewer started (asked_fewer _ false))
                  exact (begun.event "handshake response").same rfl rfl rfl (Fewer.refl _)

theorem receiveResponse_handled (inv : Inv c cfg x wg)
    (arrived : x.arrival = some (wg.device, ip, port, data))
    (type : wireguardGetMessageType data = .handshakeResponse) :
    Handled c cfg ip port data wg (receiveResponse c a wg ip port data) := by
  have ⟨inv', same⟩ := checkHandshake_kept a ip port data inv
  simp only [receiveResponse]
  split
  · next wg' result =>
      rw [result] at inv' same
      exact ⟨x, inv'.drop, .inl same⟩
  · next wg' result =>
      have mac1 := checkHandshake_mac1 (congrArg Prod.snd result)
      rw [result] at inv' same
      split
      · exact ⟨x, inv'.drop, .inl same⟩
      · next ready =>
          split
          · exact ⟨x, inv'.drop, .inl same⟩
          · next p taken =>
              have peer : wg'.device.peer = wg.device.peer := kept_peer same
              have greets : Greets c wg.device ip port data := by
                simp only [Bool.or_eq_true, decide_eq_true_eq, not_or, Classical.not_not] at ready
                simp only [Greets, type]
                refine ⟨mac1, peer ▸ ready.2, ?_⟩
                rw [← processResponse_congr (guarded_device same), taken]
                rfl
              have noted := greeted_inv inv' arrived greets
              have keys := SameKeys.fewer (processResponse_keys taken)
              have windows := windows_fewer noted.windows ((endpoint_fewer p ip port).trans keys)
              have started := windows_fewer (windows_start c windows true a.sessionAt) (asked_fewer _ false)
              have begun := noted.session_note started
              have counted : Inv c cfg { x with taken := true } { ((wg'.note .greeted).setPeer
                  { wireguardStartSession c (endpoint p ip port) true a.sessionAt with
                    sendHandshake := false }).note .session with handshakes := wg'.handshakes + 1 } :=
                begun.same rfl rfl rfl (Fewer.refl _)
              refine ⟨{ x with taken := true }, ?_, .inr ⟨rfl, .inl greets⟩⟩
              exact established_inv (transport_inv counted a.keepalive .keepalive [] trivial (by decide)) _

theorem receiveCookie_handled (inv : Inv c cfg x wg) (arrived : x.arrival = some (wg.device, ip, port, data))
    (type : wireguardGetMessageType data = .cookieReply) :
    Handled c cfg ip port data wg (receiveCookie c a wg ip port data) := by
  simp only [receiveCookie]
  split
  · exact ⟨x, inv.drop, .inl rfl⟩
  · next ready =>
      split
      · exact ⟨x, inv.drop, .inl rfl⟩
      · next p taken =>
          have greets : Greets c wg.device ip port data := by
            simp only [Bool.or_eq_true, decide_eq_true_eq, not_or, Classical.not_not] at ready
            simp only [Greets, type]
            exact ⟨ready.1.1.2, ready.1.2, ready.2, a.processedAt, by rw [taken]; rfl⟩
          have keys := SameKeys.fewer (processCookie_keys taken)
          refine ⟨{ x with taken := true }, ?_, .inr ⟨rfl, .inl greets⟩⟩
          exact (greeted_inv inv arrived greets).same rfl rfl rfl ((asked_fewer p true).trans keys)

theorem injected_of {plain : Bytes} {total ihl : Nat} (read : wgdIpv4 plain = some (total, ihl))
    (fine : refused cfg plain total = false) (protocol : byte plain 9 = 6 ∨ byte plain 9 = 1) :
    Injected cfg (plain.take total) plain := by
  have ⟨inside, header, fits, whole⟩ := wgdIpv4_whole read
  have cut : (plain.take total).length = total := List.length_take_of_le inside
  simp only [refused, Bool.or_eq_false_iff, decide_eq_false_iff_not, Bool.not_eq_false'] at fine
  obtain ⟨⟨⟨⟨⟨⟨short, _⟩, _⟩, _⟩, source⟩, foreign⟩, target⟩ := fine
  constructor
  · exact List.take_prefix _ _
  · exact whole
  · omega
  · rw [addressAt_take (by omega)]
    exact source
  · rw [addressAt_take (by omega)]
    simpa using foreign
  · rw [addressAt_take (by omega)]
    simpa using target
  · rw [byte_take (by omega)]
    exact protocol

theorem inject_inv {plain : Bytes} {total : Nat} (inv : Inv c cfg x wg)
    (good : Injected cfg (plain.take total) plain)
    (delivered : Delivered c wg.log plain) (ok : Bool) :
    Inv c cfg { x with opened := none } (wgdInject wg plain total ok) := by
  have noted : Inv c cfg { x with opened := none } (wg.note (.inject (plain.take total) plain ok)) := by
    have event : Good c cfg wg.log (.inject (plain.take total) plain ok) := ⟨good, delivered⟩
    exact inv.note event rfl (by rintro _ _ _ ⟨⟩)
  simp only [wgdInject]
  split
  · exact noted
  · exact noted.drop

theorem deliver_inv {plain : Bytes} (inv : Inv c cfg x wg) (delivered : Delivered c wg.log plain) :
    ∃ y : Door, y.taken = x.taken ∧ Inv c cfg y (deliver c a wg plain) := by
  simp only [deliver]
  split
  · exact ⟨x, rfl, inv.drop⟩
  · next total ihl read =>
      split
      · exact ⟨x, rfl, inv.drop⟩
      · next fine =>
          have fine : refused cfg plain total = false := by
            rw [← inv.config]
            exact Bool.eq_false_iff.mpr fine
          have taken : Inv c cfg x { wg with
              rxPackets := wg.rxPackets + 1, lastDataRx := a.dataAt, needKeepalive := true } :=
            inv.same rfl rfl rfl (Fewer.refl _)
          split
          · exact ⟨x, rfl, transport_inv taken a.echo .echo _ trivial (by decide)⟩
          · split
            · next icmp =>
                simp only [icmpFits, Bool.and_eq_true, beq_iff_eq] at icmp
                exact ⟨{ x with opened := none }, rfl,
                  inject_inv taken (injected_of read fine (.inr icmp.1.1.1)) delivered _⟩
            · split
              · next tcp =>
                  simp only [tcpFits, Bool.and_eq_true, beq_iff_eq] at tcp
                  exact ⟨{ x with opened := none }, rfl,
                    inject_inv taken (injected_of read fine (.inl tcp.1.1.1)) delivered _⟩
              · exact ⟨x, rfl, taken.drop⟩

theorem openData_found {p : Peer} {slot : Slot} {plain : Bytes}
    (opened : openData c a p data = some (slot, plain)) :
    getPeerKeypairForIdx p (le32At data 4) = some slot ∧ Opens c p data (p.keypair slot) plain := by
  obtain ⟨at_, found, opened⟩ := Option.bind_eq_some_iff.mp opened
  simp only at opened
  split at opened
  · cases opened
  · next fine =>
      obtain ⟨_, decrypted, same⟩ := Option.map_eq_some_iff.mp opened
      cases same
      simp only [Bool.or_eq_true, decide_eq_true_eq, not_or, Bool.not_eq_true', Bool.not_eq_false] at fine
      obtain ⟨⟨⟨receiving, _⟩, counter⟩, _⟩ := fine
      exact ⟨found, ⟨slot, found, rfl⟩, receiving, UInt64.not_le.mp counter, decrypted⟩

theorem opened_inv {slot : Slot} {plain : Bytes} {k : Keypair} (inv : Inv c cfg x wg)
    (arrived : x.arrival = some (wg.device, ip, port, data))
    (opens : Opens c wg.device.peer data (wg.device.peer.keypair slot) plain)
    (valid : (wg.device.peer.keypair slot).valid = true)
    (fresh : wireguardCheckReplay (wg.device.peer.keypair slot) (le64At data 8) = (k, true)) (p : Peer)
    (rest : Fewer p (keypairUpdate (endpoint { wg.device.peer.setKeypair slot { k with
      lastRx := a.receivedAt } with
      lastRx := a.receivedAt } ip port) slot)) :
    ¬ Used wg.log (wg.device.peer.keypair slot).number (le64At data 8) ∧
      Inv c cfg { x with taken := true, opened := some (data, wg.device.peer.keypair slot, plain) }
        ((wg.note (.opened data (wg.device.peer.keypair slot) plain)).setPeer p) := by
  obtain ⟨unused, windows⟩ := windows_let inv.windows valid fresh a.receivedAt
  have same : Used (wg.log ++ [.opened data (wg.device.peer.keypair slot) plain]) = fun n x =>
      Used wg.log n x ∨ n = (wg.device.peer.keypair slot).number ∧ x = le64At data 8 := by
    funext n counter
    rw [used_snoc, eq_iff_iff]
    refine or_congr_right ⟨?_, ?_⟩
    · rintro ⟨_, _, _, ⟨⟩, rfl, rfl⟩
      exact ⟨rfl, rfl⟩
    · rintro ⟨rfl, rfl⟩
      exact ⟨_, _, _, rfl, rfl, rfl⟩
  have stamped := windows_fewer windows (stamped_fewer _ a.receivedAt ip port)
  refine ⟨unused, inv.config, ?_, ?_, ?_, inv.outgoing, ?_, ?_⟩
  · exact lawful_snoc inv.lawful ⟨⟨_, _, _, inv.door.symm ▸ arrived, opens⟩, unused⟩
  · intro _
    exact List.mem_append_left _ (inv.session ((hasSession_iff _).mpr ⟨slot, valid⟩))
  · exact waiting_snoc.trans inv.pending
  · change Windows (Used (wg.log ++ [_])) p
    rw [same]
    exact windows_fewer (windows_update stamped slot) rest
  · have shut : door (wg.log ++ [.opened data (wg.device.peer.keypair slot) plain]) =
        x.after (.opened data (wg.device.peer.keypair slot) plain) := by rw [door_snoc, inv.door]
    exact shut

theorem receiveData_handled (inv : Inv c cfg x wg) (arrived : x.arrival = some (wg.device, ip, port, data)) :
    Handled c cfg ip port data wg (receiveData c a wg ip port data) := by
  simp only [receiveData]
  split
  · exact ⟨x, inv.drop, .inl rfl⟩
  · next slot plain opened =>
      have ⟨found, opens⟩ := openData_found opened
      have valid := lookup_slot found
      split
      · exact ⟨x, inv.same rfl rfl rfl (Fewer.refl _), .inl rfl⟩
      · next k fresh =>
          have ⟨still_valid, index⟩ := checkReplay_same (wg.device.peer.keypair slot) (le64At data 8)
          rw [fresh] at still_valid index
          split
          · next lost =>
              -- the pointer is looked up again, and found
              have still : getPeerKeypairForIdx (endpoint { wg.device.peer.setKeypair slot
                  { k with lastRx := a.receivedAt } with lastRx := a.receivedAt } ip port) (le32At data 4) =
                  some slot := (lookup_set (k := { k with
                    lastRx := a.receivedAt }) still_valid index).trans found
              have some_ := lookup_after_update still
              rw [lost] at some_
              cases some_
          · next slot' _ =>
              obtain ⟨unused, let_in⟩ := opened_inv (a := a) inv arrived opens valid fresh _ (asked_fewer _ _)
              have authentic : Authentic c wg ip port data := .inr ⟨_, _, opens, unused⟩
              have ready := established_inv let_in a.pending
              split
              · exact ⟨_, ready, .inr ⟨rfl, authentic⟩⟩
              · obtain ⟨y, taken, done⟩ := deliver_inv (a := a) ready
                  ⟨_, _, _, _, _, ready.door.trans (by rw [arrived]), opens⟩
                exact ⟨y, done, .inr ⟨taken, authentic⟩⟩

theorem wgdReceive_handled (inv : Inv c cfg x wg) (arrived : x.arrival = some (wg.device, ip, port, data)) :
    Handled c cfg ip port data wg (wgdReceive c a wg ip port data) := by
  simp only [wgdReceive]
  split
  · exact ⟨x, inv.drop, .inl rfl⟩
  · split
    · next type => exact receiveInitiation_handled inv arrived type
    · next type => exact receiveResponse_handled inv arrived type
    · next type => exact receiveCookie_handled inv arrived type
    · exact receiveData_handled inv arrived
    · exact ⟨x, inv.drop, .inl rfl⟩

end Receive

section Send

theorem Inv.ask (inv : Inv c cfg x wg) :
    Inv c cfg x (wg.setPeer { wg.device.peer with sendHandshake := true }) :=
  inv.same rfl rfl rfl (asked_fewer _ true)

theorem sendable_outgoing {ip : Bytes} {total : Nat} (may : sendable cfg ip = some total) :
    Outgoing cfg (ip.take total) := by
  obtain ⟨⟨total', ihl⟩, read, may⟩ := Option.bind_eq_some_iff.mp may
  simp only at may
  split at may
  · cases may
  · next fine =>
      cases may
      have ⟨inside, header, fits, whole⟩ := wgdIpv4_whole read
      have cut : (ip.take total).length = total := List.length_take_of_le inside
      simp only [not_or, Bool.not_eq_true', Classical.not_not, Bool.not_eq_false] at fine
      obtain ⟨short, source, foreign, target⟩ := fine
      constructor
      · exact whole
      · omega
      · rw [addressAt_take (by omega)]
        exact source
      · rw [addressAt_take (by omega)]
        exact foreign
      · rw [addressAt_take (by omega)]
        exact target

theorem sendable_nonempty {ip : Bytes} {total : Nat} (may : sendable cfg ip = some total) :
    ip.take total ≠ [] := by
  have whole := (sendable_outgoing may).whole
  have header := whole.header
  have fits := whole.fits
  exact List.ne_nil_of_length_pos (by omega)

theorem wgdSendIp_inv (inv : Inv c cfg x wg) (t : Sending) (i : Initiating) (ip : Bytes) :
    Inv c cfg x (wgdSendIp c t i wg ip).1 := by
  simp only [wgdSendIp]
  split
  · exact inv.drop
  · next total may =>
      rw [inv.config] at may
      have outgoing := sendable_outgoing may
      have sent := transport_inv inv t .sendIp (ip.take total) outgoing (by decide)
      split
      · next wg' result =>
          rw [result] at sent
          exact sent
      · next wg' result =>
          rw [result] at sent
          have held : Inv c cfg x (if wg'.pending = [] then
              { wg' with pending := ip.take total }.note (.hold (ip.take total)) else wg') := by
            split
            · next free =>
                have none_ : waiting wg'.log = none := by simpa [free] using sent.pending
                constructor
                · exact sent.config
                · exact lawful_snoc sent.lawful ⟨none_, outgoing⟩
                · exact fun has => List.mem_append_left _ (sent.session has)
                · exact waiting_snoc.trans (if_neg (sendable_nonempty may)).symm
                · exact fun _ => outgoing
                · exact windows_note sent.windows (by rintro _ _ _ ⟨⟩)
                · exact door_snoc.trans (congrArg (Door.after · _) sent.door)
            · exact sent
          exact initiate_inv held.ask i

end Send

section Tick

theorem expireKeypair_fewer (t : Ticking) (p : Peer) (slot : Slot) : Fewer (expireKeypair t p slot) p := by
  simp only [expireKeypair]
  split
  · refine ⟨by cases slot <;> rfl, fun at_ valid => ?_⟩
    cases slot <;> cases at_ <;> first | exact Like.self valid | cases valid
  · exact Fewer.refl p

theorem expireKeys_fewer (t : Ticking) (p : Peer) : Fewer (expireKeys t p) p := by
  have slots : Fewer ([Slot.prev, .curr, .next].foldl (expireKeypair t) p) p :=
    ((expireKeypair_fewer t _ .next).trans (expireKeypair_fewer t _ .curr)).trans
      (expireKeypair_fewer t _ .prev)
  simp only [expireKeys]
  split
  · have cleared : Fewer { ([Slot.prev, .curr, .next].foldl (expireKeypair t) p) with handshake := {} }
        ([Slot.prev, .curr, .next].foldl (expireKeypair t) p) :=
      ⟨rfl, fun slot valid => by cases slot <;> exact Like.self valid⟩
    exact cleared.trans slots
  · exact slots

variable {t : Ticking}

theorem expire_inv (inv : Inv c cfg x wg) : Inv c cfg x (expire t wg) := by
  have aged : Inv c cfg x ({ wg with timerAt := t.now }.setPeer (expireKeys t wg.device.peer)) :=
    inv.same rfl rfl rfl (expireKeys_fewer t _)
  have over_ : ∀ w, Inv c cfg x w →
      Inv c cfg x ({ w with established := false }.note (.event "session expired")) :=
    fun w held => Inv.event
      (held.same rfl rfl rfl (Fewer.refl _) : Inv c cfg x { w with established := false }) _
  simp only [expire]
  split
  · exact over_ _ aged
  · exact aged

theorem sendKeepalive_inv (inv : Inv c cfg x wg) : Inv c cfg x (sendKeepalive c t wg) := by
  have sent := transport_inv inv t.keepalive .keepalive [] trivial (by decide)
  simp only [sendKeepalive]
  split
  · split
    · next wg' result =>
        rw [result] at sent
        exact sent.same rfl rfl rfl (Fewer.refl _)
    · next wg' result =>
        rw [result] at sent
        exact sent
  · exact inv

theorem flush_inv (inv : Inv c cfg x wg) : Inv c cfg x (flush c t wg) := by
  simp only [flush]
  split
  · exact established_inv inv _
  · exact inv

theorem wgdTick_inv (inv : Inv c cfg x wg) : Inv c cfg x (wgdTick c t wg) := by
  have flushed : Inv c cfg x (flush c t (sendKeepalive c t (expire t wg))) :=
    flush_inv (sendKeepalive_inv (expire_inv inv))
  simp only [wgdTick]
  split
  · exact inv
  · split
    · exact initiate_inv flushed _
    · exact flushed

end Tick

variable {a : Arrival} {ip : Ip4} {port : UInt16} {data : Bytes}

theorem receive_handled (a : Arrival) (ip : Ip4) (port : UInt16) (data : Bytes) (inv : Inv c cfg x wg) :
    Handled c cfg ip port data wg (call c wg (.receive a ip port data)) := by
  have noted : Inv c cfg { arrival := some (wg.device, ip, port, data) }
      (wg.note (.received wg.device ip port data)) :=
    inv.note (e := .received wg.device ip port data) trivial rfl (by rintro _ _ _ ⟨⟩)
  obtain ⟨y, after, same | ⟨taken, authentic⟩⟩ := wgdReceive_handled (a := a) noted rfl
  · exact ⟨y, after, .inl same⟩
  · refine ⟨y, after, .inr ⟨taken, authentic.imp id ?_⟩⟩
    rintro ⟨keypair, plain, opens, unused⟩
    exact ⟨keypair, plain, opens, fun used => unused (used_snoc.mpr (.inl used))⟩

theorem call_inv (inv : Inv c cfg x wg) (of : Call) : ∃ y, Inv c cfg y (call c wg of) := by
  have noted : Inv c cfg {} (wg.note .called) := inv.note (e := .called) trivial rfl (by rintro _ _ _ ⟨⟩)
  cases of with
  | receive a ip port data =>
      obtain ⟨y, after, _⟩ := receive_handled a ip port data inv
      exact ⟨y, after⟩
  | sendIp t i ip => exact ⟨_, wgdSendIp_inv noted t i ip⟩
  | tick t => exact ⟨_, wgdTick_inv noted⟩

theorem run_inv (inv : Inv c cfg x wg) (calls : List Call) : ∃ y, Inv c cfg y (run c wg calls) := by
  induction calls generalizing x wg with
  | nil => exact ⟨x, inv⟩
  | cons of rest ih =>
      obtain ⟨y, after⟩ := call_inv inv of
      exact ih after

/-- The routing configuration of a daemon: the keys are wiped from it. -/
def routing (cfg : WgdConfig) : WgdConfig := { cfg with privateKey := zeroKey, presharedKey := zeroKey }

theorem init_inv {secret : Bytes} {now : UInt32} (started : wgdInit c cfg secret now = some wg) :
    Inv c (routing cfg) {} wg := by
  obtain ⟨d, _, started⟩ := Option.bind_eq_some_iff.mp started
  obtain ⟨p, peer, rfl⟩ := Option.map_eq_some_iff.mp started
  have empty : ∀ slot, ¬(p.keypair slot).valid = true := by
    simp only [wireguardPeerInit] at peer
    split at peer
    · cases peer
    · cases peer
      rintro slot valid
      cases slot <;> cases valid
  have still : Fewer { endpoint p cfg.endpoint cfg.endpointPort with
      active := cfg.endpointPort ≠ 0, keepaliveInterval := cfg.keepalive } p :=
    ⟨rfl, fun slot valid => by cases slot <;> exact Like.self valid⟩
  constructor
  · rfl
  · intro before e after split
    cases before <;> cases split
  · intro has
    obtain ⟨slot, valid⟩ := (hasSession_iff p).mp (still.session has)
    exact absurd valid (empty slot)
  · rfl
  · exact fun held => absurd rfl held
  · refine windows_fewer ⟨?_, ?_, ?_, ?_⟩ still
    · rintro n counter ⟨_, _, _, member, _⟩
      cases member
    · exact fun slot valid => absurd valid (empty slot)
    · exact fun slot _ valid => absurd valid (empty slot)
    · exact fun slot _ valid => absurd valid (empty slot)
  · rfl

theorem waiting_append (first second : List Event) (none_ : ∀ q, Event.hold q ∉ second)
    (empty : waiting first = none) :
    waiting (first ++ second) = none := by
  induction second using List.reverseRecOn with
  | nil => simpa using empty
  | append_singleton rest e ih =>
      have before := ih fun q member => none_ q (List.mem_append_left _ member)
      rw [← List.append_assoc, waiting_snoc, before]
      cases e with
      | hold q => exact absurd (List.mem_append_right _ (List.mem_singleton.mpr rfl)) (none_ q)
      | transport origin ip sent => cases origin <;> cases sent <;> rfl
      | received | called | greeted | opened => rfl
      | send | inject | event | session | fault => rfl

theorem lawful_between {log before middle after : List Event} {ip ip' : Bytes} (lawful : Lawful c cfg log)
    (split : log = before ++ .transport .pending ip true :: middle ++ .transport .pending ip' true :: after) :
    ∃ q, Event.hold q ∈ middle := by
  by_contra without
  have second := lawful _ _ _ split
  have cleared : waiting (before ++ [.transport .pending ip true]) = none := waiting_snoc
  have still := waiting_append _ middle (fun q member => without ⟨q, member⟩) cleared
  simp only [List.append_assoc, List.cons_append, List.nil_append] at still
  have held : waiting (before ++ .transport .pending ip true :: middle) = some ip' := second.1.2
  rw [still] at held
  cases held

/-- What a run of the daemon does: the packets for the kernel, each in the plaintext of the
datagram that is being received; the plaintexts of `wgd_send_ip`; the pending packet; the
counters that the sessions let in; and the datagrams that change nothing. -/
theorem crypto_routing {secret : Bytes} {now : UInt32} (started : wgdInit c cfg secret now = some wg)
    (calls : List Call) :
    (∀ before packet plain ok after, (run c wg calls).log = before ++ .inject packet plain ok :: after →
      Injected cfg packet plain ∧ Delivered c before plain) ∧
    (∀ before datagram keypair plain after, (run c wg calls).log = before ++
      .opened datagram keypair plain :: after →
      (∃ device ip port, (door before).arrival = some (device, ip, port, datagram) ∧
        Opens c device.peer datagram keypair plain) ∧ ¬ Used before keypair.number (le64At datagram 8)) ∧
    (∀ ip sent, .transport .sendIp ip sent ∈ (run c wg calls).log → Outgoing cfg ip) ∧
    (∀ before ip after, (run c wg calls).log = before ++ .transport .pending ip true :: after →
      .session ∈ before ∧ waiting before = some ip ∧ Outgoing cfg ip) ∧
    (∀ before ip after, (run c wg calls).log = before ++ .hold ip :: after → waiting before = none) ∧
    (∀ before ip middle ip' after, (run c wg calls).log =
      before ++ .transport .pending ip true :: middle ++ .transport .pending ip' true :: after →
      ∃ q, .hold q ∈ middle) ∧
    .fault ∉ (run c wg calls).log ∧
    (∀ a ip port data, (door (call c (run c wg calls) (.receive a ip port data)).log).taken = false →
      kept (call c (run c wg calls) (.receive a ip port data)) = kept (run c wg calls)) ∧
    ∀ a ip port data, ¬ Authentic c (run c wg calls) ip port data →
      kept (call c (run c wg calls) (.receive a ip port data)) = kept (run c wg calls) := by
  obtain ⟨y, inv⟩ := run_inv (init_inv started) calls
  have outgoing : ∀ {ip}, Outgoing (routing cfg) ip → Outgoing cfg ip :=
    fun out => ⟨out.whole, out.short, out.source, out.foreign, out.target⟩
  -- all but the last two read the law of the log where an entry stands in it
  refine ⟨?_, ?_, ?_, ?_, ?_, ?_, ?_, ?_, ?_⟩
  · intro before packet plain ok after split
    obtain ⟨good, delivered⟩ := inv.lawful _ _ _ split
    exact ⟨⟨good.inside, good.whole, good.short, good.source, good.foreign, good.target, good.protocol⟩,
      delivered⟩
  · intro before datagram keypair plain after split
    exact inv.lawful _ _ _ split
  · intro ip sent member
    obtain ⟨before, after, split⟩ := List.append_of_mem member
    have good := inv.lawful _ _ _ split
    exact outgoing good.1
  · intro before ip after split
    obtain ⟨⟨out, held⟩, session⟩ := inv.lawful _ _ _ split
    exact ⟨session rfl, held, outgoing out⟩
  · intro before ip after split
    exact (inv.lawful _ _ _ split).1
  · intro before ip middle ip' after split
    exact lawful_between inv.lawful split
  · intro member
    obtain ⟨before, after, split⟩ := List.append_of_mem member
    exact inv.lawful _ _ _ split
  · intro a ip port data refused
    obtain ⟨y, after, same | ⟨taken, _⟩⟩ :=
      receive_handled a ip port data inv
    · exact same
    · rw [after.door, taken] at refused
      cases refused
  · intro a ip port data not
    obtain ⟨y, after, same | ⟨_, authentic⟩⟩ :=
      receive_handled a ip port data inv
    · exact same
    · exact absurd authentic not

section Example

/-- The `n` bytes of a number, the highest first. -/
def be : Nat → Nat → Bytes
  | 0, _ => []
  | n + 1, x => UInt8.ofNat (x >>> (8 * n)) :: be n x

def examplePrivate : Bytes := be 32 0x77076d0a7318a57d3c16c17251b26645df4c2f92ebc0992ac177fba51db92c2a
def examplePublic : Bytes := be 32 0xf8a9535a2d2ff605e8e144d54f4ef5c62313a2055dbb21fddd3fd9c299eb015d
def exampleRemote : Bytes := be 32 0xde9edb7d7b7dc1b4d35b61c2ece435373f8343c85b78674dadfc7e146f882b4f
def exampleEphemeral : Bytes := be 32 0x8f40c5adb68f25624ae5b214ea767a6ec94d829d3d7b5e1ad1ba6f3e2138285f
def exampleReply : Bytes := be 32 0x358072d6365880d1aeea329adf9121383851ed21a28e3b75e965d0d2cd166254

/-- The static key and the time of the initiation, and the packet of the data message. -/
def exampleStatic : Bytes :=
  be 48 0x528db622234c5a2493d0ea47b5a1ad0ba17918f90272106e9139e01772256f7aa4b49a66c220714c9f213544882e6e83
def exampleStamp : Bytes := be 28 0x43129b80aa364dfe3400b5fa134dd9d1f6995a6eb19de0fc4e6dd6c1
def exampleSealed : Bytes :=
  be 32 0x7a486eef2d2a276f67fe33436a10f7cc9cea534c9ba2b47fc6f09e1980a26cc7 ++
    be 32 0x6968d0c7855209232b783e33eeb7601719220618e8148999abc2918c7a7e1069

/-- A segment from the other end of the tunnel, in its packet. -/
def exampleSegment : Bytes :=
  be 40 0x4500002800000000400666340a4d00020a4d0001aa001f90000000010000000050021000c1b40000

/-- The primitives on the inputs of the runs below. -/
def exampleCrypto : Crypto where
  mixHash hash _ :=
    match hash.headD 0 with
    | 0x00 => be 32 0x60e26daef327efc02ec335e2a025d2d016eb4206f87277f52d38d1988b78cd36
    | 0x60 => be 32 0x2211b361081ac566691243db458ad5322d9c6c662293e8b70ee19c65ba079ef3
    | 0x22 => be 32 0x6a10c7ec492cc30d18a7b028ddd3fc0ceb66db41e9e1afb2d786064da6534cfd
    | 0x6a => be 32 0xb87d2a2d452d9f301857cd347432b01e1eaa8e55d3f245b8d96d5af74da99c6a
    | 0xb8 => be 32 0x1ec26e185b3dbe7ba9b2f6a53d4d9a89734b6f4ab3140f1583e7050054e6c2d3
    | 0x1e => be 32 0x634e5073995a2075f5e7439249ea089c601291b7589b91c53eb32430b2d2a1c7
    | 0x63 => be 32 0xa9e3780d2b4aa20ce202776e1ecf70db23a07cd5d88fc277ad549bee06194779
    | 0xa9 => be 32 0x1ae27d07030f8badff56e545d202c764bb09243df96fe10a88e7446b9e355aa8
    | _ => be 32 0x1d8f329b829cbbdb8f1f9115389ea8d31f645d8f2327e645763480906286a02e
  kdf1 key _ :=
    match key.headD 0 with
    | 0x60 => be 32 0x12d18b0fc4b3332790db9315441d8a775c095f5340fbfe7a7071b2307ab9e96a
    | 0x12 => be 32 0xd76b4184deab5372f55e93f5585a756b941843f8e2863aae1814bf80e65f6453
    | 0xd7 => be 32 0xa14fe72e8274b10bc18d3f9dd20288f1620b1c10d1f086e6223ba0d68b99187e
    | _ => be 32 0x9931d08609f1c35c1e0fd877d8dc8c5964c80c653b84afcf916b09624be4785d
  kdf2 key _ :=
    match key.headD 0 with
    | 0x12 => (be 32 0x2fae0719b300093dae3ba08e8c038274ef0358661c75797131d0a3f6e545ce66,
        be 32 0xf14e3b748e5caed17657ed16044cea9dc02c545680474cf76a80bbe8670af90a)
    | 0x2f => (be 32 0x12720000f0ec8c9066219adf89cc0a3da71f1e1ec5bb4cd3c94e4d73f7352a56,
        be 32 0x39504ed11c4ec316a5e7c61bb27761081de521f7a98f445620824e11a3d6831b)
    | _ => (be 32 0x13e6dfd53fa269bb030e7774e9152bd4006121f17aab80e05d398e2af12c40db,
        be 32 0xaa7794c0b4a4ad0f6828824222f878b366c39520ca4072fe064eb37d4748d929)
  kdf3 _ _ :=
    (be 32 0x6367c2401f1ebae9ef1af51c49dc87aa035f78ebb89c583b13fbb89892eec0aa,
      be 32 0x6b002f739b61fb94f8330b5d62063ede8a7295c6e3e016ef20c19e7f01148f07,
      be 32 0x2185dec1c1571904eb73d8fadda25e7889c0f2a7c7df24abf1b8353c18921590)
  x25519 key point :=
    match key.headD 0, point.headD 0 with
    | 0x77, _ => (examplePublic, true)
    | 0x70, 0xde => (be 32 0xec555394277877e3ef665c2af39d396d8572f112cc8ce2af0972cb6a3989406d, true)
    | 0x70, _ => (be 32 0x7b1a72b10a8297a117ee6fe545ab478252705f0e1f52daba5a42e93bc6970748, true)
    | _, 0x09 => (exampleReply, true)
    | _, 0x8f => (be 32 0x9663aa1da97e848a914a436d04163dfbb89178f107f1b5b77ed3854203382854, true)
    | _, _ => (be 32 0x5a9bec000bd02417f65f9e9e82fb9b27736a6c7b674aa8deca3b70d3d3f0f77f, true)
  mac key _ := if key.headD 0 = 0x43 then be 16 0x787c106e8d5671a74103f18356261ad4
    else be 16 0x130b68bd935ad38f91078e58e0a91da4
  macKey key label :=
    match key.headD 0, label.headD 0 with
    | 0xf8, 0x6d => be 32 0x431d190a2f2d994b0a733d046ccd950b79c7043eb3386e8bed83adb7d980c9ac
    | 0xf8, _ => be 32 0x5d39c9d8840acbb428113061575608688599a8f9a98e9fd16aace9a1a2c1adbe
    | _, 0x6d => be 32 0x52c0a95717f46ba7941f80cec1ead35984c9f023a996170d9e47e314d260dc96
    | _, _ => be 32 0xda2c25a7f8182d2a7a58b0978d9dcd7e5f76c3fcf138fd6e5754404304cacba0
  aeadEncrypt _ _ _ plain :=
    if plain = [] then be 16 0x3a9a2af93b170fda814de0e3e6135350
    else be 48 0x5775dddfcb07d74c3a9f7b32274ddea96263eb785cd41035cab4de0c9c125711ffa5ccca0f0e303fb58d7cf210cae04a
  aeadDecrypt key _ _ sealed :=
    if key.headD 0 = 0xf1 ∧ sealed = exampleStatic then some exampleRemote
    else if key.headD 0 = 0x39 ∧ sealed = exampleStamp then some (be 12 0x400000006592008000000000)
    else if key.headD 0 = 0x13 ∧ sealed = exampleSealed then some (exampleSegment ++ be 8 0)
    else none
  xaeadEncrypt _ _ _ _ := []
  xaeadDecrypt _ _ _ _ := none
  plainLength := by
    intro key counter aad sealed plain found
    split at found
    · next fits => cases found; rw [fits.2]; rfl
    · split at found
      · next fits => cases found; rw [fits.2]; rfl
      · split at found
        · next fits => cases found; rw [fits.2]; rfl
        · cases found

def exampleConfig : WgdConfig where
  privateKey := examplePrivate
  publicKey := exampleRemote
  address := #v[10, 77, 0, 1]
  addressPrefix := 32
  routeCount := 2
  routes := Vector.ofFn fun i =>
    if i.val = 0 then { network := #v[10, 77, 0, 2], prefixLen := 32 }
    else if i.val = 1 then { network := #v[10, 4, 6, 0], prefixLen := 24 }
    else {}
  listenPort := 51820

/-- A packet from this end of the tunnel to the other. -/
def examplePacket : Bytes := [0x45, 0, 0, 20, 0, 0, 0, 0, 64, 17, 102, 61, 10, 77, 0, 1, 10, 77, 0, 2]

def exampleSending : Sending := { rejectAt := 0, sentAt := 0, rekeyAt := 0, ok := true }

def exampleArrival : Arrival where
  rateAt := 0
  mac2 := ⟨0, [], 0⟩
  cookie := ⟨0, [], 0⟩
  cookieNonce := []
  cookieOk := true
  processedAt := 0
  draw := {
    private_ := be 32 0x202122232425262728292a2b2c2d2e2f303132333435363738393a3b3c3d3e3f
    index := 9, timestamp := [], cookieAt := 0 }
  sessionAt := 0
  responseOk := true
  keepalive := exampleSending
  rejectAt := 0
  receivedAt := 0
  rekeyAt := 0
  pending := exampleSending
  dataAt := 0
  echo := exampleSending
  injectOk := true

/-- The initiation of the other end. -/
def exampleGreeting : Call :=
  .receive exampleArrival #v[192, 0, 2, 7] 40000
    ([1, 0, 0, 0, 7, 0, 0, 0] ++ exampleEphemeral ++ exampleStatic ++
    exampleStamp ++ be 16 0x787c106e8d5671a74103f18356261ad4 ++ List.replicate 16 0)

/-- The first data message of the session that it begins. -/
def exampleData (text : Bytes) : Bytes := [4, 0, 0, 0, 9, 0, 0, 0] ++ List.replicate 8 0 ++ text

def exampleCalls : List Call :=
  [.sendIp exampleSending { timeoutAt := 0, draw := exampleArrival.draw, startedAt := 0, ok := true }
      examplePacket,
    exampleGreeting, .receive exampleArrival #v[192, 0, 2, 7] 40000 (exampleData exampleSealed)]

def exampleDaemon : Wgd := (wgdInit exampleCrypto exampleConfig zeroKey 0).getD {}

def exampleRun : Wgd := run exampleCrypto exampleDaemon exampleCalls

/-- One more datagram. -/
def exampleNext (data : Bytes) : Wgd :=
  call exampleCrypto exampleRun (.receive exampleArrival #v[192, 0, 2, 7] 40000 data)

theorem example_started : wgdInit exampleCrypto exampleConfig zeroKey 0 = some exampleDaemon := by
  rfl

theorem example_injects : ∃ before,
    exampleRun.log = before ++ [.inject exampleSegment (exampleSegment ++ be 8 0) true] := by
  have last : exampleRun.log.getLast? = some (.inject exampleSegment (exampleSegment ++ be 8 0) true) := by
    decide +kernel
  exact List.getLast?_eq_some_iff.mp last

/-- A packet that was held goes out when the session begins, the segment of the other end
goes to the kernel, and the same datagram or a forged one changes nothing then. -/
theorem crypto_routing_holds :
    (∃ before, exampleRun.log = before ++ [.inject exampleSegment (exampleSegment ++ be 8 0) true] ∧
      Injected exampleConfig exampleSegment (exampleSegment ++ be 8 0) ∧
      Delivered exampleCrypto before (exampleSegment ++ be 8 0)) ∧
    (∃ before after, exampleRun.log = before ++ .transport .pending examplePacket true :: after ∧
      .session ∈ before ∧ waiting before = some examplePacket) ∧
    (exampleNext (exampleData exampleSealed)).replays = 1 ∧
    kept (exampleNext (exampleData exampleSealed)) = kept exampleRun ∧
    kept (exampleNext (exampleData (exampleSealed.set 63 0))) = kept exampleRun := by
  obtain ⟨injected, _, _, pending, _, _, _, refused, _⟩ := crypto_routing example_started exampleCalls
  obtain ⟨before, last⟩ := example_injects
  have sent : .transport .pending examplePacket true ∈ exampleRun.log := by decide +kernel
  obtain ⟨earlier, later, split⟩ := List.append_of_mem sent
  have again : (exampleNext (exampleData exampleSealed)).replays = 1 ∧
      (door (exampleNext (exampleData exampleSealed)).log).taken = false ∧
      (door (exampleNext (exampleData (exampleSealed.set 63 0))).log).taken = false := by decide +kernel
  have ⟨good, delivered⟩ := injected _ _ _ _ _ last
  have ⟨begun, held, _⟩ := pending _ _ _ split
  exact ⟨⟨before, last, good, delivered⟩, ⟨earlier, later, split, begun, held⟩, again.1,
    refused _ _ _ _ again.2.1, refused _ _ _ _ again.2.2⟩

end Example

end R2Apps.WgdSafety
