import R2Apps.DhcpFrames

/-! Who may use a leased address, and for how long. A run is any order of frames, polls
and clock readings; beside the driver stands the lease of the last acknowledgement, with
the time at which it ends and whether the server has refused it since. -/
namespace R2Apps.EthLeases
open ByteMemory BufferPrefixes EthernetReceive EthDriver DhcpFrames

/-- The lease of an acknowledgement; `expiry` is none for one that has no end. -/
structure Lease where
  expiry : Option Nat
  refused : Bool
deriving DecidableEq

def Lease.lasts (now : UInt64) (l : Lease) : Prop := ∀ e, l.expiry = some e → now.toNat < e

/-- An hour where the message names no time. -/
def leaseSeconds (seconds : UInt32) : UInt32 := if seconds = 0 then 3600 else seconds

def granted (now : UInt64) (packet : List UInt8) : Lease :=
  { expiry := if leaseSeconds (optionsOf packet).lease = 0xFFFFFFFF then none
      else some (now.toNat + (leaseSeconds (optionsOf packet).lease).toNat * 1000)
    refused := false }

/-- A message of this type with the transaction id and the address of this driver. -/
def carries (msgType : UInt8) (m : Memory) (len : Nat) (d : Driver) (packet : List UInt8) : Prop :=
  dhcpPayload m len = some packet ∧ forUs packet d ∧ (optionsOf packet).msgType = msgType

/-- The driver has a request under way that this message answers. -/
def asking (d : Driver) : Prop := d.dhcpState = .requesting ∨ d.dhcpState = .renewing

instance (d : Driver) : Decidable (asking d) := by
  unfold asking
  infer_instance

structure Trace where
  driver : Driver
  lease : Option Lease

def refuse (l : Lease) : Lease := { l with refused := true }

/-- What a message tells about the lease: a refusal counts in every state of the client. -/
def hear (now : UInt64) (packet : List UInt8) (t : Trace) : Option Lease :=
  if forUs packet t.driver then
    if (optionsOf packet).msgType = 5 ∧ asking t.driver then some (granted now packet)
    else if (optionsOf packet).msgType = 6 then t.lease.map refuse
    else t.lease
  else t.lease

def observe (t : Trace) : Event → Option Lease
  | .frame now _ m _ len =>
      match dhcpPayload m len with
      | some packet => hear now packet t
      | none => t.lease
  | _ => t.lease

def advance (t : Trace) (e : Event) : Trace := { driver := step t.driver e, lease := observe t e }

inductive Starts : Trace → Prop where
  | static (s : Setup) : Starts ⟨mainStatic s, none⟩
  | dhcp (now : UInt64) (si : SysRead) (s : Setup) : Starts ⟨mainDhcp now si s, none⟩

/-- The runs all of whose steps meet a condition. -/
inductive Reach (ok : Trace → Event → Prop) : Trace → Prop where
  | start {t : Trace} : Starts t → Reach ok t
  | next {t : Trace} (e : Event) : Reach ok t → ok t e → Reach ok (advance t e)

/-- The client has a lease. -/
def leased (d : Driver) : Prop := d.dhcpState = .bound ∨ d.dhcpState = .renewing

instance (d : Driver) : Decidable (leased d) := by
  unfold leased
  infer_instance

/-- The event is no refusal of an address in use. -/
def Calm (t : Trace) : Event → Prop
  | .frame _ _ m _ len =>
    leased t.driver → t.driver.myIp ≠ zeroIp → ∀ packet, ¬carries 6 m len t.driver packet
  | _ => True

/-- Two calls of `dhcp_poll` at one time. -/
def pollTwice (now : UInt64) (reads : Fin 4 → SysRead) (t : Trace) : Trace :=
  advance (advance t (.poll now (reads 0) (reads 1))) (.poll now (reads 2) (reads 3))

def usesLease (d : Driver) : Prop := (∃ c, d.published = some c ∧ c.source = .dhcp) ∧ d.myIp ≠ zeroIp

/-- After two polls a leased address is in use only while its lease lasts and stands. -/
def Respected (t : Trace) : Prop :=
  ∀ now reads, usesLease (pollTwice now reads t).driver →
    ∃ l, (pollTwice now reads t).lease = some l ∧ l.lasts now ∧ l.refused = false

/-- What the proofs about leases need to know of a driver. -/
structure Book where
  state : DhcpState
  ip : Ip
  source : NetSource
  renew : UInt64
  expire : UInt64
  config : NetConfig
  published : Option NetConfig

def book (d : Driver) : Book :=
  { state := d.dhcpState, ip := d.myIp, source := d.netSource, renew := d.dhcpRenewMs
    expire := d.dhcpExpireMs, config := netConfig d, published := d.published }

/-- The books after an address has been adopted and published. -/
def Book.adopt (ip : Ip) (source : NetSource) (config : NetConfig) (b : Book) : Book :=
  { b with ip := ip, source := source, config := config, published := some config }

def Book.enter (state : DhcpState) (b : Book) : Book := { b with state := state }

/-! What each function does to the books. -/
section Functions
variable (now : UInt64) (si checked : SysRead) (d : Driver)

theorem hostname_book : book (dhcpReadHostname si d).2 = book d := by
  unfold dhcpReadHostname
  split
  · rfl
  · split <;> rfl

theorem discover_book : book (dhcpSendDiscover now si d) = (book d).enter .discovering := by
  calc book (dhcpSendDiscover now si d) = (book (dhcpReadHostname si d).2).enter .discovering := rfl
    _ = (book d).enter .discovering := by rw [hostname_book]

theorem start_book : book (dhcpStart now si d) = (book d).enter .discovering :=
  discover_book now si _

theorem request_book (renew : Bool) :
    book (dhcpSendRequest now renew si d) = (book d).enter (if renew then .renewing else .requesting) := by
  calc book (dhcpSendRequest now renew si d)
      = (book (dhcpReadHostname si d).2).enter (if renew then .renewing else .requesting) := rfl
    _ = (book d).enter (if renew then .renewing else .requesting) := by rw [hostname_book]

theorem renewNow_book : book (renewNow now si d) = (book d).enter .renewing := by
  rw [renewNow, request_book]
  rfl

theorem gateway_shape (gw : Ip) :
    ∃ net known at_, setGateway gw d = { d with netGw := net, gwMacKnown := known, gwArpAt := at_ } := by
  unfold setGateway
  split
  · exact ⟨_, _, _, rfl⟩
  · exact ⟨d.netGw, d.gwMacKnown, d.gwArpAt, rfl⟩

theorem mask_shape : ∃ mask, defaultMask d = { d with netMask := mask } := by
  unfold defaultMask
  split
  · exact ⟨_, rfl⟩
  · exact ⟨d.netMask, rfl⟩

theorem maskGw_shape : ∃ mask net known at_, defaultMaskGw d =
    { d with netMask := mask, netGw := net, gwMacKnown := known, gwArpAt := at_ } := by
  obtain ⟨mask, masked⟩ := mask_shape d
  simp only [defaultMaskGw, masked]
  split
  · obtain ⟨net, known, at_, routed⟩ := gateway_shape { d with netMask := mask }
      (firstOfNet ({ d with netMask := mask } : Driver).myIp mask)
    exact ⟨mask, net, known, at_, routed⟩
  · exact ⟨mask, d.netGw, d.gwMacKnown, d.gwArpAt, rfl⟩

theorem bind_book (ip : Ip) : ∃ config, book (bindLease now ip d) =
    { (book d).adopt ip .dhcp config with
      state := .bound
      renew := (leaseTimes now d.dhcpLeaseS).1
      expire := (leaseTimes now d.dhcpLeaseS).2 } := by
  obtain ⟨net, known, at_, routed⟩ := gateway_shape
    { d with onFallback := false, netMask := d.dhcpMask, netDns := d.dhcpDns } d.dhcpRouter
  simp only [bindLease, routed]
  exact ⟨_, rfl⟩

theorem ack_book (ip : Ip) : book (dhcpOnAck now ip d) = book (bindLease now ip d) := by
  unfold dhcpOnAck
  split <;> rfl

theorem adoptFallback_book :
    ∃ config, book (adoptFallback d) = (book d).adopt d.fallbackIp .fallback config := by
  obtain ⟨mask, net, known, at_, shaped⟩ := maskGw_shape (setMyIp d.fallbackIp { d with onFallback := true })
  simp only [adoptFallback, shaped]
  exact ⟨_, rfl⟩

theorem fallBack_book : book (fallBack now d) = book d ∨
    d.myIp = zeroIp ∧ ∃ config, book (fallBack now d) = (book d).adopt d.fallbackIp .fallback config := by
  unfold fallBack
  split
  · next due => exact Or.inr ⟨due.2.1, adoptFallback_book d⟩
  · exact Or.inl rfl

theorem learn_book (m : Memory) : book (learnGateway m d) = book d ∨
    ∃ config, book (learnGateway m d) = { book d with config := config, published := some config } := by
  unfold learnGateway
  split
  · exact Or.inr ⟨_, rfl⟩
  · exact Or.inl rfl

theorem icmp_book (m stack : Memory) (hdrLen ipTotal : Nat) :
    book (onIcmp m stack hdrLen ipTotal d) = book d := by
  simp only [onIcmp]
  repeat' split
  all_goals rfl

theorem arp_book (m : Memory) (len : Nat) : book (onArp m len d) = book d ∨
    ∃ config, book (onArp m len d) = { book d with config := config, published := some config } := by
  unfold onArp
  split
  · exact Or.inl rfl
  · split
    · exact Or.inl rfl
    · dsimp only
      split
      · exact learn_book d m
      · split
        · exact learn_book d m
        · exact learn_book d m

end Functions

/-! One step of the driver. -/
section Steps
variable {now : UInt64} {si checked : SysRead} {d : Driver} {m stack : Memory} {len : Nat}
    {packet : List UInt8}

theorem frame_packet (payload : dhcpPayload m len = some packet) :
    onEthFrame now si m stack len d = onDhcpPacket now si packet d := by
  simp only [dhcpPayload] at payload
  split at payload
  · cases payload
  · next ethernet =>
    split at payload
    · cases payload
    · next ip =>
      split at payload
      · cases payload
      · next udp =>
        simp only [not_or, Decidable.not_not] at ethernet ip udp
        have other : field16 m 12 ≠ etypeArp := by
          rw [ethernet.2]
          decide
        have datagram : m 23 ≠ 1 := by
          rw [udp.1]
          decide
        have bounds : ¬(field16 m 16 > len - ethHdrLen ∨ field16 m 16 < (m 14).toNat % 16 * 4) := by
          rw [not_or]
          exact ip.2
        rw [onEthFrame, if_neg ethernet.1, if_neg other, if_pos ethernet.2]
        simp only [onIpv4]
        rw [if_neg ip.1, if_neg bounds, if_neg datagram, if_pos udp.1, if_neg udp.2.1, if_pos udp.2.2,
          Option.some.inj payload]

variable (now si d stack) in
theorem frame_other (payload : dhcpPayload m len = none) : book (onEthFrame now si m stack len d) = book d ∨
    ∃ config, book (onEthFrame now si m stack len d) =
      { book d with config := config, published := some config } := by
  unfold onEthFrame
  split
  · exact Or.inl rfl
  · next long =>
    split
    · exact arp_book d m len
    · split
      · next ethernet =>
        left
        simp only [onIpv4]
        split
        · rfl
        · next header =>
          split
          · rfl
          · next bounds =>
            split
            · exact icmp_book d m stack _ _
            · split
              · next udp =>
                split
                · rfl
                · next enough =>
                  split
                  · next port =>
                    -- then the frame is a message after all
                    simp only [dhcpPayload, long, ethernet, header, udp, enough, port, not_or.mp bounds,
                      ne_eq, not_true_eq_false, or_self, if_false] at payload
                    cases payload
                  · rfl
              · rfl
      · exact Or.inl rfl

theorem packet_cases (now : UInt64) (si : SysRead) (packet : List UInt8) (d : Driver) :
    (¬forUs packet d ∨ (optionsOf packet).msgType ≠ 5 ∧ (optionsOf packet).msgType ≠ 6 ∨ ¬asking d) ∧
        (book (onDhcpPacket now si packet d) = book d ∨
          d.dhcpState = .discovering ∧ book (onDhcpPacket now si packet d) = (book d).enter .requesting) ∨
      forUs packet d ∧ asking d ∧ (optionsOf packet).msgType = 5 ∧
        (∃ config, book (onDhcpPacket now si packet d) =
          { (book d).adopt (yiaddr packet) .dhcp config with
            state := .bound
            renew := (leaseTimes now (optionsOf packet).lease).1
            expire := (leaseTimes now (optionsOf packet).lease).2 }) ∨
      forUs packet d ∧ asking d ∧ (optionsOf packet).msgType = 6 ∧
        book (onDhcpPacket now si packet d) = (book d).enter .discovering := by
  unfold onDhcpPacket
  split
  · next ours =>
    dsimp only
    split
    · next offer =>
      refine Or.inl ⟨Or.inr (Or.inl ?_), Or.inr ⟨offer.2, request_book now si _ false⟩⟩
      rw [offer.1]
      decide
    · split
      · next ack =>
        obtain ⟨config, bound⟩ := bind_book now
          { d with
            dhcpServer := if (optionsOf packet).serverIp = zeroIp then d.dhcpServer
              else (optionsOf packet).serverIp
            dhcpMask := (optionsOf packet).mask, dhcpRouter := (optionsOf packet).router
            dhcpDns := (optionsOf packet).dns, dhcpLeaseS := (optionsOf packet).lease } (yiaddr packet)
        exact Or.inr (Or.inl ⟨ours, ack.2, ack.1, config, (ack_book now _ _).trans bound⟩)
      · split
        · next nak => exact Or.inr (Or.inr ⟨ours, nak.2, nak.1, start_book now si d⟩)
        · next noAck noNak =>
          refine Or.inl ⟨Or.inr ?_, Or.inl rfl⟩
          by_cases answered : asking d
          · exact Or.inl ⟨fun five => noAck ⟨five, answered⟩, fun six => noNak ⟨six, answered⟩⟩
          · exact Or.inr answered
  · next foreign => exact Or.inl ⟨Or.inl foreign, Or.inl rfl⟩

theorem asking_cases (now : UInt64) (si : SysRead) (d : Driver)
    (waiting : d.dhcpState = .discovering ∨ d.dhcpState = .requesting) :
    ∃ s, (s = .discovering ∨ s = .requesting) ∧
      book (pollAsking now si d) = (book (fallBack now d)).enter s := by
  have state : (fallBack now d).dhcpState = d.dhcpState := by
    rcases fallBack_book now d with same | ⟨-, config, adopted⟩
    · exact congrArg Book.state same
    · exact congrArg Book.state adopted
  simp only [pollAsking]
  split
  · unfold resend
    split
    · exact ⟨.discovering, Or.inl rfl, start_book now si _⟩
    · split
      · exact ⟨.requesting, Or.inr rfl, request_book now si _ false⟩
      · exact ⟨.discovering, Or.inl rfl, discover_book now si _⟩
  · refine ⟨d.dhcpState, waiting, ?_⟩
    rw [← state]
    rfl

theorem bound_cases (now : UInt64) (checked si : SysRead) (d : Driver) :
    now < d.dhcpRenewMs ∧ book (pollBound now checked si d) = book d ∨
      book (pollBound now checked si d) = (book d).enter .renewing := by
  have renamed : book (dhcpReadHostname checked { d with dhcpNameCheckMs := now + dhcpNameCheckMs }).2 =
      book d := by
    rw [hostname_book]
    simp only [book, netConfig, Driver.myIp]
  unfold pollBound
  split
  · exact Or.inr (renewNow_book now si d)
  · next early =>
    have before : now < d.dhcpRenewMs := UInt64.not_le.mp early
    split
    · dsimp only
      split
      · right
        calc book (renewNow now si (dhcpReadHostname checked { d with dhcpNameCheckMs := now + dhcpNameCheckMs }).2)
            = (book (dhcpReadHostname checked { d with dhcpNameCheckMs := now + dhcpNameCheckMs }).2).enter
                .renewing := renewNow_book now si _
          _ = (book d).enter .renewing := by rw [renamed]
      · exact Or.inl ⟨before, renamed⟩
    · exact Or.inl ⟨before, rfl⟩

/-- What the system says of its name. -/
def silent : SysRead := ⟨false, Vector.replicate 32 0⟩

theorem bound_rests (si : SysRead) {now : UInt64} {d : Driver} (early : now < d.dhcpRenewMs)
    (named : d.hostname.val ≠ []) : book (pollBound now silent si d) = book d := by
  unfold pollBound
  rw [if_neg (UInt64.not_le.mpr early)]
  split
  · have unread : dhcpReadHostname silent { d with dhcpNameCheckMs := now + dhcpNameCheckMs } =
        (false, { d with dhcpNameCheckMs := now + dhcpNameCheckMs }) := by
      rw [dhcpReadHostname, if_pos]
      exact ⟨rfl, named⟩
    rw [unread]
    simp only [Bool.false_eq_true, if_false, book, netConfig, Driver.myIp]
  · rfl

theorem renewing_cases (now : UInt64) (si : SysRead) (d : Driver) (state : d.dhcpState = .renewing) :
    (d.dhcpExpireMs ≤ now ∧
        ∃ config, book (pollRenewing now si d) =
          ((book d).adopt zeroIp d.netSource config).enter .discovering) ∨
      now < d.dhcpExpireMs ∧ book (pollRenewing now si d) = book d := by
  unfold pollRenewing
  split
  · next over_ =>
    refine Or.inl ⟨over_, netConfig (setIp zeroIp d), ?_⟩
    rw [start_book]
    rfl
  · next early =>
    refine Or.inr ⟨UInt64.not_le.mp early, ?_⟩
    split
    · rw [request_book, if_pos rfl, ← state]
      rfl
    · rfl

theorem gwPoll_book (now : UInt64) (d : Driver) : book (gwPoll now d) = book d := by
  unfold gwPoll
  split
  · rfl
  · split
    · rfl
    · simp only [book, netConfig, Driver.myIp, sendEthFrame]

theorem poll_cases (now : UInt64) (checked si : SysRead) (d : Driver) :
    d.dhcpState = .off ∧ book (dhcpPoll now checked si d) = book d ∨
      (∃ s, (s = .discovering ∨ s = .requesting) ∧ (d.dhcpState = .discovering ∨ d.dhcpState = .requesting) ∧
        book (dhcpPoll now checked si d) = (book (fallBack now d)).enter s) ∨
      d.dhcpState = .bound ∧ now < d.dhcpRenewMs ∧ book (dhcpPoll now checked si d) = book d ∨
      d.dhcpState = .bound ∧ book (dhcpPoll now checked si d) = (book d).enter .renewing ∨
      d.dhcpState = .renewing ∧ d.dhcpExpireMs ≤ now ∧ (∃ config, book (dhcpPoll now checked si d) =
        ((book d).adopt zeroIp d.netSource config).enter .discovering) ∨
      d.dhcpState = .renewing ∧ now < d.dhcpExpireMs ∧ book (dhcpPoll now checked si d) = book d := by
  cases state : d.dhcpState with
  | off => exact Or.inl ⟨rfl, by simp only [dhcpPoll, state]⟩
  | discovering =>
      obtain ⟨s, legal, same⟩ := asking_cases now si d (Or.inl state)
      exact Or.inr (Or.inl ⟨s, legal, Or.inl rfl, by simpa only [dhcpPoll, state] using same⟩)
  | requesting =>
      obtain ⟨s, legal, same⟩ := asking_cases now si d (Or.inr state)
      exact Or.inr (Or.inl ⟨s, legal, Or.inr rfl, by simpa only [dhcpPoll, state] using same⟩)
  | bound =>
      rcases bound_cases now checked si d with ⟨early, same⟩ | renews
      · exact Or.inr (Or.inr (Or.inl ⟨rfl, early, by simpa only [dhcpPoll, state] using same⟩))
      · exact Or.inr (Or.inr (Or.inr (Or.inl ⟨rfl, by simpa only [dhcpPoll, state] using renews⟩)))
  | renewing =>
      rcases renewing_cases now si d state with ⟨late, config, expired⟩ | ⟨early, same⟩
      · exact Or.inr (Or.inr (Or.inr (Or.inr (Or.inl
          ⟨rfl, late, config, by simpa only [dhcpPoll, state] using expired⟩))))
      · exact Or.inr (Or.inr
          (Or.inr (Or.inr (Or.inr ⟨rfl, early, by simpa only [dhcpPoll, state] using same⟩))))

end Steps

end R2Apps.EthLeases
