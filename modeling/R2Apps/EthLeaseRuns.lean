import R2Apps.EthLeases

/-! Runs of the Ethernet driver: a leased address is used only while its lease stands, as
long as no server refuses an address in use. A refusal does start a renewing client
over, but the address stays; a bound client does not look at it. -/
namespace R2Apps.EthLeaseRuns
open ByteMemory BufferPrefixes EthernetReceive EthDriver DhcpFrames EthLeases

/-- The two times of the driver lie within the lease, unless its end is past the clock's range. -/
def Covers (l : Lease) (renew expire : UInt64) : Prop :=
  ∀ e, l.expiry = some e → e < 2 ^ 64 → renew.toNat ≤ e ∧ expire.toNat = e

structure Sound (b : Book) (lease : Option Lease) : Prop where
  published : b.ip ≠ zeroIp → b.published = some b.config
  source : b.config.source = publishedSource b.ip b.source
  idle : b.state ≠ .bound → b.state ≠ .renewing → b.ip = zeroIp ∨ b.source ≠ .dhcp
  held : b.state = .bound ∨ b.state = .renewing → b.source = .dhcp ∧ (b.renew ≠ 0 ∨ b.expire ≠ 0) ∧
    ∃ l, lease = some l ∧ (b.ip ≠ zeroIp → l.refused = false) ∧ Covers l b.renew b.expire

section Transitions
variable {b : Book} {lease : Option Lease} {config : NetConfig} {ip : Ip} {source : NetSource}

theorem Sound.backed {d : Driver} (sound : Sound (book d) lease) (inUse : usesLease d) :
    (d.dhcpState = .bound ∨ d.dhcpState = .renewing) ∧
      ∃ l, lease = some l ∧ l.refused = false ∧ Covers l d.dhcpRenewMs d.dhcpExpireMs := by
  obtain ⟨⟨c, published, fromDhcp⟩, nonzero⟩ := inUse
  have current : c = netConfig d := Option.some.inj (published.symm.trans (sound.published nonzero))
  have leased : d.netSource = .dhcp := by
    rw [current] at fromDhcp
    simpa only [netConfig, publishedSource, if_neg nonzero] using fromDhcp
  have state : d.dhcpState = .bound ∨ d.dhcpState = .renewing := by
    by_contra neither
    obtain ⟨notBound, notRenewing⟩ := not_or.mp neither
    rcases sound.idle notBound notRenewing with zero | other
    · exact nonzero zero
    · exact other leased
  obtain ⟨-, -, l, held, stands, covers⟩ := sound.held state
  exact ⟨state, l, held, stands nonzero, covers⟩

theorem Sound.enter_asking (sound : Sound b lease) {s : DhcpState} (asks : s = .discovering ∨ s = .requesting)
    (free : b.ip = zeroIp ∨ b.source ≠ .dhcp) : Sound (b.enter s) lease := by
  refine ⟨sound.published, sound.source, fun _ _ => free, fun holds => ?_⟩
  rcases asks with rfl | rfl <;> rcases holds with holds | holds <;> exact DhcpState.noConfusion holds

theorem Sound.enter_renewing (sound : Sound b lease) (bound : b.state = .bound ∨ b.state = .renewing) :
    Sound (b.enter .renewing) lease :=
  ⟨sound.published, sound.source, fun _ notRenewing => absurd rfl notRenewing, fun _ => sound.held bound⟩

theorem Sound.republish (sound : Sound b lease) (honest : config.source = publishedSource b.ip b.source) :
    Sound { b with config := config, published := some config } lease :=
  ⟨fun _ => rfl, honest, sound.idle, sound.held⟩

theorem Sound.adopt_free {s : DhcpState} (honest : config.source = publishedSource ip source)
    (asks : s = .discovering ∨ s = .requesting) (free : ip = zeroIp ∨ source ≠ .dhcp) :
    Sound ((b.adopt ip source config).enter s) lease := by
  refine ⟨fun _ => rfl, honest, fun _ _ => free, fun holds => ?_⟩
  rcases asks with rfl | rfl <;> rcases holds with holds | holds <;> exact DhcpState.noConfusion holds

end Transitions

theorem book_source (d : Driver) : (book d).config.source = publishedSource (book d).ip (book d).source := rfl

theorem leaseSeconds_times (now : UInt64) (seconds : UInt32) :
    leaseTimes now seconds = if leaseSeconds seconds = 0xFFFFFFFF
      then (0xFFFFFFFFFFFFFFFF, 0xFFFFFFFFFFFFFFFF)
      else (now + (leaseSeconds seconds).toUInt64 * 500, now + (leaseSeconds seconds).toUInt64 * 1000) := rfl

theorem granted_covers (now : UInt64) (packet : List UInt8) :
    Covers (granted now packet) (leaseTimes now (optionsOf packet).lease).1
      (leaseTimes now (optionsOf packet).lease).2 := by
  intro e ends small
  rw [leaseSeconds_times]
  simp only [granted] at ends
  generalize leaseSeconds (optionsOf packet).lease = seconds at ends ⊢
  split at ends
  · cases ends
  · next finite =>
    have bound := seconds.toNat_lt
    have clock := now.toNat_lt
    rw [if_neg finite, ← Option.some.inj ends]
    rw [← Option.some.inj ends] at small
    have half : (now + seconds.toUInt64 * 500).toNat = now.toNat + seconds.toNat * 500 := by
      rw [UInt64.toNat_add, UInt64.toNat_mul, UInt32.toNat_toUInt64]
      simp only [UInt64.reduceToNat]
      omega
    have whole : (now + seconds.toUInt64 * 1000).toNat = now.toNat + seconds.toNat * 1000 := by
      rw [UInt64.toNat_add, UInt64.toNat_mul, UInt32.toNat_toUInt64]
      simp only [UInt64.reduceToNat]
      omega
    exact ⟨by rw [half]; omega, whole⟩

theorem turns_apart {n a c : Nat} (small : c < n) (some_ : c ≠ 0) :
    ¬((a + c) % n = 0 ∧ (a + 2 * c) % n = 0) := by
  rintro ⟨once, twice⟩
  have first := Nat.dvd_of_mod_eq_zero once
  have second := Nat.dvd_of_mod_eq_zero twice
  rw [Nat.two_mul, ← Nat.add_assoc] at second
  exact absurd (Nat.le_of_dvd (Nat.pos_of_ne_zero some_) ((Nat.dvd_add_right first).mp second))
    (Nat.not_le.mpr small)

theorem times_apart (now : UInt64) (s : UInt32) (some_ : s ≠ 0) (half : now + s.toUInt64 * 500 = 0) :
    now + s.toUInt64 * 1000 ≠ 0 := by
  intro whole
  have positive : s.toNat ≠ 0 := fun zero => some_ (UInt32.toNat_inj.mp zero)
  have bound := s.toNat_lt
  have first := congrArg UInt64.toNat half
  have second := congrArg UInt64.toNat whole
  rw [UInt64.toNat_add, UInt64.toNat_mul, UInt32.toNat_toUInt64, UInt64.toNat_zero, Nat.add_mod_mod]
    at first second
  have double : s.toNat * (1000 : UInt64).toNat = 2 * (s.toNat * (500 : UInt64).toNat) := by
    rw [show (1000 : UInt64).toNat = 2 * (500 : UInt64).toNat from rfl, Nat.mul_left_comm]
  rw [double] at second
  have small : s.toNat * (500 : UInt64).toNat < 2 ^ 64 :=
    Nat.lt_trans (Nat.mul_lt_mul_of_pos_right bound (by decide)) (by decide)
  exact turns_apart small (Nat.mul_ne_zero positive (by decide)) ⟨first, second⟩

theorem leaseTimes_some (now : UInt64) (seconds : UInt32) :
    (leaseTimes now seconds).1 ≠ 0 ∨ (leaseTimes now seconds).2 ≠ 0 := by
  rw [leaseSeconds_times]
  have some_ : leaseSeconds seconds ≠ 0 := by
    unfold leaseSeconds
    by_cases zero : seconds = 0
    · rw [if_pos zero]
      decide
    · rw [if_neg zero]
      exact zero
  by_cases endless : leaseSeconds seconds = 0xFFFFFFFF
  · rw [if_pos endless]
    exact Or.inl (by decide)
  · rw [if_neg endless]
    rcases eq_or_ne (now + (leaseSeconds seconds).toUInt64 * 500) 0 with half | half
    · exact Or.inr (times_apart now _ some_ half)
    · exact Or.inl half

section Steps
variable {t : Trace} {e : Event}

theorem poll_sound (now : UInt64) (checked si : SysRead) (sound : Sound (book t.driver) t.lease) :
    Sound (book (dhcpPoll now checked si t.driver)) t.lease := by
  have honest := book_source (dhcpPoll now checked si t.driver)
  rcases poll_cases now checked si t.driver with ⟨-, same⟩ | ⟨s, asks, waiting, same⟩ | ⟨-, -, same⟩ |
    ⟨bound, same⟩ | ⟨renewing, -, config, same⟩ | ⟨-, -, same⟩
  · rw [same]
    exact sound
  · have idle : (book t.driver).ip = zeroIp ∨ (book t.driver).source ≠ .dhcp := by
      refine sound.idle ?_ ?_ <;> rcases waiting with state | state <;> simp [book, state]
    rcases fallBack_book now t.driver with kept | ⟨-, config, adopted⟩
    · rw [same, kept]
      exact sound.enter_asking asks idle
    · rw [same, adopted] at honest ⊢
      exact Sound.adopt_free honest asks (Or.inr (show NetSource.fallback ≠ .dhcp by decide))
  · rw [same]
    exact sound
  · rw [same]
    exact sound.enter_renewing (Or.inl bound)
  · rw [same] at honest ⊢
    exact Sound.adopt_free honest (Or.inl rfl) (Or.inl rfl)
  · rw [same]
    exact sound

theorem Sound.refuse {b : Book} {lease : Option Lease} (sound : Sound b lease)
    (free : b.state = .bound ∨ b.state = .renewing → b.ip = zeroIp) : Sound b (lease.map refuse) := by
  refine ⟨sound.published, sound.source, sound.idle, fun holds => ?_⟩
  obtain ⟨leased_, some_, l, held, -, covers⟩ := sound.held holds
  exact ⟨leased_, some_, EthLeases.refuse l,
    by rw [held]; rfl, fun inUse => absurd (free holds) inUse, covers⟩

theorem packet_sound (now : UInt64) (si : SysRead) (packet : List UInt8)
    (sound : Sound (book t.driver) t.lease)
    (calm : leased t.driver → t.driver.myIp ≠ zeroIp →
      ¬(forUs packet t.driver ∧ (optionsOf packet).msgType = 6)) :
    Sound (book (onDhcpPacket now si packet t.driver)) (hear now packet t) := by
  rcases packet_cases now si packet t.driver with ⟨quiet, effect⟩ | ⟨ours, asked, five, config, bound⟩ |
    ⟨ours, asked, six, over_⟩
  · have heard : Sound (book t.driver) (hear now packet t) := by
      unfold hear
      split
      · next ours =>
        split
        · next ack =>
          rcases quiet with foreign | ⟨notAck, -⟩ | unasked
          · exact absurd ours foreign
          · exact absurd ack.1 notAck
          · exact absurd ack.2 unasked
        · split
          · next six =>
            refine sound.refuse fun leased_ => ?_
            by_contra inUse
            exact calm leased_ inUse ⟨ours, six⟩
          · exact sound
      · exact sound
    rcases effect with same | ⟨discovering, same⟩
    · rw [same]
      exact heard
    · rw [same]
      refine heard.enter_asking (Or.inr rfl) (heard.idle ?_ ?_) <;> simp [book, discovering]
  · -- the acknowledgement brings the lease that the address stands on
    have heard : hear now packet t = some (granted now packet) := by
      rw [hear, if_pos ours, if_pos ⟨five, asked⟩]
    have honest := book_source (onDhcpPacket now si packet t.driver)
    rw [heard]
    rw [bound] at honest ⊢
    exact ⟨fun _ => rfl, honest, fun notBound => absurd rfl notBound,
      fun _ => ⟨rfl, leaseTimes_some now _, granted now packet, rfl, fun _ => rfl, granted_covers now packet⟩⟩
  · have free : (book t.driver).ip = zeroIp ∨ (book t.driver).source ≠ .dhcp := by
      rcases asked with requesting | renewing
      · exact sound.idle (by simp [book, requesting]) (by simp [book, requesting])
      · left
        by_contra inUse
        exact calm (Or.inr renewing) inUse ⟨ours, six⟩
    rw [over_]
    have started := Sound.enter_asking sound (Or.inl rfl) free
    exact ⟨started.published, started.source, started.idle, fun holds => by
      rcases holds with holds | holds <;> exact DhcpState.noConfusion holds⟩

theorem frame_sound (now : UInt64) (si : SysRead) (m stack : Memory) (len : Nat)
    (sound : Sound (book t.driver) t.lease) (calm : Calm t (.frame now si m stack len)) :
    Sound (book (advance t (.frame now si m stack len)).driver)
      (advance t (.frame now si m stack len)).lease := by
  cases payload : dhcpPayload m len with
  | none =>
      have kept : (advance t (.frame now si m stack len)).lease = t.lease := by
        simp only [advance, observe, payload]
      rw [kept]
      have honest := book_source (onEthFrame now si m stack len t.driver)
      rcases frame_other now si t.driver stack payload with same | ⟨config, same⟩
      · exact (same ▸ sound : Sound (book (onEthFrame now si m stack len t.driver)) t.lease)
      · rw [same] at honest
        have published := sound.republish honest
        exact (same ▸ published : Sound (book (onEthFrame now si m stack len t.driver)) t.lease)
  | some packet =>
      have heard : (advance t (.frame now si m stack len)).lease = hear now packet t := by
        simp only [advance, observe, payload]
      have driven : (advance t (.frame now si m stack len)).driver = onDhcpPacket now si packet t.driver :=
        frame_packet payload
      rw [heard, driven]
      refine packet_sound now si packet sound fun leased_ inUse refusal => ?_
      exact calm leased_ inUse packet ⟨payload, refusal.1, refusal.2⟩

theorem advance_sound (sound : Sound (book t.driver) t.lease) (calm : Calm t e) :
    Sound (book (advance t e).driver) (advance t e).lease := by
  cases e with
  | frame now si m stack len => exact frame_sound now si m stack len sound calm
  | poll now checked si => exact poll_sound now checked si sound
  | gwPoll now =>
      have same : book (advance t (.gwPoll now)).driver = book t.driver := gwPoll_book now t.driver
      rw [same]
      exact sound

theorem starts_sound (starts : Starts t) : Sound (book t.driver) t.lease := by
  cases starts with
  | static s =>
      refine ⟨fun _ => rfl, rfl, fun _ _ => Or.inr (show NetSource.static ≠ .dhcp by decide), fun holds => ?_⟩
      obtain ⟨mask, net, known, at_, shaped⟩ := maskGw_shape (loaded s)
      have off : (book (mainStatic s)).state = .off := by
        simp only [mainStatic, shaped]
        rfl
      rw [off] at holds
      rcases holds with holds | holds <;> exact DhcpState.noConfusion holds
  | dhcp now si s =>
      have started := start_book now si (setMyIp zeroIp { loaded s with fallbackIp := s.ip })
      have same : book (mainDhcp now si s) =
        (book (setMyIp zeroIp { loaded s with fallbackIp := s.ip })).enter .discovering := started
      rw [same]
      refine ⟨fun nonzero => absurd rfl nonzero, rfl, fun _ _ => Or.inl rfl, fun holds => ?_⟩
      rcases holds with holds | holds <;> exact DhcpState.noConfusion holds

theorem reach_sound (reached : Reach Calm t) : Sound (book t.driver) t.lease := by
  induction reached with
  | start starts => exact starts_sound starts
  | next e _ calm ih => exact advance_sound ih calm

end Steps

section Polling
variable {t : Trace} {now : UInt64} {checked si : SysRead}

theorem poll_leaves_bound (after : (dhcpPoll now checked si t.driver).dhcpState = .bound) :
    t.driver.dhcpState = .bound ∧ now < t.driver.dhcpRenewMs ∧
      book (dhcpPoll now checked si t.driver) = book t.driver := by
  have state : (book (dhcpPoll now checked si t.driver)).state = .bound := after
  rcases poll_cases now checked si t.driver with ⟨off, same⟩ | ⟨s, asks, waiting, same⟩ |
    ⟨bound, early, same⟩ |
    ⟨bound, same⟩ | ⟨renewing, -, config, same⟩ | ⟨renewing, early, same⟩ <;> rw [same] at state
  · rw [show (book t.driver).state = _ from off] at state
    cases state
  · rcases asks with rfl | rfl <;> cases state
  · exact ⟨bound, early, same⟩
  · cases state
  · cases state
  · rw [show (book t.driver).state = _ from renewing] at state
    cases state

theorem poll_leaves_renewing (after : (dhcpPoll now checked si t.driver).dhcpState = .renewing) :
    t.driver.dhcpState = .bound ∧ book (dhcpPoll now checked si t.driver) = (book t.driver).enter .renewing ∨
      t.driver.dhcpState = .renewing ∧ now < t.driver.dhcpExpireMs ∧
        book (dhcpPoll now checked si t.driver) = book t.driver := by
  have state : (book (dhcpPoll now checked si t.driver)).state = .renewing := after
  rcases poll_cases now checked si t.driver with ⟨off, same⟩ | ⟨s, asks, waiting, same⟩ |
    ⟨bound, early, same⟩ |
    ⟨bound, same⟩ | ⟨renewing, -, config, same⟩ | ⟨renewing, early, same⟩ <;> rw [same] at state
  · rw [show (book t.driver).state = _ from off] at state
    cases state
  · rcases asks with rfl | rfl <;> cases state
  · rw [show (book t.driver).state = _ from bound] at state
    cases state
  · exact Or.inl ⟨bound, same⟩
  · cases state
  · exact Or.inr ⟨renewing, early, same⟩

theorem Covers.lasts {l : Lease} {renew expire : UInt64} (covers : Covers l renew expire)
    (early : now < renew ∨ now < expire) : l.lasts now := by
  intro e ends
  by_cases small : e < 2 ^ 64
  · obtain ⟨before, exactly⟩ := covers e ends small
    rcases early with early | early
    · have := UInt64.lt_iff_toNat_lt.mp early
      omega
    · have := UInt64.lt_iff_toNat_lt.mp early
      omega
  · have := now.toNat_lt
    omega

theorem second_poll_early (reads : Fin 4 → SysRead)
    (state : (pollTwice now reads t).driver.dhcpState = .bound ∨
      (pollTwice now reads t).driver.dhcpState = .renewing) :
    now < (pollTwice now reads t).driver.dhcpRenewMs ∨ now < (pollTwice now reads t).driver.dhcpExpireMs := by
  obtain ⟨first, poll⟩ : ∃ first, advance t (.poll now (reads 0) (reads 1)) = first := ⟨_, rfl⟩
  have twice : pollTwice now reads t = advance first (.poll now (reads 2) (reads 3)) := by
    rw [← poll]
    rfl
  have stepped : dhcpPoll now (reads 0) (reads 1) t.driver = first.driver := congrArg Trace.driver poll
  rw [twice] at state ⊢
  rcases state with bound | renewing
  · obtain ⟨-, early, same⟩ := poll_leaves_bound bound
    left
    rw [show (advance first (.poll now (reads 2) (reads 3))).driver.dhcpRenewMs =
      first.driver.dhcpRenewMs from
      congrArg Book.renew same]
    exact early
  · rcases poll_leaves_renewing renewing with ⟨bound, same⟩ | ⟨-, early, same⟩
    · -- the first poll left the lease bound, so its half was not over
      rw [← stepped] at bound
      obtain ⟨-, early, kept⟩ := poll_leaves_bound bound
      left
      rw [show (advance first (.poll now (reads 2) (reads 3))).driver.dhcpRenewMs =
        first.driver.dhcpRenewMs from
        congrArg Book.renew same, ← stepped,
        show (dhcpPoll now (reads 0) (reads 1) t.driver).dhcpRenewMs = _ from congrArg Book.renew kept]
      exact early
    · right
      rw [show (advance first (.poll now (reads 2) (reads 3))).driver.dhcpExpireMs =
        first.driver.dhcpExpireMs from
        congrArg Book.expire same]
      exact early

theorem sound_respected (sound : Sound (book t.driver) t.lease) : Respected t := by
  intro now reads inUse
  have twice : Sound (book (pollTwice now reads t).driver) (pollTwice now reads t).lease :=
    poll_sound (t := advance t (.poll now (reads 0) (reads 1))) now (reads 2) (reads 3)
      (poll_sound now (reads 0) (reads 1) sound)
  obtain ⟨state, l, lease, stands, covers⟩ := twice.backed inUse
  exact ⟨l, lease, covers.lasts (second_poll_early reads state), stands⟩

variable (t now checked si) in
theorem asking_poll_keeps (waiting : t.driver.dhcpState = .discovering ∨ t.driver.dhcpState = .requesting)
    (inUse : t.driver.myIp ≠ zeroIp) :
    ((dhcpPoll now checked si t.driver).dhcpState = .discovering ∨
        (dhcpPoll now checked si t.driver).dhcpState = .requesting) ∧
      (dhcpPoll now checked si t.driver).myIp = t.driver.myIp ∧
      (dhcpPoll now checked si t.driver).published = t.driver.published := by
  have unfallen : book (fallBack now t.driver) = book t.driver := by
    rcases fallBack_book now t.driver with same | ⟨zero, -⟩
    · exact same
    · exact absurd zero inUse
  obtain ⟨s, asks, same⟩ := asking_cases now si t.driver waiting
  have polled : dhcpPoll now checked si t.driver = pollAsking now si t.driver := by
    rcases waiting with state | state <;> simp only [dhcpPoll, state]
  rw [unfallen] at same
  rw [polled]
  exact ⟨by rw [show (pollAsking now si t.driver).dhcpState = s from congrArg Book.state same]; exact asks,
    congrArg Book.ip same, congrArg Book.published same⟩

theorem leased_poll_keeps (checked si : SysRead) (leased_ : leased t.driver)
    (early : now < t.driver.dhcpExpireMs) :
    leased (dhcpPoll now checked si t.driver) ∧
      (dhcpPoll now checked si t.driver).dhcpExpireMs = t.driver.dhcpExpireMs ∧
      (dhcpPoll now checked si t.driver).myIp = t.driver.myIp ∧
      (dhcpPoll now checked si t.driver).published = t.driver.published := by
  rcases poll_cases now checked si t.driver with ⟨off, -⟩ | ⟨-, -, waiting, -⟩ | ⟨bound, -, same⟩ |
    ⟨-, same⟩ |
    ⟨-, late, -⟩ | ⟨renewing, -, same⟩
  · rcases leased_ with state | state <;> rw [off] at state <;> cases state
  · rcases leased_ with state | state <;> rcases waiting with asks | asks <;> rw [asks] at state <;>
      cases state
  · exact ⟨Or.inl ((congrArg Book.state same).trans bound), congrArg Book.expire same, congrArg Book.ip same,
      congrArg Book.published same⟩
  · exact ⟨Or.inr (congrArg Book.state same), congrArg Book.expire same, congrArg Book.ip same,
      congrArg Book.published same⟩
  · exact absurd early (UInt64.not_lt.mpr late)
  · exact ⟨Or.inr ((congrArg Book.state same).trans renewing), congrArg Book.expire same,
      congrArg Book.ip same,
      congrArg Book.published same⟩

theorem bound_poll_rests (si : SysRead) (bound : t.driver.dhcpState = .bound)
    (early : now < t.driver.dhcpRenewMs)
    (named : t.driver.hostname.val ≠ []) : book (dhcpPoll now silent si t.driver) = book t.driver := by
  have polled : dhcpPoll now silent si t.driver = pollBound now silent si t.driver := by
    simp only [dhcpPoll, bound]
  rw [polled]
  exact bound_rests si early named

/-- Two polls at some time that leave a leased address as it is. -/
def Keeps (t : Trace) : Prop :=
  ∃ now reads, (pollTwice now reads t).driver.myIp = t.driver.myIp ∧
    (pollTwice now reads t).driver.published = t.driver.published

theorem asking_keeps (waiting : t.driver.dhcpState = .discovering ∨ t.driver.dhcpState = .requesting)
    (inUse : t.driver.myIp ≠ zeroIp) : Keeps t := by
  obtain ⟨waits, ip, published⟩ := asking_poll_keeps t 0 silent silent waiting inUse
  obtain ⟨-, ip', published'⟩ := asking_poll_keeps (advance t (.poll 0 silent silent)) 0 silent silent waits
    (by rw [← ip] at inUse; exact inUse)
  exact ⟨0, fun _ => silent, ip'.trans ip, published'.trans published⟩

theorem leased_keeps (leased_ : leased t.driver) (named : t.driver.hostname.val ≠ [])
    (bound : t.driver.dhcpState = .bound) (times : t.driver.dhcpRenewMs ≠ 0 ∨ t.driver.dhcpExpireMs ≠ 0) :
    Keeps t := by
  rcases times with half | whole
  · have early : 0 < t.driver.dhcpRenewMs := UInt64.pos_iff_ne_zero.mpr half
    have first := bound_poll_rests silent bound early named
    have second := bound_poll_rests (t := advance t (.poll 0 silent silent)) silent
      ((congrArg Book.state first).trans bound)
      (by rw [show (advance t (.poll 0 silent silent)).driver.dhcpRenewMs = _ from congrArg Book.renew first]
          exact early)
      ((poll_builds 0 silent silent t.driver).named named)
    exact ⟨0, fun _ => silent, (congrArg Book.ip second).trans (congrArg Book.ip first),
      (congrArg Book.published second).trans (congrArg Book.published first)⟩
  · have early : 0 < t.driver.dhcpExpireMs := UInt64.pos_iff_ne_zero.mpr whole
    obtain ⟨still, expire, ip, published⟩ := leased_poll_keeps silent silent leased_ early
    rw [← expire] at early
    obtain ⟨-, -, ip', published'⟩ := leased_poll_keeps (t := advance t (.poll 0 silent silent)) silent silent
      still early
    exact ⟨0, fun _ => silent, ip'.trans ip, published'.trans published⟩

theorem reach_named {ok : Trace → Event → Prop} (reached : Reach ok t) :
    t.driver.dhcpState = .off ∨ t.driver.hostname.val ≠ [] := by
  induction reached with
  | start starts =>
      cases starts with
      | static s =>
          left
          obtain ⟨mask, net, known, at_, shaped⟩ := maskGw_shape (loaded s)
          simp only [mainStatic, shaped]
          rfl
      | dhcp now si s => exact Or.inr hostname_named
  | @next t e _ _ ih =>
      rcases ih with off | named
      · left
        -- a client that is off stays so
        cases e with
        | frame now si m stack len =>
            cases payload : dhcpPayload m len with
            | none =>
                rcases frame_other now si t.driver stack payload with same | ⟨config, same⟩
                · exact (congrArg Book.state same).trans off
                · exact (congrArg Book.state same).trans off
            | some packet =>
                have driven : (advance t (.frame now si m stack len)).driver =
                    onDhcpPacket now si packet t.driver :=
                  frame_packet payload
                rw [driven]
                have idle : ¬asking t.driver := by simp [asking, off]
                rcases packet_cases now si packet t.driver with ⟨-, same | ⟨discovering, -⟩⟩ | ⟨-, asked, -⟩ |
                  ⟨-, asked, -⟩
                · exact (congrArg Book.state same).trans off
                · rw [off] at discovering
                  cases discovering
                · exact absurd asked idle
                · exact absurd asked idle
        | poll now checked si =>
            have rests : (advance t (.poll now checked si)).driver = t.driver := by
              simp only [advance, step, dhcpPoll, off]
            rw [rests]
            exact off
        | gwPoll now => exact (congrArg Book.state (gwPoll_book now t.driver)).trans off
      · exact Or.inr ((step_builds t.driver e).named named)

theorem refused_breaks {e : Event} (reached : Reach Calm t) (refusal : ¬Calm t e) :
    ¬Respected (advance t e) := by
  have sound := reach_sound reached
  cases e with
  | frame now si m stack len =>
      simp only [Calm, Classical.not_imp, not_forall, Classical.not_not] at refusal
      obtain ⟨leased_, inUse, packet, payload, ours, six⟩ := refusal
      have driven : (advance t (.frame now si m stack len)).driver = onDhcpPacket now si packet t.driver :=
        frame_packet payload
      obtain ⟨fromDhcp, times, l, lease, -, -⟩ := sound.held leased_
      have heard : (advance t (.frame now si m stack len)).lease = some (refuse l) := by
        have notFive : ¬((6 : UInt8) = 5 ∧ asking t.driver) := fun five => absurd five.1 (by decide)
        simp only [advance, observe, payload, hear, if_pos ours, six, if_neg notFive, if_true,
          lease, Option.map_some]
      -- a renewing client starts over, a bound one does not look at the message
      have kept : Keeps (advance t (.frame now si m stack len)) ∧
          (onDhcpPacket now si packet t.driver).myIp = t.driver.myIp ∧
          (onDhcpPacket now si packet t.driver).published = t.driver.published := by
        rcases packet_cases now si packet t.driver with ⟨quiet, effect⟩ | ⟨-, -, five, -⟩ | ⟨-, -, -, same⟩
        · have unasked : ¬asking t.driver := by
            rcases quiet with foreign | ⟨-, notSix⟩ | unasked
            · exact absurd ours foreign
            · exact absurd six notSix
            · exact unasked
          have bound : t.driver.dhcpState = .bound := by
            rcases leased_ with bound | renewing
            · exact bound
            · exact absurd (Or.inr renewing) unasked
          have same : book (onDhcpPacket now si packet t.driver) = book t.driver := by
            rcases effect with same | ⟨discovering, -⟩
            · exact same
            · rw [bound] at discovering
              cases discovering
          have named : t.driver.hostname.val ≠ [] := by
            rcases reach_named reached with off | named
            · rw [bound] at off
              cases off
            · exact named
          have still : (onDhcpPacket now si packet t.driver).dhcpState = .bound :=
            (congrArg Book.state same).trans bound
          refine ⟨leased_keeps ?_ ?_ ?_ ?_, congrArg Book.ip same, congrArg Book.published same⟩ <;>
            rw [driven]
          · exact Or.inl still
          · exact (packet_builds now si packet t.driver).named named
          · exact still
          · rw [show (onDhcpPacket now si packet t.driver).dhcpRenewMs = _ from congrArg Book.renew same,
              show (onDhcpPacket now si packet t.driver).dhcpExpireMs = _ from congrArg Book.expire same]
            exact times
        · rw [six] at five
          cases five
        · refine ⟨asking_keeps ?_ ?_, congrArg Book.ip same, congrArg Book.published same⟩ <;> rw [driven]
          · exact Or.inl (congrArg Book.state same)
          · rw [show (onDhcpPacket now si packet t.driver).myIp = t.driver.myIp from congrArg Book.ip same]
            exact inUse
      obtain ⟨⟨later, reads, ip, published⟩, sameIp, samePublished⟩ := kept
      rw [driven] at ip published
      intro respected
      have uses : usesLease (pollTwice later reads (advance t (.frame now si m stack len))).driver := by
        refine ⟨⟨netConfig t.driver, ?_, ?_⟩, ?_⟩
        · exact (published.trans samePublished).trans (sound.published inUse)
        · have ip : (book t.driver).ip ≠ zeroIp := inUse
          calc (netConfig t.driver).source = publishedSource (book t.driver).ip (book t.driver).source := rfl
            _ = .dhcp := by rw [fromDhcp, publishedSource, if_neg ip]
        · rw [ip, sameIp]
          exact inUse
      obtain ⟨l', lease', -, stands⟩ := respected later reads uses
      have same : some (refuse l) = some l' := heard.symm.trans lease'
      rw [← Option.some.inj same] at stands
      cases stands
  | poll now checked si => exact absurd trivial refusal
  | gwPoll now => exact absurd trivial refusal

end Polling

/-! Where an address comes from, and what is sent, in any run. -/
section Adoption

def Always : Trace → Event → Prop := fun _ _ => True

/-- The event is an acknowledgement of a request under way, and it names this address. -/
def FromAck (d : Driver) (e : Event) (ip : Ip) : Prop :=
  ∃ now si m stack len packet, e = .frame now si m stack len ∧ carries 5 m len d packet ∧ asking d ∧
    ip = yiaddr packet

structure Adopted (d : Driver) (e : Event) : Prop where
  address : (step d e).myIp ≠ d.myIp → (step d e).myIp = zeroIp ∨
    (step d e).netSource = .fallback ∧ (step d e).myIp = d.fallbackIp ∨ FromAck d e (step d e).myIp
  source : (step d e).netSource = .dhcp → d.netSource = .dhcp ∨ FromAck d e (step d e).myIp
  bound : (step d e).dhcpState = .bound → d.dhcpState = .bound ∨ FromAck d e (step d e).myIp

theorem Adopted.kept {d : Driver} {e : Event} {b : Book} (same : book (step d e) = b)
    (ip : b.ip = (book d).ip)
    (source : b.source = (book d).source) (bound : b.state = .bound → (book d).state = .bound) :
    Adopted d e := by
  have address : (step d e).myIp = d.myIp := (congrArg Book.ip same).trans ip
  have origin : (step d e).netSource = d.netSource := (congrArg Book.source same).trans source
  have state : (step d e).dhcpState = b.state := congrArg Book.state same
  exact ⟨fun changed => absurd address changed, fun leased => Or.inl (origin.symm.trans leased),
    fun binds => Or.inl (bound (state.symm.trans binds))⟩

theorem poll_adopted (d : Driver) (now : UInt64) (checked si : SysRead) :
    Adopted d (.poll now checked si) := by
  rcases poll_cases now checked si d with ⟨off, same⟩ | ⟨s, asks, waiting, same⟩ | ⟨-, -, same⟩ |
    ⟨-, same⟩ | ⟨renewing, -, config, same⟩ | ⟨-, -, same⟩
  · exact Adopted.kept same rfl rfl id
  · have unbound : (book (step d (.poll now checked si))).state ≠ .bound := by
      rw [show (book (step d (.poll now checked si))).state = s from congrArg Book.state same]
      rcases asks with rfl | rfl <;> decide
    rcases fallBack_book now d with kept | ⟨zero, config, fallen⟩
    · rw [kept] at same
      refine Adopted.kept same rfl rfl fun binds => ?_
      exact absurd ((congrArg Book.state same).trans binds) unbound
    · rw [fallen] at same
      have source : (step d (.poll now checked si)).netSource = .fallback := congrArg Book.source same
      refine ⟨fun _ => Or.inr (Or.inl ⟨source, congrArg Book.ip same⟩), fun leased => ?_, fun b =>
        absurd b unbound⟩
      rw [source] at leased
      cases leased
  · exact Adopted.kept same rfl rfl id
  · exact Adopted.kept same rfl rfl fun binds => absurd binds (show DhcpState.renewing ≠ .bound by decide)
  · have source : (step d (.poll now checked si)).netSource = d.netSource := congrArg Book.source same
    refine ⟨fun _ => Or.inl (congrArg Book.ip same), fun leased =>
      Or.inl (source.symm.trans leased), fun b => ?_⟩
    rw [show (step d (.poll now checked si)).dhcpState = .discovering from congrArg Book.state same] at b
    cases b
  · exact Adopted.kept same rfl rfl id

theorem frame_adopted (d : Driver) (now : UInt64) (si : SysRead) (m stack : Memory) (len : Nat) :
    Adopted d (.frame now si m stack len) := by
  cases payload : dhcpPayload m len with
  | none =>
      rcases frame_other now si d stack payload with same | ⟨config, same⟩
      · exact Adopted.kept same rfl rfl id
      · exact Adopted.kept same rfl rfl id
  | some packet =>
      have driven : step d (.frame now si m stack len) = onDhcpPacket now si packet d := frame_packet payload
      rcases packet_cases now si packet d with ⟨-, same | ⟨-, same⟩⟩ | ⟨ours, asked, five, config, same⟩ |
        ⟨-, -, -, same⟩ <;> rw [← driven] at same
      · exact Adopted.kept same rfl rfl id
      · exact Adopted.kept same rfl rfl fun binds =>
          absurd binds (show DhcpState.requesting ≠ .bound by decide)
      · have acked : FromAck d (.frame now si m stack len) (step d (.frame now si m stack len)).myIp :=
          ⟨now, si, m, stack, len, packet, rfl, ⟨payload, ours, five⟩, asked, congrArg Book.ip same⟩
        exact ⟨fun _ => Or.inr (Or.inr acked), fun _ => Or.inr acked, fun _ => Or.inr acked⟩
      · exact Adopted.kept same rfl rfl fun binds =>
          absurd binds (show DhcpState.discovering ≠ .bound by decide)

theorem step_adopted (d : Driver) (e : Event) : Adopted d e := by
  cases e with
  | frame now si m stack len => exact frame_adopted d now si m stack len
  | poll now checked si => exact poll_adopted d now checked si
  | gwPoll now =>
      have same : book (step d (.gwPoll now)) = book d := gwPoll_book now d
      exact Adopted.kept same rfl rfl id

theorem reach_wellBuilt {ok : Trace → Event → Prop} {t : Trace} (reached : Reach ok t) :
    ∀ frame, .dhcp frame ∈ t.driver.sent → WellBuilt frame := by
  induction reached with
  | start starts =>
      intro frame member
      cases starts with
      | static s =>
          obtain ⟨mask, net, known, at_, shaped⟩ := maskGw_shape (loaded s)
          simp only [mainStatic, shaped] at member
          exact absurd member List.not_mem_nil
      | dhcp now si s =>
          rcases (start_builds now si (setMyIp zeroIp { loaded s with
            fallbackIp := s.ip })).frames frame member with
            old | well
          · exact absurd old List.not_mem_nil
          · exact well
  | @next t e _ _ ih =>
      intro frame member
      rcases (step_builds t.driver e).frames frame member with old | well
      · exact ih frame old
      · exact well

end Adoption

/-- A leased address is in use after two polls only while its lease lasts and stands, in every run
in which no address in use is refused, and a refusal of one in use breaks this. In any run an address
is adopted from an acknowledgement alone, and every frame of the client is well built and stays in
its buffer. -/
theorem leases_respected (t : Trace) :
    (Reach Calm t → Respected t ∧ ∀ e, Respected (advance t e) ↔ Calm t e) ∧
    (Reach Always t → (∀ e, Adopted t.driver e) ∧
      (∀ frame, .dhcp frame ∈ t.driver.sent → WellBuilt frame) ∧
      ∀ e x, dhcpFrameLen ≤ x → (step t.driver e).dhcpFrame x = t.driver.dhcpFrame x) := by
  refine ⟨fun reached =>
    ⟨sound_respected (reach_sound reached), fun e => ⟨fun respected => ?_, fun calm => ?_⟩⟩,
    fun reached => ⟨step_adopted t.driver, reach_wellBuilt reached, fun e => (step_builds t.driver e).around⟩⟩
  · by_contra refusal
    exact refused_breaks reached refusal respected
  · exact sound_respected (advance_sound (reach_sound reached) calm)

/-! A server that grants 10.0.0.7 for an hour and refuses it when the client renews. -/
section Refusal

def cardMac : List UInt8 := [0x52, 0x54, 0x00, 0x12, 0x34, 0x56]

/-- A frame from the server: Ethernet, IPv4 and UDP headers, the fixed part and the options. -/
def serverFrame (options : List UInt8) : List UInt8 :=
  let fixed := [2, 1, 6, 0, 0x6e, 0x0c, 0x12, 0x34] ++ List.replicate 8 0 ++ [10, 0, 0, 7] ++
    List.replicate 8 0 ++
    cardMac ++ List.replicate 202 0 ++ [99, 130, 83, 99]
  let udp := [0, 67, 0, 68] ++ List.replicate 4 0 ++ fixed ++ options
  let header := [0x45, 0, UInt8.ofNat ((20 + udp.length) / 256), UInt8.ofNat (20 + udp.length)] ++
    List.replicate 5 0 ++ [17] ++ List.replicate 10 0
  List.replicate 12 0 ++ [0x08, 0x00] ++ header ++ udp

def fromServer (now : UInt64) (options : List UInt8) : Event :=
  .frame now ⟨true, Vector.replicate 32 0⟩ (received (serverFrame options) fun _ => 0) (fun _ => 0)
    (serverFrame options).length

def setup : Setup :=
  { mac := Vector.ofFn fun i => cardMac.getD i.val 0, cache := fun _ => ⟨[], [], false⟩
    ip := ipOf [10, 3, 4, 2], mask := zeroIp, gw := zeroIp, dns := zeroIp, memory := fun _ => 0 }

def started : Trace := ⟨mainDhcp 0 ⟨true, Vector.replicate 32 0⟩ setup, none⟩
def offered : Trace := advance started (fromServer 100 [53, 1, 2, 54, 4, 10, 0, 0, 1, 255])
def acknowledged : Trace := advance offered (fromServer 200 [53, 1, 5, 51, 4, 0, 0, 14, 16, 255])
def renewing : Trace :=
  advance acknowledged (.poll 1800200 ⟨true, Vector.replicate 32 0⟩ ⟨true, Vector.replicate 32 0⟩)
def refusal : Event := fromServer 1800300 [53, 1, 6, 255]

theorem renewing_reached : Reach Calm renewing := by
  have begun : Reach Calm started := .start (.dhcp 0 ⟨true, Vector.replicate 32 0⟩ setup)
  have offer : Reach Calm offered := .next _ begun fun leased_ => absurd leased_ (by decide)
  have ack : Reach Calm acknowledged := .next _ offer fun leased_ => absurd leased_ (by decide +kernel)
  exact .next _ ack trivial

theorem calm_frame {t : Trace} {now : UInt64} {si : SysRead} {m stack : Memory} {len : Nat}
    {packet : List UInt8}
    (calm : Calm t (.frame now si m stack len)) (leased_ : leased t.driver)
    (inUse : t.driver.myIp ≠ zeroIp) : ¬carries 6 m len t.driver packet := calm leased_ inUse packet

theorem refusal_not_calm : ¬Calm renewing refusal := by
  intro calm
  -- one evaluation, so that the run up to the refusal is made once
  have facts : renewing.driver.dhcpState = .renewing ∧ renewing.driver.myIp ≠ zeroIp ∧
      dhcpPayload (received (serverFrame [53, 1, 6, 255]) fun _ => 0) (serverFrame [53, 1, 6, 255]).length =
        some ((serverFrame [53, 1, 6, 255]).drop 42) ∧
      forUs ((serverFrame [53, 1, 6, 255]).drop 42) renewing.driver ∧
      (optionsOf ((serverFrame [53, 1, 6, 255]).drop 42)).msgType = 6 := by decide +kernel
  obtain ⟨state, inUse, payload, ours, six⟩ := facts
  exact calm_frame calm (Or.inr state) inUse ⟨payload, ours, six⟩

/-- The refused address is still in use, and published, after any number of polls at a time. -/
theorem refused_address_used : ¬∀ t, Reach Always t → Respected t := by
  intro always
  have weaker : ∀ t, Reach Calm t → Reach Always t := by
    intro t reached
    induction reached with
    | start starts => exact .start starts
    | next e _ _ ih => exact .next e ih trivial
  have broken : Respected (advance renewing refusal) :=
    always _ (.next refusal (weaker _ renewing_reached) trivial)
  exact refused_breaks renewing_reached refusal_not_calm broken

end Refusal

end R2Apps.EthLeaseRuns
