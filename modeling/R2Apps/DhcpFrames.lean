import R2Apps.EthDriver

/-! The frames that `dhcp_send_discover` and `dhcp_send_request` build. The options lie
inside the frame, their list is well formed and ends in 255, and no byte behind the
send buffer is written. -/
namespace R2Apps.DhcpFrames
open ByteMemory BufferPrefixes EthernetReceive EthDriver

/-- A code and a length before every value, a zero byte for padding, 255 at the end. -/
inductive WellFormed : List UInt8 → Prop where
  | last : WellFormed [255]
  | pad {rest : List UInt8} : WellFormed rest → WellFormed (0 :: rest)
  | option {code length : UInt8} {value rest : List UInt8} : code ≠ 0 → code ≠ 255 →
      value.length = length.toNat → WellFormed rest → WellFormed (code :: length :: (value ++ rest))

theorem WellFormed.ends {options : List UInt8} (well : WellFormed options) :
    ∃ before, options = before ++ [255] := by
  induction well with
  | last => exact ⟨[], rfl⟩
  | pad _ ih =>
      obtain ⟨before, rfl⟩ := ih
      exact ⟨0 :: before, rfl⟩
  | @option code length value _ _ _ _ _ ih =>
      obtain ⟨before, rfl⟩ := ih
      exact ⟨code :: length :: (value ++ before), by simp⟩

/-- The option area of a frame is a well-formed list and zeros. -/
structure WellBuilt (frame : List UInt8) : Prop where
  whole : frame.length = dhcpFrameLen
  options : ∃ options before, WellFormed options ∧ options = before ++ [255] ∧
    optionsAt + options.length ≤ dhcpFrameLen ∧
    frame.drop optionsAt = options ++ List.replicate (dhcpFrameLen - (optionsAt + options.length)) 0

theorem areas : ethHdrLen = 14 ∧ optionsAt = 282 ∧ dhcpFrameLen = 378 := ⟨rfl, rfl, rfl⟩

section Options
variable (msgType : UInt8) (d : Driver) {rest : List UInt8}

theorem common_length : (dhcpCommonOpts msgType d).length = 22 + d.hostname.val.length := by
  simp only [dhcpCommonOpts, List.length_append, List.length_cons, List.length_nil, Vector.length_toList]
  omega

theorem request_length (renew : Bool) (d : Driver) : (requestOpts renew d).length ≤ 12 := by
  cases renew <;> simp [requestOpts]

theorem common_wellFormed (well : WellFormed rest) : WellFormed (dhcpCommonOpts msgType d ++ rest) := by
  have parameters : WellFormed (55 :: 6 :: ([1, 3, 6, 15, 51, 58] ++ rest)) :=
    WellFormed.option (by decide) (by decide) rfl well
  have fits : d.hostname.val.length = (UInt8.ofNat d.hostname.val.length).toNat := by
    have := d.hostname.property
    rw [UInt8.toNat_ofNat']
    omega
  have named := WellFormed.option (by decide : (12 : UInt8) ≠ 0) (by decide) fits parameters
  have client : WellFormed (61 :: 7 :: ((1 :: d.card.myMac.toList) ++ _)) :=
    WellFormed.option (by decide) (by decide) (by simp) named
  have typed : WellFormed (53 :: 1 :: ([msgType] ++ _)) :=
    WellFormed.option (by decide) (by decide) rfl client
  simpa [dhcpCommonOpts] using typed

theorem request_wellFormed (renew : Bool) (well : WellFormed rest) :
    WellFormed (requestOpts renew d ++ rest) := by
  cases renew with
  | true => simpa [requestOpts] using well
  | false =>
      have server : WellFormed (54 :: 4 :: (d.dhcpServer.toList ++ rest)) :=
        WellFormed.option (by decide) (by decide) (by simp) well
      have wanted : WellFormed (50 :: 4 :: (d.dhcpOffered.toList ++ _)) :=
        WellFormed.option (by decide) (by decide) (by simp) server
      simpa [requestOpts] using wanted

end Options

section Building
variable {d : Driver} {ciaddr : Ip} {options : List UInt8}

theorem buildIpv4_length (proto : UInt8) (src dst : Ip) (payloadLen : Nat) :
    (buildIpv4 proto src dst payloadLen).length = 20 := by
  simp [buildIpv4, cksumBytes]

/-- From the options on, the fixed part writes nothing but the zeros of `bzero_buf`. -/
theorem build_behind {x : Nat} (behind : optionsAt ≤ x) :
    dhcpBuildFrame ciaddr d x = put d.dhcpFrame 0 (List.replicate dhcpFrameLen 0) x := by
  obtain ⟨ethernet, area, -⟩ := areas
  have header := buildIpv4_length 17 ciaddr bcastIp (8 + dhcpPktLen)
  have flags : ∀ frame : Memory, (if ciaddr = zeroIp then put frame 52 [0x80] else frame) x = frame x := by
    intro frame
    split
    · exact put_outside (Or.inr (by simp only [List.length_cons, List.length_nil]; omega))
    · rfl
  simp only [dhcpBuildFrame]
  rw [put_outside (Or.inr (by simp only [List.length_cons, List.length_nil]; omega)),
    put_outside (Or.inr (by simp only [Vector.length_toList]; omega)),
    put_outside (Or.inr (by simp only [Vector.length_toList]; omega)), flags,
    put_outside (Or.inr
      (by simp only [xidBytes, List.length_append, List.length_cons, List.length_nil]; omega)),
    put_outside (Or.inr (by simp only [List.length_cons, List.length_nil]; omega)),
    put_outside (Or.inr (by omega)),
    put_outside (Or.inr (by simp [bcastMac]; omega))]

theorem build_zero {x : Nat} (behind : optionsAt ≤ x) (inside : x < dhcpFrameLen) :
    dhcpBuildFrame ciaddr d x = 0 := by
  have := areas
  rw [build_behind behind, put_inside (Nat.zero_le x) (by rw [List.length_replicate]; omega),
    List.getD_eq_getElem?_getD, List.getElem?_replicate]
  split <;> rfl

theorem build_around {x : Nat} (outside : dhcpFrameLen ≤ x) : dhcpBuildFrame ciaddr d x = d.dhcpFrame x := by
  have := areas
  have behind : optionsAt ≤ x := by omega
  rw [build_behind behind, put_outside (Or.inr (by rw [List.length_replicate]; omega))]

theorem built_wellBuilt (well : WellFormed options) (room : optionsAt + options.length ≤ dhcpFrameLen) :
    WellBuilt (bytesAt (put (dhcpBuildFrame ciaddr d) optionsAt options) 0 dhcpFrameLen) := by
  have := areas
  obtain ⟨before, ends⟩ := well.ends
  refine ⟨bytesAt_length _ _ _, options, before, well, ends, room, ?_⟩
  apply List.ext_getElem?
  intro i
  rw [List.getElem?_drop, List.getElem?_append]
  by_cases inside : i < options.length
  · -- the options themselves
    have low : optionsAt + i < dhcpFrameLen := by omega
    rw [if_pos inside, bytesAt, List.getElem?_map, List.getElem?_range low, Option.map_some,
      Nat.zero_add, put_inside (by omega) (by omega), Nat.add_sub_cancel_left,
      List.getD_eq_getElem?_getD, List.getElem?_eq_getElem inside, Option.getD_some]
  · rw [if_neg inside, List.getElem?_replicate, bytesAt, List.getElem?_map]
    by_cases low : optionsAt + i < dhcpFrameLen
    · -- what is left of the area
      rw [List.getElem?_range low, if_pos (by omega), Option.map_some, Nat.zero_add,
        put_outside (Or.inr (by omega)), build_zero (by omega) low]
    · rw [if_neg (by omega), List.getElem?_eq_none (by rw [List.length_range]; omega), Option.map_none]

end Building

/-- What a piece of the driver does with the send buffer and the frames; once there is a
host name, there always is. -/
structure Builds (d d' : Driver) : Prop where
  named : d.hostname.val ≠ [] → d'.hostname.val ≠ []
  around : ∀ x, dhcpFrameLen ≤ x → d'.dhcpFrame x = d.dhcpFrame x
  frames : ∀ frame, .dhcp frame ∈ d'.sent → .dhcp frame ∈ d.sent ∨ WellBuilt frame

section Steps
variable {d d' d'' : Driver} {now : UInt64} {si checked : SysRead}

theorem Builds.same (buffer : d'.dhcpFrame = d.dhcpFrame) (sent : d'.sent = d.sent)
    (name : d'.hostname = d.hostname) : Builds d d' :=
  ⟨fun named => by rwa [name], fun x _ => by rw [buffer], fun _ member => Or.inl (sent ▸ member)⟩

theorem Builds.refl (d : Driver) : Builds d d := Builds.same rfl rfl rfl

theorem Builds.trans (first : Builds d d') (second : Builds d' d'') : Builds d d'' := by
  refine ⟨fun named => second.named (first.named named), ?_, ?_⟩
  · intro x outside
    rw [second.around x outside, first.around x outside]
  · intro frame member
    rcases second.frames frame member with old | well
    · exact first.frames frame old
    · exact Or.inr well

theorem Builds.since (second : Builds d' d'') (buffer : d'.dhcpFrame = d.dhcpFrame) (sent : d'.sent = d.sent)
    (name : d'.hostname = d.hostname) : Builds d d'' :=
  (Builds.same buffer sent name).trans second

theorem Builds.till (first : Builds d d') (buffer : d''.dhcpFrame = d'.dhcpFrame) (sent : d''.sent = d'.sent)
    (name : d''.hostname = d'.hostname) : Builds d d'' :=
  first.trans (Builds.same buffer sent name)

theorem Builds.other {s : Sent} (no : ∀ frame, s ≠ .dhcp frame) : Builds d (sendEthFrame s d) := by
  refine ⟨id, fun _ _ => rfl, fun frame member => ?_⟩
  rcases List.mem_append.mp member with old | new
  · exact Or.inl old
  · exact absurd (List.mem_singleton.mp new).symm (no frame)

theorem sendDhcp_builds {options : List UInt8} (ciaddr : Ip) (well : WellFormed options)
    (room : optionsAt + options.length ≤ dhcpFrameLen) : Builds d (sendDhcpFrame ciaddr options d) := by
  have := areas
  refine ⟨id, ?_, ?_⟩
  · intro x outside
    have beyond : optionsAt + options.length ≤ x := by omega
    calc
      (sendDhcpFrame ciaddr options d).dhcpFrame x =
          put (dhcpBuildFrame ciaddr d) optionsAt options x := rfl
      _ = dhcpBuildFrame ciaddr d x := put_outside (Or.inr beyond)
      _ = d.dhcpFrame x := build_around outside
  · intro frame member
    rcases List.mem_append.mp member with old | new
    · exact Or.inl old
    · cases List.mem_singleton.mp new
      exact Or.inr (built_wellBuilt well room)

theorem hostnameOf_named (name : Vector UInt8 32) : (hostnameOf name).val ≠ [] := by
  unfold hostnameOf
  split
  · exact List.cons_ne_nil _ _
  · next some_ => exact some_

/-- A host name that has been read is not empty, whatever there was before. -/
theorem hostname_named : (dhcpReadHostname si d).2.hostname.val ≠ [] := by
  unfold dhcpReadHostname
  split
  · next failed => exact failed.2
  · split
    · next same =>
      rw [← same]
      exact hostnameOf_named _
    · exact hostnameOf_named _

theorem hostname_builds : Builds d (dhcpReadHostname si d).2 := by
  refine ⟨fun _ => hostname_named, fun x _ => ?_, fun frame member => Or.inl ?_⟩
  · unfold dhcpReadHostname
    split
    · rfl
    · split <;> rfl
  · unfold dhcpReadHostname at member
    split at member
    · exact member
    · split at member <;> exact member

theorem arm_builds (now : UInt64) (state : DhcpState) (d : Driver) :
    Builds d (dhcpArmRetry now { d with dhcpState := state }) := Builds.same rfl rfl rfl

theorem discover_builds (now : UInt64) (si : SysRead) (d : Driver) :
    Builds d (dhcpSendDiscover now si d) := by
  have well := common_wellFormed 1 (dhcpReadHostname si d).2 WellFormed.last
  have room : optionsAt + (dhcpCommonOpts 1 (dhcpReadHostname si d).2 ++ [255]).length ≤ dhcpFrameLen := by
    have := areas
    have := (dhcpReadHostname si d).2.hostname.property
    rw [List.length_append, common_length, List.length_singleton]
    omega
  exact (hostname_builds.trans (sendDhcp_builds zeroIp well room)).trans (arm_builds now .discovering _)

theorem start_builds (now : UInt64) (si : SysRead) (d : Driver) : Builds d (dhcpStart now si d) :=
  (discover_builds now si _).since rfl rfl rfl

theorem request_builds (now : UInt64) (renew : Bool) (si : SysRead) (d : Driver) :
    Builds d (dhcpSendRequest now renew si d) := by
  have well := common_wellFormed 3 (dhcpReadHostname si d).2
    (request_wellFormed (dhcpReadHostname si d).2 renew WellFormed.last)
  rw [← List.append_assoc] at well
  have room : optionsAt + (dhcpCommonOpts 3 (dhcpReadHostname si d).2 ++
      requestOpts renew (dhcpReadHostname si d).2 ++ [255]).length ≤ dhcpFrameLen := by
    have := areas
    have := (dhcpReadHostname si d).2.hostname.property
    have := request_length renew (dhcpReadHostname si d).2
    rw [List.length_append, List.length_append, common_length, List.length_singleton]
    omega
  exact (hostname_builds.trans (sendDhcp_builds _ well room)).trans (arm_builds now _ _)

theorem gateway_builds (gw : Ip) (d : Driver) : Builds d (setGateway gw d) := by
  unfold setGateway
  split
  · exact Builds.same rfl rfl rfl
  · exact Builds.refl d

theorem maskGw_builds (d : Driver) : Builds d (defaultMaskGw d) := by
  have mask : Builds d (defaultMask d) := by
    unfold defaultMask
    split
    · exact Builds.same rfl rfl rfl
    · exact Builds.refl d
  simp only [defaultMaskGw]
  split
  · exact mask.trans (gateway_builds _ _)
  · exact mask

theorem bind_builds (now : UInt64) (ip : Ip) (d : Driver) : Builds d (bindLease now ip d) := by
  have routed : Builds d (setGateway d.dhcpRouter
      { d with onFallback := false, netMask := d.dhcpMask, netDns := d.dhcpDns }) :=
    (gateway_builds _ _).since rfl rfl rfl
  exact routed.till rfl rfl rfl

theorem ack_builds (now : UInt64) (ip : Ip) (d : Driver) : Builds d (dhcpOnAck now ip d) := by
  unfold dhcpOnAck
  split
  · exact (bind_builds now ip d).trans (Builds.other fun _ => Sent.noConfusion)
  · exact bind_builds now ip d

theorem packet_builds (now : UInt64) (si : SysRead) (packet : List UInt8) (d : Driver) :
    Builds d (onDhcpPacket now si packet d) := by
  unfold onDhcpPacket
  split
  · dsimp only
    split
    · exact (request_builds now false si _).since rfl rfl rfl
    · split
      · exact (ack_builds now _ _).since rfl rfl rfl
      · split
        · exact start_builds now si d
        · exact Builds.refl d
  · exact Builds.refl d

theorem learn_builds (m : Memory) (d : Driver) : Builds d (learnGateway m d) := by
  unfold learnGateway
  split
  · exact Builds.same rfl rfl rfl
  · exact Builds.refl d

theorem arp_builds (m : Memory) (len : Nat) (d : Driver) : Builds d (onArp m len d) := by
  unfold onArp
  split
  · exact Builds.refl d
  split
  · exact Builds.refl d
  dsimp only
  split
  · exact learn_builds m d
  split
  · exact learn_builds m d
  · exact (learn_builds m d).trans ((Builds.other fun _ => Sent.noConfusion).since rfl rfl rfl)

theorem icmp_builds (m stack : Memory) (hdrLen ipTotal : Nat) (d : Driver) :
    Builds d (onIcmp m stack hdrLen ipTotal d) := by
  simp only [onIcmp]
  repeat' split
  all_goals first
    | exact Builds.refl d
    | exact Builds.other fun _ => Sent.noConfusion

theorem frame_builds (m stack : Memory) (len : Nat) (d : Driver) :
    Builds d (onEthFrame now si m stack len d) := by
  unfold onEthFrame
  split
  · exact Builds.refl d
  split
  · exact arp_builds m len d
  split
  · simp only [onIpv4]
    repeat' split
    all_goals first
      | exact Builds.refl d
      | exact icmp_builds m stack _ _ d
      | exact packet_builds now si _ d
  · exact Builds.refl d

theorem fallBack_builds (now : UInt64) (d : Driver) : Builds d (fallBack now d) := by
  unfold fallBack
  split
  · have masked : Builds d (defaultMaskGw (setMyIp d.fallbackIp { d with onFallback := true })) :=
      (maskGw_builds _).since rfl rfl rfl
    exact masked.till rfl rfl rfl
  · exact Builds.refl d

theorem asking_builds (now : UInt64) (si : SysRead) (d : Driver) : Builds d (pollAsking now si d) := by
  unfold pollAsking
  dsimp only
  split
  · refine (fallBack_builds now d).trans ?_
    unfold resend
    split
    · exact start_builds now si _
    · split
      · exact request_builds now false si _
      · exact discover_builds now si _
  · exact fallBack_builds now d

theorem renew_builds (now : UInt64) (si : SysRead) (d : Driver) : Builds d (renewNow now si d) :=
  (request_builds now true si _).since rfl rfl rfl

theorem bound_builds (now : UInt64) (checked si : SysRead) (d : Driver) :
    Builds d (pollBound now checked si d) := by
  have renamed : Builds d (dhcpReadHostname checked { d with dhcpNameCheckMs := now + dhcpNameCheckMs }).2 :=
    hostname_builds.since rfl rfl rfl
  unfold pollBound
  split
  · exact renew_builds now si d
  · split
    · dsimp only
      split
      · exact renamed.trans (renew_builds now si _)
      · exact renamed
    · exact Builds.refl d

theorem renewing_builds (now : UInt64) (si : SysRead) (d : Driver) : Builds d (pollRenewing now si d) := by
  unfold pollRenewing
  split
  · exact (start_builds now si _).since rfl rfl rfl
  · split
    · exact request_builds now true si d
    · exact Builds.refl d

theorem poll_builds (now : UInt64) (checked si : SysRead) (d : Driver) :
    Builds d (dhcpPoll now checked si d) := by
  cases state : d.dhcpState with
  | off => simp only [dhcpPoll, state, Builds.refl]
  | discovering => simpa only [dhcpPoll, state] using asking_builds now si d
  | requesting => simpa only [dhcpPoll, state] using asking_builds now si d
  | bound => simpa only [dhcpPoll, state] using bound_builds now checked si d
  | renewing => simpa only [dhcpPoll, state] using renewing_builds now si d

theorem gwPoll_builds (now : UInt64) (d : Driver) : Builds d (gwPoll now d) := by
  unfold gwPoll
  split
  · exact Builds.refl d
  split
  · exact Builds.refl d
  · exact (Builds.other fun _ => Sent.noConfusion).since rfl rfl rfl

theorem step_builds (d : Driver) (e : Event) : Builds d (step d e) := by
  cases e with
  | frame now si m stack len => exact frame_builds m stack len d
  | poll now checked si => exact poll_builds now checked si d
  | gwPoll now => exact gwPoll_builds now d

end Steps

end R2Apps.DhcpFrames
