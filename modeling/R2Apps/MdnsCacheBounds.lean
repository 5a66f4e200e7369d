import R2Apps.MdnsCache

/-! The tables of a browser after any run: none is over its bound, no host is there twice, every stored name
fits where it is stored, and what is left after a sweep is alive. -/
namespace R2Apps.MdnsCacheBounds
open KeyedTables WireBytes MdnsMessages MdnsResponder MdnsBrowser MdnsCache

/-- A name in wire format as a cache stores it. -/
def StoredName (name : Name) : Prop := NameOk name ∧ (wire name).length ≤ targetMax

def Unlike (a b : Name) : Prop := nameEq a b = false

structure HostsOk (hosts : List BrowseHost) : Prop where
  few : hosts.length ≤ maxHosts
  names : ∀ h ∈ hosts, StoredName h.name
  apart : (hosts.map BrowseHost.name).Pairwise Unlike

structure Bounded (b : Browse) : Prop where
  types : b.types.length ≤ maxTypes
  services : b.services.length ≤ maxFound
  hosts : HostsOk b.hosts

theorem unlike_symm {a b : Name} (apart : Unlike a b) : Unlike b a := by
  unfold Unlike nameEq at *
  exact beq_eq_false_iff_ne.mpr (beq_eq_false_iff_ne.mp apart).symm

section Bounded
variable {b : Browse}

theorem addType_bounded (name : Label) (udp : Bool) (now : Nat) (bounded : Bounded b) :
    Bounded (addType b name udp now).1 := by
  unfold addType
  cases findType b name udp with
  | some t => exact bounded
  | none =>
      dsimp only
      split
      · exact bounded
      · next room =>
        refine ⟨?_, bounded.services, bounded.hosts⟩
        rw [List.length_append, List.length_singleton]
        exact Nat.lt_of_le_of_ne bounded.types room

theorem Bounded.renew (bounded : Bounded b) (i : Nat) (f : BrowseService → BrowseService) :
    Bounded { b with services := b.services.modify i f } :=
  ⟨bounded.types, by simpa using bounded.services, bounded.hosts⟩

theorem onInstance_bounded (r : MdnsRecord) (type inst : Label) (udp : Bool) (now : Nat)
    (bounded : Bounded b) :
    Bounded (onInstance b r type inst udp now) := by
  have added := addType_bounded type udp now bounded
  unfold onInstance
  generalize addType b type udp now = found at added
  obtain ⟨b, t⟩ := found
  cases t with
  | none => exact added
  | some t =>
      dsimp only at added ⊢
      cases findService b inst t with
      | some i => exact added.renew i _
      | none =>
          dsimp only
          split
          · exact added
          · next room =>
            refine ⟨added.types, ?_, added.hosts⟩
            rw [List.length_append, List.length_singleton]
            exact Nat.lt_of_le_of_ne added.services fun full => room (Or.inr full)

theorem onPtr_bounded (r : MdnsRecord) (now : Nat) (bounded : Bounded b) : Bounded (onPtr b r now) := by
  rcases onPtr_cases b r now with same_ | ⟨type, udp, -, same_⟩ | ⟨type, inst, udp, -, -, -, same_⟩ <;>
    rw [same_]
  · exact bounded
  · exact addType_bounded type udp now bounded
  · exact onInstance_bounded r type inst udp now bounded

theorem onSrv_bounded (r : MdnsRecord) (now : Nat) (bounded : Bounded b) : Bounded (onSrv b r now) := by
  rcases onSrv_cases b r now with same_ | ⟨i, -, -, -, same_⟩ <;> rw [same_]
  · exact bounded
  · exact bounded.renew i _

theorem findHost_none {name : Name} (stored : ∀ h ∈ b.hosts, StoredName h.name)
    (none_ : findHost b name = none) :
    ∀ h ∈ b.hosts, Unlike h.name name := by
  intro h there
  have no := List.findIdx?_eq_none_iff.mp none_ h there
  have short := (stored h there).2
  rw [wire_length] at short
  have apart : nameEq h.name name = false := by simpa [wireEq, short] using no
  exact apart

theorem onA_bounded {r : MdnsRecord} (ok : NameOk r.name) (now : Nat) (bounded : Bounded b) :
    Bounded (onA b r now) := by
  have hosts := bounded.hosts
  unfold onA
  by_cases refused : wireLen r.name > targetMax ∨ (!isTarget b r.name) = true
  · rw [if_pos refused]
    exact bounded
  · rw [if_neg refused]
    have stored : StoredName r.name := by
      refine ⟨ok, ?_⟩
      rw [wire_length]
      exact Nat.not_lt.mp fun long => refused (Or.inl long)
    dsimp only
    cases found : findHost b r.name with
    | some i =>
        refine ⟨bounded.types, bounded.services, ?_, ?_, ?_⟩
        · simpa using hosts.few
        · exact modify_all i hosts.names fun h old => old
        · have same_ : (b.hosts.modify i fun h => { h with ip := r.ip, expires := expiry r.ttl now }).map
              BrowseHost.name = b.hosts.map BrowseHost.name := by
            apply map_modify
            intro h
            rfl
          exact same_ ▸ hosts.apart
    | none =>
        have new := findHost_none hosts.names found
        dsimp only
        split
        · exact bounded
        · split
          · next room =>
            refine ⟨bounded.types, bounded.services, ?_, append_one hosts.names stored,
              pairwise_add hosts.apart new⟩
            rw [List.length_append, List.length_singleton]
            exact room
          · split
            · next i _ =>
              refine ⟨bounded.types, bounded.services, ?_, ?_, pairwise_set unlike_symm i hosts.apart new⟩
              · simpa using hosts.few
              · intro h member
                rcases List.mem_or_eq_of_mem_set member with old | rfl
                · exact hosts.names h old
                · exact stored
            · exact bounded

theorem takeRecord_bounded {r : MdnsRecord} (ok : NameOk r.name) (pass now : Nat) (bounded : Bounded b) :
    Bounded (takeRecord pass now b r) := by
  unfold takeRecord
  split
  · exact onPtr_bounded r now bounded
  · split
    · exact onSrv_bounded r now bounded
    · split
      · exact onA_bounded ok now bounded
      · exact bounded

theorem browseInput_bounded (m : Mdns) (frame : Bytes) (now : Nat) (bounded : Bounded b) :
    Bounded (browseInput b m frame now) := by
  unfold browseInput
  split
  · exact bounded
  · refine List.foldlRecOn _ _ bounded fun b bounded pass _ => ?_
    exact List.foldlRecOn _ _ bounded fun b bounded r member =>
      takeRecord_bounded (allRecords_ok _ r member).1 pass now bounded

theorem expired_services (b : Browse) (now : Nat) : (browseExpire b now).services.Perm
    ((b.services.filter fun s => !decide (now ≥ s.ptrExpires)).map (expireSrv now)) := swept _ _ _

theorem expired_hosts (b : Browse) (now : Nat) :
    (browseExpire b now).hosts.Perm (b.hosts.filter fun h => !decide (now ≥ h.expires)) := by
  have perm := swept (fun h : BrowseHost => decide (now ≥ h.expires)) id b.hosts
  rw [List.map_id] at perm
  exact perm

theorem browseExpire_bounded (now : Nat) (bounded : Bounded b) : Bounded (browseExpire b now) := by
  have hosts := expired_hosts b now
  refine ⟨bounded.types, ?_, ?_, ?_, ?_⟩
  · rw [(expired_services b now).length_eq, List.length_map]
    exact Nat.le_trans (List.length_filter_le _ _) bounded.services
  · rw [hosts.length_eq]
    exact Nat.le_trans (List.length_filter_le _ _) bounded.hosts.few
  · intro h member
    exact bounded.hosts.names h (List.mem_of_mem_filter (hosts.mem_iff.mp member))
  · have fewer := bounded.hosts.apart.sublist ((List.filter_sublist
      (p := fun h : BrowseHost => !decide (now ≥ h.expires)) (l := b.hosts)).map BrowseHost.name)
    exact ((hosts.map BrowseHost.name).pairwise_iff unlike_symm).mpr fewer

theorem mark_bounded (now : Nat) (kind : Kind) (bounded : Bounded b) : Bounded (mark now b kind) := by
  cases kind with
  | meta_ => exact ⟨bounded.types, bounded.services, bounded.hosts⟩
  | type t =>
    exact ⟨by simpa [mark] using bounded.types, by simpa [mark] using bounded.services, bounded.hosts⟩
  | srv i => exact bounded.renew i _
  | a i => exact bounded.renew i _

theorem browseQuery_bounded (m : Mdns) (now : Nat) (bounded : Bounded b) :
    Bounded (browseQuery b m now).1 := by
  simp only [browseQuery]
  split
  · exact bounded
  · split
    · exact bounded
    · split
      · exact bounded
      · exact List.foldlRecOn _ _ bounded fun b bounded kind _ => mark_bounded now kind bounded

theorem browseStart_bounded (now : Nat) : Bounded (browseStart now) := by
  refine List.foldlRecOn _ _
    ⟨Nat.zero_le _, Nat.zero_le _, Nat.zero_le _, by rintro _ ⟨⟩, List.Pairwise.nil⟩ ?_
  intro b bounded seed _
  exact addType_bounded seed false now bounded

theorem reachable_bounded (reached : Reachable b) : Bounded b := by
  induction reached with
  | start now => exact browseStart_bounded now
  | input m frame now _ ih => exact browseInput_bounded m frame now ih
  | expire now _ ih => exact browseExpire_bounded now ih
  | query m now _ ih => exact browseQuery_bounded m now ih

end Bounded

/-- What a sweep leaves: what is alive, all of it, and nothing else. -/
structure Swept (b : Browse) (now : Nat) : Prop where
  services : ∀ s ∈ (browseExpire b now).services, now < s.ptrExpires ∧ (s.srvExpires = 0 ∨ now < s.srvExpires)
  hosts : ∀ h ∈ (browseExpire b now).hosts, now < h.expires
  keepsServices : ∀ s ∈ b.services, now < s.ptrExpires → ∃ s' ∈ (browseExpire b now).services,
    serviceKey s' = serviceKey s ∧ s'.ptrExpires = s.ptrExpires ∧ (now < s.srvExpires → s' = s)
  keepsHosts : ∀ h ∈ b.hosts, now < h.expires → h ∈ (browseExpire b now).hosts

theorem expireSrv_alive (now : Nat) (s : BrowseService) :
    (expireSrv now s).ptrExpires = s.ptrExpires ∧ serviceKey (expireSrv now s) = serviceKey s ∧
      ((expireSrv now s).srvExpires = 0 ∨ now < (expireSrv now s).srvExpires) ∧
      (now < s.srvExpires → expireSrv now s = s) := by
  unfold expireSrv
  by_cases gone : s.srvExpires ≠ 0 ∧ now ≥ s.srvExpires
  · rw [if_pos gone]
    exact ⟨rfl, rfl, .inl rfl, fun alive => absurd alive (Nat.not_lt.mpr gone.2)⟩
  · rw [if_neg gone]
    refine ⟨rfl, rfl, ?_, fun _ => rfl⟩
    by_contra neither
    rw [not_or, Nat.not_lt] at neither
    exact gone neither

theorem browseExpire_sweeps (b : Browse) (now : Nat) : Swept b now := by
  have services := expired_services b now
  have hosts := expired_hosts b now
  constructor
  · intro s member
    obtain ⟨old, there, rfl⟩ := List.mem_map.mp (services.mem_iff.mp member)
    obtain ⟨same_, -, alive, -⟩ := expireSrv_alive now old
    have kept := List.of_mem_filter there
    rw [same_]
    exact ⟨by simpa using kept, alive⟩
  · intro h member
    have kept := List.of_mem_filter (hosts.mem_iff.mp member)
    simpa using kept
  · intro s there alive
    obtain ⟨same_, key, -, whole⟩ := expireSrv_alive now s
    refine ⟨expireSrv now s, ?_, key, same_, whole⟩
    exact services.mem_iff.mpr (List.mem_map_of_mem (List.mem_filter.mpr ⟨there, by simpa using alive⟩))
  · intro h there alive
    exact hosts.mem_iff.mpr (List.mem_filter.mpr ⟨there, by simpa using alive⟩)

/-- The cache after any run. -/
structure CacheOk (b : Browse) : Prop where
  types : b.types.length ≤ 24
  services : b.services.length ≤ 48
  hosts : b.hosts.length ≤ 48
  typesApart : (b.types.map typeKey).Pairwise Apart
  servicesApart : (b.services.map serviceKey).Pairwise Apart
  hostsApart : (b.hosts.map BrowseHost.name).Pairwise Unlike
  typed : ∀ s ∈ b.services, s.type < b.types.length
  targets : ∀ s ∈ b.services, NameOk s.target ∧ (wire s.target).length ≤ 64 ∧
    (wire s.target).getLast? = some 0
  names : ∀ h ∈ b.hosts, NameOk h.name ∧ (wire h.name).length ≤ 64 ∧ (wire h.name).getLast? = some 0

theorem wire_ends (name : Name) : (wire name).getLast? = some 0 := by
  rw [wire, List.getLast?_concat]

theorem cache_ok {b : Browse} (reached : Reachable b) :
    CacheOk b ∧ ∀ now, CacheOk (browseExpire b now) ∧ Swept b now := by
  have ok : ∀ {b : Browse}, Reachable b → CacheOk b := by
    intro b reached
    have sound := reachable_sound reached
    have bounded := reachable_bounded reached
    refine ⟨bounded.types, bounded.services, bounded.hosts.few, sound.typesApart, sound.servicesApart,
      bounded.hosts.apart, fun s there => (sound.services s there).type, ?_, ?_⟩
    · intro s there
      have target := sound.services s there
      exact ⟨target.target, (wire_length s.target).trans_le target.short, wire_ends _⟩
    · intro h there
      obtain ⟨name, short⟩ := bounded.hosts.names h there
      exact ⟨name, short, wire_ends _⟩
  exact ⟨ok reached, fun now => ⟨ok (.expire now reached), browseExpire_sweeps b now⟩⟩

/-- A browser that was told of a service and its address, a second later. -/
theorem told_cache_ok : (browseInput (browseStart 0) browsing
      (mdnsAnnounce offering (some (serviceOf (ascii "_a") (by decide))) false).2 0).hosts.length = 1 ∧
    CacheOk (browseExpire (browseInput (browseStart 0) browsing
      (mdnsAnnounce offering (some (serviceOf (ascii "_a") (by decide))) false).2 0) 1000) := by
  constructor
  · decide +kernel
  · exact ((cache_ok (.input browsing _ 0 (.start 0))).2 1000).1

end R2Apps.MdnsCacheBounds
