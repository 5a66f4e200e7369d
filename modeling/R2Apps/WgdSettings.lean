import R2Apps.KernelTunnel

/-! `wgd/config.c`: the configuration text, without its final NUL, and the routes read
from it. The functions of the source cut the text in place; here each takes the string
it is given and returns what it finds. -/
namespace R2Apps.WgdSettings
open PrefixRoutes KernelTunnel

def wgdMtu : UInt16 := 1420
def routesMax : Nat := 16

def ascii (s : String) : Bytes := s.toUTF8.toList

/-- `routes` has `route_count` entries in use. -/
structure WgdConfig where
  privateKey : Bytes := List.replicate 32 0
  publicKey : Bytes := List.replicate 32 0
  presharedKey : Bytes := List.replicate 32 0
  address : Ip4 := Vector.replicate 4 0
  endpoint : Ip4 := Vector.replicate 4 0
  addressPrefix : UInt8 := 0
  routeCount : Nat := 0
  routes : Vector Route 16 := Vector.replicate 16 {}
  listenPort : UInt16 := 0
  endpointPort : UInt16 := 0
  keepalive : UInt16 := 0
  deriving DecidableEq

def blank (c : UInt8) : Bool := c == 32 || c == 9 || c == 13

def trim (s : Bytes) : Bytes := ((s.dropWhile blank).reverse.dropWhile blank).reverse

def digit (c : UInt8) : Bool := 48 ≤ c && c ≤ 57

def numberFrom (max : Nat) (n : Nat) : Bytes → Option Nat
  | [] => some n
  | c :: s =>
      if !digit c then none
      else
        let n := n * 10 + (c.toNat - 48)
        if n > max then none else numberFrom max n s

def number (s : Bytes) (max : Nat) : Option UInt16 :=
  if s = [] then none else (numberFrom max 0 s).map UInt16.ofNat

/-- One octet and what follows its separator; the last one ends the string. -/
def octet (s : Bytes) (last : Bool) : Option (UInt8 × Bytes) :=
  let digits := s.takeWhile digit
  let rest := s.dropWhile digit
  match number digits 255 with
  | none => none
  | some value =>
      if (if last then rest = [] else rest.head? = some 46) then some (value.toUInt8, rest.tail) else none

def ip4 (s : Bytes) (unicast : Bool) : Option Ip4 := do
  let (a, s) ← octet s false
  let (b, s) ← octet s false
  let (c, s) ← octet s false
  let (d, _) ← octet s true
  let ip := dotted a b c d
  if !unicast || (first ip != 0 && first ip != 127 && first ip < 224) then some ip else none

/-- The address and its prefix length. -/
def address (s : Bytes) (unicast : Bool) : Option (Ip4 × UInt8) :=
  let slash := s.dropWhile (· ≠ 47)
  if slash = [] then (ip4 s unicast).map fun ip => (ip, 32)
  else
    match number slash.tail 32 with
    | none => none
    | some bits => (ip4 (s.takeWhile (· ≠ 47)) unicast).map fun ip => (ip, bits.toUInt8)

def matches_ (r : Route) (ip : Ip4) : Bool :=
  (List.finRange 4).all fun b => ip.get b &&& maskByte r.prefixLen.toNat b == r.network.get b

def wgdAllowed (cfg : WgdConfig) (ip : Ip4) : Bool :=
  (cfg.routes.toList.take cfg.routeCount).any fun r => matches_ r ip

def addRoute (cfg : WgdConfig) (s : Bytes) : Option WgdConfig :=
  if cfg.routeCount = routesMax then none
  else
    (address (trim s) false).map fun (ip, bits) =>
      { cfg with
        routes := cfg.routes.setIfInBounds cfg.routeCount
          { network := masked bits.toNat ip, prefixLen := bits }
        routeCount := cfg.routeCount + 1 }

def routes (text : Bytes) (cfg : WgdConfig) : Option WgdConfig := (text.splitOn 44).foldlM addRoute cfg

section Base64

def base64Lookup : Bytes := ascii "ABCDEFGHIJKLMNOPQRSTUVWXYZabcdefghijklmnopqrstuvwxyz0123456789+/"

structure Decoder where
  accum : UInt32 := 0
  charCount : Nat := 0
  byteCount : Nat := 3
  out : Bytes := []

def low8 (x : UInt32) : UInt8 := x.toUInt8

/-- One character; `none` is `result = false`. -/
def decodeChar (outlen : Nat) (d : Decoder) (c : UInt8) : Option Decoder :=
  let next : Option (UInt8 × Nat) :=
    if c = 61 then (if d.byteCount = 0 then none else some (0, d.byteCount - 1))
    else if d.byteCount ≠ 3 then none
    else (base64Lookup.idxOf? c).map fun i => (UInt8.ofNat i &&& 0x3f, d.byteCount)
  next.bind fun (bits, byteCount) =>
    let accum := d.accum <<< 6 ||| bits.toUInt32
    if d.charCount + 1 ≠ 4
      then some { d with accum := accum, charCount := d.charCount + 1, byteCount := byteCount }
    else if d.out.length + byteCount > outlen then none
    else
      let out := d.out ++ [low8 (accum >>> 16)]
      let out := if byteCount > 1 then out ++ [low8 (accum >>> 8)] else out
      let out := if byteCount > 2 then out ++ [low8 accum] else out
      some { accum := 0, charCount := 0, byteCount := byteCount, out := out }

def wireguardBase64Decode (str : Bytes) (outlen : Nat) : Option Bytes :=
  (str.foldlM (decodeChar outlen) {}).bind fun d => if d.charCount ≠ 0 then none else some d.out

/-- Three bytes as four characters; what is missing of them is padding. -/
def encodeBlock : Bytes → Bytes
  | [] => []
  | byte1 :: rest =>
      let byte2 := rest.headD 0
      let byte3 := rest.tail.headD 0
      let tmp := byte1.toUInt32 <<< 16 ||| byte2.toUInt32 <<< 8 ||| byte3.toUInt32
      let char := fun n : UInt32 => base64Lookup.getD (tmp >>> n &&& 0x3f).toNat 0
      [char 18, char 12, if rest.length ≥ 1 then char 6 else 61, if rest.length ≥ 2 then char 0 else 61]

def wireguardBase64Encode (bytes : Bytes) : Bytes := (bytes.toChunks 3).flatMap encodeBlock

/-- Canonical 32-byte WireGuard base64. -/
def key (s : Bytes) (allowZero : Bool) : Option Bytes :=
  if s.length ≠ 44 ∨ s.getLast? ≠ some 61 then none
  else if (s.take 43).any fun c =>
    !((65 ≤ c && c ≤ 90) || (97 ≤ c && c ≤ 122) || digit c || c == 43 || c == 47) then none
  else
    match wireguardBase64Decode s 32 with
    | none => none
    | some out =>
        if out.length ≠ 32 ∨ wireguardBase64Encode out ≠ s then none
        else if allowZero || out.any (· != 0) then some out else none

end Base64

/-- How far `wgd_config_parse` is: the section, the fields seen, and what they said. -/
structure Parse where
  section_ : Nat := 0
  seen : UInt8 := 0
  cfg : WgdConfig := { listenPort := 51820 }

def endpointOf (value : Bytes) : Option (Ip4 × UInt16) :=
  let colon := value.dropWhile (· ≠ 58)
  if colon = [] then none
  else do
    let ip ← ip4 (value.takeWhile (· ≠ 58)) true
    let port ← number colon.tail 65535
    if port ≠ 0 then some (ip, port) else none

/-- The bit of the field, and the configuration with it when its value is right. -/
def field (p : Parse) (name value : Bytes) : UInt8 × Option WgdConfig :=
  let cfg := p.cfg
  if p.section_ = 1 ∧ name = ascii "PrivateKey" then
    (1, (key value false).map fun k => { cfg with privateKey := k })
  else if p.section_ = 1 ∧ name = ascii "Address" then
    (2, (address value true).map fun a => { cfg with address := a.1, addressPrefix := a.2 })
  else if p.section_ = 1 ∧ name = ascii "ListenPort" then
    (4, (number value 65535).bind fun n => if n ≠ 0 then some { cfg with listenPort := n } else none)
  else if p.section_ = 2 ∧ name = ascii "PublicKey" then
    (8, (key value false).map fun k => { cfg with publicKey := k })
  else if p.section_ = 2 ∧ name = ascii "AllowedIPs" then (16, routes value cfg)
  else if p.section_ = 2 ∧ name = ascii "PresharedKey" then
    (32, (key value true).map fun k => { cfg with presharedKey := k })
  else if p.section_ = 2 ∧ name = ascii "PersistentKeepalive" then
    (64, (number value 60).map fun n => { cfg with keepalive := n })
  else if p.section_ = 2 ∧ name = ascii "Endpoint" then
    (128, (endpointOf value).map fun e => { cfg with endpoint := e.1, endpointPort := e.2 })
  else (0, none)

def invalid : String := "invalid or unsupported configuration"

def fieldError (seen bit : UInt8) : String :=
  if seen &&& bit ≠ 0 then "duplicate configuration field"
  else if bit = 1 ∨ bit = 8 ∨ bit = 32 then "invalid base64 WireGuard key"
  else if bit = 2 then "Address must be one IPv4 address with an optional /0..32 prefix"
  else if bit = 16 then "AllowedIPs requires 1..16 comma-separated IPv4 prefixes"
  else if bit = 128 then "Endpoint requires numeric IPv4:port"
  else if bit = 0 then "unknown option or option in the wrong section"
  else "invalid port or keepalive (maximum 60 seconds)"

def parseLine (p : Parse) (line : Bytes) : Except String Parse :=
  let line := trim (line.takeWhile fun c => c ≠ 35 ∧ c ≠ 59)
  if line = [] then .ok p
  else if line.head? = some 91 then
    if line = ascii "[Interface]" ∧ p.section_ = 0 then .ok { p with section_ := 1 }
    else if line = ascii "[Peer]" ∧ p.section_ = 1 then .ok { p with section_ := 2 }
    else .error invalid
  else
    let value := line.dropWhile (· ≠ 61)
    if value = [] then .error invalid
    else
      match field p (trim (line.takeWhile (· ≠ 61))) (trim value.tail) with
      | (bit, none) => .error (fieldError p.seen bit)
      | (bit, some cfg) =>
          if p.seen &&& bit ≠ 0 then .error (fieldError p.seen bit)
          else .ok { p with seen := p.seen ||| bit, cfg := cfg }

def wgdConfigParse (text : Bytes) : Except String WgdConfig := do
  let p ← (text.splitOn 10).foldlM parseLine {}
  if p.seen &&& 27 ≠ 27 then .error "PrivateKey, Address, PublicKey and AllowedIPs are required"
  else if p.cfg.endpointPort ≠ 0 ∧ p.cfg.endpoint = p.cfg.address then
    .error "Endpoint must use the physical network address"
  else .ok p.cfg

theorem number_le {max n : Nat} {s : Bytes} {value : Nat} (found : numberFrom max n s = some value)
    (start : n ≤ max) :
    value ≤ max := by
  induction s generalizing n with
  | nil =>
      cases found
      exact start
  | cons c s ih =>
      simp only [numberFrom] at found
      split at found
      · cases found
      · split at found
        · cases found
        · exact ih found (by omega)

theorem number_bound {max : Nat} {s : Bytes} {value : UInt16} (found : number s max = some value)
    (small : max < 65536) : value.toNat ≤ max := by
  simp only [number] at found
  split at found
  · cases found
  · obtain ⟨n, read, rfl⟩ := Option.map_eq_some_iff.mp found
    have := number_le read (Nat.zero_le _)
    rw [UInt16.toNat_ofNat']
    omega

theorem address_length {s : Bytes} {strict : Bool} {ip : Ip4} {bits : UInt8}
    (found : address s strict = some (ip, bits)) : bits.toNat ≤ 32 := by
  simp only [address] at found
  split at found
  · obtain ⟨_, _, same⟩ := Option.map_eq_some_iff.mp found
    cases same
    decide
  · split at found
    · cases found
    · next n read =>
        obtain ⟨_, _, same⟩ := Option.map_eq_some_iff.mp found
        cases same
        have := number_bound read (by decide)
        rw [UInt16.toNat_toUInt8]
        omega

theorem ip4_unicast {s : Bytes} {ip : Ip4} (found : ip4 s true = some ip) : unicast ip = true := by
  simp only [ip4, Option.bind_eq_bind, Option.bind_eq_some_iff] at found
  obtain ⟨_, _, _, _, _, _, _, _, same⟩ := found
  split at same
  · next good =>
      cases same
      simpa [unicast] using good
  · cases same

theorem address_unicast {s : Bytes} {ip : Ip4} {bits : UInt8} (found : address s true = some (ip, bits)) :
    unicast ip = true := by
  simp only [address] at found
  split at found
  · obtain ⟨_, read, same⟩ := Option.map_eq_some_iff.mp found
    cases same
    exact ip4_unicast read
  · split at found
    · cases found
    · obtain ⟨_, read, same⟩ := Option.map_eq_some_iff.mp found
      cases same
      exact ip4_unicast read

/-- The entries in use, when each of them may be attached. -/
def Routed (cfg : WgdConfig) : Prop :=
  cfg.routeCount ≤ routesMax ∧ ∀ r ∈ cfg.routes.toList.take cfg.routeCount, Routable r

/-- The parts of the configuration that a route does not touch. -/
def SameRest (cfg cfg' : WgdConfig) : Prop :=
  cfg'.address = cfg.address ∧ cfg'.listenPort = cfg.listenPort

theorem addRoute_adds {cfg cfg' : WgdConfig} {s : Bytes} (routed : Routed cfg)
    (found : addRoute cfg s = some cfg') :
    Routed cfg' ∧ SameRest cfg cfg' ∧ cfg'.routeCount = cfg.routeCount + 1 := by
  have ⟨few, each⟩ := routed
  simp only [addRoute] at found
  split at found
  · cases found
  · next room =>
      obtain ⟨⟨ip, bits⟩, read, rfl⟩ := Option.map_eq_some_iff.mp found
      have inside : cfg.routeCount < routesMax := Nat.lt_of_le_of_ne few room
      refine ⟨⟨inside, ?_⟩, ⟨rfl, rfl⟩, rfl⟩
      intro r used
      simp only [Vector.toList_setIfInBounds] at used
      rw [List.take_add_one, List.take_set_of_le (Nat.le_refl _), List.getElem?_set_self
        (by simpa [routesMax] using inside)] at used
      rcases List.mem_append.mp used with old | fresh
      · exact each r old
      · have : r = { network := masked bits.toNat ip, prefixLen := bits } := by simpa using fresh
        subst this
        exact ⟨address_length read, rfl, masked_masked _ _⟩

theorem routes_adds {cfg cfg' : WgdConfig} {parts : List Bytes} (routed : Routed cfg)
    (found : parts.foldlM addRoute cfg = some cfg') :
    Routed cfg' ∧ SameRest cfg cfg' ∧ cfg'.routeCount = cfg.routeCount + parts.length := by
  induction parts generalizing cfg with
  | nil =>
      cases found
      exact ⟨routed, ⟨rfl, rfl⟩, rfl⟩
  | cons part rest ih =>
      rw [List.foldlM_cons, Option.bind_eq_bind, Option.bind_eq_some_iff] at found
      obtain ⟨next, added, found⟩ := found
      have ⟨routed, ⟨address, port⟩, count⟩ := addRoute_adds routed added
      have ⟨routed, ⟨address', port'⟩, count'⟩ := ih routed found
      refine ⟨routed, ⟨address'.trans address, port'.trans port⟩, ?_⟩
      rw [count', count, List.length_cons]
      omega

/-- What a field leaves for the rest of the text: `bit` is its bit in `seen`. -/
structure Settled (bit : UInt8) (cfg cfg' : WgdConfig) : Prop where
  routed : Routed cfg'
  port : cfg'.listenPort ≠ 0
  addressed : unicast cfg'.address = true ∨ (bit &&& 2 = 0 ∧ cfg'.address = cfg.address)
  nonempty : cfg'.routeCount ≠ 0 ∨ (bit &&& 16 = 0 ∧ cfg'.routeCount = cfg.routeCount)

theorem settled_plain {bit : UInt8} {cfg cfg' : WgdConfig} (other : bit &&& 18 = 0) (routed : Routed cfg')
    (port : cfg'.listenPort ≠ 0) (address : cfg'.address = cfg.address)
    (count : cfg'.routeCount = cfg.routeCount) :
    Settled bit cfg cfg' := by
  have part : ∀ m : UInt8, m &&& 18 = m → bit &&& m = 0 := by
    intro m inside
    rw [← inside, UInt8.and_comm m, ← UInt8.and_assoc, other, UInt8.zero_and]
  exact ⟨routed, port, .inr ⟨part 2 rfl, address⟩, .inr ⟨part 16 rfl, count⟩⟩

theorem field_settled {p : Parse} {name value : Bytes} {bit : UInt8} {cfg : WgdConfig} (routed : Routed p.cfg)
    (port : p.cfg.listenPort ≠ 0) (found : field p name value = (bit, some cfg)) : Settled bit p.cfg cfg := by
  simp only [field] at found
  repeat' split at found
  all_goals obtain ⟨rfl, said⟩ := Prod.mk.inj found
  · obtain ⟨_, _, rfl⟩ := Option.map_eq_some_iff.mp said
    exact settled_plain rfl routed port rfl rfl
  · obtain ⟨⟨ip, bits⟩, read, rfl⟩ := Option.map_eq_some_iff.mp said
    exact ⟨routed, port, .inl (address_unicast read), .inr ⟨rfl, rfl⟩⟩
  · obtain ⟨n, _, said'⟩ := Option.bind_eq_some_iff.mp said
    split at said'
    · next open_ =>
        cases said'
        exact settled_plain rfl routed open_ rfl rfl
    · cases said'
  · obtain ⟨_, _, rfl⟩ := Option.map_eq_some_iff.mp said
    exact settled_plain rfl routed port rfl rfl
  · have ⟨routed, ⟨address, port'⟩, count⟩ := routes_adds routed said
    have some_ : (value.splitOn 44).length ≠ 0 := by simp
    exact ⟨routed, port' ▸ port, .inr ⟨rfl, address⟩, .inl (by omega)⟩
  · obtain ⟨_, _, rfl⟩ := Option.map_eq_some_iff.mp said
    exact settled_plain rfl routed port rfl rfl
  · obtain ⟨_, _, rfl⟩ := Option.map_eq_some_iff.mp said
    exact settled_plain rfl routed port rfl rfl
  · obtain ⟨_, _, rfl⟩ := Option.map_eq_some_iff.mp said
    exact settled_plain rfl routed port rfl rfl
  · cases said

/-- What holds after every line. -/
structure Sound (p : Parse) : Prop where
  routed : Routed p.cfg
  port : p.cfg.listenPort ≠ 0
  addressed : p.seen &&& 2 ≠ 0 → unicast p.cfg.address = true
  nonempty : p.seen &&& 16 ≠ 0 → p.cfg.routeCount ≠ 0

theorem seen_with (seen bit m : UInt8) (absent : bit &&& m = 0) : (seen ||| bit) &&& m = seen &&& m := by
  apply UInt8.toNat.inj
  have none_ : bit.toNat &&& m.toNat = 0 := by simpa using congrArg UInt8.toNat absent
  rw [UInt8.toNat_and, UInt8.toNat_or, Nat.and_or_distrib_right, none_, Nat.or_zero, UInt8.toNat_and]

theorem parseLine_sound {p p' : Parse} {line : Bytes} (sound : Sound p) (taken : parseLine p line = .ok p') :
    Sound p' := by
  simp only [parseLine] at taken
  repeat' split at taken
  all_goals try cases taken
  · exact sound
  · exact ⟨sound.routed, sound.port, sound.addressed, sound.nonempty⟩
  · exact ⟨sound.routed, sound.port, sound.addressed, sound.nonempty⟩
  · next bit cfg read _ =>
      have settled := field_settled sound.routed sound.port read
      constructor
      · exact settled.routed
      · exact settled.port
      · intro seen
        rcases settled.addressed with fresh | ⟨other, same⟩
        · exact fresh
        · exact same ▸ sound.addressed (seen_with p.seen bit 2 other ▸ seen)
      · intro seen
        rcases settled.nonempty with fresh | ⟨other, same⟩
        · exact fresh
        · exact same ▸ sound.nonempty (seen_with p.seen bit 16 other ▸ seen)

theorem lines_sound {p p' : Parse} {lines : List Bytes} (sound : Sound p)
    (taken : lines.foldlM parseLine p = .ok p') :
    Sound p' := by
  induction lines generalizing p with
  | nil =>
      cases taken
      exact sound
  | cons line rest ih =>
      rw [List.foldlM_cons] at taken
      cases first : parseLine p line with
      | error e =>
          rw [first] at taken
          cases taken
      | ok next =>
          simp only [first, bind, Except.bind] at taken
          exact ih (parseLine_sound sound first) taken

theorem sound_start : Sound {} :=
  ⟨⟨Nat.zero_le _, by simp⟩, by decide, fun h => absurd rfl h, fun h => absurd rfl h⟩

/-- What the rest of the program may rely on in a configuration that was read. -/
structure Accepted (cfg : WgdConfig) : Prop where
  routed : Routed cfg
  nonempty : cfg.routeCount ≠ 0
  port : cfg.listenPort ≠ 0
  address : unicast cfg.address = true

theorem wgdConfigParse_accepted {text : Bytes} {cfg : WgdConfig} (read : wgdConfigParse text = .ok cfg) :
    Accepted cfg := by
  simp only [wgdConfigParse, bind, Except.bind] at read
  cases lines : (text.splitOn 10).foldlM parseLine {} with
  | error e =>
      rw [lines] at read
      cases read
  | ok p =>
      have sound := lines_sound sound_start lines
      simp only [lines] at read
      split at read
      · cases read
      · next all =>
          split at read
          · cases read
          · cases read
            -- every required bit is in `seen`
            have bits : p.seen &&& 27 = 27 := by simpa using all
            have part : ∀ m : UInt8, 27 &&& m = m → m ≠ 0 → p.seen &&& m ≠ 0 := by
              intro m inside some_
              rw [← inside, ← UInt8.and_assoc, bits, inside]
              exact some_
            exact ⟨sound.routed, sound.nonempty (part 16 rfl (by decide)), sound.port,
              sound.addressed (part 2 rfl (by decide))⟩

/-- `wgd_platform_attach`: what it registers. -/
def wgdPlatformAttach (cfg : WgdConfig) : Config :=
  { local_ := cfg.address
    port := cfg.listenPort
    mtu := wgdMtu
    count := UInt8.ofNat cfg.routeCount
    routes := cfg.routes }

theorem registered_live {cfg : WgdConfig} (routed : Routed cfg) :
    (wgdPlatformAttach cfg).live = cfg.routes.toList.take cfg.routeCount := by
  have few : cfg.routeCount ≤ 16 := routed.1
  simp only [Config.live, wgdPlatformAttach, UInt8.toNat_ofNat']
  rw [Nat.mod_eq_of_lt (by omega)]

theorem registration_attached {cfg : WgdConfig} (accepted : Accepted cfg) {s : State} {pid : Nat}
    (taken : pid ≠ none_) (free : s.owner = none_ ∨ s.owner = pid) :
    s.attach pid (wgdPlatformAttach cfg) = some { owner := pid, config := wgdPlatformAttach cfg } := by
  have few : cfg.routeCount ≤ 16 := accepted.routed.1
  have count : (wgdPlatformAttach cfg).count.toNat = cfg.routeCount := by
    simp only [wgdPlatformAttach, UInt8.toNat_ofNat']
    omega
  have listed : (wgdPlatformAttach cfg).count ≠ 0 := by
    intro zero
    rw [zero] at count
    exact accepted.nonempty count.symm
  apply attach_accepts taken free accepted.address accepted.port rfl listed (count ▸ few) rfl
  rw [registered_live accepted.routed]
  exact accepted.routed.2

theorem matches_iff (r : Route) (ip : Ip4) :
    matches_ r ip = true ↔ masked r.prefixLen.toNat ip = r.network := by
  simp only [matches_, List.all_eq_true, List.mem_finRange, forall_const, beq_iff_eq]
  constructor
  · intro same
    ext i bound
    simpa [masked, Vector.get] using congrArg UInt8.toNat (same ⟨i, bound⟩)
  · intro same b
    simp [← same, masked, Vector.get]

theorem words_iff {r : Route} (routable : Routable r) (ip : Ip4) :
    fromBeBytes ip &&& mask r.prefixLen.toNat = fromBeBytes r.network ↔
      masked r.prefixLen.toNat ip = r.network := by
  rw [← fromBeBytes_masked ip routable.1]
  exact ⟨fromBeBytes_injective, congrArg fromBeBytes⟩

/-- Some configured prefix contains the address. -/
def Covered (cfg : WgdConfig) (ip : Ip4) : Prop :=
  ∃ r ∈ cfg.routes.toList.take cfg.routeCount, Contains r.network r.prefixLen.toNat ip

theorem wgdAllowed_iff {cfg : WgdConfig} (routed : Routed cfg) (ip : Ip4) :
    wgdAllowed cfg ip = true ↔ Covered cfg ip := by
  simp only [wgdAllowed, List.any_eq_true, Covered]
  apply exists_congr
  intro r
  apply and_congr_right
  intro used
  have routable := routed.2 r used
  rw [matches_iff, contains_iff _ _ routable.1, routable.2.2]

theorem allowed_iff {cfg : WgdConfig} (routed : Routed cfg) {s : State} (taken : s.owner ≠ none_)
    (same : s.config = wgdPlatformAttach cfg) (ip : Ip4) :
    s.allowed ip = true ↔ wgdAllowed cfg ip = true := by
  have owned : (s.owner != none_) = true := by simpa using taken
  simp only [State.allowed, owned, Bool.true_and, same, registered_live routed, wgdAllowed, List.any_eq_true]
  apply exists_congr
  intro r
  apply and_congr_right
  intro used
  rw [matches_iff, beq_iff_eq, words_iff (routed.2 r used)]

end R2Apps.WgdSettings
