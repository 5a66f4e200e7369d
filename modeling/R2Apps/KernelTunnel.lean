import R2Apps.PrefixRoutes

/-! `wgd/kernel/tunnel.rs`: the kernel's registration of one userspace tunnel, its own
reading of IPv4 packets and of the routes. The ICMP probe is left out. -/
namespace R2Apps.KernelTunnel
open PrefixRoutes

abbrev Bytes := List UInt8

def none_ : Nat := 0xff
def routesMax : Nat := 16

structure Route where
  network : Ip4 := Vector.replicate 4 0
  prefixLen : UInt8 := 0
  reserved : Vector UInt8 3 := Vector.replicate 3 0
  deriving DecidableEq

structure Config where
  local_ : Ip4 := Vector.replicate 4 0
  port : UInt16 := 0
  mtu : UInt16 := 0
  count : UInt8 := 0
  reserved : Vector UInt8 3 := Vector.replicate 3 0
  routes : Vector Route 16 := Vector.replicate 16 {}
  deriving DecidableEq

structure State where
  owner : Nat := none_
  config : Config := {}

def unicast (ip : Ip4) : Bool := first ip != 0 && first ip != 127 && first ip < 224

/-- `config.routes[..config.count]`. -/
def Config.live (config : Config) : List Route := config.routes.toList.take config.count.toNat

/-- `none` when `attach` returns false. -/
def State.attach (s : State) (pid : Nat) (config : Config) : Option State :=
  if pid = none_ ∨ !unicast config.local_ ∨ config.port = 0 ∨ ¬(576 ≤ config.mtu ∧ config.mtu ≤ 1420) ∨
      config.count = 0 ∨ config.count.toNat > routesMax ∨ config.reserved ≠ Vector.replicate 3 0 ∨
      (s.owner ≠ none_ ∧ s.owner ≠ pid) then none
  else if config.live.any fun r =>
      r.prefixLen > 32 || r.reserved != Vector.replicate 3 0 ||
        (fromBeBytes r.network &&& ~~~ mask r.prefixLen.toNat) != 0 then none
  else some { owner := pid, config := config }

def State.allowed (s : State) (ip : Ip4) : Bool :=
  s.owner != none_ &&
    s.config.live.any fun r => fromBeBytes ip &&& mask r.prefixLen.toNat == fromBeBytes r.network

/-- `[ip[i], ip[i + 1], ip[i + 2], ip[i + 3]]`. -/
def addressAt (p : Bytes) (i : Nat) : Ip4 := Vector.ofFn fun b => p.getD (i + b) 0

def byte (p : Bytes) (i : Nat) : UInt8 := p.getD i 0

def half (p : Bytes) (i : Nat) : Nat := (byte p i).toNat * 256 + (byte p (i + 1)).toNat

/-- The IPv4 packet of a frame. -/
def ipv4 (frame : Bytes) : Option Bytes :=
  if frame.length < 34 ∨ byte frame 12 ≠ 8 ∨ byte frame 13 ≠ 0 then none
  else
    let ip := frame.drop 14
    let ihl := (byte ip 0 &&& 15).toNat * 4
    let total := half ip 2
    if byte ip 0 >>> 4 ≠ 4 ∨ ihl < 20 ∨ total < ihl ∨ total > ip.length ∨
        byte ip 6 &&& 0xbf ≠ 0 ∨ byte ip 7 ≠ 0 then none
    else some (ip.take total)

def State.accepts (s : State) (pid : Nat) (frame : Bytes) : Bool :=
  s.owner == pid && s.owner != none_ &&
    (ipv4 frame).any fun ip =>
      ip.length ≤ s.config.mtu.toNat && s.allowed (addressAt ip 12) &&
        addressAt ip 12 != s.config.local_ && addressAt ip 16 == s.config.local_ &&
        (byte ip 9 == 6 || byte ip 9 == 1)

/-- The routes of a registration that may be attached. -/
def Routable (r : Route) : Prop :=
  r.prefixLen.toNat ≤ 32 ∧ r.reserved = Vector.replicate 3 0 ∧ masked r.prefixLen.toNat r.network = r.network

theorem routable_network {r : Route} (routable : Routable r) :
    (fromBeBytes r.network &&& ~~~ mask r.prefixLen.toNat) = 0 := by
  have ⟨short, _, whole⟩ := routable
  rw [← whole, fromBeBytes_masked _ short, BitVec.and_assoc]
  simp

theorem attach_accepts {s : State} {pid : Nat} {config : Config} (taken : pid ≠ none_)
    (free : s.owner = none_ ∨ s.owner = pid) (address : unicast config.local_ = true) (port : config.port ≠ 0)
    (mtu : config.mtu = 1420) (routed : config.count ≠ 0) (few : config.count.toNat ≤ 16)
    (reserved : config.reserved = Vector.replicate 3 0) (routes : ∀ r ∈ config.live, Routable r) :
    s.attach pid config = some { owner := pid, config := config } := by
  have fields : ¬(pid = none_ ∨ !unicast config.local_ ∨ config.port = 0 ∨
      ¬(576 ≤ config.mtu ∧ config.mtu ≤ 1420) ∨ config.count = 0 ∨ config.count.toNat > routesMax ∨
      config.reserved ≠ Vector.replicate 3 0 ∨ (s.owner ≠ none_ ∧ s.owner ≠ pid)) := by
    simp only [mtu, reserved, address, routesMax]
    rintro (h | h | h | h | h | h | h | ⟨h, h'⟩)
    · exact taken h
    · simp at h
    · exact port h
    · exact h (by decide)
    · exact routed h
    · omega
    · exact h rfl
    · exact free.elim h h'
  have each : (config.live.any fun r => r.prefixLen > 32 || r.reserved != Vector.replicate 3 0 ||
      (fromBeBytes r.network &&& ~~~ mask r.prefixLen.toNat) != 0) = false := by
    rw [List.any_eq_false]
    intro r live
    have routable := routes r live
    have bounded : ¬(r.prefixLen > 32) := by
      rw [gt_iff_lt, UInt8.lt_iff_toNat_lt]
      exact Nat.not_lt.mpr routable.1
    simp [bounded, routable.2.1, routable_network routable]
  rw [State.attach, if_neg fields, if_neg (by rw [each]; exact Bool.false_ne_true)]

/-- What `accepts` wants of the packet in a frame. -/
structure Acceptable (s : State) (ip : Bytes) : Prop where
  version : byte ip 0 >>> 4 = 4
  header : 20 ≤ (byte ip 0 &&& 15).toNat * 4
  fits : (byte ip 0 &&& 15).toNat * 4 ≤ ip.length
  total : half ip 2 = ip.length
  unfragmented : byte ip 6 &&& 0xbf = 0 ∧ byte ip 7 = 0
  short : ip.length ≤ s.config.mtu.toNat
  source : s.allowed (addressAt ip 12) = true
  foreign : addressAt ip 12 ≠ s.config.local_
  target : addressAt ip 16 = s.config.local_
  protocol : byte ip 9 = 6 ∨ byte ip 9 = 1

theorem ipv4_framed {header ip : Bytes} (ethernet : header.length = 12) {s : State} (good : Acceptable s ip) :
    ipv4 (header ++ [8, 0] ++ ip) = some ip := by
  have past : (header ++ [8, 0] ++ ip).drop 14 = ip := by
    rw [List.drop_append_of_le_length (by simp [ethernet]), List.drop_of_length_le (by simp [ethernet])]
    rfl
  have type : byte (header ++ [8, 0] ++ ip) 12 = 8 ∧ byte (header ++ [8, 0] ++ ip) 13 = 0 := by
    simp [byte, List.getD_eq_getElem?_getD, List.getElem?_append, ethernet]
  have long : ¬((header ++ [8, 0] ++ ip).length < 34) := by
    have := good.header
    have := good.fits
    simp only [List.length_append, ethernet, List.length_cons, List.length_nil]
    omega
  have fine : ¬(byte ip 0 >>> 4 ≠ 4 ∨ (byte ip 0 &&& 15).toNat * 4 < 20 ∨
      half ip 2 < (byte ip 0 &&& 15).toNat * 4 ∨ half ip 2 > ip.length ∨
      byte ip 6 &&& 0xbf ≠ 0 ∨ byte ip 7 ≠ 0) := by
    rintro (h | h | h | h | h | h)
    · exact h good.version
    · exact absurd good.header (Nat.not_le.mpr h)
    · exact absurd good.fits (Nat.not_le.mpr (good.total ▸ h))
    · exact absurd good.total.le (Nat.not_le.mpr h)
    · exact h good.unfragmented.1
    · exact h good.unfragmented.2
  have framed : ¬((header ++ [8, 0] ++ ip).length < 34 ∨ byte (header ++ [8, 0] ++ ip) 12 ≠ 8 ∨
      byte (header ++ [8, 0] ++ ip) 13 ≠ 0) := by
    rintro (h | h | h)
    · exact long h
    · exact h type.1
    · exact h type.2
  rw [ipv4, if_neg framed, past, if_neg fine, good.total, List.take_length]

theorem accepts_framed {header ip : Bytes} (ethernet : header.length = 12) {s : State} {pid : Nat}
    (owner : s.owner = pid) (taken : pid ≠ none_) (good : Acceptable s ip) :
    s.accepts pid (header ++ [8, 0] ++ ip) = true := by
  rw [State.accepts, ipv4_framed ethernet good]
  simp [owner, taken, good.short, good.source, good.foreign, good.target, good.protocol]

end R2Apps.KernelTunnel
