import R2Apps.MdnsCache
import R2Apps.MdnsListing

/-! A responder and a browser agree: what a host announces is listed as the browser spells it, and what it
takes back is not, whatever else the browser knows. The address of the host is news for every service
there. -/
namespace R2Apps.MdnsAgreement
open KeyedTables WireBytes MdnsMessages MdnsResponder MdnsAnswers MdnsBrowser MdnsCache MdnsListing

/-! ## A service among the entries -/

def typeIs (s : MdnsService) (ty : BrowseType) : Bool := ty.udp == false && same ty.name s.type

/-- Whether an entry is of a service, ASCII case aside. -/
def isOf (b : Browse) (s : MdnsService) (e : BrowseService) : Bool :=
  (b.types[e.type]?).any (typeIs s) && same e.instance_ s.instance_

/-- The type as the browser spells it: as it was first told of. -/
def knownType (b : Browse) (s : MdnsService) : Label :=
  ((b.types.find? (typeIs s)).map BrowseType.name).getD s.type

def knownInstance (b : Browse) (s : MdnsService) : Label :=
  ((b.services.find? (isOf b s)).map BrowseService.instance_).getD s.instance_

/-- The number of the service's type, or the one it would get. -/
def typeNo (b : Browse) (s : MdnsService) : Nat := (findType b s.type false).getD b.types.length

def isAt (t : Nat) (s : MdnsService) (e : BrowseService) : Bool := e.type == t && same e.instance_ s.instance_

section Entries
variable {b : Browse} (s : MdnsService)

theorem typeNo_some {t : Nat} (found : findType b s.type false = some t) :
    ∃ ty, b.types[t]? = some ty ∧ typeIs s ty = true := by
  obtain ⟨inside, is, -⟩ := List.findIdx?_eq_some_iff_getElem.mp found
  exact ⟨b.types[t], List.getElem?_eq_getElem inside, is⟩

theorem typeNo_only (sound : Sound b) {i : Nat} {ty : BrowseType} (there : b.types[i]? = some ty)
    (is : typeIs s ty = true) : findType b s.type false = some i := by
  obtain ⟨inside, rfl⟩ := List.getElem?_eq_some_iff.mp there
  refine List.findIdx?_eq_some_iff_getElem.mpr ⟨inside, is, ?_⟩
  intro j before hit
  have apart := List.pairwise_iff_getElem.mp sound.typesApart j i (by rw [List.length_map]; omega)
    (by rw [List.length_map]; exact inside) before
  rw [List.getElem_map, List.getElem_map] at apart
  obtain ⟨proto, name⟩ := Bool.and_eq_true_iff.mp hit
  obtain ⟨proto', name'⟩ := Bool.and_eq_true_iff.mp is
  exact apart ⟨(beq_iff_eq.mp proto).trans (beq_iff_eq.mp proto').symm, same_trans name (same_symm name')⟩

theorem isOf_isAt (sound : Sound b) {e : BrowseService} (there : e ∈ b.services) :
    isOf b s e = isAt (typeNo b s) s e := by
  have inside := (sound.services e there).type
  have type : (b.types[e.type]?).any (typeIs s) = (e.type == typeNo b s) := by
    rw [List.getElem?_eq_getElem inside, Option.any_some, Bool.eq_iff_iff, beq_iff_eq]
    constructor
    · intro is
      rw [typeNo, typeNo_only s sound (List.getElem?_eq_getElem inside) is, Option.getD_some]
    · intro same_
      cases found : findType b s.type false with
      | none =>
          rw [typeNo, found, Option.getD_none] at same_
          omega
      | some t =>
          obtain ⟨ty, at_, is⟩ := typeNo_some s found
          rw [typeNo, found, Option.getD_some] at same_
          subst same_
          rw [List.getElem?_eq_getElem inside] at at_
          cases at_
          exact is
  rw [isOf, isAt, type]

theorem isOf_filter (sound : Sound b) :
    b.services.filter (isOf b s) = b.services.filter (isAt (typeNo b s) s) :=
  List.filter_congr fun _ there => isOf_isAt s sound there

theorem others_filter (sound : Sound b) :
    b.services.filter (fun e => !isOf b s e) = b.services.filter fun e => !isAt (typeNo b s) s e :=
  List.filter_congr fun _ there => by rw [isOf_isAt s sound there]

theorem entry_once (sound : Sound b) (t : Nat) : (b.services.filter (isAt t s)).length ≤ 1 := by
  refine filter_once sound.servicesApart ?_
  intro x y hit hit' apart
  obtain ⟨type, name⟩ := Bool.and_eq_true_iff.mp hit
  obtain ⟨type', name'⟩ := Bool.and_eq_true_iff.mp hit'
  exact apart ⟨(beq_iff_eq.mp type).trans (beq_iff_eq.mp type').symm, same_trans name (same_symm name')⟩

theorem isAt_key {t : Nat} {e e' : BrowseService} (key : serviceKey e' = serviceKey e) :
    isAt t s e' = isAt t s e := by
  obtain ⟨type, inst⟩ := Prod.mk.inj key
  rw [isAt, isAt, type, inst]

end Entries

/-! ## The records of an announcement -/

section Records
variable {b : Browse} {s : MdnsService} {r : MdnsRecord} {now : Nat}

theorem tcp_type (under : s.type.head? = some 95) :
    typeAt (typeName s) 0 = some false ∧ typeAt (instanceName s) 1 = some false := by
  have domain : same (ascii "local") (ascii "local") = true := same_refl _
  have proto : same (ascii "_tcp") (ascii "_tcp") = true := same_refl _
  constructor <;> simp [typeAt, typeName, instanceName, under, domain, proto]

theorem type_not_meta (s : MdnsService) : nameEq (typeName s) metaName = false := by
  simp [nameEq, folded, typeName, metaName]

theorem onPtr_instance (under : s.type.head? = some 95) (name : r.name = typeName s)
    (target : r.target = instanceName s) :
    onPtr b r now = onInstance b r s.type s.instance_ false now := by
  obtain ⟨first, second⟩ := tcp_type under
  have split_name : split (typeName s) = some (typeName s) := if_neg (by simp [typeName])
  have split_target : split (instanceName s) = some (instanceName s) := if_neg (by simp [instanceName])
  rw [onPtr, name, target, split_name, split_target]
  simp only [type_not_meta, Bool.false_eq_true, if_false, first, second]
  simp [typeName, instanceName, same_refl]

theorem onPtr_type (under : s.type.head? = some 95) (name : r.name = metaName)
    (target : r.target = typeName s)
    (stays : r.ttl ≠ 0) : onPtr b r now = (addType b s.type false now).1 := by
  obtain ⟨first, -⟩ := tcp_type under
  have split_name : split metaName = some metaName := if_neg (by decide)
  have split_target : split (typeName s) = some (typeName s) := if_neg (by simp [typeName])
  have metas : nameEq metaName metaName = true := by decide
  rw [onPtr, name, target, split_name, split_target]
  simp only [metas, if_true, first]
  simp [typeName, stays]

theorem onSrv_instance (under : s.type.head? = some 95) (name : r.name = instanceName s) : onSrv b r now =
    ((findType b s.type false).bind (findService b s.instance_)).elim b
      fun i => { b with services := b.services.modify i (renewSrv r now) } := by
  obtain ⟨-, second⟩ := tcp_type under
  have split_name : split (instanceName s) = some (instanceName s) := if_neg (by simp [instanceName])
  rw [onSrv, name, split_name]
  simp only [instanceName] at second ⊢
  rw [second]
  dsimp only
  cases (findType b s.type false).bind (findService b s.instance_) <;> rfl

end Records

/-! ## What an announcement changes -/

section Announced
variable {b : Browse} (s : MdnsService) (now : Nat)

def newType : BrowseType := ⟨s.type, false, now, firstInterval⟩

/-- The types once the service's is among them. -/
def typesWith (b : Browse) : List BrowseType := renew (typeIs s) id (newType s now) b.types

theorem newType_is : typeIs s (newType s now) = true := by
  simp [typeIs, newType, same_refl]

theorem typesWith_cases (b : Browse) : (∃ t, findType b s.type false = some t ∧ typesWith s now b = b.types) ∨
    (findType b s.type false = none ∧ typesWith s now b = b.types ++ [newType s now]) := by
  cases found : b.types.findIdx? (typeIs s) with
  | some t => exact .inl ⟨t, found, by rw [typesWith, renew_found _ _ found, List.modify_id]⟩
  | none => exact .inr ⟨found, renew_fresh _ _ found⟩

theorem addType_room (room : b.types.length < maxTypes) :
    addType b s.type false now = ({ b with types := typesWith s now b }, some (typeNo b s)) := by
  unfold addType typeNo
  rcases typesWith_cases s now b with ⟨t, found, types⟩ | ⟨none_, types⟩
  · rw [found, types, Option.getD_some]
  · rw [none_, types, Option.getD_none]
    dsimp only
    rw [if_neg (Nat.ne_of_lt room)]
    rfl

theorem typesWith_old (b : Browse) {i : Nat} (inside : i < b.types.length) :
    (typesWith s now b)[i]? = b.types[i]? := by
  rcases typesWith_cases s now b with ⟨t, -, types⟩ | ⟨-, types⟩
  · rw [types]
  · rw [types, List.getElem?_append_left inside]

theorem typesWith_has (b : Browse) : ∃ ty, (typesWith s now b)[typeNo b s]? = some ty ∧ typeIs s ty = true ∧
    ty.name = knownType b s := by
  unfold typeNo knownType
  rcases typesWith_cases s now b with ⟨t, found, types⟩ | ⟨none_, types⟩
  · obtain ⟨ty, at_, is⟩ := typeNo_some s found
    have first : b.types.find? (typeIs s) = some ty := by
      obtain ⟨inside, rfl⟩ := List.getElem?_eq_some_iff.mp at_
      obtain ⟨_, _, before⟩ := List.findIdx?_eq_some_iff_getElem.mp found
      refine List.find?_eq_some_iff_getElem.mpr ⟨is, t, inside, rfl, ?_⟩
      intro j small
      have no : ¬typeIs s b.types[j] = true := before j small
      simpa using no
    rw [found, types, first]
    exact ⟨ty, at_, is, rfl⟩
  · have no : b.types.find? (typeIs s) = none := by
      rw [List.find?_eq_none]
      intro ty there hit
      have unlike : typeIs s ty = false := List.findIdx?_eq_none_iff.mp none_ ty there
      rw [hit] at unlike
      cases unlike
    rw [none_, types, no]
    refine ⟨newType s now, ?_, newType_is s now, rfl⟩
    rw [Option.getD_none, List.getElem?_append_right (Nat.le_refl _), Nat.sub_self]
    rfl

theorem typesWith_no (b : Browse) : (typesWith s now b).findIdx? (typeIs s) = some (typeNo b s) := by
  unfold typeNo
  rcases typesWith_cases s now b with ⟨t, found, types⟩ | ⟨none_, types⟩
  · rw [found, types, Option.getD_some]
    exact found
  · have no : b.types.findIdx? (typeIs s) = none := none_
    rw [none_, types, List.findIdx?_append, no, Option.getD_none]
    simp [newType_is]

variable {A : Mdns}

/-- An entry once the PTR and the SRV of an announcement have renewed it. -/
def heard (A : Mdns) (e : BrowseService) : BrowseService :=
  renewSrv (seen {} (recordSrv A s)) now (renewPtr (seen {} (recordPtr s)) now e)

/-- The entry of a service that was not known. -/
def newEntry (A : Mdns) (t : Nat) : BrowseService :=
  heard s now A { instance_ := s.instance_, type := t, askAt := now }

/-- The address of the host. -/
def newHost (A : Mdns) : BrowseHost := ⟨hostName A, A.ip, expiry ttlHost now⟩

def isHost (A : Mdns) (h : BrowseHost) : Bool := wireEq h.name (hostName A)

theorem heard_key (e : BrowseService) : serviceKey (heard s now A e) = serviceKey e := by
  simp only [serviceKey, heard, renewSrv, renewPtr]

theorem heard_target (e : BrowseService) : (heard s now A e).target = hostName A := by
  have small : wireLen (hostName A) ≤ targetMax := Nat.le_trans (hostName_ok A).2 (by decide)
  exact if_pos small

theorem newEntry_is (t : Nat) : isAt t s (newEntry s now A t) = true := by
  simp [isAt, newEntry, heard, renewSrv, renewPtr, same_refl]

/-- The tables after an announcement: the type and the service are among them, once. -/
def tablesWith (b : Browse) (A : Mdns) : Browse :=
  { b with
    types := typesWith s now b
    services := renew (isAt (typeNo b s) s) (heard s now A) (newEntry s now A (typeNo b s)) b.services }

theorem onPtr_room (under : s.type.head? = some 95) (types : b.types.length < maxTypes)
    (services : b.services.length < maxFound) : onPtr b (seen {} (recordPtr s)) now =
      { b with
        types := typesWith s now b
        services := renew (isAt (typeNo b s) s) (renewPtr (seen {} (recordPtr s)) now)
          (renewPtr (seen {} (recordPtr s)) now { instance_ := s.instance_, type := typeNo b s, askAt := now })
          b.services } := by
  rw [onPtr_instance under rfl rfl, onInstance, addType_room s now types]
  dsimp only
  cases found : findService { b with types := typesWith s now b } s.instance_ (typeNo b s) with
  | some i =>
      have place : b.services.findIdx? (isAt (typeNo b s) s) = some i := found
      rw [renew_found _ _ place]
  | none =>
      have place : b.services.findIdx? (isAt (typeNo b s) s) = none := found
      have some_ : ¬((seen {} (recordPtr s)).ttl = 0 ∨ b.services.length = maxFound) := by
        rintro (none_ | full)
        · cases none_
        · omega
      dsimp only
      rw [if_neg some_, renew_fresh _ _ place]

theorem onSrv_room (under : s.type.head? = some 95) (types : b.types.length < maxTypes)
    (services : b.services.length < maxFound) :
    onSrv (onPtr (onPtr b (seen {} (recordPtr s)) now) (seen {} (recordMeta s)) now)
      (seen {} (recordSrv A s)) now =
      tablesWith s now b A := by
  have no := typesWith_no s now b
  have once : ∀ c : Browse, c.types = typesWith s now b → (addType c s.type false now).1 = c := by
    intro c same_
    have known : findType c s.type false = some (typeNo b s) := by
      rw [← no, ← same_]
      rfl
    rw [addType, known]
  have kept : ∀ e, isAt (typeNo b s) s e = true →
      isAt (typeNo b s) s (renewPtr (seen {} (recordPtr s)) now e) = true :=
    fun e is => is
  have own : isAt (typeNo b s) s (renewPtr (seen {} (recordPtr s)) now
      { instance_ := s.instance_, type := typeNo b s, askAt := now }) = true := by
    simp [isAt, renewPtr, same_refl]
  have stays : (seen {} (recordMeta s)).ttl ≠ 0 := (by decide : ttlOther ≠ 0)
  obtain ⟨i, place⟩ := renew_some (l := b.services) kept own
  rw [onPtr_type under rfl rfl stays, onPtr_room s now under types services, once _ rfl,
    onSrv_instance under rfl]
  have again := renew_renew (l := b.services) (renewSrv (seen {} (recordSrv A s)) now)
    (newEntry s now A (typeNo b s))
    kept own
  rw [renew_found _ _ place] at again
  generalize renew (isAt (typeNo b s) s) (renewPtr (seen {} (recordPtr s)) now)
    (renewPtr (seen {} (recordPtr s)) now
    { instance_ := s.instance_, type := typeNo b s, askAt := now }) b.services = entries at place again
  generalize whole : ({ b with types := typesWith s now b, services := entries } : Browse) = c
  have known : findType c s.type false = some (typeNo b s) := by
    rw [← no, ← whole]
    rfl
  have there : findService c s.instance_ (typeNo b s) = some i := by
    rw [← place, ← whole]
    rfl
  rw [known, Option.bind_some, there, Option.elim_some, ← whole]
  dsimp only
  rw [again]
  rfl

theorem isHost_new : isHost A (newHost now A) = true := by
  have small : wireLen (hostName A) ≤ targetMax := Nat.le_trans (hostName_ok A).2 (by decide)
  simp [isHost, newHost, wireEq, nameEq, small]

/-- The address of a host that is known already. -/
def readdress (A : Mdns) (h : BrowseHost) : BrowseHost := { newHost now A with name := h.name }

/-- All tables after an announcement. -/
def announcedTo (b : Browse) (A : Mdns) : Browse :=
  { tablesWith s now b A with hosts := renew (isHost A) (readdress now A) (newHost now A) b.hosts }

/-- The entry that an announcement renews. -/
def knownEntry (b : Browse) : BrowseService :=
  (b.services.find? (isAt (typeNo b s) s)).getD { instance_ := s.instance_, type := typeNo b s, askAt := now }

theorem tablesWith_entry (sound : Sound b) :
    (tablesWith s now b A).services.filter (isAt (typeNo b s) s) = [heard s now A (knownEntry s now b)] := by
  have once := entry_once s sound (typeNo b s)
  rw [tablesWith, renew_here (fun e is => (isAt_key s (heard_key s now e)).trans is)
    (newEntry_is s now (typeNo b s)) once,
    newEntry, Option.getD_map, knownEntry]

theorem tablesWith_others :
    (tablesWith s now b A).services.filter (fun e => !isAt (typeNo b s) s e) =
      b.services.filter fun e => !isAt (typeNo b s) s e :=
  renew_others (fun e is => (isAt_key s (heard_key s now e)).trans is) (newEntry_is s now (typeNo b s))

theorem expiry_positive (ttl : Nat) (some_ : 0 < ttl) : 0 < expiry ttl now := by
  rw [expiry, if_neg (Nat.ne_of_gt some_), ttlMs]
  have positive : 0 < min ttl maxTtlS := Nat.lt_min.mpr ⟨some_, by decide⟩
  omega

theorem heard_listed (e : BrowseService) :
    (heard s now A e).srvExpires ≠ 0 ∧ listed (heard s now A e) = true := by
  have expires : (heard s now A e).srvExpires ≠ 0 := Nat.ne_of_gt (expiry_positive now ttlHost (by decide))
  have srv : (heard s now A e).srvTtl ≠ 0 := (by decide : ttlMs ttlHost ≠ 0)
  have ptr : (heard s now A e).ptrTtl ≠ 0 := (by decide : ttlMs ttlOther ≠ 0)
  exact ⟨expires, by simp [listed, expires, srv, ptr]⟩

theorem onA_room (sound : Sound b) (hosts : b.hosts.length < maxHosts) :
    onA (tablesWith s now b A) (seen {} (recordA A)) now = announcedTo s now b A := by
  have small : wireLen (hostName A) ≤ targetMax := Nat.le_trans (hostName_ok A).2 (by decide)
  have self : wireEq (hostName A) (hostName A) = true := by simp [wireEq, nameEq, small]
  have target : isTarget (tablesWith s now b A) (hostName A) = true := by
    have there : heard s now A (knownEntry s now b) ∈ (tablesWith s now b A).services := by
      refine List.mem_of_mem_filter (p := isAt (typeNo b s) s) ?_
      rw [tablesWith_entry s now sound]
      exact List.mem_singleton_self _
    refine List.any_eq_true.mpr ⟨_, there, ?_⟩
    have some_ : hostName A ≠ [] := List.cons_ne_nil _ _
    rw [heard_target]
    simp [(heard_listed s now (A := A) (knownEntry s now b)).1, self, some_]
  have named : (seen {} (recordA A)).name = hostName A := rfl
  have stays : ¬(seen {} (recordA A)).ttl = 0 := (by decide : ttlHost ≠ 0)
  have near_ : ¬(wireLen (hostName A) > targetMax ∨
      (!isTarget (tablesWith s now b A) (hostName A)) = true) := by
    simp [target, small]
  rw [onA, named, if_neg near_]
  dsimp only
  cases found : findHost (tablesWith s now b A) (hostName A) with
  | some i =>
      have place : b.hosts.findIdx? (isHost A) = some i := found
      rw [announcedTo, renew_found _ _ place]
      rfl
  | none =>
      have place : b.hosts.findIdx? (isHost A) = none := found
      dsimp only
      rw [if_neg stays, if_pos (show (tablesWith s now b A).hosts.length < maxHosts from hosts), announcedTo,
        renew_fresh _ _ place]
      rfl

/-- Free room for what an announcement may bring. -/
structure Roomy (b : Browse) : Prop where
  types : b.types.length < maxTypes
  services : b.services.length < maxFound
  hosts : b.hosts.length < maxHosts

theorem announced_eq (sound : Sound b) (room : Roomy b) {B : Mdns} (under : s.type.head? = some 95)
    (live : A.ip ≠ noIp)
    (reads : B.ip ≠ noIp) (apart : A.ip ≠ B.ip) :
    browseInput b B (mdnsAnnounce A (some s) false).2 now = announcedTo s now b A := by
  rw [browseInput_announce b s now live reads apart, told, onSrv_room s now under room.types room.services,
    onA_room s now sound room.hosts]

/-! ## What the list shows of it -/

/-- The line of an entry, with an address. -/
def lineAt (b : Browse) (ip : Bytes) (e : BrowseService) : Option Bytes :=
  if listed e then
    (b.types[e.type]?).map fun ty => lineText e.instance_ ty.name ty.udp e.target ip e.port
  else none

/-- The address that the list shows with a target. -/
def ipOf (b : Browse) (target : Name) : Bytes :=
  ((b.hosts.find? fun h => wireEq h.name target).map BrowseHost.ip).getD noIp

theorem addressOf_ip (b : Browse) {e : BrowseService} (shown : listed e = true) :
    (addressOf b e).elim noIp BrowseHost.ip = if e.target = [] then noIp else ipOf b e.target := by
  have expires : e.srvExpires ≠ 0 := by
    intro none_
    simp [listed, none_] at shown
  unfold addressOf
  by_cases none_ : e.target = []
  · simp [none_]
  · rw [if_pos ⟨expires, none_⟩, if_neg none_, ipOf]
    cases found : findHost b e.target with
    | none =>
        have no : b.hosts.find? (fun h => wireEq h.name e.target) = none := by
          rw [List.find?_eq_none]
          intro h there
          simpa using List.findIdx?_eq_none_iff.mp found h there
        rw [no]
        rfl
    | some i =>
        obtain ⟨inside, is, before⟩ := List.findIdx?_eq_some_iff_getElem.mp found
        have first : b.hosts.find? (fun h => wireEq h.name e.target) = some b.hosts[i] :=
          List.find?_eq_some_iff_getElem.mpr
            ⟨is, i, inside, rfl, fun j small => by simpa using before j small⟩
        rw [first, Option.bind_some, List.getElem?_eq_getElem inside]
        rfl

theorem foundLine_eq (b : Browse) (e : BrowseService) :
    foundLine b e = lineAt b (if e.target = [] then noIp else ipOf b e.target) e := by
  unfold foundLine lineAt
  by_cases shown : listed e = true
  · rw [if_pos shown, if_pos shown, addressOf_ip b shown]
  · rw [if_neg shown, if_neg shown]

/-- The line of another service: one at the announcing host has the host's address now. -/
def lineAfter (b : Browse) (A : Mdns) (e : BrowseService) : Option Bytes :=
  if wireEq e.target (hostName A) then lineAt b A.ip e else foundLine b e

theorem wireEq_trans {a b c : Name} (first : wireEq a b = true) (second : wireEq b c = true) :
    wireEq a c = true := by
  simp only [wireEq, nameEq, Bool.and_eq_true, beq_iff_eq, decide_eq_true_eq] at first second ⊢
  exact ⟨first.1.trans second.1, first.2⟩

theorem wireEq_symm {a b : Name} (alike : wireEq a b = true) (short : wireLen b ≤ targetMax) :
    wireEq b a = true := by
  simp only [wireEq, nameEq, Bool.and_eq_true, beq_iff_eq, decide_eq_true_eq] at alike ⊢
  exact ⟨alike.1.symm, short⟩

theorem ipOf_host {target : Name} (here : wireEq target (hostName A) = true) :
    ipOf (announcedTo s now b A) target = A.ip := by
  have small : wireLen (hostName A) ≤ targetMax := Nat.le_trans (hostName_ok A).2 (by decide)
  have same_ : (fun h : BrowseHost => wireEq h.name target) = isHost A := by
    funext h
    rw [isHost, Bool.eq_iff_iff]
    exact ⟨fun alike => wireEq_trans alike here, fun alike => wireEq_trans alike (wireEq_symm here small)⟩
  have kept : ∀ h, isHost A h = true → isHost A (readdress now A h) = true := fun h is => is
  have hosts : (announcedTo s now b A).hosts =
    renew (isHost A) (readdress now A) (newHost now A) b.hosts := rfl
  rw [ipOf, same_, hosts, find?_renew_self kept (isHost_new now), Option.map_some, Option.getD_some]
  cases b.hosts.find? (isHost A) <;> rfl

theorem ipOf_other {target : Name} (short : wireLen target ≤ targetMax)
    (other : wireEq target (hostName A) = false) :
    ipOf (announcedTo s now b A) target = ipOf b target := by
  have unlike : ∀ h : BrowseHost, isHost A h = true → wireEq h.name target = false := by
    intro h is
    by_contra hit
    rw [Bool.not_eq_false] at hit
    have := wireEq_trans (wireEq_symm hit short) is
    rw [other] at this
    cases this
  have hosts : (announcedTo s now b A).hosts =
    renew (isHost A) (readdress now A) (newHost now A) b.hosts := rfl
  have both : ∀ h, isHost A h = true → wireEq h.name target = false ∧
      wireEq (readdress now A h).name target = false :=
    fun h is => ⟨unlike h is, unlike h is⟩
  rw [ipOf, hosts, find?_renew_other both (unlike _ (isHost_new now)), ipOf]

theorem announced_line (sound : Sound b) :
    foundLine (announcedTo s now b A) (heard s now A (knownEntry s now b)) =
    some (lineText (knownInstance b s) (knownType b s) false (hostName A) A.ip s.port.toNat) := by
  have small : wireLen (hostName A) ≤ targetMax := Nat.le_trans (hostName_ok A).2 (by decide)
  have self : wireEq (hostName A) (hostName A) = true := by simp [wireEq, nameEq, small]
  have some_ : hostName A ≠ [] := List.cons_ne_nil _ _
  obtain ⟨ty, at_, is, name⟩ := typesWith_has s now b
  have udp : ty.udp = false := beq_iff_eq.mp (Bool.and_eq_true_iff.mp is).1
  have entry : (knownEntry s now b).type = typeNo b s ∧
      (knownEntry s now b).instance_ = knownInstance b s := by
    have same_ : b.services.find? (isOf b s) = b.services.find? (isAt (typeNo b s) s) := by
      rw [← List.head?_filter, ← List.head?_filter, isOf_filter s sound]
    unfold knownEntry knownInstance
    rw [same_]
    cases found : b.services.find? (isAt (typeNo b s) s) with
    | none => exact ⟨rfl, rfl⟩
    | some e =>
        have hit : isAt (typeNo b s) s e = true := List.find?_some found
        exact ⟨beq_iff_eq.mp (Bool.and_eq_true_iff.mp hit).1, rfl⟩
  have type : (announcedTo s now b A).types[(heard s now A (knownEntry s now b)).type]? = some ty := by
    rw [← at_, ← entry.1]
    rfl
  rw [foundLine_eq, heard_target, if_neg some_, ipOf_host s now self, lineAt,
    if_pos (heard_listed s now (knownEntry s now b)).2, type, Option.map_some, heard_target, udp,
      name, ← entry.2]
  rfl

theorem announced_other (sound : Sound b) {e : BrowseService} (there : e ∈ b.services) :
    foundLine (announcedTo s now b A) e = lineAfter b A e := by
  have ok := sound.services e there
  have types : (announcedTo s now b A).types[e.type]? = b.types[e.type]? := typesWith_old s now b ok.type
  rw [lineAfter, foundLine_eq, foundLine_eq, lineAt, types]
  by_cases here : wireEq e.target (hostName A) = true
  · have some_ : e.target ≠ [] := by
      intro none_
      rw [none_] at here
      simp [wireEq, nameEq, folded, hostName] at here
    rw [if_pos here, if_neg some_, ipOf_host s now here]
    rfl
  · rw [if_neg here, ipOf_other s now ok.short (Bool.not_eq_true _ ▸ here)]
    rfl

/-! ## What a goodbye changes -/

/-- An entry once the PTR and the SRV of a goodbye have renewed it. -/
def takenBack (A : Mdns) (e : BrowseService) : BrowseService :=
  renewSrv (seen { goodbye := true } (recordSrv A s)) now
    (renewPtr (seen { goodbye := true } (recordPtr s)) now e)

theorem takenBack_key (e : BrowseService) : serviceKey (takenBack s now A e) = serviceKey e := by
  simp only [serviceKey, takenBack, renewSrv, renewPtr]

theorem findIdx?_modify {t : Nat} {f : BrowseService → BrowseService}
    (key : ∀ e, serviceKey (f e) = serviceKey e)
    (i : Nat) (l : List BrowseService) : (l.modify i f).findIdx? (isAt t s) = l.findIdx? (isAt t s) := by
  induction l generalizing i with
  | nil => simp
  | cons e rest ih =>
      cases i with
      | zero => rw [List.modify_zero_cons, List.findIdx?_cons, List.findIdx?_cons, isAt_key s (key e)]
      | succ i => rw [List.modify_succ_cons, List.findIdx?_cons, List.findIdx?_cons, ih]

theorem isOf_types {b c : Browse} (same_ : ∀ i < b.types.length, c.types[i]? = b.types[i]?)
    {e : BrowseService}
    (inside : e.type < b.types.length) : isOf c s e = isOf b s e := by
  rw [isOf, isOf, same_ e.type inside]

theorem goodbye_ptr (sound : Sound b) {r : MdnsRecord} (over_ : r.ttl = 0) :
    (∃ t i, findType b s.type false = some t ∧ b.services.findIdx? (isAt t s) = some i ∧
      onInstance b r s.type s.instance_ false now =
        { b with services := b.services.modify i (renewPtr r now) }) ∨
    ((∀ e ∈ b.services, isOf b s e = false) ∧ ∃ types, (∀ i < b.types.length, types[i]? = b.types[i]?) ∧
      onInstance b r s.type s.instance_ false now = { b with types := types }) := by
  have absent : ∀ t, typeNo b s = t → b.services.findIdx? (isAt t s) = none →
      ∀ e ∈ b.services, isOf b s e = false := by
    rintro t rfl none_ e there
    rw [isOf_isAt s sound there]
    exact List.findIdx?_eq_none_iff.mp none_ e there
  unfold onInstance addType
  cases found : findType b s.type false with
  | some t =>
      dsimp only
      have number : typeNo b s = t := by rw [typeNo, found, Option.getD_some]
      cases place : findService b s.instance_ t with
      | some i => exact .inl ⟨t, i, rfl, place, rfl⟩
      | none =>
          refine .inr ⟨absent t number place, b.types, fun _ _ => rfl, ?_⟩
          dsimp only
          rw [if_pos (.inl over_)]
  | none =>
      -- no entry has a number that no type has
      have none_ : b.services.findIdx? (isAt b.types.length s) = none := by
        rw [List.findIdx?_eq_none_iff]
        intro e there
        have inside := (sound.services e there).type
        simp only [isAt, Bool.and_eq_false_imp, beq_iff_eq]
        omega
      have number : typeNo b s = b.types.length := by rw [typeNo, found, Option.getD_none]
      refine .inr ⟨absent _ number none_, ?_⟩
      dsimp only
      by_cases full : b.types.length = maxTypes
      · rw [if_pos full]
        exact ⟨b.types, fun _ _ => rfl, rfl⟩
      · rw [if_neg full]
        refine ⟨b.types ++ [newType s now], fun i inside => List.getElem?_append_left inside, ?_⟩
        have unknown : ∀ c : Browse, c.services = b.services →
            findService c s.instance_ b.types.length = none := by
          intro c same_
          rw [← none_, ← same_]
          rfl
        dsimp only
        rw [unknown { b with types := b.types ++ [⟨s.type, false, now, firstInterval⟩] } rfl]
        dsimp only
        rw [if_pos (.inl over_)]
        rfl

theorem goodbye_cases (sound : Sound b) {B : Mdns} (under : s.type.head? = some 95) (live : A.ip ≠ noIp)
    (reads : B.ip ≠ noIp) (apart : A.ip ≠ B.ip) :
    (∃ t i, findType b s.type false = some t ∧ b.services.findIdx? (isAt t s) = some i ∧
      browseInput b B (mdnsAnnounce A (some s) true).2 now =
        { b with services := b.services.modify i (takenBack s now A) }) ∨
    ((∀ e ∈ b.services, isOf b s e = false) ∧ ∃ types, (∀ i < b.types.length, types[i]? = b.types[i]?) ∧
      browseInput b B (mdnsAnnounce A (some s) true).2 now = { b with types := types }) := by
  have over_ : (seen { goodbye := true } (recordPtr s)).ttl = 0 := rfl
  have kept := onInstance_sound
    (r := seen { goodbye := true } (recordPtr s)) s.typeOk s.instanceOk false now sound
  rw [browseInput_goodbye b s now live reads apart, onPtr_instance under rfl rfl, onSrv_instance under rfl]
  rcases goodbye_ptr s now sound over_ with ⟨t, i, found, place, ptr⟩ | ⟨none_, types, old, ptr⟩
  · have there := (findIdx?_modify s (t := t) (f := renewPtr (seen { goodbye := true } (recordPtr s)) now)
      (fun _ => rfl) i b.services).trans place
    refine .inl ⟨t, i, found, place, ?_⟩
    rw [ptr]
    generalize whole : ({ b with
      services := b.services.modify i (renewPtr (seen { goodbye := true } (recordPtr s)) now) } : Browse) = c
    have type : findType c s.type false = some t := by
      rw [← found, ← whole]
      rfl
    have service : findService c s.instance_ t = some i := by
      rw [← there, ← whole]
      rfl
    rw [type, Option.bind_some, service, Option.elim_some, ← whole]
    dsimp only
    rw [List.modify_modify_eq]
    rfl
  · rw [ptr] at kept ⊢
    refine .inr ⟨none_, types, old, ?_⟩
    have unknown : (findType { b with types := types } s.type false).bind
        (findService { b with types := types } s.instance_) = none := by
      cases found : findType { b with types := types } s.type false with
      | none => rfl
      | some t =>
          rw [Option.bind_some]
          refine List.findIdx?_eq_none_iff.mpr ?_
          intro e there
          have is := isOf_isAt s kept there
          rw [isOf_types s old (sound.services e there).type, none_ e there, typeNo, found,
            Option.getD_some] at is
          exact is.symm
    rw [unknown, Option.elim_none]

theorem goodbye_unlisted (sound : Sound b) {B : Mdns} (under : s.type.head? = some 95) (live : A.ip ≠ noIp)
    (reads : B.ip ≠ noIp) (apart : A.ip ≠ B.ip) {gone : Browse}
    (is : browseInput b B (mdnsAnnounce A (some s) true).2 now = gone) :
    (∀ e ∈ gone.services, isOf gone s e = true → listed e = false ∧ e.ptrExpires = now + goodbyeMs) ∧
      (gone.services.filter fun e => !isOf gone s e).map (foundLine gone) =
        (b.services.filter fun e => !isOf b s e).map (foundLine b) := by
  have kept : Sound gone := is ▸ browseInput_sound B _ now sound
  rcases goodbye_cases s now sound under live reads apart with ⟨t, i, found, place, whole⟩ |
    ⟨none_, types, old, whole⟩
  · obtain rfl := is.symm.trans whole
    have number : typeNo b s = t := by rw [typeNo, found, Option.getD_some]
    have stays : ∀ e, isAt t s e = true → isAt t s (takenBack s now A e) = true := fun e hit =>
      (isAt_key s (takenBack_key s now e)).trans hit
    have own : isAt t s (takenBack s now A { instance_ := s.instance_, type := t, askAt := now }) = true :=
      stays _ (by simp [isAt, same_refl])
    have entries := renew_found (takenBack s now A)
      (takenBack s now A { instance_ := s.instance_, type := t, askAt := now }) place
    have number' : typeNo { b with services := b.services.modify i (takenBack s now A) } s = t := number
    constructor
    · intro e there hit
      rw [isOf_isAt s kept there, number'] at hit
      have one : e ∈ (b.services.modify i (takenBack s now A)).filter (isAt t s) :=
        List.mem_filter.mpr ⟨there, hit⟩
      rw [← entries, renew_here stays own (entry_once s sound t), Option.getD_map, List.mem_singleton] at one
      rw [one]
      exact ⟨by simp [listed, takenBack, renewSrv, seen, recordSrv, Msg.ttl, ttlMs], rfl⟩
    · rw [others_filter s kept, others_filter s sound, number', number]
      dsimp only
      rw [← entries, renew_others stays own]
      rfl
  · obtain rfl := is.symm.trans whole
    have same_ : ∀ e ∈ b.services, isOf { b with types := types } s e = isOf b s e := fun e there =>
      isOf_types s old (sound.services e there).type
    constructor
    · intro e there hit
      rw [same_ e there, none_ e there] at hit
      cases hit
    · rw [List.filter_congr fun e there => by rw [same_ e there]]
      refine List.map_congr_left fun e there => ?_
      have inside := (sound.services e (List.mem_of_mem_filter there)).type
      rw [foundLine_eq, foundLine_eq, lineAt, lineAt, old e.type inside]
      rfl

theorem goodbye_expires {gone : Browse}
    (left_ : ∀ e ∈ gone.services, isOf gone s e = true →
      listed e = false ∧ e.ptrExpires = now + goodbyeMs) {t : Nat}
    (later : now + goodbyeMs ≤ t) :
    ∀ e ∈ (browseExpire gone t).services, isOf (browseExpire gone t) s e = false := by
  intro e there
  have perm := swept (fun e : BrowseService => decide (t ≥ e.ptrExpires)) (expireSrv t) gone.services
  obtain ⟨old, stayed, rfl⟩ := List.mem_map.mp (perm.mem_iff.mp there)
  obtain ⟨member, alive⟩ := List.mem_filter.mp stayed
  have same_ : isOf (browseExpire gone t) s (expireSrv t old) = isOf gone s old := by
    unfold expireSrv
    split <;> rfl
  rw [same_]
  by_contra hit
  have soon := (left_ old member (Bool.not_eq_false _ ▸ hit)).2
  simp only [Bool.not_eq_true', decide_eq_false_iff_not, ge_iff_le, Nat.not_le] at alive
  omega

/-! ## A responder and a browser -/

theorem lines_of_others {b : Browse} (unlisted : ∀ e ∈ b.services, isOf b s e = true → listed e = false) :
    b.services.filterMap (foundLine b) =
      ((b.services.filter fun e => !isOf b s e).map (foundLine b)).filterMap id := by
  rw [List.filterMap_map]
  have all : ∀ e ∈ b.services, isOf b s e = true → foundLine b e = none := by
    intro e there hit
    rw [foundLine, unlisted e there hit]
    rfl
  generalize b.services = entries at all
  induction entries with
  | nil => rfl
  | cons e rest ih =>
      rw [List.forall_mem_cons] at all
      by_cases hit : isOf b s e = true
      · rw [List.filterMap_cons_none (all.1 hit), List.filter_cons_of_neg (by simp [hit]), ih all.2]
      · rw [List.filter_cons_of_pos (by simp [hit]), List.filterMap_cons, List.filterMap_cons, ih all.2]
        rfl

/-- What is announced is listed, with the names as the browser knows them, and leaves the others as they
were but for the host's address; whenever it is taken back it is listed no more, and a second later its
entry is dropped. -/
theorem announcement_listed {b : Browse} (reached : Reachable b) (room : Roomy b) (A B : Mdns)
    (s : MdnsService)
    (under : s.type.head? = some 95) (live : A.ip ≠ noIp) (reads : B.ip ≠ noIp)
    (apart : A.ip ≠ B.ip) (now seq : Nat)
    (fits : (listLines (browseInput b B (mdnsAnnounce A (some s) false).2 now) B).flatten.length ≤
      roomFor seq)
    {later : Browse} (reached' : Reachable later) (now' seq' : Nat) :
    let known := browseInput b B (mdnsAnnounce A (some s) false).2 now
    let gone := browseInput later B (mdnsAnnounce A (some s) true).2 now'
    let line := lineText (knownInstance b s) (knownType b s) false (hostName A) A.ip s.port.toNat
    (line ∈ serviceLines (browseList known B seq) ∧
      serviceLines (browseList known B seq) = listLines known B ∧
      (known.services.filter (isOf known s)).map (foundLine known) = [some line] ∧
      (known.services.filter fun e => !isOf known s e).map (foundLine known) =
        (b.services.filter fun e => !isOf b s e).map (lineAfter b A)) ∧
    (serviceLines (browseList gone B seq') = fitted (roomFor seq') (B.services.map (ownLine B) ++
        ((later.services.filter fun e => !isOf later s e).map (foundLine later)).filterMap id) ∧
      ∀ t, now' + goodbyeMs ≤ t →
        ∀ e ∈ (browseExpire gone t).services, isOf (browseExpire gone t) s e = false) := by
  intro known gone line
  have sound := reachable_sound reached
  constructor
  · have is : known = announcedTo s now b A := announced_eq s now sound room under live reads apart
    have kept : Sound known := browseInput_sound B _ now sound
    have number : typeNo known s = typeNo b s := by
      have no := typesWith_no s now b
      rw [is, typeNo, show findType (announcedTo s now b A) s.type false = some (typeNo b s) from no,
        Option.getD_some]
    have shown : foundLine known (heard s now A (knownEntry s now b)) = some line := by
      rw [is]
      exact announced_line s now sound
    have entry : known.services.filter (isOf known s) = [heard s now A (knownEntry s now b)] := by
      rw [isOf_filter s kept, number, is]
      exact tablesWith_entry s now sound
    have all : serviceLines (browseList known B seq) = listLines known B := by
      rw [browseList_lines]
      exact fitted_all fits
    refine ⟨?_, all, by rw [entry, List.map_singleton, shown], ?_⟩
    · have there : heard s now A (knownEntry s now b) ∈ known.services := by
        refine List.mem_of_mem_filter (p := isOf known s) ?_
        rw [entry]
        exact List.mem_singleton_self _
      rw [all]
      exact List.mem_append_right _ (List.mem_filterMap.mpr ⟨_, there, shown⟩)
    · rw [others_filter s kept, others_filter s sound, number, is]
      rw [show (announcedTo s now b A).services = (tablesWith s now b A).services from rfl, tablesWith_others]
      exact List.map_congr_left fun e there => announced_other s now sound (List.mem_of_mem_filter there)
  · obtain ⟨left_, others⟩ := goodbye_unlisted s now' (reachable_sound reached') under live reads apart
      (rfl : browseInput later B (mdnsAnnounce A (some s) true).2 now' = gone)
    refine ⟨?_, fun t wait => goodbye_expires s now' left_ wait⟩
    rw [browseList_lines, listLines, lines_of_others s fun e there hit => (left_ e there hit).1, others]

end Announced

/-! ## What the list does not show -/

/-- The web server of a host that spells its type in capitals. -/
def capitals : MdnsService := serviceOf (ascii "_HTTP") (by decide)

theorem offering_listed : ∃ line, line ∈ serviceLines (browseList
    (browseInput (browseStart 0) browsing (mdnsAnnounce offering (some capitals) false).2 0) browsing 0) := by
  refine ⟨_, (announcement_listed (.start 0)
    ⟨by decide, by decide, by decide⟩ offering browsing capitals rfl (by decide)
    (by decide) (by decide) 0 0 ?_ (.start 0) 0 0).1.1⟩
  rw [browseInput_announce _ _ _ (by decide) (by decide) (by decide)]
  decide

/-- A service of a host with long names. -/
def crowdService (i : Nat) : MdnsService where
  port := 10000
  type := 95 :: List.replicate 62 98
  instance_ := UInt8.ofNat (48 + i / 10) :: UInt8.ofNat (48 + i % 10) :: List.replicate 61 97
  typeOk := by decide
  instanceOk := by simp [labelMax]

/-- The hosts of a large network, with as many services as there may be. -/
def crowdHost (k : Nat) : Mdns where
  host := UInt8.ofNat (48 + k) :: List.replicate 31 120
  ip := [10, 100, 100, UInt8.ofNat (100 + k)]
  mac := [2, 0, 0, 0, 0, UInt8.ofNat k]
  services := (List.range 16).map fun j => crowdService (16 * k + j)
  ipId := 0
  hostOk := by simp [hostMax]
  ipFour := rfl
  macSix := rfl
  few := by simp [maxServices]

def hears (b : Browse) (i : Nat) : Browse :=
  browseInput b browsing (mdnsAnnounce (crowdHost (i / 16)) (some (crowdService i)) false).2 0

theorem hears_told (b : Browse) (i : Nat) : hears b i = told b (crowdService i) 0 (crowdHost (i / 16)) := by
  have second : (crowdHost (i / 16)).ip[1]? = some 100 := rfl
  refine browseInput_announce b _ 0 ?_ (by decide) ?_
  · intro none_
    rw [none_] at second
    exact absurd second (by decide)
  · intro same_
    rw [same_] at second
    exact absurd second (by decide)

/-- A browser that has heard of as many services as the text has room for. -/
def crowded : Browse := (List.range 42).foldl hears (browseStart 0)

theorem crowded_told :
    crowded = (List.range 42).foldl (fun b i => told b (crowdService i) 0 (crowdHost (i / 16)))
    (browseStart 0) :=
  congrArg (fun turn => (List.range 42).foldl turn (browseStart 0))
    (funext fun b => funext fun i => hears_told b i)

theorem crowded_reachable : Reachable crowded := by
  unfold crowded
  exact List.foldlRecOn (motive := Reachable) _ _ (.start 0) fun _ reached _ _ => .input browsing _ 0 reached

theorem letter_type : 1 ≤ (ascii "_a").length ∧ (ascii "_a").length ≤ labelMax := by decide

def heardFirst : Browse :=
  browseInput (browseStart 0) browsing
    (mdnsAnnounce offering (some (serviceOf (ascii "_a") letter_type)) false).2 0

/-- The same host at another address. -/
def movedOffering : Mdns := { offering with ip := [10, 0, 0, 3], ipFour := rfl }

/-- What an announcement does not do: it does not spell a type in another way than the one that is known, it
does not leave another service of the host its address, and it makes no room in the text. -/
theorem announcement_limits :
    (Roomy (browseStart 0) ∧ lineText (ascii "box") (ascii "_HTTP") false (hostName offering) offering.ip 80 ∉
      serviceLines (browseList
        (browseInput (browseStart 0) browsing
          (mdnsAnnounce offering (some capitals) false).2 0) browsing 0)) ∧
    (Reachable heardFirst ∧ Roomy heardFirst ∧
      lineText (ascii "box") (ascii "_a") false (hostName offering) offering.ip 80 ∈
        serviceLines (browseList heardFirst browsing 0) ∧
      lineText (ascii "box") (ascii "_a") false (hostName offering) offering.ip 80 ∉ serviceLines (browseList
        (browseInput heardFirst browsing
          (mdnsAnnounce movedOffering (some capitals) false).2 0) browsing 0)) ∧
    (Reachable crowded ∧ Roomy crowded ∧
      lineText (crowdService 42).instance_ (crowdService 42).type false (hostName (crowdHost 2))
        (crowdHost 2).ip 10000 ∉
        serviceLines (browseList (hears crowded 42) browsing 0)) := by
  refine ⟨⟨⟨by decide, by decide, by decide⟩, ?_⟩, ⟨.input _ _ _ (.start 0), ?_, ?_, ?_⟩,
    crowded_reachable, ?_, ?_⟩
  · rw [browseInput_announce _ _ _ (by decide) (by decide) (by decide), browseList_lines]
    decide
  · rw [heardFirst, browseInput_announce _ _ _ (by decide) (by decide) (by decide)]
    exact ⟨by decide, by decide, by decide⟩
  · rw [heardFirst, browseInput_announce _ _ _ (by decide) (by decide) (by decide), browseList_lines]
    decide
  · rw [heardFirst, browseInput_announce _ _ _ (by decide) (by decide) (by decide),
      browseInput_announce _ _ _ (by decide) (by decide) (by decide), browseList_lines]
    decide
  · rw [crowded_told]
    exact ⟨by decide +kernel, by decide +kernel, by decide +kernel⟩
  · rw [hears_told, crowded_told, browseList_lines]
    decide +kernel

end R2Apps.MdnsAgreement
