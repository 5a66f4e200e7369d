import R2Apps.KeyedTables
import R2Apps.MdnsAnswers
import R2Apps.MdnsBrowser

/-! What a browser knows after any run: names that are fit for questions, no type twice and no instance of
a type twice, and what each record of an announcement changes. -/
namespace R2Apps.MdnsCache
open KeyedTables WireBytes MdnsMessages MdnsResponder MdnsAnswers MdnsBrowser

/-- Every run of a browser: whatever it is given, in any order. -/
inductive Reachable : Browse → Prop
  | start (now : Nat) : Reachable (browseStart now)
  | input {b : Browse} (m : Mdns) (frame : Bytes) (now : Nat) : Reachable b →
    Reachable (browseInput b m frame now)
  | expire {b : Browse} (now : Nat) : Reachable b → Reachable (browseExpire b now)
  | query {b : Browse} (m : Mdns) (now : Nat) : Reachable b → Reachable (browseQuery b m now).1

/-! ## The invariant -/

def LabelOk (label : Label) : Prop := 1 ≤ label.length ∧ label.length ≤ labelMax

def typeKey (t : BrowseType) : Bool × Label := (t.udp, t.name)

def serviceKey (s : BrowseService) : Nat × Label := (s.type, s.instance_)

/-- Of different protocols or types, or with names that are not alike. -/
def Apart {α : Type} (k l : α × Label) : Prop := ¬(k.1 = l.1 ∧ same k.2 l.2 = true)

/-- An entry of a browser that knows `types` types. -/
structure ServiceOk (types : Nat) (s : BrowseService) : Prop where
  inst : LabelOk s.instance_
  target : NameOk s.target
  short : wireLen s.target ≤ targetMax
  type : s.type < types

structure Sound (b : Browse) : Prop where
  types : ∀ t ∈ b.types, LabelOk t.name
  services : ∀ s ∈ b.services, ServiceOk b.types.length s
  typesApart : (b.types.map typeKey).Pairwise Apart
  servicesApart : (b.services.map serviceKey).Pairwise Apart

/-! ## Names alike -/

theorem same_iff {a b : Label} : same a b = true ↔ a.map lower = b.map lower := beq_iff_eq

theorem same_refl (a : Label) : same a a = true := same_iff.mpr rfl

theorem same_symm {a b : Label} (alike : same a b = true) : same b a = true :=
  same_iff.mpr (same_iff.mp alike).symm

theorem same_trans {a b c : Label} (first : same a b = true) (second : same b c = true) : same a c = true :=
  same_iff.mpr ((same_iff.mp first).trans (same_iff.mp second))

theorem apart_symm {α : Type} {k l : α × Label} (apart : Apart k l) : Apart l k :=
  fun alike => apart ⟨alike.1.symm, same_symm alike.2⟩

/-! ## What each step keeps -/

theorem modify_all {α : Type} {p : α → Prop} {f : α → α} {l : List α} (i : Nat) (all : ∀ x ∈ l, p x)
    (kept : ∀ x, p x → p (f x)) : ∀ x ∈ l.modify i f, p x := by
  induction l generalizing i with
  | nil => simp
  | cons y rest ih =>
      rw [List.forall_mem_cons] at all
      cases i with
      | zero => exact List.forall_mem_cons.mpr ⟨kept y all.1, all.2⟩
      | succ i => exact List.forall_mem_cons.mpr ⟨all.1, ih i all.2⟩

theorem append_one {α : Type} {p : α → Prop} {l : List α} {y : α} (all : ∀ x ∈ l, p x) (last : p y) :
    ∀ x ∈ l ++ [y], p x := by
  intro x member
  rcases List.mem_append.mp member with old | new
  · exact all x old
  · obtain rfl := List.mem_singleton.mp new
    exact last

section Sound
variable {b : Browse}

theorem Sound.renew (sound : Sound b) (i : Nat) {f : BrowseService → BrowseService}
    (key : ∀ s, serviceKey (f s) = serviceKey s)
    (kept : ∀ s, ServiceOk b.types.length s → ServiceOk b.types.length (f s)) :
    Sound { b with services := b.services.modify i f } := by
  refine ⟨sound.types, modify_all i sound.services kept, sound.typesApart, ?_⟩
  rw [map_modify key]
  exact sound.servicesApart

theorem findType_none {name : Label} {udp : Bool} (none_ : findType b name udp = none) :
    ∀ t ∈ b.types, Apart (typeKey t) (udp, name) := by
  intro t there alike
  have no := List.findIdx?_eq_none_iff.mp none_ t there
  simp [show t.udp = udp from alike.1, show same t.name name = true from alike.2] at no

theorem addType_sound {name : Label} (ok : LabelOk name) (udp : Bool) (now : Nat) (sound : Sound b) :
    Sound (addType b name udp now).1 := by
  unfold addType
  cases found : findType b name udp with
  | some t => exact sound
  | none =>
      dsimp only
      split
      · exact sound
      · refine ⟨append_one sound.types ok, ?_, pairwise_add sound.typesApart (findType_none found),
          sound.servicesApart⟩
        intro s there
        have old := sound.services s there
        exact { old with type := Nat.lt_of_lt_of_le old.type (by simp) }

theorem addType_inside {name : Label} {udp : Bool} {now t : Nat}
    (number : (addType b name udp now).2 = some t) :
    t < (addType b name udp now).1.types.length := by
  unfold addType at number ⊢
  cases found : findType b name udp with
  | some i =>
      rw [found] at number
      cases number
      obtain ⟨inside, -⟩ := List.findIdx?_eq_some_iff_getElem.mp found
      exact inside
  | none =>
      rw [found] at number
      dsimp only at number ⊢
      split at number
      · cases number
      · next room =>
        cases number
        rw [if_neg room]
        simp

theorem split_ok {name labels : Name} (ok : NameOk name) (whole : split name = some labels) :
    NameOk labels := by
  unfold split at whole
  split at whole
  · cases whole
  · cases whole
    exact ok

theorem findService_none {inst : Label} {t : Nat} (none_ : findService b inst t = none) :
    ∀ s ∈ b.services, Apart (serviceKey s) (t, inst) := by
  intro s there alike
  have no := List.findIdx?_eq_none_iff.mp none_ s there
  simp [show s.type = t from alike.1, show same s.instance_ inst = true from alike.2] at no

theorem onInstance_sound {r : MdnsRecord} {type inst : Label} (typeOk : LabelOk type) (ok : LabelOk inst)
    (udp : Bool) (now : Nat) (sound : Sound b) : Sound (onInstance b r type inst udp now) := by
  have added := addType_sound typeOk udp now sound
  have inside : ∀ t, (addType b type udp now).2 = some t → t < (addType b type udp now).1.types.length :=
    fun _ number => addType_inside number
  unfold onInstance
  generalize addType b type udp now = found at added inside
  obtain ⟨b, t⟩ := found
  cases t with
  | none => exact added
  | some t =>
      dsimp only at added inside ⊢
      cases none_ : findService b inst t with
      | some i => exact added.renew i (fun _ => rfl) fun s ok => ⟨ok.inst, ok.target, ok.short, ok.type⟩
      | none =>
          dsimp only
          split
          · exact added
          · refine ⟨added.types, append_one added.services ?_, added.typesApart,
              pairwise_add added.servicesApart (findService_none none_)⟩
            exact ⟨ok, nameOk_nil, (by decide : wireLen [] ≤ targetMax), inside t rfl⟩

theorem typeAt_some {l : Name} {i : Nat} {udp : Bool} (found : typeAt l i = some udp) : ∃ type proto domain,
    l.drop i = [type, proto, domain] ∧ same proto (if udp then ascii "_udp" else ascii "_tcp") = true ∧
      same domain (ascii "local") = true := by
  unfold typeAt at found
  split at found
  · next type proto domain whole =>
    split at found
    · cases found
    · next known =>
      rw [not_or, Bool.not_eq_true', Bool.not_eq_false] at known
      split at found
      · next tcp =>
        cases found
        exact ⟨type, proto, domain, whole, tcp, known.2⟩
      · split at found
        · next other =>
          cases found
          exact ⟨type, proto, domain, whole, other, known.2⟩
        · cases found
  · cases found

/-- A PTR is not for this browser, tells of a type, or of an instance of one. -/
theorem onPtr_cases (b : Browse) (r : MdnsRecord) (now : Nat) : onPtr b r now = b ∨
    (∃ type udp, (NameOk r.target → LabelOk type) ∧ onPtr b r now = (addType b type udp now).1) ∨
    ∃ type inst udp, (NameOk r.name → LabelOk type) ∧ (NameOk r.target → LabelOk inst) ∧
      folded r.target = folded [inst, type, if udp then ascii "_udp" else ascii "_tcp", ascii "local"] ∧
      onPtr b r now = onInstance b r type inst udp now := by
  unfold onPtr
  split
  · next nl tl nsplit tsplit =>
    split
    · split
      · next udp type _ _ =>
        split
        · exact .inr (.inl ⟨type, udp, fun ok => (nameOk_cons.mp (split_ok ok tsplit)).1, rfl⟩)
        · exact .inl rfl
      · exact .inl rfl
    · split
      · next udp udp' type _ inst type' rest _ at_ at' =>
        split
        · exact .inl rfl
        · next agree =>
          have whole : r.target = inst :: type' :: rest := by
            unfold split at tsplit
            split at tsplit
            · cases tsplit
            · exact Option.some.inj tsplit
          obtain ⟨_, proto, domain, is, known, known'⟩ := typeAt_some at'
          cases is
          rw [not_or, not_not, Bool.not_eq_true', Bool.not_eq_false] at agree
          obtain ⟨rfl, alike⟩ := agree
          refine .inr (.inr ⟨type, inst, udp, fun ok => (nameOk_cons.mp (split_ok ok nsplit)).1,
            fun ok => (nameOk_cons.mp (split_ok ok tsplit)).1, ?_, rfl⟩)
          rw [same_iff] at alike known known'
          simp only [whole, folded, List.map_cons, List.map_nil, alike, known, known']
      · exact .inl rfl
  · exact .inl rfl

theorem onPtr_sound {r : MdnsRecord} (name : NameOk r.name) (target : NameOk r.target) (now : Nat)
    (sound : Sound b) :
    Sound (onPtr b r now) := by
  rcases onPtr_cases b r now with same_ | ⟨type, udp, ok, same_⟩ |
    ⟨type, inst, udp, typeOk, ok, -, same_⟩ <;> rw [same_]
  · exact sound
  · exact addType_sound (ok target) udp now sound
  · exact onInstance_sound (typeOk name) (ok target) udp now sound

theorem serviceWire_eq {s : BrowseService} {ty : BrowseType} (known : b.types[s.type]? = some ty) :
    serviceWire b s = [s.instance_, ty.name, if ty.udp then ascii "_udp"
      else ascii "_tcp", ascii "local"] := by
  rw [serviceWire, typeWire, known]
  rfl

theorem findType_some {name : Label} {udp : Bool} {t : Nat} (found : findType b name udp = some t) :
    ∃ ty, b.types[t]? = some ty ∧ ty.udp = udp ∧ same ty.name name = true := by
  obtain ⟨inside, is, -⟩ := List.findIdx?_eq_some_iff_getElem.mp found
  rw [Bool.and_eq_true, beq_iff_eq] at is
  exact ⟨_, List.getElem?_eq_getElem inside, is⟩

theorem findService_named {inst type : Label} {t i : Nat} {ty : BrowseType} (known : b.types[t]? = some ty)
    (alike : same ty.name type = true) (found : findService b inst t = some i) :
    ∃ s, b.services[i]? = some s ∧ folded (serviceWire b s) =
      folded [inst, type, if ty.udp then ascii "_udp" else ascii "_tcp", ascii "local"] := by
  obtain ⟨inside, is, -⟩ := List.findIdx?_eq_some_iff_getElem.mp found
  rw [Bool.and_eq_true, beq_iff_eq] at is
  refine ⟨_, List.getElem?_eq_getElem inside, ?_⟩
  rw [serviceWire_eq (is.1 ▸ known)]
  simp only [folded, List.map_cons, same_iff.mp is.2, same_iff.mp alike]

theorem onSrv_cases (b : Browse) (r : MdnsRecord) (now : Nat) : onSrv b r now = b ∨
    ∃ i s, b.services[i]? = some s ∧ folded r.name = folded (serviceWire b s) ∧
      onSrv b r now = { b with services := b.services.modify i (renewSrv r now) } := by
  unfold onSrv
  split
  · next inst type rest whole =>
    have name : r.name = inst :: type :: rest := by
      unfold split at whole
      split at whole
      · cases whole
      · exact Option.some.inj whole
    split
    · next udp at_ =>
      split
      · next i found =>
        obtain ⟨t, isType, isService⟩ := Option.bind_eq_some_iff.mp found
        obtain ⟨ty, known, rfl, alike⟩ := findType_some isType
        obtain ⟨s, there, wire_⟩ := findService_named known alike isService
        obtain ⟨_, proto, domain, is, proto_, domain_⟩ := typeAt_some at_
        cases is
        refine .inr ⟨i, s, there, ?_, rfl⟩
        rw [wire_, name]
        simp only [folded, List.map_cons, List.map_nil, same_iff.mp proto_, same_iff.mp domain_]
      · exact .inl rfl
    · exact .inl rfl
  · exact .inl rfl

theorem onSrv_sound {r : MdnsRecord} (target : NameOk r.target) (now : Nat) (sound : Sound b) :
    Sound (onSrv b r now) := by
  rcases onSrv_cases b r now with same_ | ⟨i, -, -, -, same_⟩ <;> rw [same_]
  · exact sound
  · refine sound.renew i (fun _ => rfl) fun s ok => ⟨ok.inst, ?_, ?_, ok.type⟩
    · dsimp only [renewSrv]
      split
      · exact target
      · exact nameOk_nil
    · dsimp only [renewSrv]
      split
      · assumption
      · decide

theorem Sound.hosts (sound : Sound b) (hosts : List BrowseHost) : Sound { b with hosts := hosts } :=
  ⟨sound.types, sound.services, sound.typesApart, sound.servicesApart⟩

theorem onA_sound (r : MdnsRecord) (now : Nat) (sound : Sound b) : Sound (onA b r now) := by
  unfold onA
  split
  · exact sound
  · dsimp only
    split
    · exact sound.hosts _
    · split
      · exact sound
      · split
        · exact sound.hosts _
        · split
          · exact sound.hosts _
          · exact sound

theorem readData_ok {msg : Bytes} {r r' : MdnsRecord} {data rdlen : Nat} (target : NameOk r.target)
    (read : readData msg r data rdlen = some r') : r'.name = r.name ∧ NameOk r'.target := by
  unfold readData at read
  split at read
  · obtain ⟨⟨name, past⟩, found, rest⟩ := Option.bind_eq_some_iff.mp read
    dsimp only at rest
    split at rest
    · cases rest
    · cases rest
      exact ⟨rfl, (readName_ok found).1⟩
  · split at read
    · split at read
      · cases read
      · obtain ⟨⟨name, past⟩, found, rest⟩ := Option.bind_eq_some_iff.mp read
        dsimp only at rest
        split at rest
        · cases rest
        · cases rest
          exact ⟨rfl, (readName_ok found).1⟩
    · split at read
      · split at read
        · cases read
        · cases read
          exact ⟨rfl, target⟩
      · cases read
        exact ⟨rfl, target⟩

theorem nextRecord_ok {msg : Bytes} (left_ : Nat) : ∀ {off : Nat} {r : MdnsRecord} {next : Nat × Nat},
    nextRecord msg left_ off = some (r, next) → NameOk r.name ∧ NameOk r.target := by
  induction left_ with
  | zero => rintro off r next ⟨⟩
  | succ left_ ih =>
      intro off r next read
      simp only [nextRecord] at read
      split at read
      · cases read
      · next name p found =>
        split at read
        · cases read
        · split at read
          · exact ih read
          · obtain ⟨r', data, whole⟩ := Option.map_eq_some_iff.mp read
            cases whole
            obtain ⟨same, target⟩ := readData_ok nameOk_nil data
            rw [same]
            exact ⟨(readName_ok found).1, target⟩

theorem allRecords_ok {msg : Bytes} (fuel : Nat) : ∀ {left_ off : Nat}, ∀ r ∈ allRecords msg fuel left_ off,
    NameOk r.name ∧ NameOk r.target := by
  induction fuel with
  | zero => rintro left_ off r ⟨⟩
  | succ fuel ih =>
      intro left_ off r member
      simp only [allRecords] at member
      split at member
      · cases member
      · next first next' _ read =>
        rcases List.mem_cons.mp member with rfl | later
        · exact nextRecord_ok left_ read
        · exact ih r later

theorem takeRecord_sound {r : MdnsRecord} (ok : NameOk r.name ∧ NameOk r.target) (pass now : Nat)
    (sound : Sound b) :
    Sound (takeRecord pass now b r) := by
  unfold takeRecord
  split
  · exact onPtr_sound ok.1 ok.2 now sound
  · split
    · exact onSrv_sound ok.2 now sound
    · split
      · exact onA_sound r now sound
      · exact sound

theorem browseInput_sound (m : Mdns) (frame : Bytes) (now : Nat) (sound : Sound b) :
    Sound (browseInput b m frame now) := by
  unfold browseInput
  split
  · exact sound
  · refine List.foldlRecOn _ _ sound fun b sound pass _ => ?_
    exact List.foldlRecOn _ _ sound fun b sound r member =>
      takeRecord_sound (allRecords_ok _ r member) pass now sound

theorem sweep_perm {α : Type} (gone : α → Bool) (keep : α → α) (turns : Nat) : ∀ before rest : List α,
    rest.length ≤ turns → ∃ kept, sweep gone keep turns before.length (before ++ rest) = before ++ kept ∧
      kept.Perm ((rest.filter fun x => !gone x).map keep) := by
  induction turns with
  | zero =>
      intro before rest none_
      obtain rfl := List.length_eq_zero_iff.mp (Nat.le_zero.mp none_)
      exact ⟨[], rfl, List.Perm.refl _⟩
  | succ turns ih =>
      intro before rest short
      cases rest with
      | nil => exact ⟨[], by simp [sweep], List.Perm.refl _⟩
      | cons x rest =>
          have here : (before ++ x :: rest)[before.length]? = some x := by simp
          rw [List.length_cons] at short
          simp only [sweep, here]
          by_cases out : gone x = true
          · obtain ⟨moved, filled, perm⟩ := fill_perm before rest x x
            obtain ⟨kept, swept, same⟩ := ih before moved (by rw [perm.length_eq]; omega)
            rw [if_pos out, filled, swept]
            refine ⟨kept, rfl, same.trans ?_⟩
            rw [List.filter_cons_of_neg (by simp [out])]
            exact (perm.filter _).map _
          · obtain ⟨kept, swept, same⟩ := ih (before ++ [keep x]) rest (by omega)
            rw [List.length_append, List.length_singleton, List.append_assoc, List.singleton_append] at swept
            rw [if_neg out, List.set_append_right _ _ (Nat.le_refl _), Nat.sub_self,
              List.set_cons_zero, swept]
            refine ⟨keep x :: kept, by simp, ?_⟩
            rw [List.filter_cons_of_pos (by simp [out]), List.map_cons]
            exact same.cons _

theorem swept {α : Type} (gone : α → Bool) (keep : α → α) (l : List α) :
    (sweep gone keep l.length 0 l).Perm ((l.filter fun x => !gone x).map keep) := by
  obtain ⟨kept, whole, same⟩ := sweep_perm gone keep l.length [] l (Nat.le_refl _)
  rw [List.nil_append, List.length_nil, List.nil_append] at whole
  rw [whole]
  exact same

theorem browseExpire_sound (now : Nat) (sound : Sound b) : Sound (browseExpire b now) := by
  have perm := swept (fun s : BrowseService => decide (now ≥ s.ptrExpires)) (expireSrv now) b.services
  have key : ∀ s, serviceKey (expireSrv now s) = serviceKey s := by
    intro s
    unfold expireSrv
    split <;> rfl
  refine ⟨sound.types, ?_, sound.typesApart, ?_⟩
  · intro s member
    obtain ⟨old, there, rfl⟩ := List.mem_map.mp (perm.mem_iff.mp member)
    have ok := sound.services old (List.mem_of_mem_filter there)
    unfold expireSrv
    split
    · exact ⟨ok.inst, nameOk_nil, (by decide : wireLen [] ≤ targetMax), ok.type⟩
    · exact ok
  · have fewer := sound.servicesApart.sublist ((List.filter_sublist
      (p := fun s : BrowseService => !decide (now ≥ s.ptrExpires)) (l := b.services)).map serviceKey)
    have same_ := perm.map serviceKey
    rw [List.map_map, show serviceKey ∘ expireSrv now = serviceKey from funext key] at same_
    exact (same_.pairwise_iff apart_symm).mpr fewer

theorem mark_sound (now : Nat) (kind : Kind) (sound : Sound b) : Sound (mark now b kind) := by
  have asks : ∀ i, Sound { b with services := b.services.modify i (markAsks now) } := fun i =>
    sound.renew i (fun _ => rfl) fun s ok => ⟨ok.inst, ok.target, ok.short, ok.type⟩
  cases kind with
  | meta_ => exact ⟨sound.types, sound.services, sound.typesApart, sound.servicesApart⟩
  | type t =>
      have type : ∀ ty, typeKey (markType now ty) = typeKey ty := by
        intro ty
        unfold markType
        split <;> rfl
      have service : ∀ s, serviceKey (markRefreshes now t s) = serviceKey s := by
        intro s
        unfold markRefreshes
        split <;> rfl
      refine ⟨modify_all t sound.types ?_, ?_, ?_, ?_⟩
      · intro ty ok
        unfold markType
        split <;> exact ok
      · intro s member
        obtain ⟨old, there, rfl⟩ := List.mem_map.mp member
        have ok := sound.services old there
        rw [show (mark now b (.type t)).types.length = b.types.length from List.length_modify ..]
        unfold markRefreshes
        split
        · exact ok
        · exact ⟨ok.inst, ok.target, ok.short, ok.type⟩
      · rw [show (mark now b (.type t)).types.map typeKey =
          b.types.map typeKey from map_modify type t b.types]
        exact sound.typesApart
      · have same_ : (mark now b (.type t)).services.map serviceKey = b.services.map serviceKey := by
          simp only [mark, List.map_map, show serviceKey ∘ markRefreshes now t =
            serviceKey from funext service]
        rw [same_]
        exact sound.servicesApart
  | srv i => exact asks i
  | a i => exact asks i

theorem browseQuery_sound (m : Mdns) (now : Nat) (sound : Sound b) : Sound (browseQuery b m now).1 := by
  simp only [browseQuery]
  split
  · exact sound
  · split
    · exact sound
    · split
      · exact sound
      · exact List.foldlRecOn _ _ sound fun b sound kind _ => mark_sound now kind sound

theorem browseStart_sound (now : Nat) : Sound (browseStart now) := by
  refine List.foldlRecOn _ _ ⟨by rintro _ ⟨⟩, by rintro _ ⟨⟩, List.Pairwise.nil, List.Pairwise.nil⟩
    fun b sound seed member => ?_
  refine addType_sound ?_ false now sound
  have all : ∀ seed ∈ seeds, LabelOk seed := by
    unfold LabelOk
    decide
  exact all seed member

theorem reachable_sound (reached : Reachable b) : Sound b := by
  induction reached with
  | start now => exact browseStart_sound now
  | input m frame now _ ih => exact browseInput_sound m frame now ih
  | expire now _ ih => exact browseExpire_sound now ih
  | query m now _ ih => exact browseQuery_sound m now ih

end Sound

/-! ## An announcement -/

section Announcement
variable (b : Browse) {reader m : Mdns} (s : MdnsService) (now : Nat)

theorem browseInput_goodbye (live : m.ip ≠ noIp) (reads : reader.ip ≠ noIp) (apart : m.ip ≠ reader.ip) :
    browseInput b reader (mdnsAnnounce m (some s) true).2 now =
      onSrv (onPtr b (seen { goodbye := true } (recordPtr s)) now)
        (seen { goodbye := true } (recordSrv m s)) now := by
  obtain ⟨msg, response, records⟩ := announce_response m s true live reads apart
  rw [browseInput, response]
  dsimp only
  rw [records]
  rfl

/-- A browser that is told of a service. -/
def told (m : Mdns) : Browse :=
  onA (onSrv (onPtr (onPtr b (seen {} (recordPtr s)) now) (seen {} (recordMeta s)) now)
    (seen {} (recordSrv m s)) now)
    (seen {} (recordA m)) now

theorem browseInput_announce (live : m.ip ≠ noIp) (reads : reader.ip ≠ noIp) (apart : m.ip ≠ reader.ip) :
    browseInput b reader (mdnsAnnounce m (some s) false).2 now = told b s now m := by
  obtain ⟨msg, response, records⟩ := announce_response m s false live reads apart
  rw [browseInput, response]
  dsimp only
  rw [records]
  rfl

end Announcement

/-! ## Two hosts on a link -/

def serviceOf (type : Label) (typeOk : 1 ≤ type.length ∧ type.length ≤ labelMax) : MdnsService :=
  ⟨80, type, ascii "box", typeOk, by decide⟩

def offering : Mdns where
  host := ascii "rourex"
  ip := [10, 0, 0, 1]
  mac := [2, 0, 0, 0, 0, 1]
  services := [serviceOf (ascii "_a") (by decide), serviceOf (ascii "_b") (by decide),
    serviceOf (ascii "_c") (by decide),
    serviceOf (ascii "_d") (by decide)]
  ipId := 0
  hostOk := by decide
  ipFour := rfl
  macSix := rfl
  few := by decide

def browsing : Mdns where
  host := ascii "desk"
  ip := [10, 0, 0, 2]
  mac := [2, 0, 0, 0, 0, 2]
  services := []
  ipId := 0
  hostOk := by decide
  ipFour := rfl
  macSix := rfl
  few := by decide

end R2Apps.MdnsCache
