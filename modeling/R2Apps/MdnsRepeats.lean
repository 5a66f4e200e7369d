import R2Apps.MdnsAsking

/-! How often a browser asks over a run: the meta question and each type at intervals that double up to an
hour, and each record four times at most before it is renewed. -/
namespace R2Apps.MdnsRepeats
open WireBytes MdnsMessages MdnsResponder MdnsAnswers MdnsBrowser MdnsCache MdnsCacheBounds
  MdnsQuestions MdnsAsking

/-! ## Times that are spaced -/

/-- What is between the question `n` (from zero) and the next. -/
def interval (n : Nat) : Nat := min (1000 * 2 ^ n) 3600000

/-- The latest first. -/
def Spaced : List Nat → Prop
  | later :: earlier :: rest => earlier + interval rest.length ≤ later ∧ Spaced (earlier :: rest)
  | _ => True

/-- When an entry that was asked about at these times is asked about next. -/
structure Paced (times : List Nat) (at_ wait : Nat) : Prop where
  wait : wait = interval times.length
  next : ∀ u rest, times = u :: rest → at_ = u + interval rest.length
  spaced : Spaced times

theorem doubled_interval (n : Nat) : doubled (interval n) = interval (n + 1) := by
  simp only [doubled, interval, maxInterval, pow_succ]
  omega

theorem paced_nil (at_ : Nat) : Paced [] at_ firstInterval := by
  constructor
  · decide
  · rintro u rest ⟨⟩
  · trivial

theorem Paced.ask {times : List Nat} {at_ wait now : Nat} (paced : Paced times at_ wait) (due : at_ ≤ now) :
    Paced (now :: times) (now + wait) (doubled wait) := by
  obtain ⟨rfl, next, spaced⟩ := paced
  refine ⟨doubled_interval _, ?_, ?_⟩
  · rintro u rest ⟨⟩
    rfl
  · cases times with
    | nil => trivial
    | cons u rest => exact ⟨(next u rest rfl) ▸ due, spaced⟩

/-! ## Runs -/

/-- A query: the cache before it, its time and its frame. -/
structure Asking where
  before : Browse
  at_ : Nat
  frame : Bytes

/-- A run with its queries, the latest first. -/
inductive Run : Browse → List Asking → Prop
  | start (now : Nat) : Run (browseStart now) []
  | input {b : Browse} {log : List Asking} (m : Mdns) (frame : Bytes) (now : Nat) :
      Run b log → Run (browseInput b m frame now) log
  | expire {b : Browse} {log : List Asking} (now : Nat) : Run b log → Run (browseExpire b now) log
  | query {b : Browse} {log : List Asking} (m : Mdns) (now : Nat) :
      Run b log → Run (browseQuery b m now).1 (⟨b, now, (browseQuery b m now).2.2⟩ :: log)

/-- When the meta question went out. -/
def metaTimes (log : List Asking) : List Nat :=
  (log.filter fun a => asksIn a.frame ⟨metaName, typePtr⟩).map Asking.at_

/-- When the question for type `t` went out because its own time had come, not for a refresh alone. -/
def typeTimes (t : Nat) (log : List Asking) : List Nat :=
  (log.filter fun a => (a.before.types[t]?).any fun ty =>
    asksIn a.frame ⟨ty.wire, typePtr⟩ && decide (ty.askAt ≤ a.at_)).map Asking.at_

theorem run_reachable {b : Browse} {log : List Asking} (run : Run b log) : Reachable b := by
  induction run with
  | start now => exact .start now
  | input m frame now _ ih => exact .input m frame now ih
  | expire now _ ih => exact .expire now ih
  | query m now _ ih => exact .query m now ih

/-! ## What a record leaves of the types -/

/-- New types may come behind the others; no other is touched. -/
structure Grows (b b' : Browse) : Prop where
  metaAt : b'.metaAt = b.metaAt
  metaInterval : b'.metaInterval = b.metaInterval
  types : ∃ more : List BrowseType, b'.types = b.types ++ more ∧ ∀ ty ∈ more, ty.interval = firstInterval

section Grows
variable {b b' b'' : Browse}

theorem grows_same (metaAt : b'.metaAt = b.metaAt) (metaInterval : b'.metaInterval = b.metaInterval)
    (types : b'.types = b.types) : Grows b b' :=
  ⟨metaAt, metaInterval, [], by rw [types, List.append_nil], by rintro _ ⟨⟩⟩

theorem Grows.trans (first : Grows b b') (second : Grows b' b'') : Grows b b'' := by
  obtain ⟨more, types, fresh⟩ := first.types
  obtain ⟨more', types', fresh'⟩ := second.types
  refine ⟨second.metaAt.trans first.metaAt, second.metaInterval.trans first.metaInterval,
    more ++ more', ?_, ?_⟩
  · rw [types', types, List.append_assoc]
  · intro ty member
    rcases List.mem_append.mp member with old | new
    · exact fresh ty old
    · exact fresh' ty new

theorem addType_grows (b : Browse) (name : Label) (udp : Bool) (now : Nat) :
    Grows b (addType b name udp now).1 := by
  unfold addType
  split
  · exact grows_same rfl rfl rfl
  · split
    · exact grows_same rfl rfl rfl
    · exact ⟨rfl, rfl, _, rfl, List.forall_mem_singleton.mpr rfl⟩

theorem onInstance_grows (b : Browse) (r : MdnsRecord) (type inst : Label) (udp : Bool) (now : Nat) :
    Grows b (onInstance b r type inst udp now) := by
  have added := addType_grows b type udp now
  unfold onInstance
  generalize addType b type udp now = found at added
  obtain ⟨b1, t⟩ := found
  cases t with
  | none => exact added
  | some t =>
      refine added.trans ?_
      dsimp only
      split
      · exact grows_same rfl rfl rfl
      · split
        · exact grows_same rfl rfl rfl
        · exact grows_same rfl rfl rfl

theorem onA_types (b : Browse) (r : MdnsRecord) (now : Nat) :
    ∃ hosts, onA b r now = { b with hosts := hosts } := by
  unfold onA
  split
  · exact ⟨_, rfl⟩
  · dsimp only
    split
    · exact ⟨_, rfl⟩
    · split
      · exact ⟨_, rfl⟩
      · split
        · exact ⟨_, rfl⟩
        · split
          · exact ⟨_, rfl⟩
          · exact ⟨_, rfl⟩

theorem takeRecord_grows (pass now : Nat) (b : Browse) (r : MdnsRecord) :
    Grows b (takeRecord pass now b r) := by
  unfold takeRecord
  split
  · rcases onPtr_cases b r now with same_ | ⟨type, udp, -, same_⟩ | ⟨type, inst, udp, -, -, -, same_⟩ <;>
      rw [same_]
    · exact grows_same rfl rfl rfl
    · exact addType_grows b type udp now
    · exact onInstance_grows b r type inst udp now
  · split
    · rcases onSrv_cases b r now with same_ | ⟨i, s, -, -, same_⟩ <;> rw [same_] <;>
        exact grows_same rfl rfl rfl
    · split
      · obtain ⟨hosts, same_⟩ := onA_types b r now
        rw [same_]
        exact grows_same rfl rfl rfl
      · exact grows_same rfl rfl rfl

theorem browseInput_grows (b : Browse) (m : Mdns) (frame : Bytes) (now : Nat) :
    Grows b (browseInput b m frame now) := by
  unfold browseInput
  split
  · exact grows_same rfl rfl rfl
  · refine List.foldlRecOn (motive := Grows b) _ _ (grows_same rfl rfl rfl) fun b1 more pass _ => ?_
    exact List.foldlRecOn (motive := Grows b) _ _ more fun b2 more r _ =>
      more.trans (takeRecord_grows pass now b2 r)

end Grows

/-! ## The pace of a run -/

/-- The meta question and every type are asked about at their pace, also those that are not known yet. -/
structure Pace (b : Browse) (log : List Asking) : Prop where
  metas : Paced (metaTimes log) b.metaAt b.metaInterval
  types : ∀ (t : Nat) (ty : BrowseType), b.types[t]? = some ty → Paced (typeTimes t log) ty.askAt ty.interval
  later : ∀ t, b.types.length ≤ t → typeTimes t log = []

theorem Pace.grow {b b' : Browse} {log : List Asking} (pace : Pace b log) (grows : Grows b b') :
    Pace b' log := by
  obtain ⟨more, types, fresh⟩ := grows.types
  refine ⟨?_, ?_, ?_⟩
  · rw [grows.metaAt, grows.metaInterval]
    exact pace.metas
  · intro t ty at_
    rw [types] at at_
    by_cases old : t < b.types.length
    · rw [List.getElem?_append_left old] at at_
      exact pace.types t ty at_
    · rw [List.getElem?_append_right (Nat.le_of_not_lt old)] at at_
      rw [pace.later t (Nat.le_of_not_lt old), fresh ty (List.mem_of_getElem? at_)]
      exact paced_nil _
  · intro t outside
    rw [types, List.length_append] at outside
    exact pace.later t (Nat.le_trans (Nat.le_add_right _ _) outside)

theorem Pace.query {b : Browse} {log : List Asking} (sound : Sound b) (pace : Pace b log) (m : Mdns)
    (now : Nat) :
    Pace (browseQuery b m now).1 (⟨b, now, (browseQuery b m now).2.2⟩ :: log) := by
  obtain ⟨places, marked_, outcome, -⟩ := query_outcome sound m now
  generalize (browseQuery b m now).1 = b' at marked_
  generalize (browseQuery b m now).2.2 = frame at outcome
  have length : b'.types.length = b.types.length := by
    have same_ : ∀ t : Nat, b'.types[t]? = none ↔ b.types[t]? = none := by
      intro t
      rw [marked_.types, Option.map_eq_none_iff]
    have bounds := same_ b.types.length
    have bounds' := same_ b'.types.length
    rw [List.getElem?_eq_none_iff, List.getElem?_eq_none_iff] at bounds bounds'
    exact Nat.le_antisymm (bounds.mpr (Nat.le_refl _)) (bounds'.mp (Nat.le_refl _))
  refine ⟨?_, ?_, ?_⟩
  · rw [marked_.metaAt, marked_.metaInterval, metaTimes, List.filter_cons]
    by_cases asked_ : (0, 0) ∈ places
    · rw [if_pos asked_, if_pos asked_, if_pos (outcome.metas.mpr asked_), List.map_cons]
      exact pace.metas.ask (outcome.due asked_)
    · rw [if_neg asked_, if_neg asked_, if_neg fun is => asked_ (outcome.metas.mp is)]
      exact pace.metas
  · intro t ty' at'
    rw [marked_.types] at at'
    obtain ⟨ty, at_, rfl⟩ := Option.map_eq_some_iff.mp at'
    have known := pace.types t ty at_
    rw [typeTimes, List.filter_cons]
    dsimp only
    have counted : (asksIn frame ⟨ty.wire, typePtr⟩ && decide (ty.askAt ≤ now)) = true ↔
        (1, t) ∈ places ∧ ty.askAt ≤ now := by
      rw [Bool.and_eq_true, decide_eq_true_eq, outcome.types t ty at_]
    rw [at_, Option.any_some]
    by_cases asked_ : (1, t) ∈ places
    · unfold markType
      by_cases due : ty.askAt ≤ now
      · rw [if_pos asked_, if_pos due, if_pos (counted.mpr ⟨asked_, due⟩), List.map_cons]
        exact known.ask due
      · rw [if_pos asked_, if_neg due, if_neg fun is => due (counted.mp is).2]
        exact known
    · rw [if_neg asked_, if_neg fun is => asked_ (counted.mp is).1]
      exact known
  · intro t outside
    rw [length] at outside
    rw [typeTimes, List.filter_cons]
    dsimp only
    rw [List.getElem?_eq_none outside, Option.any_none, if_neg Bool.false_ne_true]
    exact pace.later t outside

theorem run_pace {b : Browse} {log : List Asking} (run : Run b log) : Pace b log := by
  induction run with
  | start now =>
      have fresh : Pace { metaAt := now, metaInterval := firstInterval } [] := by
        refine ⟨paced_nil now, ?_, fun _ _ => rfl⟩
        intro t ty at_
        cases at_
      refine List.foldlRecOn (motive := fun b => Pace b []) _ _ fresh fun b pace seed _ => ?_
      exact pace.grow (addType_grows b seed false now)
  | input m frame now _ ih => exact ih.grow (browseInput_grows _ m frame now)
  | expire now _ ih => exact ih.grow (grows_same rfl rfl rfl)
  | query m now earlier ih => exact ih.query (reachable_sound (run_reachable earlier)) m now

/-! ## Refreshes -/

/-- The two records of a service. -/
inductive Half where
  | ptr
  | srv

def Half.expires : Half → BrowseService → Nat
  | .ptr => BrowseService.ptrExpires
  | .srv => BrowseService.srvExpires

def Half.done : Half → BrowseService → Nat
  | .ptr => BrowseService.ptrRefreshes
  | .srv => BrowseService.srvRefreshes

def Half.due : Half → Nat → BrowseService → Bool
  | .ptr => ptrDue
  | .srv => srvDue

/-- The full name of the service that a record renews. -/
def Half.renews : Half → MdnsRecord → Option Name
  | .ptr, r => if r.type = typePtr then some r.target else none
  | .srv, r => if r.type = typeSrv then some r.name else none

def recordsIn (m : Mdns) (frame : Bytes) : List MdnsRecord :=
  (mdnsResponse m frame).elim [] fun (msg, off, left_) => allRecords msg left_ left_ off

inductive Event where
  | input (m : Mdns) (frame : Bytes)
  | expire
  | query (m : Mdns)

def next (b : Browse) (now : Nat) : Event → Browse
  | .input m frame => browseInput b m frame now
  | .expire => browseExpire b now
  | .query m => (browseQuery b m now).1

/-- Whether an event brings the record of the service `name` anew. -/
def renewed (half : Half) (name : Name) : Event → Bool
  | .input m frame => (recordsIn m frame).any fun r => (half.renews r).any fun n => nameEq n name
  | _ => false

/-- Whether a query asks again for the record of the service `name`, which is due for it. -/
def refreshed (half : Half) (name : Name) (b : Browse) (now : Nat) : Event → Bool
  | .query m => b.services.any fun s => nameEq (serviceWire b s) name && half.due now s &&
      asksIn (browseQuery b m now).2.2 ⟨typeWire b s.type, typePtr⟩
  | _ => false

/-- How often over a stretch of a run. -/
def refreshCount (half : Half) (name : Name) : Browse → List (Nat × Event) → Nat
  | _, [] => 0
  | b, (now, e) :: rest =>
    (if refreshed half name b now e then 1 else 0) + refreshCount half name (next b now e) rest

/-- The service `name` has had `k` refreshes of its record. -/
def Spent (half : Half) (name : Name) (k : Nat) (b : Browse) : Prop :=
  ∀ s ∈ b.services, nameEq (serviceWire b s) name = true → half.expires s ≠ 0 → k ≤ half.done s

/-- The service `name` was there before if it is now, with no more refreshes. -/
def Older (half : Half) (name : Name) (b b' : Browse) : Prop :=
  ∀ s' ∈ b'.services, nameEq (serviceWire b' s') name = true → half.expires s' ≠ 0 → ∃ s ∈ b.services,
    nameEq (serviceWire b s) name = true ∧ half.expires s ≠ 0 ∧ half.done s ≤ half.done s'

section Refreshes
variable {half : Half} {name : Name} {b b' b'' : Browse}

theorem Older.refl (b : Browse) : Older half name b b :=
  fun s there named live => ⟨s, there, named, live, Nat.le_refl _⟩

theorem Older.trans (first : Older half name b b') (second : Older half name b' b'') :
    Older half name b b'' := by
  intro s'' there named live
  obtain ⟨s', there', named', live', fewer'⟩ := second s'' there named live
  obtain ⟨s, there, named, live, fewer⟩ := first s' there' named' live'
  exact ⟨s, there, named, live, Nat.le_trans fewer fewer'⟩

theorem Older.spent {k : Nat} (older : Older half name b b') (spent : Spent half name k b) :
    Spent half name k b' := by
  intro s' there named live
  obtain ⟨s, there, named, live, fewer⟩ := older s' there named live
  exact Nat.le_trans (spent s there named live) fewer

theorem grows_wire (sound : Sound b) (grows : Grows b b') {s : BrowseService} (there : s ∈ b.services) :
    serviceWire b' s = serviceWire b s := by
  obtain ⟨more, types, -⟩ := grows.types
  rw [serviceWire, serviceWire, typeWire, typeWire, types,
    List.getElem?_append_left (sound.services s there).type]

theorem older_types (sound : Sound b) (grows : Grows b b') (services : b'.services = b.services) :
    Older half name b b' := by
  intro s there named live
  rw [services] at there
  rw [grows_wire sound grows there] at named
  exact ⟨s, there, named, live, Nat.le_refl _⟩

theorem mem_modify {α : Type} {f : α → α} {l : List α} {i : Nat} {y : α} (there : y ∈ l.modify i f) :
    (∃ x, l[i]? = some x ∧ y = f x) ∨ y ∈ l := by
  obtain ⟨j, at_⟩ := List.mem_iff_getElem?.mp there
  rw [List.getElem?_modify] at at_
  obtain ⟨x, old, is⟩ := Option.map_eq_some_iff.mp at_
  by_cases here : i = j
  · subst here
    rw [if_pos rfl] at is
    exact .inl ⟨x, old, is.symm⟩
  · rw [if_neg here] at is
    exact .inr (is ▸ List.mem_of_getElem? old)

theorem older_modify {i : Nat} {f : BrowseService → BrowseService}
    (key : ∀ s, serviceKey (f s) = serviceKey s)
    (kept : ∀ s, b.services[i]? = some s → nameEq (serviceWire b s) name = true →
      half.expires (f s) = half.expires s ∧ half.done (f s) = half.done s) :
    Older half name b { b with services := b.services.modify i f } := by
  intro s' there named live
  rcases mem_modify there with ⟨s, at_, rfl⟩ | old
  · have same_ : serviceWire { b with services := b.services.modify i f } (f s) = serviceWire b s := by
      have keys := key s
      rw [serviceKey, serviceKey, Prod.mk.injEq] at keys
      simp only [serviceWire, typeWire, keys]
    rw [same_] at named
    obtain ⟨expires, done⟩ := kept s at_ named
    rw [expires] at live
    exact ⟨s, List.mem_of_getElem? at_, named, live, Nat.le_of_eq done.symm⟩
  · exact ⟨s', old, named, live, Nat.le_refl _⟩

theorem addType_named {type : Label} {udp : Bool} {now t : Nat}
    (added : (addType b type udp now).2 = some t) :
    ∃ ty, (addType b type udp now).1.types[t]? = some ty ∧ ty.udp = udp ∧ same ty.name type = true := by
  unfold addType at added ⊢
  cases found : findType b type udp with
  | some i =>
      rw [found] at added
      cases added
      exact findType_some found
  | none =>
      rw [found] at added
      dsimp only at added ⊢
      split at added
      · cases added
      · next room =>
        cases added
        rw [if_neg room]
        exact ⟨_, List.getElem?_concat_length, rfl, same_refl type⟩

theorem onInstance_older (sound : Sound b) {r : MdnsRecord} {type inst : Label} {udp : Bool} (now : Nat)
    (typeOk : LabelOk type)
    (is : folded r.target = folded [inst, type, if udp then ascii "_udp" else ascii "_tcp", ascii "local"])
    (other : half = .ptr → nameEq r.target name = false) :
    Older half name b (onInstance b r type inst udp now) := by
  have grows := addType_grows b type udp now
  have kept := addType_sound typeOk udp now sound
  have services : (addType b type udp now).1.services = b.services := by
    unfold addType
    split
    · rfl
    · split <;> rfl
  have named := fun t (number : (addType b type udp now).2 = some t) => addType_named number
  unfold onInstance
  generalize addType b type udp now = found at grows kept services named
  obtain ⟨b1, t⟩ := found
  have first : Older half name b b1 := older_types sound grows services
  cases t with
  | none => exact first
  | some t =>
      refine first.trans ?_
      obtain ⟨ty, known, rfl, alike⟩ := named t rfl
      dsimp only at known ⊢
      cases found : findService b1 inst t with
      | some i =>
          obtain ⟨s, at_, wire_⟩ := findService_named known alike found
          refine older_modify (fun _ => rfl) fun s' at' named' => ?_
          cases at_.symm.trans at'
          cases half with
          | ptr =>
              have never := other rfl
              rw [nameEq, is, ← wire_] at never
              exact absurd named' (by rw [nameEq, never]; exact Bool.false_ne_true)
          | srv => exact ⟨rfl, rfl⟩
      | none =>
          dsimp only
          split
          · exact .refl _
          · intro s' there named' live
            rcases List.mem_append.mp there with old | new
            · exact ⟨s', old, named', live, Nat.le_refl _⟩
            · obtain rfl := List.mem_singleton.mp new
              cases half with
              | ptr =>
                  have never := other rfl
                  rw [nameEq, is] at never
                  rw [serviceWire_eq known, nameEq] at named'
                  simp only [folded, List.map_cons, same_iff.mp alike] at never named'
                  exact absurd named'
                    (by rw [show (renewPtr r now { instance_ := inst, type := t, askAt := now }).instance_ =
                    inst from rfl, never]; exact Bool.false_ne_true)
              | srv => exact absurd rfl live

theorem takeRecord_older (sound : Sound b) {r : MdnsRecord} (ok : NameOk r.name) (pass now : Nat)
    (other : ((half.renews r).any fun n => nameEq n name) = false) :
    Older half name b (takeRecord pass now b r) := by
  unfold takeRecord
  split
  · next isPtr =>
    rcases onPtr_cases b r now with same_ | ⟨type, udp, -, same_⟩ |
      ⟨type, inst, udp, typeOk, -, is, same_⟩ <;> rw [same_]
    · exact .refl b
    · refine older_types sound (addType_grows b type udp now) ?_
      unfold addType
      split
      · rfl
      · split <;> rfl
    · refine onInstance_older sound now (typeOk ok) is ?_
      rintro rfl
      simpa [Half.renews, isPtr.2] using other
  · split
    · next isSrv =>
      rcases onSrv_cases b r now with same_ | ⟨i, s, at_, wire_, same_⟩ <;> rw [same_]
      · exact .refl b
      · refine older_modify (fun _ => rfl) fun s' at' named => ?_
        cases at_.symm.trans at'
        cases half with
        | ptr => exact ⟨rfl, rfl⟩
        | srv =>
            have never : nameEq r.name name = false := by simpa [Half.renews, isSrv.2] using other
            rw [nameEq, wire_] at never
            exact absurd named (by rw [nameEq, never]; exact Bool.false_ne_true)
    · split
      · obtain ⟨hosts, same_⟩ := onA_types b r now
        rw [same_]
        exact fun s there named live => ⟨s, there, named, live, Nat.le_refl _⟩
      · exact .refl b

theorem browseInput_older (sound : Sound b) (m : Mdns) (frame : Bytes) (now : Nat)
    (other : ∀ r ∈ recordsIn m frame, ((half.renews r).any fun n => nameEq n name) = false) :
    Older half name b (browseInput b m frame now) := by
  unfold browseInput
  unfold recordsIn at other
  split
  · exact .refl b
  · next msg off left_ response =>
    rw [response, Option.elim_some] at other
    have step : Sound b ∧ Older half name b b := ⟨sound, .refl b⟩
    refine (List.foldlRecOn
      (motive := fun b' => Sound b' ∧ Older half name b b') _ _ step fun b1 ih pass _ => ?_).2
    refine List.foldlRecOn
      (motive := fun b' => Sound b' ∧ Older half name b b') _ _ ih fun b2 ih r member => ?_
    obtain ⟨sound, older⟩ := ih
    have ok := allRecords_ok _ r member
    exact ⟨takeRecord_sound ok pass now sound,
      older.trans (takeRecord_older sound ok.1 pass now (other r member))⟩

theorem browseExpire_older (b : Browse) (now : Nat) : Older half name b (browseExpire b now) := by
  intro s' there named live
  obtain ⟨s, old, rfl⟩ := List.mem_map.mp ((expired_services b now).mem_iff.mp there)
  have same_ : serviceWire (browseExpire b now) (expireSrv now s) = serviceWire b s := by
    have key := (expireSrv_alive now s).2.1
    rw [serviceKey, serviceKey, Prod.mk.injEq] at key
    simp only [serviceWire, typeWire, key, browseExpire]
  rw [same_] at named
  refine ⟨s, List.mem_of_mem_filter old, named, ?_⟩
  unfold expireSrv at live ⊢
  split
  · next gone =>
    cases half with
    | ptr =>
        rw [if_pos gone] at live
        exact ⟨live, Nat.le_refl _⟩
    | srv =>
        rw [if_pos gone] at live
        exact absurd rfl live
  · next kept =>
    rw [if_neg kept] at live
    exact ⟨live, Nat.le_refl _⟩

theorem markedService_half (half : Half) (now : Nat) (places : List (Nat × Nat)) (i : Nat)
    (s : BrowseService) :
    half.expires (markedService now places i s) = half.expires s ∧ half.done (markedService now places i s) =
      half.done s + if (1, s.type) ∈ places ∧ half.due now s = true then 1 else 0 := by
  have asks_ : ∀ (p : Prop) [Decidable p] (s : BrowseService),
      half.expires (if p then markAsks now s else s) = half.expires s ∧
        half.done (if p then markAsks now s else s) = half.done s := by
    intro p _ s
    split
    · cases half <;> exact ⟨rfl, rfl⟩
    · exact ⟨rfl, rfl⟩
  unfold markedService
  dsimp only
  rw [(asks_ _ _).1, (asks_ _ _).2]
  by_cases asked_ : (1, s.type) ∈ places
  · rw [if_pos asked_, markRefreshes, if_neg (not_not.mpr rfl)]
    cases half with
    | ptr =>
        refine ⟨rfl, ?_⟩
        simp only [Half.done, Half.due, asked_, true_and]
        split <;> rfl
    | srv =>
        refine ⟨rfl, ?_⟩
        simp only [Half.done, Half.due, asked_, true_and]
        split <;> rfl
  · rw [if_neg asked_, if_neg fun both => asked_ both.1]
    exact ⟨rfl, rfl⟩

theorem marked_wire {now : Nat} {places : List (Nat × Nat)} (marked_ : Marked now places b b') (i : Nat)
    (s : BrowseService) : serviceWire b' (markedService now places i s) = serviceWire b s := by
  have key : serviceKey (markedService now places i s) = serviceKey s := by
    unfold markedService
    dsimp only
    have refreshed_ : ∀ t, serviceKey (markRefreshes now t s) = serviceKey s := by
      intro t
      unfold markRefreshes
      split <;> rfl
    split <;> split <;> first | rfl | exact refreshed_ _
  rw [serviceKey, serviceKey, Prod.mk.injEq] at key
  have types : ∀ t, typeWire b' t = typeWire b t := by
    intro t
    rw [typeWire, typeWire, marked_.types]
    cases b.types[t]? with
    | none => rfl
    | some ty =>
        rw [Option.map_some, Option.elim_some, Option.elim_some]
        unfold markType
        split
        · split <;> rfl
        · rfl
  rw [serviceWire, serviceWire, key.1, key.2, types]

theorem due_live {half : Half} {now : Nat} {s : BrowseService} (due : half.due now s = true) :
    half.expires s ≠ 0 ∧ half.done s < 4 := by
  cases half <;> simp only [Half.due, ptrDue, srvDue, refreshDue, decide_eq_true_eq] at due <;>
    exact ⟨due.1, due.2.1⟩

theorem query_spent (sound : Sound b) (m : Mdns) (now : Nat) {k : Nat} (spent : Spent half name k b) :
    Spent half name (k + if refreshed half name b now (.query m) then 1 else 0) (browseQuery b m now).1 ∧
      (refreshed half name b now (.query m) = true → k < 4) := by
  obtain ⟨places, marked_, outcome, -⟩ := query_outcome sound m now
  generalize (browseQuery b m now).1 = b' at marked_
  have back : ∀ s' ∈ b'.services, ∃ i s, b.services[i]? = some s ∧ s' = markedService now places i s := by
    intro s' there
    obtain ⟨i, at_⟩ := List.mem_iff_getElem?.mp there
    rw [marked_.services] at at_
    obtain ⟨s, old, is⟩ := Option.map_eq_some_iff.mp at_
    exact ⟨i, s, old, is.symm⟩
  by_cases again : refreshed half name b now (.query m) = true
  · rw [if_pos again]
    obtain ⟨s, there, is⟩ := List.any_eq_true.mp again
    rw [Bool.and_eq_true, Bool.and_eq_true] at is
    obtain ⟨⟨named, due⟩, asked_⟩ := is
    obtain ⟨live, few⟩ := due_live due
    have known := spent s there named live
    refine ⟨?_, fun _ => by omega⟩
    intro s' there' named' live'
    obtain ⟨j, t, at_, rfl⟩ := back s' there'
    obtain ⟨i, at'⟩ := List.mem_iff_getElem?.mp there
    rw [marked_wire marked_] at named'
    -- only one service has the name
    obtain rfl : i = j := by
      refine service_place sound at' at_ ?_
      rw [nameEq, beq_iff_eq] at named named' ⊢
      exact named.trans named'.symm
    cases at_.symm.trans at'
    rw [(markedService_half half now places i s).2,
      if_pos ⟨(refreshes_place sound outcome there).mp asked_, due⟩]
    omega
  · rw [if_neg again]
    refine ⟨?_, fun is => absurd is again⟩
    intro s' there' named' live'
    obtain ⟨i, s, at_, rfl⟩ := back s' there'
    obtain ⟨expires, done⟩ := markedService_half half now places i s
    rw [marked_wire marked_] at named'
    rw [expires] at live'
    have known := spent s (List.mem_of_getElem? at_) named' live'
    rw [done]
    omega

theorem next_reachable (reached : Reachable b) (now : Nat) (e : Event) : Reachable (next b now e) := by
  cases e with
  | input m frame => exact .input m frame now reached
  | expire => exact .expire now reached
  | query m => exact .query m now reached

theorem refreshes_left (es : List (Nat × Event)) :
    ∀ (b : Browse) (k : Nat), Reachable b → Spent half name k b → k ≤ 4 →
    (∀ e ∈ es, renewed half name e.2 = false) → k + refreshCount half name b es ≤ 4 := by
  induction es with
  | nil => exact fun b k _ _ few _ => few
  | cons e rest ih =>
      rintro b k reached spent few quiet
      obtain ⟨now, e⟩ := e
      rw [List.forall_mem_cons] at quiet
      obtain ⟨here, later⟩ := quiet
      have sound := reachable_sound reached
      rw [refreshCount, ← Nat.add_assoc]
      refine ih _ _ (next_reachable reached now e) ?_ ?_ later
      · cases e with
        | input m frame =>
            refine (browseInput_older sound m frame now fun r member => ?_).spent spent
            exact Bool.eq_false_of_not_eq_true fun is => by
              rw [renewed, List.any_eq_false] at here
              exact here r member is
        | expire => exact (browseExpire_older b now).spent spent
        | query m => exact (query_spent sound m now spent).1
      · cases e with
        | input m frame => exact few
        | expire => exact few
        | query m =>
            have more := (query_spent sound m now spent).2
            split
            · next again => exact more again
            · exact few

theorem refreshes_few (reached : Reachable b) (half : Half) (name : Name) (es : List (Nat × Event))
    (quiet : ∀ e ∈ es, renewed half name e.2 = false) : refreshCount half name b es ≤ 4 := by
  have none_ : Spent half name 0 b := fun _ _ _ _ => Nat.zero_le _
  have left_ := refreshes_left es b 0 reached none_ (Nat.zero_le _) quiet
  rwa [Nat.zero_add] at left_

end Refreshes

/-! ## A query, and the runs around it -/

/-- A frame with its questions, none of them for a target that another is for. -/
structure FrameOk (frame : Bytes) : Prop where
  short : frame.length ≤ frameMax
  whole : frame ≠ [] → ∃ qs : List MdnsQuestion, questionsIn frame = qs.map asked ∧
    frame.drop hdrLen = MdnsFrames.message 0 0 qs.length 0 0 0 (qs.flatMap questionBytes)
  once : (questionsIn frame).Pairwise fun p q =>
    ¬(p.type = typeA ∧ q.type = typeA ∧ nameEq p.name q.name = true)

theorem browseQuery_frameOk {b : Browse} (sound : Sound b) (m : Mdns) (now : Nat) :
    FrameOk (browseQuery b m now).2.2 := by
  have silent : FrameOk [] := ⟨Nat.zero_le _, fun some_ => absurd rfl some_, List.Pairwise.nil⟩
  by_cases live : m.ip = noIp
  · have same_ : browseQuery b m now = (b, m, []) := if_pos live
    rw [same_]
    exact silent
  · rcases browseQuery_sent sound live now with ⟨-, same_⟩ | ⟨k, sent_, frame, -⟩
    · rw [same_]
      exact silent
    · have questions := (sent_questions (asks_ok sound now) sent_).1
      rw [frame]
      refine ⟨sent_.short, fun _ => ⟨_, questions, ?_⟩, ?_⟩
      · rw [List.length_take, Nat.min_eq_left sent_.few]
        exact sent_.whole
      · rw [questions, List.pairwise_map]
        have once := asks_once ((waiting b now).take maxAsked) fun w there type =>
          waiting_short sound (List.mem_of_mem_take there) type
        exact once.sublist (List.take_sublist k _)

theorem bookkeeping_iff {b : Browse} (reached : Reachable b) (m : Mdns) (now : Nat) :
    FrameOk (browseQuery b m now).2.2 ∧
    (Booked b (browseQuery b m now).1 now (browseQuery b m now).2.2 ↔ m.ip = noIp ∨ Together b now) ∧
    (∀ b' log, Run b' log → Spaced (metaTimes log) ∧ ∀ t, Spaced (typeTimes t log)) ∧
    ∀ half name es, (∀ e ∈ es, renewed half name e.2 = false) → refreshCount half name b es ≤ 4 := by
  have sound := reachable_sound reached
  refine ⟨browseQuery_frameOk sound m now, booked_iff sound m now, ?_, fun half name es quiet =>
    refreshes_few reached half name es quiet⟩
  intro b' log run
  have pace := run_pace run
  refine ⟨pace.metas.spaced, fun t => ?_⟩
  by_cases known : t < b'.types.length
  · exact (pace.types t _ (List.getElem?_eq_getElem known)).spaced
  · rw [pace.later t (Nat.le_of_not_lt known)]
    trivial

/-- A browser that was just started: nobody waits for an address. -/
theorem started_booked : (browseQuery (browseStart 0) browsing 0).2.2 ≠ [] ∧
    Booked (browseStart 0) (browseQuery (browseStart 0) browsing 0).1 0
      (browseQuery (browseStart 0) browsing 0).2.2 := by
  refine ⟨by decide +kernel, (bookkeeping_iff (.start 0) browsing 0).2.1.mpr (.inr ?_)⟩
  have names : ∀ w ∈ waiting (browseStart 0) 0, w.question.type ≠ typeA := by decide +kernel
  exact fun w there type => absurd type (names w there)

/-! ## A target that is shared across the end of a frame -/

/-- A response with these records as its answers. -/
def packet (m : Mdns) (rs : List Record) : Bytes :=
  (wrap m { buf := MdnsFrames.message 0 0x8400 0 rs.length 0 0 (rs.flatMap (recordBytes {})) }
    groupMac groupIp mdnsPort).2

theorem browseInput_packet {m reader : Mdns} {rs : List Record} (live : reader.ip ≠ noIp)
    (apart : m.ip ≠ reader.ip)
    (ok : ∀ r ∈ rs, RecordOk r)
    (fits : 12 + (rs.flatMap (recordBytes {})).length ≤ dnsMax) (b : Browse) (now : Nat) :
    browseInput b reader (packet m rs) now =
      (List.range 3).foldl (fun b pass => (rs.map sent).foldl (takeRecord pass now) b) b := by
  have few := records_few rs
  simp only [dnsMax, frameMax, hdrLen] at fits
  have small : (MdnsFrames.message 0 0x8400 0 rs.length 0 0 (rs.flatMap (recordBytes {}))).length ≤
      dnsMax := by
    rw [MdnsFrames.message_length]
    exact fits
  have response := MdnsFrames.response_wrap (m := m)
    (g := { buf := MdnsFrames.message 0 0x8400 0 rs.length 0 0 (rs.flatMap (recordBytes {})) })
    live apart rfl small
    (by omega)
  obtain ⟨ns, ar⟩ := MdnsFrames.message_rest 0 0x8400 0 rs.length 0 0 (rs.flatMap (recordBytes {}))
    (by decide) (by decide)
  rw [browseInput, packet, response]
  dsimp only
  rw [ns, ar, Nat.add_zero,
    allRecords_stands rs ok (MdnsFrames.message_body 0 0x8400 0 rs.length 0 0 _ (List.prefix_refl _))]
  rfl

def longLabel (first last : UInt8) : Label := first :: List.replicate 61 120 ++ [last]

theorem longLabel_length (first last : UInt8) :
    1 ≤ (longLabel first last).length ∧ (longLabel first last).length ≤ labelMax := by
  simp [longLabel, labelMax]

/-- One of several services with long names, all on one host. -/
def longService (i : Nat) : MdnsService where
  port := 80
  type := longLabel 95 120
  instance_ := longLabel 97 (UInt8.ofNat (97 + i))
  typeOk := longLabel_length 95 120
  instanceOk := longLabel_length 97 (UInt8.ofNat (97 + i))

/-- The first and the last tell of their host, the others only of themselves. -/
def packets : List (List Record) :=
  [[recordPtr (longService 0), recordSrv offering (longService 0)] ++ [1, 2, 3, 4].map fun i =>
    recordPtr (longService i),
    [5, 6, 7, 8, 9].map fun i => recordPtr (longService i),
    [recordPtr (longService 10), recordSrv offering (longService 10)]]

def crowded : Browse :=
  packets.foldl (fun b rs => browseInput b browsing (packet offering rs) 0) (browseStart 0)

theorem crowded_reachable : Reachable crowded :=
  List.foldlRecOn (motive := Reachable) packets _ (.start 0) fun _ reached _ _ => .input browsing _ 0 reached

/-- The cache after the packets, from their records. -/
def told : Browse :=
  packets.foldl (fun b rs =>
    (List.range 3).foldl (fun b pass => (rs.map sent).foldl (takeRecord pass 0) b) b) (browseStart 0)

theorem crowded_told : crowded = told := by
  have ok : ∀ rs ∈ packets, (∀ r ∈ rs, RecordOk r) ∧ 12 + (rs.flatMap (recordBytes {})).length ≤ dnsMax := by
    intro rs member
    refine ⟨fun r there => ?_, ?_⟩
    · simp only [packets, List.mem_cons, List.not_mem_nil, or_false] at member
      rcases member with rfl | rfl | rfl
      · rcases List.mem_append.mp there with first | second
        · simp only [List.mem_cons, List.not_mem_nil, or_false] at first
          rcases first with rfl | rfl
          · exact recordPtr_ok _
          · exact recordSrv_ok offering _
        · obtain ⟨i, -, rfl⟩ := List.mem_map.mp second
          exact recordPtr_ok _
      · obtain ⟨i, -, rfl⟩ := List.mem_map.mp there
        exact recordPtr_ok _
      · simp only [List.mem_cons, List.not_mem_nil, or_false] at there
        rcases there with rfl | rfl
        · exact recordPtr_ok _
        · exact recordSrv_ok offering _
    · revert rs
      decide +kernel
  unfold crowded told
  generalize browseStart 0 = b
  revert b
  generalize packets = l at ok
  induction l with
  | nil => exact fun b => rfl
  | cons rs rest ih =>
      intro b
      rw [List.forall_mem_cons] at ok
      rw [List.foldl_cons, List.foldl_cons, browseInput_packet (by decide) (by decide) ok.1.1 ok.1.2]
      exact ih ok.2 _

/-- The first and the last service wait for the address of one host. Its question is the seventh of a frame in
which fourteen fit; between the two, nine services wait for their SRVs, and the last is not marked. -/
theorem sharing_unmarked : Reachable crowded ∧
    ¬Booked crowded (browseQuery crowded browsing 0).1 0 (browseQuery crowded browsing 0).2.2 := by
  refine ⟨crowded_reachable, fun booked => ?_⟩
  rcases (booked_iff (reachable_sound crowded_reachable) browsing 0).mp booked with dead | together
  · exact absurd dead (by decide)
  · rw [crowded_told] at together
    have last : Goes told 0 ⟨⟨hostName offering, typeA⟩, .a 10⟩ := by
      refine together _ ?_ rfl ⟨⟨⟨hostName offering, typeA⟩, .a 0⟩, ⟨6, by decide, ?_, ?_⟩, rfl, by decide⟩
      · decide +kernel
      · decide +kernel
      · decide +kernel
    obtain ⟨i, inside, at_, room⟩ := last
    have full : ∀ i < maxAsked, (waiting told 0)[i]? = some ⟨⟨hostName offering, typeA⟩, .a 10⟩ →
        ¬Room ((waiting told 0).take (i + 1)) := by decide +kernel
    exact full i inside at_ room

end R2Apps.MdnsRepeats
