import Mathlib.Data.List.Nodup
import R2Apps.MdnsAnswers
import R2Apps.MdnsCache
import R2Apps.MdnsReading

/-! The replies of `mdns_handle`, whole: the lengths and counts of a reply, its records in the order in
which they are written, cut where the frame is full, and none of them twice. -/
namespace R2Apps.MdnsReplies
open WireBytes MdnsMessages MdnsResponder MdnsFrames MdnsAnswers MdnsReading

/-! ## The records of a host in order -/

/-- A record's bit in a set of answers. -/
inductive Slot where
  | a
  | metas (i : Nat)
  | ptr (i : Nat)
  | srv (i : Nat)
  | txt (i : Nat)

def has (s : AnswerSet) : Slot → Bool
  | .a => s.a
  | .metas i => s.metas i
  | .ptr i => s.ptr i
  | .srv i => s.srv i
  | .txt i => s.txt i

def serviceSlots (m : Mdns) (e : MdnsService × Nat) : List (Slot × Record) :=
  [(.ptr e.2, recordPtr e.1), (.srv e.2, recordSrv m e.1), (.txt e.2, recordTxt e.1)]

/-- In the order in which `write_set` goes through them. -/
def slots (m : Mdns) : List (Slot × Record) :=
  (.a, recordA m) :: m.services.zipIdx.map (fun e => (.metas e.2, recordMeta e.1)) ++
    m.services.zipIdx.flatMap (serviceSlots m)

/-- A type is told of by its first service. -/
def everything (m : Mdns) : AnswerSet where
  a := true
  metas i := !typeSeen m i
  ptr _ := true
  srv _ := true
  txt _ := true

def writeOrder (m : Mdns) : List Record := ((slots m).filter fun e => has (everything m) e.1).map Prod.snd

/-- The records of a host that the questions match, in order. -/
def matched (m : Mdns) (qs : List Asked) : List Record :=
  (writeOrder m).filter fun r => qs.any fun q => wants q r

/-- No two services have the same name. -/
def ToldApart (m : Mdns) : Prop := (m.services.map fun s => (s.type, s.instance_)).Nodup

/-! ## Replies -/

def askedBytes (q : Asked) : Bytes := wire q.name ++ be16 q.type ++ be16 q.cls

def legacy (d : Datagram) : Bool := decide (d.sport ≠ mdnsPort)

/-- What a reply's records are written with. -/
def manner (d : Datagram) : Msg := { legacy := legacy d }

/-- A reply of these records to the query `d`, of which the questions `qs` were read. -/
structure ReplyOk (m : Mdns) (d : Datagram) (qs : List Asked) (out : Bytes)
    (answers additionals : List Record) :
    Prop where
  short : out.length ≤ frameMax
  ipLength : rd16 out 16 = out.length - 14
  udpLength : rd16 out 38 = out.length - 34
  whole : out.drop hdrLen = message (if legacy d then rd16 d.msg 0 else 0) 0x8400
    (if legacy d then qs.length else 0)
    answers.length 0 additionals.length ((if legacy d then qs.flatMap askedBytes else []) ++
      answers.flatMap (recordBytes (manner d)) ++ additionals.flatMap (recordBytes (manner d)))
  counts : qs.length < 65536 ∧ answers.length < 65536 ∧ additionals.length < 65536
  lengths : ∀ r ∈ answers ++ additionals, r.data.bytes.length < 65536
  inOrder : answers <+: matched m qs
  dropped : answers ≠ matched m qs → additionals = []
  once : ToldApart m → ((answers ++ additionals).map (recordBytes (manner d))).Nodup
  old : legacy d = true → ∀ r ∈ answers ++ additionals, (manner d).cls r.unique = classIn ∧
    (manner d).ttl r.ttl ≤ 10

/-! ## Slots -/

section Slots
variable {m : Mdns}

theorem setRecords_slots (s : AnswerSet) :
    setRecords m s = ((slots m).filter fun e => has s e.1).map Prod.snd := by
  have one : ∀ (c : Bool) (k : Slot) (r : Record), (if c then [(k, r)] else []).map Prod.snd = if c
      then [r] else [] := by
    rintro (_ | _) k r <;> rfl
  have metas : ∀ l : List (MdnsService × Nat),
    (l.flatMap fun e => if s.metas e.2 then [recordMeta e.1] else []) =
      ((l.map fun e => (Slot.metas e.2, recordMeta e.1)).filter fun e => has s e.1).map Prod.snd := by
    intro l
    induction l with
    | nil => rfl
    | cons e rest ih =>
        rw [List.flatMap_cons, ih, List.map_cons, List.filter_cons]
        cases set : s.metas e.2 <;> simp [has, set]
  have services : ∀ l : List (MdnsService × Nat),
    (l.flatMap fun e => (if s.ptr e.2 then [recordPtr e.1] else []) ++
        (if s.srv e.2 then [recordSrv m e.1] else []) ++ if s.txt e.2 then [recordTxt e.1] else []) =
      ((l.flatMap (serviceSlots m)).filter fun e => has s e.1).map Prod.snd := by
    intro l
    induction l with
    | nil => rfl
    | cons e rest ih =>
        rw [List.flatMap_cons, ih, List.flatMap_cons, List.filter_append, List.map_append]
        congr 1
        cases ptr : s.ptr e.2 <;> cases srv : s.srv e.2 <;> cases txt : s.txt e.2 <;>
          simp [serviceSlots, has, ptr, srv, txt]
  rw [setRecords, metas, services, slots, List.filter_append, List.map_append, List.filter_cons]
  cases set : s.a <;> simp [has, set]

/-- What stands in a slot. -/
def Holds (m : Mdns) (r : Record) : Slot → Prop
  | .a => r = recordA m
  | .metas i => ∃ s, m.services[i]? = some s ∧ r = recordMeta s
  | .ptr i => ∃ s, m.services[i]? = some s ∧ r = recordPtr s
  | .srv i => ∃ s, m.services[i]? = some s ∧ r = recordSrv m s
  | .txt i => ∃ s, m.services[i]? = some s ∧ r = recordTxt s

theorem slot_holds {e : Slot × Record} (there : e ∈ slots m) : Holds m e.2 e.1 := by
  simp only [slots, List.cons_append, List.mem_cons, List.mem_append, List.mem_map,
    List.mem_flatMap, serviceSlots,
    List.not_mem_nil, or_false] at there
  rcases there with rfl | ⟨⟨s, i⟩, at_, rfl⟩ | ⟨⟨s, i⟩, at_, rfl | rfl | rfl⟩
  · rfl
  all_goals exact ⟨s, List.mem_zipIdx_iff_getElem?.mp at_, rfl⟩

theorem answersTo_has (qs : List Asked) {e : Slot × Record} (there : e ∈ slots m) :
    has (answersTo m qs) e.1 = (has (everything m) e.1 && qs.any fun q => wants q e.2) := by
  have holds := slot_holds there
  obtain ⟨slot, r⟩ := e
  cases slot with
  | a =>
      rw [show r = recordA m from holds]
      simp only [has, answersTo_a, everything, Bool.true_and]
      rfl
  | metas i =>
      obtain ⟨s, at_, is⟩ := holds
      obtain rfl : r = recordMeta s := is
      have inside := (List.getElem?_eq_some_iff.mp at_).1
      simp only [has, answersTo_metas, everything]
      by_cases first : typeSeen m i = false
      · rw [if_pos ⟨inside, first⟩, first, Bool.not_false, Bool.true_and]
        rfl
      · rw [if_neg fun both => first both.2, Bool.not_eq_false _ |>.mp first, Bool.not_true, Bool.false_and]
        simp [named]
  | ptr i =>
      obtain ⟨s, at_, is⟩ := holds
      obtain rfl : r = recordPtr s := is
      simp only [has, answersTo_ptr, everything, at_, Bool.true_and]
      rfl
  | srv i =>
      obtain ⟨s, at_, is⟩ := holds
      obtain rfl : r = recordSrv m s := is
      simp only [has, answersTo_srv, everything, at_, Bool.true_and]
      rfl
  | txt i =>
      obtain ⟨s, at_, is⟩ := holds
      obtain rfl : r = recordTxt s := is
      simp only [has, answersTo_txt, everything, at_, Bool.true_and]
      rfl

theorem setRecords_matched (qs : List Asked) : setRecords m (answersTo m qs) = matched m qs := by
  rw [setRecords_slots, matched, writeOrder, List.filter_map, List.filter_filter]
  congr 1
  apply List.filter_congr
  intro e there
  rw [answersTo_has qs there, Bool.and_comm]
  rfl

/-! ## No record twice -/

theorem seen_same {g : Msg} {r t : Record} (ok : RecordOk r) (ok' : RecordOk t)
    (same_ : recordBytes g r = recordBytes g t) :
    seen g r = seen g t := by
  have first : nextRecord (recordBytes g r) 1 0 = some (seen g r, 0 + recordLen r, 0) :=
    nextRecord_stands ok 0 (List.prefix_refl _)
  have second : nextRecord (recordBytes g r) 1 0 = some (seen g t, 0 + recordLen t, 0) :=
    nextRecord_stands ok' 0 (same_ ▸ List.prefix_refl _)
  have both := first.symm.trans second
  simp only [Option.some.injEq, Prod.mk.injEq] at both
  exact both.1

/-- The type of a slot's record, and of how many labels its name is. -/
def shape : Slot → Nat × Nat
  | .a => (typeA, 2)
  | .metas _ => (typePtr, 4)
  | .ptr _ => (typePtr, 3)
  | .srv _ => (typeSrv, 4)
  | .txt _ => (typeTxt, 4)

theorem holds_shape {g : Msg} {r : Record} {slot : Slot} (holds : Holds m r slot) :
    ((seen g r).type, (seen g r).name.length) = shape slot := by
  cases slot with
  | a =>
      obtain rfl : r = recordA m := holds
      rfl
  | metas i | ptr i | srv i | txt i =>
      obtain ⟨s, -, rfl⟩ := holds
      rfl

theorem holds_owned {r : Record} {slot : Slot} (holds : Holds m r slot) : r ∈ owned m := by
  rw [mem_owned]
  cases slot with
  | a => exact .inl holds
  | metas i =>
      obtain ⟨s, at_, is⟩ := holds
      exact .inr (.inl ⟨s, List.mem_of_getElem? at_, is⟩)
  | ptr i =>
      obtain ⟨s, at_, is⟩ := holds
      exact .inr (.inr (.inl ⟨s, List.mem_of_getElem? at_, is⟩))
  | srv i =>
      obtain ⟨s, at_, is⟩ := holds
      exact .inr (.inr (.inr (.inl ⟨s, List.mem_of_getElem? at_, is⟩)))
  | txt i =>
      obtain ⟨s, at_, is⟩ := holds
      exact .inr (.inr (.inr (.inr ⟨s, List.mem_of_getElem? at_, is⟩)))

theorem typeSeen_later {i j : Nat} {s t : MdnsService} (at_ : m.services[i]? = some s)
    (at' : m.services[j]? = some t)
    (alike : s.type = t.type) (before : i < j) : typeSeen m j = true := by
  simp only [typeSeen, at', Option.any_some, List.any_eq_true]
  exact ⟨s, List.mem_of_getElem? ((List.getElem?_take_of_lt before).trans at_), beq_iff_eq.mpr alike.symm⟩

theorem first_apart {i j : Nat} {s t : MdnsService} (at_ : m.services[i]? = some s)
    (at' : m.services[j]? = some t)
    (alike : s.type = t.type) (first : typeSeen m i = false) (first' : typeSeen m j = false) : i = j := by
  rcases Nat.lt_trichotomy i j with before | same_ | after
  · rw [typeSeen_later at_ at' alike before] at first'
    cases first'
  · exact same_
  · rw [typeSeen_later at' at_ alike.symm after] at first
    cases first

theorem service_apart (apart : ToldApart m) {i j : Nat} {s t : MdnsService} (at_ : m.services[i]? = some s)
    (at' : m.services[j]? = some t) (type : s.type = t.type) (inst : s.instance_ = t.instance_) : i = j := by
  have inside : i < (m.services.map fun s => (s.type, s.instance_)).length := by
    rw [List.length_map]
    exact (List.getElem?_eq_some_iff.mp at_).1
  apply (List.getElem?_inj inside apart).mp
  rw [List.getElem?_map, List.getElem?_map, at_, at', Option.map_some, Option.map_some, type, inst]

theorem slots_apart (apart : ToldApart m) {g : Msg} {e f : Slot × Record} (there : e ∈ slots m)
    (there' : f ∈ slots m)
    (some_ : has (everything m) e.1 = true) (some' : has (everything m) f.1 = true)
    (same_ : recordBytes g e.2 = recordBytes g f.2) : e = f := by
  have holds := slot_holds there
  have holds' := slot_holds there'
  have alike := seen_same (owned_ok m (holds_owned holds)) (owned_ok m (holds_owned holds')) same_
  have shapes := (holds_shape (g := g) holds).symm.trans (alike ▸ holds_shape holds')
  obtain ⟨slot, r⟩ := e
  obtain ⟨slot', t⟩ := f
  cases slot with
  | a =>
      cases slot' with
      | a => rw [show r = recordA m from holds, show t = recordA m from holds']
      | metas j | ptr j | srv j | txt j => cases shapes
  | metas i =>
      cases slot' with
      | metas j =>
          obtain ⟨s, at_, is⟩ := holds
          obtain ⟨u, at', is'⟩ := holds'
          obtain rfl : r = recordMeta s := is
          obtain rfl : t = recordMeta u := is'
          have target : typeName s = typeName u := congrArg MdnsRecord.target alike
          simp only [has, everything, Bool.not_eq_true'] at some_ some'
          obtain rfl := first_apart at_ at' (List.cons.inj target).1 some_ some'
          cases at_.symm.trans at'
          rfl
      | a | ptr j | srv j | txt j => cases shapes
  | ptr i =>
      cases slot' with
      | ptr j =>
          obtain ⟨s, at_, is⟩ := holds
          obtain ⟨u, at', is'⟩ := holds'
          obtain rfl : r = recordPtr s := is
          obtain rfl : t = recordPtr u := is'
          have target : instanceName s = instanceName u := congrArg MdnsRecord.target alike
          obtain ⟨inst, rest⟩ := List.cons.inj target
          obtain rfl := service_apart apart at_ at' (List.cons.inj rest).1 inst
          cases at_.symm.trans at'
          rfl
      | a | metas j | srv j | txt j => cases shapes
  | srv i =>
      cases slot' with
      | srv j =>
          obtain ⟨s, at_, is⟩ := holds
          obtain ⟨u, at', is'⟩ := holds'
          obtain rfl : r = recordSrv m s := is
          obtain rfl : t = recordSrv m u := is'
          have name : instanceName s = instanceName u := congrArg MdnsRecord.name alike
          obtain ⟨inst, rest⟩ := List.cons.inj name
          obtain rfl := service_apart apart at_ at' (List.cons.inj rest).1 inst
          cases at_.symm.trans at'
          rfl
      | a | metas j | ptr j | txt j => cases shapes
  | txt i =>
      cases slot' with
      | txt j =>
          obtain ⟨s, at_, is⟩ := holds
          obtain ⟨u, at', is'⟩ := holds'
          obtain rfl : r = recordTxt s := is
          obtain rfl : t = recordTxt u := is'
          have name : instanceName s = instanceName u := congrArg MdnsRecord.name alike
          obtain ⟨inst, rest⟩ := List.cons.inj name
          obtain rfl := service_apart apart at_ at' (List.cons.inj rest).1 inst
          cases at_.symm.trans at'
          rfl
      | a | metas j | ptr j | srv j => cases shapes

theorem slots_nodup (m : Mdns) : (slots m).Nodup := by
  apply List.Nodup.of_map Prod.fst
  have indices : (m.services.zipIdx.map Prod.snd).Nodup := by
    rw [List.zipIdx_map_snd]
    exact List.nodup_range'
  have first : ∀ l : List (MdnsService × Nat),
    (l.map fun e => (Slot.metas e.2, recordMeta e.1)).map Prod.fst =
      (l.map Prod.snd).map Slot.metas := by
    intro l
    rw [List.map_map, List.map_map]
    rfl
  have rest : ∀ l : List (MdnsService × Nat), (l.flatMap (serviceSlots m)).map Prod.fst =
      (l.map Prod.snd).flatMap fun i => [.ptr i, .srv i, .txt i] := by
    intro l
    rw [List.map_flatMap, List.flatMap_map]
    rfl
  rw [slots, List.map_append, List.map_cons, first, rest]
  generalize m.services.zipIdx.map Prod.snd = l at indices
  refine List.nodup_append.mpr
    ⟨List.nodup_cons.mpr ⟨by simp, indices.map fun _ _ same_ => Slot.metas.inj same_⟩, ?_, ?_⟩
  · refine List.nodup_flatMap.mpr ⟨fun i _ => by simp, ?_⟩
    refine indices.imp fun {i j} apart => ?_
    intro slot here there
    simp only [List.mem_cons, List.not_mem_nil, or_false] at here there
    rcases here with rfl | rfl | rfl <;> simp_all
  · intro slot here slot' there same_
    subst same_
    simp only [List.mem_cons, List.mem_map] at here
    simp only [List.mem_flatMap, List.mem_cons, List.not_mem_nil, or_false] at there
    obtain ⟨i, -, is⟩ := there
    rcases here with rfl | ⟨j, -, rfl⟩ <;> simp at is

theorem additional_apart (qs : List Asked) {e : Slot × Record} (there : e ∈ slots m) :
    (has (answersTo m qs) e.1 && has (additional m (answersTo m qs)) e.1) = false ∧
      (has (answersTo m qs) e.1 || has (additional m (answersTo m qs)) e.1 →
        has (everything m) e.1 = true) := by
  have bit := answersTo_has qs there
  obtain ⟨slot, r⟩ := e
  cases slot with
  | a =>
      refine ⟨?_, fun _ => rfl⟩
      simp only [has, additional]
      cases (answersTo m qs).a <;> simp
  | metas i =>
      refine ⟨by simp [has, additional], fun either => ?_⟩
      have told : has (answersTo m qs) (.metas i) = true := by simpa [has, additional] using either
      rw [told] at bit
      exact (Bool.and_eq_true _ _ ▸ bit.symm).1
  | ptr i => exact ⟨by simp [has, additional], fun _ => rfl⟩
  | srv i =>
      refine ⟨?_, fun _ => rfl⟩
      simp only [has, additional]
      cases (answersTo m qs).srv i <;> simp
  | txt i =>
      refine ⟨?_, fun _ => rfl⟩
      simp only [has, additional]
      cases (answersTo m qs).txt i <;> simp

theorem sections_nodup (apart : ToldApart m) (g : Msg) (qs : List Asked) :
    ((setRecords m (answersTo m qs) ++ setRecords m (additional m (answersTo m qs))).map
      (recordBytes g)).Nodup := by
  have facts := fun (e : Slot × Record) there => additional_apart (m := m) qs (e := e) there
  generalize answersTo m qs = ans at facts
  rw [setRecords_slots, setRecords_slots, ← List.map_append, List.map_map]
  -- both sections are halves of what is in either
  have halves : (((slots m).filter fun e => has ans e.1) ++ (slots m).filter fun e =>
    has (additional m ans) e.1).Perm
      ((slots m).filter fun e => has ans e.1 || has (additional m ans) e.1) := by
    have perm := List.filter_append_perm (fun e : Slot × Record => has ans e.1)
      ((slots m).filter fun e => has ans e.1 || has (additional m ans) e.1)
    rw [List.filter_filter, List.filter_filter] at perm
    have one : ((slots m).filter fun e => has ans e.1 && (has ans e.1 || has (additional m ans) e.1)) =
        (slots m).filter fun e => has ans e.1 := by
      apply List.filter_congr
      intro e _
      cases has ans e.1 <;> rfl
    have other : ((slots m).filter fun e => !has ans e.1 && (has ans e.1 || has (additional m ans) e.1)) =
        (slots m).filter fun e => has (additional m ans) e.1 := by
      apply List.filter_congr
      intro e there
      have never := (facts e there).1
      cases is : has ans e.1 with
      | false => simp
      | true =>
          rw [is, Bool.true_and] at never
          simp [never]
    rw [one, other] at perm
    exact perm
  refine ((halves.map _).nodup_iff).mpr (List.Nodup.map_on ?_ ((slots_nodup m).filter _))
  intro e here f there same_
  obtain ⟨here, some_⟩ := List.mem_filter.mp here
  obtain ⟨there, some'⟩ := List.mem_filter.mp there
  exact slots_apart apart here there ((facts e here).2 some_) ((facts f there).2 some') same_

end Slots

/-! ## Writing -/

theorem rrs_cut (rs : List Record) : ∀ g : Msg, g.buf.length ≤ dnsMax → ∃ k ≤ rs.length,
    rs.foldl rr g = { g with
      buf := g.buf ++ (rs.take k).flatMap (recordBytes g)
      full := g.full || decide (k < rs.length), count := g.count + k } ∧ (g.full = true → k = 0) := by
  induction rs with
  | nil =>
      intro g _
      exact ⟨0, Nat.le_refl _, by simp, fun _ => rfl⟩
  | cons r rest ih =>
      intro g small
      rw [List.foldl_cons, rr_eq g r small]
      by_cases stop : g.full = true ∨ dnsMax < g.buf.length + recordLen r
      · rw [if_pos stop]
        obtain ⟨k, few, written, none_⟩ := ih { g with full := true } small
        obtain rfl := none_ rfl
        refine ⟨0, Nat.zero_le _, ?_, fun _ => rfl⟩
        rw [written]
        simp
      · rw [if_neg stop]
        rw [not_or, Nat.not_lt] at stop
        have fits : (g.buf ++ recordBytes g r).length ≤ dnsMax := by
          rw [List.length_append, recordBytes_length]
          exact stop.2
        obtain ⟨k, few, written, -⟩ :=
          ih { g with buf := g.buf ++ recordBytes g r, count := g.count + 1 } fits
        refine ⟨k + 1, Nat.succ_le_succ few, ?_, fun full => absurd full stop.1⟩
        have bytes : recordBytes { g with buf := g.buf ++ recordBytes g r, count := g.count + 1 } =
          recordBytes g := rfl
        rw [written, bytes, List.take_succ_cons, List.flatMap_cons, List.append_assoc]
        simp [Nat.add_assoc, Nat.add_comm 1]

theorem putAskeds_eq (qs : List Asked) (g : Msg) : qs.foldl putAsked g = puts g (qs.flatMap askedBytes) := by
  induction qs generalizing g with
  | nil => rfl
  | cons q rest ih =>
      rw [List.foldl_cons, ih, List.flatMap_cons, puts_append]
      simp only [putAsked, put16, putName, askedBytes, puts_append]

theorem wrap_layout {m : Mdns} {g : Msg} {mac ip : Bytes} {port : Nat} (six : mac.length = 6)
    (four : ip.length = 4)
    (small : g.buf.length ≤ dnsMax) : (wrap m g mac ip port).2.length = hdrLen + g.buf.length ∧
      rd16 (wrap m g mac ip port).2 16 = 28 + g.buf.length ∧
        rd16 (wrap m g mac ip port).2 38 = 8 + g.buf.length ∧
      (wrap m g mac ip port).2.drop hdrLen = g.buf := by
  obtain ⟨a1, a2, a3, a4, a5, a6, rfl⟩ := six_bytes six
  obtain ⟨b1, b2, b3, b4, rfl⟩ := four_bytes four
  obtain ⟨m1, m2, m3, m4, m5, m6, mac⟩ := six_bytes m.macSix
  obtain ⟨i1, i2, i3, i4, ip⟩ := four_bytes m.ipFour
  simp only [dnsMax, frameMax, hdrLen] at small
  simp only [wrap]
  generalize EthernetReceive.inetCksum (ipHeader m g.buf.length [b1, b2, b3, b4] 0) = cksum
  simp only [mac, ipHeader, ip, udpHeader, be16, List.cons_append, List.nil_append]
  refine ⟨?_, rd16_of rfl rfl (by omega), rd16_of rfl rfl (by omega), rfl⟩
  simp only [List.length_cons, hdrLen]
  omega

/-! ## The reply -/

section Reply
variable {m : Mdns} {frame : Bytes} {d : Datagram}

theorem datagram_ends (got : datagram m frame = some d) :
    d.src.length = 4 ∧ ((frame.drop 6).take 6).length = 6 := by
  have long := (datagram_counts got).2
  unfold datagram at got
  dsimp only at got
  split at got
  · cases got
  · split at got
    · cases got
    · split at got
      · cases got
      · split at got
        · cases got
        · cases got
          simp only [List.length_take, List.length_drop]
          omega

theorem cls_legacy {g : Msg} (legacy_ : g.legacy = true) (unique : Bool) : g.cls unique = classIn := by
  rw [Msg.cls, legacy_, Bool.not_true, Bool.and_false, if_neg Bool.false_ne_true]

theorem ttl_legacy {g : Msg} (legacy_ : g.legacy = true) (ttl : Nat) : g.ttl ttl ≤ 10 := by
  unfold Msg.ttl legacyTtl
  by_cases bye : g.goodbye = true
  · rw [if_pos bye]
    exact Nat.zero_le _
  · rw [if_neg bye]
    by_cases long : g.legacy = true ∧ ttl > 10
    · rw [if_pos long]
    · rw [if_neg long]
      exact Nat.le_of_not_lt fun over_ => long ⟨legacy_, over_⟩

theorem slots_length (m : Mdns) : (slots m).length = 1 + 4 * m.services.length := by
  have three : ∀ l : List (MdnsService × Nat), (l.flatMap (serviceSlots m)).length = 3 * l.length := by
    intro l
    induction l with
    | nil => rfl
    | cons e rest ih =>
        rw [List.flatMap_cons, List.length_append, ih, List.length_cons]
        simp only [serviceSlots, List.length_cons, List.length_nil]
        omega
  rw [slots, List.length_append, List.length_cons, List.length_map, three, List.length_zipIdx]
  omega

theorem setRecords_owned (s : AnswerSet) :
    (setRecords m s).length ≤ 65 ∧ ∀ r ∈ setRecords m s, r ∈ owned m := by
  rw [setRecords_slots]
  constructor
  · have few := m.few
    have fewer := List.length_filter_le (fun e : Slot × Record => has s e.1) (slots m)
    rw [slots_length] at fewer
    rw [List.length_map]
    simp only [maxServices] at few
    omega
  · intro r member
    obtain ⟨e, there, rfl⟩ := List.mem_map.mp member
    exact holds_owned (slot_holds (List.mem_of_mem_filter there))

theorem readQuestions_length (msg : Bytes) (n : Nat) : ∀ {off : Nat} {qs : List Asked} {stop : Nat},
    readQuestions msg n off = some (qs, stop) → qs.length = n := by
  induction n with
  | zero =>
      intro off qs stop read
      cases read
      rfl
  | succ n ih =>
      intro off qs stop read
      simp only [readQuestions] at read
      split at read
      · cases read
      · split at read
        · cases read
        · obtain ⟨⟨rest, stop'⟩, later, whole⟩ := Option.map_eq_some_iff.mp read
          cases whole
          rw [List.length_cons, ih later]

/-- What is left of a reply when its questions are in `g`. -/
def answered (m : Mdns) (query : Query) (g : Msg) : Mdns × Bytes :=
  let g := writeSet g m (answersTo m query.questions)
  if g.count = 0 then (m, [])
  else
    let g : Msg := { g with buf := wr16 g.buf 6 g.count, count := 0 }
    let g := writeSet g m (additional m (answersTo m query.questions))
    let g : Msg := { g with buf := wr16 g.buf 10 g.count }
    if decide (query.sport ≠ mdnsPort) = true ∨ query.dst ≠ groupIp
      then wrap m g query.mac query.src query.sport
    else wrap m g groupMac groupIp mdnsPort

/-- A message with nothing but its questions. -/
def begun (query : Query) : Msg :=
  let old := decide (query.sport ≠ mdnsPort)
  { buf := message (if old then query.id else 0) 0x8400 (if old then query.questions.length else 0) 0 0 0
      (if old then query.questions.flatMap askedBytes else [])
    legacy := old }

theorem reply_begun {query : Query} (said : (reply m query).2 ≠ []) :
    (begun query).buf.length ≤ dnsMax ∧ reply m query = answered m query (begun query) := by
  unfold reply at said ⊢
  by_cases old : query.sport ≠ mdnsPort
  · simp only [old, ne_eq, not_false_eq_true, decide_true, if_true, true_and] at said ⊢
    rw [putAskeds_eq] at said ⊢
    have written : puts { beginMessage query.id with legacy := true } (query.questions.flatMap askedBytes) =
        { beginMessage query.id with
          legacy := true
          buf := (beginMessage query.id).buf ++ (query.questions.flatMap askedBytes).take (dnsMax - 12)
          full := decide (dnsMax < 12 + (query.questions.flatMap askedBytes).length) } :=
      puts_eq _ _ (by decide : 12 ≤ dnsMax)
    rw [written] at said ⊢
    by_cases long : dnsMax < 12 + (query.questions.flatMap askedBytes).length
    · rw [if_pos (decide_eq_true long)] at said
      exact absurd rfl said
    · have all : (query.questions.flatMap askedBytes).take (dnsMax - 12) =
          query.questions.flatMap askedBytes :=
        List.take_of_length_le (by omega)
      rw [all, decide_eq_false long, if_neg Bool.false_ne_true]
      have buf : (begun query).buf =
        wr16 ((beginMessage query.id).buf ++ query.questions.flatMap askedBytes) 4
          query.questions.length := by
        rw [beginMessage_buf, message_append, message_questions, List.nil_append]
        simp [begun, old]
      refine ⟨?_, ?_⟩
      · simp only [begun, old, ne_eq, not_false_eq_true, decide_true, if_true, message_length]
        omega
      · simp only [answered, old, ne_eq, not_false_eq_true, decide_true, true_or, if_true]
        rw [← buf]
        simp only [begun, old, ne_eq, not_false_eq_true, decide_true]
        rfl
  · simp only [old, decide_false, Bool.false_eq_true, if_false, false_and] at said ⊢
    refine ⟨?_, ?_⟩
    · simp only [begun, old, decide_false, Bool.false_eq_true, if_false, message_length]
      decide
    · simp only [answered, begun, old, decide_false, Bool.false_eq_true, if_false]
      rfl

theorem answered_message {query : Query} {g : Msg} {id qd : Nat} {body : Bytes} (open_ : g.full = false)
    (none_ : g.count = 0) (buf : g.buf = message id 0x8400 qd 0 0 0 body) (small : g.buf.length ≤ dnsMax)
    (said : (answered m query g).2 ≠ []) : ∃ answers additionals : List Record, ∃ h : Msg,
      answers <+: setRecords m (answersTo m query.questions) ∧
      additionals <+: setRecords m (additional m (answersTo m query.questions)) ∧
      (answers ≠ setRecords m (answersTo m query.questions) → additionals = []) ∧ h.buf.length ≤ dnsMax ∧
      h.buf = message id 0x8400 qd answers.length 0 additionals.length
        (body ++ answers.flatMap (recordBytes g) ++ additionals.flatMap (recordBytes g)) ∧
      answered m query g = if decide (query.sport ≠ mdnsPort) = true ∨ query.dst ≠ groupIp then
        wrap m h query.mac query.src query.sport else wrap m h groupMac groupIp mdnsPort := by
  unfold answered at said ⊢
  rw [writeSet_eq] at said ⊢
  generalize setRecords m (answersTo m query.questions) = rs at said ⊢
  obtain ⟨k, few, written, -⟩ := rrs_cut rs g small
  have first := (rrs_extend rs g small).2
  rw [written] at said first ⊢
  rw [open_, none_, Bool.false_or, Nat.zero_add] at said ⊢
  rw [buf, message_append] at first said ⊢
  dsimp only at said first ⊢
  by_cases nothing : k = 0
  · rw [if_pos nothing] at said
    exact absurd rfl said
  rw [if_neg nothing, message_answers, writeSet_eq]
  -- what a client asks next, written behind the answers
  generalize start : ({
    buf := message id 0x8400 qd k 0 0 (body ++ (rs.take k).flatMap (recordBytes g))
    full := decide (k < rs.length), legacy := g.legacy, goodbye := g.goodbye, count := 0 } : Msg) = h
  have fits : h.buf.length ≤ dnsMax := by
    rw [← start, message_length]
    rw [message_length] at first
    exact first
  generalize setRecords m (additional m (answersTo m query.questions)) = more
  obtain ⟨l, few', written', stop⟩ := rrs_cut more h fits
  have second := (rrs_extend more h fits).2
  have bytes : recordBytes h = recordBytes g := by
    rw [← start]
    rfl
  refine ⟨rs.take k, more.take l, _, List.take_prefix _ _, List.take_prefix _ _, ?_, ?_, ?_, rfl⟩
  · intro dropped
    have cut : k < rs.length := by
      by_contra all
      exact dropped (List.take_of_length_le (Nat.not_lt.mp all))
    rw [stop (by rw [← start]; exact decide_eq_true cut)]
    rfl
  · dsimp only
    rw [written'] at second ⊢
    dsimp only at second ⊢
    rw [bytes, ← start, message_append] at second ⊢
    rw [message_additionals, message_length]
    rw [message_length] at second
    exact second
  · dsimp only
    rw [written']
    dsimp only
    rw [bytes, ← start, message_append, message_additionals, List.length_take_of_le few,
      List.length_take_of_le few',
      Nat.zero_add]

theorem heard_datagram {query : Query} (got : heard m frame = some query) :
    ∃ d stop, datagram m frame = some d ∧
    readQuestions d.msg (min (rd16 d.msg 4) maxQuestions) 12 = some (query.questions, stop) ∧
    query = ⟨(frame.drop 6).take 6, d.src, d.dst, d.sport, rd16 d.msg 0, query.questions⟩ := by
  obtain ⟨d, is, rest⟩ := Option.bind_eq_some_iff.mp got
  dsimp only at rest
  split at rest
  · cases rest
  · obtain ⟨⟨qs, stop⟩, read, rfl⟩ := Option.map_eq_some_iff.mp rest
    exact ⟨d, stop, is, read, rfl⟩

/-- Every reply is well formed. Its questions are those of the query when they are at most eight. -/
theorem replies_ok (m : Mdns) (frame : Bytes) (replied : (mdnsHandle m frame).2 ≠ []) :
    ∃ d qs answers additionals, datagram m frame = some d ∧
      (rd16 d.msg 4 ≤ maxQuestions → ∃ stop, readQuestions d.msg (rd16 d.msg 4) 12 = some (qs, stop)) ∧
      ReplyOk m d qs (mdnsHandle m frame).2 answers additionals := by
  rw [mdnsHandle_eq] at replied ⊢
  cases got : heard m frame with
  | none =>
      rw [got] at replied
      exact absurd rfl replied
  | some query =>
      rw [got, Option.elim_some] at replied
      obtain ⟨d, stop, is, read, whole⟩ := heard_datagram got
      obtain ⟨four, six⟩ := datagram_ends is
      obtain ⟨small, same_⟩ := reply_begun replied
      rw [same_] at replied
      rw [Option.elim_some, same_]
      obtain ⟨answers, additionals, h, inOrder, more, dropped, short, buf, wrapped⟩ :=
        answered_message (g := begun query) rfl rfl rfl small replied
      obtain ⟨few, mine⟩ := setRecords_owned (m := m) (answersTo m query.questions)
      obtain ⟨few', mine'⟩ := setRecords_owned (m := m) (additional m (answersTo m query.questions))
      have owned_ : ∀ r ∈ answers ++ additionals, r ∈ owned m := by
        intro r member
        rcases List.mem_append.mp member with first | second
        · exact mine r (inOrder.subset first)
        · exact mine' r (more.subset second)
      have fewQuestions := readQuestions_length _ _ read
      -- whoever it goes to, the headers are of one layout
      obtain ⟨out, headers, length, total, ulen, rest⟩ : ∃ out, (answered m query (begun query)).2 = out ∧
          out.length = hdrLen + h.buf.length ∧ rd16 out 16 = 28 + h.buf.length ∧
            rd16 out 38 = 8 + h.buf.length ∧
            out.drop hdrLen = h.buf := by
        rw [wrapped]
        split
        · refine ⟨_, rfl, wrap_layout ?_ ?_ short⟩
          · rw [whole]
            exact six
          · rw [whole]
            exact four
        · exact ⟨_, rfl, wrap_layout rfl rfl short⟩
      rw [headers]
      refine ⟨d, query.questions, answers, additionals, is, ?_, ?_⟩
      · intro eight
        rw [Nat.min_eq_left eight] at read
        exact ⟨stop, read⟩
      · have port : query.sport = d.sport := by rw [whole]
        have id_ : query.id = rd16 d.msg 0 := by rw [whole]
        have bytes : recordBytes (begun query) = recordBytes (manner d) := by
          rw [manner, legacy, ← port]
          rfl
        simp only [maxQuestions] at fewQuestions
        constructor
        · rw [length]
          simp only [dnsMax, frameMax, hdrLen] at short ⊢
          omega
        · rw [total, length]
          simp only [hdrLen]
          omega
        · rw [ulen, length]
          simp only [hdrLen]
          omega
        · rw [rest, buf, bytes, legacy, ← port, id_]
        · exact ⟨by omega, Nat.lt_of_le_of_lt (Nat.le_trans inOrder.length_le few) (by decide),
            Nat.lt_of_le_of_lt (Nat.le_trans more.length_le few') (by decide)⟩
        · exact fun r member => data_small (owned_ok m (owned_ r member))
        · rw [← setRecords_matched]
          exact inOrder
        · rw [← setRecords_matched]
          exact dropped
        · intro apart
          exact (sections_nodup apart (manner d) query.questions).sublist
            ((inOrder.sublist.append more.sublist).map _)
        · exact fun old r _ => ⟨cls_legacy old r.unique, ttl_legacy old r.ttl⟩

end Reply

open MdnsCache

theorem twin_type : 1 ≤ (ascii "_a").length ∧ (ascii "_a").length ≤ labelMax := by decide

def twin : MdnsService := serviceOf (ascii "_a") twin_type

/-- A browser's question for the services of a type. -/
def askA : Bytes := (mdnsQuery browsing [⟨typeName twin, typePtr⟩]).1.2

theorem askA_bytes : askA =
    [1, 0, 94, 0, 0, 251, 2, 0, 0, 0, 0, 2, 8, 0, 69, 0, 0, 59, 0, 0, 0, 0, 255, 17, 208, 180, 10, 0, 0, 2,
     224, 0, 0, 251, 20, 233, 20, 233, 0, 39, 0, 0, 0, 0, 0, 0, 0, 1, 0, 0, 0, 0, 0, 0, 2, 95, 97, 4, 95, 116,
     99, 112, 5, 108, 111, 99, 97, 108, 0, 0, 12, 0, 1] := by
  decide

theorem offering_replies :
    (mdnsHandle offering askA).2 ≠ [] ∧ ∃ d qs answers additionals, datagram offering askA = some d ∧
    ReplyOk offering d qs (mdnsHandle offering askA).2 answers additionals := by
  have replied : (mdnsHandle offering askA).2 ≠ [] := by
    rw [askA_bytes]
    decide +kernel
  obtain ⟨d, qs, answers, additionals, is, -, ok⟩ := replies_ok offering askA replied
  exact ⟨replied, d, qs, answers, additionals, is, ok⟩

/-- A host with a service twice, of one type and one instance. -/
def twins : Mdns := { offering with services := [twin, twin], few := by decide }

/-- Eight times the services of a type, then the host's address. -/
def nine : List MdnsQuestion :=
  List.replicate 8 ⟨typeName twin, typePtr⟩ ++ [⟨hostName offering, typeA⟩]

set_option maxRecDepth 100000 in
theorem nine_bytes : (mdnsQuery browsing nine).1.2 =
    [1, 0, 94, 0, 0, 251, 2, 0, 0, 0, 0, 2, 8, 0, 69, 0, 0, 210, 0, 0, 0, 0, 255, 17, 208, 29, 10, 0, 0, 2,
     224, 0, 0, 251, 20, 233, 20, 233, 0, 190, 0, 0, 0, 0, 0, 0, 0, 9, 0, 0, 0, 0, 0, 0, 2, 95, 97,
       4, 95, 116,
     99, 112, 5, 108, 111, 99, 97, 108, 0, 0, 12, 0, 1, 2, 95, 97, 4, 95, 116, 99, 112, 5, 108, 111, 99, 97,
     108, 0, 0, 12, 0, 1, 2, 95, 97, 4, 95, 116, 99, 112, 5, 108, 111, 99, 97, 108, 0, 0, 12, 0, 1, 2, 95, 97,
     4, 95, 116, 99, 112, 5, 108, 111, 99, 97, 108, 0, 0, 12, 0, 1, 2, 95, 97, 4, 95, 116, 99, 112,
       5, 108, 111,
     99, 97, 108, 0, 0, 12, 0, 1, 2, 95, 97, 4, 95, 116, 99, 112, 5, 108, 111, 99, 97, 108, 0, 0, 12, 0, 1, 2,
     95, 97, 4, 95, 116, 99, 112, 5, 108, 111, 99, 97, 108, 0, 0, 12, 0, 1, 2, 95, 97, 4, 95, 116, 99, 112, 5,
     108, 111, 99, 97, 108, 0, 0, 12, 0, 1, 6, 114, 111, 117, 114, 101, 120, 5, 108, 111, 99, 97,
       108, 0, 0, 1,
     0, 1] := by
  decide

/-- One record is in the answer section twice; and of nine questions the ninth has no part in the answers,
though its record comes first in the order. -/
theorem twins_twice : (∃ more, (mdnsHandle twins askA).2.drop hdrLen =
      message 0 0x8400 0 2 0 5 (recordBytes {} (recordPtr twin) ++ recordBytes {} (recordPtr twin) ++ more)) ∧
    ¬answerSection browsing (mdnsHandle offering (mdnsQuery browsing nine).1.2).2 <+:
      (matched offering (nine.map fun q => ⟨q.name, q.type, classIn⟩)).map sent := by
  refine ⟨⟨((mdnsHandle twins askA).2.drop hdrLen).drop (12 + 2 * recordLen (recordPtr twin)), ?_⟩, ?_⟩
  · rw [askA_bytes]
    decide +kernel
  · rw [nine_bytes]
    decide +kernel

end R2Apps.MdnsReplies
