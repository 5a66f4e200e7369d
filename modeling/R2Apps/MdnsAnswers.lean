import Mathlib.Data.List.Flatten
import R2Apps.MdnsFrames

/-! The answer section of a reply, record by record: it holds what the host owns and a question that was
read asks for. -/
namespace R2Apps.MdnsAnswers
open WireBytes MdnsMessages MdnsResponder MdnsFrames

/-! ## What is answered -/

/-- The records that a host answers for. -/
def owned (m : Mdns) : List Record :=
  recordA m :: m.services.flatMap fun s => [recordMeta s, recordPtr s, recordSrv m s, recordTxt s]

/-- Whether a question is about records of a type. -/
def asks (q : Asked) (type : Nat) : Bool :=
  decide (q.cls % classTop = classIn ∨ q.cls % classTop = typeAny) && (q.type == typeAny || q.type == type)

/-- A question's name, ASCII case aside, and type are the record's. -/
def wants (q : Asked) (r : Record) : Bool := asks q r.data.type && nameEq q.name r.name

/-- What a reader of the group gets of a record. -/
def sent (r : Record) : MdnsRecord := seen {} r

/-- The answer section of a response, as its reader gets it. -/
def answerSection (reader : Mdns) (frame : Bytes) : List MdnsRecord :=
  (mdnsResponse reader frame).elim [] fun (msg, off, _) => allRecords msg (rd16 msg 6) (rd16 msg 6) off

/-! ## The records of a set of answers -/

/-- In the order in which they are written. -/
def setRecords (m : Mdns) (s : AnswerSet) : List Record :=
  (if s.a then [recordA m] else []) ++ m.services.zipIdx.flatMap
    (fun e => if s.metas e.2 then [recordMeta e.1] else []) ++
    m.services.zipIdx.flatMap fun e =>
      (if s.ptr e.2 then [recordPtr e.1] else []) ++ (if s.srv e.2 then [recordSrv m e.1] else []) ++
        if s.txt e.2 then [recordTxt e.1] else []

theorem foldl_one {α : Type} (c : Bool) (r : α) (f : Msg → α → Msg) (g : Msg) :
    (if c then [r] else []).foldl f g = if c then f g r else g := by
  cases c <;> rfl

theorem writeSet_eq (g : Msg) (m : Mdns) (s : AnswerSet) : writeSet g m s = (setRecords m s).foldl rr g := by
  simp only [writeSet, setRecords, List.foldl_append, List.foldl_flatMap, foldl_one]
  rfl

/-! ## The set of answers of several questions -/

variable (m : Mdns)

theorem answered_bit (bit : AnswerSet → Bool) (asked : Asked → Bool) (none_ : bit {} = false)
    (one : ∀ ans q, bit
      (if q.cls % classTop = classIn ∨ q.cls % classTop = typeAny then matchQuestion m q.name q.type ans
      else ans) = (bit ans || asked q)) (qs : List Asked) : bit (answersTo m qs) = qs.any asked := by
  have folded : ∀ ans,
    bit (qs.foldl (fun ans q => if q.cls % classTop = classIn ∨ q.cls % classTop = typeAny then
      matchQuestion m q.name q.type ans else ans) ans) = (bit ans || qs.any asked) := by
    induction qs with
    | nil => simp
    | cons q rest ih =>
        intro ans
        rw [List.foldl_cons, ih, one, List.any_cons, Bool.or_assoc]
  rw [answersTo, folded, none_, Bool.false_or]

/-- The host's name or a service's, asked for one type of record. -/
def named (type : Nat) (name : Option Name) (q : Asked) : Bool := asks q type && name.any (nameEq q.name)

theorem answersTo_a (qs : List Asked) : (answersTo m qs).a = qs.any (named typeA (some (hostName m))) := by
  refine answered_bit m AnswerSet.a _ rfl ?_ qs
  intro ans q
  by_cases cls : q.cls % classTop = classIn ∨ q.cls % classTop = typeAny
  · simp [cls, matchQuestion, named, asks]
  · simp [cls, named, asks]

theorem answersTo_metas (i : Nat) (qs : List Asked) : (answersTo m qs).metas i =
    qs.any (named typePtr
      (if i < m.services.length ∧ typeSeen m i = false then some metaName else none)) := by
  refine answered_bit m (fun s => s.metas i) _ rfl ?_ qs
  intro ans q
  by_cases cls : q.cls % classTop = classIn ∨ q.cls % classTop = typeAny
  · by_cases first : i < m.services.length ∧ typeSeen m i = false
    · simp [cls, matchQuestion, named, asks, first]
    · have unset : (decide (i < m.services.length) && !typeSeen m i) = false := by
        simpa using first
      simp [cls, matchQuestion, named, first, Bool.and_assoc, unset]
  · simp [cls, named, asks]

theorem answersTo_service (bit : AnswerSet → Nat → Bool) (type : Nat) (name : MdnsService → Name)
    (none_ : ∀ i, bit {} i = false)
    (one : ∀ qname qtype ans i, bit (matchQuestion m qname qtype ans) i = (bit ans i ||
      ((qtype == typeAny || qtype == type) && (m.services[i]?).any fun s => nameEq qname (name s)))) (i : Nat)
    (qs : List Asked) : bit (answersTo m qs) i = qs.any (named type ((m.services[i]?).map name)) := by
  refine answered_bit m (fun s => bit s i) _ (none_ i) ?_ qs
  intro ans q
  by_cases cls : q.cls % classTop = classIn ∨ q.cls % classTop = typeAny
  · simp only [if_pos cls, one]
    cases m.services[i]? <;> simp [named, asks, cls]
  · simp [cls, named, asks]

theorem answersTo_ptr (i : Nat) (qs : List Asked) :
    (answersTo m qs).ptr i = qs.any (named typePtr ((m.services[i]?).map typeName)) :=
  answersTo_service m AnswerSet.ptr typePtr typeName (fun _ => rfl) (fun _ _ _ _ => rfl) i qs

theorem answersTo_srv (i : Nat) (qs : List Asked) :
    (answersTo m qs).srv i = qs.any (named typeSrv ((m.services[i]?).map instanceName)) :=
  answersTo_service m AnswerSet.srv typeSrv instanceName (fun _ => rfl) (fun _ _ _ _ => rfl) i qs

theorem answersTo_txt (i : Nat) (qs : List Asked) :
    (answersTo m qs).txt i = qs.any (named typeTxt ((m.services[i]?).map instanceName)) :=
  answersTo_service m AnswerSet.txt typeTxt instanceName (fun _ => rfl) (fun _ _ _ _ => rfl) i qs

theorem first_of_type {s : MdnsService} (offered : s ∈ m.services) :
    ∃ (i : Nat) (t : MdnsService), m.services[i]? = some t ∧ typeSeen m i = false ∧ t.type = s.type := by
  have some_ : ∃ t ∈ m.services, (t.type == s.type) = true := ⟨s, offered, beq_self_eq_true _⟩
  obtain ⟨i, found⟩ := Option.isSome_iff_exists.mp (List.findIdx?_isSome.trans (List.any_eq_true.mpr some_))
  obtain ⟨inside, alike, before⟩ := List.findIdx?_eq_some_iff_getElem.mp found
  refine ⟨i, m.services[i], List.getElem?_eq_getElem inside, ?_, eq_of_beq alike⟩
  simp only [typeSeen, List.getElem?_eq_getElem inside, Option.any_some, List.any_eq_false]
  intro t member same
  obtain ⟨j, small, rfl⟩ := List.mem_take_iff_getElem.mp member
  have other := before j (by omega)
  rw [eq_of_beq alike] at same
  rw [← eq_of_beq same] at other
  simp at other

theorem mem_one {α : Type} (c : Bool) (r x : α) : x ∈ (if c then [r] else []) ↔ c = true ∧ x = r := by
  cases c <;> simp

theorem mem_service (type : Nat) (name : MdnsService → Name) (record : MdnsService → Record)
    (is : ∀ s, (record s).data.type = type ∧ (record s).name = name s) (qs : List Asked) (r : Record) :
    (∃ e ∈ m.services.zipIdx, qs.any (named type ((m.services[e.2]?).map name)) = true ∧ r = record e.1) ↔
      (∃ s ∈ m.services, r = record s) ∧ ∃ q ∈ qs, wants q r = true := by
  have asked : ∀ q s, named type (some (name s)) q = wants q (record s) := by
    intro q s
    rw [named, wants, (is s).1, (is s).2, Option.any_some]
  constructor
  · rintro ⟨⟨s, i⟩, at_, some_, rfl⟩
    rw [List.mem_zipIdx_iff_getElem?] at at_
    rw [at_, Option.map_some, List.any_eq_true] at some_
    obtain ⟨q, member, want⟩ := some_
    exact ⟨⟨s, List.mem_of_getElem? at_, rfl⟩, q, member, asked q s ▸ want⟩
  · rintro ⟨⟨s, offered, rfl⟩, q, member, want⟩
    obtain ⟨i, at_⟩ := List.mem_iff_getElem?.mp offered
    refine ⟨(s, i), List.mem_zipIdx_iff_getElem?.mpr at_, ?_, rfl⟩
    rw [at_, Option.map_some, List.any_eq_true]
    exact ⟨q, member, (asked q s).trans want⟩

theorem mem_metas (qs : List Asked) (r : Record) :
    (∃ e ∈ m.services.zipIdx, qs.any (named typePtr (if e.2 < m.services.length ∧ typeSeen m e.2 = false then
      some metaName else none)) = true ∧ r = recordMeta e.1) ↔
      (∃ s ∈ m.services, r = recordMeta s) ∧ ∃ q ∈ qs, wants q r = true := by
  constructor
  · rintro ⟨⟨s, i⟩, at_, some_, rfl⟩
    rw [List.mem_zipIdx_iff_getElem?] at at_
    obtain ⟨q, member, want⟩ := List.any_eq_true.mp some_
    refine ⟨⟨s, List.mem_of_getElem? at_, rfl⟩, q, member, ?_⟩
    by_cases first : i < m.services.length ∧ typeSeen m i = false
    · rw [if_pos first] at want
      exact want
    · simp [named, first] at want
  · rintro ⟨⟨s, offered, rfl⟩, q, member, want⟩
    obtain ⟨i, t, at_, first, alike⟩ := first_of_type m offered
    obtain ⟨inside, -⟩ := List.getElem?_eq_some_iff.mp at_
    refine ⟨(t, i), List.mem_zipIdx_iff_getElem?.mpr at_, ?_, ?_⟩
    · rw [if_pos ⟨inside, first⟩, List.any_eq_true]
      exact ⟨q, member, want⟩
    · simp only [recordMeta, typeName, alike]

theorem mem_owned {r : Record} : r ∈ owned m ↔ r = recordA m ∨ (∃ s ∈ m.services, r = recordMeta s) ∨
    (∃ s ∈ m.services, r = recordPtr s) ∨ (∃ s ∈ m.services, r = recordSrv m s) ∨
      ∃ s ∈ m.services, r = recordTxt s := by
  simp only [owned, List.mem_cons, List.mem_flatMap, List.not_mem_nil, or_false]
  grind

theorem mem_setRecords (qs : List Asked) (r : Record) :
    r ∈ setRecords m (answersTo m qs) ↔ r ∈ owned m ∧ ∃ q ∈ qs, wants q r = true := by
  have metas := mem_metas m qs r
  have ptr := mem_service m typePtr typeName recordPtr (fun _ => ⟨rfl, rfl⟩) qs r
  have srv := mem_service m typeSrv instanceName (recordSrv m) (fun _ => ⟨rfl, rfl⟩) qs r
  have txt := mem_service m typeTxt instanceName recordTxt (fun _ => ⟨rfl, rfl⟩) qs r
  have a : (qs.any (named typeA (some (hostName m))) = true ∧ r = recordA m) ↔
      r = recordA m ∧ ∃ q ∈ qs, wants q r = true := by
    rw [List.any_eq_true, and_comm]
    exact and_congr_right fun is => by rw [is]; rfl
  simp only [setRecords, List.mem_append, List.mem_flatMap, mem_one, answersTo_a, answersTo_metas,
    answersTo_ptr,
    answersTo_srv, answersTo_txt, a, metas, and_or_left, exists_or, ptr, srv, txt, mem_owned,
      or_and_right, or_assoc]

theorem setRecords_sublist {few many : List Asked} (more : ∀ q ∈ few, q ∈ many) :
    (setRecords m (answersTo m few)).Sublist (setRecords m (answersTo m many)) := by
  have any_ : ∀ p : Asked → Bool, few.any p = true → many.any p = true := by
    intro p some_
    obtain ⟨q, member, is⟩ := List.any_eq_true.mp some_
    exact List.any_eq_true.mpr ⟨q, more q member, is⟩
  have one : ∀ (p : Asked → Bool) (r : Record),
      (if few.any p then [r] else []).Sublist (if many.any p then [r] else []) := by
    intro p r
    by_cases some_ : few.any p = true
    · rw [if_pos some_, if_pos (any_ p some_)]
    · rw [if_neg some_]
      exact List.nil_sublist _
  simp only [setRecords, answersTo_a, answersTo_metas, answersTo_ptr, answersTo_srv, answersTo_txt]
  refine ((one _ _).append (List.Sublist.flatMap_right _ fun e _ => one _ _)).append
    (List.Sublist.flatMap_right _ fun e _ => ?_)
  exact ((one _ _).append (one _ _)).append (one _ _)

/-! ## The names of a host -/

theorem domain_ok : NameOk [ascii "_tcp", ascii "local"] ∧ wireLen [ascii "_tcp", ascii "local"] = 12 := by
  rw [nameOk_cons, nameOk_cons]
  exact ⟨⟨by decide, by decide, nameOk_nil⟩, rfl⟩

theorem hostName_ok : NameOk (hostName m) ∧ wireLen (hostName m) ≤ 40 := by
  have host := m.hostOk
  simp only [hostMax] at host
  rw [hostName, nameOk_cons, wireLen_cons]
  have local_ : wireLen [ascii "local"] = 7 := rfl
  exact ⟨⟨⟨host.1, Nat.le_trans host.2 (by decide)⟩, (nameOk_cons.mp domain_ok.1).2⟩, by omega⟩

theorem typeName_ok (s : MdnsService) : NameOk (typeName s) ∧ wireLen (typeName s) ≤ 76 := by
  have type := s.typeOk
  rw [typeName, nameOk_cons, wireLen_cons, domain_ok.2]
  refine ⟨⟨type, domain_ok.1⟩, ?_⟩
  simp only [labelMax] at type
  omega

theorem instanceName_ok (s : MdnsService) : NameOk (instanceName s) ∧ wireLen (instanceName s) ≤ 140 := by
  have instance_ := s.instanceOk
  have type := typeName_ok s
  rw [typeName] at type
  rw [instanceName, nameOk_cons, wireLen_cons]
  refine ⟨⟨instance_, type.1⟩, ?_⟩
  simp only [labelMax] at instance_
  omega

theorem metaName_ok : NameOk metaName ∧ wireLen metaName < nameMax := by
  constructor
  · intro label member
    simp only [metaName, List.mem_cons, List.not_mem_nil, or_false] at member
    rcases member with rfl | rfl | rfl | rfl <;> exact ⟨by decide, by decide⟩
  · decide

theorem short_name {n k : Nat} (small : n ≤ k) (few : k < 256) : n < nameMax := Nat.lt_of_le_of_lt small few

theorem recordA_ok : RecordOk (recordA m) := by
  have host := hostName_ok m
  exact ⟨host.1, short_name host.2 (by decide), (by decide : ttlHost < 2 ^ 32), m.ipFour⟩

theorem recordMeta_ok (s : MdnsService) : RecordOk (recordMeta s) := by
  have type := typeName_ok s
  exact ⟨metaName_ok.1, metaName_ok.2, (by decide : ttlOther < 2 ^ 32), type.1, short_name type.2 (by decide)⟩

theorem recordPtr_ok (s : MdnsService) : RecordOk (recordPtr s) := by
  have type := typeName_ok s
  have inst := instanceName_ok s
  exact ⟨type.1, short_name type.2 (by decide), (by decide : ttlOther < 2 ^ 32), inst.1,
    short_name inst.2 (by decide)⟩

theorem recordSrv_ok (s : MdnsService) : RecordOk (recordSrv m s) := by
  have host := hostName_ok m
  have inst := instanceName_ok s
  exact ⟨inst.1, short_name inst.2 (by decide), (by decide : ttlHost < 2 ^ 32), host.1,
    short_name host.2 (by decide)⟩

theorem recordTxt_ok (s : MdnsService) : RecordOk (recordTxt s) := by
  have inst := instanceName_ok s
  exact ⟨inst.1, short_name inst.2 (by decide), (by decide : ttlOther < 2 ^ 32), trivial⟩

theorem owned_ok {r : Record} (mine : r ∈ owned m) : RecordOk r := by
  rcases (mem_owned m).mp mine with rfl | ⟨s, -, rfl⟩ | ⟨s, -, rfl⟩ | ⟨s, -, rfl⟩ | ⟨s, -, rfl⟩
  · exact recordA_ok m
  · exact recordMeta_ok s
  · exact recordPtr_ok s
  · exact recordSrv_ok m s
  · exact recordTxt_ok s

/-! ## The reply -/

theorem records_few (rs : List Record) : rs.length ≤ (rs.flatMap (recordBytes {})).length := by
  induction rs with
  | nil => exact Nat.le_refl _
  | cons r rest ih =>
      rw [List.flatMap_cons, List.length_append, recordBytes_length, recordLen, List.length_cons]
      omega

theorem answerSection_wrap {reader : Mdns} {g : Msg} {rs : List Record} (ar : Nat) (more : Bytes)
    (live : reader.ip ≠ noIp) (apart : m.ip ≠ reader.ip)
    (buf : g.buf = message 0 0x8400 0 rs.length 0 ar (rs.flatMap (recordBytes {}) ++ more))
    (small : g.buf.length ≤ dnsMax) (fits : rs.length < 65536) (ok : ∀ r ∈ rs, RecordOk r) :
    answerSection reader (wrap m g groupMac groupIp mdnsPort).2 = rs.map sent := by
  have response := response_wrap live apart buf small fits
  obtain ⟨-, -, count⟩ :=
    message_reads 0 0x8400 0 rs.length 0 ar (rs.flatMap (recordBytes {}) ++ more) (by decide)
    fits (by decide)
  rw [answerSection, response, Option.elim_some, buf]
  dsimp only
  rw [count]
  exact allRecords_stands rs ok (message_body 0 0x8400 0 rs.length 0 ar _ (List.prefix_append _ _))

theorem handle_answers {reader : Mdns} {frame : Bytes} {d : Datagram} {qs : List Asked} {stop : Nat}
    (live : reader.ip ≠ noIp) (apart : m.ip ≠ reader.ip) (got : datagram m frame = some d)
    (query : rd16 d.msg 2 &&& 0xf80f = 0) (port : d.sport = mdnsPort) (group : d.dst = groupIp)
    (read : readQuestions d.msg (min (rd16 d.msg 4) maxQuestions) 12 = some (qs, stop))
    (fits : 12 + ((setRecords m (answersTo m qs)).flatMap (recordBytes {})).length ≤ dnsMax) :
    answerSection reader (mdnsHandle m frame).2 = (setRecords m (answersTo m qs)).map sent := by
  have ok : ∀ r ∈ setRecords m (answersTo m qs), RecordOk r := fun r there =>
    owned_ok m ((mem_setRecords m qs r).mp there).1
  have begun : (beginMessage 0).buf.length = 12 := rfl
  have written : writeSet (beginMessage 0) m (answersTo m qs) = { beginMessage 0 with
      buf := message 0 0x8400 0 0 0 0 ((setRecords m (answersTo m qs)).flatMap (recordBytes {}))
      count := (setRecords m (answersTo m qs)).length } := by
    rw [writeSet_eq, rrs_fit _ (beginMessage 0) rfl (by rw [begun]; exact fits)]
    simp only [beginMessage, Nat.zero_add]
    rfl
  generalize setRecords m (answersTo m qs) = rs at fits ok written
  have few := records_few rs
  simp only [dnsMax, frameMax, hdrLen] at fits
  -- what a client asks next
  have second := rrs_extend (setRecords m (additional m (answersTo m qs)))
    { beginMessage 0 with buf := message 0 0x8400 0 rs.length 0 0 (rs.flatMap (recordBytes {})), count := 0 }
    (by rw [message_length]; exact fits)
  rw [← writeSet_eq] at second
  have start : ({ beginMessage 0 with legacy := false } : Msg) = beginMessage 0 := rfl
  simp only [mdnsHandle, got, query, read, port, group, ne_eq, not_true_eq_false, decide_false,
    if_false, start,
    Bool.false_eq_true, false_and, or_self, written, message_answers]
  by_cases none_ : rs.length = 0
  · rw [if_pos none_, List.length_eq_zero_iff.mp none_, answerSection, mdnsResponse, datagram_nil]
    rfl
  · rw [if_neg none_]
    generalize writeSet _ m (additional m (answersTo m qs)) = h at second ⊢
    obtain ⟨⟨more, longer⟩, small⟩ := second
    rw [message_append] at longer
    refine answerSection_wrap m h.count more live apart ?_ ?_ (by omega) ok
    · rw [← longer, message_additionals]
    · rw [← longer, message_additionals, message_length, ← message_length 0 0x8400 0 rs.length 0 0, longer]
      exact small

/-! ## Announcements -/

def announcement (s : MdnsService) (goodbye : Bool) : List Record :=
  [recordPtr s, recordSrv m s, recordTxt s] ++ if goodbye then [] else [recordMeta s, recordA m]

theorem announcement_ok (s : MdnsService) (goodbye : Bool) : ∀ r ∈ announcement m s goodbye, RecordOk r := by
  simp only [announcement, List.forall_mem_append, List.forall_mem_cons, List.not_mem_nil,
    false_implies, implies_true,
    and_true]
  refine ⟨⟨recordPtr_ok s, recordSrv_ok m s, recordTxt_ok s⟩, ?_⟩
  cases goodbye with
  | true => rintro _ ⟨⟩
  | false => exact List.forall_mem_cons.mpr ⟨recordMeta_ok s, List.forall_mem_singleton.mpr (recordA_ok m)⟩

theorem announcement_fits (s : MdnsService) (goodbye : Bool) (g : Msg) :
    12 + ((announcement m s goodbye).flatMap (recordBytes g)).length ≤ dnsMax := by
  have host := (hostName_ok m).2
  have type := (typeName_ok s).2
  have inst := (instanceName_ok s).2
  have metas : wireLen metaName = 30 := rfl
  have ip := m.ipFour
  cases goodbye <;>
    simp [announcement, recordBytes_length, recordLen, recordPtr, recordSrv, recordTxt, recordMeta,
      recordA, RData.bytes,
      wire_length, metas, ip, dnsMax, frameMax, hdrLen] <;>
    omega

theorem announce_eq (s : MdnsService) (goodbye : Bool) (live : m.ip ≠ noIp) :
    mdnsAnnounce m (some s) goodbye =
    let g := (announcement m s goodbye).foldl rr { beginMessage 0 with goodbye := goodbye }
    if g.count = 0 then (m, [])
      else wrap m { g with buf := wr16 g.buf 6 g.count } groupMac groupIp mdnsPort := by
  cases goodbye <;> simp [mdnsAnnounce, live, announcement, rrPtr, rrSrv, rrTxt, rrMeta, rrA]

theorem announce_response {reader : Mdns} (s : MdnsService) (goodbye : Bool) (live : m.ip ≠ noIp)
    (reads : reader.ip ≠ noIp) (apart : m.ip ≠ reader.ip) : ∃ msg : Bytes,
      mdnsResponse reader (mdnsAnnounce m (some s) goodbye).2 =
        some (msg, 12, (announcement m s goodbye).length) ∧
      allRecords msg (announcement m s goodbye).length (announcement m s goodbye).length 12 =
        (announcement m s goodbye).map (seen { goodbye := goodbye }) := by
  have fits := announcement_fits m s goodbye { beginMessage 0 with goodbye := goodbye }
  have ok := announcement_ok m s goodbye
  have some_ : 0 < (announcement m s goodbye).length := by simp [announcement]
  have few : (announcement m s goodbye).length ≤ 5 := by cases goodbye <;> simp [announcement]
  rw [announce_eq m s goodbye live, rrs_fit _ { beginMessage 0 with goodbye := goodbye } rfl fits]
  generalize announcement m s goodbye = rs at fits ok some_ few
  have buf : wr16 ((beginMessage 0).buf ++ rs.flatMap
    (recordBytes { beginMessage 0 with goodbye := goodbye })) 6
      ((beginMessage 0).count + rs.length) =
      message 0 0x8400 0 rs.length 0 0 (rs.flatMap (recordBytes { goodbye := goodbye })) := by
    rw [beginMessage_buf, message_append, message_answers, List.nil_append, beginMessage, Nat.zero_add]
    rfl
  have count : (beginMessage 0).count + rs.length ≠ 0 := by omega
  obtain ⟨ns, ar⟩ := message_rest 0 0x8400 0 rs.length 0 0
    (rs.flatMap (recordBytes { goodbye := goodbye })) (by decide)
    (by decide)
  refine ⟨message 0 0x8400 0 rs.length 0 0 (rs.flatMap (recordBytes { goodbye := goodbye })), ?_,
    allRecords_stands rs ok (message_body 0 0x8400 0 rs.length 0 0 _ (List.prefix_refl _))⟩
  dsimp only
  rw [if_neg count, response_wrap reads apart buf (by rw [buf, message_length]; exact fits) (by omega),
    buf, ns, ar]
  rfl

end R2Apps.MdnsAnswers
