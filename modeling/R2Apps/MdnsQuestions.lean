import R2Apps.MdnsCache

/-! The browser's questions and the responder's answers to them. A responder reads no more than eight
questions of a query, where a browser puts in up to thirty-two: what decides is which records the first
eight ask for. -/
namespace R2Apps.MdnsQuestions
open WireBytes MdnsMessages MdnsResponder MdnsFrames MdnsAnswers MdnsBrowser MdnsCache

/-! ## Queries -/

def questionBytes (q : MdnsQuestion) : Bytes := wire q.name ++ be16 q.type ++ be16 classIn

def asked (q : MdnsQuestion) : Asked := ⟨q.name, q.type, classIn⟩

structure QuestionOk (q : MdnsQuestion) : Prop where
  name : NameOk q.name
  short : wireLen q.name < nameMax
  type : q.type < 65536

/-- All the questions of a query. -/
def questionsIn (frame : Bytes) : List Asked :=
  (readQuestions (frame.drop hdrLen) (rd16 (frame.drop hdrLen) 4) 12).elim [] Prod.fst

theorem questionBytes_length (q : MdnsQuestion) : (questionBytes q).length = wireLen q.name + 4 := by
  simp [questionBytes, wire_length]

theorem questions_few (qs : List MdnsQuestion) : qs.length ≤ (qs.flatMap questionBytes).length := by
  induction qs with
  | nil => exact Nat.le_refl _
  | cons q rest ih =>
      rw [List.flatMap_cons, List.length_append, questionBytes_length, List.length_cons]
      omega

theorem putQuestions_eq (qs : List MdnsQuestion) :
    ∀ (g : Msg) (n : Nat), g.full = false → g.buf.length ≤ dnsMax →
    ∃ k ≤ qs.length, (putQuestions qs g n).2 = n + k ∧
      (putQuestions qs g n).1.buf = g.buf ++ (qs.take k).flatMap questionBytes ∧
      (putQuestions qs g n).1.buf.length ≤ dnsMax := by
  induction qs with
  | nil => exact fun g n _ small => ⟨0, Nat.le_refl _, rfl, by simp [putQuestions], small⟩
  | cons q rest ih =>
      intro g n room small
      have none_ : ∃ k ≤ (q :: rest).length, n = n + k ∧
        g.buf = g.buf ++ ((q :: rest).take k).flatMap questionBytes ∧
          g.buf.length ≤ dnsMax := ⟨0, Nat.zero_le _, rfl, by simp, small⟩
      have put : put16 (put16 (putName g q.name) q.type) classIn = puts g (questionBytes q) := by
        simp only [put16, putName, questionBytes, puts_append]
      simp only [putQuestions, put, puts_eq _ g small, room, Bool.false_or]
      by_cases long : wireLen q.name > nameMax
      · rw [if_pos long]
        exact none_
      · rw [if_neg long]
        by_cases full : dnsMax < g.buf.length + (questionBytes q).length
        · simp only [full, decide_true, if_true, List.take_left]
          exact none_
        · have whole : (questionBytes q).take (dnsMax - g.buf.length) = questionBytes q :=
            List.take_of_length_le (by omega)
          simp only [full, decide_false, Bool.false_eq_true, if_false, whole]
          obtain ⟨k, few, count, buf, short⟩ :=
            ih { g with buf := g.buf ++ questionBytes q, full := false } (n + 1) rfl
            (by simp only [List.length_append]; omega)
          refine ⟨k + 1, Nat.succ_le_succ few, by omega, ?_, short⟩
          rw [buf, List.take_succ_cons, List.flatMap_cons, List.append_assoc]

theorem readQuestions_stands {msg : Bytes} (qs : List MdnsQuestion) :
    ∀ {off : Nat}, (∀ q ∈ qs, QuestionOk q) →
    Stands msg off (qs.flatMap questionBytes) →
    readQuestions msg qs.length off = some (qs.map asked, off + (qs.flatMap questionBytes).length) := by
  induction qs with
  | nil => exact fun _ _ => rfl
  | cons q rest ih =>
      intro off ok there
      obtain ⟨name, short, type⟩ := ok q List.mem_cons_self
      rw [List.flatMap_cons] at there
      obtain ⟨first, later⟩ := stands_append.mp there
      have inside := stands_length first (by
        intro nothing
        have length := questionBytes_length q
        rw [nothing] at length
        simp at length)
      rw [questionBytes_length] at later inside
      rw [questionBytes] at first
      obtain ⟨first, cls⟩ := stands_append.mp first
      obtain ⟨wire_, type_⟩ := stands_append.mp first
      simp only [List.length_append, wire_length, be16_length] at cls type_
      rw [List.length_cons, readQuestions, readName_stands name short wire_]
      dsimp only
      rw [if_neg (by omega), rd16_stands type_ type]
      rw [Nat.add_assoc off, Nat.add_assoc off, rd16_stands cls (by decide),
        ih (fun q member => ok q (List.mem_cons_of_mem _ member)) later]
      simp [asked, questionBytes_length, Nat.add_assoc]

theorem query_frame {m : Mdns} {qs : List MdnsQuestion} (ok : ∀ q ∈ qs, QuestionOk q)
    (emitted : (mdnsQuery m qs).1.2 ≠ []) : ∃ (k : Nat) (msg : Bytes), (mdnsQuery m qs).2 = k ∧
      (∀ reader : Mdns, reader.ip ≠ noIp → m.ip ≠ reader.ip →
        datagram reader (mdnsQuery m qs).1.2 = some ⟨m.ip, groupIp, mdnsPort, msg⟩) ∧
      rd16 msg 2 = 0 ∧ rd16 msg 4 = k ∧ questionsIn (mdnsQuery m qs).1.2 = (qs.take k).map asked ∧
      ∀ n ≤ k, ∃ stop, readQuestions msg n 12 = some ((qs.take n).map asked, stop) := by
  have begun : ({ beginMessage 0 with buf := wr16 (beginMessage 0).buf 2 0 } : Msg) =
      { beginMessage 0 with buf := message 0 0 0 0 0 0 [] } := rfl
  obtain ⟨k, few, count, buf, short⟩ :=
    putQuestions_eq qs { beginMessage 0 with buf := message 0 0 0 0 0 0 [] } 0 rfl
    (by decide)
  rw [message_append, List.nil_append] at buf
  rw [Nat.zero_add] at count
  simp only [mdnsQuery, begun, count] at emitted ⊢
  by_cases address : m.ip = noIp
  · rw [if_pos address] at emitted
    exact absurd rfl emitted
  · rw [if_neg address] at emitted ⊢
    by_cases none_ : k = 0
    · rw [if_pos none_] at emitted
      exact absurd rfl emitted
    · rw [if_neg none_]
      dsimp only
      generalize (putQuestions qs { beginMessage 0 with buf := message 0 0 0 0 0 0 [] } 0).1 = g at buf short
      have length := questions_few (qs.take k)
      have whole : wr16 g.buf 4 k = message 0 0 k 0 0 0 ((qs.take k).flatMap questionBytes) := by
        rw [buf, message_questions]
      rw [buf, message_length] at short
      simp only [dnsMax, frameMax, hdrLen] at short
      rw [List.length_take, Nat.min_eq_left few] at length
      obtain ⟨flags, questions, -⟩ :=
        message_reads 0 0 k 0 0 0 ((qs.take k).flatMap questionBytes) (by omega) (by decide)
        (by decide)
      have read : ∀ n ≤ k, ∃ stop, readQuestions (wr16 g.buf 4 k) n 12 =
          some ((qs.take n).map asked, stop) := by
        intro n small
        have first : (qs.take n).flatMap questionBytes <+: (qs.take k).flatMap questionBytes := by
          rw [← List.take_append_drop n (qs.take k), List.take_take, Nat.min_eq_left small,
            List.flatMap_append]
          exact List.prefix_append _ _
        have stands := readQuestions_stands (qs.take n) (fun q member => ok q (List.mem_of_mem_take member))
          (message_body 0 0 k 0 0 0 _ first)
        rw [List.length_take, Nat.min_eq_left (Nat.le_trans small few)] at stands
        rw [whole]
        exact ⟨_, stands⟩
      refine ⟨k, wr16 g.buf 4 k, rfl, ?_, ?_, ?_, ?_, read⟩
      · intro reader live apart
        refine datagram_wrap live apart ?_ ?_
        · rw [whole, message_length]
          omega
        · rw [whole, message_length]
          exact short
      · rw [whole, flags]
      · rw [whole, questions]
      · obtain ⟨stop, all⟩ := read k (Nat.le_refl k)
        rw [questionsIn, wrap_message, whole, questions, ← whole, all]
        rfl

/-! ## What a browser asks -/

def DueOk (d : Due) : Prop := ∀ q ∈ d.question, QuestionOk q

section Sound
variable {b : Browse}

theorem type_wire_ok {t : BrowseType} (ok : LabelOk t.name) : NameOk t.wire ∧ wireLen t.wire ≤ 76 := by
  have proto : NameOk [if t.udp then ascii "_udp" else ascii "_tcp", ascii "local"] ∧
      wireLen [if t.udp then ascii "_udp" else ascii "_tcp", ascii "local"] = 12 := by
    cases t.udp with
    | false => exact domain_ok
    | true =>
        rw [nameOk_cons, nameOk_cons]
        exact ⟨⟨by decide, by decide, nameOk_nil⟩, rfl⟩
  rw [BrowseType.wire, nameOk_cons, wireLen_cons, proto.2]
  refine ⟨⟨ok, proto.1⟩, ?_⟩
  have small := ok.2
  simp only [labelMax] at small
  omega

theorem serviceWire_ok (sound : Sound b) {s : BrowseService} (there : s ∈ b.services) :
    NameOk (serviceWire b s) ∧ wireLen (serviceWire b s) ≤ 140 := by
  have inst := (sound.services s there).inst
  have type : NameOk (typeWire b s.type) ∧ wireLen (typeWire b s.type) ≤ 76 := by
    unfold typeWire
    cases found : b.types[s.type]? with
    | none => exact ⟨nameOk_nil, by decide⟩
    | some t => exact type_wire_ok (sound.types t (List.mem_of_getElem? found))
  rw [serviceWire, nameOk_cons, wireLen_cons]
  refine ⟨⟨inst, type.1⟩, ?_⟩
  have small := inst.2
  simp only [labelMax] at small
  omega

theorem dueNow_ok (sound : Sound b) (now : Nat) : ∀ d ∈ dueNow b now, DueOk d := by
  have short : ∀ {n k : Nat}, n ≤ k → k < 256 → n < nameMax := fun small few => Nat.lt_of_le_of_lt small few
  have one : ∀ {name : Name} {type : Nat} {kind : Kind}, NameOk name → wireLen name ≤ 140 → type < 65536 →
      DueOk ⟨some ⟨name, type⟩, kind⟩ := by
    rintro name type kind ok small known q ⟨⟩
    exact ⟨ok, short small (by decide), known⟩
  have first : ∀ d ∈ askMeta b now, DueOk d := by
    unfold askMeta
    split
    · rintro d member
      obtain rfl := List.mem_singleton.mp member
      exact one metaName_ok.1 (by decide) (by decide)
    · rintro _ ⟨⟩
  refine List.foldlRecOn (motive := fun due => ∀ d ∈ due, DueOk d) _ _
    (List.foldlRecOn (motive := fun due => ∀ d ∈ due, DueOk d) _ _ first ?_) ?_
  · rintro due all ⟨t, i⟩ member
    have there := List.fst_mem_of_mem_zipIdx member
    have wire_ := type_wire_ok (sound.types t there)
    unfold askType
    split
    · exact append_one all (one wire_.1 (Nat.le_trans wire_.2 (by decide)) (by decide))
    · exact all
  · rintro due all ⟨s, i⟩ member
    have there := List.fst_mem_of_mem_zipIdx member
    have ok := sound.services s there
    have wire_ := serviceWire_ok sound there
    unfold askService
    dsimp only
    split
    · exact all
    · split
      · exact append_one all (one wire_.1 wire_.2 (by decide))
      · split
        · refine append_one all ?_
          intro q is
          dsimp only at is
          split at is
          · cases is
          · cases is
            exact ⟨ok.target, short ok.short (by decide), (by decide : typeA < 65536)⟩
        · exact all

end Sound

/-! ## Answers -/

theorem browseQuery_frame {b : Browse} {m : Mdns} {now : Nat} (emitted : (browseQuery b m now).2.2 ≠ []) :
    m.ip ≠ noIp ∧ (browseQuery b m now).2.2 = (mdnsQuery m ((dueNow b now).filterMap Due.question)).1.2 := by
  simp only [browseQuery] at emitted ⊢
  split at emitted
  · exact absurd rfl emitted
  · next address =>
    split at emitted
    · exact absurd rfl emitted
    · next some_ =>
      split at emitted
      · exact absurd rfl emitted
      · next there =>
        rw [if_neg address, if_neg some_, if_neg there]
        exact ⟨address, rfl⟩

theorem sent_wanted {q : Asked} {r r' : Record} (alike : sent r' = sent r) : wants q r' = wants q r := by
  have name : ∀ r, (sent r).name = r.name := by
    intro r
    unfold sent seen
    split <;> rfl
  have type : ∀ r, (sent r).type = r.data.type := by
    intro r
    unfold sent seen
    cases r.data <;> rfl
  rw [wants, wants, ← name, ← name, ← type, ← type, alike]

theorem browse_answers {b : Browse} (reached : Reachable b) (asker owner : Mdns) (now : Nat)
    (live : owner.ip ≠ noIp)
    (apart : asker.ip ≠ owner.ip) (emitted : (browseQuery b asker now).2.2 ≠ [])
    (fits : 12 + ((setRecords owner (answersTo owner (questionsIn (browseQuery b asker now).2.2))).flatMap
      (recordBytes {})).length ≤ dnsMax) :
    answerSection asker (mdnsHandle owner (browseQuery b asker now).2.2).2 =
      (setRecords owner (answersTo owner
        ((questionsIn (browseQuery b asker now).2.2).take maxQuestions))).map sent := by
  obtain ⟨address, frame⟩ := browseQuery_frame emitted
  have ok : ∀ q ∈ (dueNow b now).filterMap Due.question, QuestionOk q := by
    intro q member
    obtain ⟨d, due, is⟩ := List.mem_filterMap.mp member
    exact dueNow_ok (reachable_sound reached) now d due q is
  rw [frame] at emitted fits ⊢
  obtain ⟨k, msg, -, got, query, rfl, questions, read⟩ := query_frame ok emitted
  obtain ⟨stop, eight⟩ := read (min (rd16 msg 4) maxQuestions) (Nat.min_le_left _ _)
  have first : (questionsIn (mdnsQuery asker ((dueNow b now).filterMap Due.question)).1.2).take maxQuestions =
      (((dueNow b now).filterMap Due.question).take (min (rd16 msg 4) maxQuestions)).map asked := by
    rw [questions, ← List.map_take, List.take_take, Nat.min_comm]
  rw [first]
  have plain : rd16 msg 2 &&& 0xf80f = 0 := by
    rw [query]
    rfl
  have fewer := setRecords_sublist owner fun q (member : q ∈ (questionsIn (mdnsQuery asker
    ((dueNow b now).filterMap Due.question)).1.2).take maxQuestions) => List.mem_of_mem_take member
  rw [first] at fewer
  exact handle_answers owner address (Ne.symm apart) (got owner live apart) plain rfl rfl eight
    (Nat.le_trans (Nat.add_le_add_left (fewer.flatMap (recordBytes {})).length_le 12) fits)

/-- A record is answered for exactly when one of the first eight questions asks for it. -/
theorem questions_answered_iff {b : Browse} (reached : Reachable b) (asker owner : Mdns) (now : Nat)
    (live : owner.ip ≠ noIp) (apart : asker.ip ≠ owner.ip)
    (fits : 12 + ((setRecords owner (answersTo owner (questionsIn (browseQuery b asker now).2.2))).flatMap
      (recordBytes {})).length ≤ dnsMax) :
    (∀ q ∈ questionsIn (browseQuery b asker now).2.2, ∀ r ∈ owned owner, wants q r = true →
      sent r ∈ answerSection asker (mdnsHandle owner (browseQuery b asker now).2.2).2) ↔
    ∀ q ∈ questionsIn (browseQuery b asker now).2.2, ∀ r ∈ owned owner, wants q r = true →
      ∃ q' ∈ (questionsIn (browseQuery b asker now).2.2).take maxQuestions, wants q' r = true := by
  by_cases emitted : (browseQuery b asker now).2.2 = []
  · rw [emitted]
    have none_ : questionsIn [] = [] := rfl
    rw [none_]
    exact ⟨by rintro _ _ ⟨⟩, by rintro _ _ ⟨⟩⟩
  · rw [browse_answers reached asker owner now live apart emitted fits]
    constructor
    · intro answered q there r mine want
      obtain ⟨r', written, alike⟩ := List.mem_map.mp (answered q there r mine want)
      obtain ⟨-, q', early, want'⟩ := (mem_setRecords owner _ r').mp written
      exact ⟨q', early, sent_wanted alike ▸ want'⟩
    · intro early q there r mine want
      exact List.mem_map.mpr ⟨r, (mem_setRecords owner _ r).mpr ⟨mine, early q there r mine want⟩, rfl⟩

/-- The first five questions of a browser are answered. -/
theorem first_questions_answered : (questionsIn (browseQuery (browseStart 0) browsing 0).2.2).length = 5 ∧
    ∀ q ∈ questionsIn (browseQuery (browseStart 0) browsing 0).2.2, ∀ r ∈ owned offering, wants q r = true →
      sent r ∈ answerSection browsing (mdnsHandle offering (browseQuery (browseStart 0) browsing 0).2.2).2 :=
  ⟨by decide +kernel,
    (questions_answered_iff (.start 0) browsing offering 0 (by decide) (by decide) (by decide +kernel)).mpr
      (by decide +kernel)⟩

/-- A browser that has heard of four more types. -/
def heardOf : Browse :=
  offering.services.foldl (fun b s => browseInput b browsing (mdnsAnnounce offering (some s) false).2 0)
    (browseStart 0)

theorem heardOf_reachable : Reachable heardOf := by
  unfold heardOf
  generalize offering.services = services
  exact List.foldlRecOn (motive := Reachable) services _ (.start 0) fun _ reached _ _ =>
    .input browsing _ 0 reached

/-- It asks nine questions, in this order. -/
def nineAsked : List Asked :=
  ⟨metaName, typePtr, classIn⟩ ::
    [ascii "_http", ascii "_telnet", ascii "_rntp", ascii "_ssh", ascii "_a", ascii "_b",
      ascii "_c", ascii "_d"].map
      fun type => ⟨[type, ascii "_tcp", ascii "local"], typePtr, classIn⟩

theorem heardOf_asks : questionsIn (browseQuery heardOf browsing 0).2.2 = nineAsked := by
  have taken : heardOf = offering.services.foldl (fun b s => told b s 0 offering) (browseStart 0) := by
    refine congrArg (fun turn => offering.services.foldl turn (browseStart 0)) ?_
    funext b s
    exact browseInput_announce b s 0 (by decide) (by decide) (by decide)
  rw [taken]
  decide +kernel

theorem ninth_unanswered : Reachable heardOf ∧ offering.ip ≠ noIp ∧ browsing.ip ≠ offering.ip ∧
    12 + ((setRecords offering
      (answersTo offering (questionsIn (browseQuery heardOf browsing 0).2.2))).flatMap
      (recordBytes {})).length ≤ dnsMax ∧
    ¬∀ q ∈ questionsIn (browseQuery heardOf browsing 0).2.2, ∀ r ∈ owned offering, wants q r = true →
      sent r ∈ answerSection browsing (mdnsHandle offering (browseQuery heardOf browsing 0).2.2).2 := by
  have fits : 12 + ((setRecords offering
    (answersTo offering (questionsIn (browseQuery heardOf browsing 0).2.2))).flatMap
      (recordBytes {})).length ≤ dnsMax := by
    rw [heardOf_asks]
    decide +kernel
  have emitted : (browseQuery heardOf browsing 0).2.2 ≠ [] := by
    intro nothing
    have none_ := heardOf_asks
    rw [nothing] at none_
    exact absurd none_ (by decide)
  refine ⟨heardOf_reachable, by decide, by decide, fits, ?_⟩
  rw [browse_answers heardOf_reachable browsing offering 0 (by decide) (by decide) emitted fits, heardOf_asks]
  decide

end R2Apps.MdnsQuestions
