import Mathlib.Data.List.Nodup
import R2Apps.MdnsCacheBounds
import R2Apps.MdnsQuestions

/-! What `browse_query` asks and what it takes for asked: who waits for a question, what fits in the frame,
and which entries are marked. A service whose target another one has asked about before is marked only when
everything up to its own place went out. -/
namespace R2Apps.MdnsAsking
open WireBytes MdnsMessages MdnsResponder MdnsFrames MdnsBrowser MdnsCache MdnsQuestions MdnsCacheBounds

/-! ## Who waits -/

/-- The question that a service waits for. -/
def waitsFor (b : Browse) (now : Nat) (s : BrowseService) : Option MdnsQuestion :=
  if s.asks ≥ maxAsks ∨ now < s.askAt ∨ s.ptrTtl = 0 then none
  else if s.srvExpires = 0 then some ⟨serviceWire b s, typeSrv⟩
  else if s.target ≠ [] ∧ (addressOf b s).isNone then some ⟨s.target, typeA⟩
  else none

def refreshing (b : Browse) (now t : Nat) : Bool :=
  b.services.any fun s => s.type == t && (ptrDue now s || srvDue now s)

deriving instance DecidableEq for Kind

structure Wanted where
  question : MdnsQuestion
  kind : Kind
deriving DecidableEq

def wantedMeta (b : Browse) (now : Nat) : List Wanted :=
  if now ≥ b.metaAt then [⟨⟨metaName, typePtr⟩, .meta_⟩] else []

def wantedType (b : Browse) (now : Nat) (e : BrowseType × Nat) : Option Wanted :=
  if now ≥ e.1.askAt ∨ refreshing b now e.2 = true then some ⟨⟨e.1.wire, typePtr⟩, .type e.2⟩ else none

def serviceKind (q : MdnsQuestion) (i : Nat) : Kind := if q.type = typeSrv then .srv i else .a i

def wantedService (b : Browse) (now : Nat) (e : BrowseService × Nat) : Option Wanted :=
  (waitsFor b now e.1).map fun q => ⟨q, serviceKind q e.2⟩

/-- All that wait for a question, in the order in which they are gone through. -/
def waiting (b : Browse) (now : Nat) : List Wanted :=
  wantedMeta b now ++ b.types.zipIdx.filterMap (wantedType b now) ++
    b.services.zipIdx.filterMap (wantedService b now)

/-! ## What is asked for them -/

/-- A target is asked about once. -/
def share (due : List Due) (w : Wanted) : List Due :=
  due ++ [⟨if w.question.type = typeA ∧ due.any (asksFor w.question.name) = true then none
    else some w.question, w.kind⟩]

def shared (ws : List Wanted) : List Due := ws.foldl share []

/-- The questions of these, each target once. -/
def asks (ws : List Wanted) : List MdnsQuestion := (shared ws).filterMap Due.question

/-- Whether their questions fit in one frame. -/
def Room (ws : List Wanted) : Prop := 12 + ((asks ws).flatMap questionBytes).length ≤ dnsMax

instance (ws : List Wanted) : Decidable (Room ws) := inferInstanceAs (Decidable (_ ≤ _))

section Shared

theorem share_length (due : List Due) (w : Wanted) : (share due w).length = due.length + 1 := by
  rw [share, List.length_append, List.length_singleton]

theorem shared_snoc (ws : List Wanted) (w : Wanted) : shared (ws ++ [w]) = share (shared ws) w := by
  rw [shared, List.foldl_append]
  rfl

theorem shared_length (ws : List Wanted) : (shared ws).length = ws.length := by
  induction ws using List.reverseRecOn with
  | nil => rfl
  | append_singleton ws w ih => rw [shared_snoc, share_length, ih, List.length_append, List.length_singleton]

theorem shared_take (ws : List Wanted) (n : Nat) : shared (ws.take n) = (shared ws).take n := by
  induction ws using List.reverseRecOn with
  | nil => simp [shared]
  | append_singleton ws w ih =>
      rw [shared_snoc, share]
      by_cases whole : n ≤ ws.length
      · rw [List.take_append_of_le_length whole,
          List.take_append_of_le_length (by rw [shared_length]; exact whole), ih]
      · rw [List.take_of_length_le (by simp; omega),
          List.take_of_length_le (by simp [shared_length]; omega), shared_snoc,
          share]

theorem shared_kinds (ws : List Wanted) : (shared ws).map Due.kind = ws.map Wanted.kind := by
  induction ws using List.reverseRecOn with
  | nil => rfl
  | append_singleton ws w ih =>
      rw [shared_snoc, share, List.map_append, ih, List.map_append]
      rfl

theorem asks_snoc (ws : List Wanted) (w : Wanted) : asks (ws ++ [w]) =
    asks ws ++ if w.question.type = typeA ∧ (shared ws).any (asksFor w.question.name) = true then []
      else [w.question] := by
  rw [asks, shared_snoc, share, List.filterMap_append]
  congr 1
  split <;> rfl

theorem asks_prefix (ws : List Wanted) (n : Nat) : asks (ws.take n) <+: asks ws := by
  rw [asks, asks, shared_take]
  exact (List.take_prefix n _).filterMap _

theorem asksFor_any (ws : List Wanted) (name : Name) : (shared ws).any (asksFor name) = true ↔
    ∃ q ∈ asks ws, q.type = typeA ∧ wireEq q.name name = true := by
  simp only [List.any_eq_true, asksFor, Option.any_eq_true, Bool.and_eq_true, beq_iff_eq, asks,
    List.mem_filterMap]
  constructor
  · rintro ⟨d, there, q, is, type, alike⟩
    exact ⟨q, ⟨d, there, is⟩, type, alike⟩
  · rintro ⟨q, ⟨d, there, is⟩, type, alike⟩
    exact ⟨d, there, q, is, type, alike⟩

theorem asks_place (ws : List Wanted) : ∀ n < (asks ws).length, ∃ (i : Nat) (w : Wanted), ws[i]? = some w ∧
    (asks ws)[n]? = some w.question ∧ (asks (ws.take (i + 1))).length = n + 1 := by
  induction ws using List.reverseRecOn with
  | nil =>
      intro n inside
      cases inside
  | append_singleton ws w ih =>
      intro n inside
      by_cases old : n < (asks ws).length
      · obtain ⟨i, v, at_, question, length⟩ := ih n old
        have place := (List.getElem?_eq_some_iff.mp at_).1
        refine ⟨i, v, (List.getElem?_append_left place).trans at_, ?_, ?_⟩
        · rw [asks_snoc, List.getElem?_append_left old]
          exact question
        · rw [List.take_append_of_le_length place]
          exact length
      · rw [asks_snoc] at inside
        by_cases known : w.question.type = typeA ∧ (shared ws).any (asksFor w.question.name) = true
        · rw [if_pos known, List.append_nil] at inside
          exact absurd inside old
        · rw [if_neg known, List.length_append, List.length_singleton] at inside
          obtain rfl : n = (asks ws).length := by omega
          have whole : (ws ++ [w]).take (ws.length + 1) = ws ++ [w] := List.take_of_length_le (by simp)
          refine ⟨ws.length, w, by simp, ?_, ?_⟩
          · rw [asks_snoc, if_neg known]
            simp
          · rw [whole, asks_snoc, if_neg known, List.length_append, List.length_singleton]

theorem asks_covers (ws : List Wanted) {w : Wanted} (there : w ∈ ws) :
    ∃ q ∈ asks ws, q.type = w.question.type ∧ nameEq q.name w.question.name = true := by
  induction ws using List.reverseRecOn with
  | nil => cases there
  | append_singleton ws v ih =>
      rw [asks_snoc]
      rcases List.mem_append.mp there with old | new
      · obtain ⟨q, member, alike⟩ := ih old
        exact ⟨q, List.mem_append_left _ member, alike⟩
      · obtain rfl := List.mem_singleton.mp new
        by_cases known : w.question.type = typeA ∧ (shared ws).any (asksFor w.question.name) = true
        · obtain ⟨q, member, type, alike⟩ := (asksFor_any ws _).mp known.2
          exact ⟨q, List.mem_append_left _ member, type.trans known.1.symm, (Bool.and_eq_true _ _ ▸ alike).1⟩
        · rw [if_neg known]
          exact ⟨w.question, by simp, rfl, by simp [nameEq]⟩

theorem asks_once (ws : List Wanted)
    (short : ∀ w ∈ ws, w.question.type = typeA → wireLen w.question.name ≤ targetMax) :
    (asks ws).Pairwise fun p q => ¬(p.type = typeA ∧ q.type = typeA ∧ nameEq p.name q.name = true) := by
  have from_ : ∀ ws : List Wanted, ∀ q ∈ asks ws, ∃ w ∈ ws, w.question = q := by
    intro ws q member
    obtain ⟨n, at_⟩ := List.mem_iff_getElem?.mp member
    obtain ⟨i, w, there, question, -⟩ := asks_place ws n (List.getElem?_eq_some_iff.mp at_).1
    exact ⟨w, List.mem_of_getElem? there, Option.some.inj (question.symm.trans at_)⟩
  induction ws using List.reverseRecOn with
  | nil => exact List.Pairwise.nil
  | append_singleton ws w ih =>
      have before := ih fun v there => short v (List.mem_append_left _ there)
      rw [asks_snoc]
      by_cases known : w.question.type = typeA ∧ (shared ws).any (asksFor w.question.name) = true
      · rw [if_pos known, List.append_nil]
        exact before
      · rw [if_neg known]
        refine List.pairwise_append.mpr ⟨before, List.pairwise_singleton _ _, ?_⟩
        rintro p old q new ⟨type, type', alike⟩
        obtain rfl := List.mem_singleton.mp new
        refine known ⟨type', (asksFor_any ws _).mpr ⟨p, old, type, ?_⟩⟩
        obtain ⟨v, there, rfl⟩ := from_ ws p old
        simp [wireEq, alike, short v (List.mem_append_left _ there) type]

end Shared

/-! ## What is due -/

theorem capped (ws : List Wanted) : ∀ due : List Due, due.length ≤ maxAsked →
    ws.foldl (fun due w => if due.length < maxAsked then share due w else due) due =
      (ws.take (maxAsked - due.length)).foldl share due := by
  induction ws with
  | nil => simp
  | cons w rest ih =>
      intro due few
      rw [List.foldl_cons]
      by_cases room : due.length < maxAsked
      · obtain ⟨k, more⟩ : ∃ k, maxAsked - due.length = k + 1 := ⟨maxAsked - due.length - 1, by omega⟩
        rw [if_pos room, ih _ (by rw [share_length]; exact room), share_length, more,
          List.take_succ_cons, List.foldl_cons]
        congr 2
        omega
      · have full : maxAsked - due.length = 0 := by omega
        rw [if_neg room, ih due few, full]
        simp

theorem foldl_some {α β γ : Type} (f : β → Option γ) (g : α → γ → α) (l : List β) (init : α) :
    l.foldl (fun x e => (f e).elim x (g x)) init = (l.filterMap f).foldl g init := by
  induction l generalizing init with
  | nil => rfl
  | cons e rest ih =>
      rw [List.foldl_cons, ih, List.filterMap_cons]
      cases f e <;> rfl

theorem dueNow_shared (b : Browse) (now : Nat) : dueNow b now = shared ((waiting b now).take maxAsked) := by
  have start : askMeta b now =
      (wantedMeta b now).foldl (fun due w => if due.length < maxAsked then share due w else due) [] := by
    unfold askMeta wantedMeta
    split <;> rfl
  have types : ∀ due, ∀ e : BrowseType × Nat, askType b now due e =
      ((wantedType b now e).elim due fun w => if due.length < maxAsked then share due w else due) := by
    intro due e
    unfold askType wantedType refreshing
    by_cases wanted : now ≥ e.1.askAt ∨
      (b.services.any fun s => s.type == e.2 && (ptrDue now s || srvDue now s)) = true
    · rw [if_pos wanted, Option.elim_some]
      by_cases room : due.length < maxAsked
      · rw [if_pos room, if_pos ⟨room, wanted⟩]
        rfl
      · rw [if_neg room, if_neg fun both => room both.1]
    · rw [if_neg wanted, if_neg fun both => wanted both.2]
      rfl
  have services : ∀ due, ∀ e : BrowseService × Nat, askService b now due e =
      ((wantedService b now e).elim due fun w => if due.length < maxAsked then share due w else due) := by
    intro due e
    unfold askService wantedService waitsFor
    dsimp only
    by_cases room : due.length < maxAsked
    · have more : ¬due.length ≥ maxAsked := Nat.not_le.mpr room
      by_cases idle : e.1.asks ≥ maxAsks ∨ now < e.1.askAt ∨ e.1.ptrTtl = 0
      · rw [if_pos (Or.inr idle), if_pos idle]
        rfl
      · rw [if_neg (not_or.mpr ⟨more, idle⟩), if_neg idle]
        by_cases unresolved : e.1.srvExpires = 0
        · rw [if_pos unresolved, if_pos unresolved]
          simp [room, share, serviceKind, typeSrv, typeA]
        · rw [if_neg unresolved, if_neg unresolved]
          by_cases unknown : e.1.target ≠ [] ∧ (addressOf b e.1).isNone = true
          · rw [if_pos unknown, if_pos unknown]
            simp [room, share, serviceKind, typeSrv, typeA]
          · rw [if_neg unknown, if_neg unknown]
            rfl
    · rw [if_pos (Or.inl (Nat.le_of_not_lt room))]
      cases (if e.1.asks ≥ maxAsks ∨ now < e.1.askAt ∨ e.1.ptrTtl = 0 then none
        else if e.1.srvExpires = 0 then some (⟨serviceWire b e.1, typeSrv⟩ : MdnsQuestion)
        else if e.1.target ≠ [] ∧ (addressOf b e.1).isNone then some ⟨e.1.target, typeA⟩ else none) with
      | none => rfl
      | some q => exact (if_neg room).symm
  have types' := funext fun due => funext fun e => types due e
  have services' := funext fun due => funext fun e => services due e
  rw [dueNow, types', services', start,
    foldl_some (wantedType b now) (fun due w => if due.length < maxAsked then share due w else due),
    foldl_some (wantedService b now) (fun due w => if due.length < maxAsked then share due w else due),
    ← List.foldl_append, ← List.foldl_append, ← List.append_assoc, ← show waiting b now =
      _ from rfl, capped _ [] (Nat.zero_le _)]
  rfl

/-! ## What is sent -/

theorem putQuestions_fit (qs : List MdnsQuestion) :
    ∀ (g : Msg) (n : Nat), (∀ q ∈ qs, QuestionOk q) → g.full = false →
    g.buf.length ≤ dnsMax → ∃ k ≤ qs.length, (putQuestions qs g n).2 = n + k ∧
      (putQuestions qs g n).1.buf = g.buf ++ (qs.take k).flatMap questionBytes ∧
      ∀ j ≤ qs.length, j ≤ k ↔ g.buf.length + ((qs.take j).flatMap questionBytes).length ≤ dnsMax := by
  induction qs with
  | nil =>
      intro g n _ _ small
      refine ⟨0, Nat.le_refl _, rfl, by simp [putQuestions], ?_⟩
      rintro j none_
      rw [Nat.le_zero.mp none_]
      simpa using small
  | cons q rest ih =>
      intro g n ok room small
      have put : put16 (put16 (putName g q.name) q.type) classIn = puts g (questionBytes q) := by
        simp only [put16, putName, questionBytes, puts_append]
      have short : ¬wireLen q.name > nameMax := Nat.not_lt.mpr (Nat.le_of_lt (ok q List.mem_cons_self).short)
      simp only [putQuestions, put, puts_eq _ g small, room, Bool.false_or]
      rw [if_neg short]
      by_cases full : dnsMax < g.buf.length + (questionBytes q).length
      · simp only [full, decide_true, if_true, List.take_left]
        refine ⟨0, Nat.zero_le _, rfl, by simp, ?_⟩
        rintro (_ | j) inside
        · simpa using small
        · rw [List.take_succ_cons, List.flatMap_cons, List.length_append]
          omega
      · have whole : (questionBytes q).take (dnsMax - g.buf.length) = questionBytes q :=
          List.take_of_length_le (by omega)
        simp only [full, decide_false, Bool.false_eq_true, if_false, whole]
        obtain ⟨k, few, count, buf, fit⟩ :=
          ih { g with buf := g.buf ++ questionBytes q, full := false } (n + 1)
          (fun q member => ok q (List.mem_cons_of_mem _ member)) rfl (by
            simp only [List.length_append]; omega)
        refine ⟨k + 1, Nat.succ_le_succ few, by omega, ?_, ?_⟩
        · rw [buf, List.take_succ_cons, List.flatMap_cons, List.append_assoc]
        · rintro (_ | j) inside
          · simpa using small
          · have later := fit j (Nat.le_of_succ_le_succ inside)
            rw [List.length_append] at later
            rw [Nat.succ_le_succ_iff, later, List.take_succ_cons, List.flatMap_cons,
              List.length_append, Nat.add_assoc]

/-- A query with room for `k` of its questions. -/
structure Sent (m : Mdns) (qs : List MdnsQuestion) (k : Nat) : Prop where
  few : k ≤ qs.length
  some_ : 0 < k
  fitted : (mdnsQuery m qs).2 = k
  whole : (mdnsQuery m qs).1.2.drop hdrLen = message 0 0 k 0 0 0 ((qs.take k).flatMap questionBytes)
  short : (mdnsQuery m qs).1.2.length ≤ frameMax
  fit : ∀ j ≤ qs.length, j ≤ k ↔ 12 + ((qs.take j).flatMap questionBytes).length ≤ dnsMax

theorem mdnsQuery_sent {m : Mdns} (live : m.ip ≠ noIp) {qs : List MdnsQuestion} (ok : ∀ q ∈ qs, QuestionOk q)
    (some_ : qs ≠ []) : ∃ k, Sent m qs k := by
  have begun : ({ beginMessage 0 with buf := wr16 (beginMessage 0).buf 2 0 } : Msg) =
      { beginMessage 0 with buf := message 0 0 0 0 0 0 [] } := rfl
  obtain ⟨k, few, count, buf, fit⟩ :=
    putQuestions_fit qs { beginMessage 0 with buf := message 0 0 0 0 0 0 [] } 0 ok rfl
    (by decide)
  rw [message_append, List.nil_append] at buf
  rw [Nat.zero_add] at count
  dsimp only at fit
  rw [message_length, List.length_nil, Nat.add_zero] at fit
  -- a name is short: the first question fits always
  have positive : 0 < k := by
    obtain ⟨q, rest, rfl⟩ := List.exists_cons_of_ne_nil some_
    refine (fit 1 (by simp)).mpr ?_
    have short := (ok q List.mem_cons_self).short
    simp only [nameMax] at short
    simp only [List.take_succ_cons, List.take_zero, List.flatMap_cons, List.flatMap_nil, List.append_nil,
      questionBytes_length, dnsMax, frameMax, hdrLen]
    omega
  have small := (fit k few).mp (Nat.le_refl k)
  have query : mdnsQuery m qs =
    (wrap m { (putQuestions qs { beginMessage 0 with buf := message 0 0 0 0 0 0 [] } 0).1 with
      buf := wr16 (message 0 0 0 0 0 0
        ((qs.take k).flatMap questionBytes)) 4 k } groupMac groupIp mdnsPort, k) := by
    simp only [mdnsQuery, begun, count, if_neg live, if_neg (Nat.ne_of_gt positive), buf]
  have length : (wrap m { (putQuestions qs { beginMessage 0 with buf := message 0 0 0 0 0 0 [] } 0).1 with
      buf := wr16 (message 0 0 0 0 0 0
        ((qs.take k).flatMap questionBytes)) 4 k } groupMac groupIp mdnsPort).2.length =
      hdrLen + (message 0 0 k 0 0 0 ((qs.take k).flatMap questionBytes)).length := by
    rw [message_questions]
    simp only [wrap, groupMac, groupIp, ipHeader, udpHeader, List.length_append, m.macSix, m.ipFour,
      be16_length,
      List.length_cons, List.length_nil, hdrLen]
  refine ⟨k, few, positive, by rw [query], ?_, ?_, fit⟩
  · rw [query, wrap_message, message_questions]
  · rw [query, length, message_length]
    simp only [dnsMax, frameMax, hdrLen] at small ⊢
    omega

/-! ## What is marked -/

/-- The entry that a question stands for. -/
def place : Kind → Nat × Nat
  | .meta_ => (0, 0)
  | .type t => (1, t)
  | .srv i | .a i => (2, i)

/-- A service when the questions of these places went out. -/
def markedService (now : Nat) (places : List (Nat × Nat)) (i : Nat) (s : BrowseService) : BrowseService :=
  let s := if (1, s.type) ∈ places then markRefreshes now s.type s else s
  if (2, i) ∈ places then markAsks now s else s

/-- What marking does to a cache, entry by entry. -/
structure Marked (now : Nat) (places : List (Nat × Nat)) (b b' : Browse) : Prop where
  metaAt : b'.metaAt = if (0, 0) ∈ places then now + b.metaInterval else b.metaAt
  metaInterval : b'.metaInterval = if (0, 0) ∈ places then doubled b.metaInterval else b.metaInterval
  types : ∀ t : Nat, b'.types[t]? = (b.types[t]?).map fun ty => if (1, t) ∈ places
    then markType now ty else ty
  services : ∀ i : Nat, b'.services[i]? = (b.services[i]?).map (markedService now places i)
  hosts : b'.hosts = b.hosts

section Marks
variable {now : Nat}

theorem markRefreshes_other {t : Nat} {s : BrowseService} (other : s.type ≠ t) :
    markRefreshes now t s = s := if_pos other

theorem markRefreshes_type (t : Nat) (s : BrowseService) : (markRefreshes now t s).type = s.type := by
  unfold markRefreshes
  split <;> rfl

theorem marks_apart (t : Nat) (s : BrowseService) :
    markRefreshes now t (markAsks now s) = markAsks now (markRefreshes now t s) := by
  unfold markRefreshes
  by_cases other : s.type ≠ t
  · rw [if_pos other, if_pos (show (markAsks now s).type ≠ t from other)]
  · rw [if_neg other, if_neg (show ¬(markAsks now s).type ≠ t from other)]
    rfl

theorem markedService_other {place : Nat × Nat} {places : List (Nat × Nat)} {i : Nat} {s : BrowseService}
    (notType : place ≠ (1, s.type)) (notService : place ≠ (2, i)) :
    markedService now (place :: places) i s = markedService now places i s := by
  simp only [markedService, List.mem_cons, Ne.symm notType, Ne.symm notService, false_or]

theorem marks (kinds : List Kind) : ∀ b : Browse, (kinds.map place).Nodup →
    Marked now (kinds.map place) b (kinds.foldl (mark now) b) := by
  induction kinds with
  | nil =>
      intro b _
      refine ⟨rfl, rfl, fun t => ?_, fun i => ?_, rfl⟩
      · simp
      · have same_ : markedService now [] i = id := by
          funext s
          simp [markedService]
        rw [List.map_nil, same_, Option.map_id]
        rfl
  | cons kind rest ih =>
      intro b nodup
      rw [List.map_cons, List.nodup_cons] at nodup
      obtain ⟨new, later⟩ := nodup
      obtain ⟨metaAt, metaInterval, types, services, hosts⟩ := ih (mark now b kind) later
      rw [List.foldl_cons, List.map_cons]
      generalize rest.map place = places at *
      cases kind with
      | meta_ =>
          simp only [place] at new ⊢
          simp only [new, if_false] at metaAt metaInterval
          refine ⟨metaAt.trans (by simp [mark]), metaInterval.trans (by simp [mark]), fun t =>
            ?_, fun i => ?_, hosts⟩
          · rw [types]
            simp [mark]
          · rw [services]
            exact Option.map_congr fun s _ => (markedService_other (by simp) (by simp)).symm
      | type t =>
          simp only [place] at new ⊢
          refine ⟨metaAt.trans (by simp [mark]), metaInterval.trans (by simp [mark]), fun u =>
            ?_, fun i => ?_, hosts⟩
          · rw [types]
            by_cases same_ : t = u
            · subst same_
              simp only [mark, List.getElem?_modify, if_true, new, if_false, List.mem_cons, true_or]
              cases b.types[t]? <;> rfl
            · simp [mark, same_, Ne.symm same_]
          · rw [services]
            simp only [mark, List.getElem?_map, Option.map_map]
            congr 1
            funext s
            simp only [Function.comp, markedService, markRefreshes_type, List.mem_cons, Prod.mk.injEq]
            by_cases same_ : s.type = t
            · subst same_
              simp [new]
            · simp [same_, markRefreshes_other same_]
      | srv j | a j =>
          simp only [place] at new ⊢
          refine ⟨metaAt.trans (by simp [mark]), metaInterval.trans (by simp [mark]), fun t =>
            ?_, fun i => ?_, hosts⟩
          · rw [types]
            simp [mark]
          · rw [services]
            by_cases same_ : j = i
            · subst same_
              simp only [mark, List.getElem?_modify, if_true, Option.map_eq_map, Option.map_map]
              congr 1
              funext s
              simp only [Function.comp, markedService, new, if_false, List.mem_cons, Prod.mk.injEq,
                true_or, if_true]
              by_cases type : (1, s.type) ∈ places
              · rw [if_pos (show (1, (markAsks now s).type) ∈ places from type), if_pos (.inr type)]
                exact marks_apart _ s
              · rw [if_neg (show ¬(1, (markAsks now s).type) ∈ places from type), if_neg]
                simp [type]
            · simp only [mark, List.getElem?_modify, if_neg same_, id_map']
              exact Option.map_congr fun s _ => (markedService_other (by simp) (by simpa using same_)).symm

end Marks

/-! ## Who is marked -/

section Places
variable {b : Browse} {now : Nat}

theorem places_nodup (b : Browse) (now : Nat) : ((waiting b now).map fun w => place w.kind).Nodup := by
  have indices : ∀ {α : Type} (l : List α), l.zipIdx.Pairwise fun e f => e.2 ≠ f.2 := by
    intro α l
    have nodup : (l.zipIdx.map Prod.snd).Nodup := by
      rw [List.zipIdx_map_snd]
      exact List.nodup_range'
    exact List.pairwise_map.mp nodup
  have typePlace : ∀ {e w}, wantedType b now e = some w → place w.kind = (1, e.2) := by
    intro e w is
    unfold wantedType at is
    split at is
    · cases is
      rfl
    · cases is
  have servicePlace : ∀ {e w}, wantedService b now e = some w → place w.kind = (2, e.2) := by
    intro e w is
    obtain ⟨q, -, rfl⟩ := Option.map_eq_some_iff.mp is
    unfold serviceKind
    split <;> rfl
  have metaPlace : ∀ w ∈ wantedMeta b now, place w.kind = (0, 0) := by
    unfold wantedMeta
    split
    · rintro w member
      obtain rfl := List.mem_singleton.mp member
      rfl
    · rintro _ ⟨⟩
  rw [waiting, List.map_append, List.map_append, List.nodup_append, List.nodup_append]
  refine ⟨⟨?_, ?_, ?_⟩, ?_, ?_⟩
  · unfold wantedMeta
    split
    · exact List.nodup_singleton _
    · exact List.nodup_nil
  · refine List.pairwise_map.mpr (List.pairwise_filterMap.mpr ((indices b.types).imp ?_))
    intro e f apart w is v is' same_
    rw [typePlace is, typePlace is'] at same_
    exact apart (Prod.mk.inj same_).2
  · rintro p here q there rfl
    obtain ⟨w, member, rfl⟩ := List.mem_map.mp here
    obtain ⟨v, member', same_⟩ := List.mem_map.mp there
    obtain ⟨e, -, is⟩ := List.mem_filterMap.mp member'
    rw [metaPlace w member, typePlace is] at same_
    cases same_
  · refine List.pairwise_map.mpr (List.pairwise_filterMap.mpr ((indices b.services).imp ?_))
    intro e f apart w is v is' same_
    rw [servicePlace is, servicePlace is'] at same_
    exact apart (Prod.mk.inj same_).2
  · rintro p here q there rfl
    obtain ⟨v, member', same_⟩ := List.mem_map.mp there
    obtain ⟨e, -, is⟩ := List.mem_filterMap.mp member'
    rw [servicePlace is] at same_
    rcases List.mem_append.mp here with first | second
    · obtain ⟨w, member, rfl⟩ := List.mem_map.mp first
      rw [metaPlace w member] at same_
      cases same_
    · obtain ⟨w, member, rfl⟩ := List.mem_map.mp second
      obtain ⟨f, -, is'⟩ := List.mem_filterMap.mp member
      rw [typePlace is'] at same_
      cases same_

theorem takeWhile_filter {α : Type} {p : α → Bool} {l : List α}
    (down : l.Pairwise fun x y => p y = true → p x = true) :
    l.takeWhile p = l.filter p := by
  induction l with
  | nil => rfl
  | cons x rest ih =>
      rw [List.pairwise_cons] at down
      cases is : p x with
      | true => rw [List.takeWhile_cons_of_pos is, List.filter_cons_of_pos is, ih down.2]
      | false =>
          have none_ : rest.filter p = [] := by
            apply List.filter_eq_nil_iff.mpr
            intro y there set
            rw [down.1 y there set] at is
            cases is
          rw [List.takeWhile_cons_of_neg (by simp [is]), List.filter_cons_of_neg (by simp [is]), none_]

/-- Those of the first `maxAsked` that have room, and everything before them too. -/
def Goes (b : Browse) (now : Nat) (w : Wanted) : Prop :=
  ∃ i < maxAsked, (waiting b now)[i]? = some w ∧ Room ((waiting b now).take (i + 1))

theorem sent_room {m : Mdns} {ws : List Wanted} {k : Nat} (sent_ : Sent m (asks ws) k) (i : Nat) :
    sentOf (shared ws) i ≤ k ↔ Room (ws.take (i + 1)) := by
  have reach : sentOf (shared ws) i = (asks (ws.take (i + 1))).length := by
    rw [sentOf, asks, shared_take]
  have first := asks_prefix ws (i + 1)
  rw [reach, sent_.fit _ first.length_le, Room, ← List.prefix_iff_eq_take.mp first]

/-- What is marked when `k` questions fit, and its places. -/
def wentKinds (ws : List Wanted) (k : Nat) : List Kind :=
  ((shared ws).zipIdx.takeWhile fun e => decide (sentOf (shared ws) e.2 ≤ k)).map fun e => e.1.kind

def wentPlaces (ws : List Wanted) (k : Nat) : List (Nat × Nat) := (wentKinds ws k).map place

theorem wentPlaces_nodup (k : Nat) : (wentPlaces ((waiting b now).take maxAsked) k).Nodup := by
  have all : ((shared ((waiting b now).take maxAsked)).map fun d => place d.kind) =
      ((waiting b now).map fun w => place w.kind).take maxAsked := by
    have kinds := congrArg (List.map place) (shared_kinds ((waiting b now).take maxAsked))
    rw [List.map_map, List.map_map, List.map_take] at kinds
    exact kinds
  have whole : ((shared ((waiting b now).take maxAsked)).map fun d => place d.kind).Nodup := by
    rw [all]
    exact (places_nodup b now).sublist (List.take_sublist _ _)
  rw [wentPlaces, wentKinds, List.map_map]
  have part := ((List.takeWhile_sublist
    (p := fun e : Due × Nat => decide (sentOf (shared ((waiting b now).take maxAsked))
    e.2 ≤ k)) (l := (shared ((waiting b now).take maxAsked)).zipIdx)).map Prod.fst).map fun d => place d.kind
  rw [List.zipIdx_map_fst, List.map_map] at part
  exact whole.sublist part

theorem mem_wentPlaces {m : Mdns} {k : Nat}
    (sent_ : Sent m (asks ((waiting b now).take maxAsked)) k) (p : Nat × Nat) :
    p ∈ wentPlaces ((waiting b now).take maxAsked) k ↔ ∃ w, Goes b now w ∧ place w.kind = p := by
  have down : (shared ((waiting b now).take maxAsked)).zipIdx.Pairwise fun e f =>
      decide (sentOf (shared ((waiting b now).take maxAsked)) f.2 ≤ k) = true →
      decide (sentOf (shared ((waiting b now).take maxAsked)) e.2 ≤ k) = true := by
    have order : (shared ((waiting b now).take maxAsked)).zipIdx.Pairwise fun e f => e.2 < f.2 := by
      have sorted : ((shared ((waiting b now).take maxAsked)).zipIdx.map Prod.snd).Pairwise (· < ·) := by
        rw [List.zipIdx_map_snd]
        exact List.pairwise_lt_range'
      exact List.pairwise_map.mp sorted
    refine order.imp fun {e f} before => ?_
    simp only [decide_eq_true_eq]
    refine Nat.le_trans ?_
    have shorter := ((List.take_prefix_take_left (l := shared ((waiting b now).take maxAsked))
      (Nat.succ_le_succ (Nat.le_of_lt before))).filterMap Due.question).length_le
    exact shorter
  have kinds := shared_kinds ((waiting b now).take maxAsked)
  have at_ : ∀ i : Nat, (((shared ((waiting b now).take maxAsked))[i]?).map Due.kind) =
      (((waiting b now).take maxAsked)[i]?).map Wanted.kind := by
    intro i
    rw [← List.getElem?_map, kinds, List.getElem?_map]
  rw [wentPlaces, wentKinds, takeWhile_filter down, List.map_map]
  simp only [List.mem_map, List.mem_filter, decide_eq_true_eq, Function.comp, sent_room sent_, Prod.exists,
    List.mem_zipIdx_iff_getElem?]
  constructor
  · rintro ⟨d, i, ⟨there, room⟩, rfl⟩
    have same_ := at_ i
    rw [there, Option.map_some] at same_
    obtain ⟨w, is, kind⟩ := Option.map_eq_some_iff.mp same_.symm
    have inside : i < maxAsked := by
      have := (List.getElem?_eq_some_iff.mp is).1
      rw [List.length_take] at this
      omega
    rw [List.getElem?_take_of_lt inside] at is
    rw [List.take_take, Nat.min_eq_left inside] at room
    exact ⟨w, ⟨i, inside, is, room⟩, congrArg place kind⟩
  · rintro ⟨w, ⟨i, inside, is, room⟩, rfl⟩
    have same_ := at_ i
    rw [List.getElem?_take_of_lt inside, is, Option.map_some] at same_
    obtain ⟨d, there, kind⟩ := Option.map_eq_some_iff.mp same_
    refine ⟨d, i, ⟨there, ?_⟩, congrArg place kind⟩
    rw [List.take_take, Nat.min_eq_left inside]
    exact room

end Places

/-! ## The frame and the cache afterwards -/

/-- Whether a frame asks a question, ASCII case aside. -/
def asksIn (frame : Bytes) (q : MdnsQuestion) : Bool :=
  (questionsIn frame).any fun a => a.type == q.type && nameEq a.name q.name

/-- An entry is further on exactly when its question, or the one question for its target, is in the frame. -/
structure Booked (b b' : Browse) (now : Nat) (frame : Bytes) : Prop where
  metaAt : b'.metaAt = if asksIn frame ⟨metaName, typePtr⟩ then now + b.metaInterval else b.metaAt
  metaInterval : b'.metaInterval = if asksIn frame ⟨metaName, typePtr⟩ then doubled b.metaInterval
    else b.metaInterval
  types : ∀ t : Nat, b'.types[t]? =
    (b.types[t]?).map fun ty => if asksIn frame ⟨ty.wire, typePtr⟩ then markType now ty else ty
  services : ∀ i : Nat, b'.services[i]? = (b.services[i]?).map fun s =>
    let s' := if asksIn frame ⟨typeWire b s.type, typePtr⟩ then markRefreshes now s.type s else s
    if (waitsFor b now s).any (asksIn frame) then markAsks now s' else s'

/-- Where one who waits for an address has its question in the frame, its own place is in the frame too. -/
def Together (b : Browse) (now : Nat) : Prop :=
  ∀ w ∈ waiting b now, w.question.type = typeA →
    (∃ v, Goes b now v ∧ v.question.type = typeA ∧ nameEq v.question.name w.question.name = true) →
      Goes b now w

section Frames
variable {b : Browse} {m : Mdns} {now : Nat}

theorem mem_waiting {w : Wanted} : w ∈ waiting b now ↔ (now ≥ b.metaAt ∧ w = ⟨⟨metaName, typePtr⟩, .meta_⟩) ∨
    (∃ t ty, b.types[t]? = some ty ∧ (now ≥ ty.askAt ∨ refreshing b now t = true) ∧
      w = ⟨⟨ty.wire, typePtr⟩, .type t⟩) ∨
    ∃ i s q, b.services[i]? = some s ∧ waitsFor b now s = some q ∧ w = ⟨q, serviceKind q i⟩ := by
  have first : w ∈ wantedMeta b now ↔ now ≥ b.metaAt ∧ w = ⟨⟨metaName, typePtr⟩, .meta_⟩ := by
    unfold wantedMeta
    by_cases due : now ≥ b.metaAt
    · simp [due]
    · simp [due]
  have second : w ∈ b.types.zipIdx.filterMap (wantedType b now) ↔ ∃ t ty, b.types[t]? = some ty ∧
      (now ≥ ty.askAt ∨ refreshing b now t = true) ∧ w = ⟨⟨ty.wire, typePtr⟩, .type t⟩ := by
    rw [List.mem_filterMap]
    constructor
    · rintro ⟨⟨ty, t⟩, there, is⟩
      unfold wantedType at is
      split at is
      · next due => exact ⟨t, ty, List.mem_zipIdx_iff_getElem?.mp there, due, (Option.some.inj is).symm⟩
      · cases is
    · rintro ⟨t, ty, at_, due, rfl⟩
      exact ⟨(ty, t), List.mem_zipIdx_iff_getElem?.mpr at_, if_pos due⟩
  have third : w ∈ b.services.zipIdx.filterMap (wantedService b now) ↔ ∃ i s q, b.services[i]? = some s ∧
      waitsFor b now s = some q ∧ w = ⟨q, serviceKind q i⟩ := by
    rw [List.mem_filterMap]
    constructor
    · rintro ⟨⟨s, i⟩, there, is⟩
      obtain ⟨q, waits, rfl⟩ := Option.map_eq_some_iff.mp is
      exact ⟨i, s, q, List.mem_zipIdx_iff_getElem?.mp there, waits, rfl⟩
    · rintro ⟨i, s, q, at_, waits, rfl⟩
      exact ⟨(s, i), List.mem_zipIdx_iff_getElem?.mpr at_, by rw [wantedService, waits]; rfl⟩
  rw [waiting, List.mem_append, List.mem_append, first, second, third, or_assoc]

theorem waitsFor_cases {s : BrowseService} {q : MdnsQuestion} (waits : waitsFor b now s = some q) :
    q = ⟨serviceWire b s, typeSrv⟩ ∨ q = ⟨s.target, typeA⟩ := by
  unfold waitsFor at waits
  split at waits
  · cases waits
  · split at waits
    · exact .inl (Option.some.inj waits).symm
    · split at waits
      · exact .inr (Option.some.inj waits).symm
      · cases waits

theorem asks_ok (sound : Sound b) (now : Nat) : ∀ q ∈ asks ((waiting b now).take maxAsked), QuestionOk q := by
  intro q member
  obtain ⟨d, there, is⟩ := List.mem_filterMap.mp member
  rw [← dueNow_shared] at there
  exact dueNow_ok sound now d there q is

theorem waiting_short (sound : Sound b) {w : Wanted} (there : w ∈ waiting b now)
    (type : w.question.type = typeA) :
    wireLen w.question.name ≤ targetMax := by
  rcases mem_waiting.mp there with ⟨-, rfl⟩ | ⟨t, ty, -, -, rfl⟩ | ⟨i, s, q, at_, waits, rfl⟩
  · cases type
  · cases type
  · rcases waitsFor_cases waits with rfl | rfl
    · cases type
    · exact (sound.services s (List.mem_of_getElem? at_)).short

theorem browseQuery_sent (sound : Sound b) (live : m.ip ≠ noIp) (now : Nat) :
    (waiting b now = [] ∧ browseQuery b m now = (b, m, [])) ∨
      ∃ k, Sent m (asks ((waiting b now).take maxAsked)) k ∧
      (browseQuery b m now).2 = (mdnsQuery m (asks ((waiting b now).take maxAsked))).1 ∧
      Marked now (wentPlaces ((waiting b now).take maxAsked) k) b (browseQuery b m now).1 := by
  by_cases none_ : waiting b now = []
  · refine .inl ⟨none_, ?_⟩
    have due : dueNow b now = [] := by
      rw [dueNow_shared, none_]
      rfl
    simp only [browseQuery, due, List.filterMap_nil]
    rw [if_neg live]
    rfl
  · have some_ : asks ((waiting b now).take maxAsked) ≠ [] := by
      obtain ⟨w, rest, is⟩ := List.exists_cons_of_ne_nil none_
      obtain ⟨q, member, -⟩ :=
        asks_covers ((waiting b now).take maxAsked) (w := w) (by rw [is]; exact List.mem_cons_self)
      exact List.ne_nil_of_mem member
    obtain ⟨k, sent_⟩ := mdnsQuery_sent live (asks_ok sound now) some_
    have frame : (mdnsQuery m (asks ((waiting b now).take maxAsked))).1.2 ≠ [] := by
      intro nothing
      have whole := sent_.whole
      rw [nothing] at whole
      cases whole
    have fitted := sent_.fitted
    refine .inr ⟨k, sent_, ?_⟩
    have questions : (shared ((waiting b now).take maxAsked)).filterMap Due.question =
        asks ((waiting b now).take maxAsked) :=
      rfl
    have outcome : browseQuery b m now = ((wentKinds ((waiting b now).take maxAsked) k).foldl (mark now) b,
        (mdnsQuery m (asks ((waiting b now).take maxAsked))).1) := by
      simp only [browseQuery]
      rw [if_neg live, dueNow_shared, questions, if_neg some_, if_neg frame, fitted]
      rfl
    rw [outcome]
    exact ⟨rfl, marks _ b (wentPlaces_nodup k)⟩

theorem sent_questions {qs : List MdnsQuestion} {k : Nat} (ok : ∀ q ∈ qs, QuestionOk q)
    (sent_ : Sent m qs k) :
    questionsIn (mdnsQuery m qs).1.2 = (qs.take k).map asked ∧
      rd16 ((mdnsQuery m qs).1.2.drop hdrLen) 4 = k := by
  have small := (sent_.fit k sent_.few).mp (Nat.le_refl k)
  have few := questions_few (qs.take k)
  rw [List.length_take, Nat.min_eq_left sent_.few] at few
  simp only [dnsMax, frameMax, hdrLen] at small
  obtain ⟨-, count, -⟩ :=
    message_reads 0 0 k 0 0 0 ((qs.take k).flatMap questionBytes) (by omega) (by decide) (by decide)
  have read := readQuestions_stands (qs.take k) (fun q member => ok q (List.mem_of_mem_take member))
    (message_body 0 0 k 0 0 0 _ (List.prefix_refl _))
  rw [List.length_take, Nat.min_eq_left sent_.few] at read
  rw [questionsIn, sent_.whole, count, read]
  exact ⟨rfl, rfl⟩

theorem asksIn_goes (sound : Sound b) {k : Nat} (sent_ : Sent m (asks ((waiting b now).take maxAsked)) k)
    (q : MdnsQuestion) : asksIn (mdnsQuery m (asks ((waiting b now).take maxAsked))).1.2 q = true ↔
      ∃ w, Goes b now w ∧ w.question.type = q.type ∧ nameEq w.question.name q.name = true := by
  rw [asksIn, (sent_questions (asks_ok sound now) sent_).1, List.any_map, List.any_eq_true]
  simp only [Function.comp, asked, Bool.and_eq_true, beq_iff_eq]
  constructor
  · rintro ⟨p, member, type, alike⟩
    obtain ⟨n, small, rfl⟩ := List.mem_take_iff_getElem.mp member
    obtain ⟨i, w, at_, question, length⟩ := asks_place ((waiting b now).take maxAsked) n (by omega)
    rw [List.getElem?_eq_getElem (by omega), Option.some.injEq] at question
    have inside : i < maxAsked := by
      have := (List.getElem?_eq_some_iff.mp at_).1
      rw [List.length_take] at this
      omega
    have room := (sent_room sent_ i).mp (by rw [sentOf, ← shared_take, ← asks, length]; omega)
    rw [List.take_take, Nat.min_eq_left inside] at room
    rw [List.getElem?_take_of_lt inside] at at_
    rw [question] at type alike
    exact ⟨w, ⟨i, inside, at_, room⟩, type, alike⟩
  · rintro ⟨w, ⟨i, inside, at_, room⟩, type, alike⟩
    have there : w ∈ (waiting b now).take (i + 1) :=
      List.mem_of_getElem? ((List.getElem?_take_of_lt (Nat.lt_succ_self i)).trans at_)
    obtain ⟨p, member, type', alike'⟩ := asks_covers _ there
    have first := asks_prefix ((waiting b now).take maxAsked) (i + 1)
    rw [List.take_take, Nat.min_eq_left inside] at first
    have reach : (asks ((waiting b now).take (i + 1))).length ≤ k := by
      rw [sent_.fit _ first.length_le, ← List.prefix_iff_eq_take.mp first]
      exact room
    refine ⟨p, ?_, type'.trans type, ?_⟩
    · rw [List.prefix_iff_eq_take.mp first] at member
      exact (List.take_subset_take_left _ reach) member
    · rw [nameEq, beq_iff_eq] at alike alike' ⊢
      exact alike'.trans alike

/-! ## Whose question it is -/

theorem one_place {α : Type} {R : α → α → Prop} (symm_ : ∀ {x y}, R x y → R y x) {l : List α}
    (apart : l.Pairwise R)
    {i j : Nat} {x y : α} (at_ : l[i]? = some x) (at' : l[j]? = some y) (alike : ¬R x y) : i = j := by
  obtain ⟨inside, rfl⟩ := List.getElem?_eq_some_iff.mp at_
  obtain ⟨inside', rfl⟩ := List.getElem?_eq_some_iff.mp at'
  rcases Nat.lt_trichotomy i j with before | same_ | after
  · exact absurd (List.pairwise_iff_getElem.mp apart i j inside inside' before) alike
  · exact same_
  · exact absurd (symm_ (List.pairwise_iff_getElem.mp apart j i inside' inside after)) alike

theorem wire_alike {ty ty' : BrowseType} (alike : nameEq ty.wire ty'.wire = true) :
    ty.udp = ty'.udp ∧ same ty.name ty'.name = true := by
  rw [nameEq, beq_iff_eq] at alike
  simp only [folded, BrowseType.wire, List.map_cons, List.cons.injEq] at alike
  refine ⟨?_, same_iff.mpr alike.1⟩
  have proto := alike.2.1
  cases udp : ty.udp <;> cases udp' : ty'.udp
  · rfl
  · rw [udp, udp'] at proto
    exact absurd proto (by decide)
  · rw [udp, udp'] at proto
    exact absurd proto (by decide)
  · rfl

theorem type_place (sound : Sound b) {t u : Nat} {ty ty' : BrowseType} (at_ : b.types[t]? = some ty)
    (at' : b.types[u]? = some ty') (alike : nameEq ty.wire ty'.wire = true) : t = u := by
  obtain ⟨udp, name⟩ := wire_alike alike
  refine one_place apart_symm sound.typesApart (x := typeKey ty) (y := typeKey ty') ?_ ?_ fun apart =>
    apart ⟨udp, name⟩
  · rw [List.getElem?_map, at_, Option.map_some]
  · rw [List.getElem?_map, at', Option.map_some]

theorem type_known (sound : Sound b) {s : BrowseService} (there : s ∈ b.services) :
    ∃ ty, b.types[s.type]? = some ty ∧ typeWire b s.type = ty.wire := by
  have inside := (sound.services s there).type
  refine ⟨b.types[s.type], List.getElem?_eq_getElem inside, ?_⟩
  rw [typeWire, List.getElem?_eq_getElem inside, Option.elim_some]

theorem service_place (sound : Sound b) {i j : Nat} {s s' : BrowseService} (at_ : b.services[i]? = some s)
    (at' : b.services[j]? = some s') (alike : nameEq (serviceWire b s) (serviceWire b s') = true) :
    i = j := by
  obtain ⟨ty, known, wire_⟩ := type_known sound (List.mem_of_getElem? at_)
  obtain ⟨ty', known', wire'⟩ := type_known sound (List.mem_of_getElem? at')
  rw [serviceWire, serviceWire, wire_, wire', nameEq, beq_iff_eq, folded, folded, List.map_cons,
    List.map_cons,
    List.cons.injEq] at alike
  have type : s.type = s'.type := type_place sound known known' (beq_iff_eq.mpr alike.2)
  refine one_place apart_symm sound.servicesApart (x := serviceKey s) (y := serviceKey s') ?_ ?_
    fun apart => apart ⟨type, same_iff.mpr alike.1⟩
  · rw [List.getElem?_map, at_, Option.map_some]
  · rw [List.getElem?_map, at', Option.map_some]

theorem goes_waiting {w : Wanted} (goes : Goes b now w) : w ∈ waiting b now := by
  obtain ⟨i, -, at_, -⟩ := goes
  exact List.mem_of_getElem? at_

theorem place_serviceKind (q : MdnsQuestion) (i : Nat) : place (serviceKind q i) = (2, i) := by
  unfold serviceKind
  split <;> rfl

theorem meta_goes : (∃ w, Goes b now w ∧ w.question.type = typePtr ∧ nameEq w.question.name metaName = true) ↔
    ∃ w, Goes b now w ∧ place w.kind = (0, 0) := by
  constructor
  · rintro ⟨w, goes, type, alike⟩
    rcases mem_waiting.mp (goes_waiting goes) with ⟨-, rfl⟩ | ⟨t, ty, -, -, rfl⟩ | ⟨i, s, q, -, waits, rfl⟩
    · exact ⟨_, goes, rfl⟩
    · have length := congrArg List.length (beq_iff_eq.mp alike)
      simp [folded, BrowseType.wire, metaName] at length
    · rcases waitsFor_cases waits with rfl | rfl <;> cases type
  · rintro ⟨w, goes, is⟩
    rcases mem_waiting.mp (goes_waiting goes) with ⟨-, rfl⟩ | ⟨t, ty, -, -, rfl⟩ | ⟨i, s, q, -, -, rfl⟩
    · exact ⟨_, goes, rfl, by simp [nameEq]⟩
    · cases is
    · rw [place_serviceKind] at is
      cases is

theorem type_goes (sound : Sound b) {t : Nat} {ty : BrowseType} (at_ : b.types[t]? = some ty) :
    (∃ w, Goes b now w ∧ w.question.type = typePtr ∧ nameEq w.question.name ty.wire = true) ↔
      ∃ w, Goes b now w ∧ place w.kind = (1, t) := by
  constructor
  · rintro ⟨w, goes, type, alike⟩
    rcases mem_waiting.mp (goes_waiting goes) with ⟨-, rfl⟩ | ⟨u, ty', at', -, rfl⟩ | ⟨i, s, q, -, waits, rfl⟩
    · have length := congrArg List.length (beq_iff_eq.mp alike)
      simp [folded, BrowseType.wire, metaName] at length
    · obtain rfl := type_place sound at' at_ alike
      exact ⟨_, goes, rfl⟩
    · rcases waitsFor_cases waits with rfl | rfl <;> cases type
  · rintro ⟨w, goes, is⟩
    rcases mem_waiting.mp (goes_waiting goes) with ⟨-, rfl⟩ | ⟨u, ty', at', -, rfl⟩ | ⟨i, s, q, -, -, rfl⟩
    · cases is
    · obtain rfl : u = t := (Prod.mk.inj is).2
      cases at_.symm.trans at'
      exact ⟨_, goes, rfl, by simp [nameEq]⟩
    · rw [place_serviceKind] at is
      cases is

theorem service_goes {i : Nat} {s : BrowseService} (at_ : b.services[i]? = some s) :
    (∃ w, Goes b now w ∧ place w.kind = (2, i)) ↔
      ∃ q, waitsFor b now s = some q ∧ Goes b now ⟨q, serviceKind q i⟩ := by
  constructor
  · rintro ⟨w, goes, is⟩
    rcases mem_waiting.mp (goes_waiting goes) with ⟨-, rfl⟩ | ⟨t, ty, -, -, rfl⟩ | ⟨j, s', q, at', waits, rfl⟩
    · cases is
    · cases is
    · rw [place_serviceKind] at is
      obtain rfl : j = i := (Prod.mk.inj is).2
      cases at_.symm.trans at'
      exact ⟨q, waits, goes⟩
  · rintro ⟨q, -, goes⟩
    exact ⟨_, goes, place_serviceKind q i⟩

theorem srv_goes (sound : Sound b) {i : Nat} {s : BrowseService} (at_ : b.services[i]? = some s) :
    (∃ w, Goes b now w ∧ w.question.type = typeSrv ∧ nameEq w.question.name (serviceWire b s) = true) ↔
      Goes b now ⟨⟨serviceWire b s, typeSrv⟩, .srv i⟩ := by
  constructor
  · rintro ⟨w, goes, type, alike⟩
    rcases mem_waiting.mp (goes_waiting goes) with ⟨-, rfl⟩ | ⟨t, ty, -, -, rfl⟩ |
      ⟨j, s', q, at', waits', rfl⟩
    · cases type
    · cases type
    · rcases waitsFor_cases waits' with rfl | rfl
      · obtain rfl := service_place sound at' at_ alike
        cases at_.symm.trans at'
        exact goes
      · cases type
  · intro goes
    exact ⟨_, goes, rfl, by simp [nameEq]⟩

/-- How the frame of a query and the places that are marked go together. -/
structure Outcome (b : Browse) (now : Nat) (frame : Bytes) (places : List (Nat × Nat)) : Prop where
  metas : asksIn frame ⟨metaName, typePtr⟩ = true ↔ (0, 0) ∈ places
  types : ∀ (t : Nat) (ty : BrowseType), b.types[t]? = some ty →
    (asksIn frame ⟨ty.wire, typePtr⟩ = true ↔ (1, t) ∈ places)
  due : (0, 0) ∈ places → now ≥ b.metaAt

theorem query_outcome (sound : Sound b) (m : Mdns) (now : Nat) : ∃ places,
    Marked now places b (browseQuery b m now).1 ∧ Outcome b now (browseQuery b m now).2.2 places ∧
      (((m.ip = noIp ∨ waiting b now = []) ∧ places = [] ∧ (browseQuery b m now).2.2 = []) ∨
        (m.ip ≠ noIp ∧ (∀ q, asksIn (browseQuery b m now).2.2 q = true ↔
          ∃ w, Goes b now w ∧ w.question.type = q.type ∧ nameEq w.question.name q.name = true) ∧
        ∀ p, p ∈ places ↔ ∃ w, Goes b now w ∧ place w.kind = p)) := by
  have nobody : Marked now [] b b := marks [] b List.nodup_nil
  have silent : Outcome b now [] [] := by
    constructor
    · exact ⟨nofun, nofun⟩
    · exact fun t ty _ => ⟨nofun, nofun⟩
    · exact nofun
  by_cases live : m.ip = noIp
  · have same_ : browseQuery b m now = (b, m, []) := if_pos live
    rw [same_]
    exact ⟨[], nobody, silent, .inl ⟨.inl live, rfl, rfl⟩⟩
  · rcases browseQuery_sent sound live now with ⟨none_, same_⟩ | ⟨k, sent_, frame, marked_⟩
    · rw [same_]
      exact ⟨[], nobody, silent, .inl ⟨.inr none_, rfl, rfl⟩⟩
    · rw [frame]
      have asks_ := asksIn_goes sound sent_
      have places_ := mem_wentPlaces sent_
      refine ⟨_, marked_, ⟨?_, ?_, ?_⟩, .inr ⟨live, asks_, places_⟩⟩
      · rw [asks_, places_]
        exact meta_goes
      · intro t ty at_
        rw [asks_, places_]
        exact type_goes sound at_
      · rw [places_, ← meta_goes]
        rintro ⟨w, goes, type, alike⟩
        rcases mem_waiting.mp (goes_waiting goes) with ⟨due, -⟩ | ⟨t, ty, -, -, rfl⟩ |
          ⟨i, s, q, -, waits, rfl⟩
        · exact due
        · have length := congrArg List.length (beq_iff_eq.mp alike)
          simp [folded, BrowseType.wire, metaName] at length
        · rcases waitsFor_cases waits with rfl | rfl <;> cases type

theorem refreshes_place {places : List (Nat × Nat)} {frame : Bytes} (sound : Sound b)
    (outcome : Outcome b now frame places)
    {s : BrowseService} (there : s ∈ b.services) :
    asksIn frame ⟨typeWire b s.type, typePtr⟩ = true ↔ (1, s.type) ∈ places := by
  obtain ⟨ty, known, wire_⟩ := type_known sound there
  rw [wire_]
  exact outcome.types _ ty known

theorem markRefreshes_asks (now t : Nat) (s : BrowseService) : (markRefreshes now t s).asks = s.asks := by
  unfold markRefreshes
  split <;> rfl

theorem booked_iff (sound : Sound b) (m : Mdns) (now : Nat) :
    Booked b (browseQuery b m now).1 now (browseQuery b m now).2.2 ↔ m.ip = noIp ∨ Together b now := by
  obtain ⟨places, marked_, outcome, went⟩ := query_outcome sound m now
  generalize (browseQuery b m now).1 = b' at marked_
  generalize (browseQuery b m now).2.2 = out at outcome went
  -- all but the services' own questions are as the books say in any case
  have booked_of : (∀ (i : Nat) (s : BrowseService), b.services[i]? = some s →
      ((waitsFor b now s).any (asksIn out) = true ↔ (2, i) ∈ places)) → Booked b b' now out := by
    intro services
    refine ⟨?_, ?_, fun t => ?_, fun i => ?_⟩
    · rw [marked_.metaAt]
      simp only [outcome.metas]
    · rw [marked_.metaInterval]
      simp only [outcome.metas]
    · rw [marked_.types]
      exact Option.map_congr fun ty is => by simp only [outcome.types t ty is]
    · rw [marked_.services]
      refine Option.map_congr fun s at_ => ?_
      simp only [markedService, refreshes_place sound outcome (List.mem_of_getElem? at_), services i s at_]
  rcases went with ⟨idle, rfl, rfl⟩ | ⟨live, asks_, places_⟩
  · refine ⟨fun _ => idle.imp_right fun none_ w there => ?_, fun _ => booked_of fun i s _ => ?_⟩
    · rw [none_] at there
      cases there
    · cases waitsFor b now s with
      | none => exact ⟨nofun, nofun⟩
      | some q => exact ⟨nofun, nofun⟩
  · constructor
    · refine fun booked => .inr fun w there type shares => ?_
      rcases mem_waiting.mp there with ⟨-, rfl⟩ | ⟨t, ty, -, -, rfl⟩ | ⟨i, s, q, at_, waits, rfl⟩
      · cases type
      · cases type
      · -- marked by the books, so marked in fact
        have asked_ : asksIn out q = true := by
          obtain ⟨v, goes, type', alike⟩ := shares
          exact (asks_ q).mpr ⟨v, goes, type'.trans type.symm, alike⟩
        have wanted := booked.services i
        have actual := marked_.services i
        rw [at_, Option.map_some] at wanted actual
        have both := congrArg (Option.map BrowseService.asks) (wanted.symm.trans actual)
        have place_ : (2, i) ∈ places := by
          by_contra out_
          simp only [waits, Option.any_some, asked_, markedService, out_, if_true, if_false, Option.map_some,
            Option.some.injEq, markAsks] at both
          split at both <;> split at both <;> simp [markRefreshes_asks] at both
        obtain ⟨q', waits', goes⟩ := (service_goes at_).mp ((places_ _).mp place_)
        cases waits.symm.trans waits'
        exact goes
    · rintro (dead | together)
      · exact absurd dead live
      · refine booked_of fun i s at_ => ?_
        rw [places_, service_goes at_, Option.any_eq_true]
        refine exists_congr fun q => and_congr_right fun waits => ?_
        rw [asks_]
        rcases waitsFor_cases waits with rfl | rfl
        · exact srv_goes sound at_
        · constructor
          · exact fun shares =>
              together _ (mem_waiting.mpr (.inr (.inr ⟨i, s, _, at_, waits, rfl⟩))) rfl shares
          · exact fun goes => ⟨_, goes, rfl, by simp [nameEq]⟩

end Frames

end R2Apps.MdnsAsking
