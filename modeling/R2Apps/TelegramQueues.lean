import R2Apps.TelegramSession

/-! What is queued in the Telegram client keeps to its chat: the table of chats, the ring of
messages, the queues, the reply being written and the menu agree about who is who, as
long as no chat makes room for another while something queued refers to it. -/
namespace R2Apps.TelegramQueues
open TelegramApp TelegramSession

/-- The bot that a token belongs to. -/
def bot (token : Bytes) : Bytes := token.takeWhile isDigit

def idAt (chats : List Chat) (i : Nat) : Bytes := (chats.getD i ⟨[], []⟩).id

def Placed (chats : List Chat) (i : Nat) (id : Bytes) : Prop := i < chats.length ∧ idAt chats i = id

structure GoodOut (chats : List Chat) (token : Bytes) (o : OutMsg) : Prop where
  place : Placed chats o.chat o.typed.chatId
  reply : o.replyTo ≠ 0 → o.typed.answered = (o.typed.chatId, o.replyTo)
  owner : bot o.typed.token = bot token

structure GoodReact (chats : List Chat) (token : Bytes) (r : React) : Prop where
  place : Placed chats r.chat r.picked.chatId
  number : r.msgId = r.picked.msgId
  owner : bot r.picked.token = bot token

structure GoodPhoto (token : Bytes) (body : PhotoBody) (typed : Typed) : Prop where
  place : body.chatId = typed.chatId
  reply : body.reply ≠ 0 → typed.answered = (typed.chatId, body.reply)
  owner : bot typed.token = bot token

def GoodReply (chats : List Chat) (chat : Option Nat) (id : Int) (answered : Bytes × Int) : Prop :=
  id ≠ 0 → ∃ c, chat = some c ∧ Placed chats c answered.1 ∧ answered.2 = id

def InRing (total seq : Nat) : Prop := total - maxMsgs ≤ seq ∧ seq < total

/-- A message that Telegram has numbered stands under the chat it came from. -/
def GoodMsg (chats : List Chat) (m : Msg) : Prop := ∀ c, m.chat = some c → m.id ≠ 0 → Placed chats c m.home

/-- What a request must carry. -/
def Rightly (j : Job) : Prop :=
  match j.call with
  | .sendMessage chat _ replyTo typed | .sendAnimation chat _ _ replyTo typed =>
      chat = typed.chatId ∧ (replyTo ≠ 0 → typed.answered = (typed.chatId, replyTo)) ∧
        bot j.token = bot typed.token
  | .sendPhoto body typed =>
      body.chatId = typed.chatId ∧ (body.reply ≠ 0 → typed.answered = (typed.chatId, body.reply)) ∧
        bot j.token = bot typed.token
  | .setMessageReaction chat msgId _ picked =>
      chat = picked.chatId ∧ msgId = picked.msgId ∧ bot j.token = bot picked.token
  | _ => True

/-- The part of the client that decides where something goes. -/
structure Core where
  token : Bytes
  chats : List Chat
  cur : Option Nat
  msgs : Nat → Msg
  total : Nat
  outbox : List OutMsg
  reactOut : List React
  photoQueued : Bool
  photoBody : PhotoBody
  photoTyped : Typed
  replyChat : Option Nat
  replyId : Int
  replyIn : Bytes × Int
  menuSeq : Option Nat
  menuOn : Bytes × Int
  jobs : List Job

def core (a : App) : Core :=
  { token := a.token, chats := a.chats, cur := a.cur, msgs := a.msgs, total := a.msgTotal, outbox := a.outbox
    reactOut := a.reactOut, photoQueued := a.photoQueued, photoBody := a.photoBody, photoTyped := a.photoTyped
    replyChat := a.replyChat, replyId := a.replyId, replyIn := a.replyIn, menuSeq := a.menuSeq
    menuOn := a.menuOn, jobs := a.jobs }

structure Sound (c : Core) : Prop where
  seats : c.chats.length ≤ maxChats
  shown : ∀ i, c.cur = some i → i < c.chats.length
  ring : ∀ seq, InRing c.total seq → GoodMsg c.chats (c.msgs (seq % maxMsgs))
  out : ∀ o ∈ c.outbox, GoodOut c.chats c.token o
  react : ∀ r ∈ c.reactOut, GoodReact c.chats c.token r
  photo : c.photoQueued = true → GoodPhoto c.token c.photoBody c.photoTyped
  reply : GoodReply c.chats c.replyChat c.replyId c.replyIn
  menu : ∀ s, c.menuSeq = some s → InRing c.total s ∧
    c.menuOn = ((c.msgs (s % maxMsgs)).home, (c.msgs (s % maxMsgs)).id)
  jobs : ∀ j ∈ c.jobs, Rightly j

/-! Small steps that leave the core alone, or drop something from it. -/
section Small
variable (a : App)

theorem wantMedia_core (m : Message) : core (wantMedia m a) = core a := by
  unfold wantMedia
  dsimp only
  split <;> rfl

theorem gotPath_core (path : Bytes) : core (gotPath path a) = core a := by
  unfold gotPath
  split
  · rfl
  · split <;> rfl

theorem decodeSome_core (done : Bool) : core (decodeSome done a) = core a := by
  unfold decodeSome
  split
  · dsimp only
    split <;> rfl
  · rfl

theorem moveMenuSel_core (back : Bool) : core (moveMenuSel back a) = core a := by
  unfold moveMenuSel
  dsimp only
  split <;> rfl

theorem attachScreenshot_core (file : Option Bytes) : core (attachScreenshot file a) = core a := by
  unfold attachScreenshot
  split
  · rfl
  · split <;> rfl

theorem pasteByte_core (c : UInt8) : core (pasteByte a c) = core a := by
  unfold pasteByte
  split
  · rfl
  · split
    · rfl
    · split <;> rfl

theorem paste_core (clip : Clipboard) : core (paste clip a) = core a := by
  have typed : ∀ (text : Bytes) (b : App), core (text.foldl pasteByte b) = core b := by
    intro text
    induction text with
    | nil => exact fun b => rfl
    | cons c rest ih => exact fun b => (ih (pasteByte b c)).trans (pasteByte_core b c)
  unfold paste
  split
  · exact attachScreenshot_core a clip.file
  · split
    · rfl
    · exact typed clip.text a

theorem backspace_core : core (backspace a) = core a := by
  unfold backspace
  split
  · rfl
  · split <;> rfl

theorem backToSetup_core : core (backToSetup a) = core a := by
  unfold backToSetup
  dsimp only
  split <;> rfl

end Small

/-! Pieces of the invariant under a change of the core. -/
section Pieces
variable {c : Core}

theorem Sound.without_menu (s : Sound c) : Sound { c with menuSeq := none } :=
  { s with menu := fun _ no => absurd no.symm (Option.some_ne_none _) }

theorem Sound.without_reply (s : Sound c) :
    Sound { c with replyChat := none, replyId := 0, replyIn := ([], 0) } :=
  { s with reply := fun nonzero => absurd rfl nonzero }

theorem Sound.drop_out (s : Sound c) : Sound { c with outbox := c.outbox.drop 1 } :=
  { s with out := fun o member => s.out o (List.mem_of_mem_drop member) }

theorem Sound.drop_react (s : Sound c) : Sound { c with reactOut := c.reactOut.drop 1 } :=
  { s with react := fun r member => s.react r (List.mem_of_mem_drop member) }

theorem Sound.drop_photo (s : Sound c) : Sound { c with photoQueued := false } :=
  { s with photo := fun queued => Bool.noConfusion queued }

theorem Sound.show_chat (s : Sound c) {i : Nat} (inTable : i < c.chats.length) :
    Sound { c with cur := some i } :=
  { s with shown := fun _ same => Option.some.inj same ▸ inTable }

theorem Sound.submit (s : Sound c) {j : Job} (right : Rightly j) :
    Sound { c with jobs := c.jobs ++ [j] } := by
  refine { s with jobs := fun k member => ?_ }
  rcases List.mem_append.mp member with old | new
  · exact s.jobs k old
  · exact List.mem_singleton.mp new ▸ right

end Pieces

/-! The table of chats. -/
section Table
variable {chats : List Chat} {i k : Nat} {id name : Bytes} {x : Chat} {m : Msg}

theorem placed_rename (placed : Placed chats i id) : Placed (renameAt k name chats) i id := by
  obtain ⟨inTable, same⟩ := placed
  refine ⟨by rw [renameAt, List.length_modify]; exact inTable, ?_⟩
  rw [← same, idAt, idAt, renameAt, List.getD_eq_getElem?_getD, List.getD_eq_getElem?_getD,
    List.getElem?_modify,
    List.getElem?_eq_getElem inTable]
  by_cases here : k = i
  · by_cases unnamed : name = [] <;> simp [here, unnamed]
  · simp [here]

theorem placed_append (placed : Placed chats i id) : Placed (chats ++ [x]) i id := by
  obtain ⟨inTable, same⟩ := placed
  refine ⟨by rw [List.length_append]; omega, ?_⟩
  rw [← same, idAt, idAt, List.getD_eq_getElem?_getD, List.getD_eq_getElem?_getD,
    List.getElem?_append_left inTable]

theorem placed_last : Placed (chats ++ [x]) chats.length x.id := by
  refine ⟨by simp, ?_⟩
  rw [idAt, List.getD_eq_getElem?_getD, List.getElem?_append_right (Nat.le_refl _), Nat.sub_self]
  rfl

theorem placed_set (placed : Placed chats i id) (other : i ≠ k) : Placed (chats.set k x) i id := by
  obtain ⟨inTable, same⟩ := placed
  refine ⟨by rw [List.length_set]; exact inTable, ?_⟩
  rw [← same, idAt, idAt, List.getD_eq_getElem?_getD, List.getD_eq_getElem?_getD,
    List.getElem?_set_ne (Ne.symm other)]

theorem placed_there (inTable : k < chats.length) : Placed (chats.set k x) k x.id := by
  refine ⟨by rw [List.length_set]; exact inTable, ?_⟩
  rw [idAt, List.getD_eq_getElem?_getD, List.getElem?_set_self inTable, Option.getD_some]

theorem findChat_placed (found : findChat id chats = some i) : Placed chats i id := by
  obtain ⟨inTable, same, -⟩ := List.findIdx?_eq_some_iff_getElem.mp found
  refine ⟨inTable, ?_⟩
  rw [idAt, List.getD_eq_getElem?_getD, List.getElem?_eq_getElem inTable, Option.getD_some]
  exact of_decide_eq_true same

theorem findChat_absent (absent : findChat id chats = none) : id ∉ chats.map Chat.id := by
  intro member
  obtain ⟨c, inTable, same⟩ := List.mem_map.mp member
  have no := List.findIdx?_eq_none_iff.mp absent c inTable
  exact of_decide_eq_false no same

theorem GoodMsg.rename (good : GoodMsg chats m) : GoodMsg (renameAt k name chats) m :=
  fun c place numbered => placed_rename (good c place numbered)

theorem GoodMsg.append (good : GoodMsg chats m) : GoodMsg (chats ++ [x]) m :=
  fun c place numbered => placed_append (good c place numbered)

theorem GoodMsg.displace {msgs : Nat → Msg} {at_ : Nat} (good : GoodMsg chats (msgs at_)) :
    GoodMsg (chats.set k x) (orphan k msgs at_) := by
  intro c place numbered
  simp only [orphan] at place numbered ⊢
  by_cases displaced : (msgs at_).chat = some k
  · rw [if_pos displaced] at place
    exact absurd place.symm (Option.some_ne_none c)
  · rw [if_neg displaced] at place numbered ⊢
    refine placed_set (good c place numbered) fun same => ?_
    rw [same] at place
    exact displaced place

theorem orphan_same (k : Nat) (msgs : Nat → Msg) (at_ : Nat) :
    (orphan k msgs at_).home = (msgs at_).home ∧ (orphan k msgs at_).id = (msgs at_).id := by
  unfold orphan
  split <;> exact ⟨rfl, rfl⟩

/-- Nothing that is queued, and no reply being written, refers to the last place of the table. -/
structure LastFree (c : Core) : Prop where
  out : ∀ o ∈ c.outbox, o.chat ≠ maxChats - 1
  react : ∀ r ∈ c.reactOut, r.chat ≠ maxChats - 1
  reply : c.replyId ≠ 0 → c.replyChat ≠ some (maxChats - 1)

variable {c : Core}

theorem Sound.rename (s : Sound c) : Sound { c with chats := renameAt k name c.chats } := by
  have length : (renameAt k name c.chats).length = c.chats.length := List.length_modify _ _ _
  exact
    { s with
      seats := length ▸ s.seats
      shown := fun i same => length ▸ s.shown i same
      ring := fun seq inside => (s.ring seq inside).rename
      out := fun o member =>
        ⟨placed_rename (s.out o member).place, (s.out o member).reply, (s.out o member).owner⟩
      react := fun r member =>
        ⟨placed_rename (s.react r member).place, (s.react r member).number, (s.react r member).owner⟩
      reply := fun nonzero => by
        obtain ⟨i, place, placed, number⟩ := s.reply nonzero
        exact ⟨i, place, placed_rename placed, number⟩ }

theorem Sound.append (s : Sound c) (room : c.chats.length < maxChats) :
    Sound { c with chats := c.chats ++ [x], cur := some (c.cur.getD c.chats.length) } := by
  have length : (c.chats ++ [x]).length = c.chats.length + 1 := by
    rw [List.length_append, List.length_singleton]
  exact
    { s with
      seats := length ▸ room
      shown := fun i same => by
        rw [length]
        cases cur : c.cur with
        | none =>
            rw [cur, Option.getD_none] at same
            have := Option.some.inj same
            omega
        | some j =>
            rw [cur, Option.getD_some] at same
            have := s.shown j cur
            have := Option.some.inj same
            omega
      ring := fun seq inside => (s.ring seq inside).append
      out := fun o member =>
        ⟨placed_append (s.out o member).place, (s.out o member).reply, (s.out o member).owner⟩
      react := fun r member =>
        ⟨placed_append (s.react r member).place, (s.react r member).number, (s.react r member).owner⟩
      reply := fun nonzero => by
        obtain ⟨i, place, placed, number⟩ := s.reply nonzero
        exact ⟨i, place, placed_append placed, number⟩ }

theorem Sound.displace (s : Sound c) (full : ¬c.chats.length < maxChats) (free : LastFree c) :
    Sound { c with
      chats := c.chats.set (maxChats - 1) x
      msgs := orphan (maxChats - 1) c.msgs
      cur := some (c.cur.getD (maxChats - 1)) } := by
  have length : (c.chats.set (maxChats - 1) x).length = c.chats.length := List.length_set
  exact
    { s with
      seats := length ▸ s.seats
      shown := fun i same => by
        have twelve : maxChats = 12 := rfl
        have inTable : maxChats - 1 < c.chats.length := by omega
        rw [length]
        cases cur : c.cur with
        | none =>
            rw [cur, Option.getD_none] at same
            exact Option.some.inj same ▸ inTable
        | some j =>
            rw [cur, Option.getD_some] at same
            exact Option.some.inj same ▸ s.shown j cur
      ring := fun seq inside => (s.ring seq inside).displace
      out := fun o member => ⟨placed_set (s.out o member).place (free.out o member), (s.out o member).reply,
        (s.out o member).owner⟩
      react := fun r member => ⟨placed_set (s.react r member).place (free.react r member),
        (s.react r member).number, (s.react r member).owner⟩
      reply := fun nonzero => by
        obtain ⟨i, place, placed, number⟩ := s.reply nonzero
        refine ⟨i, place, placed_set placed fun same => free.reply nonzero ?_, number⟩
        rw [place, same]
      menu := fun seq on => by
        obtain ⟨inside, picture⟩ := s.menu seq on
        obtain ⟨home, number⟩ := orphan_same (maxChats - 1) c.msgs (seq % maxMsgs)
        exact ⟨inside, by rw [home, number]; exact picture⟩ }

end Table

/-! Messages come in. -/
section Arrivals
variable {a : App}

/-- Whether the chats of these messages find a place without one of them making room. -/
def fits : List Bytes → List Bytes → Bool
  | _, [] => true
  | table, id :: rest =>
      if id ∈ table then fits table rest else table.length < maxChats && fits (table ++ [id]) rest

def tableIds (a : App) : List Bytes := a.chats.map Chat.id

theorem table_rename (i : Nat) (name : Bytes) (chats : List Chat) :
    (renameAt i name chats).map Chat.id = chats.map Chat.id := by
  apply List.ext_getElem?
  intro k
  rw [renameAt, List.getElem?_map, List.getElem?_map, List.getElem?_modify]
  cases chats[k]? with
  | none => rfl
  | some c =>
      by_cases here : i = k
      · by_cases unnamed : name = [] <;> simp [here, unnamed]
      · simp [here]

theorem chatFor_table (name : Bytes) {id : Bytes} {rest : List Bytes}
    (seat : fits (tableIds a) (id :: rest) = true) :
    (id ∈ tableIds a ∨ a.chats.length < maxChats) ∧ fits (tableIds (chatFor id name a).2) rest = true := by
  have length : (tableIds a).length = a.chats.length := List.length_map _
  unfold fits at seat
  unfold chatFor
  cases found : findChat id a.chats with
  | some i =>
      obtain ⟨inTable, same⟩ := findChat_placed found
      have known : id ∈ tableIds a := by
        refine List.mem_map.mpr ⟨a.chats[i], List.getElem_mem inTable, ?_⟩
        rw [← same, idAt, List.getD_eq_getElem?_getD, List.getElem?_eq_getElem inTable, Option.getD_some]
      rw [if_pos known] at seat
      refine ⟨Or.inl known, ?_⟩
      rw [← seat]
      exact congrArg (fits · rest) (table_rename i name a.chats)
  | none =>
      have unknown : id ∉ tableIds a := findChat_absent found
      rw [if_neg unknown, Bool.and_eq_true, decide_eq_true_iff, length] at seat
      refine ⟨Or.inr seat.1, ?_⟩
      simp only [if_pos seat.1]
      rw [← seat.2, tableIds, tableIds, List.map_append]
      rfl

theorem chatFor_sound (name : Bytes) {id : Bytes} (s : Sound (core a))
    (seat : id ∈ tableIds a ∨ a.chats.length < maxChats ∨ LastFree (core a)) :
    Sound (core (chatFor id name a).2) ∧ Placed (chatFor id name a).2.chats (chatFor id name a).1 id := by
  unfold chatFor
  cases found : findChat id a.chats with
  | some i => exact ⟨s.rename, placed_rename (findChat_placed found)⟩
  | none =>
      dsimp only
      split
      · next room => exact ⟨s.append room, placed_last⟩
      · next full =>
        have free : LastFree (core a) := by
          rcases seat with known | room | free
          · exact absurd known (findChat_absent found)
          · exact absurd room full
          · exact free
        have twelve : maxChats = 12 := rfl
        have inTable : maxChats - 1 < a.chats.length := by omega
        exact ⟨s.displace full free, placed_there inTable⟩

theorem ring_apart {total seq : Nat} (inside : InRing (total + 1) seq) (old : seq ≠ total) :
    InRing total seq ∧ seq % maxMsgs ≠ total % maxMsgs := by
  simp only [InRing, maxMsgs] at inside ⊢
  omega

theorem addMsg_sound {chat : Nat} {home : Bytes} {id : Int} (s : Sound (core a))
    (placed : id ≠ 0 → Placed a.chats chat home) : Sound (core (addMsg chat home id a)) := by
  refine { s with ring := fun seq inside => ?_, menu := fun seq on => ?_ }
  · change GoodMsg a.chats (setMsg (a.msgTotal % maxMsgs) ⟨some chat, home, id, none⟩ a.msgs (seq % maxMsgs))
    by_cases new : seq = a.msgTotal
    · rw [setMsg, if_pos (by rw [new])]
      intro c place numbered
      exact Option.some.inj place ▸ placed numbered
    · obtain ⟨old, apart⟩ := ring_apart inside new
      rw [setMsg, if_neg apart]
      exact s.ring seq old
  · have total : (core (addMsg chat home id a)).total = a.msgTotal + 1 := rfl
    have msgs : (core (addMsg chat home id a)).msgs (seq % maxMsgs) =
      setMsg (a.msgTotal % maxMsgs) ⟨some chat, home, id, none⟩ a.msgs (seq % maxMsgs) := rfl
    have was : a.menuSeq = some seq ∧ ¬(a.msgTotal ≥ maxMsgs ∧ seq = a.msgTotal - maxMsgs) := by
      by_cases full : a.msgTotal ≥ maxMsgs
      · simp only [core, addMsg, if_pos full] at on
        split at on
        · exact absurd on.symm (Option.some_ne_none seq)
        · next stays =>
          refine ⟨on, fun leaves => stays ⟨Option.some_ne_none _, ?_⟩⟩
          rw [on, leaves.2]
      · simp only [core, addMsg, if_neg full, ne_eq, not_true_eq_false, false_and, if_false] at on
        exact ⟨on, fun leaves => full leaves.1⟩
    obtain ⟨inside, picture⟩ := s.menu seq was.1
    have old : InRing (a.msgTotal + 1) seq := by
      have := was.2
      simp only [InRing, core, maxMsgs] at inside this ⊢
      omega
    have before : seq ≠ a.msgTotal := by
      have upper : seq < a.msgTotal := inside.2
      omega
    rw [total, msgs, setMsg, if_neg (ring_apart old before).2]
    exact ⟨old, picture⟩

theorem takeMessage_sound {m : Message} (s : Sound (core a))
    (seat : ∀ id, m.chatId = some id → id ∈ tableIds a ∨ a.chats.length < maxChats ∨ LastFree (core a)) :
    Sound (core (takeMessage m a)) := by
  unfold takeMessage
  cases chat : m.chatId with
  | none => exact s
  | some id =>
      have wanted : core (wantMedia m a) = core a := wantMedia_core a m
      have table : (wantMedia m a).chats = a.chats := congrArg Core.chats wanted
      have seated : id ∈ tableIds (wantMedia m a) ∨ (wantMedia m a).chats.length < maxChats ∨
          LastFree (core (wantMedia m a)) := by
        rw [tableIds, table, wanted]
        exact seat id chat
      obtain ⟨sound, placed⟩ := chatFor_sound m.name (wanted ▸ s) seated
      exact addMsg_sound sound fun _ => placed

end Arrivals

/-! What a message leaves alone. -/
section Frames
variable {a : App}

/-- The queues, and the reply being written. -/
def queueParts (a : App) : List OutMsg × List React × Option Nat × Int :=
  (a.outbox, a.reactOut, a.replyChat, a.replyId)

theorem takeMessage_queues (m : Message) (a : App) : queueParts (takeMessage m a) = queueParts a := by
  have media : queueParts (wantMedia m a) = queueParts a := by
    unfold wantMedia
    dsimp only
    split <;> rfl
  have seated : ∀ (id : Bytes) (b : App), queueParts (chatFor id m.name b).2 = queueParts b := by
    intro id b
    unfold chatFor
    split
    · rfl
    · split <;> rfl
  unfold takeMessage
  split
  · rfl
  · next id chat => exact (seated id (wantMedia m a)).trans media

theorem takeMessage_offset (m : Message) (a : App) : (takeMessage m a).offset = a.offset :=
  congrArg (·.2.2.2.1) (takeMessage_session m a)

theorem LastFree.of_parts {b : App} (free : LastFree (core a)) (same : queueParts b = queueParts a) :
    LastFree (core b) := by
  have out : b.outbox = a.outbox := congrArg (·.1) same
  have react : b.reactOut = a.reactOut := congrArg (·.2.1) same
  have chat : b.replyChat = a.replyChat := congrArg (·.2.2.1) same
  have id : b.replyId = a.replyId := congrArg (·.2.2.2) same
  have cores : (core b).outbox = (core a).outbox ∧ (core b).reactOut = (core a).reactOut ∧
      (core b).replyChat = (core a).replyChat ∧ (core b).replyId = (core a).replyId := ⟨out, react, chat, id⟩
  obtain ⟨out, react, chat, id⟩ := cores
  exact ⟨out ▸ free.out, react ▸ free.react, by rw [chat, id]; exact free.reply⟩

end Frames

/-! Answers. -/
section Answers
variable {a : App} {r : Result}

/-- The messages that a poll's updates bring, those left out that have come before. -/
def taken : Int → List Update → List Message
  | _, [] => []
  | offset, u :: rest => match u.id with
    | some id => if id < offset then taken offset rest else u.message.toList ++ taken (id + 1) rest
    | none => u.message.toList ++ taken offset rest

def chatIds (messages : List Message) : List Bytes := messages.filterMap Message.chatId

/-- The messages of an answer. -/
def arriving (a : App) (r : Result) : List Message :=
  match a.request with
  | some .send => [r.payload.message]
  | some .sendPhoto => [r.payload.message]
  | some .poll => taken a.offset r.payload.updates
  | _ => []

/-- The client with what has been sent taken off its queue. -/
def settled (a : App) : App := if a.request = some .send then dropOut a else a

/-- The answer's chats find places, or the one that would make room is nobody's business. -/
def Roomy (a : App) (r : Result) : Prop :=
  fits (tableIds a) (chatIds (arriving a r)) = true ∨ LastFree (core (settled a))

theorem takeMessage_roomy {m : Message} (rest : List Bytes) (s : Sound (core a))
    (room : fits (tableIds a) (chatIds [m] ++ rest) = true ∨ LastFree (core a)) :
    Sound (core (takeMessage m a)) ∧
      (fits (tableIds (takeMessage m a)) rest = true ∨ LastFree (core (takeMessage m a))) := by
  rcases room with fit | free
  · cases chat : m.chatId with
    | none =>
        have same : takeMessage m a = a := by simp only [takeMessage, chat]
        simp only [chatIds, List.filterMap_cons, chat, List.filterMap_nil, List.nil_append] at fit
        rw [same]
        exact ⟨s, Or.inl fit⟩
    | some id =>
        simp only [chatIds, List.filterMap_cons, chat, List.filterMap_nil, List.cons_append,
          List.nil_append] at fit
        have media : tableIds (wantMedia m a) = tableIds a :=
          congrArg (fun c => (Core.chats c).map Chat.id) (wantMedia_core a m)
        obtain ⟨seat, after⟩ := chatFor_table (a := wantMedia m a) m.name (media.symm ▸ fit)
        have chats : (wantMedia m a).chats = a.chats := congrArg Core.chats (wantMedia_core a m)
        rw [media, chats] at seat
        refine ⟨takeMessage_sound s fun other same => ?_, Or.inl ?_⟩
        · rw [chat] at same
          rw [← Option.some.inj same]
          exact seat.imp_right Or.inl
        · simp only [takeMessage, chat]
          exact after
  · exact ⟨takeMessage_sound s fun _ _ => Or.inr (Or.inr free),
      Or.inr (free.of_parts (takeMessage_queues m a))⟩

theorem updates_sound (updates : List Update) : ∀ {a : App}, Sound (core a) →
    (fits (tableIds a) (chatIds (taken a.offset updates)) = true ∨ LastFree (core a)) →
      Sound (core (updates.foldl takeUpdate a)) := by
  induction updates with
  | nil => exact fun s _ => s
  | cons u rest ih =>
      intro a s room
      -- an update that counts: its message comes in, and the rest behind it
      have counted : ∀ b c : App, core b = core a → (fits (tableIds b) (chatIds (u.message.toList ++
          taken b.offset rest)) = true ∨ LastFree (core b)) → (u.message = none → c = b) →
            (∀ m, u.message = some m → c = takeMessage m b) → Sound (core (rest.foldl takeUpdate c)) := by
        intro b c same roomB silent spoken
        have sB : Sound (core b) := same ▸ s
        cases message : u.message with
        | none =>
            rw [message] at roomB
            rw [silent message]
            exact ih sB roomB
        | some m =>
            rw [message, Option.toList_some, chatIds, List.filterMap_append] at roomB
            rw [spoken m message]
            obtain ⟨sound, after⟩ := takeMessage_roomy _ sB roomB
            refine ih sound ?_
            rw [takeMessage_offset]
            exact after
      rw [List.foldl_cons]
      cases number : u.id with
      | none =>
          simp only [taken, number] at room
          simp only [takeUpdate, number]
          exact counted { a with applied := a.applied ++ [(a.token, u)] } _ rfl room
            (fun silent => by rw [silent]) (fun m spoken => by rw [spoken])
      | some id =>
          simp only [taken, number] at room
          simp only [takeUpdate, number]
          by_cases old : id < a.offset
          · simp only [if_pos old] at room ⊢
            exact ih s room
          · simp only [if_neg old] at room ⊢
            exact counted { a with offset := id + 1, applied := a.applied ++ [(a.token, u)] } _ rfl room
              (fun silent => by rw [silent]) (fun m spoken => by rw [spoken])

theorem giveUp_sound (was : Option Request) (s : Sound (core a)) : Sound (core (giveUp was a)) := by
  have unnumbered : ∀ (chat : Nat) (home : Bytes), Sound (core (addMsg chat home 0 a)) :=
    fun chat home => addMsg_sound s fun nonzero => absurd rfl nonzero
  unfold giveUp
  split
  · exact s
  · exact s
  · exact (unnumbered a.photoChat (chatId a a.photoChat)).drop_photo
  · unfold outNotSent
    split
    · exact s
    · next o rest queue => exact (unnumbered o.chat (chatId a o.chat)).drop_out
  · exact s.drop_react
  · exact s

theorem keepReaction_sound (rq : React) (s : Sound (core a)) : Sound (core (keepReaction rq a)) := by
  unfold keepReaction
  split
  · next k found =>
    have msgs : ∀ i, (setMsg ((a.msgTotal - 1 - k) % maxMsgs) { a.msgAt (a.msgTotal - 1 - k) with
      myReact := rq.r }
        a.msgs i).chat = (a.msgs i).chat ∧
        (setMsg ((a.msgTotal - 1 - k) % maxMsgs) { a.msgAt (a.msgTotal - 1 - k) with myReact := rq.r }
          a.msgs i).home = (a.msgs i).home ∧
        (setMsg ((a.msgTotal - 1 - k) % maxMsgs) { a.msgAt (a.msgTotal - 1 - k) with myReact := rq.r }
          a.msgs i).id = (a.msgs i).id := by
      intro i
      unfold setMsg
      split
      · next same =>
        rw [same]
        exact ⟨rfl, rfl, rfl⟩
      · exact ⟨rfl, rfl, rfl⟩
    exact
      { s with
        ring := fun seq inside c place numbered => by
          obtain ⟨chat, home, number⟩ := msgs (seq % maxMsgs)
          have placed := s.ring seq inside c (chat.symm.trans place)
            (fun zero => numbered (number.trans zero))
          exact home.symm ▸ placed
        menu := fun seq on => by
          obtain ⟨chat, home, number⟩ := msgs (seq % maxMsgs)
          obtain ⟨inside, picture⟩ := s.menu seq on
          exact ⟨inside, picture.trans (Prod.ext home.symm number.symm)⟩ }
  · exact s

theorem reacted_sound (s : Sound (core a)) : Sound (core (reacted a)) := by
  unfold reacted
  split
  · exact s
  · next rq rest queue => exact (keepReaction_sound rq s).drop_react

theorem accepted_sound {b : App} (same : b = { a with request := none }) (s : Sound (core a))
    (room : Roomy a r) :
    Sound (core (accepted a.request r.payload b)) := by
  subst same
  have sound : Sound (core { a with request := none }) := s
  unfold Roomy arriving settled at room
  cases request : a.request with
  | none => exact sound
  | some kind =>
      rw [request] at room
      cases kind with
      | getMe => exact sound
      | file => exact sound
      | react => exact reacted_sound sound
      | fileInfo =>
          have kept : core (gotPath r.payload.filePath { a with request := none }) = core a :=
            gotPath_core _ _
          exact (kept ▸ s : Sound (core (gotPath r.payload.filePath { a with request := none })))
      | send =>
          rw [if_pos rfl] at room
          exact (takeMessage_roomy [] (a := dropOut { a with request := none }) s.drop_out
            (room.imp_left fun fit => (List.append_nil _).symm ▸ fit)).1
      | sendPhoto =>
          rw [if_neg (by decide)] at room
          exact (takeMessage_roomy [] (a := { a with request := none, photoQueued := false }) s.drop_photo
            (room.imp (fun fit => (List.append_nil _).symm ▸ fit) fun free =>
              ⟨free.out, free.react, free.reply⟩)).1
      | poll =>
          rw [if_neg (by decide)] at room
          exact updates_sound r.payload.updates sound room

theorem finished_sound (now : UInt64) (started : Bool) (s : Sound (core a))
    (room : a.stale = false → r.err = none → r.ok = true → Roomy a r) :
    Sound (core (finished now started r a)) := by
  have sound : Sound (core { a with request := none }) := s
  have waits : ∀ (t : UInt64) (b : App), Sound (core b) → Sound (core { b with retryAt := t }) :=
    fun _ _ kept => kept
  simp only [finished]
  by_cases stale : a.stale = true
  · rw [if_pos stale]
    exact s
  · rw [if_neg stale]
    cases err : r.err with
    | some e =>
        dsimp only
        split
        · exact sound
        · exact waits _ _ (giveUp_sound a.request sound)
    | none =>
        dsimp only
        split
        · exact s
        · split
          · next ok => exact accepted_sound rfl s (room (Bool.eq_false_iff.mpr stale) err ok)
          · unfold refused
            split
            · have kept := backToSetup_core { a with request := none }
              exact (kept ▸ sound : Sound (core (backToSetup { a with request := none })))
            · exact waits _ _ (giveUp_sound a.request sound)

end Answers

end R2Apps.TelegramQueues
