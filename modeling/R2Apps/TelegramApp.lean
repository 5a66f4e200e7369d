import Mathlib.Data.List.Basic

/-! `go/telegram/app.go`: the state of the Telegram client and what keys, clicks and
answers do to it. What is only painted (the status line, unread counts, pictures,
reaction counts) is left out; a request carries its parameters before they are encoded,
and an answer the members that are read from it. -/
namespace R2Apps.TelegramApp

abbrev Bytes := List UInt8

abbrev tokenCap : Nat := 64
abbrev inCap : Nat := 200
abbrev maxMsgs : Nat := 96
abbrev maxChats : Nat := 12
abbrev maxOut : Nat := 4
abbrev nameCap : Nat := 28
abbrev maxReactOut : Nat := 4
abbrev rowsCap : Nat := 128
abbrev maxWanted : Nat := 8
abbrev maxGifRefs : Nat := 16
abbrev rowH : Int := 14
abbrev chatsW : Int := 144

/-- How many reactions are offered, and the entries of the menu behind them. -/
abbrev reactionCount : Nat := 9
abbrev miRemove : Nat := 10
abbrev miReply : Nat := 12
abbrev miCopy : Nat := 13
abbrev miCopyGif : Nat := 14
abbrev miCount : Nat := 15

inductive Request where
  | getMe | poll | send | fileInfo | file | sendPhoto | react
deriving DecidableEq

inductive WantedKind where
  | still | gif | mp4
deriving DecidableEq

structure Chat where
  id : Bytes
  name : Bytes
deriving DecidableEq

/-- A message of the ring; `chat` is none for one that belongs to nobody. `home` is history: the chat
that the message came from. -/
structure Msg where
  chat : Option Nat
  home : Bytes
  id : Int
  myReact : Option Nat
deriving DecidableEq

structure Wanted where
  kind : WantedKind
  fileId : Bytes
  path : Bytes
deriving DecidableEq

structure GifRef where
  seq : Option Nat
  id : Bytes
deriving DecidableEq

/-- History: the token, the chat on the right, and chat and number of the message answered when Enter
went down. The program keeps no such record. -/
structure Typed where
  token : Bytes
  chatId : Bytes
  answered : Bytes × Int
deriving DecidableEq

/-- History: the token when a reaction was picked, and the message the menu was opened on. -/
structure Picked where
  token : Bytes
  chatId : Bytes
  msgId : Int
deriving DecidableEq

structure OutMsg where
  chat : Nat
  replyTo : Int
  gif : Bytes
  text : Bytes
  typed : Typed
deriving DecidableEq

structure React where
  chat : Nat
  msgId : Int
  r : Option Nat
  picked : Picked
deriving DecidableEq

structure PhotoBody where
  chatId : Bytes
  caption : Bytes
  reply : Int
  png : Bytes
deriving DecidableEq

inductive Call where
  | getMe
  | getUpdates (offset : Int)
  | sendMessage (chatId text : Bytes) (replyTo : Int) (typed : Typed)
  | sendAnimation (chatId gif caption : Bytes) (replyTo : Int) (typed : Typed)
  | setMessageReaction (chatId : Bytes) (msgId : Int) (r : Option Nat) (picked : Picked)
  | sendPhoto (body : PhotoBody) (typed : Typed)
  | getFile (fileId : Bytes)
  | file (path : Bytes)
deriving DecidableEq

structure Job where
  kind : Request
  token : Bytes
  call : Call
deriving DecidableEq

/-- A Message object of an answer. -/
structure Message where
  chatId : Option Bytes
  name : Bytes
  id : Int
  gif : Bytes
  wants : List (WantedKind × Bytes)
deriving DecidableEq

structure Update where
  id : Option Int
  message : Option Message
deriving DecidableEq

/-- What `result` holds, by the requests that read it. -/
structure Payload where
  username : Bytes
  message : Message
  filePath : Bytes
  updates : List Update
deriving DecidableEq

inductive Failure where
  | stopped | other
deriving DecidableEq

structure Result where
  err : Option Failure
  status : Nat
  empty : Bool
  ok : Bool
  payload : Payload
deriving DecidableEq

/-- Where things are, as last painted. -/
structure Layout where
  menuL : Int
  menuT : Int
  menuW : Int
  msgX : Int
  msgW : Int
  msgTop : Int
  visibleRows : Int
  rowSeq : Nat → Option Nat

/-- The client. The last fields are history: the requests submitted, the updates applied with the
token of the time, and chat and number of the message being answered and of the one that the menu was
opened on. -/
structure App where
  token : Bytes
  setup : Bool
  botName : Bytes
  offset : Int
  request : Option Request
  stale : Bool
  retryAt : UInt64
  reactOut : List React
  menuSeq : Option Nat
  menuSel : Nat
  layout : Layout
  width : Int
  height : Int
  settingsOpen : Bool
  attachment : Option Bytes
  photoBody : PhotoBody
  photoQueued : Bool
  photoChat : Nat
  attachGif : Bytes
  clipGif : Bytes
  replyChat : Option Nat
  replySeq : Option Nat
  replyId : Int
  chats : List Chat
  cur : Option Nat
  msgs : Nat → Msg
  msgTotal : Nat
  wanted : List Wanted
  mp4Busy : Bool
  gifRefs : Nat → GifRef
  nextGif : Nat
  outbox : List OutMsg
  input : Bytes
  jobs : List Job
  applied : List (Bytes × Update)
  replyIn : Bytes × Int
  menuOn : Bytes × Int
  photoTyped : Typed

def App.oldest (a : App) : Nat := a.msgTotal - maxMsgs

def App.msgAt (a : App) (seq : Nat) : Msg := a.msgs (seq % maxMsgs)

def setMsg (at_ : Nat) (m : Msg) (msgs : Nat → Msg) : Nat → Msg := fun i => if i = at_ then m else msgs i

def chatId (a : App) (i : Nat) : Bytes := (a.chats.getD i ⟨[], []⟩).id

def capped (s : Bytes) (n : Nat) : Bytes := s.take (n - 1)

section Token

def isDigit (c : UInt8) : Bool := 48 ≤ c && c ≤ 57

def tokenChar (c : UInt8) : Bool :=
  isDigit c || (97 ≤ c && c ≤ 122) || (65 ≤ c && c ≤ 90) || c == 58 || c == 95 || c == 45

/-- The bot's number, a colon and a secret. -/
def validToken (t : Bytes) : Bool :=
  let digits := (t.takeWhile isDigit).length
  !(digits = 0) && t[digits]? == some 58 && 20 ≤ t.length - digits - 1 && t.all tokenChar

def startChatting (a : App) : App := { a with setup := false, botName := [], retryAt := 0 }

def backToSetup (a : App) : App :=
  let a := if a.request ≠ none then { a with stale := true } else a
  { a with setup := true, input := a.token }

/-- Enter in the setup. -/
def enterToken (a : App) : App :=
  if validToken a.input then startChatting { a with token := a.input, input := [] } else a

end Token

section Messages

def findChat (id : Bytes) (chats : List Chat) : Option Nat := chats.findIdx? fun c => c.id = id

def renameAt (i : Nat) (name : Bytes) (chats : List Chat) : List Chat :=
  chats.modify i fun c => if name = [] then c else { c with name := name }

/-- The messages of a chat that has made room belong to nobody. -/
def orphan (at_ : Nat) (msgs : Nat → Msg) : Nat → Msg :=
  fun i => if (msgs i).chat = some at_ then { msgs i with chat := none } else msgs i

def newChat (id name : Bytes) : Chat := ⟨id, capped (if name = [] then id else name) nameCap⟩

/-- The chat's place in the table, and the client with it there. -/
def chatFor (id name : Bytes) (a : App) : Nat × App :=
  match findChat id a.chats with
  | some i => (i, { a with chats := renameAt i name a.chats })
  | none =>
      if a.chats.length < maxChats then
        (a.chats.length, { a with
          chats := a.chats ++ [newChat id name]
          cur := some (a.cur.getD a.chats.length) })
      else
        -- full: the last chat on the list makes room
        (maxChats - 1, { a with
          chats := a.chats.set (maxChats - 1) (newChat id name)
          msgs := orphan (maxChats - 1) a.msgs
          cur := some (a.cur.getD (maxChats - 1)) })

def addMsg (chat : Nat) (home : Bytes) (id : Int) (a : App) : App :=
  let leaving : Option Nat := if a.msgTotal ≥ maxMsgs then some (a.msgTotal - maxMsgs) else none
  { a with
    menuSeq := if leaving ≠ none ∧ a.menuSeq = leaving then none else a.menuSeq
    replySeq := if leaving ≠ none ∧ a.replySeq = leaving then none else a.replySeq
    msgs := setMsg (a.msgTotal % maxMsgs) ⟨some chat, home, id, none⟩ a.msgs
    msgTotal := a.msgTotal + 1 }

/-- The eldest makes room in the list of what is to be fetched. -/
def want (kind : WantedKind) (fileId : Bytes) (wanted : List Wanted) : List Wanted :=
  (if wanted.length = maxWanted then wanted.drop 1 else wanted) ++ [⟨kind, fileId, []⟩]

def wantMedia (m : Message) (a : App) : App :=
  let a := { a with wanted := m.wants.foldl (fun wanted w => want w.1 w.2 wanted) a.wanted }
  if m.gif = [] then a
  else
    let refs := fun i => if i = a.nextGif % maxGifRefs then ⟨some a.msgTotal, m.gif⟩ else a.gifRefs i
    { a with gifRefs := refs, nextGif := a.nextGif + 1 }

def takeMessage (m : Message) (a : App) : App :=
  match m.chatId with
  | none => a
  | some id =>
      let placed := chatFor id m.name (wantMedia m a)
      addMsg placed.1 id m.id placed.2

def dropWanted (a : App) : App := { a with wanted := a.wanted.drop 1 }
def dropReact (a : App) : App := { a with reactOut := a.reactOut.drop 1 }
def dropOut (a : App) : App := { a with outbox := a.outbox.drop 1 }

def gifOf (seq : Nat) (a : App) : Bytes :=
  match (List.range maxGifRefs).find? fun i => (a.gifRefs i).seq = some seq with
  | some i => (a.gifRefs i).id
  | none => []

end Messages

section Requests

/-- A long poll is given up for what is to go out; the worker is told, and its answer comes anyway. -/
def interruptPoll (a : App) : App := { a with retryAt := 0 }

def begin_ (kind : Request) (call : Call) (a : App) : App :=
  { a with request := some kind, jobs := a.jobs ++ [⟨kind, a.token, call⟩] }

def sendCall (o : OutMsg) (a : App) : Call :=
  if o.gif = [] then .sendMessage (chatId a o.chat) o.text o.replyTo o.typed
  else .sendAnimation (chatId a o.chat) o.gif o.text o.replyTo o.typed

/-- An MP4 waits while another is decoded. -/
def fetchNext (a : App) : Option Wanted :=
  match a.wanted with
  | [] => none
  | w :: _ => if w.kind = .mp4 ∧ a.mp4Busy then none else some w

def startNext (a : App) : App :=
  if a.botName = [] then begin_ .getMe .getMe a
  else match a.outbox with
    | o :: _ => begin_ .send (sendCall o a) a
    | [] => match a.reactOut with
      | r :: _ => begin_ .react (.setMessageReaction (chatId a r.chat) r.msgId r.r r.picked) a
      | [] =>
          if a.photoQueued then begin_ .sendPhoto (.sendPhoto a.photoBody a.photoTyped) a
          else match fetchNext a with
            | some w =>
              if w.path = [] then begin_ .fileInfo (.getFile w.fileId) a
              else begin_ .file (.file w.path) a
            | none => begin_ .poll (.getUpdates a.offset) a

def outNotSent (a : App) : App :=
  match a.outbox with
  | [] => a
  | o :: _ => dropOut (addMsg o.chat (chatId a o.chat) 0 a)

def photoNotSent (a : App) : App :=
  { addMsg a.photoChat (chatId a a.photoChat) 0 a with photoQueued := false }

/-- What is given up with a request that came to nothing. -/
def giveUp (was : Option Request) (a : App) : App :=
  match was with
  | some .fileInfo => dropWanted a
  | some .file => dropWanted a
  | some .sendPhoto => photoNotSent a
  | some .send => outNotSent a
  | some .react => dropReact a
  | _ => a

def refused (now : UInt64) (was : Option Request) (r : Result) (a : App) : App :=
  if r.status = 401 ∨ r.status = 404 then backToSetup a
  else { giveUp was a with retryAt := if r.status = 429 ∨ r.status = 409 then now + 15000 else now + 5000 }

/-- `started` says whether the decoder takes the MP4. -/
def fileCame (started : Bool) (r : Result) (a : App) : App :=
  let busy := match a.wanted with
    | w :: _ => r.status = 200 ∧ r.empty = false ∧ w.kind = .mp4 ∧ started
    | [] => false
  dropWanted { a with mp4Busy := a.mp4Busy || busy }

/-- The bot's own reaction is kept on the newest message with that number in its chat. -/
def keepReaction (rq : React) (a : App) : App :=
  match (List.range (a.msgTotal - a.oldest)).find? fun k =>
      (a.msgAt (a.msgTotal - 1 - k)).chat = some rq.chat ∧ (a.msgAt (a.msgTotal - 1 - k)).id = rq.msgId with
  | some k =>
      let seq := a.msgTotal - 1 - k
      { a with msgs := setMsg (seq % maxMsgs) { a.msgAt seq with myReact := rq.r } a.msgs }
  | none => a

def reacted (a : App) : App :=
  match a.reactOut with
  | [] => a
  | rq :: _ => dropReact (keepReaction rq a)

def gotPath (path : Bytes) (a : App) : App :=
  match a.wanted with
  | [] => dropWanted a
  | w :: rest => if path = [] then dropWanted a else { a with wanted := { w with path := path } :: rest }

/-- A retried poll must not repeat messages. -/
def takeUpdate (a : App) (u : Update) : App :=
  let fresh := match u.id with
    | some id =>
      if id < a.offset then none
      else some { a with offset := id + 1, applied := a.applied ++ [(a.token, u)] }
    | none => some { a with applied := a.applied ++ [(a.token, u)] }
  match fresh with
  | none => a
  | some a => match u.message with
    | some m => takeMessage m a
    | none => a

def accepted (was : Option Request) (p : Payload) (a : App) : App :=
  match was with
  | some .getMe => { a with botName := if p.username = [] then [98, 111, 116] else p.username }
  | some .send => takeMessage p.message (dropOut a)
  | some .react => reacted a
  | some .sendPhoto => takeMessage p.message { a with photoQueued := false }
  | some .fileInfo => gotPath p.filePath a
  | some .poll => p.updates.foldl takeUpdate a
  | _ => a

/-- The answer to the request in flight. -/
def finished (now : UInt64) (started : Bool) (r : Result) (a : App) : App :=
  let was := a.request
  let a := { a with request := none }
  if a.stale then { a with stale := false }
  else match r.err with
    | some e =>
        -- a poll given up for a message to send: nothing went wrong
        if was = some .poll ∧ e = .stopped then a else { giveUp was a with retryAt := now + 5000 }
    | none =>
        if was = some .file then fileCame started r a
        else if r.ok then accepted was r.payload a else refused now was r a

/-- `done` says whether the MP4 in hand is decoded with this turn. -/
def decodeSome (done : Bool) (a : App) : App :=
  if done then
    let a := { a with mp4Busy := false }
    if a.wanted = [] then a else interruptPoll a
  else a

def idle (now : UInt64) (done : Bool) (a : App) : App :=
  if a.setup then a
  else
    let a := if a.mp4Busy then decodeSome done a else a
    if a.request ≠ none ∨ now < a.retryAt then a else startNext a

end Requests

section Menu

def menuEnabled (i : Nat) (a : App) : Bool :=
  match a.menuSeq with
  | none => false
  | some seq =>
      let m := a.msgAt seq
      if i < reactionCount then m.id ≠ 0
      else if i = miRemove then m.id ≠ 0 ∧ m.myReact ≠ none
      else if i = miReply then m.id ≠ 0 ∧ m.chat ≠ none
      else if i = miCopyGif then gifOf seq a ≠ []
      else i = miCopy

/-- The newest message of the chat on the right. -/
def newestShown (a : App) : Option Nat :=
  ((List.range (a.msgTotal - a.oldest)).map fun k => a.msgTotal - 1 - k).find? fun seq =>
    (a.msgAt seq).chat = a.cur

def openAt (seq : Nat) (a : App) : App :=
  let m := a.msgAt seq
  let a := { a with menuSeq := some seq, menuSel := m.myReact.getD 0, menuOn := (m.home, m.id) }
  if menuEnabled a.menuSel a then a else { a with menuSel := miCopy }

def openMenu (seq : Option Nat) (a : App) : App :=
  match seq with
  | some seq => openAt seq a
  | none => match newestShown a with
    | some seq => openAt seq a
    | none => a

def closeMenu (a : App) : App := { a with menuSeq := none }

/-- To the nearest message before, or after, the menu's own in the chat on the right. -/
def menuToMessage (back : Bool) (a : App) : App :=
  match a.menuSeq with
  | none => a
  | some seq =>
      let others := (List.range (a.msgTotal - a.oldest)).map fun k => a.oldest + k
      let next :=
        if back then (others.filter (· < seq)).reverse.find? fun k => (a.msgAt k).chat = a.cur
        else (others.filter (seq < ·)).find? fun k => (a.msgAt k).chat = a.cur
      match next with
      | some k => openAt k a
      | none => a

def moveMenuSel (back : Bool) (a : App) : App :=
  let turn := fun n => if back then (a.menuSel + n * (miCount - 1)) % miCount else (a.menuSel + n) % miCount
  match ((List.range miCount).map fun n => turn (n + 1)).find? fun i => menuEnabled i a with
  | some i => { a with menuSel := i }
  | none => a

def react (seq : Nat) (r : Option Nat) (a : App) : App :=
  let m := a.msgAt seq
  match m.chat with
  | none => a
  | some c =>
      if m.id = 0 ∨ a.reactOut.length = maxReactOut then a
      else
        interruptPoll { a with reactOut := a.reactOut ++ [⟨c, m.id, r, a.token, a.menuOn.1, a.menuOn.2⟩] }

def replyTo (seq : Nat) (a : App) : App :=
  let m := a.msgAt seq
  { a with
    replyChat := m.chat
    replyId := m.id
    replySeq := some seq
    cur := m.chat
    replyIn := (m.home, m.id) }

def cancelReply (a : App) : App :=
  { a with replyChat := none, replyId := 0, replySeq := none, replyIn := ([], 0) }

def pickMenu (i : Nat) (a : App) : App :=
  match a.menuSeq with
  | none => a
  | some seq =>
      if i ≥ miCount ∨ menuEnabled i a = false then a
      else
        let a := { a with menuSeq := none }
        if i < reactionCount then react seq (some i) a
        else if i = miRemove then react seq none a
        else if i = miReply then replyTo seq a
        else if i = miCopyGif then { a with clipGif := gifOf seq a }
        else a

end Menu

section Input

structure Key where
  ctrl : Bool
  shift : Bool
  alt : Bool
  isChar : Bool
  char : UInt8
  escape : Bool
  tab : Bool
  enter : Bool
  backspace : Bool
  arrowUp : Bool
  arrowDown : Bool
  pageUp : Bool
  pageDown : Bool

/-- Memento's clipboard: text, or a picture, with what its file reads as. -/
structure Clipboard where
  text : Bytes
  image : Bool
  file : Option Bytes

def Key.is (k : Key) (lower upper : UInt8) : Bool := k.isChar && (k.char == lower || k.char == upper)

def toggleSettings (a : App) : App :=
  if a.settingsOpen then { a with settingsOpen := false } else closeMenu { a with settingsOpen := true }

def settingsKey (k : Key) (a : App) : App := if k.escape then toggleSettings a else a

def menuKey (k : Key) (a : App) : App :=
  if k.escape || k.tab || (k.isChar && k.char == 32 && (k.ctrl || k.alt)) then closeMenu a
  else if k.arrowDown then moveMenuSel false a
  else if k.arrowUp then moveMenuSel true a
  else if k.pageUp then menuToMessage true a
  else if k.pageDown then menuToMessage false a
  else if k.enter || (k.isChar && k.char == 32) then pickMenu a.menuSel a
  else if k.ctrl && k.is 99 67 then pickMenu miCopy a
  else if k.isChar && !k.ctrl then
    if 49 ≤ k.char && k.char < 58 then pickMenu (k.char.toNat - 49) a
    else if k.char == 48 then pickMenu miRemove a
    else if k.is 99 67 then pickMenu miCopy a
    else if k.is 114 82 then pickMenu miReply a
    else if k.is 103 71 then pickMenu miCopyGif a
    else a
  else a

def inputCap (a : App) : Nat := if a.setup then tokenCap - 1 else inCap

def attachScreenshot (file : Option Bytes) (a : App) : App :=
  match file with
  | none => a
  | some png =>
      if png.length < 24 ∨ (png.drop 1).take 3 ≠ [80, 78, 71] then a
      else { a with attachGif := [], attachment := some png }

/-- A byte of pasted text; a copied token often brings a space along. -/
def pasteByte (a : App) (c : UInt8) : App :=
  if a.input.length ≥ inputCap a then a
  else if a.setup && (c == 32 || c == 9) then a
  else if 32 ≤ c then { a with input := a.input ++ [c] } else a

def paste (clip : Clipboard) (a : App) : App :=
  if !a.setup && clip.image then attachScreenshot clip.file a
  else if !a.setup && !(a.clipGif == []) && clip.text == [91, 71, 73, 70, 93] then
    { a with attachGif := a.clipGif, attachment := none }
  else clip.text.foldl pasteByte a

/-- The message answered, when it is in the chat written to. -/
def answering (cur : Nat) (a : App) : Int := if a.replyChat = some cur then a.replyId else 0

def typedNow (cur : Nat) (a : App) : Typed := ⟨a.token, chatId a cur, a.replyIn⟩

def sendPhoto (cur : Nat) (png : Bytes) (a : App) : App :=
  if a.photoQueued then a
  else
    let body : PhotoBody := ⟨chatId a cur, a.input, answering cur a, png⟩
    let a := { a with
      photoBody := body, photoTyped := typedNow cur a, attachment := none, photoQueued :=
        true, photoChat := cur
      input := [] }
    interruptPoll (cancelReply a)

def sendText (cur : Nat) (a : App) : App :=
  if a.outbox.length = maxOut then a
  else
    let item : OutMsg := ⟨cur, answering cur a, a.attachGif, a.input, typedNow cur a⟩
    interruptPoll (cancelReply { a with outbox := a.outbox ++ [item], attachGif := [], input := [] })

def send (a : App) : App :=
  if a.input = [] ∧ a.attachment = none ∧ a.attachGif = [] then a
  else match a.cur with
    | none => a
    | some cur => match a.attachment with
      | some png => sendPhoto cur png a
      | none => sendText cur a

def backspace (a : App) : App :=
  if a.input ≠ [] then { a with input := a.input.dropLast }
  else if a.attachment ≠ none then { a with attachment := none }
  else { a with attachGif := [] }

def nextChat (shift : Bool) (a : App) : App :=
  let a := cancelReply a
  let step := if shift then a.chats.length - 1 else 1
  { a with cur := some ((a.cur.getD 0 + step) % a.chats.length) }

def key (k : Key) (clip : Clipboard) (a : App) : App :=
  if k.ctrl && k.is 115 83 then toggleSettings a
  else if a.settingsOpen then settingsKey k a
  else if a.menuSeq.isSome then menuKey k a
  else if !a.setup && k.isChar && k.char == 32 && (k.ctrl || k.alt) then openMenu none a
  else if k.escape then
    -- or the window is closed
    if a.setup = false ∧ a.replyId ≠ 0 then cancelReply a else a
  else if k.backspace then backspace a
  else if k.ctrl && k.is 118 86 then paste clip a
  else if k.ctrl && k.is 99 67 then a
  else if a.setup && k.enter then enterToken a
  else if !a.setup && k.ctrl && k.is 116 84 then backToSetup a
  else if !a.setup && k.tab && !a.chats.isEmpty then nextChat k.shift a
  else if !a.setup && (k.arrowUp || k.pageUp || k.arrowDown || k.pageDown) then a
  else if !a.setup && k.enter && k.shift then
    if a.input.length < inCap then { a with input := a.input ++ [10] } else a
  else if !a.setup && k.enter then send a
  else if k.isChar && !k.ctrl && a.input.length < inputCap a then { a with input := a.input ++ [k.char] }
  else a

def inside (x y left top width height : Int) : Bool :=
  left ≤ x && x < left + width && top ≤ y && y < top + height

def settingsButtonAt (x y : Int) (a : App) : Bool :=
  inside x y 4 (a.height - rowH - 8) (max (min (chatsW - 8) (a.width - 8)) 0) (rowH + 4)

def settingsClick (x y : Int) (right : Bool) (a : App) : App :=
  let w := max (min (a.width - 12) 360) 0
  let h := max (min (a.height - 12) 132) 0
  let l := (a.width - w).tdiv 2
  let t := (a.height - h).tdiv 2
  if right then a
  else if inside x y (l + 12) (t + 32) (w - 24) (rowH + 6) then a
  else if inside x y (l + w - 84) (t + h - 28) 72 (rowH + 4) || settingsButtonAt x y a then toggleSettings a
  else a

def menuItemAt (x y : Int) (l : Layout) : Option Nat :=
  if x < l.menuL ∨ x ≥ l.menuL + l.menuW ∨ y < l.menuT + 4 then none
  else if (y - l.menuT - 4) / rowH < miCount then some ((y - l.menuT - 4) / rowH).toNat else none

def messageAt (x y : Int) (l : Layout) : Option Nat :=
  if x < l.msgX ∨ x ≥ l.msgX + l.msgW ∨ y < l.msgTop then none
  else
    let row := (y - l.msgTop) / rowH
    if row < l.visibleRows ∧ row < rowsCap then l.rowSeq row.toNat else none

def clickChat (x y : Int) (a : App) : App :=
  let row := ((y - 6) / rowH).toNat
  if x ≥ chatsW then a
  else if 6 ≤ y ∧ row < a.chats.length then
    { (if some row = a.cur then a else cancelReply a) with cur := some row }
  else a

def clickMessages (x y : Int) (right : Bool) (a : App) : App :=
  if right then
    match messageAt x y a.layout with
    | some seq => openMenu (some seq) a
    | none => a
  else clickChat x y a

def click (x y : Int) (right : Bool) (a : App) : App :=
  if a.settingsOpen then settingsClick x y right a
  else if !right && settingsButtonAt x y a then toggleSettings a
  else if a.setup then a
  else if a.menuSeq.isSome then
    match menuItemAt x y a.layout with
    | some i => if right then a else pickMenu i a
    | none => clickMessages x y right (closeMenu a)
  else clickMessages x y right a

end Input

/-- `newApp` and `start`: `token` is what the files hold. -/
def start (token : Option Bytes) (width height : Int) (layout : Layout) (msgs : Nat → Msg) : App :=
  let noTyped : Typed := ⟨[], [], [], 0⟩
  let a : App :=
    { token := [], setup := true, botName := [], offset := 0, request := none, stale := false, retryAt := 0
      reactOut := [], menuSeq := none, menuSel := 0, layout := { layout with rowSeq := fun _ => none }
      width := width, height := height, settingsOpen := false, attachment := none
      photoBody := ⟨[], [], 0, []⟩, photoQueued := false, photoChat := 0, attachGif := [], clipGif := []
      replyChat := none, replySeq := none, replyId := 0, chats := [], cur := none, msgs := msgs, msgTotal := 0
      wanted := [], mp4Busy := false, gifRefs := fun _ => ⟨none, []⟩, nextGif := 0, outbox := [], input := []
      jobs := [], applied := [], replyIn := ([], 0), menuOn := ([], 0), photoTyped := noTyped }
  match token with
  | some t => if validToken t then startChatting { a with token := t } else a
  | none => a

/-- What comes to the loop of `main`: the window's events, and a turn with the answer that has come,
if one has, which ends with a new picture. -/
inductive Event where
  | key (k : Key) (clip : Clipboard)
  | click (x y : Int) (right : Bool)
  | resize (width height : Int)
  | turn (answer : Option Result) (at_ now : UInt64) (started done : Bool) (layout : Layout)

/-- The rows show messages of the ring, in the chat on the right. -/
def Layout.shows (l : Layout) (a : App) : Prop :=
  ∀ row seq, l.rowSeq row = some seq → a.oldest ≤ seq ∧ seq < a.msgTotal ∧ (a.msgAt seq).chat = a.cur

/-- In the setup the rows stay as they are. -/
def paint (layout : Layout) (a : App) : App := if a.setup then a else { a with layout := layout }

def takeAnswer (answer : Option Result) (at_ : UInt64) (started : Bool) (a : App) : App :=
  match answer with
  | some r => finished at_ started r a
  | none => a

def step (a : App) : Event → App
  | .key k clip => key k clip a
  | .click x y right => click x y right a
  | .resize width height => { a with width := width, height := height }
  | .turn answer at_ now started done layout => paint layout (idle now done (takeAnswer answer at_ started a))

/-- The worker answers a request in flight, once; the picture shows the messages there are. -/
def Legal (a : App) : Event → Prop
  | .turn answer at_ now started done layout =>
      (answer ≠ none → a.request ≠ none) ∧ layout.shows (idle now done (takeAnswer answer at_ started a))
  | _ => True

end R2Apps.TelegramApp
