import R2Apps.TelegramQueues

/-! Whatever the user and the network do, a request of the Telegram client goes where it was
meant to go, as long as no chat makes room under something queued and no other bot's
token comes while something is queued. Each of the two can go wrong. -/
namespace R2Apps.TelegramSending
open TelegramApp TelegramSession TelegramQueues

section Outgoing
variable {a : App}

theorem submit_sound (s : Sound (core a)) {kind : Request} {call : Call}
    (right : Rightly ⟨kind, a.token, call⟩) :
    Sound (core (begin_ kind call a)) := s.submit right

theorem sendCall_rightly (s : Sound (core a)) {o : OutMsg} (member : o ∈ a.outbox) :
    Rightly ⟨.send, a.token, sendCall o a⟩ := by
  obtain ⟨⟨-, same⟩, reply, owner⟩ := s.out o member
  unfold sendCall
  split
  · exact ⟨same, reply, owner.symm⟩
  · exact ⟨same, reply, owner.symm⟩

theorem startNext_sound (s : Sound (core a)) : Sound (core (startNext a)) := by
  unfold startNext
  split
  · exact submit_sound s trivial
  · split
    · next o rest queue =>
      exact submit_sound s (sendCall_rightly s (queue ▸ List.mem_cons_self))
    · split
      · next r rest queue =>
        have member : r ∈ a.reactOut := queue ▸ List.mem_cons_self
        obtain ⟨⟨-, same⟩, number, owner⟩ := s.react r member
        exact submit_sound s ⟨same, number, owner.symm⟩
      · split
        · next queued =>
          obtain ⟨place, reply, owner⟩ := s.photo queued
          exact submit_sound s ⟨place, reply, owner.symm⟩
        · split
          · split <;> exact submit_sound s trivial
          · exact submit_sound s trivial

theorem idle_sound (now : UInt64) (done : Bool) (s : Sound (core a)) : Sound (core (idle now done a)) := by
  have decoded : core (if a.mp4Busy then decodeSome done a else a) = core a := by
    split
    · exact decodeSome_core a done
    · rfl
  have next : ∀ b : App, core b = core a →
      Sound (core (if b.request ≠ none ∨ now < b.retryAt then b else startNext b)) := by
    intro b same
    split
    · exact same ▸ s
    · exact startNext_sound (same ▸ s)
  unfold idle
  split
  · exact s
  · exact next _ decoded

end Outgoing

section Menu
variable {a : App}

theorem openAt_core (seq : Nat) (a : App) : core (openAt seq a) =
    { core a with menuSeq := some seq, menuOn := ((a.msgAt seq).home, (a.msgAt seq).id) } := by
  unfold openAt
  dsimp only
  split <;> rfl

theorem openAt_sound {seq : Nat} (s : Sound (core a)) (inside : InRing a.msgTotal seq) :
    Sound (core (openAt seq a)) := by
  rw [openAt_core]
  exact { s with menu := fun _ on => Option.some.inj on ▸ ⟨inside, rfl⟩ }

theorem newestShown_inside {seq : Nat} (found : newestShown a = some seq) : InRing a.msgTotal seq := by
  obtain ⟨k, member, same⟩ := List.mem_map.mp (List.mem_of_find?_eq_some found)
  have bound : k < a.msgTotal - a.oldest := List.mem_range.mp member
  simp only [App.oldest] at bound
  exact ⟨by omega, by omega⟩

theorem openMenu_sound {seq : Option Nat} (s : Sound (core a))
    (inside : ∀ k, seq = some k → InRing a.msgTotal k) : Sound (core (openMenu seq a)) := by
  unfold openMenu
  split
  · next k => exact openAt_sound s (inside k rfl)
  · split
    · next k found => exact openAt_sound s (newestShown_inside found)
    · exact s

theorem menuToMessage_sound (back : Bool) (s : Sound (core a)) : Sound (core (menuToMessage back a)) := by
  have ring : ∀ k ∈ (List.range (a.msgTotal - a.oldest)).map fun k => a.oldest + k, InRing a.msgTotal k := by
    intro k member
    obtain ⟨j, within, rfl⟩ := List.mem_map.mp member
    have bound : j < a.msgTotal - a.oldest := List.mem_range.mp within
    simp only [App.oldest] at bound ⊢
    exact ⟨by omega, by omega⟩
  unfold menuToMessage
  split
  · exact s
  · dsimp only
    split
    · next k found =>
      refine openAt_sound s (ring k ?_)
      split at found
      · exact List.mem_of_mem_filter (List.mem_reverse.mp (List.mem_of_find?_eq_some found))
      · exact List.mem_of_mem_filter (List.mem_of_find?_eq_some found)
    · exact s

theorem react_sound {seq : Nat} (r : Option Nat) (s : Sound (core a)) (inside : InRing a.msgTotal seq)
    (on : a.menuOn = ((a.msgAt seq).home, (a.msgAt seq).id)) : Sound (core (react seq r a)) := by
  unfold react
  dsimp only
  split
  · exact s
  · next c chat =>
    split
    · exact s
    · next free =>
      have placed : Placed a.chats c (a.msgAt seq).home :=
        s.ring seq inside c chat fun zero => free (Or.inl zero)
      refine { s with react := fun item member => ?_ }
      rcases List.mem_append.mp member with old | new
      · exact s.react item old
      · cases List.mem_singleton.mp new
        exact ⟨by rw [on]; exact placed, by rw [on], rfl⟩

theorem replyTo_sound {seq : Nat} (s : Sound (core a)) (inside : InRing a.msgTotal seq)
    (numbered : (a.msgAt seq).id ≠ 0) (owned : (a.msgAt seq).chat ≠ none) : Sound (core (replyTo seq a)) := by
  obtain ⟨c, chat⟩ := Option.ne_none_iff_exists'.mp owned
  have placed : Placed a.chats c (a.msgAt seq).home := s.ring seq inside c chat numbered
  exact
    { s with
      shown := fun i same => by
        have same : (a.msgAt seq).chat = some i := same
        rw [chat] at same
        exact Option.some.inj same ▸ placed.1
      reply := fun _ => ⟨c, chat, placed, rfl⟩ }

theorem pickMenu_sound (i : Nat) (s : Sound (core a)) : Sound (core (pickMenu i a)) := by
  unfold pickMenu
  split
  · exact s
  · next seq on =>
    obtain ⟨inside, picture⟩ := s.menu seq on
    split
    · exact s
    · next legal =>
      have enabled : menuEnabled i a = true := by
        rw [not_or] at legal
        exact Bool.of_not_eq_false legal.2
      have closed : Sound (core { a with menuSeq := none }) := s.without_menu
      dsimp only
      split
      · exact react_sound (some i) closed inside picture
      · next high =>
        split
        · exact react_sound none closed inside picture
        · next notRemove =>
          split
          · next reply =>
            simp only [menuEnabled, on, if_neg high, if_neg notRemove, if_pos reply, decide_eq_true_iff]
              at enabled
            exact replyTo_sound closed inside enabled.1 enabled.2
          · split
            · exact closed
            · exact closed

end Menu

section Writing
variable {a : App}

theorem answering_right {cur : Nat} (s : Sound (core a)) (nonzero : answering cur a ≠ 0) :
    (typedNow cur a).answered = ((typedNow cur a).chatId, answering cur a) := by
  unfold answering at nonzero ⊢
  split at nonzero
  · next same =>
    rw [if_pos same]
    obtain ⟨c, chat, ⟨-, home⟩, number⟩ := s.reply nonzero
    have here : c = cur := Option.some.inj (chat.symm.trans same)
    exact Prod.ext (home.symm.trans (by rw [here]; rfl)) number
  · exact absurd rfl nonzero

theorem sendText_sound {cur : Nat} (s : Sound (core a)) (inTable : cur < a.chats.length) :
    Sound (core (sendText cur a)) := by
  unfold sendText
  split
  · exact s
  · refine Sound.without_reply (c := core { a with outbox := a.outbox ++ [⟨cur, answering cur a, a.attachGif,
      a.input, typedNow cur a⟩] }) { s with out := fun o member => ?_ }
    rcases List.mem_append.mp member with old | new
    · exact s.out o old
    · cases List.mem_singleton.mp new
      exact ⟨⟨inTable, rfl⟩, answering_right s, rfl⟩

theorem sendPhoto_sound {cur : Nat} {png : Bytes} (s : Sound (core a)) :
    Sound (core (sendPhoto cur png a)) := by
  unfold sendPhoto
  split
  · exact s
  · have body : GoodPhoto a.token ⟨chatId a cur, a.input, answering cur a, png⟩ (typedNow cur a) :=
      ⟨rfl, answering_right s, rfl⟩
    exact Sound.without_reply (c := core { a with
      photoBody := ⟨chatId a cur, a.input, answering cur a, png⟩, photoTyped := typedNow cur a
      photoQueued := true }) { s with photo := fun _ => body }

theorem send_sound (s : Sound (core a)) : Sound (core (send a)) := by
  unfold send
  split
  · exact s
  · split
    · exact s
    · next cur shown =>
      split
      · exact sendPhoto_sound s
      · exact sendText_sound s (s.shown cur shown)

theorem nextChat_sound (shift : Bool) (s : Sound (core a)) (some_ : a.chats ≠ []) :
    Sound (core (nextChat shift a)) := by
  have cancelled : Sound (core (cancelReply a)) := s.without_reply
  exact cancelled.show_chat (Nat.mod_lt _ (List.length_pos_iff.mpr some_))

theorem clickChat_sound (x y : Int) (s : Sound (core a)) : Sound (core (clickChat x y a)) := by
  unfold clickChat
  dsimp only
  split
  · exact s
  · split
    · next row =>
      split
      · exact s.show_chat row.2
      · exact s.without_reply.show_chat row.2
    · exact s

theorem toggleSettings_sound (s : Sound (core a)) : Sound (core (toggleSettings a)) := by
  unfold toggleSettings
  split
  · exact s
  · exact s.without_menu

end Writing

section Events
variable {a : App}

/-- Nothing is queued. -/
def Quiet (a : App) : Prop := a.outbox = [] ∧ a.reactOut = [] ∧ a.photoQueued = false

/-- No chat makes room under something queued, and no other bot's token comes while something is. -/
def Careful (a : App) : Event → Prop
  | .key k _ => enters k a → bot a.input = bot a.token ∨ Quiet a
  | .turn (some r) _ _ _ _ _ => a.stale = false → r.err = none → r.ok = true → Roomy a r
  | _ => True

theorem entered_sound (s : Sound (core a)) (careful : bot a.input = bot a.token ∨ Quiet a) :
    Sound (core (entered a)) := by
  rcases careful with same | ⟨noOut, noReact, noPhoto⟩
  · exact
      { s with
        out := fun o member =>
          ⟨(s.out o member).place, (s.out o member).reply, (s.out o member).owner.trans same.symm⟩
        react := fun r member =>
          ⟨(s.react r member).place, (s.react r member).number, (s.react r member).owner.trans same.symm⟩
        photo := fun queued =>
          ⟨(s.photo queued).place, (s.photo queued).reply, (s.photo queued).owner.trans same.symm⟩ }
  · exact
      { s with
        out := fun o member => absurd (noOut ▸ (show o ∈ a.outbox from member)) List.not_mem_nil
        react := fun r member => absurd (noReact ▸ (show r ∈ a.reactOut from member)) List.not_mem_nil
        photo := fun queued =>
          absurd (noPhoto.symm.trans (show a.photoQueued = true from queued)) Bool.false_ne_true }

theorem menuKey_sound (k : Key) (s : Sound (core a)) : Sound (core (menuKey k a)) := by
  have pick : ∀ i, Sound (core (pickMenu i a)) := fun i => pickMenu_sound i s
  have moves : ∀ back, Sound (core (moveMenuSel back a)) := fun back => by
    rw [moveMenuSel_core]
    exact s
  have choose : ∀ (p : Prop) [Decidable p] (x y : App), Sound (core x) → Sound (core y) →
      Sound (core (if p then x else y)) := by
    intro p _ x y first second
    split
    · exact first
    · exact second
  have letters : Sound (core (if 49 ≤ k.char && k.char < 58 then pickMenu (k.char.toNat - 49) a
      else if k.char == 48 then pickMenu miRemove a
      else if k.is 99 67 then pickMenu miCopy a
      else if k.is 114 82 then pickMenu miReply a
      else if k.is 103 71 then pickMenu miCopyGif a
      else a)) :=
    choose _ _ _ (pick _) (choose _ _ _ (pick _) (choose _ _ _ (pick _) (choose _ _ _ (pick _)
      (choose _ _ _ (pick _) s))))
  unfold menuKey
  exact choose _ _ _ s.without_menu (choose _ _ _ (moves false) (choose _ _ _ (moves true)
    (choose _ _ _ (menuToMessage_sound true s) (choose _ _ _ (menuToMessage_sound false s)
      (choose _ _ _ (pick _) (choose _ _ _ (pick _) (choose _ _ _ letters s)))))))

theorem key_sound (k : Key) (clip : Clipboard) (s : Sound (core a))
    (careful : enters k a → bot a.input = bot a.token ∨ Quiet a) : Sound (core (key k clip a)) := by
  have keys : Sound (core (settingsKey k a)) := by
    unfold settingsKey
    split
    · exact toggleSettings_sound s
    · exact s
  exact key_rule a (P := fun b => Sound (core b)) k clip (toggleSettings_sound s) keys (menuKey_sound k s)
    (openMenu_sound s fun _ no => absurd no.symm (Option.some_ne_none _)) s.without_reply
    (backspace_core a ▸ s) (paste_core a clip ▸ s) s (fun enter => entered_sound s (careful enter))
    (fun _ => backToSetup_core a ▸ s) (nextChat_sound k.shift s) (fun _ => s) (send_sound s)

/-- The rows of the picture show messages of the ring. -/
def RowsIn (a : App) : Prop := ∀ row seq, a.layout.rowSeq row = some seq → InRing a.msgTotal seq

theorem messageAt_inside {x y : Int} {seq : Nat} (rows : RowsIn a)
    (found : messageAt x y a.layout = some seq) :
    InRing a.msgTotal seq := by
  unfold messageAt at found
  dsimp only at found
  split at found
  · exact absurd found.symm (Option.some_ne_none seq)
  · split at found
    · exact rows _ seq found
    · exact absurd found.symm (Option.some_ne_none seq)

theorem clickMessages_sound (x y : Int) (right : Bool) (s : Sound (core a)) (rows : RowsIn a) :
    Sound (core (clickMessages x y right a)) := by
  unfold clickMessages
  split
  · split
    · next seq found =>
      exact openMenu_sound s fun k same => Option.some.inj same ▸ messageAt_inside rows found
    · exact s
  · exact clickChat_sound x y s

theorem click_sound (x y : Int) (right : Bool) (s : Sound (core a)) (rows : RowsIn a) :
    Sound (core (click x y right a)) := by
  unfold click
  split
  · unfold settingsClick
    dsimp only
    repeat' split
    all_goals first
      | exact toggleSettings_sound s
      | exact s
  split
  · exact toggleSettings_sound s
  split
  · exact s
  split
  · split
    · split
      · exact s
      · exact pickMenu_sound _ s
    · exact clickMessages_sound (a := closeMenu a) x y right s.without_menu rows
  · exact clickMessages_sound x y right s rows

/-- The setup has no request whose answer is still wanted. -/
def Waiting (a : App) : Prop := a.setup = true → a.request ≠ none → a.stale = true

structure Steady (a : App) : Prop where
  sound : Sound (core a)
  rows : RowsIn a
  waiting : Waiting a

theorem still_rows {b : App} (same : still b = still a) (rows : RowsIn a) : RowsIn b := by
  have layout : b.layout = a.layout := congrArg (·.1) same
  have total : b.msgTotal = a.msgTotal := congrArg (·.2.1) same
  intro row seq shown
  rw [layout] at shown
  rw [total]
  exact rows row seq shown

theorem still_waiting {b : App} (same : still b = still a) (waiting : Waiting a) : Waiting b := by
  have setup : b.setup = a.setup := congrArg (·.2.2.2.1) same
  have request : b.request = a.request := congrArg (·.2.2.2.2.2.2.1) same
  have stale : b.stale = a.stale := congrArg (·.2.2.2.2.2.2.2.1) same
  unfold Waiting
  rw [setup, request, stale]
  exact waiting

theorem backToSetup_waiting (a : App) : Waiting (backToSetup a) := by
  intro _ asked
  unfold backToSetup at asked ⊢
  dsimp only at asked ⊢
  split at asked
  · next busy =>
    rw [if_pos busy]
  · next free => exact absurd asked free

theorem backToSetup_rows (rows : RowsIn a) : RowsIn (backToSetup a) := by
  unfold backToSetup
  dsimp only
  split <;> exact rows

theorem key_steady (k : Key) (clip : Clipboard) (steady : Steady a)
    (careful : enters k a → bot a.input = bot a.token ∨ Quiet a) : Steady (key k clip a) := by
  have sound := key_sound k clip steady.sound careful
  rcases key_cases a k clip with same | ⟨-, same⟩ | ⟨-, same⟩
  · exact ⟨sound, still_rows same steady.rows, still_waiting same steady.waiting⟩
  · rw [same] at sound ⊢
    exact ⟨sound, steady.rows, fun setup => absurd setup Bool.false_ne_true⟩
  · rw [same] at sound ⊢
    exact ⟨sound, backToSetup_rows steady.rows, backToSetup_waiting a⟩

end Events

/-! A turn of the loop, and runs. -/
section Runs
variable {a : App}

theorem idle_setup (now : UInt64) (done : Bool) (inSetup : (idle now done a).setup = true) :
    a.setup = true ∧ idle now done a = a := by
  by_cases setup : a.setup = true
  · exact ⟨setup, by rw [idle, if_pos setup]⟩
  · -- the rest of the function keeps the client chatting
    have decoded : (if a.mp4Busy then decodeSome done a else a).setup = a.setup := by
      unfold decodeSome
      split
      · split
        · dsimp only
          split <;> rfl
        · rfl
      · rfl
    have chatting : ∀ b : App, b.setup = a.setup →
        (if b.request ≠ none ∨ now < b.retryAt then b else startNext b).setup = a.setup := by
      intro b same
      split
      · exact same
      · unfold startNext
        repeat' split
        all_goals exact same
    have same : (idle now done a).setup = a.setup := by
      rw [idle, if_neg setup]
      exact chatting _ decoded
    exact absurd (same.symm.trans inSetup) setup

theorem answer_setup {answer : Option Result} {at_ : UInt64} {started : Bool} (steady : Steady a)
    (asked : answer ≠ none → a.request ≠ none) (inSetup : (takeAnswer answer at_ started a).setup = true) :
    RowsIn (takeAnswer answer at_ started a) ∧ Waiting (takeAnswer answer at_ started a) := by
  cases answer with
  | none => exact ⟨steady.rows, steady.waiting⟩
  | some r =>
      simp only [takeAnswer] at inSetup ⊢
      rcases finished_cases at_ started r a with ⟨same, -⟩ | ⟨-, same⟩
      · have setup : (finished at_ started r a).setup = a.setup := congrArg (·.2.1) same
        have stale := steady.waiting (setup.symm.trans inSetup) (asked (Option.some_ne_none r))
        rw [finished_stale at_ started r stale]
        exact ⟨steady.rows, fun _ busy => absurd rfl busy⟩
      · rw [same]
        exact ⟨backToSetup_rows steady.rows, backToSetup_waiting _⟩

theorem turn_steady {answer : Option Result} {at_ now : UInt64} {started done : Bool} {layout : Layout}
    (steady : Steady a) (legal : Legal a (.turn answer at_ now started done layout))
    (careful : Careful a (.turn answer at_ now started done layout)) :
    Steady (step a (.turn answer at_ now started done layout)) := by
  have answered : Sound (core (takeAnswer answer at_ started a)) := by
    cases answer with
    | none => exact steady.sound
    | some r => exact finished_sound at_ started steady.sound careful
  have idled := idle_sound now done answered
  simp only [step]
  unfold paint
  split
  · next inSetup =>
    obtain ⟨before, same⟩ := idle_setup now done inSetup
    obtain ⟨rows, waiting⟩ := answer_setup steady legal.1 before
    rw [same] at idled ⊢
    exact ⟨idled, rows, waiting⟩
  · next chatting =>
    exact ⟨idled, fun row seq shown => ⟨(legal.2 row seq shown).1, (legal.2 row seq shown).2.1⟩,
      fun setup => absurd setup chatting⟩

theorem step_steady {e : Event} (steady : Steady a) (legal : Legal a e) (careful : Careful a e) :
    Steady (step a e) := by
  cases e with
  | key k clip => exact key_steady k clip steady careful
  | click x y right =>
      exact ⟨click_sound x y right steady.sound steady.rows, still_rows (click_still a x y right) steady.rows,
        still_waiting (click_still a x y right) steady.waiting⟩
  | resize width height => exact ⟨steady.sound, steady.rows, steady.waiting⟩
  | turn answer at_ now started done layout => exact turn_steady steady legal careful

/-- The runs all of whose steps meet a condition. -/
inductive Reach (ok : App → Event → Prop) : App → Prop where
  | start (token : Option Bytes) (width height : Int) (layout : Layout) (msgs : Nat → Msg) :
      Reach ok (start token width height layout msgs)
  | next {a : App} (e : Event) : Reach ok a → Legal a e → ok a e → Reach ok (step a e)

theorem Reach.weaken {ok ok' : App → Event → Prop} (weaker : ∀ a e, ok a e → ok' a e) {a : App}
    (reached : Reach ok a) : Reach ok' a := by
  induction reached with
  | start token width height layout msgs => exact .start token width height layout msgs
  | next e _ legal kept ih => exact .next e ih legal (weaker _ e kept)

theorem start_steady (token : Option Bytes) (width height : Int) (layout : Layout) (msgs : Nat → Msg) :
    Steady (start token width height layout msgs) := by
  have no : ∀ seq, ¬InRing 0 seq := fun seq inside => Nat.not_lt_zero seq inside.2
  have sound : ∀ token : Bytes,
    Sound ⟨token, [], none, msgs, 0, [], [], false, ⟨[], [], 0, []⟩, ⟨[], [], [], 0⟩,
      none, 0, ([], 0), none, ([], 0), []⟩ := fun token =>
    { seats := Nat.zero_le _
      shown := fun _ none_ => absurd none_.symm (Option.some_ne_none _)
      ring := fun seq inside => absurd inside (no seq)
      out := fun _ member => absurd member List.not_mem_nil
      react := fun _ member => absurd member List.not_mem_nil
      photo := fun queued => absurd queued Bool.false_ne_true
      reply := fun nonzero => absurd rfl nonzero
      menu := fun _ none_ => absurd none_.symm (Option.some_ne_none _)
      jobs := fun _ member => absurd member List.not_mem_nil }
  have rows : ∀ row seq, (fun _ : Nat => (none : Option Nat)) row = some seq → InRing 0 seq :=
    fun _ _ none_ => absurd none_.symm (Option.some_ne_none _)
  unfold start
  dsimp only
  split
  · next t =>
    split
    · exact ⟨sound t, rows, fun setup => absurd setup Bool.false_ne_true⟩
    · exact ⟨sound [], rows, fun _ busy => absurd rfl busy⟩
  · exact ⟨sound [], rows, fun _ busy => absurd rfl busy⟩

theorem reach_steady (reached : Reach Careful a) : Steady a := by
  induction reached with
  | start token width height layout msgs => exact start_steady token width height layout msgs
  | next e _ legal careful ih => exact step_steady ih legal careful

/-- In every run in which no chat makes room under something queued and no other bot's token comes
while something is queued, every request goes to the chat it was written in, answers and reacts to a
message of that chat, and carries the token of the bot it was written for. -/
theorem requests_right : ∀ a, Reach Careful a → ∀ j ∈ a.jobs, Rightly j :=
  fun _ reached => (reach_steady reached).sound.jobs

end Runs

/-! Runs with answers of the server: in one a text is queued for the twelfth chat, and a thirteenth writes. -/
section Thirteenth

def Unguarded : App → Event → Prop := fun _ _ => True

def blank : Layout := ⟨0, 0, 0, 0, 0, 0, 0, fun _ => none⟩

def noPayload : Payload := ⟨[], ⟨none, [], 0, [], []⟩, [], []⟩

def answer (p : Payload) : Event := .turn (some ⟨none, 200, false, true, p⟩) 0 0 false false blank

def waitTurn : Event := .turn none 0 0 false false blank

/-- The update `n` is a message of the chat `n`. -/
def update (n : Nat) : Update := ⟨some n, some ⟨some [UInt8.ofNat n], [], n, [], []⟩⟩

def pressed (k : Key) : Event := .key k ⟨[], false, none⟩

def noKey : Key := ⟨false, false, false, false, 0, false, false, false, false, false, false, false, false⟩

def token : Bytes := [49, 58] ++ List.replicate 20 65

def begun : App := start (some token) 600 340 blank fun _ => ⟨none, [], 0, none⟩

def events : List Event :=
  [waitTurn, answer { noPayload with username := [98] },
    answer { noPayload with updates := (List.range 12).map fun n => update (n + 1) },
    pressed { noKey with tab := true, shift := true }, pressed { noKey with isChar := true, char := 120 },
    pressed { noKey with enter := true }, answer { noPayload with updates := [update 13] }]

theorem blank_shows (a : App) : blank.shows a := fun _ _ none_ => absurd none_.symm (Option.some_ne_none _)

def answers : Event → Bool
  | .turn answer _ _ _ _ _ => answer.isSome
  | _ => false

/-- Whether each answer finds its request and each event passes `check`. -/
def asked (check : App → Event → Bool) : App → List Event → Bool
  | _, [] => true
  | a, e :: rest => (!answers e || a.request.isSome) && check a e && asked check (step a e) rest

def run (a : App) (es : List Event) : App := es.foldl step a

def Blank (e : Event) : Prop :=
  ∀ r at_ now started done layout, e = .turn r at_ now started done layout → layout = blank

theorem answer_blank (p : Payload) : Blank (answer p) := by
  rintro r at_ now started done layout ⟨⟩
  rfl

theorem waitTurn_blank : Blank waitTurn := by
  rintro r at_ now started done layout ⟨⟩
  rfl

theorem pressed_blank (k : Key) : Blank (pressed k) := by
  rintro r at_ now started done layout ⟨⟩

theorem run_reached {ok : App → Event → Prop} (check : App → Event → Bool)
    (sound : ∀ a e, check a e = true → ok a e) (es : List Event) : ∀ a, Reach ok a → asked check a es = true →
      (∀ e ∈ es, Blank e) → Reach ok (run a es) := by
  induction es with
  | nil => exact fun a reached _ _ => reached
  | cons e rest ih =>
      intro a reached legal blanks
      rw [asked, Bool.and_eq_true, Bool.and_eq_true] at legal
      obtain ⟨⟨inFlight, checked⟩, others⟩ := legal
      have lawful : Legal a e := by
        cases e with
        | turn r at_ now started done layout =>
            rw [blanks _ List.mem_cons_self r at_ now started done layout rfl]
            constructor
            · intro answered
              have some_ : r.isSome = true := Option.isSome_iff_ne_none.mpr answered
              simp only [answers, some_, Bool.not_true, Bool.false_or] at inFlight
              exact Option.isSome_iff_ne_none.mp inFlight
            · exact blank_shows _
        | key k clip => trivial
        | click x y right => trivial
        | resize width height => trivial
      exact ih (step a e) (.next e reached lawful (sound a e checked)) others
        fun e' member => blanks e' (List.mem_cons_of_mem e member)

/-- No token is entered, and the chats of an answer all find room. -/
def roomy (a : App) : Event → Bool
  | .key k _ => !decide (enters k a)
  | .turn (some r) _ _ _ _ _ => fits (tableIds a) (chatIds (arriving a r))
  | _ => true

theorem roomy_careful (a : App) (e : Event) (checked : roomy a e = true) : Careful a e := by
  cases e with
  | key k clip =>
      rw [roomy, Bool.not_eq_true', decide_eq_false_iff_not] at checked
      exact fun enter => absurd enter checked
  | turn r at_ now started done layout =>
      cases r with
      | none => trivial
      | some r => exact fun _ _ _ => Or.inl checked
  | click x y right => trivial
  | resize width height => trivial

/-- A chat writes, and is written to. -/
def talk : List Event :=
  [waitTurn, answer { noPayload with username := [98] }, answer { noPayload with updates := [update 1] },
    pressed { noKey with tab := true, shift := true }, pressed { noKey with isChar := true, char := 120 },
    pressed { noKey with enter := true }, answer noPayload]

theorem talk_blank : ∀ e ∈ talk, Blank e := by
  intro e member
  simp only [talk, List.mem_cons, List.not_mem_nil, or_false] at member
  rcases member with rfl | rfl | rfl | rfl | rfl | rfl | rfl
  · exact waitTurn_blank
  · exact answer_blank _
  · exact answer_blank _
  · exact pressed_blank _
  · exact pressed_blank _
  · exact pressed_blank _
  · exact answer_blank _

theorem requests_right_talk : (run begun talk).jobs.getLast? =
      some ⟨.send, token, .sendMessage [1] [120] 0 ⟨token, [1], [], 0⟩⟩ ∧
    ∀ j ∈ (run begun talk).jobs, Rightly j :=
  ⟨by decide, requests_right _
    (run_reached roomy roomy_careful talk begun (.start _ _ _ _ _) (by decide) talk_blank)⟩

theorem events_blank : ∀ e ∈ events, Blank e := by
  intro e member
  simp only [events, List.mem_cons, List.not_mem_nil, or_false] at member
  rcases member with rfl | rfl | rfl | rfl | rfl | rfl | rfl
  · exact waitTurn_blank
  · exact answer_blank _
  · exact answer_blank _
  · exact pressed_blank _
  · exact pressed_blank _
  · exact pressed_blank _
  · exact answer_blank _

/-- The text for the twelfth chat goes to the thirteenth. -/
theorem text_to_stranger : ¬∀ a, Reach Unguarded a → ∀ j ∈ a.jobs, Rightly j := by
  intro always
  have reached : Reach Unguarded (run begun events) :=
    run_reached (fun _ _ => true) (fun _ _ _ => trivial) events begun (.start _ _ _ _ _) (by decide)
      events_blank
  have sent : (run begun events).jobs.getLast? =
      some ⟨.send, token, .sendMessage [13] [120] 0 ⟨token, [12], [], 0⟩⟩ := by decide
  have right := always _ reached _ (List.mem_of_getLast? sent)
  exact absurd right.1 (by decide)

end Thirteenth

end R2Apps.TelegramSending
