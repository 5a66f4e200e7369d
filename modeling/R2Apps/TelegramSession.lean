import R2Apps.TelegramApp

/-! The session of the Telegram client: the token, the setup, the request in flight and the
offset. Keys and clicks leave it alone but for the entry of a token and the way back to
the setup; a message leaves it alone altogether. -/
namespace R2Apps.TelegramSession
open TelegramApp

/-- The parts of the client that no message touches. -/
def session (a : App) :
    Bytes × Bool × Bytes × Int × Option Request × Bool × List (Bytes × Update) × List Job :=
  (a.token, a.setup, a.botName, a.offset, a.request, a.stale, a.applied, a.jobs)

/-- What no key and no click touches as long as the token stays. -/
def still (a : App) : Layout × Nat × Bytes × Bool × Bytes × Int × Option Request × Bool ×
    List (Bytes × Update) × List Job :=
  (a.layout, a.msgTotal, session a)

section Messages

theorem wantMedia_still (m : Message) (a : App) : still (wantMedia m a) = still a := by
  unfold wantMedia
  dsimp only
  split <;> rfl

theorem chatFor_still (id name : Bytes) (a : App) : still (chatFor id name a).2 = still a := by
  unfold chatFor
  split
  · rfl
  · split <;> rfl

theorem takeMessage_session (m : Message) (a : App) : session (takeMessage m a) = session a := by
  unfold takeMessage
  split
  · rfl
  · next id chat =>
    calc session (addMsg (chatFor id m.name (wantMedia m a)).1 id m.id (chatFor id m.name (wantMedia m a)).2)
        = session (chatFor id m.name (wantMedia m a)).2 := rfl
      _ = session (wantMedia m a) := congrArg (·.2.2) (chatFor_still id m.name _)
      _ = session a := congrArg (·.2.2) (wantMedia_still m a)

end Messages

section Keys
variable (a : App)

theorem moveMenuSel_still (back : Bool) : still (moveMenuSel back a) = still a := by
  unfold moveMenuSel
  dsimp only
  split <;> rfl

theorem openAt_still (seq : Nat) : still (openAt seq a) = still a := by
  unfold openAt
  dsimp only
  split <;> rfl

theorem openMenu_still (seq : Option Nat) : still (openMenu seq a) = still a := by
  unfold openMenu
  split
  · exact openAt_still a _
  · split
    · exact openAt_still a _
    · rfl

theorem menuToMessage_still (back : Bool) : still (menuToMessage back a) = still a := by
  unfold menuToMessage
  split
  · rfl
  · dsimp only
    generalize (if back = true then _ else _ : Option Nat) = found
    cases found with
    | none => rfl
    | some k => exact openAt_still a k

theorem react_still (seq : Nat) (r : Option Nat) : still (react seq r a) = still a := by
  unfold react
  dsimp only
  split
  · rfl
  · split <;> rfl

theorem pickMenu_still (i : Nat) : still (pickMenu i a) = still a := by
  unfold pickMenu
  split
  · rfl
  · split
    · rfl
    · dsimp only
      split
      · exact react_still _ _ _
      · split
        · exact react_still _ _ _
        · split
          · rfl
          · split <;> rfl

theorem toggleSettings_still : still (toggleSettings a) = still a := by
  unfold toggleSettings
  split <;> rfl

theorem settingsKey_still (k : Key) : still (settingsKey k a) = still a := by
  unfold settingsKey
  split
  · exact toggleSettings_still a
  · rfl

theorem ite_still {p : Prop} [Decidable p] {x y : App} (first : still x = still a)
    (second : still y = still a) :
    still (if p then x else y) = still a := by
  split
  · exact first
  · exact second

theorem menuKey_still (k : Key) : still (menuKey k a) = still a := by
  have letters : still (if 49 ≤ k.char && k.char < 58 then pickMenu (k.char.toNat - 49) a
      else if k.char == 48 then pickMenu miRemove a
      else if k.is 99 67 then pickMenu miCopy a
      else if k.is 114 82 then pickMenu miReply a
      else if k.is 103 71 then pickMenu miCopyGif a
      else a) = still a := by
    apply ite_still a (pickMenu_still a _)
    apply ite_still a (pickMenu_still a _)
    apply ite_still a (pickMenu_still a _)
    apply ite_still a (pickMenu_still a _)
    exact ite_still a (pickMenu_still a _) rfl
  unfold menuKey
  refine ite_still a (x := closeMenu a) rfl ?_
  apply ite_still a (moveMenuSel_still a false)
  apply ite_still a (moveMenuSel_still a true)
  apply ite_still a (menuToMessage_still a true)
  apply ite_still a (menuToMessage_still a false)
  apply ite_still a (pickMenu_still a _)
  apply ite_still a (pickMenu_still a _)
  exact ite_still a letters rfl

theorem attachScreenshot_still (file : Option Bytes) : still (attachScreenshot file a) = still a := by
  unfold attachScreenshot
  split
  · rfl
  · split <;> rfl

theorem pasteByte_still (c : UInt8) : still (pasteByte a c) = still a := by
  unfold pasteByte
  split
  · rfl
  · split
    · rfl
    · split <;> rfl

theorem paste_still (clip : Clipboard) : still (paste clip a) = still a := by
  have typed : ∀ (text : Bytes) (b : App), still (text.foldl pasteByte b) = still b := by
    intro text
    induction text with
    | nil => exact fun b => rfl
    | cons c rest ih => exact fun b => (ih (pasteByte b c)).trans (pasteByte_still b c)
  unfold paste
  split
  · exact attachScreenshot_still a clip.file
  · split
    · rfl
    · exact typed clip.text a

theorem backspace_still : still (backspace a) = still a := by
  unfold backspace
  split
  · rfl
  · split <;> rfl

theorem send_still : still (send a) = still a := by
  unfold send
  split
  · rfl
  · split
    · rfl
    · split
      · unfold sendPhoto
        split <;> rfl
      · unfold sendText
        split <;> rfl

theorem clickChat_still (x y : Int) : still (clickChat x y a) = still a := by
  unfold clickChat
  dsimp only
  split
  · rfl
  · split
    · split <;> rfl
    · rfl

theorem clickMessages_still (x y : Int) (right : Bool) : still (clickMessages x y right a) = still a := by
  unfold clickMessages
  split
  · split
    · exact openMenu_still a _
    · rfl
  · exact clickChat_still a x y

theorem click_still (x y : Int) (right : Bool) : still (click x y right a) = still a := by
  unfold click
  split
  · unfold settingsClick
    dsimp only
    repeat' split
    all_goals first
      | exact toggleSettings_still a
      | rfl
  split
  · exact toggleSettings_still a
  split
  · rfl
  split
  · split
    · split
      · rfl
      · exact pickMenu_still a _
    · exact clickMessages_still (closeMenu a) x y right
  · exact clickMessages_still a x y right

/-- The key enters a token. -/
def enters (k : Key) (a : App) : Prop :=
  (k.ctrl && k.is 115 83) = false ∧ a.settingsOpen = false ∧ a.menuSeq = none ∧ k.escape = false ∧
    k.backspace = false ∧ (k.ctrl && k.is 118 86) = false ∧ (k.ctrl && k.is 99 67) = false ∧ a.setup = true ∧
    k.enter = true ∧ validToken a.input = true

instance (k : Key) (a : App) : Decidable (enters k a) := by
  unfold enters
  infer_instance

/-- The client with the token that has been typed. -/
def entered (a : App) : App := startChatting { a with token := a.input, input := [] }

theorem key_rule {P : App → Prop} (k : Key) (clip : Clipboard) (toggle : P (toggleSettings a))
    (settings : P (settingsKey k a)) (menu : P (menuKey k a)) (opens : P (openMenu none a))
    (cancel : P (cancelReply a)) (back : P (backspace a)) (pastes : P (paste clip a)) (same : P a)
    (enter : enters k a → P (entered a)) (leave : a.setup = false → P (backToSetup a))
    (next : a.chats ≠ [] → P (nextChat k.shift a)) (typed : ∀ input, P { a with input := input })
    (sends : P (send a)) : P (key k clip a) := by
  -- the tests of the source, in its order; what fails is at hand in the later ones
  unfold key
  by_cases isToggle : (k.ctrl && k.is 115 83) = true
  · rw [if_pos isToggle]
    exact toggle
  rw [if_neg isToggle]
  by_cases opened : a.settingsOpen = true
  · rw [if_pos opened]
    exact settings
  rw [if_neg opened]
  by_cases onMenu : a.menuSeq.isSome = true
  · rw [if_pos onMenu]
    exact menu
  rw [if_neg onMenu]
  by_cases isOpen : (!a.setup && k.isChar && k.char == 32 && (k.ctrl || k.alt)) = true
  · rw [if_pos isOpen]
    exact opens
  rw [if_neg isOpen]
  by_cases escape : k.escape = true
  · rw [if_pos escape]
    split
    · exact cancel
    · exact same
  rw [if_neg escape]
  by_cases isBack : k.backspace = true
  · rw [if_pos isBack]
    exact back
  rw [if_neg isBack]
  by_cases isPaste : (k.ctrl && k.is 118 86) = true
  · rw [if_pos isPaste]
    exact pastes
  rw [if_neg isPaste]
  by_cases copies : (k.ctrl && k.is 99 67) = true
  · rw [if_pos copies]
    exact same
  rw [if_neg copies]
  by_cases isEnter : (a.setup && k.enter) = true
  · rw [if_pos isEnter, enterToken]
    rw [Bool.and_eq_true] at isEnter
    by_cases valid : validToken a.input = true
    · rw [if_pos valid]
      exact enter ⟨Bool.eq_false_iff.mpr isToggle, Bool.eq_false_iff.mpr opened,
        Option.not_isSome_iff_eq_none.mp onMenu, Bool.eq_false_iff.mpr escape, Bool.eq_false_iff.mpr isBack,
        Bool.eq_false_iff.mpr isPaste, Bool.eq_false_iff.mpr copies, isEnter.1, isEnter.2, valid⟩
    · rw [if_neg valid]
      exact same
  rw [if_neg isEnter]
  by_cases leaves : (!a.setup && k.ctrl && k.is 116 84) = true
  · rw [if_pos leaves]
    simp only [Bool.and_eq_true, Bool.not_eq_eq_eq_not, Bool.not_true] at leaves
    exact leave leaves.1.1
  rw [if_neg leaves]
  by_cases tabs : (!a.setup && k.tab && !a.chats.isEmpty) = true
  · rw [if_pos tabs]
    simp only [Bool.and_eq_true, Bool.not_eq_eq_eq_not, Bool.not_true, List.isEmpty_eq_false_iff] at tabs
    exact next tabs.2
  rw [if_neg tabs]
  split
  · exact same
  split
  · split
    · exact typed _
    · exact same
  split
  · exact sends
  split
  · exact typed _
  · exact same

theorem key_cases (k : Key) (clip : Clipboard) : still (key k clip a) = still a ∨
    enters k a ∧ key k clip a = entered a ∨ a.setup = false ∧ key k clip a = backToSetup a :=
  key_rule a (P := fun b => still b = still a ∨ enters k a ∧ b = entered a ∨
    a.setup = false ∧ b = backToSetup a)
    k clip (Or.inl (toggleSettings_still a)) (Or.inl (settingsKey_still a k)) (Or.inl (menuKey_still a k))
    (Or.inl (openMenu_still a none)) (Or.inl rfl) (Or.inl (backspace_still a)) (Or.inl (paste_still a clip))
    (Or.inl rfl) (fun enter => Or.inr (Or.inl ⟨enter, rfl⟩)) (fun chatting => Or.inr (Or.inr ⟨chatting, rfl⟩))
    (fun _ => Or.inl rfl) (fun _ => Or.inl rfl) (Or.inl (send_still a))

end Keys

section Turns
variable {a : App}

/-- The token, the setup and the request. -/
def grip (a : App) : Bytes × Bool × Option Request × Bool × List Job :=
  (a.token, a.setup, a.request, a.stale, a.jobs)

theorem grip_of_session {b : App} (same : session b = session a) : grip b = grip a :=
  congrArg (fun s => (s.1, s.2.1, s.2.2.2.2.1, s.2.2.2.2.2.1, s.2.2.2.2.2.2.2)) same

theorem giveUp_session (was : Option Request) (a : App) :
    session (giveUp was a) = session a ∧ (giveUp was a).layout = a.layout := by
  unfold giveUp
  split
  · exact ⟨rfl, rfl⟩
  · exact ⟨rfl, rfl⟩
  · exact ⟨rfl, rfl⟩
  · unfold outNotSent
    split <;> exact ⟨rfl, rfl⟩
  · exact ⟨rfl, rfl⟩
  · exact ⟨rfl, rfl⟩

theorem takeMessage_layout (m : Message) (a : App) : (takeMessage m a).layout = a.layout := by
  unfold takeMessage
  split
  · rfl
  · next id chat =>
    exact (congrArg (·.1) (chatFor_still id m.name _)).trans (congrArg (·.1) (wantMedia_still m a))

theorem takeUpdate_grip (a : App) (u : Update) :
    grip (takeUpdate a u) = grip a ∧ (takeUpdate a u).layout = a.layout := by
  have message : ∀ (m : Message) (b : App), grip b = grip a → b.layout = a.layout →
      grip (takeMessage m b) = grip a ∧ (takeMessage m b).layout = a.layout := by
    intro m b same painted
    exact ⟨(grip_of_session (takeMessage_session m b)).trans same, (takeMessage_layout m b).trans painted⟩
  unfold takeUpdate
  cases u.id with
  | none =>
      cases u.message with
      | none => exact ⟨rfl, rfl⟩
      | some m => exact message m { a with applied := a.applied ++ [(a.token, u)] } rfl rfl
  | some id =>
      by_cases old : id < a.offset
      · simp only [if_pos old]
        exact ⟨trivial, trivial⟩
      · simp only [if_neg old]
        cases u.message with
        | none => exact ⟨rfl, rfl⟩
        | some m =>
          exact message m { a with offset := id + 1, applied := a.applied ++ [(a.token, u)] } rfl rfl

theorem accepted_grip (was : Option Request) (p : Payload) (a : App) :
    grip (accepted was p a) = grip a ∧ (accepted was p a).layout = a.layout := by
  have updates : ∀ (us : List Update) (b : App),
      grip (us.foldl takeUpdate b) = grip b ∧ (us.foldl takeUpdate b).layout = b.layout := by
    intro us
    induction us with
    | nil => exact fun b => ⟨rfl, rfl⟩
    | cons u rest ih =>
        intro b
        obtain ⟨same, painted⟩ := takeUpdate_grip b u
        exact ⟨(ih _).1.trans same, (ih _).2.trans painted⟩
  unfold accepted
  split
  · exact ⟨rfl, rfl⟩
  · exact ⟨grip_of_session (takeMessage_session p.message (dropOut a)),
      takeMessage_layout p.message (dropOut a)⟩
  · unfold reacted
    split
    · exact ⟨rfl, rfl⟩
    · unfold keepReaction
      split <;> exact ⟨rfl, rfl⟩
  · exact ⟨grip_of_session (takeMessage_session p.message { a with photoQueued := false }),
      takeMessage_layout p.message { a with photoQueued := false }⟩
  · unfold gotPath
    split
    · exact ⟨rfl, rfl⟩
    · split <;> exact ⟨rfl, rfl⟩
  · exact updates p.updates a
  · exact ⟨rfl, rfl⟩

theorem finished_stale (now : UInt64) (started : Bool) (r : Result) (stale : a.stale = true) :
    finished now started r a = { a with request := none, stale := false } := by
  simp only [finished, stale, if_true]

theorem finished_cases (now : UInt64) (started : Bool) (r : Result) (a : App) :
    grip (finished now started r a) = (a.token, a.setup, none, false, a.jobs) ∧
        (finished now started r a).layout = a.layout ∨
      a.stale = false ∧ finished now started r a = backToSetup { a with request := none } := by
  have ends : ∀ b : App, a.stale = false → grip b = grip { a with request := none } →
      grip b = (a.token, a.setup, none, false, a.jobs) := by
    intro b fresh same
    rw [same, grip, fresh]
  by_cases stale : a.stale = true
  · rw [finished_stale now started r stale]
    exact Or.inl ⟨rfl, rfl⟩
  · have fresh : a.stale = false := Bool.eq_false_iff.mpr stale
    have gives : ∀ (was : Option Request) (t : UInt64),
        grip { giveUp was { a with request := none } with retryAt := t } = grip { a with request := none } ∧
          ({ giveUp was { a with request := none } with retryAt := t } : App).layout = a.layout :=
            fun was t =>
      ⟨grip_of_session (giveUp_session was { a with request := none }).1,
        (giveUp_session was { a with request := none }).2⟩
    simp only [finished, if_neg stale]
    cases r.err with
    | some e =>
        dsimp only
        split
        · exact Or.inl ⟨ends _ fresh rfl, rfl⟩
        · exact Or.inl ⟨ends _ fresh (gives a.request _).1, (gives a.request _).2⟩
    | none =>
        dsimp only
        split
        · exact Or.inl ⟨ends _ fresh rfl, rfl⟩
        · split
          · have same := accepted_grip a.request r.payload { a with request := none }
            exact Or.inl ⟨ends _ fresh same.1, same.2⟩
          · unfold refused
            split
            · exact Or.inr ⟨fresh, rfl⟩
            · exact Or.inl ⟨ends _ fresh (gives a.request _).1, (gives a.request _).2⟩

end Turns

end R2Apps.TelegramSession
