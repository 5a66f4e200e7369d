import Mathlib.Data.Nat.Bitwise
import R2Apps.WireGuardPeer

/-! The replay windows of a peer's sessions. A counter that a session has let in stays
seen, through the turns that its keypair takes between the three places, until the session
is gone; a session begins with nothing seen. -/
namespace R2Apps.WireGuardWindows
open WireGuardPeer

/-! One window. -/

/-- The check refuses the counter. -/
def Seen (k : Keypair) (counter : UInt64) : Prop := (wireguardCheckReplay k counter).2 = false

/-- The window has the number marked, or is past it. -/
def Marked (k : Keypair) (seq : UInt64) : Prop :=
  seq.toNat ≤ k.replayCounter.toNat ∧ (k.replayCounter.toNat - seq.toNat < 32 →
    k.replayBitmap.toNat.testBit (k.replayCounter.toNat - seq.toNat) = true)

theorem bit_toNat {diff : UInt64} (near : diff.toNat < 32) :
    ((1 : UInt32) <<< diff.toUInt32).toNat = 2 ^ diff.toNat := by
  have shift : diff.toUInt32.toNat % 32 = diff.toNat := by
    rw [UInt64.toNat_toUInt32]
    omega
  rw [UInt32.toNat_shiftLeft, shift, UInt32.toNat_one, Nat.one_shiftLeft]
  exact Nat.mod_eq_of_lt (Nat.pow_lt_pow_right (by decide) near)

theorem bit_set_iff {diff : UInt64} (near : diff.toNat < 32) (bitmap : UInt32) :
    bitmap &&& (1 : UInt32) <<< diff.toUInt32 ≠ 0 ↔ bitmap.toNat.testBit diff.toNat = true := by
  have zero : (0 : UInt32).toNat = 0 := rfl
  rw [ne_eq, ← UInt32.toNat_inj, UInt32.toNat_and, bit_toNat near, Nat.and_two_pow, zero]
  cases bitmap.toNat.testBit diff.toNat <;> simp

theorem shifted_bit {diff : UInt64} (near : diff.toNat < 32) (bitmap : UInt32) {i : Nat} (inside : i < 32) :
    (bitmap <<< diff.toUInt32 ||| 1).toNat.testBit i =
      (decide (diff.toNat ≤ i) && bitmap.toNat.testBit (i - diff.toNat) || decide (i = 0)) := by
  have shift : diff.toUInt32.toNat % 32 = diff.toNat := by
    rw [UInt64.toNat_toUInt32]
    omega
  have one : Nat.testBit 1 i = decide (i = 0) := by
    cases i <;> simp [Nat.testBit_succ]
  rw [UInt32.toNat_or, UInt32.toNat_shiftLeft, shift, Nat.testBit_or, Nat.testBit_mod_two_pow,
    Nat.testBit_shiftLeft,
    UInt32.toNat_one, one]
  simp [inside]

theorem replay_cases (k : Keypair) (counter : UInt64) :
    (wireguardCheckReplay k counter = (k, false) ∧ (counter + 1 = 0 ∨ Marked k (counter + 1))) ∨
    (∃ bitmap, wireguardCheckReplay k counter =
        ({ k with replayBitmap := bitmap, replayCounter := counter + 1 }, true) ∧ counter + 1 ≠ 0 ∧
      k.replayCounter.toNat < (counter + 1).toNat ∧ bitmap.toNat.testBit 0 = true ∧
      ∀ i, (counter + 1).toNat - k.replayCounter.toNat + i < 32 → k.replayBitmap.toNat.testBit i = true →
        bitmap.toNat.testBit ((counter + 1).toNat - k.replayCounter.toNat + i) = true) ∨
    (∃ bitmap, wireguardCheckReplay k counter = ({ k with replayBitmap := bitmap }, true) ∧ counter + 1 ≠ 0 ∧
      ¬ Marked k (counter + 1) ∧ (counter + 1).toNat ≤ k.replayCounter.toNat ∧
      bitmap.toNat.testBit (k.replayCounter.toNat - (counter + 1).toNat) = true ∧
      ∀ i, k.replayBitmap.toNat.testBit i = true → bitmap.toNat.testBit i = true) := by
  simp only [wireguardCheckReplay, Marked]
  generalize counter + 1 = seq
  by_cases wrapped : seq = 0
  · exact .inl ⟨if_pos wrapped, .inl wrapped⟩
  rw [if_neg wrapped]
  by_cases above : seq > k.replayCounter
  · rw [if_pos above]
    have past : k.replayCounter.toNat < seq.toNat := UInt64.lt_iff_toNat_lt.mp above
    have distance : (seq - k.replayCounter).toNat = seq.toNat - k.replayCounter.toNat :=
      UInt64.toNat_sub_of_le _ _ (UInt64.le_of_lt above)
    refine .inr (.inl ⟨_, rfl, wrapped, past, ?_, ?_⟩)
    · split
      · next near =>
        rw [shifted_bit (UInt64.lt_iff_toNat_lt.mp near) _ (by decide)]
        simp
      · rfl
    · intro i inside old
      have near : (seq - k.replayCounter).toNat < 32 := by omega
      rw [if_pos (UInt64.lt_iff_toNat_lt.mpr near), shifted_bit near _ inside, distance]
      simp [old]
  · rw [if_neg above]
    have within : seq.toNat ≤ k.replayCounter.toNat := UInt64.le_iff_toNat_le.mp (UInt64.not_lt.mp above)
    have distance : (k.replayCounter - seq).toNat = k.replayCounter.toNat - seq.toNat :=
      UInt64.toNat_sub_of_le _ _ (UInt64.not_lt.mp above)
    by_cases near : k.replayCounter - seq < 32
    · have near' : (k.replayCounter - seq).toNat < 32 := UInt64.lt_iff_toNat_lt.mp near
      have bit := bit_set_iff near' k.replayBitmap
      rw [if_pos near]
      rw [distance] at bit
      by_cases marked : k.replayBitmap &&& (1 : UInt32) <<< (k.replayCounter - seq).toUInt32 ≠ 0
      · exact .inl ⟨if_pos marked, .inr ⟨within, fun _ => bit.mp marked⟩⟩
      · rw [if_neg marked]
        refine .inr (.inr ⟨_, rfl, wrapped, ?_, within, ?_, ?_⟩)
        · rintro ⟨_, is⟩
          exact marked (bit.mpr (is (by omega)))
        · rw [UInt32.toNat_or, bit_toNat near', distance, Nat.testBit_or, Nat.testBit_two_pow_self,
            Bool.or_true]
        · intro i old
          rw [UInt32.toNat_or, Nat.testBit_or, old, Bool.true_or]
    · refine .inl ⟨if_neg near, .inr ⟨within, fun near' => absurd ?_ near⟩⟩
      exact UInt64.lt_iff_toNat_lt.mpr (by rw [distance]; exact near')

theorem seen_iff (k : Keypair) (counter : UInt64) :
    Seen k counter ↔ counter + 1 = 0 ∨ Marked k (counter + 1) := by
  rw [Seen]
  rcases replay_cases k counter with ⟨is, old⟩ | ⟨bitmap, is, some_, past, _⟩ | ⟨bitmap, is, some_, clear, _⟩
  · rw [is]
    exact iff_of_true rfl old
  · rw [is]
    exact iff_of_false (by simp)
      (by rintro (none_ | ⟨within, _⟩); exacts [some_ none_, absurd within (by omega)])
  · rw [is]
    exact iff_of_false (by simp) (by rintro (none_ | marked); exacts [some_ none_, clear marked])

theorem let_in {k k' : Keypair} {counter : UInt64} (fresh : wireguardCheckReplay k counter = (k', true)) :
    ¬ Seen k counter ∧ Seen k' counter ∧ ∀ old, Seen k old → Seen k' old := by
  refine ⟨by simp [Seen, fresh], ?_⟩
  simp only [seen_iff]
  rcases replay_cases k counter with ⟨is, _⟩ | ⟨bitmap, is, _, past, first, moved⟩ |
    ⟨bitmap, is, _, _, within, here, kept⟩
  · rw [is] at fresh
    cases fresh
  · rw [is] at fresh
    cases fresh
    refine ⟨.inr ⟨Nat.le_refl _, fun _ => by rwa [Nat.sub_self]⟩, fun old => Or.imp_right ?_⟩
    rintro ⟨below, marked⟩
    refine ⟨by dsimp only; omega, fun near => ?_⟩
    dsimp only at near ⊢
    have same : (counter + 1).toNat - (old + 1).toNat =
        (counter + 1).toNat - k.replayCounter.toNat + (k.replayCounter.toNat - (old + 1).toNat) := by omega
    rw [same]
    exact moved _ (by omega) (marked (by omega))
  · rw [is] at fresh
    cases fresh
    refine ⟨.inr ⟨within, fun _ => here⟩, fun old => Or.imp_right ?_⟩
    rintro ⟨below, marked⟩
    exact ⟨below, fun near => kept _ (marked near)⟩

theorem seen_congr {k k' : Keypair} {counter : UInt64} (top : k'.replayCounter = k.replayCounter)
    (bitmap : k'.replayBitmap = k.replayBitmap) : Seen k' counter ↔ Seen k counter := by
  rw [seen_iff, seen_iff, Marked, Marked, top, bitmap]

/-! The keypairs of a peer. -/

/-- The same session, with the same window. -/
structure Like (k' k : Keypair) : Prop where
  valid : k.valid = true
  number : k'.number = k.number
  top : k'.replayCounter = k.replayCounter
  bitmap : k'.replayBitmap = k.replayBitmap

theorem Like.self {k : Keypair} (valid : k.valid = true) : Like k k := ⟨valid, rfl, rfl, rfl⟩

/-- The sessions stay in their places, or are gone. -/
structure Fewer (p' p : Peer) : Prop where
  sessions : p'.sessions = p.sessions
  like : ∀ slot, (p'.keypair slot).valid = true → Like (p'.keypair slot) (p.keypair slot)

theorem Fewer.refl (p : Peer) : Fewer p p := ⟨rfl, fun _ valid => Like.self valid⟩

theorem Fewer.trans {p'' p' p : Peer} (last : Fewer p'' p') (first : Fewer p' p) : Fewer p'' p where
  sessions := last.sessions.trans first.sessions
  like slot valid := by
    have later := last.like slot valid
    have earlier := first.like slot later.valid
    exact ⟨earlier.valid, later.number.trans earlier.number, later.top.trans earlier.top,
      later.bitmap.trans earlier.bitmap⟩

theorem SameKeys.fewer {p p' : Peer} (same : SameKeys p p') : Fewer p' p := by
  obtain ⟨curr, next, prev, sessions⟩ := same
  refine ⟨sessions, fun slot valid => ?_⟩
  cases slot <;> simp only [Peer.keypair, curr, next, prev] at valid ⊢ <;> exact Like.self valid

theorem hasSession_iff (p : Peer) : p.HasSession ↔ ∃ slot, (p.keypair slot).valid = true := by
  constructor
  · rintro (valid | valid | valid)
    · exact ⟨.curr, valid⟩
    · exact ⟨.next, valid⟩
    · exact ⟨.prev, valid⟩
  · rintro ⟨slot, valid⟩
    cases slot with
    | curr => exact .inl valid
    | next => exact .inr (.inl valid)
    | prev => exact .inr (.inr valid)

theorem Fewer.session {p' p : Peer} (fewer : Fewer p' p) (has : p'.HasSession) : p.HasSession := by
  obtain ⟨slot, valid⟩ := (hasSession_iff p').mp has
  exact (hasSession_iff p).mpr ⟨slot, (fewer.like slot valid).valid⟩

/-- What holds of the counters that each session has let in. -/
structure Windows (used : Nat → UInt64 → Prop) (p : Peer) : Prop where
  started : ∀ n counter, used n counter → n < p.sessions
  below : ∀ slot, (p.keypair slot).valid = true → (p.keypair slot).number < p.sessions
  apart : ∀ slot slot', (p.keypair slot).valid = true → (p.keypair slot').valid = true →
    (p.keypair slot).number = (p.keypair slot').number → slot = slot'
  seen : ∀ slot counter, (p.keypair slot).valid = true → used (p.keypair slot).number counter →
    Seen (p.keypair slot) counter

section Changes
variable {used : Nat → UInt64 → Prop} {p p' : Peer}

theorem windows_moved (windows : Windows used p) (from_ : Slot → Slot) (sessions : p'.sessions = p.sessions)
    (like : ∀ slot, (p'.keypair slot).valid = true → Like (p'.keypair slot) (p.keypair (from_ slot)))
    (apart : ∀ slot slot', (p'.keypair slot).valid = true → (p'.keypair slot').valid = true →
      from_ slot = from_ slot' → slot = slot') : Windows used p' := by
  constructor
  · rw [sessions]
    exact windows.started
  · intro slot valid
    rw [sessions, (like slot valid).number]
    exact windows.below _ (like slot valid).valid
  · intro slot slot' valid valid' same
    rw [(like slot valid).number, (like slot' valid').number] at same
    exact apart slot slot' valid valid'
      (windows.apart _ _ (like slot valid).valid (like slot' valid').valid same)
  · intro slot counter valid is
    rw [(like slot valid).number] at is
    rw [seen_congr (like slot valid).top (like slot valid).bitmap]
    exact windows.seen _ _ (like slot valid).valid is

theorem windows_fewer (windows : Windows used p) (fewer : Fewer p' p) : Windows used p' :=
  windows_moved windows id fewer.sessions fewer.like fun _ _ _ _ => id

theorem windows_update (windows : Windows used p) (slot : Slot) : Windows used (keypairUpdate p slot) := by
  unfold keypairUpdate
  split
  · refine windows_moved windows (fun slot => if slot = .prev then .curr else .next) rfl ?_ ?_
    · intro at_ valid
      cases at_ with
      | next => cases valid
      | curr | prev => exact Like.self valid
    · intro at_ at_' valid valid'
      cases at_ <;> cases at_' <;>
        first | exact fun _ => rfl | cases valid | cases valid' | rintro ⟨⟩
  · exact windows

theorem windows_new {new : Keypair} (windows : Windows used p) (from_ : Slot → Option Slot)
    (sessions : p'.sessions = p.sessions + 1) (number : new.number = p.sessions)
    (like : ∀ slot, (p'.keypair slot).valid = true →
      match from_ slot with
      | some old => Like (p'.keypair slot) (p.keypair old)
      | none => p'.keypair slot = new)
    (apart : ∀ slot slot', (p'.keypair slot).valid = true → (p'.keypair slot').valid = true →
      from_ slot = from_ slot' → slot = slot') : Windows used p' := by
  have old {slot : Slot} (valid : (p'.keypair slot).valid = true) :
      (∃ at_, from_ slot = some at_ ∧ Like (p'.keypair slot) (p.keypair at_)) ∨
        from_ slot = none ∧ (p'.keypair slot).number = p.sessions := by
    have is := like slot valid
    split at is
    · next at_ found => exact .inl ⟨at_, found, is⟩
    · next found => exact .inr ⟨found, by rw [is, number]⟩
  constructor
  · intro n counter is
    exact Nat.lt_of_lt_of_le (windows.started n counter is) (by omega)
  · intro slot valid
    rcases old valid with ⟨at_, _, same⟩ | ⟨_, last⟩
    · have below := windows.below at_ same.valid
      rw [same.number]
      omega
    · omega
  · intro slot slot' valid valid' same
    apply apart slot slot' valid valid'
    rcases old valid with ⟨at_, found, like_⟩ | ⟨found, last⟩ <;>
      rcases old valid' with ⟨at_', found', like_'⟩ | ⟨found', last'⟩
    · rw [like_.number, like_'.number] at same
      rw [found, found', windows.apart _ _ like_.valid like_'.valid same]
    · have below := windows.below at_ like_.valid
      rw [like_.number] at same
      omega
    · have below := windows.below at_' like_'.valid
      rw [like_'.number] at same
      omega
    · rw [found, found']
  · intro slot counter valid is
    rcases old valid with ⟨at_, _, same⟩ | ⟨_, last⟩
    · rw [same.number] at is
      rw [seen_congr same.top same.bitmap]
      exact windows.seen _ _ same.valid is
    · have below := windows.started _ _ is
      omega

theorem windows_add {new : Keypair} (windows : Windows used p) (h : Handshake)
    (number : new.number = p.sessions) :
    Windows used (addNewKeypair { p with handshake := h, sessions := p.sessions + 1 } new) := by
  unfold addNewKeypair
  split
  · split
    · refine windows_new windows
        (fun slot => if slot = .curr then none else some .next) rfl number ?_ ?_
      · intro slot valid
        cases slot with
        | curr => rfl
        | next => cases valid
        | prev => exact Like.self valid
      · intro slot slot' valid valid'
        cases slot <;> cases slot' <;>
          first | exact fun _ => rfl | cases valid | cases valid' | rintro ⟨⟩
    · refine windows_new windows
        (fun slot => if slot = .curr then none else if slot = .next then some .next else some .curr)
        rfl number ?_ ?_
      · intro slot valid
        cases slot with
        | curr => rfl
        | next | prev => exact Like.self valid
      · intro slot slot' _ _
        cases slot <;> cases slot' <;> first | exact fun _ => rfl | rintro ⟨⟩
  · refine windows_new windows
      (fun slot => if slot = .next then none else some slot) rfl number ?_ ?_
    · intro slot valid
      cases slot with
      | next => rfl
      | prev => cases valid
      | curr => exact Like.self valid
    · intro slot slot' _ _
      cases slot <;> cases slot' <;> first | exact fun _ => rfl | rintro ⟨⟩

theorem windows_start (c : Crypto) (windows : Windows used p) (initiator : Bool) (now : UInt32) :
    Windows used (wireguardStartSession c p initiator now) :=
  windows_add windows _ rfl

theorem windows_let {slot : Slot} {counter : UInt64} {k : Keypair} (windows : Windows used p)
    (valid : (p.keypair slot).valid = true)
    (fresh : wireguardCheckReplay (p.keypair slot) counter = (k, true))
    (received : UInt32) :
    ¬ used (p.keypair slot).number counter ∧
      Windows (fun n x => used n x ∨ n = (p.keypair slot).number ∧ x = counter)
        (p.setKeypair slot { k with lastRx := received }) := by
  obtain ⟨unseen, seen, kept⟩ := let_in fresh
  have number : k.number = (p.keypair slot).number ∧ k.valid = (p.keypair slot).valid := by
    rcases replay_cases (p.keypair slot) counter with ⟨is, _⟩ | ⟨bitmap, is, _⟩ | ⟨bitmap, is, _⟩
    all_goals
      rw [is] at fresh
      cases fresh
    all_goals exact ⟨rfl, rfl⟩
  have sessions : (p.setKeypair slot { k with lastRx := received }).sessions = p.sessions := by
    cases slot <;> rfl
  have same : (p.setKeypair slot { k with lastRx := received }).keypair slot =
      { k with lastRx := received } := by
    cases slot <;> rfl
  have other {at_ : Slot} (apart : at_ ≠ slot) :
      (p.setKeypair slot { k with lastRx := received }).keypair at_ = p.keypair at_ := by
    cases slot <;> cases at_ <;> first | rfl | exact absurd rfl apart
  generalize p.setKeypair slot { k with lastRx := received } = p' at sessions same other
  -- numbers and validity stay, so the one window that changes is the slot's
  have numbers (at_ : Slot) : (p'.keypair at_).number = (p.keypair at_).number ∧
      (p'.keypair at_).valid = (p.keypair at_).valid := by
    by_cases here : at_ = slot
    · subst here
      rw [same]
      exact number
    · rw [other here]
      exact ⟨rfl, rfl⟩
  refine ⟨fun is => unseen (windows.seen slot counter valid is), ?_, ?_, ?_, ?_⟩
  · rw [sessions]
    rintro n x (is | ⟨rfl, _⟩)
    · exact windows.started n x is
    · exact windows.below slot valid
  · intro at_ valid'
    rw [(numbers at_).2] at valid'
    rw [sessions, (numbers at_).1]
    exact windows.below at_ valid'
  · intro at_ at_' valid₁ valid₂
    rw [(numbers at_).2] at valid₁
    rw [(numbers at_').2] at valid₂
    rw [(numbers at_).1, (numbers at_').1]
    exact windows.apart at_ at_' valid₁ valid₂
  · intro at_ x valid' is
    rw [(numbers at_).2] at valid'
    rw [(numbers at_).1] at is
    by_cases here : at_ = slot
    · subst here
      have window : Seen k x := by
        rcases is with is | ⟨_, rfl⟩
        · exact kept x (windows.seen at_ x valid' is)
        · exact seen
      have kept_window : Seen { k with lastRx := received } x ↔ Seen k x := seen_congr rfl rfl
      rw [same]
      exact kept_window.mpr window
    · rw [other here]
      rcases is with is | ⟨is, _⟩
      · exact windows.seen at_ x valid' is
      -- no other slot has a session of this number
      · exact absurd (windows.apart at_ slot valid' valid is) here

end Changes

end R2Apps.WireGuardWindows
