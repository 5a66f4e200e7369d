import R2Apps.WebTcpPortRuns

/-! `connect`: the slot that gives way, the search for a port and what a failure
leaves, then every run of the stack. The search looks at eight places, and since
its cursor moves while the turn goes on counting, a refusal makes it skip ports: it may
give up without having asked for every port that is free. -/
namespace R2Apps.WebTcpConnects
open WebTcp WebTcpPorts WebTcpPortRuns PrefixRoutes

/-! ## The search for a port -/

section Searching
variable {n : Net} {binds : Nat → Bool}

/-- What is asked of the kernel, turn by turn with the port's place, when nothing is granted. -/
def asks (used : Nat → Bool) : Nat → Nat → Nat → List (Nat × Nat)
  | 0, _, _ => []
  | turns + 1, k, cursor =>
    let i := (cursor + k) % portCount
    if used i then asks used turns (k + 1) cursor
    else (k, i) :: asks used turns (k + 1) ((cursor + k + 1) % portCount)

/-- A search that finds the port at place `i`: it was bound already, or is bound now. -/
inductive Got (n : Net) (i : Nat) : Net → Prop where
  | held (next : Nat) (bound : n.driver = false → n.boundPorts i = true) : Got n i { n with nextPort := next }
  | granted (next : Nat) (plain : n.driver = false) : Got n i { n with
      nextPort := next
      boundPorts := fun b => if b = i then true else n.boundPorts b
      kernel := fun p => if p = n.base.port i then true else n.kernel p }

theorem Got.moved {i cursor : Nat} {m : Net} (got : Got { n with nextPort := cursor } i m) : Got n i m := by
  cases got with
  | held next bound => exact .held next bound
  | granted next plain => exact .granted next plain

def Unused (n : Net) (i : Nat) : Prop := n.used (n.base.port i) = false

theorem used_iff (n : Net) (port : UInt16) :
    n.used port = true ↔ ∃ h, n.Live h ∧ (n.conn h).lport = port := by
  rw [Net.used, List.any_eq_true]
  constructor
  · rintro ⟨h, _, both⟩
    rw [Bool.and_eq_true, decide_eq_true_eq, beq_iff_eq] at both
    exact ⟨h, both⟩
  · rintro ⟨h, both⟩
    refine ⟨h, List.mem_finRange h, ?_⟩
    rw [Bool.and_eq_true, decide_eq_true_eq, beq_iff_eq]
    exact both

theorem turn_inside (cursor k : Nat) : (cursor + k) % portCount < portCount := Nat.mod_lt _ (by decide)

theorem bit_of {i : Nat} (b : PortBase) (inside : i < portCount) : (b.port i).toNat - b.base = i := by
  rw [port_toNat inside]
  omega

theorem allocFrom_cases (binds : Nat → Bool) (turns k : Nat) (n : Net) :
    ((n.allocFrom binds turns k).port = 0 ∧ ∃ next, (n.allocFrom binds turns k).net = { n with
      nextPort := next }) ∨
      ∃ i < portCount, (n.allocFrom binds turns k).port = n.base.port i ∧ Unused n i ∧
        Got n i (n.allocFrom binds turns k).net := by
  induction turns generalizing k n with
  | zero => exact .inl ⟨rfl, n.nextPort, rfl⟩
  | succ turns ih =>
    have inside := turn_inside n.nextPort k
    rw [Net.allocFrom]
    dsimp only
    rw [bit_of n.base inside]
    split
    · exact ih (k + 1) n
    · rename_i unused
      have unused' : Unused n ((n.nextPort + k) % portCount) := by
        rw [Unused]
        exact Bool.not_eq_true _ ▸ unused
      split
      · rename_i asked
        split
        · exact .inr ⟨_, inside, rfl, unused', .granted _ asked.1⟩
        · -- refused: the rest of the loop, from the moved cursor
          rcases ih (k + 1) { n with
            nextPort := (n.nextPort + k + 1) % portCount } with ⟨none_, next, same⟩ | found
          · exact .inl ⟨none_, next, same⟩
          · obtain ⟨i, within, port, free_, got⟩ := found
            exact .inr ⟨i, within, port, free_, got.moved⟩
      · rename_i settled
        refine .inr ⟨_, inside, rfl, unused', .held _ fun plain => ?_⟩
        by_contra clear
        exact settled ⟨plain, Bool.not_eq_true _ ▸ clear⟩

theorem allocFrom_none (binds : Nat → Bool) (turns k : Nat) (n : Net) :
    (n.allocFrom binds turns k).port = 0 ↔
      ∀ ask ∈ asks (fun i => n.used (n.base.port i)) turns k n.nextPort,
        n.driver = false ∧ n.boundPorts ask.2 = false ∧ binds ask.1 = false := by
  induction turns generalizing k n with
  | zero => exact ⟨fun _ ask member => absurd member List.not_mem_nil, fun _ => rfl⟩
  | succ turns ih =>
    have inside := turn_inside n.nextPort k
    have positive := port_positive (b := n.base) inside
    rw [Net.allocFrom, asks]
    dsimp only
    rw [bit_of n.base inside]
    split
    · exact ih (k + 1) n
    · rw [List.forall_mem_cons]
      split
      · rename_i asked
        split
        · rename_i granted
          constructor
          · intro zero
            exact absurd zero positive
          · rintro ⟨⟨_, _, refused⟩, _⟩
            rw [granted] at refused
            cases refused
        · rename_i refused
          have rest := ih (k + 1) { n with nextPort := (n.nextPort + k + 1) % portCount }
          constructor
          · intro zero
            exact ⟨⟨asked.1, asked.2, Bool.not_eq_true _ ▸ refused⟩, rest.mp zero⟩
          · rintro ⟨_, later⟩
            exact rest.mpr later
      · rename_i settled
        constructor
        · intro zero
          exact absurd zero positive
        · rintro ⟨⟨plain, clear, _⟩, _⟩
          exact absurd ⟨plain, clear⟩ settled

theorem allocFrom_refused (binds : Nat → Bool) (turns k : Nat) (n : Net)
    (none_ : (n.allocFrom binds turns k).port = 0) :
    (n.allocFrom binds turns k).refused =
      (asks (fun i => n.used (n.base.port i)) turns k n.nextPort).map fun ask => n.base.port ask.2 := by
  induction turns generalizing k n with
  | zero => rfl
  | succ turns ih =>
    have positive := port_positive (b := n.base) (turn_inside n.nextPort k)
    rw [Net.allocFrom] at none_ ⊢
    rw [asks]
    dsimp only at none_ ⊢
    split at none_
    · rename_i used
      rw [if_pos used, if_pos used]
      exact ih (k + 1) n none_
    · rename_i unused
      rw [if_neg unused, if_neg unused]
      split at none_
      · rename_i asked
        rw [if_pos asked]
        split at none_
        · exact absurd none_ positive
        · rename_i refused
          rw [if_neg refused, List.map_cons]
          exact congrArg _ (ih (k + 1) { n with nextPort := (n.nextPort + k + 1) % portCount } none_)
      · exact absurd none_ positive

end Searching

section Finding
variable {n m : Net} {i : Nat}

theorem Got.frame (got : Got n i m) :
    m = { n with nextPort := m.nextPort, boundPorts := m.boundPorts, kernel := m.kernel } := by
  cases got <;> rfl

theorem Got.bound (got : Got n i m) (plain : n.driver = false) : m.boundPorts i = true := by
  cases got with
  | held next bound => exact bound plain
  | granted next _ => exact if_pos rfl

theorem Got.nearly (got : Got n i m) {j : Nat} (held : m.boundPorts j = true) :
    n.boundPorts j = true ∨ n.driver = false ∧ j = i := by
  cases got with
  | held next _ => exact .inl held
  | granted next plain =>
    dsimp only at held
    split at held
    · rename_i here
      exact .inr ⟨plain, here⟩
    · exact .inl held

theorem Got.stays (got : Got n i m) {j : Nat} (held : n.boundPorts j = true) : m.boundPorts j = true := by
  cases got with
  | held next _ => exact held
  | granted next _ =>
    dsimp only
    split
    · rfl
    · exact held

theorem Got.agreed (got : Got n i m) (inside : i < portCount) (good : Accounted n) (port : UInt16) :
    m.kernel port = true ↔ ∃ j < portCount, port = n.base.port j ∧ m.boundPorts j = true := by
  cases got with
  | held next _ => exact good.agreed port
  | granted next _ =>
    dsimp only
    by_cases here : port = n.base.port i
    · rw [if_pos here]
      exact ⟨fun _ => ⟨i, inside, here, if_pos rfl⟩, fun _ => rfl⟩
    · rw [if_neg here, good.agreed port]
      constructor
      · rintro ⟨j, within, equal, held⟩
        refine ⟨j, within, equal, ?_⟩
        split
        · rfl
        · exact held
      · rintro ⟨j, within, equal, held⟩
        split at held
        · rename_i index
          exact absurd (index ▸ equal) here
        · exact ⟨j, within, equal, held⟩

theorem Got.sound (got : Got n i m) (inside : i < portCount) (up : n.up = true) (good : Sound n) :
    Sound m := by
  have agreed := got.agreed inside good.accounted
  have stays := fun j => got.stays (j := j)
  rw [got.frame] at agreed stays ⊢
  refine ⟨⟨?_, good.accounted.distinct, ?_, agreed⟩, good.owned.bare, good.owned.pool⟩
  · intro down
    rw [show n.up = false from down] at up
    cases up
  · intro h live
    obtain ⟨j, within, port, bound⟩ := good.accounted.marked h live
    exact ⟨j, within, port, fun plain => stays j (bound plain)⟩

end Finding

/-! ## A slot with a port -/

section Opening
variable {n : Net} {h : Fin maxConns} {bs bs' : Fin maxConns → Buffers}

theorem bigAlloc_pool (pool : Pool n.heap n.fresh bs) (gives : Bool) (others : ∀ k, k ≠ h → bs' k = bs k)
    (points : ∀ block, Buffers.Points (bs' h) block ↔
      Buffers.Points (bs h) block ∨ (n.bigAlloc gives).2 = some block) :
    Pool (n.bigAlloc gives).1.heap (n.bigAlloc gives).1.fresh bs' := by
  -- what a slot points to afterwards: what it did, and the new block for this one
  have now_ (k : Fin maxConns) (block : Nat) : Buffers.Points (bs' k) block ↔
      Buffers.Points (bs k) block ∨ k = h ∧ (n.bigAlloc gives).2 = some block := by
    by_cases here : k = h
    · rw [here, points]
      simp
    · rw [others k here]
      simp [here]
  cases gives with
  | false =>
    have same (k : Fin maxConns) (block : Nat) : Buffers.Points (bs' k) block ↔
        Buffers.Points (bs k) block := by
      rw [now_]
      simp [Net.bigAlloc]
    constructor
    · intro block
      simp only [same]
      exact pool.owned block
    · intro k l block first second
      exact pool.single k l block ((same k block).mp first) ((same l block).mp second)
    · exact pool.older
  | true =>
    have new : (n.bigAlloc true).2 = some n.fresh := rfl
    rw [new] at now_
    have unheld (k : Fin maxConns) : ¬ Buffers.Points (bs k) n.fresh := by
      intro held
      exact Nat.lt_irrefl _ (pool.older _ ((pool.owned _).mpr ⟨k, held⟩))
    constructor
    · intro block
      change block ∈ insert n.fresh n.heap ↔ _
      rw [Finset.mem_insert, pool.owned block]
      constructor
      · rintro (rfl | ⟨k, held⟩)
        · exact ⟨h, (now_ h _).mpr (.inr ⟨rfl, rfl⟩)⟩
        · exact ⟨k, (now_ k block).mpr (.inl held)⟩
      · rintro ⟨k, held⟩
        rcases (now_ k block).mp held with held | ⟨_, equal⟩
        · exact .inr ⟨k, held⟩
        · exact .inl (Option.some.inj equal).symm
    · intro k l block first second
      rcases (now_ k block).mp first with held | ⟨here, equal⟩
      · rcases (now_ l block).mp second with held' | ⟨_, equal'⟩
        · exact pool.single k l block held held'
        · exact absurd (Option.some.inj equal' ▸ held) (unheld k)
      · rcases (now_ l block).mp second with held' | ⟨here', _⟩
        · exact absurd (Option.some.inj equal ▸ held') (unheld l)
        · exact here.trans here'.symm
    · intro block held
      change block ∈ insert n.fresh n.heap at held
      change block < n.fresh + 1
      rcases Finset.mem_insert.mp held with equal | held
      · omega
      · have older := pool.older block held
        omega

theorem bigAlloc_frame (n : Net) (gives : Bool) : (n.bigAlloc gives).1 =
    { n with heap := (n.bigAlloc gives).1.heap, fresh := (n.bigAlloc gives).1.fresh } := by
  cases gives <;> rfl

/-- The slot with its port and what the heap gave it, not yet in use. -/
def given (n : Net) (call : Call) (h : Fin maxConns) (lport : UInt16) : Net :=
  let n := n.set h { WebTcp.freeConn (n.conn h) with lport := lport }
  let tx := n.bigAlloc call.tx
  let rx := tx.1.bigAlloc call.rx
  { rx.1 with buffers := fun k => if k = h then ⟨tx.2, rx.2⟩ else n.buffers k }

theorem given_frame (n : Net) (call : Call) (h : Fin maxConns) (lport : UInt16) : given n call h lport =
    { n.set h { WebTcp.freeConn (n.conn h) with lport := lport } with
      heap := (given n call h lport).heap, fresh := (given n call h lport).fresh
      buffers := (given n call h lport).buffers } := by
  unfold given
  dsimp only
  rw [bigAlloc_frame (Net.bigAlloc _ call.tx).1, bigAlloc_frame (n.set h _)]

theorem given_buffers (n : Net) (call : Call) (lport : UInt16) {k : Fin maxConns} (apart : k ≠ h) :
    (given n call h lport).buffers k = n.buffers k := if_neg apart

theorem given_pool (good : Owned n) (dead : ¬ n.Live h) (call : Call) (lport : UInt16) :
    Pool (given n call h lport).heap (given n call h lport).fresh (given n call h lport).buffers := by
  have bare := good.bare h dead
  have first : Pool _ _ fun k => if k = h
    then ⟨((n.set h { WebTcp.freeConn (n.conn h) with lport := lport }).bigAlloc
      call.tx).2, none⟩ else n.buffers k :=
    bigAlloc_pool (n := n.set h { WebTcp.freeConn (n.conn h) with lport := lport }) (h := h) good.pool call.tx
      (fun k apart => if_neg apart) fun block => by
        simp [Buffers.Points, bare, noBuffers]
  exact bigAlloc_pool (h := h) first call.rx (fun k apart => by simp [given, apart, Net.set]) fun block => by
    simp [Buffers.Points, given]

/-- The new connection, its SYN sent. -/
def opening (n : Net) (call : Call) (lport : UInt16) : Tcp :=
  openConn (if first call.ip = 127 then n.table.ip else call.ip) call.port lport call.peer call.now call.known

theorem openAt_cases (n : Net) (call : Call) (h : Fin maxConns) (lport : UInt16) (refused : List UInt16) :
    n.openAt call h lport refused =
        ((given n call h lport).freeConn h (WebTcp.freeConn ((given n call h lport).conn h)) call.undoes).fail
          noMemory refused ∨
      n.openAt call h lport refused =
        ⟨(given n call h lport).set h (opening (given n call h lport) call lport), .ok h, refused⟩ := by
  unfold Net.openAt
  dsimp only
  split
  · exact .inl rfl
  · exact .inr rfl

theorem opening_fields (n : Net) (call : Call) (lport : UInt16) :
    (opening n call lport).state = .synSent ∧ (opening n call lport).lport = lport :=
  noteSent_fields _ _ _

theorem given_conn (n : Net) (call : Call) (h : Fin maxConns) (lport : UInt16) (k : Fin maxConns) :
    (given n call h lport).conn k =
      if k = h then { WebTcp.freeConn (n.conn h) with lport := lport } else n.conn k := by
  rw [given_frame]
  rfl

theorem given_others (n : Net) (call : Call) (lport : UInt16) {k : Fin maxConns} (apart : k ≠ h) :
    (given n call h lport).conn k = n.conn k := by
  rw [given_conn, if_neg apart]

theorem given_lport (n : Net) (call : Call) (h : Fin maxConns) (lport : UInt16) :
    ((given n call h lport).conn h).lport = lport := by
  rw [given_conn, if_pos rfl]

theorem given_live {call : Call} {lport : UInt16} {k : Fin maxConns} (live : (given n call h lport).Live k) :
    k ≠ h ∧ n.Live k := by
  rw [Net.Live, given_conn] at live
  by_cases here : k = h
  · rw [if_pos here] at live
    exact absurd rfl live
  · rw [if_neg here] at live
    exact ⟨here, live⟩

theorem given_accounted (good : Accounted n) (call : Call) (h : Fin maxConns) (lport : UInt16) :
    Accounted (given n call h lport) := by
  have set_ : Accounted (n.set h { WebTcp.freeConn (n.conn h) with lport := lport }) :=
    set_accounted good fun live => absurd rfl live
  rw [given_frame]
  exact ⟨set_.cold, set_.distinct, set_.marked, set_.agreed⟩

theorem given_bare (good : Owned n) {call : Call} {lport : UInt16} (k : Fin maxConns) (apart : k ≠ h)
    (dead : ¬ (given n call h lport).Live k) : (given n call h lport).buffers k = noBuffers := by
  rw [given_buffers n call lport apart]
  apply good.bare
  rw [Net.Live, given_others n call lport apart] at dead
  exact dead

end Opening

/-! ## What a failure leaves -/

section Leaving

/-- Every connection that is left was there before, with its buffers; every block in
use was in use; and every binding was there, if those of this call could be undone. -/
structure LeavesNothing (n m : Net) (undoes : Bool) : Prop where
  slots : ∀ k, m.Live k → n.Live k ∧ m.conn k = n.conn k ∧ m.buffers k = n.buffers k
  blocks : m.heap ⊆ n.heap
  bindings : undoes = true → ∀ port, m.kernel port = true → n.kernel port = true

variable {n m o : Net} {undoes : Bool}

theorem LeavesNothing.refl (n : Net) (undoes : Bool) : LeavesNothing n n undoes where
  slots _ live := ⟨live, rfl, rfl⟩
  blocks := Finset.Subset.refl _
  bindings _ _ held := held

theorem LeavesNothing.trans (first : LeavesNothing n m undoes) (second : LeavesNothing m o undoes) :
    LeavesNothing n o undoes where
  slots k live := by
    obtain ⟨between, conn, buffers⟩ := second.slots k live
    obtain ⟨before, conn', buffers'⟩ := first.slots k between
    exact ⟨before, conn.trans conn', buffers.trans buffers'⟩
  blocks := Finset.Subset.trans second.blocks first.blocks
  bindings undone port held := first.bindings undone port (second.bindings undone port held)

theorem freeConn_leaves {h : Fin maxConns} {c : Tcp} {unbinds : Bool} (ended : c.state = .free)
    (undoes : Bool) :
    LeavesNothing n (n.freeConn h c unbinds) undoes where
  slots k live := by
    obtain ⟨apart, before, same⟩ := freeConn_live ended live
    rw [freeConn_buffers, if_neg apart]
    exact ⟨before, same, rfl⟩
  blocks := by
    intro block held
    exact ((freeConn_heap n h c unbinds block).mp held).1
  bindings _ := freeConn_fewer.2

theorem given_leaves {i : Nat} (inside : i < portCount) (up : n.up = true) (good : Sound n) (got : Got n i m)
    {h : Fin maxConns} (dead : ¬ n.Live h) (call : Call) :
    LeavesNothing n ((given m call h (n.base.port i)).freeConn h
      (WebTcp.freeConn ((given m call h (n.base.port i)).conn h)) call.undoes) call.undoes := by
  have sound := got.sound inside up good
  have dead' : ¬ m.Live h := by
    rw [got.frame]
    exact dead
  have pool := given_pool sound.owned dead' call (n.base.port i)
  have base : (given m call h (n.base.port i)).base = n.base := by
    rw [given_frame, got.frame]
    rfl
  have driver : (given m call h (n.base.port i)).driver = n.driver := by
    rw [given_frame, got.frame]
    rfl
  have marks : (given m call h (n.base.port i)).boundPorts = m.boundPorts := by
    rw [given_frame]
    rfl
  constructor
  · intro k live
    obtain ⟨_, before, same⟩ := freeConn_live (c := WebTcp.freeConn _) rfl live
    obtain ⟨apart, before'⟩ := given_live before
    rw [same, given_others m call _ apart, freeConn_buffers, if_neg apart, given_buffers m call _ apart]
    rw [got.frame] at before' ⊢
    exact ⟨before', rfl, rfl⟩
  · intro block held
    rw [freeConn_heap, pool.owned block] at held
    obtain ⟨⟨k, points⟩, apart⟩ := held
    have other : k ≠ h := by
      intro here
      exact apart (here ▸ points)
    rw [given_buffers m call _ other, got.frame] at points
    exact (good.owned.pool.owned block).mpr ⟨k, points⟩
  · intro undone port held
    rw [undone] at held
    -- nothing else uses the port that was found, so its bit is clear again
    rw [freeConn_emptied, release_agreed (n := emptied _ h _)] at held
    · obtain ⟨j, within, equal, bound⟩ := held
      rw [emptied_base, base] at equal
      have marked := (release_fewer _ _ _).1 j bound
      rw [(emptied_bound _ _ _).1, marks] at marked
      rcases got.nearly marked with before | ⟨plain, here⟩
      · exact (good.accounted.agreed port).mpr ⟨j, within, equal, before⟩
      · rw [here, given_lport] at bound
        have clear := release_clears (n := emptied (given m call h (n.base.port i)) h
          (WebTcp.freeConn ((given m call h (n.base.port i)).conn h)))
            (by rw [emptied_driver, driver]; exact plain)
          inside
        rw [emptied_base, base] at clear
        rw [clear] at bound
        cases bound
    · rw [emptied_base, (emptied_bound _ _ _).1, (emptied_bound _ _ _).2]
      exact (given_accounted sound.accounted call h _).agreed

end Leaving

/-! ## A call of `connect` -/

section Connecting
variable {n m : Net} {h : Fin maxConns} {i : Nat}

theorem unused_port (unused : Unused n i) (k : Fin maxConns) (live : n.Live k) :
    (n.conn k).lport ≠ n.base.port i := by
  intro equal
  rw [Unused, Bool.eq_false_iff] at unused
  exact unused ((used_iff n _).mpr ⟨k, live, equal⟩)

theorem given_own (unused : Unused n i) (call : Call) (k : Fin maxConns) (_ : k ≠ h)
    (live : (given n call h (n.base.port i)).Live k) :
    ((given n call h (n.base.port i)).conn k).lport ≠ ((given n call h (n.base.port i)).conn h).lport := by
  obtain ⟨apart, before⟩ := given_live live
  rw [given_others n call _ apart, given_lport]
  exact unused_port unused k before

theorem opened_conn (call : Call) (k : Fin maxConns) (c : Tcp) :
    ((given n call h (n.base.port i)).set h c).conn k = if k = h then c else n.conn k := by
  rw [set_conn]
  by_cases here : k = h
  · rw [if_pos here, if_pos here]
  · rw [if_neg here, if_neg here, given_others n call _ here]

theorem opened_sound (good : Sound n) (inside : i < portCount) (unused : Unused n i) (dead : ¬ n.Live h)
    (up : n.up = true) (bound : n.driver = false → n.boundPorts i = true) (call : Call) {c : Tcp}
    (live : c.state = .synSent) (port : c.lport = n.base.port i) :
    Sound ((given n call h (n.base.port i)).set h c) := by
  have same := fun k => opened_conn (n := n) (h := h) (i := i) call k c
  have lives (k : Fin maxConns) (used : ((given n call h (n.base.port i)).set h c).Live k) :
      k = h ∨ k ≠ h ∧ n.Live k := by
    by_cases here : k = h
    · exact .inl here
    · rw [Net.Live, same k, if_neg here] at used
      exact .inr ⟨here, used⟩
  have base : ((given n call h (n.base.port i)).set h c).base = n.base := by
    rw [given_frame]
    rfl
  have marks : ((given n call h (n.base.port i)).set h c).boundPorts = n.boundPorts := by
    rw [given_frame]
    rfl
  have driver : ((given n call h (n.base.port i)).set h c).driver = n.driver := by
    rw [given_frame]
    rfl
  refine ⟨⟨?_, ?_, ?_, (given_accounted good.accounted call h _).agreed⟩,
    ⟨?_, given_pool good.owned dead call _⟩⟩
  · intro down
    rw [given_frame] at down
    rw [show n.up = false from down] at up
    cases up
  · intro k l first second equal
    rw [same k, same l] at equal
    rcases lives k first with here | ⟨apart, before⟩
    · rcases lives l second with here' | ⟨apart', before'⟩
      · rw [here, here']
      · rw [if_pos here, if_neg apart', port] at equal
        exact absurd equal.symm (unused_port unused l before')
    · rcases lives l second with here' | ⟨apart', before'⟩
      · rw [if_neg apart, if_pos here', port] at equal
        exact absurd equal (unused_port unused k before)
      · rw [if_neg apart, if_neg apart'] at equal
        exact good.accounted.distinct k l before before' equal
  · intro k used
    rw [base, marks, driver, same k]
    rcases lives k used with here | ⟨apart, before⟩
    · rw [if_pos here]
      exact ⟨i, inside, port, bound⟩
    · rw [if_neg apart]
      exact good.accounted.marked k before
  · intro k dead'
    have apart : k ≠ h := by
      intro here
      apply dead'
      rw [Net.Live, same k, if_pos here, live]
      intro free_
      cases free_
    apply given_bare good.owned k apart
    rw [Net.Live, set_conn, if_neg apart] at dead'
    exact dead'

theorem openAt_sound (good : Sound n) (inside : i < portCount) (unused : Unused n i) (dead : ¬ n.Live h)
    (up : n.up = true) (bound : n.driver = false → n.boundPorts i = true) (call : Call)
    (refused : List UInt16) :
    Sound (n.openAt call h (n.base.port i) refused).net := by
  rcases openAt_cases n call h (n.base.port i) refused with failed | opened
  · rw [failed]
    have freed : Sound ((given n call h (n.base.port i)).freeConn h
        (WebTcp.freeConn ((given n call h (n.base.port i)).conn h)) call.undoes) :=
      ⟨freeConn_accounted (given_accounted good.accounted call h _) rfl (given_own unused call),
        freeConn_owned (given_bare good.owned) (given_pool good.owned dead call _)⟩
    exact ⟨⟨freed.accounted.cold, freed.accounted.distinct, freed.accounted.marked, freed.accounted.agreed⟩,
      ⟨freed.owned.bare, freed.owned.pool⟩⟩
  · rw [opened]
    exact opened_sound good inside unused dead up bound call (opening_fields _ call _).1
      (opening_fields _ call _).2

theorem openAt_exact (nearly : n.driver = false → ∀ j < portCount, n.boundPorts j = true →
      (∃ k, n.Live k ∧ (n.conn k).lport = n.base.port j) ∨ j = i)
    (dead : ¬ n.Live h) (call : Call) (undone : call.undoes = true) (refused : List UInt16) :
    Exact (n.openAt call h (n.base.port i) refused).net := by
  have base : (given n call h (n.base.port i)).base = n.base := by
    rw [given_frame]
    rfl
  have marks : (given n call h (n.base.port i)).boundPorts = n.boundPorts := by
    rw [given_frame]
    rfl
  have driver : (given n call h (n.base.port i)).driver = n.driver := by
    rw [given_frame]
    rfl
  have kept {k : Fin maxConns} (live : n.Live k) : k ≠ h := by
    intro here
    exact dead (here ▸ live)
  rcases openAt_cases n call h (n.base.port i) refused with failed | opened
  · rw [failed, undone]
    have freed : Exact ((given n call h (n.base.port i)).freeConn h
        (WebTcp.freeConn ((given n call h (n.base.port i)).conn h)) true) := by
      apply freeConn_exact
      rw [base, marks, driver, given_lport]
      intro plain j within held
      rcases nearly plain j within held with ⟨k, live, port⟩ | here
      · refine .inl ⟨k, kept live, ?_, ?_⟩
        · rw [Net.Live, given_others n call _ (kept live)]
          exact live
        · rw [given_others n call _ (kept live)]
          exact port
      · exact .inr (by rw [here])
    exact freed
  · rw [opened]
    intro plain j within held
    have plain' : n.driver = false := driver ▸ plain
    have held' : n.boundPorts j = true := marks ▸ held
    have fields := opening_fields (given n call h (n.base.port i)) call (n.base.port i)
    dsimp only
    rw [show ((given n call h (n.base.port i)).set h (opening (given n call h (n.base.port i)) call
      (n.base.port i))).base = n.base from base]
    rcases nearly plain' j within held' with ⟨k, live, port⟩ | here
    · refine ⟨k, ?_, ?_⟩
      · rw [Net.Live, opened_conn, if_neg (kept live)]
        exact live
      · rw [opened_conn, if_neg (kept live)]
        exact port
    · refine ⟨h, ?_, ?_⟩
      · rw [Net.Live, opened_conn, if_pos rfl, fields.1]
        intro free_
        cases free_
      · rw [opened_conn, if_pos rfl, fields.2, here]

theorem bringUp_sound (good : Sound n) (boot : Boot) : Sound (n.bringUp boot).1 := by
  unfold Net.bringUp
  split
  · exact good
  · rename_i down
    have cold := good.accounted.cold (Bool.not_eq_true _ ▸ down)
    split
    · exact ⟨⟨fun impossible => Bool.noConfusion impossible, fun k _ live => absurd live (cold.1 k),
        fun k live => absurd live (cold.1 k), good.accounted.agreed⟩, ⟨good.owned.bare, good.owned.pool⟩⟩
    · exact ⟨⟨good.accounted.cold, good.accounted.distinct, good.accounted.marked, good.accounted.agreed⟩,
        ⟨good.owned.bare, good.owned.pool⟩⟩

theorem bringUp_exact (good : Sound n) (exact_ : Exact n) (boot : Boot) : Exact (n.bringUp boot).1 := by
  unfold Net.bringUp
  split
  · exact exact_
  · rename_i down
    have cold := good.accounted.cold (Bool.not_eq_true _ ▸ down)
    split
    · intro _ i _ held
      exact Bool.noConfusion (held.symm.trans (cold.2 i))
    · exact exact_

theorem bringUp_up (boot : Boot) (up : (n.bringUp boot).2 = true) : (n.bringUp boot).1.up = true := by
  unfold Net.bringUp at up ⊢
  split
  · assumption
  · rename_i down
    rw [if_neg down] at up
    split at up
    · rename_i network
      rw [if_pos network]
    · cases up

theorem bringUp_leaves (boot : Boot) (undoes : Bool) : LeavesNothing n (n.bringUp boot).1 undoes := by
  unfold Net.bringUp
  split
  · exact LeavesNothing.refl n undoes
  · split
    · exact ⟨fun _ live => ⟨live, rfl, rfl⟩, Finset.Subset.refl _, fun _ _ held => held⟩
    · exact ⟨fun _ live => ⟨live, rfl, rfl⟩, Finset.Subset.refl _, fun _ _ held => held⟩

theorem allocConn_cases (n : Net) (unbinds : Bool) :
    (∃ h, n.allocConn unbinds = (n, some h) ∧ ¬ n.Live h) ∨
      (∃ h, n.allocConn unbinds = (n.freeConn h (WebTcp.freeConn (n.conn h)) unbinds, some h) ∧ n.Live h) ∨
        n.allocConn unbinds = (n, none) := by
  unfold Net.allocConn
  split
  · rename_i h found
    refine .inl ⟨h, rfl, ?_⟩
    have free_ := List.find?_some found
    rw [decide_eq_true_eq] at free_
    exact fun live => live free_
  · split
    · rename_i h found
      refine .inr (.inl ⟨h, rfl, ?_⟩)
      have closing := List.find?_some found
      rw [decide_eq_true_eq] at closing
      rw [Net.Live, closing]
      intro free_
      cases free_
    · exact .inr (.inr rfl)

/-- Whether the port at place `i` is bound once the slot `h` has been taken. -/
def stillBound (n : Net) (h : Fin maxConns) (reclaims : Bool) (i : Nat) : Bool :=
  n.boundPorts i && !(decide (n.Live h) && (n.conn h).lport == n.base.port i && reclaims)

/-- A connection other than the slot `h` has the port at place `i`. -/
def usedByOthers (n : Net) (h : Fin maxConns) (i : Nat) : Bool :=
  (List.finRange maxConns).any fun k => k ≠ h && (decide (n.Live k) && (n.conn k).lport == n.base.port i)

theorem usedByOthers_iff (n : Net) (h : Fin maxConns) (i : Nat) :
    usedByOthers n h i = true ↔ ∃ k, k ≠ h ∧ n.Live k ∧ (n.conn k).lport = n.base.port i := by
  simp only [usedByOthers, List.any_eq_true, List.mem_finRange, true_and, Bool.and_eq_true, decide_eq_true_eq,
    beq_iff_eq]

/-- A slot taken for a new connection. -/
structure Slotted (n : Net) (reclaims : Bool) (h : Fin maxConns) (m : Net) : Prop where
  dead : ¬ m.Live h
  others : ∀ k, k ≠ h → m.conn k = n.conn k
  base : m.base = n.base
  driver : m.driver = n.driver
  up : m.up = n.up
  nextPort : m.nextPort = n.nextPort
  sound : Sound n → Sound m
  settled : reclaims = true → Exact n → Exact m
  leaves : ∀ undoes, LeavesNothing n m undoes
  bound : n.driver = false → ∀ i < portCount, m.boundPorts i = stillBound n h reclaims i

theorem allocConn_slotted {reclaims : Bool} (slot : (n.allocConn reclaims).2 = some h) :
    Slotted n reclaims h (n.allocConn reclaims).1 := by
  rcases allocConn_cases n reclaims with ⟨k, free_, dead⟩ | ⟨k, freed, live⟩ | full
  · rw [free_] at slot ⊢
    cases slot
    refine ⟨dead, fun _ _ => rfl, rfl, rfl, rfl, rfl, id, fun _ => id, fun _ => LeavesNothing.refl n _, ?_⟩
    intro _ i _
    simp [stillBound, dead]
  · rw [freed] at slot ⊢
    cases slot
    constructor
    · rw [Net.Live, freeConn_conn, if_pos rfl]
      exact fun live => live rfl
    · intro l apart
      exact freeConn_others apart
    · exact freeConn_base n h _ reclaims
    · exact freeConn_driver n h _ reclaims
    · exact freeConn_up n h _ reclaims
    · exact freeConn_nextPort n h _ reclaims
    · intro good
      exact ⟨freeConn_accounted good.accounted rfl (own_port good.accounted live),
        freeConn_owned (fun l _ => good.owned.bare l) good.owned.pool⟩
    · intro sure exact_
      rw [sure]
      apply freeConn_exact
      intro plain i within held
      obtain ⟨l, used, port⟩ := exact_ plain i within held
      by_cases here : l = h
      · exact .inr (here ▸ port)
      · exact .inl ⟨l, here, used, port⟩
    · exact freeConn_leaves rfl
    · intro plain i within
      by_cases own : (n.conn h).lport = n.base.port i
      · cases reclaims with
        | true =>
          have clear := release_clears (n := emptied n h (WebTcp.freeConn (n.conn h)))
            (by rw [emptied_driver]; exact plain) within
          rw [emptied_base, ← own, ← freeConn_emptied] at clear
          rw [clear]
          simp [stillBound, live, own]
        | false =>
          -- the kernel keeps the binding, and so does the table
          have kept : (emptied n h (WebTcp.freeConn (n.conn h))).release (n.conn h).lport false =
              emptied n h (WebTcp.freeConn (n.conn h)) := by
            rcases release_cases (emptied n h (WebTcp.freeConn (n.conn h))) (n.conn h).lport false with
              same | ⟨_, _, _, _, _, impossible, _⟩
            · exact same
            · cases impossible
          rw [freeConn_emptied, kept, (emptied_bound n h _).1]
          simp [stillBound]
      · rw [freeConn_bound own]
        simp [stillBound, own]
  · rw [full] at slot
    cases slot

theorem Slotted.unused {reclaims : Bool} (slotted : Slotted n reclaims h m) (i : Nat) :
    m.used (m.base.port i) = usedByOthers n h i := by
  rw [Bool.eq_iff_iff, used_iff, usedByOthers_iff, slotted.base]
  constructor
  · rintro ⟨k, live, port⟩
    have apart : k ≠ h := by
      intro here
      exact slotted.dead (here ▸ live)
    rw [Net.Live, slotted.others k apart] at live
    rw [slotted.others k apart] at port
    exact ⟨k, apart, live, port⟩
  · rintro ⟨k, apart, live, port⟩
    refine ⟨k, ?_, ?_⟩
    · rw [Net.Live, slotted.others k apart]
      exact live
    · rw [slotted.others k apart]
      exact port

/-- The ways a call ends. -/
inductive Ends (n : Net) (call : Call) : Outcome → Prop where
  | down (down : (n.bringUp call.boot).2 = false) :
    Ends n call ⟨(n.bringUp call.boot).1, .error noNetwork, []⟩
  | full : Ends n call ((n.bringUp call.boot).1.fail tooMany [])
  | portless (h : Fin maxConns) (m : Net) (next : Nat) (refused : List UInt16)
      (up : (n.bringUp call.boot).2 = true) (slotted : Slotted (n.bringUp call.boot).1 call.reclaims h m) :
      Ends n call ({ m with nextPort := next }.fail noPort refused)
  | placed (h : Fin maxConns) (m o : Net) (i : Nat) (refused : List UInt16)
      (up : (n.bringUp call.boot).2 = true) (slotted : Slotted (n.bringUp call.boot).1 call.reclaims h m)
      (inside : i < portCount) (unused : Unused m i) (got : Got m i o) :
      Ends n call (o.openAt call h (m.base.port i) refused)

theorem connect_ends (n : Net) (call : Call) : Ends n call (n.connect call) := by
  unfold Net.connect
  dsimp only
  split
  · rename_i down
    exact .down down
  · rename_i up
    have up' : (n.bringUp call.boot).2 = true := by
      simpa using up
    split
    · rename_i full
      rcases allocConn_cases (n.bringUp call.boot).1 call.reclaims with ⟨k, free_, _⟩ | ⟨k, freed, _⟩ | same
      · rw [free_] at full
        cases full
      · rw [freed] at full
        cases full
      · rw [same]
        exact .full
    · rename_i h slot
      have slotted := allocConn_slotted slot
      rcases allocFrom_cases call.binds portCount 0 ((n.bringUp call.boot).1.allocConn call.reclaims).1 with
        ⟨none_, next, same⟩ | ⟨i, inside, port, unused, got⟩
      · rw [Net.allocPort, if_pos none_, same]
        exact .portless h _ next _ up' slotted
      · have positive := port_positive (b := ((n.bringUp call.boot).1.allocConn call.reclaims).1.base) inside
        rw [Net.allocPort, port, if_neg positive]
        exact .placed h _ _ i _ up' slotted inside unused got

theorem connect_sound (good : Sound n) (call : Call) : Sound (n.connect call).net := by
  have booted := bringUp_sound good call.boot
  have ends := connect_ends n call
  generalize n.connect call = o at ends ⊢
  cases ends with
  | down _ => exact booted
  | full =>
    exact ⟨⟨booted.accounted.cold, booted.accounted.distinct, booted.accounted.marked,
      booted.accounted.agreed⟩,
      ⟨booted.owned.bare, booted.owned.pool⟩⟩
  | portless h m next refused _ slotted =>
    have sound := slotted.sound booted
    exact ⟨⟨sound.accounted.cold, sound.accounted.distinct, sound.accounted.marked, sound.accounted.agreed⟩,
      ⟨sound.owned.bare, sound.owned.pool⟩⟩
  | placed h m o i refused up slotted inside unused got =>
    have up' : m.up = true := slotted.up.trans (bringUp_up call.boot up)
    have sound := got.sound inside up' (slotted.sound booted)
    have dead := slotted.dead
    have bound := got.bound
    rw [got.frame] at sound bound ⊢
    exact openAt_sound sound inside unused dead up' bound call refused

theorem connect_exact (good : Sound n) (exact_ : Exact n) (call : Call) (reclaimed : call.reclaims = true)
    (undone : call.undoes = true) : Exact (n.connect call).net := by
  have booted := bringUp_exact good exact_ call.boot
  have ends := connect_ends n call
  generalize n.connect call = o at ends ⊢
  cases ends with
  | down _ => exact booted
  | full => exact booted
  | portless h m next refused _ slotted => exact slotted.settled reclaimed booted
  | placed h m o i refused up slotted inside unused got =>
    have settled := slotted.settled reclaimed booted
    have dead := slotted.dead
    have nearly (plain : m.driver = false) (j : Nat) (within : j < portCount) (held : o.boundPorts j = true) :
        (∃ k, m.Live k ∧ (m.conn k).lport = m.base.port j) ∨ j = i := by
      rcases got.nearly held with before | ⟨_, here⟩
      · exact .inl (settled plain j within before)
      · exact .inr here
    rw [got.frame] at nearly ⊢
    exact openAt_exact (n := { m with
      nextPort := o.nextPort, boundPorts := o.boundPorts, kernel := o.kernel })
      nearly dead call undone refused

theorem connect_leaves (good : Sound n) (call : Call) {why : String}
    (failed : (n.connect call).got = .error why) :
    LeavesNothing n (n.connect call).net call.undoes := by
  have booted := bringUp_leaves (n := n) call.boot call.undoes
  have ends := connect_ends n call
  generalize n.connect call = o at ends failed ⊢
  cases ends with
  | down _ => exact booted
  | full => exact booted.trans ⟨fun _ live => ⟨live, rfl, rfl⟩, Finset.Subset.refl _, fun _ _ held => held⟩
  | portless h m next refused _ slotted =>
    exact (booted.trans (slotted.leaves call.undoes)).trans
      ⟨fun _ live => ⟨live, rfl, rfl⟩, Finset.Subset.refl _, fun _ _ held => held⟩
  | placed h m o i refused up slotted inside unused got =>
    have up' : m.up = true := slotted.up.trans (bringUp_up call.boot up)
    have sound := slotted.sound (bringUp_sound good call.boot)
    have given_ := given_leaves inside up' sound got slotted.dead call
    rcases openAt_cases o call h (m.base.port i) refused with out | opened
    · rw [out]
      have left_ := (booted.trans (slotted.leaves call.undoes)).trans given_
      exact ⟨left_.slots, left_.blocks, left_.bindings⟩
    · rw [opened] at failed
      cases failed

end Connecting

end R2Apps.WebTcpConnects
