import R2Apps.WebTcpPorts

/-! Whole runs of the browser's connection table: any calls, any segments and
timeouts, and any pattern of refusals from the kernel and the heap. -/
namespace R2Apps.WebTcpPortRuns
open WebTcp WebTcpPorts PrefixRoutes

section Ports
variable {b : PortBase} {i j : Nat}

theorem port_toNat (inside : i < portCount) : (b.port i).toNat = b.base + i := by
  have fits := b.fits
  have small : i < 8 := inside
  rw [PortBase.port, UInt16.toNat_ofNat']
  apply Nat.mod_eq_of_lt
  unfold portCount at fits
  omega

theorem port_inj (left_ : i < portCount) (right_ : j < portCount) (equal : b.port i = b.port j) : i = j := by
  have values := congrArg UInt16.toNat equal
  rw [port_toNat left_, port_toNat right_] at values
  omega

theorem port_positive (inside : i < portCount) : b.port i ≠ 0 := by
  intro zero
  have values := congrArg UInt16.toNat zero
  have positive := b.positive
  rw [port_toNat inside] at values
  change b.base + i = 0 at values
  omega

theorem port_of_range {port : UInt16} (from_ : b.base ≤ port.toNat)
    (below : port.toNat < b.base + portCount) :
    port.toNat - b.base < portCount ∧ port = b.port (port.toNat - b.base) := by
  have inside : port.toNat - b.base < portCount := by omega
  have value : port.toNat = (b.port (port.toNat - b.base)).toNat := by
    rw [port_toNat inside]
    omega
  exact ⟨inside, UInt16.toNat_inj.mp value⟩

end Ports

/-! ## What is kept -/

section Invariant

/-- The connections and the bindings: no two connections have one port, every port
is one of the eight and is bound outside the driver's role, and `boundPorts` is what the
kernel has. -/
structure Accounted (n : Net) : Prop where
  cold : n.up = false → (∀ h, ¬ n.Live h) ∧ ∀ i, n.boundPorts i = false
  distinct : ∀ h k, n.Live h → n.Live k → (n.conn h).lport = (n.conn k).lport → h = k
  marked : ∀ h, n.Live h → ∃ i < portCount, (n.conn h).lport = n.base.port i ∧
    (n.driver = false → n.boundPorts i = true)
  agreed : ∀ port, n.kernel port = true ↔ ∃ i < portCount, port = n.base.port i ∧ n.boundPorts i = true

def Buffers.Points (b : Buffers) (block : Nat) : Prop := b.tx = some block ∨ b.rx = some block

/-- The blocks in use are the slots' buffers, each of one slot. -/
structure Pool (heap : Finset Nat) (fresh : Nat) (buffers : Fin maxConns → Buffers) : Prop where
  owned : ∀ block, block ∈ heap ↔ ∃ h, Buffers.Points (buffers h) block
  single : ∀ h k block, Buffers.Points (buffers h) block → Buffers.Points (buffers k) block → h = k
  older : ∀ block ∈ heap, block < fresh

structure Owned (n : Net) : Prop where
  bare : ∀ h, ¬ n.Live h → n.buffers h = noBuffers
  pool : Pool n.heap n.fresh n.buffers

/-- Outside the driver's role nothing is bound but the connections' ports. -/
def Exact (n : Net) : Prop :=
  n.driver = false → ∀ i < portCount, n.boundPorts i = true → ∃ h, n.Live h ∧ (n.conn h).lport = n.base.port i

structure Sound (n : Net) : Prop where
  accounted : Accounted n
  owned : Owned n

theorem noBuffers_point (block : Nat) : ¬ Buffers.Points noBuffers block := by
  rintro (tx | rx)
  · exact nomatch tx
  · exact nomatch rx

end Invariant

/-! ## One connection after a call -/

section Setting
variable {n : Net} {h : Fin maxConns} {c : Tcp}

theorem set_conn (n : Net) (h k : Fin maxConns) (c : Tcp) :
    (n.set h c).conn k = if k = h then c else n.conn k := rfl

theorem set_live (keeps : Keeps (n.conn h) c) {k : Fin maxConns} (live : (n.set h c).Live k) :
    n.Live k ∧ ((n.set h c).conn k).lport = (n.conn k).lport := by
  rw [Net.Live, set_conn] at live
  rw [set_conn]
  by_cases here : k = h
  · rw [if_pos here] at live ⊢
    rw [here]
    exact keeps live
  · rw [if_neg here] at live ⊢
    exact ⟨live, rfl⟩

theorem set_accounted (good : Accounted n) (keeps : Keeps (n.conn h) c) : Accounted (n.set h c) where
  cold down := ⟨fun k live => (good.cold down).1 k (set_live keeps live).1, (good.cold down).2⟩
  distinct k l first second equal := by
    have ⟨before, same⟩ := set_live keeps first
    have ⟨before', same'⟩ := set_live keeps second
    exact good.distinct k l before before' (same.symm.trans (equal.trans same'))
  marked k live := by
    have ⟨before, same⟩ := set_live keeps live
    obtain ⟨i, inside, port, bound⟩ := good.marked k before
    exact ⟨i, inside, same.trans port, bound⟩
  agreed := good.agreed

theorem set_owned (good : Owned n) (stays : n.Live h → c.state ≠ .free) : Owned (n.set h c) where
  bare k dead := by
    apply good.bare
    intro live
    apply dead
    rw [Net.Live, set_conn]
    by_cases here : k = h
    · rw [if_pos here]
      exact stays (here ▸ live)
    · rw [if_neg here]
      exact live
  pool := good.pool

theorem set_exact (good : Exact n) (keeps : Keeps (n.conn h) c) (stays : n.Live h → c.state ≠ .free) :
    Exact (n.set h c) := by
  intro plain i inside bound
  obtain ⟨k, live, port⟩ := good plain i inside bound
  have live' : (n.set h c).Live k := by
    rw [Net.Live, set_conn]
    by_cases here : k = h
    · rw [if_pos here]
      exact stays (here ▸ live)
    · rw [if_neg here]
      exact live
  exact ⟨k, live', (set_live keeps live').2.trans port⟩

end Setting

/-! ## A connection that ends -/

section Ending
variable {n : Net} {h k : Fin maxConns} {c : Tcp} {unbinds : Bool}

theorem release_cases (n : Net) (port : UInt16) (unbinds : Bool) :
    n.release port unbinds = n ∨
      ∃ i < portCount, port = n.base.port i ∧ n.driver = false ∧ n.boundPorts i = true ∧ unbinds = true ∧
        n.release port unbinds = { n with
          boundPorts := fun b => if b = i then false else n.boundPorts b
          kernel := fun p => if p = port then false else n.kernel p } := by
  unfold Net.release
  split
  · rename_i range
    obtain ⟨plain, from_, below⟩ := range
    have ⟨inside, port_eq⟩ := port_of_range from_ below
    dsimp only
    split
    · rename_i held
      exact .inr ⟨port.toNat - n.base.base, inside, port_eq, plain, held.1, held.2, rfl⟩
    · exact .inl rfl
  · exact .inl rfl

theorem release_clears (plain : n.driver = false) {i : Nat} (inside : i < portCount) :
    (n.release (n.base.port i) true).boundPorts i = false := by
  have value := port_toNat (b := n.base) inside
  have range : n.driver = false ∧ n.base.base ≤ (n.base.port i).toNat ∧
      (n.base.port i).toNat < n.base.base + portCount := by
    rw [value]
    exact ⟨plain, by omega, by omega⟩
  have bit : (n.base.port i).toNat - n.base.base = i := by omega
  unfold Net.release
  rw [if_pos range]
  dsimp only
  rw [bit]
  by_cases held : n.boundPorts i = true
  · rw [if_pos ⟨held, rfl⟩]
    exact if_pos rfl
  · rw [if_neg fun both => held both.1]
    simpa using held

theorem release_base (n : Net) (port : UInt16) (unbinds : Bool) : (n.release port unbinds).base = n.base := by
  rcases release_cases n port unbinds with same | ⟨i, _, _, _, _, _, same⟩ <;> rw [same]

theorem release_up (n : Net) (port : UInt16) (unbinds : Bool) : (n.release port unbinds).up = n.up := by
  rcases release_cases n port unbinds with same | ⟨i, _, _, _, _, _, same⟩ <;> rw [same]

theorem release_driver (n : Net) (port : UInt16) (unbinds : Bool) :
    (n.release port unbinds).driver = n.driver := by
  rcases release_cases n port unbinds with same | ⟨i, _, _, _, _, _, same⟩ <;> rw [same]

theorem release_table (n : Net) (port : UInt16) (unbinds : Bool) :
    (n.release port unbinds).table = n.table := by
  rcases release_cases n port unbinds with same | ⟨i, _, _, _, _, _, same⟩ <;> rw [same]

theorem release_buffers (n : Net) (port : UInt16) (unbinds : Bool) :
    (n.release port unbinds).buffers = n.buffers := by
  rcases release_cases n port unbinds with same | ⟨i, _, _, _, _, _, same⟩ <;> rw [same]

theorem release_heap (n : Net) (port : UInt16) (unbinds : Bool) :
    (n.release port unbinds).heap = n.heap ∧ (n.release port unbinds).fresh = n.fresh := by
  rcases release_cases n port unbinds with same | ⟨i, _, _, _, _, _, same⟩ <;> rw [same] <;> exact ⟨rfl, rfl⟩

theorem release_nextPort (n : Net) (port : UInt16) (unbinds : Bool) :
    (n.release port unbinds).nextPort = n.nextPort := by
  rcases release_cases n port unbinds with same | ⟨i, _, _, _, _, _, same⟩ <;> rw [same]

/-- Bindings only become fewer, and the two records of them the same way. -/
theorem release_fewer (n : Net) (port : UInt16) (unbinds : Bool) :
    (∀ i, (n.release port unbinds).boundPorts i = true → n.boundPorts i = true) ∧
      ∀ p, (n.release port unbinds).kernel p = true → n.kernel p = true := by
  rcases release_cases n port unbinds with same | ⟨i, _, _, _, _, _, same⟩
  · rw [same]
    exact ⟨fun _ held => held, fun _ held => held⟩
  · rw [same]
    constructor
    · intro j held
      dsimp only at held
      split at held
      · exact nomatch held
      · exact held
    · intro p held
      dsimp only at held
      split at held
      · exact nomatch held
      · exact held

theorem release_other {port : UInt16} {i : Nat} (other : port ≠ n.base.port i) :
    (n.release port unbinds).boundPorts i = n.boundPorts i := by
  rcases release_cases n port unbinds with same | ⟨j, within, port_eq, _, _, _, same⟩
  · rw [same]
  · rw [same]
    dsimp only
    rw [if_neg]
    intro equal
    rw [equal] at other
    exact other port_eq

theorem release_agreed (port : UInt16) (unbinds : Bool)
    (agreed : ∀ port, n.kernel port = true ↔ ∃ i < portCount, port = n.base.port i ∧ n.boundPorts i = true)
    (p : UInt16) :
    (n.release port unbinds).kernel p = true ↔
      ∃ i < portCount, p = n.base.port i ∧ (n.release port unbinds).boundPorts i = true := by
  rcases release_cases n port unbinds with same | ⟨j, within, port_eq, _, _, _, same⟩
  · rw [same]
    exact agreed p
  · rw [same]
    dsimp only
    by_cases here : p = port
    · rw [if_pos here]
      constructor
      · intro held
        exact nomatch held
      · rintro ⟨i, inside, equal, held⟩
        have index : i = j := port_inj inside within (equal.symm.trans (here.trans port_eq))
        rw [if_pos index] at held
        exact nomatch held
    · rw [if_neg here, agreed p]
      constructor
      · rintro ⟨i, inside, equal, held⟩
        refine ⟨i, inside, equal, ?_⟩
        rw [if_neg]
        · exact held
        · intro index
          rw [index] at equal
          exact here (equal.trans port_eq.symm)
      · rintro ⟨i, inside, equal, held⟩
        split at held
        · exact nomatch held
        · exact ⟨i, inside, equal, held⟩

theorem bigFree_mem (n : Net) (pointer : Option Nat) (block : Nat) :
    block ∈ (n.bigFree pointer).heap ↔ block ∈ n.heap ∧ pointer ≠ some block := by
  cases pointer with
  | none => simp [Net.bigFree]
  | some other =>
    simp only [Net.bigFree, Finset.mem_erase, ne_eq, Option.some.injEq]
    constructor
    · rintro ⟨apart, held⟩
      exact ⟨held, fun equal => apart equal.symm⟩
    · rintro ⟨held, apart⟩
      exact ⟨fun equal => apart equal.symm, held⟩

theorem bigFree_frame (n : Net) (pointer : Option Nat) :
    n.bigFree pointer = { n with heap := (n.bigFree pointer).heap } := by
  cases pointer <;> rfl

theorem freeConn_conn (n : Net) (h k : Fin maxConns) (c : Tcp) (unbinds : Bool) :
    (n.freeConn h c unbinds).conn k = if k = h then c else n.conn k := by
  rw [Net.conn, Net.freeConn, release_table]
  rfl

theorem freeConn_buffers (n : Net) (h k : Fin maxConns) (c : Tcp) (unbinds : Bool) :
    (n.freeConn h c unbinds).buffers k = if k = h then noBuffers else n.buffers k := by
  rw [Net.freeConn, release_buffers]

theorem freeConn_heap (n : Net) (h : Fin maxConns) (c : Tcp) (unbinds : Bool) (block : Nat) :
    block ∈ (n.freeConn h c unbinds).heap ↔ block ∈ n.heap ∧ ¬ Buffers.Points (n.buffers h) block := by
  rw [Net.freeConn, (release_heap _ _ _).1]
  dsimp only
  rw [bigFree_mem, bigFree_mem, Buffers.Points, not_or, and_assoc]

/-- A slot emptied, before its port is given back. -/
def emptied (n : Net) (h : Fin maxConns) (c : Tcp) : Net :=
  { (n.bigFree (n.buffers h).tx).bigFree (n.buffers h).rx with
    table := n.table.set h c
    buffers := fun k => if k = h then noBuffers else n.buffers k }

theorem freeConn_emptied (n : Net) (h : Fin maxConns) (c : Tcp) (unbinds : Bool) :
    n.freeConn h c unbinds = (emptied n h c).release (n.conn h).lport unbinds := rfl

theorem emptied_frame (n : Net) (h : Fin maxConns) (c : Tcp) :
    emptied n h c = { n with
      heap := (emptied n h c).heap, table := n.table.set h c
      buffers := fun k => if k = h then noBuffers else n.buffers k } := by
  unfold emptied
  rw [bigFree_frame (n.bigFree (n.buffers h).tx), bigFree_frame n]

theorem emptied_base (n : Net) (h : Fin maxConns) (c : Tcp) : (emptied n h c).base = n.base := by
  rw [emptied_frame]

theorem emptied_driver (n : Net) (h : Fin maxConns) (c : Tcp) : (emptied n h c).driver = n.driver := by
  rw [emptied_frame]

theorem emptied_bound (n : Net) (h : Fin maxConns) (c : Tcp) :
    (emptied n h c).boundPorts = n.boundPorts ∧ (emptied n h c).kernel = n.kernel := by
  rw [emptied_frame]
  exact ⟨rfl, rfl⟩

theorem freeConn_base (n : Net) (h : Fin maxConns) (c : Tcp) (unbinds : Bool) :
    (n.freeConn h c unbinds).base = n.base := by
  rw [freeConn_emptied, release_base, emptied_base]

theorem freeConn_driver (n : Net) (h : Fin maxConns) (c : Tcp) (unbinds : Bool) :
    (n.freeConn h c unbinds).driver = n.driver := by
  rw [freeConn_emptied, release_driver, emptied_driver]

theorem freeConn_up (n : Net) (h : Fin maxConns) (c : Tcp) (unbinds : Bool) :
    (n.freeConn h c unbinds).up = n.up := by
  rw [freeConn_emptied, release_up, emptied_frame]

theorem freeConn_fresh (n : Net) (h : Fin maxConns) (c : Tcp) (unbinds : Bool) :
    (n.freeConn h c unbinds).fresh = n.fresh := by
  rw [freeConn_emptied, (release_heap _ _ _).2, emptied_frame]

theorem freeConn_nextPort (n : Net) (h : Fin maxConns) (c : Tcp) (unbinds : Bool) :
    (n.freeConn h c unbinds).nextPort = n.nextPort := by
  rw [freeConn_emptied, release_nextPort, emptied_frame]

theorem freeConn_live (ended : c.state = .free) {k : Fin maxConns} (live : (n.freeConn h c unbinds).Live k) :
    k ≠ h ∧ n.Live k ∧ (n.freeConn h c unbinds).conn k = n.conn k := by
  rw [Net.Live, freeConn_conn] at live
  rw [freeConn_conn]
  by_cases here : k = h
  · rw [if_pos here] at live
    exact absurd ended live
  · rw [if_neg here] at live ⊢
    exact ⟨here, live, rfl⟩

theorem freeConn_others (apart : k ≠ h) : (n.freeConn h c unbinds).conn k = n.conn k := by
  rw [freeConn_conn, if_neg apart]

theorem freeConn_bound {i : Nat} (other : (n.conn h).lport ≠ n.base.port i) :
    (n.freeConn h c unbinds).boundPorts i = n.boundPorts i := by
  rw [freeConn_emptied, release_other]
  · rw [(emptied_bound n h c).1]
  · rw [emptied_base]
    exact other

theorem freeConn_fewer : (∀ i, (n.freeConn h c unbinds).boundPorts i = true → n.boundPorts i = true) ∧
    ∀ p, (n.freeConn h c unbinds).kernel p = true → n.kernel p = true := by
  have fewer := release_fewer (emptied n h c) (n.conn h).lport unbinds
  rw [(emptied_bound n h c).1, (emptied_bound n h c).2] at fewer
  exact fewer

theorem freeConn_accounted (good : Accounted n) (ended : c.state = .free)
    (own : ∀ k, k ≠ h → n.Live k → (n.conn k).lport ≠ (n.conn h).lport) :
    Accounted (n.freeConn h c unbinds) where
  cold down := by
    rw [freeConn_up] at down
    constructor
    · intro k live
      exact (good.cold down).1 k (freeConn_live ended live).2.1
    · intro i
      by_contra held
      have before := freeConn_fewer.1 i (eq_true_of_ne_false held)
      rw [(good.cold down).2 i] at before
      exact nomatch before
  distinct k l first second equal := by
    have ⟨_, before, same⟩ := freeConn_live ended first
    have ⟨_, before', same'⟩ := freeConn_live ended second
    rw [same, same'] at equal
    exact good.distinct k l before before' equal
  marked k live := by
    have ⟨apart, before, same⟩ := freeConn_live ended live
    obtain ⟨i, inside, port, bound⟩ := good.marked k before
    refine ⟨i, inside, ?_, ?_⟩
    · rw [same, freeConn_base]
      exact port
    · intro plain
      rw [freeConn_driver] at plain
      rw [freeConn_bound]
      · exact bound plain
      · rw [← port]
        exact (own k apart before).symm
  agreed port := by
    have agreed := good.agreed
    rw [freeConn_base, freeConn_emptied]
    have carried := release_agreed (n := emptied n h c) (n.conn h).lport unbinds (by
      rw [emptied_base, (emptied_bound n h c).1, (emptied_bound n h c).2]
      exact agreed) port
    rw [emptied_base] at carried
    exact carried

theorem freeConn_owned (bare : ∀ k, k ≠ h → ¬ n.Live k → n.buffers k = noBuffers)
    (pool : Pool n.heap n.fresh n.buffers) : Owned (n.freeConn h c unbinds) where
  bare k dead := by
    rw [freeConn_buffers]
    by_cases here : k = h
    · exact if_pos here
    · rw [if_neg here]
      apply bare k here
      intro live
      apply dead
      rw [Net.Live, freeConn_others here]
      exact live
  pool := {
    owned := by
      intro block
      rw [freeConn_heap, pool.owned block]
      constructor
      · rintro ⟨⟨k, points⟩, apart⟩
        refine ⟨k, ?_⟩
        rw [freeConn_buffers, if_neg]
        · exact points
        · intro here
          exact apart (here ▸ points)
      · rintro ⟨k, points⟩
        rw [freeConn_buffers] at points
        by_cases here : k = h
        · rw [if_pos here] at points
          exact absurd points (noBuffers_point block)
        · rw [if_neg here] at points
          exact ⟨⟨k, points⟩, fun others => here (pool.single k h block points others)⟩
    single := by
      intro k l block first second
      rw [freeConn_buffers] at first second
      split at first
      · exact absurd first (noBuffers_point block)
      · split at second
        · exact absurd second (noBuffers_point block)
        · exact pool.single k l block first second
    older := by
      intro block held
      rw [freeConn_heap] at held
      rw [freeConn_fresh]
      exact pool.older block held.1 }

/-- With its port given back nothing more is bound than the others need. -/
theorem freeConn_exact (nearly : n.driver = false → ∀ i < portCount, n.boundPorts i = true →
      (∃ k, k ≠ h ∧ n.Live k ∧ (n.conn k).lport = n.base.port i) ∨ (n.conn h).lport = n.base.port i) :
    Exact (n.freeConn h c true) := by
  intro plain i inside bound
  rw [freeConn_driver] at plain
  have before := freeConn_fewer.1 i bound
  rw [freeConn_base]
  by_cases own : (n.conn h).lport = n.base.port i
  · have clear := release_clears (n := emptied n h c) (by rw [emptied_driver]; exact plain) inside
    rw [emptied_base, ← own, ← freeConn_emptied] at clear
    rw [clear] at bound
    exact nomatch bound
  · rcases nearly plain i inside before with ⟨k, apart, live, port⟩ | its
    · refine ⟨k, ?_, ?_⟩
      · rw [Net.Live, freeConn_others apart]
        exact live
      · rw [freeConn_others apart]
        exact port
    · exact absurd its own

end Ending

/-! ## Calls on one connection -/

section Putting
variable {n : Net} {h : Fin maxConns} {c : Tcp} {unbinds : Bool}

theorem own_port (good : Accounted n) (live : n.Live h) (k : Fin maxConns) (apart : k ≠ h)
    (live' : n.Live k) :
    (n.conn k).lport ≠ (n.conn h).lport :=
  fun equal => apart (good.distinct k h live' live equal)

theorem put_sound (good : Sound n) (live : n.Live h) (keeps : Keeps (n.conn h) c) :
    Sound (n.put h c unbinds) := by
  unfold Net.put
  split
  · rename_i ended
    exact ⟨freeConn_accounted good.accounted ended (own_port good.accounted live),
      freeConn_owned (fun k _ => good.owned.bare k) good.owned.pool⟩
  · rename_i stays
    exact ⟨set_accounted good.accounted keeps, set_owned good.owned fun _ => stays⟩

theorem put_exact (exact_ : Exact n) (keeps : Keeps (n.conn h) c) :
    Exact (n.put h c true) := by
  unfold Net.put
  split
  · apply freeConn_exact
    intro plain i inside bound
    obtain ⟨k, live, port⟩ := exact_ plain i inside bound
    by_cases here : k = h
    · exact .inr (here ▸ port)
    · exact .inl ⟨k, here, live, port⟩
  · rename_i stays
    exact set_exact exact_ keeps fun _ => stays

end Putting
end R2Apps.WebTcpPortRuns
