import Mathlib.Data.List.Perm.Subperm

/-! Singly linked chains in a successor map. `Chain next good stop start nodes` says
that a walk along `next` from `start` meets exactly `nodes`, all of them good, and is
then at `stop`. -/
namespace R2Apps.ForwardChains

universe u
variable {Node : Type u}

def Chain (next : Node → Node) (good : Node → Prop) (stop : Node) : Node → List Node → Prop
  | start, [] => start = stop
  | start, node :: rest => start = node ∧ good node ∧ Chain next good stop (next node) rest

variable {next next' : Node → Node} {good : Node → Prop} {stop start middle node : Node}
  {nodes front back : List Node}

theorem chain_congr (chain : Chain next good stop start nodes)
    (same : ∀ node ∈ nodes, next' node = next node) : Chain next' good stop start nodes := by
  induction nodes generalizing start with
  | nil => exact chain
  | cons node rest ih =>
      obtain ⟨first, fine, tail⟩ := chain
      refine ⟨first, fine, ?_⟩
      rw [same node List.mem_cons_self]
      exact ih tail fun y member => same y (List.mem_cons_of_mem node member)

theorem chain_good (chain : Chain next good stop start nodes) : ∀ node ∈ nodes, good node := by
  induction nodes generalizing start with
  | nil => exact fun _ member => absurd member List.not_mem_nil
  | cons node rest ih =>
      obtain ⟨_, fine, tail⟩ := chain
      intro y member
      rcases List.mem_cons.mp member with rfl | later
      · exact fine
      · exact ih tail y later

theorem chain_append :
    Chain next good stop start (front ++ back) ↔
      ∃ middle, Chain next good middle start front ∧ Chain next good stop middle back := by
  induction front generalizing start with
  | nil =>
      constructor
      · exact fun chain => ⟨start, rfl, chain⟩
      · rintro ⟨middle, rfl, chain⟩
        exact chain
  | cons node rest ih =>
      constructor
      · rintro ⟨first, fine, tail⟩
        obtain ⟨middle, before, after⟩ := ih.mp tail
        exact ⟨middle, ⟨first, fine, before⟩, after⟩
      · rintro ⟨middle, ⟨first, fine, before⟩, after⟩
        exact ⟨first, fine, ih.mpr ⟨middle, before, after⟩⟩

theorem chain_split (chain : Chain next good stop start (front ++ node :: back)) :
    Chain next good node start front ∧ Chain next good stop node (node :: back) := by
  obtain ⟨middle, before, rfl, after⟩ := chain_append.mp chain
  exact ⟨before, rfl, after⟩

theorem chain_unique (outside : ¬ good stop) {nodes' : List Node}
    (chain : Chain next good stop start nodes) (chain' : Chain next good stop start nodes') :
    nodes = nodes' := by
  induction nodes generalizing start nodes' with
  | nil =>
      cases nodes' with
      | nil => rfl
      | cons node rest =>
          obtain ⟨rfl, fine, _⟩ := chain'
          exact absurd (chain ▸ fine) outside
  | cons node rest ih =>
      obtain ⟨rfl, fine, tail⟩ := chain
      cases nodes' with
      | nil => exact absurd (chain' ▸ fine) outside
      | cons node' rest' =>
          obtain ⟨rfl, _, tail'⟩ := chain'
          rw [ih tail tail']

theorem chain_nodup (outside : ¬ good stop) (chain : Chain next good stop start nodes) :
    nodes.Nodup := by
  induction nodes generalizing start with
  | nil => exact List.nodup_nil
  | cons node rest ih =>
      obtain ⟨first, fine, tail⟩ := chain
      refine List.nodup_cons.mpr ⟨?_, ih tail⟩
      intro again
      obtain ⟨before, after, rfl⟩ := List.append_of_mem again
      -- from `node` on there would be two walks of different lengths
      have short := (chain_split tail).2
      have long : Chain next good stop node (node :: (before ++ node :: after)) := ⟨rfl, fine, tail⟩
      have lengths := congrArg List.length (chain_unique outside long short)
      simp only [List.length_cons, List.length_append] at lengths
      omega

theorem chain_length {pool : List Node} (outside : ¬ good stop)
    (chain : Chain next good stop start nodes) (all : ∀ node, good node → node ∈ pool) :
    nodes.length ≤ pool.length :=
  (List.subperm_of_subset (chain_nodup outside chain)
    fun node member => all node (chain_good chain node member)).length_le

/-- From each of its nodes a walk goes on to a good one, or it is at its end. -/
theorem chain_onward (chain : Chain next good stop start nodes) :
    ∀ node ∈ nodes, good (next node) ∨ next node = stop := by
  induction nodes generalizing start with
  | nil => exact fun _ member => absurd member List.not_mem_nil
  | cons node rest ih =>
      obtain ⟨_, _, tail⟩ := chain
      intro y member
      rcases List.mem_cons.mp member with rfl | later
      · cases rest with
        | nil => exact Or.inr tail
        | cons after rest =>
            obtain ⟨first, fine, _⟩ := tail
            exact Or.inl (first ▸ fine)
      · exact ih tail y later

end R2Apps.ForwardChains
