import Mathlib.Data.List.Basic

/-! Doubly linked lists as a pair of link maps. `Linked` says that a walk along
`next` from `head` meets exactly `nodes` before it reaches `null`, and that
`prev` leads back at every node; `before` is what `prev` of the first node has
to be. The link maps may come from anywhere, a memory for one. -/
namespace R2Apps.DoublyLinked

universe u
variable {Node : Type u}

def Linked (next prev : Node → Node) (null : Node) : Node → Node → List Node → Prop
  | _, head, [] => head = null
  | before, head, node :: rest =>
      head = node ∧ prev node = before ∧ Linked next prev null node (next node) rest

variable {next prev next' prev' : Node → Node} {null : Node}

theorem linked_congr {before head : Node} {nodes : List Node}
    (linked : Linked next prev null before head nodes)
    (sameNext : ∀ node ∈ nodes, next' node = next node)
    (samePrev : ∀ node ∈ nodes, prev' node = prev node) :
    Linked next' prev' null before head nodes := by
  induction nodes generalizing before head with
  | nil => exact linked
  | cons node rest ih =>
      obtain ⟨first, back, tail⟩ := linked
      refine ⟨first, (samePrev node (by simp)).trans back, ?_⟩
      rw [sameNext node (by simp)]
      exact ih tail (fun y member => sameNext y (List.mem_cons_of_mem node member))
        (fun y member => samePrev y (List.mem_cons_of_mem node member))

theorem linked_prev {before head node : Node} {front back : List Node}
    (linked : Linked next prev null before head (front ++ node :: back)) :
    prev node = front.getLastD before := by
  induction front generalizing before head with
  | nil => exact linked.2.1
  | cons first rest ih =>
      rw [List.getLastD_cons]
      exact ih linked.2.2

theorem linked_next {before head node : Node} {front back : List Node}
    (linked : Linked next prev null before head (front ++ node :: back)) :
    next node = back.headD null := by
  induction front generalizing before head with
  | nil =>
      cases back with
      | nil => exact linked.2.2
      | cons second rest => exact linked.2.2.1
  | cons first rest ih => exact ih linked.2.2

theorem linked_insert [DecidableEq Node] {head node : Node} {nodes : List Node}
    (linked : Linked next prev null null head nodes) (unique : nodes.Nodup)
    (sameNext : ∀ y ∈ nodes, next' y = next y)
    (movedPrev : ∀ y ∈ nodes, prev' y = if y = head then node else prev y)
    (nextNode : next' node = head) (prevNode : prev' node = null) :
    Linked next' prev' null null node (node :: nodes) := by
  refine ⟨rfl, prevNode, ?_⟩
  rw [nextNode]
  cases nodes with
  | nil => exact linked
  | cons first rest =>
      obtain ⟨same, _, tail⟩ := linked
      subst same
      have fresh := (List.nodup_cons.mp unique).1
      refine ⟨rfl, by simpa using movedPrev head (by simp), ?_⟩
      rw [sameNext head (by simp)]
      apply linked_congr tail
      · intro y member
        exact sameNext y (List.mem_cons_of_mem head member)
      · intro y member
        have different : y ≠ head := fun same => fresh (same ▸ member)
        simpa [different] using movedPrev y (List.mem_cons_of_mem head member)

theorem linked_remove [DecidableEq Node] {before head node : Node} {front back : List Node}
    (linked : Linked next prev null before head (front ++ node :: back))
    (unique : (front ++ node :: back).Nodup) (outside : before ∉ front ++ node :: back)
    (real : null ∉ front ++ node :: back)
    (movedNext : ∀ y ∈ front ++ back, next' y = if y = prev node then next node else next y)
    (movedPrev : ∀ y ∈ front ++ back, prev' y = if y = next node then prev node else prev y) :
    Linked next' prev' null before (if front = [] then next node else head) (front ++ back) := by
  induction front generalizing before head with
  | nil =>
      obtain ⟨_, backward, tail⟩ := linked
      simp only [List.nil_append, ↓reduceIte] at *
      have nodeFresh := (List.nodup_cons.mp unique).1
      have kept : ∀ y ∈ back, next' y = next y := by
        intro y member
        have different : y ≠ prev node := by
          rintro rfl
          exact outside (backward ▸ List.mem_cons_of_mem node member)
        simpa [different] using movedNext y member
      cases back with
      | nil => exact tail
      | cons second rest =>
          obtain ⟨same, _, tail⟩ := tail
          have secondFresh := (List.nodup_cons.mp (List.nodup_cons.mp unique).2).1
          refine ⟨same, ?_, ?_⟩
          · have moved := movedPrev second (by simp)
            rw [if_pos same.symm] at moved
            exact moved.trans backward
          · rw [kept second (by simp)]
            apply linked_congr tail
            · intro y member
              exact kept y (List.mem_cons_of_mem second member)
            · intro y member
              have different : y ≠ next node := by
                rw [same]
                rintro rfl
                exact secondFresh member
              simpa [different] using movedPrev y (List.mem_cons_of_mem second member)
  | cons first rest ih =>
      obtain ⟨same, backward, tail⟩ := linked
      have firstFresh : first ∉ rest ++ node :: back := (List.nodup_cons.mp unique).1
      have tailUnique := (List.nodup_cons.mp unique).2
      have tailMember : ∀ y ∈ rest ++ back, y ∈ first :: rest ++ back := fun y member =>
        List.mem_cons_of_mem first member
      have tailReal : null ∉ rest ++ node :: back := fun member =>
        real (List.mem_cons_of_mem first member)
      have recursive := ih tail tailUnique firstFresh tailReal
        (fun y member => movedNext y (tailMember y member))
        (fun y member => movedPrev y (tailMember y member))
      have behind := linked_prev tail
      refine ⟨by simpa using same, ?_, ?_⟩
      · have different : first ≠ next node := by
          rw [linked_next tail]
          rintro rfl
          cases back with
          | nil => exact real (by simp)
          | cons second others => exact firstFresh (by simp)
        simpa [different, backward] using movedPrev first (by simp)
      · have moved := movedNext first (by simp)
        cases rest with
        | nil =>
            simp only [List.getLastD_nil] at behind
            simp only [behind, ↓reduceIte] at moved
            rw [moved]
            simpa using recursive
        | cons second others =>
            have different : first ≠ prev node := by
              have inside : prev node ∈ second :: others := by
                rw [behind, List.getLastD_cons, ← List.getLast_eq_getLastD]
                exact List.getLast_mem (List.cons_ne_nil second others)
              intro equal
              exact firstFresh (equal ▸ List.mem_append_left (node :: back) inside)
            simp only [different, ↓reduceIte] at moved
            rw [moved]
            simpa using recursive

end R2Apps.DoublyLinked
