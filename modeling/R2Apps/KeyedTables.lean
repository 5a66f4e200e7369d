import Mathlib.Data.List.Perm.Subperm

/-! Tables that are searched from their first entry: what is found is renewed where it stands, and what is
not is added at the end. The other entries stay as they are, in their order. -/
namespace R2Apps.KeyedTables
variable {α β : Type} {is : α → Bool} {f : α → α} {fresh : α} {l : List α}

def renew (is : α → Bool) (f : α → α) (fresh : α) : List α → List α
  | [] => [fresh]
  | x :: rest => if is x then f x :: rest else x :: renew is f fresh rest

theorem renew_nil : renew is f fresh [] = [fresh] := rfl

theorem renew_cons (x : α) (rest : List α) :
    renew is f fresh (x :: rest) = if is x then f x :: rest else x :: renew is f fresh rest := rfl

theorem renew_found (f : α → α) (fresh : α) {i : Nat} (found : l.findIdx? is = some i) :
    renew is f fresh l = l.modify i f := by
  induction l generalizing i with
  | nil => cases found
  | cons x rest ih =>
      rw [List.findIdx?_cons] at found
      by_cases here : is x = true
      · rw [if_pos here] at found
        cases found
        rw [renew_cons, if_pos here, List.modify_zero_cons]
      · rw [if_neg here] at found
        obtain ⟨j, later, rfl⟩ := Option.map_eq_some_iff.mp found
        rw [renew_cons, if_neg here, ih later, List.modify_succ_cons]

theorem renew_fresh (f : α → α) (fresh : α) (none_ : l.findIdx? is = none) :
    renew is f fresh l = l ++ [fresh] := by
  induction l with
  | nil => rfl
  | cons x rest ih =>
      rw [List.findIdx?_cons] at none_
      by_cases here : is x = true
      · rw [if_pos here] at none_
        cases none_
      · rw [if_neg here, Option.map_eq_none_iff] at none_
        rw [renew_cons, if_neg here, ih none_, List.cons_append]

theorem renew_others (kept : ∀ x, is x = true → is (f x) = true) (own : is fresh = true) :
    (renew is f fresh l).filter (fun x => !is x) = l.filter fun x => !is x := by
  induction l with
  | nil => simp [renew_nil, own]
  | cons x rest ih =>
      by_cases here : is x = true
      · simp [renew_cons, here, kept x here]
      · simp [renew_cons, here, ih]

theorem renew_here (kept : ∀ x, is x = true → is (f x) = true) (own : is fresh = true)
    (once : (l.filter is).length ≤ 1) :
    (renew is f fresh l).filter is = [((l.find? is).map f).getD fresh] := by
  induction l with
  | nil => simp [renew_nil, own]
  | cons x rest ih =>
      by_cases here : is x = true
      · rw [List.filter_cons_of_pos here, List.length_cons] at once
        have none_ : rest.filter is = [] := List.length_eq_zero_iff.mp (by omega)
        simp [renew_cons, here, kept x here, none_]
      · rw [List.filter_cons_of_neg here] at once
        simp [renew_cons, here, ih once]

theorem renew_renew (g : α → α) (other : α) (kept : ∀ x, is x = true → is (f x) = true)
    (own : is fresh = true) :
    renew is g other (renew is f fresh l) = renew is (g ∘ f) (g fresh) l := by
  induction l with
  | nil => simp [renew_nil, renew_cons, own]
  | cons x rest ih =>
      by_cases here : is x = true
      · simp [renew_cons, here, kept x here]
      · simp [renew_cons, here, ih]

theorem find?_renew_self (kept : ∀ x, is x = true → is (f x) = true) (own : is fresh = true) :
    (renew is f fresh l).find? is = some (((l.find? is).map f).getD fresh) := by
  induction l with
  | nil => simp [renew_nil, own]
  | cons x rest ih =>
      by_cases here : is x = true
      · simp [renew_cons, here, kept x here]
      · simp [renew_cons, here, ih]

theorem renew_some (kept : ∀ x, is x = true → is (f x) = true) (own : is fresh = true) :
    ∃ i, (renew is f fresh l).findIdx? is = some i := by
  have any_ : ((renew is f fresh l).findIdx? is).isSome = true := by
    rw [List.findIdx?_isSome, List.any_eq_true]
    exact ⟨_, List.mem_of_find?_eq_some (find?_renew_self kept own),
      List.find?_some (find?_renew_self kept own)⟩
  exact Option.isSome_iff_exists.mp any_

theorem find?_renew_other {p : α → Bool} (other : ∀ x, is x = true → p x = false ∧ p (f x) = false)
    (own : p fresh = false) : (renew is f fresh l).find? p = l.find? p := by
  induction l with
  | nil => simp [renew_nil, own]
  | cons x rest ih =>
      by_cases here : is x = true
      · obtain ⟨before, after⟩ := other x here
        simp [renew_cons, here, before, after]
      · cases hit : p x <;> simp [renew_cons, here, hit, ih]

/-! ## Keys -/

variable {key : α → β} {r : β → β → Prop}

theorem map_modify (same : ∀ x, key (f x) = key x) (i : Nat) (l : List α) :
    (l.modify i f).map key = l.map key := by
  induction l generalizing i with
  | nil => simp
  | cons x rest ih =>
      cases i with
      | zero => simp [same]
      | succ i => simp [ih]

/-- Entries stay apart when what is added is apart from all that are there. -/
theorem pairwise_add {y : α} (apart : (l.map key).Pairwise r) (new : ∀ x ∈ l, r (key x) (key y)) :
    ((l ++ [y]).map key).Pairwise r := by
  rw [List.map_append, List.pairwise_append]
  refine ⟨apart, List.pairwise_singleton _ _, ?_⟩
  intro k member k' last
  obtain ⟨x, there, rfl⟩ := List.mem_map.mp member
  obtain rfl := List.mem_singleton.mp last
  exact new x there

theorem pairwise_set {y : α} (symm_ : ∀ {k k'}, r k k' → r k' k) (i : Nat) (apart : (l.map key).Pairwise r)
    (new : ∀ x ∈ l, r (key x) (key y)) : ((l.set i y).map key).Pairwise r := by
  induction l generalizing i with
  | nil => exact apart
  | cons x rest ih =>
      rw [List.map_cons, List.pairwise_cons] at apart
      rw [List.forall_mem_cons] at new
      cases i with
      | zero =>
          rw [List.set_cons_zero, List.map_cons, List.pairwise_cons]
          refine ⟨?_, apart.2⟩
          intro k member
          obtain ⟨z, there, rfl⟩ := List.mem_map.mp member
          exact symm_ (new.2 z there)
      | succ i =>
          rw [List.set_cons_succ, List.map_cons, List.pairwise_cons]
          refine ⟨?_, ih i apart.2 new.2⟩
          intro k member
          obtain ⟨z, there, rfl⟩ := List.mem_map.mp member
          rcases List.mem_or_eq_of_mem_set there with old | rfl
          · exact apart.1 _ (List.mem_map_of_mem old)
          · exact new.1

theorem filter_once (apart : (l.map key).Pairwise r)
    (alike : ∀ x y, is x = true → is y = true → ¬r (key x) (key y)) :
    (l.filter is).length ≤ 1 := by
  induction l with
  | nil => exact Nat.zero_le 1
  | cons x rest ih =>
      rw [List.map_cons, List.pairwise_cons] at apart
      by_cases here : is x = true
      · have none_ : rest.filter is = [] := by
          rw [List.filter_eq_nil_iff]
          intro y there hit
          exact alike x y here hit (apart.1 _ (List.mem_map_of_mem there))
        simp [here, none_]
      · rw [List.filter_cons_of_neg here]
        exact ih apart.2

theorem fill_perm (before rest : List α) (x d : α) : ∃ moved : List α,
    ((before ++ x :: rest).set before.length ((before ++ x :: rest).getLastD d)).dropLast = before ++ moved ∧
      moved.Perm rest := by
  rcases List.eq_nil_or_concat' rest with rfl | ⟨middle, last, rfl⟩
  · refine ⟨[], ?_, List.Perm.refl _⟩
    rw [List.set_append_right _ _ (Nat.le_refl _), Nat.sub_self, List.set_cons_zero,
      List.dropLast_concat, List.append_nil]
  · refine ⟨last :: middle, ?_, (List.perm_append_singleton last middle).symm⟩
    have ends : (before ++ x :: (middle ++ [last])).getLastD d = last := by
      rw [← List.cons_append, ← List.append_assoc, List.getLastD_concat]
    rw [ends, List.set_append_right _ _ (Nat.le_refl _), Nat.sub_self, List.set_cons_zero, ← List.cons_append,
      ← List.append_assoc, List.dropLast_concat]

end R2Apps.KeyedTables
