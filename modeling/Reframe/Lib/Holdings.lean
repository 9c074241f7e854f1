import Mathlib.Tactic

/-! What the members of a list hold of a stock, and how that changes with one member. -/
namespace Holdings

variable {α : Type*}

/-- What the members hold together. -/
def held (amount : α → ℕ) (members : List α) : ℕ := (members.map amount).sum

section

variable {amount : α → ℕ} {members : List α} {i : ℕ} {a : α}

@[simp] theorem held_nil : held amount [] = 0 := rfl

@[simp] theorem held_cons : held amount (a :: members) = amount a + held amount members := by
  rw [held, List.map_cons, List.sum_cons, held]

@[simp] theorem held_append (members members' : List α) :
    held amount (members ++ members') = held amount members + held amount members' := by
  rw [held, List.map_append, List.sum_append, held, held]

theorem held_set (amount : α → ℕ) (b : α) (h : members[i]? = some a) :
    held amount (members.set i b) + amount a = held amount members + amount b := by
  induction members generalizing i with
  | nil => cases h
  | cons c members ih =>
    cases i with
    | zero =>
      cases h
      rw [List.set_cons_zero, held_cons, held_cons]
      omega
    | succ i =>
      rw [List.getElem?_cons_succ] at h
      have hrest := ih h
      rw [List.set_cons_succ, held_cons, held_cons]
      omega

theorem held_eraseIdx (amount : α → ℕ) (h : members[i]? = some a) :
    held amount (members.eraseIdx i) + amount a = held amount members := by
  induction members generalizing i with
  | nil => cases h
  | cons c members ih =>
    cases i with
    | zero =>
      cases h
      rw [List.eraseIdx_zero, List.tail_cons, held_cons, Nat.add_comm]
    | succ i =>
      rw [List.getElem?_cons_succ] at h
      have hrest := ih h
      rw [List.eraseIdx_cons_succ, held_cons, held_cons]
      omega

theorem held_mul (factor : ℕ) :
    held (fun a => factor * amount a) members = factor * held amount members :=
  List.sum_map_mul_left _ _ _

theorem le_held (h : a ∈ members) : amount a ≤ held amount members :=
  List.single_le_sum (fun _ _ => Nat.zero_le _) _ (List.mem_map_of_mem h)

end

end Holdings
