/-!
# Association lists

Values under keys, in the order in which the keys came. `put` sets the value of a key: a key that
is there keeps its place, and a new one comes last. It changes the value of no other key.
-/

namespace DeskCalc

variable {α β : Type}

/-- The list with the value of a key set. -/
def put [DecidableEq α] (key : α) (value : β) : List (α × β) → List (α × β)
  | [] => [(key, value)]
  | (k, old) :: rest => if k = key then (k, value) :: rest else (k, old) :: put key value rest

/-- The key has the value it was given. -/
theorem lookup_put_self [DecidableEq α] (key : α) (value : β) (l : List (α × β)) :
    (put key value l).lookup key = some value := by
  induction l with
  | nil => simp [put]
  | cons entry rest ih =>
    obtain ⟨k, old⟩ := entry
    by_cases h : k = key
    · subst h; simp [put]
    · have : (key == k) = false := beq_false_of_ne (Ne.symm h)
      simp [put, h, List.lookup_cons, this, ih]

/-- Every other key keeps what it had. -/
theorem lookup_put_of_ne [DecidableEq α] {key other : α} (value : β) (l : List (α × β))
    (h : other ≠ key) : (put key value l).lookup other = l.lookup other := by
  induction l with
  | nil => simp [put, List.lookup_cons, beq_false_of_ne h]
  | cons entry rest ih =>
    obtain ⟨k, old⟩ := entry
    by_cases hk : k = key
    · subst hk; simp [put, List.lookup_cons, beq_false_of_ne h]
    · simp only [put, if_neg hk, List.lookup_cons, ih]

end DeskCalc
