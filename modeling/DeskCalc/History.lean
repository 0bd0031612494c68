/-!
# Undo and redo

A timeline of values with a present. A change puts the present into the past, which keeps only
the latest `limit` values, and forgets the future; changing to the same value records nothing but
still forgets the future. Undo and redo move the present along the timeline.
-/

namespace DeskCalc

/-- A present value with what undo and redo can restore. -/
structure History (α : Type) where
  /-- What undo restores, latest first. -/
  past : List α
  present : α
  /-- What redo restores, next first. -/
  future : List α
  deriving DecidableEq, Repr

namespace History

variable {α : Type}

/-- The timeline that starts with a value. -/
def start (x : α) : History α := ⟨[], x, []⟩

/-- The past after the present has joined it, cut to the latest `limit` values. -/
def recorded (limit : Nat) (h : History α) : List α := (h.present :: h.past).take limit

/-- Makes a value the present. -/
def change [DecidableEq α] (limit : Nat) (x : α) (h : History α) : History α :=
  if x = h.present then { h with future := [] } else ⟨h.recorded limit, x, []⟩

/-- Goes back to the latest value of the past, if there is one. -/
def undo (h : History α) : History α :=
  match h.past with
  | [] => h
  | x :: earlier => ⟨earlier, x, h.present :: h.future⟩

/-- Goes forward to the next value of the future, if there is one. -/
def redo (limit : Nat) (h : History α) : History α :=
  match h.future with
  | [] => h
  | x :: later => ⟨h.recorded limit, x, later⟩

end History

end DeskCalc
