import Mathlib.Data.List.Basic

namespace AcMuduo.BoundedFifo

inductive Op (T : Type) where
  | put (x : T)
  | take (x : T)

def Op.puts {T : Type} : Op T → Option T
  | put x => some x
  | take _ => none

def Op.takes {T : Type} : Op T → Option T
  | put _ => none
  | take x => some x

/-- The elements held after some operations on an empty queue, none of which is full when an element
is put. -/
inductive Holds {T : Type} (max : Nat) : List (Op T) → List T → Prop where
  | nothing : Holds max [] []
  | put {ops q} (x : T) (h : Holds max ops q) (hroom : q.length < max) :
    Holds max (ops ++ [.put x]) (q ++ [x])
  | take {ops x q} (h : Holds max ops (x :: q)) : Holds max (ops ++ [.take x]) q

variable {T : Type} {max : Nat} {ops : List (Op T)} {q : List T}

theorem Holds.conserves (h : Holds max ops q) :
    ops.filterMap Op.takes ++ q = ops.filterMap Op.puts := by
  induction h with
  | nothing => rfl
  | put x _ _ ih =>
    rw [List.filterMap_append, List.filterMap_append, ← ih, ← List.append_assoc]
    simp [Op.takes, Op.puts]
  | take _ ih =>
    rw [List.filterMap_append, List.filterMap_append, ← ih]
    simp [Op.takes, Op.puts]

theorem Holds.length_le (h : Holds max ops q) : q.length ≤ max := by
  induction h with
  | nothing => exact Nat.zero_le _
  | put x _ hroom _ =>
    rw [List.length_append]
    exact hroom
  | take _ ih => exact Nat.le_of_succ_le ih

end AcMuduo.BoundedFifo
