import AcMuduo.Machine

namespace AcMuduo

/-- The ways in which executing a statement ends the program or is undefined. -/
inductive Fault where
  | assertFailed
  | nullDereference
  | outOfBounds
  | useAfterFree
  | doubleFree
  | fatalLog
  | stackOverflow
  deriving DecidableEq, Repr

def assert (b : Bool) : Except (Machine.Stop Fault) Unit :=
  if b then .ok () else .error (.fault .assertFailed)

@[simp] theorem assert_eq_ok {b : Bool} {u : Unit} : assert b = .ok u ↔ b = true := by
  cases b <;> simp [assert]

@[simp] theorem assert_true : assert true = .ok () := rfl

end AcMuduo
