/-!
The registers of the guest machine that code reads and writes.
-/

namespace PowerLift

inductive Register where
  | gpr (number : Nat)
  | fpr (number : Nat)
  | vr (number : Nat)
  | cr (field : Nat)
  | ctr
  | xer
  | reserved
  | lr
  | msr
  | fpscr
  | vscr
  | vrsave
deriving DecidableEq

/-- The bits of a condition field. -/
inductive ConditionBit where
  | lt | gt | eq | so
deriving DecidableEq

/-- The name of a condition bit, counted over all fields. -/
def conditionBit (index : Nat) : ConditionBit :=
  match index % 4 with
  | 0 => .lt
  | 1 => .gt
  | 2 => .eq
  | _ => .so

def ConditionBit.name : ConditionBit → String
  | .lt => "lt"
  | .gt => "gt"
  | .eq => "eq"
  | .so => "so"

end PowerLift
