import PowerLift.Code.Place

/-!
The locals of a function. Asking for a register that may live in a local makes it one.
-/

namespace PowerLift

/-- The kinds of registers that may live in locals. -/
inductive RegisterClass where
  | gpr | fpr | vr | cr | ctr | xer | reserved
deriving DecidableEq

namespace RegisterClass

def all : List RegisterClass :=
  [gpr, fpr, vr, cr, ctr, xer, reserved]

end RegisterClass

namespace Register

def class? : Register → Option RegisterClass
  | gpr _ => some .gpr
  | fpr _ => some .fpr
  | vr _ => some .vr
  | cr _ => some .cr
  | ctr => some .ctr
  | xer => some .xer
  | reserved => some .reserved
  | _ => none

end Register

structure Allocation where
  policy : LocalPolicy
  /-- The registers asked for that live in locals. -/
  locals : List Register := []
deriving DecidableEq

namespace Allocation

/-- Asks for a register. -/
def request (allocation : Allocation) (register : Register) : Allocation :=
  if allocation.policy.isLocal register && !allocation.locals.contains register then
    { allocation with locals := allocation.locals ++ [register] }
  else allocation

def requestAll (allocation : Allocation) (registers : List Register) : Allocation :=
  registers.foldl request allocation

/-- The name of a register in the code. -/
def place (allocation : Allocation) (register : Register) : String :=
  allocation.policy.place register

/-- Whether a local of a class was asked for. -/
def usesLocals (allocation : Allocation) (kind : RegisterClass) : Bool :=
  allocation.locals.any (·.class? == some kind)

/-- The locals by class and number. -/
def declared (allocation : Allocation) : List Register :=
  Register.promotable.filter allocation.locals.contains

def declarations (allocation : Allocation) : List String :=
  allocation.declared.map Register.declaration

end Allocation

end PowerLift
