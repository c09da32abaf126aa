import PowerLift.Isa.Register

/-!
Which registers of the guest may live in locals of an emitted function instead of the context.
A register qualifies only if its value is not observed outside the function.
-/

namespace PowerLift

structure LocalPolicy where
  /-- Registers that carry neither arguments nor values across calls. -/
  nonArgument : Bool := false
  /-- Registers that every callee restores. -/
  nonVolatile : Bool := false
  cr : Bool := false
  ctr : Bool := false
  xer : Bool := false
  reserved : Bool := false
deriving DecidableEq, Inhabited

namespace LocalPolicy

/-- Everything stays in the context. -/
def contextOnly : LocalPolicy := {}

/-- Whether a register lives in a local. -/
def isLocal (policy : LocalPolicy) : Register → Bool
  | .gpr number =>
    if number ∈ [0, 2, 11, 12] then policy.nonArgument
    else 14 ≤ number && number ≤ 31 && policy.nonVolatile
  | .fpr number =>
    if number == 0 then policy.nonArgument
    else 14 ≤ number && number ≤ 31 && policy.nonVolatile
  | .vr number =>
    if 32 ≤ number && number ≤ 63 then policy.nonArgument
    else ((14 ≤ number && number ≤ 31) || (64 ≤ number && number ≤ 127)) && policy.nonVolatile
  | .cr _ => policy.cr
  | .ctr => policy.ctr
  | .xer => policy.xer
  | .reserved => policy.reserved
  | _ => false

end LocalPolicy

end PowerLift
