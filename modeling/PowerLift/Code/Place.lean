import PowerLift.Code.Policy

/-!
Where a register of the guest lives in the emitted code: in a slot of the context, or in a local of
the function that was loaded from that slot.
-/

namespace PowerLift

namespace Register

/-- The slot of the context. -/
def contextName : Register → String
  | gpr number => s!"ctx.r[{number}]"
  | fpr number => s!"ctx.f[{number}]"
  | vr number => s!"ctx.v[{number}]"
  | cr field => s!"ctx.cr[{field}]"
  | ctr => "ctx.ctr"
  | xer => "ctx.xer"
  | reserved => "ctx.reserved"
  | lr => "ctx.lr"
  | msr => "ctx.msr"
  | fpscr => "ctx.fpscr"
  | vscr => "ctx.vscr"
  | vrsave => "ctx.vrsave"

/-- The local, for registers that may have one. -/
def localName : Register → String
  | gpr number => s!"r{number}"
  | fpr number => s!"f{number}"
  | vr number => s!"v{number}"
  | cr field => s!"cr{field}"
  | ctr => "ctr"
  | xer => "xer"
  | reserved => "reserved"
  | lr => "lr"
  | msr => "msr"
  | fpscr => "fpscr"
  | vscr => "vscr"
  | vrsave => "vrsave"

/-- The type of the local. -/
def typeName : Register → String
  | fpr _ => "f64"
  | vr _ => "Vector128"
  | cr _ => "CrField"
  | xer => "Xer"
  | _ => "u64"

/-- The line that declares the local. -/
def declaration (register : Register) : String :=
  s!"let mut {register.localName}: {register.typeName} = {register.contextName};"

/-- All registers that may live in locals, in the order in which they are declared. -/
def promotable : List Register :=
  (List.range 32).map .gpr ++ (List.range 32).map .fpr ++ (List.range 128).map .vr ++
    (List.range 8).map .cr ++ [.ctr, .xer, .reserved]

end Register

namespace LocalPolicy

/-- The name of a register in the code. -/
def place (policy : LocalPolicy) (register : Register) : String :=
  if policy.isLocal register then register.localName else register.contextName

end LocalPolicy

end PowerLift
