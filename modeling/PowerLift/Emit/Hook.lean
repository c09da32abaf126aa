import PowerLift.Config.Address
import PowerLift.Lift.Basic

/-!
Configured hooks as calls in the emitted code.
-/

namespace PowerLift.Flow

/-- The registers that a hook captures. Names that are no registers are left out, and the others
keep their numbers. -/
def captures (hook : Hook) : List (Nat × Register) :=
  hook.registers.zipIdx.filterMap fun (name, number) =>
    (parseRegister name).map fun register => (number, register)

/-- How control goes on after a hook, always or for one result of it. -/
def hookExits (flow : Flow) (hook : Hook) : List (Option Bool × Exit) :=
  (if hook.returns then [(none, .ret)] else []) ++
    hook.jump.toList.map (fun target => (none, flow.exitTo target)) ++
    (if hook.returnsOnTrue then [(some true, .ret)] else []) ++
    (if hook.returnsOnFalse then [(some false, .ret)] else []) ++
    hook.jumpOnTrue.toList.map (fun target => (some true, flow.exitTo target)) ++
    hook.jumpOnFalse.toList.map (fun target => (some false, flow.exitTo target))

def hookCall (flow : Flow) (hook : Hook) : HookCall :=
  { name := hook.name
    captures := captures hook
    conditional := hook.isConditional
    exits := flow.hookExits hook }

end PowerLift.Flow
