import PowerLift.Code.Expr

/-!
Statements of the emitted code. A function is a loop over labelled arms; control leaves an arm by
going on at another label or by returning.
-/

namespace PowerLift

/-- What changes the state and goes on. -/
inductive Action where
  /-- Names the value of an expression. -/
  | declare (name : String) (type : NumType) (value : Expr)
  | assign (place value : Expr)
  | perform (effect : Expr)
deriving DecidableEq

namespace Action

def line (policy : LocalPolicy) : Action → String
  | declare name type value => s!"let {name}: {type.name} = {value.text policy};"
  | assign place value => s!"{place.text policy} = {value.text policy};"
  | perform effect => s!"{effect.text policy};"

def registers : Action → List Register
  | declare _ _ value => value.registers
  | assign place value => place.registers ++ value.registers
  | perform effect => effect.registers

end Action

/-- How control leaves an arm. -/
inductive Exit where
  /-- On to the arm of that label. -/
  | goto (label : UInt32)
  /-- On to the arm whose label is computed. -/
  | redirect (label : Expr)
  /-- Out of the function by way of another one. -/
  | leave (call : Expr)
  | ret
deriving DecidableEq

namespace Exit

def lines (policy : LocalPolicy) : Exit → List String
  | goto label => [s!"pc = {addressText label};", "continue;"]
  | redirect label => [s!"pc = {label.text policy} as u32;", "continue;"]
  | leave call => [s!"{call.text policy};", "return;"]
  | ret => ["return;"]

def registers : Exit → List Register
  | goto _ | ret => []
  | redirect label => label.registers
  | leave call => call.registers

/-- The lines of an exit on one line. -/
def inlined (policy : LocalPolicy) (exit : Exit) : String :=
  " ".intercalate (exit.lines policy)

end Exit

/-- A call of host code in a scope of its own. Registers are handed over in copies that are written
back. -/
structure HookCall where
  name : String
  /-- The number of each copy, and the register that it holds. -/
  captures : List (Nat × Register)
  /-- Whether the result decides how to go on. -/
  conditional : Bool
  /-- Where to go on, always or for one result. -/
  exits : List (Option Bool × Exit)
deriving DecidableEq

namespace HookCall

def copyName (number : Nat) : String :=
  s!"hook_{number}"

def call (hook : HookCall) : Expr :=
  .invoke (.host hook.name) (hook.captures.map fun capture =>
    .unary .borrowMut (.var (copyName capture.1)))

def exitLines (policy : LocalPolicy) : Option Bool × Exit → List String
  | (none, exit) => exit.lines policy
  | (some true, exit) => ["if taken \x7b " ++ exit.inlined policy ++ " \x7d"]
  | (some false, exit) => ["if !taken \x7b " ++ exit.inlined policy ++ " \x7d"]

/-- The lines inside of the scope. -/
def lines (policy : LocalPolicy) (hook : HookCall) : List String :=
  let call := hook.call.text policy
  hook.captures.map (fun capture =>
      s!"let mut {copyName capture.1} = {policy.place capture.2};") ++
    [if hook.conditional then s!"let taken: bool = {call};" else s!"{call};"] ++
    hook.captures.map (fun capture => s!"{policy.place capture.2} = {copyName capture.1};") ++
    hook.exits.flatMap (exitLines policy)

def registers (hook : HookCall) : List Register :=
  hook.captures.map (·.2) ++ hook.exits.flatMap (·.2.registers)

end HookCall

inductive Stmt where
  | comment (text : String)
  | act (action : Action)
  | transfer (exit : Exit)
  /-- Actions and an exit under a condition. -/
  | guard (condition : Expr) (actions : List Action) (exit : Option Exit)
  /-- One exit for each case of an index, and one for all others. -/
  | switch (condition : Option Expr) (index : Expr) (cases : List Exit) (otherwise : Exit)
  | hook (call : HookCall)
deriving DecidableEq

namespace Stmt

/-- A line deeper by one level. -/
def indented (line : String) : String :=
  "    " ++ line

/-- Lines in braces after a heading. -/
def braced (heading : String) (lines : List String) : List String :=
  [heading ++ "\x7b"] ++ lines.map indented ++ ["\x7d"]

def switchLines (policy : LocalPolicy) (index : Expr) (cases : List Exit) (otherwise : Exit) :
    List String :=
  let arms := cases.zipIdx.map fun (exit, number) =>
    toString number ++ " => \x7b " ++ exit.inlined policy ++ " \x7d"
  braced ("match " ++ index.text policy ++ " as u32 ")
    (arms ++ ["_ => \x7b " ++ otherwise.inlined policy ++ " \x7d"])

def lines (policy : LocalPolicy) : Stmt → List String
  | comment text => ["// " ++ text]
  | act action => [action.line policy]
  | transfer exit => exit.lines policy
  | guard condition actions exit =>
    braced ("if " ++ condition.text policy ++ " ")
      (actions.map (Action.line policy) ++ exit.toList.flatMap (Exit.lines policy))
  | switch condition index cases otherwise =>
    let body := switchLines policy index cases otherwise
    match condition with
    | some condition => braced ("if " ++ condition.text policy ++ " ") body
    | none => body
  | hook call => braced "" (call.lines policy)

def registers : Stmt → List Register
  | comment _ => []
  | act action => action.registers
  | transfer exit => exit.registers
  | guard condition actions exit =>
    condition.registers ++ actions.flatMap Action.registers ++ exit.toList.flatMap Exit.registers
  | switch condition index cases otherwise =>
    condition.toList.flatMap Expr.registers ++ index.registers ++
      cases.flatMap Exit.registers ++ otherwise.registers
  | hook call => call.registers

/-- Actions and an exit, under a condition if there is one. -/
def guarded (condition : Option Expr) (actions : List Action) (exit : Option Exit) : List Stmt :=
  match condition with
  | some condition => [guard condition actions exit]
  | none => actions.map act ++ exit.toList.map transfer

end Stmt

end PowerLift
