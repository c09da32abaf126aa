import PowerLift.Lift.Basic

/-!
Branches and traps. A branch goes to a label, calls another function, or does so under a condition
on the counter and a condition bit.
-/

namespace PowerLift.Lift

/-- The test of the counter, which is decremented first. -/
def counterTest (insn : Instruction) : List Action × List Expr :=
  if insn.ignoresCounter then ([], [])
  else
    ([.assign .ctr (.send .ctr .wrappingSub [.decimal 1])],
      [.binary (if insn.wantsZeroCounter then .eq else .ne) .ctr (.decimal 0)])

/-- The test of the condition bit. -/
def bitTest (insn : Instruction) : List Expr :=
  if insn.ignoresCondition then []
  else if insn.wantsSetBit then [.crBit insn.bi]
  else [.unary .complement (.crBit insn.bi)]

/-- What a branch does before its test, and its condition if it has one. -/
def branchCondition (insn : Instruction) : List Action × Option Expr :=
  let (before, tests) := counterTest insn
  (before, Expr.joined .both (tests ++ bitTest insn))

/-- Actions and an exit of a branch under its condition. -/
def underCondition (insn : Instruction) (actions : List Action) (exit : Option Exit) : Lifted :=
  let (before, condition) := branchCondition insn
  { body := some (before.map .act ++ Stmt.guarded condition actions exit) }

/-- A branch under its condition that returns here. -/
def linked (insn : Instruction) (actions : List Action) : Lifted :=
  { underCondition insn actions none with forgetsMode := true }

/-- A computed branch without link: a case of its table, or out of the function. -/
def indirectJump (flow : Flow) (table : Option JumpTable) (before : List Action)
    (condition : Option Expr) : Lifted :=
  match table with
  | none =>
    let call := Expr.invokeGuest .dispatch [.cast .ctr .u32]
    { body := some (before.map .act ++ Stmt.guarded condition [] (some (.leave call))) }
  | some table =>
    let cases := table.targets.map flow.exitTo
    { body := some (before.map .act ++
        [.switch condition (.gpr table.register) cases (.redirect .ctr)]) }

/-- Calls the function at the address in the link register. -/
def linkCall (flow : Flow) (insn : Instruction) : List Action :=
  [.declare "target" .u32 (.cast .lr .u32)] ++ flow.setLink insn ++
    [.perform (.invokeGuest .dispatch [.target])]

/-- Calls the function at the address in the counter. -/
def counterCall (flow : Flow) (insn : Instruction) : List Action :=
  flow.setLink insn ++ [.perform (.invokeGuest .dispatch [.cast .ctr .u32])]

def branch (flow : Flow) (table : Option JumpTable) (insn : Instruction) : Lifted :=
  match insn.opcode with
  | .b =>
    match flow.targetOf insn with
    | some target => { body := some [.transfer (flow.exitTo target)] }
    | none => .missing []
  | .bl =>
    match flow.targetOf insn with
    | some target =>
      { Lifted.ofActions [] (flow.callActions insn target) with forgetsMode := true }
    | none => .missing []
  | .bc =>
    match insn.target with
    | some target => underCondition insn [] (some (flow.exitTo target))
    | none => .missing []
  | .bcl =>
    match insn.target with
    | some target =>
      -- A call of the next instruction only sets the link register.
      if target = insn.address + 4 then underCondition insn (flow.setLink insn) none
      else linked insn (flow.callActions insn target)
    | none => .missing []
  | .blr => { body := some [.transfer .ret] }
  | .bclr =>
    if insn.lk then linked insn (linkCall flow insn) else underCondition insn [] (some .ret)
  | .blrl => linked insn (linkCall flow insn)
  | .bctr => indirectJump flow table [] none
  | .bcctr =>
    if insn.lk then linked insn (counterCall flow insn)
    else
      let (before, condition) := branchCondition insn
      indirectJump flow table before condition
  | .bctrl => linked insn (counterCall flow insn)
  | _ => .missing []

/-! ## Traps -/

/-- The comparisons that a trap may ask for. -/
def trapTests (insn : Instruction) (left right : Expr) (signed unsigned : NumType) : List Expr :=
  let test (op : BinaryOp) (type : NumType) : Expr :=
    .binary op (.paren (.cast left type)) (.paren (.cast right type))
  (if bit insn.raw 25 then [test .lt signed] else []) ++
    (if bit insn.raw 24 then [test .gt signed] else []) ++
    (if bit insn.raw 23 then [test .eq unsigned] else []) ++
    (if bit insn.raw 22 then [test .lt unsigned] else []) ++
    (if bit insn.raw 21 then [test .gt unsigned] else [])

def trap (insn : Instruction) : Lifted :=
  let spring : Action := .perform (.invokeGuest .trap [.wordHex insn.address])
  let conditional (right : Expr) (signed unsigned : NumType) : Lifted :=
    let left := Expr.gpr insn.ra
    match Expr.joined .either (trapTests insn left right signed unsigned) with
    | some condition => { body := some [.guard condition [spring] none] }
    -- Without a comparison the trap never springs.
    | none => { requests := left.registers ++ right.registers }
  if insn.isUnconditionalTrap then .ofActions [] [spring]
  else
    match insn.opcode with
    | .tw => conditional (.gpr insn.rb) .i32 .u32
    | .td => conditional (.gpr insn.rb) .i64 .u64
    | .twi => conditional (.doubleword (UInt64.ofInt insn.simm)) .i32 .u32
    | .tdi => conditional (.doubleword (UInt64.ofInt insn.simm)) .i64 .u64
    | _ => .missing [.gpr insn.ra]

end PowerLift.Lift
