import PowerLift.Code.IoBase
import PowerLift.Emit.Hook
import PowerLift.Isa.Operand
import PowerLift.Lift.Dispatch

/-!
Arms of the dispatch loop: the code for a block, with hooks, switches of the flush mode, and the
transfer at its end.
-/

namespace PowerLift

/-- What is known at a point of an arm. At a label nothing is. -/
structure Knowledge where
  mode : Option FlushMode := none
  ioBases : IoBases := []
deriving DecidableEq

/-- Code with the registers that it asks for and the instructions that it has no code for. -/
structure Fragment where
  stmts : List Stmt := []
  requests : List Register := []
  unimplemented : List (UInt32 × Opcode) := []
deriving DecidableEq

namespace Fragment

def append (first second : Fragment) : Fragment :=
  { stmts := first.stmts ++ second.stmts
    requests := first.requests ++ second.requests
    unimplemented := first.unimplemented ++ second.unimplemented }

/-- Statements that ask for the registers that they name. -/
def ofStmts (stmts : List Stmt) : Fragment :=
  { stmts, requests := stmts.flatMap Stmt.registers }

end Fragment

/-- An arm of the dispatch loop. -/
structure Arm where
  label : UInt32
  body : List Stmt
deriving DecidableEq

/-- The call that stands for an instruction without code. -/
def unimplementedCall (insn : Instruction) : Action :=
  .perform (.invoke .unimplemented
    [.context, .wordHex insn.address, .lit (.quoted insn.opcode.mnemonic)])

namespace Flow

/-- The hooks before or after an instruction. Host code may change the flush mode. -/
def emitHooks (flow : Flow) (state : Knowledge) (hooks : List Hook) : Fragment × Knowledge :=
  (Fragment.ofStmts (hooks.map fun hook => .hook (flow.hookCall hook)),
    if hooks.isEmpty then state else { state with mode := none })

/-- Establishes the flush mode that the code needs. -/
def emitMode (state : Knowledge) (wanted : Option FlushMode) : Fragment × Knowledge :=
  match wanted with
  | some mode =>
    (Fragment.ofStmts ((FlushMode.require state.mode mode).toList.map .act),
      { state with mode := some mode })
  | none => ({}, state)

/-- The code for an instruction itself. -/
def emitBody (insn : Instruction) (lifted : Lifted) : Fragment :=
  match lifted.body with
  | some stmts => { stmts, requests := lifted.registers }
  | none =>
    { stmts := [.act (unimplementedCall insn)]
      requests := lifted.registers
      unimplemented := [(insn.address, insn.opcode)] }

/-- What is known after an instruction. -/
def afterInstruction (state : Knowledge) (insn : Instruction) (lifted : Lifted) : Knowledge :=
  { mode := if lifted.forgetsMode then none else state.mode
    ioBases := insn.effects.writesGpr.foldl (fun bases => bases.write insn) state.ioBases }

/-- The code for an instruction with its hooks. `next` is the instruction after it in memory. -/
def emitInstruction (flow : Flow) (next : Option Instruction) (state : Knowledge)
    (insn : Instruction) : Fragment × Knowledge :=
  let hooks := flow.config.hooksAt insn.address
  let comment := Stmt.comment s!"{addressText insn.address}: {insn.text}"
  let (before, state) := flow.emitHooks state (hooks.filter (!·.afterInstruction))
  let io := state.ioBases.isDeviceAccess insn next
  let lifted := flow.lift (flow.node.jumpTableAt? insn.address) io insn
  let (mode, state) := emitMode state lifted.mode
  let body := emitBody insn lifted
  let state := afterInstruction state insn lifted
  let (after, state) := flow.emitHooks state (hooks.filter (·.afterInstruction))
  ((Fragment.ofStmts [comment]).append
      (before.append (mode.append (body.append after))), state)

/-- The code for instructions one after the other. -/
def emitInstructions (flow : Flow) (nextOf : Instruction → Option Instruction) :
    Knowledge → List Instruction → Fragment
  | _, [] => {}
  | state, insn :: rest =>
    let (fragment, state) := flow.emitInstruction (nextOf insn) state insn
    fragment.append (flow.emitInstructions nextOf state rest)

/-- Whether the code for an instruction always leaves the arm. -/
def leavesArm (insn : Instruction) : Bool :=
  match insn.opcode with
  | .b | .blr | .bctr => true
  | .bc | .bclr | .bcctr => !insn.lk && !insn.isConditional && insn.ignoresCounter
  | _ => false

/-- The transfer at the end of a block whose last instruction may go on. -/
def blockExit? (flow : Flow) (block : Block) (last : Instruction) : Option Exit :=
  if leavesArm last then none
  else if last.isUnconditionalTrap || last.isUnknown || last.opcode = .rfid then some .ret
  else some (flow.exitTo block.stop)

/-- The code for a block. -/
def emitBlock (flow : Flow) (nextOf : Instruction → Option Instruction) (block : Block) :
    Fragment :=
  let exit := (block.last?.bind (flow.blockExit? block)).toList.map Stmt.transfer
  (flow.emitInstructions nextOf {} block.instructions).append (Fragment.ofStmts exit)

end Flow

end PowerLift
