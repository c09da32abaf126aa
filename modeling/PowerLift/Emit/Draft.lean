import PowerLift.Code.Allocation
import PowerLift.Emit.Arm
import PowerLift.Lift.Integer

/-!
Code that is written by hand, line by line, with the same tracking of registers, flush mode and
device pages as the code for blocks.
-/

namespace PowerLift

structure Draft where
  allocation : Allocation
  knowledge : Knowledge := {}
  /-- The current instruction. -/
  insn : Instruction := Instruction.decode 0 0
  /-- The instruction after it in memory. -/
  next : Option Instruction := none
  level : Nat := 0
  lines : List String := []
  unimplemented : List (UInt32 × Opcode) := []

namespace Draft

def ofPolicy (policy : LocalPolicy) : Draft :=
  { allocation := { policy } }

def indentation (draft : Draft) : String :=
  String.ofList (List.replicate (4 * draft.level) ' ')

def indent (draft : Draft) : Draft :=
  { draft with level := draft.level + 1 }

def dedent (draft : Draft) : Draft :=
  { draft with level := draft.level - 1 }

/-- Adds a line at the current level. -/
def line (draft : Draft) (text : String) : Draft :=
  { draft with lines := draft.lines ++ [draft.indentation ++ text] }

/-- The text so far, and the draft without it. -/
def takeCode (draft : Draft) : String × Draft :=
  (String.join (draft.lines.map (· ++ "\n")), { draft with lines := [] })

/-- Adds an action, and asks for its registers. -/
def act (draft : Draft) (action : Action) : Draft :=
  { draft with allocation := draft.allocation.requestAll action.registers }.line
    (action.line draft.allocation.policy)

/-- At a label nothing is known. -/
def enterLabel (draft : Draft) : Draft :=
  { draft with knowledge := {} }

/-- The current instruction wrote a register. -/
def trackWrite (draft : Draft) (register : Nat) : Draft :=
  { draft with knowledge :=
    { draft.knowledge with ioBases := draft.knowledge.ioBases.write draft.insn register } }

/-- Establishes a flush mode, or forgets it. -/
def requireMode (draft : Draft) (wanted : Option FlushMode) : Draft :=
  let action := wanted.bind (FlushMode.require draft.knowledge.mode)
  let draft := { draft with knowledge := { draft.knowledge with mode := wanted } }
  action.elim draft draft.act

/-- The current instruction has no code. -/
def missing (draft : Draft) : Draft :=
  { draft.act (unimplementedCall draft.insn) with
    unimplemented := draft.unimplemented ++ [(draft.insn.address, draft.insn.opcode)] }

/-- Records a result, given by its text. -/
def record (draft : Draft) (result : String) : Draft :=
  draft.act (Lift.record (.var result))

/-- A register as the base of an address, where register zero stands for no base. -/
def base (draft : Draft) (register : Nat) : String × Draft :=
  if register = 0 then ("0u64", draft)
  else
    (draft.allocation.place (.gpr register),
      { draft with allocation := draft.allocation.request (.gpr register) })

def isDeviceAccess (draft : Draft) : Bool :=
  draft.knowledge.ioBases.isDeviceAccess draft.insn draft.next

end Draft

end PowerLift
