import PowerLift.Lift.Branch
import PowerLift.Lift.Float
import PowerLift.Lift.Integer
import PowerLift.Lift.Memory
import PowerLift.Lift.System
import PowerLift.Lift.Vector

/-!
The code for any instruction.
-/

namespace PowerLift

/-- The code for an instruction of a function. `table` is the jump table of a computed branch, and
`io` says whether a memory access goes to a device. -/
def Flow.lift (flow : Flow) (table : Option JumpTable) (io : Bool) (insn : Instruction) : Lifted :=
  match insn.group with
  | .branch => Lift.branch flow table insn
  | .trap => Lift.trap insn
  | .system => Lift.system flow.config insn
  | .conditionRegister => Lift.conditionRegister insn
  | .specialRegister => Lift.specialRegister flow.config insn
  | .intArithmetic => Lift.arithmetic insn
  | .intLogical => Lift.logical insn
  | .intCompare => Lift.compare insn
  | .intRotate => Lift.rotate insn
  | .intShift => Lift.shift insn
  | .intLoad => Lift.integerLoad io insn
  | .intStore => Lift.integerStore io insn
  | .floatLoad => Lift.floatLoad io insn
  | .floatStore => Lift.floatStore io insn
  | .vectorLoad => Lift.vectorLoad io insn
  | .vectorStore => Lift.vectorStore io insn
  | .cache => Lift.cache insn
  | .floatArithmetic | .floatMove | .floatCompare | .floatControl => Lift.float insn
  | .vectorInteger | .vectorFloat | .vectorPermute | .vectorControl => Lift.vector insn
  | .unknown => .missing []

end PowerLift
