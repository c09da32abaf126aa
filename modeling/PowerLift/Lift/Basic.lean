import PowerLift.Code.FlushMode
import PowerLift.Code.Symbol
import PowerLift.Layout

/-!
What an instruction becomes in the emitted code, and the function around it, which decides what a
branch becomes.
-/

namespace PowerLift

/-- The code for an instruction. -/
structure Lifted where
  /-- Registers that are asked for whether the code names them or not. -/
  requests : List Register := []
  /-- The flush mode that the code needs. -/
  mode : Option FlushMode := none
  /-- Nothing if there is no code for the instruction. -/
  body : Option (List Stmt) := some []
  /-- Whether the flush mode is unknown afterwards. -/
  forgetsMode : Bool := false
deriving DecidableEq

namespace Lifted

/-- An instruction without code for it. -/
def missing (requests : List Register) : Lifted :=
  { requests, body := none }

def ofActions (requests : List Register) (actions : List Action) : Lifted :=
  { requests, body := some (actions.map .act) }

/-- All registers that are asked for. -/
def registers (lifted : Lifted) : List Register :=
  lifted.requests ++ (lifted.body.getD []).flatMap Stmt.registers

end Lifted

/-- The function that is emitted. -/
structure Flow where
  graph : Graph
  node : FunctionNode
  layout : Layout
  config : Config

namespace Flow

/-- The call of the function at an address: by name if it is emitted, else by address. -/
def callee (flow : Flow) (address : UInt32) : Expr :=
  match flow.graph.function? address with
  | some node =>
    if flow.graph.standsAlone node then
      .invokeGuest (.guest (functionSymbol (flow.graph.nameOf address))) []
    else .invokeGuest .dispatch [.wordHex address]
  | none => .invokeGuest .dispatch [.wordHex address]

/-- How a branch to an address leaves the arm: to a label of the function, or out of it. -/
def exitTo (flow : Flow) (address : UInt32) : Exit :=
  if flow.layout.isLabel address then .goto address else .leave (flow.callee address)

/-- The target of a branch. A recorded call has precedence over what the instruction says. -/
def targetOf (flow : Flow) (insn : Instruction) : Option UInt32 :=
  ((flow.node.callAt? insn.address).bind (·.target)).or insn.target

/-- The return address in the link register, unless nobody looks at it. -/
def setLink (flow : Flow) (insn : Instruction) : List Action :=
  if flow.config.skipLr then [] else [.assign .lr (.wordHex (insn.address + 4))]

/-- A call of the function at an address, and of those two that have routines of their own. -/
def callActions (flow : Flow) (insn : Instruction) (address : UInt32) : List Action :=
  flow.setLink insn ++
    [if flow.config.setjmp = some address then
        .assign (.gpr 3) (.invokeGuest .setjmp [])
      else if flow.config.longjmp = some address then .perform (.invokeGuest .longjmp [])
      else .perform (flow.callee address)]

end Flow

end PowerLift
