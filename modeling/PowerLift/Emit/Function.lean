import PowerLift.Code.Allocation
import PowerLift.Discovery.Basic
import PowerLift.Emit.Arm

/-!
Functions of the emitted code. Each is a loop that dispatches on the label where control goes on,
with one arm for every block.
-/

namespace PowerLift

structure EmittedFunction where
  address : UInt32
  /-- The identifier of the function. -/
  name : String
  policy : LocalPolicy
  arms : List Arm
  /-- The registers that the code asks for. -/
  requests : List Register
  /-- The instructions without code, by address. -/
  unimplemented : List (UInt32 × Opcode)
deriving DecidableEq

namespace EmittedFunction

def isPartial (function : EmittedFunction) : Bool :=
  !function.unimplemented.isEmpty

def allocation (function : EmittedFunction) : Allocation :=
  ({ policy := function.policy } : Allocation).requestAll function.requests

/-! ## Text -/

def armLines (policy : LocalPolicy) (arm : Arm) : List String :=
  Stmt.braced (addressText arm.label ++ " => ") (arm.body.flatMap (Stmt.lines policy))

/-- The arm for a label that does not exist. -/
def fallbackLines : List String :=
  Stmt.braced "_ => " ["ppc_unreachable(ctx, pc);", "return;"]

def lines (function : EmittedFunction) : List String :=
  let arms := function.arms.flatMap (armLines function.policy) ++ fallbackLines
  let start := s!"let mut pc: u32 = {addressText function.address};"
  Stmt.braced s!"pub fn {function.name}(ctx: &mut PpcContext, mem: &mut Memory) "
    (function.allocation.declarations ++ [start] ++
      Stmt.braced "loop " (Stmt.braced "match pc " arms))

/-- The text of the function. -/
def code (function : EmittedFunction) : String :=
  String.join (function.lines.map (· ++ "\n"))

end EmittedFunction

namespace Graph

/-- Adds the blocks, calls and tables of a chunk to those of the function that it is inside of. -/
def mergeChunk (node : FunctionNode) (merged : FunctionNode) (chunk : FunctionNode) :
    FunctionNode :=
  let blocks :=
    if node.blocks.isEmpty then []
    else if chunk.blocks.isEmpty then [{ start := chunk.address, stop := min chunk.stop node.stop }]
    else chunk.blocks
  { merged with
    blocks := merged.blocks ++ blocks
    calls := merged.calls ++ chunk.calls
    jumpTables :=
      chunk.jumpTables.foldl (fun tables table => table.insert tables) merged.jumpTables }

/-- A function with the chunks inside of it. -/
def withChunks (graph : Graph) (node : FunctionNode) : FunctionNode :=
  let chunks := (graph.chunksOf node.address).filter fun chunk => node.contains chunk.address
  let merged := chunks.foldl (mergeChunk node) node
  { merged with blocks := Span.mergeOverlapping merged.blocks }

end Graph

namespace Program

/-- Functions that save their context for a long jump, and exception handlers, keep all registers
in the context. -/
def policyFor (program : Program) (node : FunctionNode) : LocalPolicy :=
  let savesContext :=
    match program.config.setjmp with
    | some setjmp => node.calls.any (·.target == some setjmp)
    | none => false
  if savesContext || program.config.isExceptionHandler node.address then .contextOnly
  else program.config.locals

/-- The function with its layout. -/
def flowOf (program : Program) (graph : Graph) (node : FunctionNode)
    (instructions : List Instruction) : Flow :=
  let node := graph.withChunks node
  { graph, node, config := program.config
    layout := Layout.build graph node instructions program.config }

/-- The code of a function, given the instructions of its range. -/
def emit (program : Program) (graph : Graph) (node : FunctionNode)
    (instructions : List Instruction) : EmittedFunction :=
  let flow := program.flowOf graph node instructions
  let nextOf (insn : Instruction) : Option Instruction :=
    instructions.find? (·.address == insn.address + 4)
  let fragments := flow.layout.blocks.map fun block => (block, flow.emitBlock nextOf block)
  { address := node.address
    name := functionSymbol node.displayName
    policy := program.policyFor flow.node
    arms := fragments.map fun (block, fragment) => { label := block.start, body := fragment.stmts }
    requests := fragments.flatMap (·.2.requests)
    unimplemented := fragments.flatMap (·.2.unimplemented) }

/-- The instructions of the range of a function. -/
def instructionsOf (program : Program) (node : FunctionNode) : Except Error (List Instruction) :=
  program.image.instructions node.address node.stop

def emitFunction (program : Program) (graph : Graph) (node : FunctionNode) :
    Except Error EmittedFunction := do
  return program.emit graph node (← program.instructionsOf node)

/-- The code of all functions that stand alone, by address. Those with words that are not mapped
are left out. -/
def emitAll (program : Program) (graph : Graph) : List EmittedFunction :=
  (graph.nodes.filter graph.standsAlone).filterMap fun node =>
    (program.emitFunction graph node).toOption

end Program

end PowerLift
