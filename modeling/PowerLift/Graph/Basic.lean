import PowerLift.Graph.Node

/-!
The functions of a program, ordered by address. Addresses are unique, and an operation changes only
the function that it names.
-/

namespace PowerLift

structure Graph where
  nodes : List FunctionNode := []
deriving DecidableEq, Inhabited

namespace Graph

def empty : Graph := {}

/-! ## Changes -/

/-- Configured extents win over discovered ones. -/
def takeOver (node : FunctionNode) (size : UInt32) (authority : Authority) : FunctionNode :=
  if authority = .configured ∧ node.authority = .discovered then
    { node with authority := .configured, size }
  else node

/-- Puts a function among those ordered by address, unless there is one. -/
def insertNode (address size : UInt32) (authority : Authority) :
    List FunctionNode → List FunctionNode
  | [] => [{ address, size, authority }]
  | node :: rest =>
    if address < node.address then { address, size, authority } :: node :: rest
    else if address = node.address then takeOver node size authority :: rest
    else node :: insertNode address size authority rest

def addFunction (graph : Graph) (address size : UInt32) (authority : Authority) : Graph :=
  { nodes := insertNode address size authority graph.nodes }

def function? (graph : Graph) (address : UInt32) : Option FunctionNode :=
  graph.nodes.find? (·.address == address)

/-- Changes the function at an address, if there is one. -/
def adjust (graph : Graph) (address : UInt32) (change : FunctionNode → FunctionNode) : Graph :=
  { nodes := graph.nodes.map fun node => if node.address = address then change node else node }

/-- Changes the function at an address, which must exist. -/
def modify (graph : Graph) (address : UInt32) (change : FunctionNode → FunctionNode) :
    Except Error Graph :=
  if (graph.function? address).isSome then .ok (graph.adjust address change)
  else .error (.unknownFunction address)

def addBlock (graph : Graph) (address : UInt32) (block : Span) : Except Error Graph :=
  graph.modify address (·.addBlock block)

def setName (graph : Graph) (address : UInt32) (name : String) : Except Error Graph :=
  graph.modify address fun node => { node with name := some name }

def setSize (graph : Graph) (address size : UInt32) : Except Error Graph :=
  graph.modify address fun node => { node with size }

def setParent (graph : Graph) (address parent : UInt32) : Except Error Graph :=
  graph.modify address fun node => { node with parent := some parent }

def addUnresolvedJump (graph : Graph) (address site : UInt32) : Except Error Graph :=
  graph.modify address (·.addUnresolvedJump site)

def addCall (graph : Graph) (address : UInt32) (call : Call) : Except Error Graph :=
  graph.modify address (·.addCall call)

def addJumpTable (graph : Graph) (address : UInt32) (table : JumpTable) : Except Error Graph :=
  graph.modify address (·.addJumpTable table)

/-! ## Queries -/

def count (graph : Graph) : Nat :=
  graph.nodes.length

def functionNamed? (graph : Graph) (name : String) : Option FunctionNode :=
  graph.nodes.find? (·.name == some name)

/-- The last function that begins at or before an address and contains it. -/
def functionContaining? (graph : Graph) (address : UInt32) : Option FunctionNode :=
  (graph.nodes.reverse.filter (·.address ≤ address)).find? (·.contains address)

/-- The name by which code calls the function at an address. -/
def nameOf (graph : Graph) (address : UInt32) : String :=
  match graph.function? address with
  | some node => node.displayName
  | none => defaultName address

def callersOf (graph : Graph) (target : UInt32) : List UInt32 :=
  (graph.nodes.filter fun node => node.calls.any (·.target == some target)).map (·.address)

def chunksOf (graph : Graph) (parent : UInt32) : List FunctionNode :=
  graph.nodes.filter (·.parent == some parent)

/-- Whether a function stands alone. A chunk inside of its parent is part of that. -/
def standsAlone (graph : Graph) (node : FunctionNode) : Bool :=
  match node.parent.bind graph.function? with
  | some parent => !parent.contains node.address
  | none => true

/-- Goes through the functions by address with those before that are still open: those that end
after the current one begins. -/
def overlapsFrom : List FunctionNode → List FunctionNode → List (UInt32 × UInt32)
  | _, [] => []
  | pending, node :: rest =>
    let pending := pending.filter fun earlier => earlier.stop > node.address
    pending.map (fun earlier => (earlier.address, node.address)) ++
      overlapsFrom (pending ++ [node]) rest

/-- The pairs of functions that overlap, chunks left out. -/
def overlaps (graph : Graph) : List (UInt32 × UInt32) :=
  overlapsFrom [] (graph.nodes.filter (!·.isChunk))

end Graph

end PowerLift
