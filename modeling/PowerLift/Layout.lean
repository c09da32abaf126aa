import PowerLift.Config.Basic
import PowerLift.Graph.Basic
import PowerLift.Isa.Effects

/-!
The code of a function divided at labels: addresses that a branch, a jump table or a hook may go
to. Edges join the blocks between which control passes.
-/

namespace PowerLift

/-- Instructions one after the other. Only the first is a label. -/
structure Block where
  start : UInt32
  instructions : List Instruction
deriving DecidableEq, Inhabited

namespace Block

def count (block : Block) : Nat :=
  block.instructions.length

/-- One past the last instruction. -/
def stop (block : Block) : UInt32 :=
  block.start + UInt32.ofNat (4 * block.count)

def last? (block : Block) : Option Instruction :=
  block.instructions.getLast?

end Block

inductive EdgeKind where
  | unconditional
  /-- A condition that holds. -/
  | taken
  /-- A condition that does not hold. -/
  | notTaken
  | fallthrough
  /-- A case of a jump table. -/
  | tableCase
deriving DecidableEq, Inhabited

/-- Control passes between two blocks, named by their places in the layout. -/
structure Edge where
  source : Nat
  target : Nat
  kind : EdgeKind
deriving DecidableEq, Inhabited

structure Layout where
  /-- By start. -/
  blocks : List Block
  edges : List Edge
  entryBlock : Nat
deriving DecidableEq, Inhabited

namespace Layout

/-! ## Labels -/

/-- Where an instruction and its hooks may go inside the function. -/
def labelsOf (node : FunctionNode) (config : Config) (insn : Instruction) : List UInt32 :=
  let branch := if insn.isCall then [] else insn.target.toList
  let hooked := (config.hooksAt insn.address).flatMap Hook.jumpTargets
  (branch ++ hooked).filter node.contains

/-- The addresses at which code is divided. -/
def labels (graph : Graph) (node : FunctionNode) (instructions : List Instruction)
    (config : Config) : List UInt32 :=
  let cases := node.jumpTables.flatMap fun table => table.targets.filter node.contains
  let chunks := ((graph.chunksOf node.address).map (·.address)).filter node.contains
  node.blocks.map (·.start) ++ [node.address] ++ instructions.flatMap (labelsOf node config) ++
    cases ++ chunks

/-! ## Blocks -/

/-- The instructions at an address and the words after it, up to the first that is missing. The
instructions come ordered by address; those between the words are passed over. -/
def runFrom (stop : UInt32) : UInt32 → List Instruction → List Instruction
  | _, [] => []
  | address, insn :: rest =>
    if insn.address < address then runFrom stop address rest
    else if insn.address = address ∧ address < stop then insn :: runFrom stop (address + 4) rest
    else []

/-- The instructions of a range, up to the first word that is missing. -/
def run (instructions : List Instruction) (span : Span) : List Instruction :=
  runFrom span.stop span.start instructions

/-- Divides instructions before each label. -/
def divide (isLabel : UInt32 → Bool) : List Instruction → List (List Instruction)
  | [] => []
  | insn :: rest =>
    match divide isLabel rest with
    | (next :: group) :: groups =>
      if isLabel next.address then [insn] :: (next :: group) :: groups
      else (insn :: next :: group) :: groups
    | groups => [insn] :: groups

def toBlock? : List Instruction → Option Block
  | [] => none
  | first :: rest => some { start := first.address, instructions := first :: rest }

/-- The ranges that hold code. A function without blocks is one range. -/
def codeRanges (node : FunctionNode) : List Span :=
  if node.blocks.isEmpty then [{ start := node.address, stop := node.stop }] else node.blocks

def blocksOf (graph : Graph) (node : FunctionNode) (instructions : List Instruction)
    (config : Config) : List Block :=
  let labels := labels graph node instructions config
  (codeRanges node).flatMap fun span =>
    (divide labels.contains (run instructions span)).filterMap toBlock?

/-- Puts a block in its place by start. It takes over from one with the same start. -/
def placeBlock (block : Block) : List Block → List Block
  | [] => [block]
  | head :: rest =>
    if block.start < head.start then block :: head :: rest
    else if block.start = head.start then block :: rest
    else head :: placeBlock block rest

/-- The blocks by start, the first of those with the same start. -/
def arrange (blocks : List Block) : List Block :=
  blocks.foldr placeBlock []

/-! ## Edges -/

/-- The place of the block that starts at an address. -/
def indexOf? (blocks : List Block) (address : UInt32) : Option Nat :=
  blocks.findIdx? (·.start == address)

/-- Where control may go after the last instruction of a block. -/
def exits (node : FunctionNode) (block : Block) (last : Instruction) :
    List (UInt32 × EdgeKind) :=
  let effects := last.effects
  let otherwise := if effects.conditional then [(block.stop, .notTaken)] else []
  match effects.transfer with
  | .jump | .conditional =>
    let kind : EdgeKind := if effects.conditional then .taken else .unconditional
    last.target.toList.map (·, kind) ++ otherwise
  | .indirectJump =>
    let targets := ((node.jumpTableAt? last.address).map (·.targets)).getD []
    targets.map (·, .tableCase) ++ otherwise
  | .ret => otherwise
  | .none | .call | .indirectCall =>
    if last.isUnconditionalTrap then [] else [(block.stop, .fallthrough)]

/-- The edges that leave a block. -/
def edgesFrom (node : FunctionNode) (blocks : List Block) (source : Nat) (block : Block) :
    List Edge :=
  match block.last? with
  | none => []
  | some last =>
    (exits node block last).filterMap fun (address, kind) =>
      (indexOf? blocks address).map fun target => { source, target, kind }

def edgesOf (node : FunctionNode) (blocks : List Block) : List Edge :=
  blocks.zipIdx.flatMap fun (block, source) => edgesFrom node blocks source block

/-! ## Layouts -/

/-- The layout of a function, given the instructions of its range by address. -/
def build (graph : Graph) (node : FunctionNode) (instructions : List Instruction)
    (config : Config) : Layout :=
  let blocks := arrange (blocksOf graph node instructions config)
  { blocks
    edges := edgesOf node blocks
    entryBlock := (indexOf? blocks node.address).getD 0 }

/-- The block that starts at an address. -/
def blockAt? (layout : Layout) (address : UInt32) : Option Block :=
  (Search.placeOf? (·.start) layout.blocks address).bind fun place => layout.blocks[place]?

def blockIndex? (layout : Layout) (address : UInt32) : Option Nat :=
  indexOf? layout.blocks address

def isLabel (layout : Layout) (address : UInt32) : Bool :=
  (layout.blockAt? address).isSome

/-- The labels by address. -/
def starts (layout : Layout) : List UInt32 :=
  layout.blocks.map (·.start)

/-- Where control may pass to from a block, each place once. -/
def successors (layout : Layout) (index : Nat) : List Nat :=
  ((layout.edges.filter (·.source == index)).map (·.target)).foldl
    (fun seen place => if seen.contains place then seen else seen ++ [place]) []

/-- Where control may come from, each place once. -/
def predecessors (layout : Layout) (index : Nat) : List Nat :=
  ((layout.edges.filter (·.target == index)).map (·.source)).foldl
    (fun seen place => if seen.contains place then seen else seen ++ [place]) []

end Layout

end PowerLift
