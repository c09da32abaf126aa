import PowerLift.Error
import PowerLift.Graph.Span
import PowerLift.Search

/-!
Functions as nodes of the graph: extent, blocks, calls and jump tables.
-/

namespace PowerLift

/-- Who decided the extent of a function. -/
inductive Authority where
  | discovered
  | configured
deriving DecidableEq, Inhabited

/-- A branch to another function. -/
structure Call where
  site : UInt32
  /-- Unknown for an indirect call. -/
  target : Option UInt32
  /-- Set if the branch does not return here. -/
  isTail : Bool
deriving DecidableEq, Inhabited

namespace Call

def direct (site target : UInt32) : Call :=
  { site, target := some target, isTail := false }

def tail (site target : UInt32) : Call :=
  { site, target := some target, isTail := true }

def unresolved (site : UInt32) (isTail : Bool) : Call :=
  { site, target := none, isTail }

def isResolved (call : Call) : Bool :=
  call.target.isSome

end Call

inductive TableSource where
  | configured
  | recognized
deriving DecidableEq, Inhabited

/-- The targets of a computed branch. -/
structure JumpTable where
  /-- Of the branch. -/
  address : UInt32
  /-- Where the table is stored, if known. -/
  base : Option UInt32
  /-- The register with the index of the case. -/
  register : Nat
  targets : List UInt32
  source : TableSource
deriving DecidableEq, Inhabited

namespace JumpTable

def targetFault? (isExecutable : UInt32 → Bool) (target : UInt32) : Option JumpTableFault :=
  if !aligned target then some (.misaligned target)
  else if !isExecutable target then some (.notExecutable target)
  else none

/-- Every target must be aligned and executable. The first that is not is the error. -/
def validate (table : JumpTable) (isExecutable : UInt32 → Bool) : Except Error Unit :=
  match table.targets.findSome? (targetFault? isExecutable) with
  | some fault => .error (.invalidJumpTable table.address fault)
  | none => .ok ()

def isValid (table : JumpTable) (isExecutable : UInt32 → Bool) : Bool :=
  table.targets.all fun target => (targetFault? isExecutable target).isNone

/-- Puts a table in its place by address. It takes over from one with the same address. -/
def insert (table : JumpTable) : List JumpTable → List JumpTable
  | [] => [table]
  | head :: rest =>
    if table.address < head.address then table :: head :: rest
    else if table.address = head.address then table :: rest
    else head :: insert table rest

end JumpTable

/-- The name of a function that was given none. -/
def defaultName (address : UInt32) : String :=
  "sub_" ++ paddedHex 8 address.toNat

/-- A function, or a chunk of one. -/
structure FunctionNode where
  address : UInt32
  size : UInt32
  authority : Authority
  /-- By start, without overlaps. -/
  blocks : List Span := []
  calls : List Call := []
  /-- By address. -/
  jumpTables : List JumpTable := []
  /-- Computed branches with unknown targets. -/
  unresolvedJumps : List UInt32 := []
  name : Option String := none
  /-- The function that this one is a chunk of. -/
  parent : Option UInt32 := none
deriving DecidableEq, Inhabited

namespace FunctionNode

/-- One past the last byte. -/
def stop (node : FunctionNode) : UInt32 :=
  node.address + node.size

def contains (node : FunctionNode) (address : UInt32) : Bool :=
  node.address ≤ address && address < node.stop

def isChunk (node : FunctionNode) : Bool :=
  node.parent.isSome

def displayName (node : FunctionNode) : String :=
  node.name.getD (defaultName node.address)

/-- The block that contains an address. -/
def blockContaining? (node : FunctionNode) (address : UInt32) : Option Span :=
  match Search.partitionPoint (·.start ≤ address) node.blocks with
  | 0 => none
  | last + 1 => node.blocks[last]?.filter (·.contains address)

def isBlockStart (node : FunctionNode) (address : UInt32) : Bool :=
  (Search.placeOf? (·.start) node.blocks address).isSome

def callAt? (node : FunctionNode) (site : UInt32) : Option Call :=
  node.calls.find? (·.site == site)

def jumpTableAt? (node : FunctionNode) (site : UInt32) : Option JumpTable :=
  node.jumpTables.find? (·.address == site)

/-! ## Blocks -/

/-- Where the first of the blocks starts, which bounds the one before it. -/
def firstStart (blocks : List Span) : UInt32 :=
  match blocks with
  | [] => 0xFFFFFFFF
  | next :: _ => next.start

/-- Ends the last block at an address inside it, and gives the end that it had. -/
def cutLast (address : UInt32) : List Span → List Span × Option UInt32
  | [] => ([], none)
  | [last] =>
    if address < last.stop then ([{ last with stop := address }], some last.stop)
    else ([last], none)
  | block :: rest =>
    let (rest, former) := cutLast address rest
    (block :: rest, former)

/-- A new block between those before and those after it. A block that the new one starts inside is
split there. No block reaches into the next. -/
def placeBlock (block : Span) (before after : List Span) : List Span :=
  let (before, former) := cutLast block.start before
  let stop := max block.stop (former.getD 0)
  before ++ { block with stop := min stop (firstStart after) } :: after

/-- Puts a block in its place by start. A block that starts at the same address grows to cover the
new one. -/
def insertBlock (block : Span) (blocks : List Span) : List Span :=
  if block.isEmpty then blocks
  else
    let before := blocks.takeWhile (·.start < block.start)
    let after := blocks.dropWhile (·.start < block.start)
    match after with
    | same :: rest =>
      if same.start = block.start then
        before ++ { same with stop := min (max same.stop block.stop) (firstStart rest) } :: rest
      else placeBlock block before after
    | [] => placeBlock block before after

def addBlock (node : FunctionNode) (block : Span) : FunctionNode :=
  let size :=
    if node.authority = .discovered ∧ block.stop > node.stop then block.stop - node.address
    else node.size
  { node with size, blocks := insertBlock block node.blocks }

def addUnresolvedJump (node : FunctionNode) (site : UInt32) : FunctionNode :=
  if node.unresolvedJumps.contains site then node
  else { node with unresolvedJumps := node.unresolvedJumps ++ [site] }

def addCall (node : FunctionNode) (call : Call) : FunctionNode :=
  if node.calls.contains call then node else { node with calls := node.calls ++ [call] }

def addJumpTable (node : FunctionNode) (table : JumpTable) : FunctionNode :=
  { node with jumpTables := table.insert node.jumpTables }

end FunctionNode

end PowerLift
