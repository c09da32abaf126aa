import PowerLift.Config.Basic
import PowerLift.Discovery.AddressSet
import PowerLift.Discovery.TableIdiom

/-!
Scanning one function: all code that control reaches from its entry without leaving the window
between the entry and a limit, divided into blocks.
-/

namespace PowerLift

/-- A program under analysis. -/
structure Program where
  image : Image
  config : Config

/-- The addresses that a function may extend over. -/
structure Window where
  entry : UInt32
  limit : UInt32
deriving DecidableEq

namespace Window

def contains (window : Window) (address : UInt32) : Bool :=
  window.entry ≤ address && address < window.limit

/-- The number of words that begin in the window. -/
def wordCount (window : Window) : Nat :=
  ((window.limit - window.entry).toNat + 3) / 4

end Window

/-- What the scan of one function found. -/
structure Scan where
  limit : UInt32
  blocks : List Span := []
  calls : List Call := []
  jumpTables : List JumpTable := []
  unresolvedJumps : List UInt32 := []
  /-- Functions that are called from here. -/
  newEntries : List UInt32 := []
deriving DecidableEq, Inhabited

namespace Scan

def covers (scan : Scan) (address : UInt32) : Bool :=
  scan.blocks.any (·.contains address)

/-- One past the last byte of a block. -/
def extent (scan : Scan) (entry : UInt32) : UInt32 :=
  ((scan.blocks.map (·.stop)).max?).getD entry

end Scan

/-- What one instruction, or a run of them, contributes to a scan. -/
structure Step where
  /-- The block ends here. -/
  stops : Bool := false
  /-- Where control may go on. -/
  successors : List UInt32 := []
  calls : List Call := []
  jumpTables : List JumpTable := []
  unresolvedJumps : List UInt32 := []
  newEntries : List UInt32 := []

namespace Step

/-- One contribution after another. -/
def append (first second : Step) : Step :=
  { stops := second.stops
    successors := first.successors ++ second.successors
    calls := first.calls ++ second.calls
    jumpTables := first.jumpTables ++ second.jumpTables
    unresolvedJumps := first.unresolvedJumps ++ second.unresolvedJumps
    newEntries := first.newEntries ++ second.newEntries }

end Step

namespace Program

/-- The instruction at an address, unless there is no word, or one that is data or encodes
nothing. -/
def instruction? (program : Program) (address : UInt32) : Option Instruction := do
  let word ← program.image.read? address
  if (program.config.dataPattern word).isSome then none
  else
    let insn := Instruction.decode address word
    if insn.isUnknown then none else some insn

/-- Whether a branch target can be the entry of a function. -/
def isCodeAddress (program : Program) (address : UInt32) : Bool :=
  aligned address && program.image.isExecutable address

/-- A branch to another function. -/
def callStep (program : Program) (call : Call) : Step :=
  { calls := [call], newEntries := call.target.toList.filter program.isCodeAddress }

/-! ## Computed branches -/

/-- The instructions up to a computed branch that are searched for its table. -/
def searched (program : Program) (window : Window) (site : UInt32) : List Instruction :=
  let reach := UInt32.ofNat (4 * TableIdiom.searchWindow)
  let start := max (if site < reach then 0 else site - reach) window.entry
  (List.range ((site - start).toNat / 4 + 1)).filterMap fun index =>
    let address := start + UInt32.ofNat (4 * index)
    (program.image.read? address).map (Instruction.decode address)

/-- The table that the configuration gives for a branch, if its labels are code. -/
def configuredTable? (program : Program) (site : UInt32) : Option JumpTable := do
  let entry ← program.config.switchTableAt site
  let table : JumpTable :=
    { address := site, base := none, register := entry.register, targets := entry.labels,
      source := .configured }
  if table.isValid program.image.isExecutable then some table else none

def recognizedTable? (program : Program) (window : Window) (insn : Instruction) :
    Option JumpTable :=
  if insn.opcode = .bctr then
    TableIdiom.recognize? program.image (program.searched window insn.address)
  else none

/-- Cases outside of the window leave the function. -/
def tableStep (window : Window) (table : JumpTable) : Step :=
  { jumpTables := [table], successors := table.targets.filter window.contains }

/-- A configured table comes first, then a configured call, then a table that is recognised. -/
def indirectStep (program : Program) (window : Window) (insn : Instruction) : Step :=
  match program.configuredTable? insn.address with
  | some table => tableStep window table
  | none =>
    if program.config.isIndirectCall insn.address then
      { calls := [Call.unresolved insn.address true] }
    else
      match program.recognizedTable? window insn with
      | some table => tableStep window table
      | none => { unresolvedJumps := [insn.address] }

/-! ## Instructions -/

/-- Whether a jump stays in the function: inside the window, and not far past the code seen so far
unless the function is small. -/
def isLocal (program : Program) (window : Window) (reached target : UInt32) : Bool :=
  window.contains target &&
    (target ≤ saturatingAdd reached program.config.analysis.maxJumpExtension ||
      reached - window.entry < program.config.analysis.largeFunctionThreshold)

/-- What an instruction itself contributes. `reached` is the end of the code seen so far, this
instruction included. -/
def ownStep (program : Program) (window : Window) (reached : UInt32) (insn : Instruction) : Step :=
  let next := insn.address + 4
  let effects := insn.effects
  let fallthrough := if effects.conditional then [next] else []
  let ending (step : Step) : Step :=
    { step with stops := true, successors := step.successors ++ fallthrough }
  if insn.group = .trap then
    { stops := true, successors := if insn.isUnconditionalTrap then [] else [next] }
  else if insn.opcode = .sc then { stops := true, successors := [next] }
  else if insn.opcode = .rfid then { stops := true }
  else
    match effects.transfer with
    | .none => {}
    | .call =>
      match insn.target with
      | some target =>
        -- A call of the next instruction only reads the program counter.
        if target = next then {} else program.callStep (Call.direct insn.address target)
      | none => {}
    | .indirectCall => { calls := [Call.unresolved insn.address false] }
    | .jump | .conditional =>
      match insn.target with
      | some target =>
        if program.isLocal window reached target then ending { successors := [target] }
        else ending (program.callStep (Call.tail insn.address target))
      | none => ending {}
    | .ret => ending {}
    | .indirectJump => ending (program.indirectStep window insn)

/-- Hooks at the instruction may also continue elsewhere. -/
def step (program : Program) (window : Window) (extent : UInt32) (insn : Instruction) : Step :=
  let own := program.ownStep window (max extent (insn.address + 4)) insn
  let hooked := (program.config.hooksAt insn.address).flatMap Hook.jumpTargets
  { own with successors := hooked ++ own.successors }

/-- Goes through instructions in order up to the end of the block: one that stops, a word that is
no instruction, the limit, or code that was seen before. Gives the end of the block. -/
def walk (program : Program) (window : Window) (scan : Scan) (extent : UInt32) :
    Nat → UInt32 → UInt32 × Step
  | 0, address => (address, {})
  | fuel + 1, address =>
    if window.limit ≤ address || scan.covers address then (address, {})
    else
      match program.instruction? address with
      | none => (address, {})
      | some insn =>
        let step := program.step window extent insn
        if step.stops then (address + 4, step)
        else
          let (stop, rest) := walk program window scan extent fuel (address + 4)
          (stop, step.append rest)

end Program

/-! ## Whole functions -/

/-- A scan under way. -/
structure Exploration where
  scan : Scan
  /-- Where control may go on, still to be looked at. -/
  pending : List UInt32
  /-- Branch targets inside of blocks. -/
  splits : List UInt32 := []
  extent : UInt32

namespace Exploration

/-- Adds the block of a walk, and what its instructions contribute. -/
def record (state : Exploration) (window : Window) (start stop : UInt32) (step : Step) :
    Exploration :=
  let scan := state.scan
  { state with
    scan := { scan with
      blocks := if start < stop then scan.blocks ++ [{ start, stop }] else scan.blocks
      calls := scan.calls ++ step.calls
      jumpTables := scan.jumpTables ++ step.jumpTables
      unresolvedJumps := scan.unresolvedJumps ++ step.unresolvedJumps
      newEntries := scan.newEntries ++ step.newEntries }
    pending := AddressSet.insertAll (step.successors.filter window.contains) state.pending
    extent := if start < stop then max state.extent stop else state.extent }

/-- Looks at one address where control may go on. -/
def visit (program : Program) (window : Window) (state : Exploration) (start : UInt32) :
    Exploration :=
  if !window.contains start || !aligned start then state
  else if state.scan.covers start then
    { state with splits := AddressSet.insert start state.splits }
  else
    let (stop, step) := program.walk window state.scan state.extent (window.wordCount + 1) start
    state.record window start stop step

def run (program : Program) (window : Window) : Nat → Exploration → Exploration
  | 0, state => state
  | fuel + 1, state =>
    match state.pending with
    | [] => state
    | start :: pending =>
      run program window fuel (visit program window { state with pending } start)

end Exploration

namespace Scan

/-- Cuts the range up to `stop` at the given addresses. -/
def cutAt (start stop : UInt32) : List UInt32 → List Span
  | [] => [{ start, stop }]
  | split :: rest => { start, stop := split } :: cutAt split stop rest

/-- Blocks by start, cut at the branch targets inside of them. -/
def splitBlocks (blocks : List Span) (splits : List UInt32) : List Span :=
  (blocks.mergeSort fun a b => a.start ≤ b.start).flatMap fun block =>
    cutAt block.start block.stop
      (splits.filter fun split => block.start < split && split < block.stop)

end Scan

namespace Program

/-- Every block adds at most all addresses of the window, and there are no more blocks than words,
which bounds the number of addresses to look at. -/
def scanFuel (window : Window) : Nat :=
  (window.wordCount + 1) * ((window.limit - window.entry).toNat + 1)

/-- Scans the function at `entry`, whose code lies before `limit`. -/
def scan (program : Program) (entry limit : UInt32) : Scan :=
  if limit ≤ entry then { limit }
  else
    let window : Window := { entry, limit }
    let start : Exploration := { scan := { limit }, pending := [entry], extent := entry }
    let result := Exploration.run program window (scanFuel window) start
    { result.scan with blocks := Scan.splitBlocks result.scan.blocks result.splits }

end Program

end PowerLift
