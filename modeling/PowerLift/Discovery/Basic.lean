import PowerLift.Discovery.Scan
import PowerLift.Graph.Basic
import PowerLift.Image.VTable

/-!
Finding all functions of a program. Entries come from the image, the configuration and hints; the
functions that they call are entries too. A function extends to the next entry. Code that no
function covers begins further ones.
-/

namespace PowerLift

/-- What is known about the functions of a program. -/
structure Discovery where
  /-- Where functions and chunks begin. -/
  entries : List UInt32 := []
  /-- Where functions begin, which bounds those before. -/
  boundaries : List UInt32 := []
  names : List (UInt32 × String) := []
  scans : List (UInt32 × Scan) := []

namespace Discovery

/-! ## Entries -/

/-- The first configured function, no chunk, whose range contains an address. -/
def configuredOwner? (config : Config) (address : UInt32) : Option FunctionOverride :=
  config.functions.find? fun entry =>
    !entry.isChunk &&
      match entry.extent with
      | some size => entry.address ≤ address && address < entry.address + size
      | none => false

/-- Whether an address can be an entry: aligned code, and not inside of a configured function. -/
def admits (program : Program) (address : UInt32) : Bool :=
  program.isCodeAddress address &&
    match configuredOwner? program.config address with
    | some owner => owner.address == address
    | none => true

def isConfiguredChunk (config : Config) (address : UInt32) : Bool :=
  match config.functionAt address with
  | some entry => entry.isChunk
  | none => false

/-- Adds an entry, if it can be one. -/
def addEntry (program : Program) (state : Discovery) (address : UInt32) : Discovery :=
  if admits program address then
    { state with
      entries := AddressSet.insert address state.entries
      boundaries :=
        if isConfiguredChunk program.config address then state.boundaries
        else AddressSet.insert address state.boundaries }
  else state

def addEntries (program : Program) (addresses : List UInt32) (state : Discovery) : Discovery :=
  addresses.foldl (addEntry program) state

/-- Gives a name in place of an earlier one. -/
def setName (state : Discovery) (address : UInt32) (name : String) : Discovery :=
  { state with names := (address, name) :: state.names.filter (·.1 != address) }

/-- Adds a configured function, if it is code. -/
def addConfigured (program : Program) (state : Discovery) (entry : FunctionOverride) :
    Discovery :=
  if program.image.isExecutable entry.address then
    let state :=
      { state with
        entries := AddressSet.insert entry.address state.entries
        boundaries :=
          if entry.isChunk then state.boundaries
          else AddressSet.insert entry.address state.boundaries }
    match entry.name with
    | some name => state.setName entry.address name
    | none => state
  else state

/-- Adds a function that the image names. A name that is already given stays. -/
def addSymbol (program : Program) (state : Discovery) (symbol : Symbol) : Discovery :=
  if admits program symbol.address then
    let state := state.addEntry program symbol.address
    if symbol.name.isEmpty || (state.names.lookup symbol.address).isSome then state
    else state.setName symbol.address symbol.name
  else state

/-- The entries that image and configuration give. -/
def seed (program : Program) : Discovery :=
  let state := program.config.functions.foldl (addConfigured program) {}
  let state := state.addEntry program program.image.entry
  let state := program.image.symbols.foldl (addSymbol program) state
  state.addEntries program program.config.analysis.exceptionHandlers

def addVTables (program : Program) (tables : List VTable) (state : Discovery) : Discovery :=
  state.addEntries program (tables.flatMap (·.slots))

/-! ## Passes -/

/-- How far the function at an entry may extend: to the end of its section, the next function, or
its configured end. -/
def limitOf (program : Program) (state : Discovery) (entry : UInt32) : UInt32 :=
  let sectionEnd :=
    match program.image.sectionAt? entry with
    | some sect => sect.stop
    | none => entry
  match program.config.extentAt entry with
  | some size => min (saturatingAdd entry size) sectionEnd
  | none =>
    match AddressSet.next? entry state.boundaries with
    | some next => min sectionEnd next
    | none => sectionEnd

/-- The scan of an entry. One that was made for the same limit still holds. -/
def rescan (program : Program) (state : Discovery) (entry : UInt32) : Scan :=
  let limit := state.limitOf program entry
  match state.scans.lookup entry with
  | some scan => if scan.limit = limit then scan else program.scan entry limit
  | none => program.scan entry limit

/-- Scans all entries and adds the functions that they call. -/
def pass (program : Program) (state : Discovery) : Discovery :=
  let scans := state.entries.map fun entry => (entry, state.rescan program entry)
  addEntries program (scans.flatMap (·.2.newEntries)) { state with scans }

/-- Passes until no entry is new. -/
def passes (program : Program) : Nat → Discovery → Discovery
  | 0, state => state
  | fuel + 1, state =>
    let after := state.pass program
    if after.entries.length = state.entries.length then after else passes program fuel after

/-! ## Gaps -/

/-- A run of words of a section, by index. -/
structure WordRun where
  first : Nat
  count : Nat
deriving DecidableEq

namespace WordRun

def contains (run : WordRun) (index : Nat) : Bool :=
  run.first ≤ index && index < run.first + run.count

/-- The words of a section that a range touches, counted from where it begins. -/
def ofSpan (sect : Section) (span : Span) : List WordRun :=
  let start := max span.start sect.address
  let stop := min span.stop sect.stop
  if start < stop then
    [{ first := (start - sect.address).toNat / 4, count := ((stop - start).toNat + 3) / 4 }]
  else []

end WordRun

def isCovered (covered : List WordRun) (index : Nat) : Bool :=
  covered.any (·.contains index)

/-- What a function takes up: its blocks, the tables stored for it, and its configured range. -/
def footprint (config : Config) (entry : UInt32) (scan : Scan) : List Span :=
  let tables := scan.jumpTables.filterMap fun table =>
    table.base.map fun base =>
      { start := base, stop := base + UInt32.ofNat (4 * table.targets.length) : Span }
  let configured := (config.extentAt entry).map fun size =>
    { start := entry, stop := saturatingAdd entry size : Span }
  scan.blocks ++ tables ++ configured.toList

def coveredWords (config : Config) (state : Discovery) (sect : Section) : List WordRun :=
  state.scans.flatMap fun (entry, scan) =>
    (footprint config entry scan).flatMap (WordRun.ofSpan sect)

def wordAddress (sect : Section) (index : Nat) : UInt32 :=
  sect.address + UInt32.ofNat (4 * index)

/-- Whether a word is free and looks like data. -/
def isData (config : Config) (sect : Section) (covered : List WordRun) (index : Nat) : Bool :=
  !isCovered covered index &&
    match sect.read? (wordAddress sect index) with
    | some word => likelyData word || (config.dataPattern word).isSome
    | none => true

/-- The words of a section that can be read. Words past them cannot begin a function. -/
def readableWords (sect : Section) : Nat :=
  min (sect.size.toNat / 4) (sect.data.size / 4)

/-- The number of words from an index on, up to `fuel`, that look like data. -/
def dataRun (config : Config) (sect : Section) (covered : List WordRun) : Nat → Nat → Nat
  | 0, _ => 0
  | fuel + 1, index =>
    if isData config sect covered index then dataRun config sect covered fuel (index + 1) + 1 else 0

/-- How a word that no function covers is passed over, in words; nothing if it may begin a
function. -/
def skip? (config : Config) (sect : Section) (covered : List WordRun) (index : Nat)
    (word : UInt32) : Option Nat :=
  if word = 0 ∨ (Instruction.decode (wordAddress sect index) word).opcode = .nop then some 1
  else
    match config.dataPattern word with
    | some pattern => some (max (pattern.size.toNat / 4) 1)
    | none =>
      if isData config sect covered index then
        some (dataRun config sect covered (readableWords sect - index) index)
      else none

/-- Goes through the words of a section from an index on and makes an entry of each that may begin
a function. Gives how many there were. -/
def sweepFrom (program : Program) (sect : Section) :
    Nat → Nat → List WordRun → Discovery → Nat → Discovery × Nat
  | 0, _, _, state, found => (state, found)
  | fuel + 1, index, covered, state, found =>
    if readableWords sect ≤ index then (state, found)
    else if isCovered covered index then
      sweepFrom program sect fuel (index + 1) covered state found
    else
      let address := wordAddress sect index
      match sect.read? address with
      | none => (state, found)
      | some word =>
        match skip? program.config sect covered index word with
        | some count => sweepFrom program sect fuel (index + count) covered state found
        | none =>
          if state.entries.contains address || !admits program address then
            sweepFrom program sect fuel (index + 1) covered state found
          else
            let state := state.addEntry program address
            let scan := program.scan address (state.limitOf program address)
            let stop := max (scan.extent address) (address + 4)
            sweepFrom program sect fuel ((stop - sect.address).toNat / 4)
              (covered ++ WordRun.ofSpan sect { start := address, stop })
              { state with scans := state.scans ++ [(address, scan)] } (found + 1)

def sweepSection (program : Program) (acc : Discovery × Nat) (sect : Section) : Discovery × Nat :=
  sweepFrom program sect (readableWords sect + 1) 0 (acc.1.coveredWords program.config sect) acc.1
    acc.2

/-- Looks for functions in the code that no function covers. -/
def sweep (program : Program) (state : Discovery) : Discovery × Nat :=
  program.image.executableSections.foldl (sweepSection program) (state, 0)

/-! ## The result -/

/-- Every round but the last finds an entry, and entries are executable addresses. -/
def roundFuel (program : Program) : Nat :=
  let total := program.image.sections.foldr (fun sect rest => sect.size.toNat + rest) 0
  total + program.config.functions.length + 1

/-- Passes and sweeps until there is nothing new. -/
def rounds (program : Program) : Nat → Discovery → Discovery
  | 0, state => state
  | fuel + 1, state =>
    let (after, found) := sweep program (state.passes program (roundFuel program))
    if found = 0 then after else rounds program fuel after

/-- Adds a scanned function. One without code is left out, unless it is configured. -/
def addScan (graph : Graph) (entry : UInt32) (scan : Scan) : Graph :=
  if scan.blocks.isEmpty && (graph.function? entry).isNone then graph
  else
    (graph.addFunction entry 0 .discovered).adjust entry fun node =>
      let node := scan.blocks.foldl FunctionNode.addBlock node
      let node := scan.calls.foldl FunctionNode.addCall node
      let node := scan.jumpTables.foldl FunctionNode.addJumpTable node
      scan.unresolvedJumps.foldl FunctionNode.addUnresolvedJump node

def addDeclared (state : Discovery) (graph : Graph) (entry : FunctionOverride) : Graph :=
  if state.entries.contains entry.address then
    match entry.extent with
    | some size => graph.addFunction entry.address size .configured
    | none => graph.addFunction entry.address 0 .discovered
  else graph

/-- Makes a chunk of a function whose configured parent exists. -/
def attach (graph : Graph) (entry : FunctionOverride) : Graph :=
  match entry.parent with
  | some parent =>
    if (graph.function? parent).isSome then
      graph.adjust entry.address fun node => { node with parent := some parent }
    else graph
  | none => graph

/-- The graph of the functions found. -/
def toGraph (program : Program) (state : Discovery) : Graph :=
  let graph := program.config.functions.foldl (state.addDeclared) Graph.empty
  let graph := state.scans.foldl (fun graph (entry, scan) => addScan graph entry scan) graph
  let graph := program.config.functions.foldl attach graph
  state.names.foldl (fun graph (address, name) =>
    graph.adjust address fun node => { node with name := some name }) graph

/-- Runs discovery to its end. -/
def run (program : Program) (state : Discovery) : Graph :=
  (state.rounds program (roundFuel program)).toGraph program

end Discovery

/-- The functions of a program, with the slots of virtual tables as hints. -/
def Program.discover (program : Program) (tables : List VTable) : Graph :=
  ((Discovery.seed program).addVTables program tables).run program

end PowerLift
