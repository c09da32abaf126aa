import PowerLift.Discovery.Basic

/-!
Marks on words. A scan marks the words that it has seen, and a sweep those that functions take up,
in a table with one mark for each word. A word at the end of a window that is cut off has a mark,
one at the end of a section has none. A discovery fails where it uses a mark that its table does
not have.
-/

namespace PowerLift

inductive MarkTable where
  /-- The words of its window that a scan has seen. -/
  | seen (window : Window)
  /-- The words of a section that functions take up. -/
  | taken (sect : Section)
deriving DecidableEq

namespace MarkTable

/-- The number of marks. -/
def size : MarkTable → Nat
  | seen window => window.wordCount
  | taken sect => sect.size.toNat / 4

end MarkTable

/-- Marks of consecutive words that are looked at or set. -/
structure MarkUse where
  table : MarkTable
  first : Nat
  count : Nat
deriving DecidableEq

namespace MarkUse

def inRange (use : MarkUse) : Bool :=
  use.count == 0 || use.first + use.count ≤ use.table.size

end MarkUse

/-! ## Scans -/

/-- The mark of the word at an address. -/
def Window.mark (window : Window) (address : UInt32) : MarkUse :=
  { table := .seen window, first := (address - window.entry).toNat / 4, count := 1 }

/-- The marks that a walk uses. It looks at each word before it reads it. -/
def Program.walkMarks (program : Program) (window : Window) (scan : Scan) (extent : UInt32) :
    Nat → UInt32 → List MarkUse
  | 0, _ => []
  | fuel + 1, address =>
    if window.limit ≤ address then []
    else
      window.mark address ::
        if scan.covers address then []
        else
          match program.instruction? address with
          | none => []
          | some insn =>
            if (program.step window extent insn).stops then []
            else program.walkMarks window scan extent fuel (address + 4)

namespace Exploration

def visitMarks (program : Program) (window : Window) (state : Exploration) (start : UInt32) :
    List MarkUse :=
  if !window.contains start || !aligned start then []
  else
    window.mark start ::
      if state.scan.covers start then []
      else program.walkMarks window state.scan state.extent (window.wordCount + 1) start

def runMarks (program : Program) (window : Window) : Nat → Exploration → List MarkUse
  | 0, _ => []
  | fuel + 1, state =>
    match state.pending with
    | [] => []
    | start :: pending =>
      visitMarks program window { state with pending } start ++
        runMarks program window fuel (visit program window { state with pending } start)

end Exploration

/-- The marks that the scan of a function uses. -/
def Program.scanMarks (program : Program) (entry limit : UInt32) : List MarkUse :=
  if limit ≤ entry then []
  else
    let window : Window := { entry, limit }
    Exploration.runMarks program window (Program.scanFuel window)
      { scan := { limit }, pending := [entry], extent := entry }

namespace Discovery

/-! ## Passes -/

/-- Only an entry that is scanned again uses marks. -/
def rescanMarks (program : Program) (state : Discovery) (entry : UInt32) : List MarkUse :=
  let limit := state.limitOf program entry
  match state.scans.lookup entry with
  | some scan => if scan.limit = limit then [] else program.scanMarks entry limit
  | none => program.scanMarks entry limit

def passMarks (program : Program) (state : Discovery) : List MarkUse :=
  state.entries.flatMap (state.rescanMarks program)

def passesMarks (program : Program) : Nat → Discovery → List MarkUse
  | 0, _ => []
  | fuel + 1, state =>
    let after := state.pass program
    state.passMarks program ++
      if after.entries.length = state.entries.length then [] else passesMarks program fuel after

/-! ## Gaps -/

/-- The marks that are set for a range in a section, one every four bytes. -/
def spanMarks (sect : Section) (span : Span) : List MarkUse :=
  let start := max span.start sect.address
  let stop := min span.stop sect.stop
  if start < stop then
    let count := ((stop - start).toNat + 3) / 4
    -- Past the last address the range goes on with a low one, which is before its end.
    let wraps := UInt32.size ≤ start.toNat + 4 * count
    [{ table := .taken sect
       first := (start - sect.address).toNat / 4
       count := if wraps then count + 1 else count }]
  else []

/-- The marks of all that functions take up in a section. -/
def coverMarks (config : Config) (state : Discovery) (sect : Section) : List MarkUse :=
  state.scans.flatMap fun scanned =>
    (footprint config scanned.1 scanned.2).flatMap (spanMarks sect)

/-- The marks that the sweep of a section looks at from an index on, up to the last whole word. -/
def lookMarks (sect : Section) (index : Nat) : MarkUse :=
  { table := .taken sect, first := index, count := sect.size.toNat / 4 - index }

def sweepFromMarks (program : Program) (sect : Section) :
    Nat → Nat → List WordRun → Discovery → List MarkUse
  | 0, _, _, _ => []
  | fuel + 1, index, covered, state =>
    lookMarks sect index ::
      if readableWords sect ≤ index then []
      else if isCovered covered index then
        sweepFromMarks program sect fuel (index + 1) covered state
      else
        let address := wordAddress sect index
        match sect.read? address with
        | none => []
        | some word =>
          match skip? program.config sect covered index word with
          | some count => sweepFromMarks program sect fuel (index + count) covered state
          | none =>
            if state.entries.contains address || !admits program address then
              sweepFromMarks program sect fuel (index + 1) covered state
            else
              let state := state.addEntry program address
              let limit := state.limitOf program address
              let scan := program.scan address limit
              let stop := max (scan.extent address) (address + 4)
              program.scanMarks address limit ++ spanMarks sect { start := address, stop } ++
                sweepFromMarks program sect fuel ((stop - sect.address).toNat / 4)
                  (covered ++ WordRun.ofSpan sect { start := address, stop })
                  { state with scans := state.scans ++ [(address, scan)] }

def sweepMarks (program : Program) : List Section → Discovery × Nat → List MarkUse
  | [], _ => []
  | sect :: rest, acc =>
    acc.1.coverMarks program.config sect ++
      sweepFromMarks program sect (readableWords sect + 1) 0
        (acc.1.coveredWords program.config sect) acc.1 ++
      sweepMarks program rest (sweepSection program acc sect)

/-! ## The result -/

def roundsMarks (program : Program) : Nat → Discovery → List MarkUse
  | 0, _ => []
  | fuel + 1, state =>
    let passed := state.passes program (roundFuel program)
    let swept := sweep program passed
    state.passesMarks program (roundFuel program) ++
      sweepMarks program program.image.executableSections (passed, 0) ++
      if swept.2 = 0 then [] else roundsMarks program fuel swept.1

/-- The marks that a discovery uses up to its end. -/
def runMarks (program : Program) (state : Discovery) : List MarkUse :=
  state.roundsMarks program (roundFuel program)

/-- Runs discovery to its end, or to the first use of marks that are not there. -/
def run? (program : Program) (state : Discovery) : Except MarkUse Graph :=
  match (state.runMarks program).find? (!·.inRange) with
  | some use => .error use
  | none => .ok (state.run program)

end Discovery

/-- The functions of a program, as far as there are marks for all of its words. -/
def Program.discover? (program : Program) (tables : List VTable) : Except MarkUse Graph :=
  ((Discovery.seed program).addVTables program tables).run? program

end PowerLift
