import PowerLift.Config.Address
import PowerLift.Config.Basic
import PowerLift.Word

/-!
Checking a configuration: addresses are aligned, every function has one extent, functions do not
overlap unless one is a chunk, hooks declare one way of continuing, and jump tables have labels.
-/

namespace PowerLift

/-- What an address in a configuration belongs to. -/
inductive Subject where
  | function
  | parent
  | indirectCall
  | exceptionHandler
  | setjmp
  | longjmp
  | switchTable
  | switchLabel
  | hook
  | hookTarget
deriving DecidableEq

namespace Subject

def label : Subject → String
  | function => "Function"
  | parent => "Parent"
  | indirectCall => "Indirect call"
  | exceptionHandler => "Exception handler"
  | setjmp => "setjmp"
  | longjmp => "longjmp"
  | switchTable => "Switch table"
  | switchLabel => "Switch label"
  | hook => "Mid-asm hook"
  | hookTarget => "Hook jump target"

end Subject

/-- What makes a configuration unusable. -/
inductive Fault where
  | misaligned (subject : Subject) (address : UInt32)
  | sizeAndEnd (entry : FunctionOverride)
  | endNotAfter (entry : FunctionOverride) (stop : UInt32)
  | conflict (first second : FunctionOverride)
  | overlap (entry other : FunctionOverride)
  | noLabels (address : UInt32)
  | switchRegister (address : UInt32) (register : Nat)
  | manyBehaviours (hook : Hook)
  | unknownRegister (hook : Hook) (register : String)
deriving DecidableEq

namespace Fault

def message : Fault → String
  | misaligned subject address =>
    s!"{subject.label} {addressText address} is not 4-byte aligned"
  | sizeAndEnd entry => s!"Function {entry.key} declares both size and end"
  | endNotAfter entry stop =>
    s!"Function {entry.key} has end {addressText stop} not greater than its address"
  | conflict first second =>
    s!"Conflicting declarations for function {addressText second.address} " ++
      s!"({first.key} and {second.key})"
  | overlap entry other => s!"Function {entry.key} overlaps function {other.key}"
  | noLabels address => s!"Switch table {addressText address} has no labels"
  | switchRegister address register =>
    s!"Switch table {addressText address} names register r{register}"
  | manyBehaviours hook =>
    s!"Mid-asm hook '{hook.name}' at {addressText hook.address} " ++
      "declares more than one return/jump behaviour"
  | unknownRegister hook register =>
    s!"Mid-asm hook '{hook.name}' captures unknown register '{register}'"

end Fault

/-- What looks wrong and does no harm. -/
inductive Warning where
  | zeroSize (entry : FunctionOverride)
  | unevenSize (entry : FunctionOverride) (size : UInt32)
  | unknownParent (entry : FunctionOverride) (parent : UInt32)
  | duplicate (first second : FunctionOverride)
  | patternSize (pattern : DataPattern)
deriving DecidableEq

namespace Warning

def message : Warning → String
  | zeroSize entry => s!"Function {entry.key} has zero size"
  | unevenSize entry size =>
    s!"Function {entry.key} size 0x{hex size.toNat} is not a multiple of 4"
  | unknownParent entry parent =>
    s!"Function {entry.key} names parent {addressText parent} which is not configured"
  | duplicate first second =>
    s!"Duplicate declaration for function {addressText second.address} " ++
      s!"({first.key} and {second.key})"
  | patternSize pattern =>
    s!"Invalid-instruction hint {addressText pattern.word} has size 0x{hex pattern.size.toNat}"

end Warning

structure Report where
  errors : List Fault
  warnings : List Warning
deriving DecidableEq

namespace Report

def valid (report : Report) : Bool :=
  report.errors.isEmpty

/-- The warnings of a valid configuration, or the errors. -/
def result (report : Report) : Except (List Fault) (List Warning) :=
  if report.valid then .ok report.warnings else .error report.errors

end Report

namespace Config

def checkAligned (subject : Subject) (address : UInt32) : List Fault :=
  if aligned address then [] else [.misaligned subject address]

/-! ## Functions -/

/-- The first entry of each address, in the order of the list. -/
def firstPerAddress (entries : List FunctionOverride) : List FunctionOverride :=
  (entries.foldl (fun kept entry =>
    if kept.any (·.address == entry.address) then kept else entry :: kept) []).reverse

def extentFaults (entry : FunctionOverride) : List Fault :=
  match entry.size, entry.stop with
  | some _, some _ => [.sizeAndEnd entry]
  | none, some stop => if stop ≤ entry.address then [.endNotAfter entry stop] else []
  | _, none => []

def extentWarnings (entry : FunctionOverride) : List Warning :=
  match entry.size, entry.stop with
  | some size, none =>
    if size == 0 then [.zeroSize entry]
    else if size % 4 != 0 then [.unevenSize entry size]
    else []
  | _, _ => []

/-- The entry that first declares the address of this one, if that is another. -/
def earlier? (before : List FunctionOverride) (entry : FunctionOverride) :
    Option FunctionOverride :=
  before.find? (·.address == entry.address)

def conflicts (before : List FunctionOverride) (entry : FunctionOverride) : List Fault :=
  match earlier? before entry with
  | some first => if first.extent == entry.extent then [] else [.conflict first entry]
  | none => []

def duplicates (before : List FunctionOverride) (entry : FunctionOverride) : List Warning :=
  match earlier? before entry with
  | some first => if first.extent == entry.extent then [.duplicate first entry] else []
  | none => []

/-- Goes through a list with the entries before each one. -/
def flatMapBefore (f : List α → α → List β) : List α → List α → List β
  | _, [] => []
  | before, a :: rest => f before a ++ flatMapBefore f (before ++ [a]) rest

def functionFaults (before : List FunctionOverride) (entry : FunctionOverride) : List Fault :=
  checkAligned .function entry.address ++ extentFaults entry ++
    entry.parent.toList.flatMap (checkAligned .parent) ++ conflicts before entry

def functionWarnings (config : Config) (before : List FunctionOverride)
    (entry : FunctionOverride) : List Warning :=
  let parents := entry.parent.toList.filter fun parent =>
    !config.functions.any (·.address == parent)
  extentWarnings entry ++ parents.map (.unknownParent entry) ++ duplicates before entry

/-! ## Overlaps -/

/-- The entries whose ranges must be disjoint, with their ends: the first of each address, by
address, that are no chunks and have an extent. -/
def ranges (config : Config) : List (FunctionOverride × UInt32) :=
  let sorted := (firstPerAddress config.functions).mergeSort fun a b => a.address ≤ b.address
  sorted.filterMap fun entry =>
    if entry.isChunk then none
    else entry.extent.map fun extent => (entry, saturatingAdd entry.address extent)

/-- Compares each range with the one before it that reaches furthest. -/
def overlapsFrom : Option (FunctionOverride × UInt32) → List (FunctionOverride × UInt32) →
    List Fault
  | _, [] => []
  | none, range :: rest => overlapsFrom (some range) rest
  | some furthest, range :: rest =>
    let found := if furthest.2 > range.1.address then [.overlap range.1 furthest.1] else []
    found ++ overlapsFrom (some (if range.2 > furthest.2 then range else furthest)) rest

/-! ## The rest -/

def switchFaults (table : SwitchTable) : List Fault :=
  checkAligned .switchTable table.address ++
    (if table.labels.isEmpty then [.noLabels table.address] else []) ++
    (if table.register > 31 then [.switchRegister table.address table.register] else []) ++
    table.labels.flatMap (checkAligned .switchLabel)

def hookFaults (hook : Hook) : List Fault :=
  checkAligned .hook hook.address ++
    (if hook.behaviourCount > 1 then [.manyBehaviours hook] else []) ++
    hook.jumpTargets.flatMap (checkAligned .hookTarget) ++
    (hook.registers.filter fun name => (parseRegister name).isNone).map (.unknownRegister hook)

def patternWarnings (pattern : DataPattern) : List Warning :=
  if pattern.size == 0 || pattern.size % 4 != 0 then [.patternSize pattern] else []

def errors (config : Config) : List Fault :=
  flatMapBefore functionFaults [] config.functions ++
    overlapsFrom none config.ranges ++
    config.indirectCalls.flatMap (checkAligned .indirectCall) ++
    config.analysis.exceptionHandlers.flatMap (checkAligned .exceptionHandler) ++
    config.setjmp.toList.flatMap (checkAligned .setjmp) ++
    config.longjmp.toList.flatMap (checkAligned .longjmp) ++
    config.switchTables.flatMap switchFaults ++
    config.hooks.flatMap hookFaults

def warnings (config : Config) : List Warning :=
  flatMapBefore config.functionWarnings [] config.functions ++
    config.dataPatterns.flatMap patternWarnings

def validate (config : Config) : Report :=
  { errors := config.errors, warnings := config.warnings }

end Config

end PowerLift
