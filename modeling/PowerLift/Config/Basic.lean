import PowerLift.Code.Policy

/-!
Overrides that a project supplies: function boundaries, jump tables, hooks, data patterns, and
switches of analysis and emission.
-/

namespace PowerLift

/-- A declared function. Its end is given by a size or by an address. -/
structure FunctionOverride where
  address : UInt32
  /-- The address as the document writes it. -/
  key : String
  size : Option UInt32 := none
  stop : Option UInt32 := none
  name : Option String := none
  /-- The function that this one is a chunk of. -/
  parent : Option UInt32 := none
deriving DecidableEq, Inhabited

namespace FunctionOverride

/-- The declared length in bytes, if exactly one of size and end is given and the end is past the
start. -/
def extent (entry : FunctionOverride) : Option UInt32 :=
  match entry.size, entry.stop with
  | some size, none => some size
  | none, some stop => if stop > entry.address then some (stop - entry.address) else none
  | _, _ => none

def isChunk (entry : FunctionOverride) : Bool :=
  entry.parent.isSome

end FunctionOverride

/-- A word that marks data, and the number of bytes to skip from there. -/
structure DataPattern where
  word : UInt32
  size : UInt32 := 4
deriving DecidableEq, Inhabited

/-- A jump table for the branch at `address`. -/
structure SwitchTable where
  address : UInt32
  register : Nat := 0
  labels : List UInt32 := []
deriving DecidableEq, Inhabited

/-- A call of host code before or after an instruction. -/
structure Hook where
  address : UInt32
  name : String
  registers : List String := []
  returns : Bool := false
  returnsOnTrue : Bool := false
  returnsOnFalse : Bool := false
  jump : Option UInt32 := none
  jumpOnTrue : Option UInt32 := none
  jumpOnFalse : Option UInt32 := none
  afterInstruction : Bool := false
deriving DecidableEq, Inhabited

namespace Hook

/-- How many ways of continuing the hook declares. -/
def behaviourCount (hook : Hook) : Nat :=
  [hook.returns, hook.returnsOnTrue, hook.returnsOnFalse, hook.jump.isSome,
    hook.jumpOnTrue.isSome, hook.jumpOnFalse.isSome].count true

/-- Whether the hook's result selects how to continue. -/
def isConditional (hook : Hook) : Bool :=
  hook.returnsOnTrue || hook.returnsOnFalse || hook.jumpOnTrue.isSome || hook.jumpOnFalse.isSome

def jumpTargets (hook : Hook) : List UInt32 :=
  [hook.jump, hook.jumpOnTrue, hook.jumpOnFalse].filterMap id

end Hook

structure AnalysisOptions where
  /-- How far past the code seen so far a jump may reach and still be local. -/
  maxJumpExtension : UInt32 := 0x40
  /-- The shortest run of undecodable bytes that counts as a data region. -/
  dataRegionThreshold : UInt32 := 0x20
  /-- The size from which on far jumps leave the function. -/
  largeFunctionThreshold : UInt32 := 0x10000
  exceptionHandlers : List UInt32 := []
deriving DecidableEq, Inhabited

structure Config where
  projectName : String := ""
  filePath : Option String := none
  outDirectory : Option String := none
  skipLr : Bool := false
  skipMsr : Bool := false
  locals : LocalPolicy := {}
  longjmp : Option UInt32 := none
  setjmp : Option UInt32 := none
  /-- Ordered by address. -/
  functions : List FunctionOverride := []
  dataPatterns : List DataPattern := []
  indirectCalls : List UInt32 := []
  switchTables : List SwitchTable := []
  hooks : List Hook := []
  analysis : AnalysisOptions := {}
deriving DecidableEq, Inhabited

namespace Config

/-- The first override declared at an address. -/
def functionAt (config : Config) (address : UInt32) : Option FunctionOverride :=
  config.functions.find? (·.address == address)

def extentAt (config : Config) (address : UInt32) : Option UInt32 :=
  (config.functionAt address).bind FunctionOverride.extent

def switchTableAt (config : Config) (address : UInt32) : Option SwitchTable :=
  config.switchTables.find? (·.address == address)

def isIndirectCall (config : Config) (address : UInt32) : Bool :=
  config.indirectCalls.contains address

def isExceptionHandler (config : Config) (address : UInt32) : Bool :=
  config.analysis.exceptionHandlers.contains address

def dataPattern (config : Config) (word : UInt32) : Option DataPattern :=
  config.dataPatterns.find? (·.word == word)

def hooksAt (config : Config) (address : UInt32) : List Hook :=
  config.hooks.filter (·.address == address)

end Config

end PowerLift
