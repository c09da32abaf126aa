import PowerLift.Config.Address
import PowerLift.Config.Basic
import PowerLift.Toml.Document

/-!
Reading a configuration from the entries of a document. Entries are read in the order in which they
stand there, and the first one that does not fit is the error. Unknown keys count for nothing.
-/

namespace PowerLift

/-- Why a document is no configuration. -/
inductive ConfigFault where
  /-- Not a document, a value of the wrong kind, or a key missing. -/
  | malformed
  | addressOutOfRange (value : Int)
  | invalidAddress (text : String)
  | invalidFunctionKey (key : String)
deriving DecidableEq

namespace ConfigFault

/-- What is wrong. Nothing is said about a document that is malformed as a whole. -/
def text? : ConfigFault → Option String
  | malformed => none
  | addressOutOfRange value => some s!"address {value} out of range"
  | invalidAddress text => some s!"invalid address '{text}'"
  | invalidFunctionKey key => some s!"function key '{key}' is not an address"

end ConfigFault

namespace Config

abbrev Read := Except ConfigFault

/-! ## Values -/

def readString : Toml.Value → Read String
  | .string text => .ok text
  | _ => .error .malformed

def readBool : Toml.Value → Read Bool
  | .boolean value => .ok value
  | _ => .error .malformed

/-- Numbers of registers have eight bits. -/
def readByte : Toml.Value → Read Nat
  | .integer value => if 0 ≤ value ∧ value < 256 then .ok value.toNat else .error .malformed
  | _ => .error .malformed

/-- Addresses are integers or text. -/
def readAddress : Toml.Value → Read UInt32
  | .integer value =>
    if 0 ≤ value ∧ value < UInt32.size then .ok (UInt32.ofNat value.toNat)
    else .error (.addressOutOfRange value)
  | .string text =>
    match parseAddress text with
    | some address => .ok address
    | none => .error (.invalidAddress text)
  | _ => .error .malformed

def readItems : Toml.Value → Read (List Toml.Value)
  | .array items => .ok items
  | .tables items => .ok (items.map (.table .header))
  | _ => .error .malformed

def readList (read : Toml.Value → Read α) (value : Toml.Value) : Read (List α) := do
  (← readItems value).mapM read

def mayBeAddress : Toml.Value → Bool
  | .integer _ | .string _ => true
  | _ => false

/-- All items must be integers or text before any of them is taken as an address. -/
def readAddresses (value : Toml.Value) : Read (List UInt32) := do
  let items ← readItems value
  if items.all mayBeAddress then items.mapM readAddress else .error .malformed

/-- The entries of a table, or the items of an array in the order of the field names. A date stands
for a record that leaves out every field. -/
def readFields (names : List String) : Toml.Value → Read Toml.Entries
  | .table _ entries => .ok entries
  | .array items => .ok (names.zip items)
  | .tables items => .ok (names.zip (items.map (.table .header)))
  | .datetime => .ok []
  | .string _ | .integer _ | .boolean _ | .float => .error .malformed

def required : Option α → Read α
  | some value => .ok value
  | none => .error .malformed

/-! ## Records -/

def setFunctionField (entry : FunctionOverride) (field : String × Toml.Value) :
    Read FunctionOverride := do
  match field.1 with
  | "size" => return { entry with size := some (← readAddress field.2) }
  | "end" => return { entry with stop := some (← readAddress field.2) }
  | "name" => return { entry with name := some (← readString field.2) }
  | "parent" => return { entry with parent := some (← readAddress field.2) }
  | _ => return entry

/-- What is declared under a key. The key itself is looked at later. -/
def readFunction (pair : String × Toml.Value) : Read FunctionOverride := do
  let fields ← readFields ["size", "end", "name", "parent"] pair.2
  fields.foldlM setFunctionField { address := 0, key := pair.1 }

def locateFunction (entry : FunctionOverride) : Read FunctionOverride :=
  match parseAddress entry.key with
  | some address => .ok { entry with address }
  | none => .error (.invalidFunctionKey entry.key)

/-- Functions are ordered by address, and those of one address by key. -/
def readFunctions : Toml.Value → Read (List FunctionOverride)
  | .table _ entries => do
    let functions ← entries.mapM readFunction
    let located ← (functions.mergeSort fun a b => a.key ≤ b.key).mapM locateFunction
    return located.mergeSort fun a b => a.address ≤ b.address
  | _ => .error .malformed

/-- A data pattern while its fields are read: the word may still be missing. -/
def setPatternField (draft : Option UInt32 × UInt32) (field : String × Toml.Value) :
    Read (Option UInt32 × UInt32) := do
  match field.1 with
  | "data" => return (some (← readAddress field.2), draft.2)
  | "size" => return (draft.1, ← readAddress field.2)
  | _ => return draft

def readPattern (value : Toml.Value) : Read DataPattern := do
  let fields ← readFields ["data", "size"] value
  let (word, size) ← fields.foldlM setPatternField (none, 4)
  return { word := ← required word, size }

def setSwitchField (draft : Option UInt32 × SwitchTable) (field : String × Toml.Value) :
    Read (Option UInt32 × SwitchTable) := do
  match field.1 with
  | "address" => return (some (← readAddress field.2), draft.2)
  | "register" => return (draft.1, { draft.2 with register := ← readByte field.2 })
  | "labels" => return (draft.1, { draft.2 with labels := ← readAddresses field.2 })
  | _ => return draft

def readSwitchTable (value : Toml.Value) : Read SwitchTable := do
  let fields ← readFields ["address", "register", "labels"] value
  let (address, table) ← fields.foldlM setSwitchField (none, { address := 0 })
  return { table with address := ← required address }

def setHookField (draft : (Option UInt32 × Option String) × Hook) (field : String × Toml.Value) :
    Read ((Option UInt32 × Option String) × Hook) := do
  let ((address, name), hook) := draft
  match field.1 with
  | "address" => return ((some (← readAddress field.2), name), hook)
  | "name" => return ((address, some (← readString field.2)), hook)
  | "registers" =>
    return ((address, name), { hook with registers := ← readList readString field.2 })
  | "return" => return ((address, name), { hook with returns := ← readBool field.2 })
  | "return_on_true" => return ((address, name), { hook with returnsOnTrue := ← readBool field.2 })
  | "return_on_false" =>
    return ((address, name), { hook with returnsOnFalse := ← readBool field.2 })
  | "jump_address" => return ((address, name), { hook with jump := some (← readAddress field.2) })
  | "jump_address_on_true" =>
    return ((address, name), { hook with jumpOnTrue := some (← readAddress field.2) })
  | "jump_address_on_false" =>
    return ((address, name), { hook with jumpOnFalse := some (← readAddress field.2) })
  | "after_instruction" =>
    return ((address, name), { hook with afterInstruction := ← readBool field.2 })
  | _ => return draft

def readHook (value : Toml.Value) : Read Hook := do
  let names := ["address", "name", "registers", "return", "return_on_true", "return_on_false",
    "jump_address", "jump_address_on_true", "jump_address_on_false", "after_instruction"]
  let fields ← readFields names value
  let start : Hook := { address := 0, name := "" }
  let ((address, name), hook) ← fields.foldlM setHookField ((none, none), start)
  return { hook with address := ← required address, name := ← required name }

def setAnalysisField (options : AnalysisOptions) (field : String × Toml.Value) :
    Read AnalysisOptions := do
  match field.1 with
  | "max_jump_extension" => return { options with maxJumpExtension := ← readAddress field.2 }
  | "data_region_threshold" => return { options with dataRegionThreshold := ← readAddress field.2 }
  | "large_function_threshold" =>
    return { options with largeFunctionThreshold := ← readAddress field.2 }
  | "exception_handler_funcs" =>
    return { options with exceptionHandlers := ← readAddresses field.2 }
  | _ => return options

def readAnalysis (value : Toml.Value) : Read AnalysisOptions := do
  let names := ["max_jump_extension", "data_region_threshold", "large_function_threshold",
    "exception_handler_funcs"]
  (← readFields names value).foldlM setAnalysisField {}

def setLocal (config : Config) (set : LocalPolicy → Bool → LocalPolicy) (value : Toml.Value) :
    Read Config := do
  return { config with locals := set config.locals (← readBool value) }

/-! ## The configuration -/

def setField (config : Config) (field : String × Toml.Value) : Read Config := do
  match field.1 with
  | "project_name" => return { config with projectName := ← readString field.2 }
  | "file_path" => return { config with filePath := some (← readString field.2) }
  | "out_directory_path" => return { config with outDirectory := some (← readString field.2) }
  | "skip_lr" => return { config with skipLr := ← readBool field.2 }
  | "skip_msr" => return { config with skipMsr := ← readBool field.2 }
  | "ctr_as_local" => config.setLocal (fun policy on => { policy with ctr := on }) field.2
  | "xer_as_local" => config.setLocal (fun policy on => { policy with xer := on }) field.2
  | "reserved_as_local" => config.setLocal (fun policy on => { policy with reserved := on }) field.2
  | "cr_as_local" => config.setLocal (fun policy on => { policy with cr := on }) field.2
  | "non_argument_as_local" =>
    config.setLocal (fun policy on => { policy with nonArgument := on }) field.2
  | "non_volatile_as_local" =>
    config.setLocal (fun policy on => { policy with nonVolatile := on }) field.2
  | "longjmp_address" => return { config with longjmp := some (← readAddress field.2) }
  | "setjmp_address" => return { config with setjmp := some (← readAddress field.2) }
  | "functions" => return { config with functions := ← readFunctions field.2 }
  | "invalid_instructions" => return { config with dataPatterns := ← readList readPattern field.2 }
  | "indirect_calls" => return { config with indirectCalls := ← readAddresses field.2 }
  | "switch_tables" => return { config with switchTables := ← readList readSwitchTable field.2 }
  | "midasm_hook" => return { config with hooks := ← readList readHook field.2 }
  | "analysis" => return { config with analysis := ← readAnalysis field.2 }
  | _ => return config

def ofEntries (entries : Toml.Entries) : Read Config :=
  entries.foldlM setField {}

/-- Reads the text of a document. -/
def parse (text : String) : Read Config :=
  match Toml.parse? text with
  | some entries => ofEntries entries
  | none => .error .malformed

end Config

end PowerLift
