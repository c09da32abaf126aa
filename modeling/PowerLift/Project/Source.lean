import PowerLift.Emit.Function

/-!
Source files of a project: the functions in files of limited size, and the table that finds a
function by its address.
-/

namespace PowerLift

/-- A function as it stands in a source file. -/
structure SourceFunction where
  address : UInt32
  name : String
  code : String
deriving DecidableEq

def EmittedFunction.toSource (function : EmittedFunction) : SourceFunction :=
  { address := function.address, name := function.name, code := function.code }

namespace SourceFunction

/-- The size of the code in bytes. -/
def size (function : SourceFunction) : Nat :=
  function.code.utf8ByteSize

end SourceFunction

namespace Source

/-- The first lines of every file. -/
def header : String :=
  "// Generated by xrecomp. Do not edit.\n" ++
  "#![allow(non_snake_case, unused_mut, unused_variables, unused_assignments, " ++
  "unreachable_code)]\n" ++
  "use super::*;\n\n"

/-- The size in bytes that a file keeps to if it has more than one function. -/
def limit : Nat := 256 * 1024

/-! ## Files of functions -/

/-- Divides the functions that follow a file of the given size: those that still belong to it, and
those of each further file. -/
def splitAfter : Nat → List SourceFunction →
    List SourceFunction × List (List SourceFunction)
  | _, [] => ([], [])
  | used, function :: rest =>
    if limit < used + function.size then
      let (own, further) := splitAfter (header.utf8ByteSize + function.size + 1) rest
      ([], (function :: own) :: further)
    else
      let (own, further) := splitAfter (used + function.size + 1) rest
      (function :: own, further)

/-- The functions of each file. A file is closed when the next function does not fit. -/
def groups : List SourceFunction → List (List SourceFunction)
  | [] => []
  | function :: rest =>
    let (own, further) := splitAfter (header.utf8ByteSize + function.size + 1) rest
    (function :: own) :: further

/-- The text of a file with the given functions. -/
def fileText (functions : List SourceFunction) : String :=
  functions.foldl (fun text function => text ++ function.code ++ "\n") header

/-- The texts of the files that hold the functions, in order. -/
def split (functions : List SourceFunction) : List String :=
  (groups functions).map fileText

/-! ## The table of functions -/

/-- Addresses and names, by address. -/
def entries (functions : List SourceFunction) : List (UInt32 × String) :=
  (functions.map fun function => (function.address, function.name)).mergeSort
    fun a b => a.1 ≤ b.1

def entryLine (entry : UInt32 × String) : String :=
  s!"    ({addressText entry.1}, {entry.2}),\n"

/-- The look-up in the table, by binary search. -/
def lookupText : String :=
  "/// Recompiled function at `address`.\n" ++
  "pub fn lookup_function(address: u32) -> Option<PpcFunction> \x7b\n" ++
  "    PPC_FUNCTION_MAPPINGS\n" ++
  "        .binary_search_by_key(&address, |(entry, _)| *entry)\n" ++
  "        .ok()\n" ++
  "        .map(|index| PPC_FUNCTION_MAPPINGS[index].1)\n" ++
  "\x7d\n"

/-- The text of the file with the table of all functions. -/
def mapping (functions : List SourceFunction) : String :=
  header ++ "pub static PPC_FUNCTION_MAPPINGS: &[(u32, PpcFunction)] = &[\n" ++
    String.join ((entries functions).map entryLine) ++ "];\n\n" ++ lookupText

end Source

end PowerLift
