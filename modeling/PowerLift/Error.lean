import PowerLift.Config.Reader
import PowerLift.Config.Report
import PowerLift.Image.Fault
import PowerLift.Word

/-!
Everything that can fail, with the text that says so and what to look at next.
-/

namespace PowerLift

inductive JumpTableFault where
  | misaligned (target : UInt32)
  | notExecutable (target : UInt32)
deriving DecidableEq

namespace JumpTableFault

def text : JumpTableFault → String
  | misaligned target => s!"target {addressText target} is not 4-byte aligned"
  | notExecutable target => s!"target {addressText target} is not executable"

end JumpTableFault

inductive Error where
  | container (fault : ContainerFault)
  | unmapped (address : UInt32)
  | config (fault : ConfigFault)
  | rejected (faults : List Fault)
  | unknownFunction (address : UInt32)
  | invalidJumpTable (address : UInt32) (fault : JumpTableFault)
deriving DecidableEq

namespace Error

/-- The message for the user. There is none where the contents of a file make no sense as such. -/
def message? : Error → Option String
  | container fault =>
    fault.text?.map fun text =>
      s!"Image parsing error: {text}\n" ++
        "Suggestion: Check that the executable is unpacked and not corrupted."
  | unmapped address =>
    let advice :=
      if aligned address then
        "Address lies outside every section. Check section bounds in the image."
      else "Address is not word aligned. Check the pointer being followed."
    some s!"Address {addressText address} is not mapped by any section\nSuggestion: {advice}"
  | config fault => fault.text?
  | rejected faults =>
    let lines := "\n".intercalate (faults.map Fault.message)
    some s!"Configuration rejected with {faults.length} error(s):\n{lines}"
  | unknownFunction address =>
    some (s!"No function at {addressText address}\n" ++
      "Suggestion: Call add_function before mutating the function.")
  | invalidJumpTable address fault =>
    some s!"Invalid jump table at {addressText address}: {fault.text}"

end Error

end PowerLift
