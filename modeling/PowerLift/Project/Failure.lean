import PowerLift.Discovery.Marks
import PowerLift.Error
import PowerLift.Image.LocatorSearch
import PowerLift.Project.FileTree

/-!
What can end a run over a project, and why.
-/

namespace PowerLift

/-- Why a step of a run failed. -/
inductive Cause where
  | error (error : Error)
  | file (fault : FileFault)
deriving DecidableEq

inductive Failure where
  | readConfig (path : Path) (fault : FileFault)
  | parseConfig (path : Path) (fault : ConfigFault)
  | unnamedImage
  | readImage (path : Path) (fault : FileFault)
  | parseImage (path : Path) (fault : ContainerFault)
  | invalidConfig (faults : List Fault)
  | noImage
  | noGraph
  | noMark (use : MarkUse)
  /-- The search for locators cannot move on from its cursor. -/
  | noCursor (cursor : UInt32)
  | createDirectory (path : Path) (fault : FileFault)
  | writeFile (path : Path) (fault : FileFault)
deriving DecidableEq

namespace Failure

/-- What was not possible. -/
def message : Failure → String
  | readConfig path _ => s!"Failed to read config {path.text}"
  | parseConfig path _ => s!"Failed to parse config {path.text}"
  | unnamedImage => "Config does not name an input image (file_path)"
  | readImage path _ => s!"Failed to read image {path.text}"
  | parseImage path _ => s!"Failed to parse image {path.text}"
  | invalidConfig _ => "Configuration is invalid; fix the errors or run with force"
  | noImage => "No image loaded"
  | noGraph => "No function graph built"
  | noMark use =>
    s!"No marks {use.first} to {use.first + use.count - 1} in a table of {use.table.size}"
  | noCursor cursor => s!"No address four bytes after {addressText cursor}"
  | createDirectory path _ => s!"Failed to create output directory {path.text}"
  | writeFile path _ => s!"Failed to write {path.text}"

/-- What is behind it, if there is more to say. -/
def cause? : Failure → Option Cause
  | readConfig _ fault => some (.file fault)
  | parseConfig _ fault => some (.error (.config fault))
  | unnamedImage => none
  | readImage _ fault => some (.file fault)
  | parseImage _ fault => some (.error (.container fault))
  | invalidConfig faults => some (.error (.rejected faults))
  | noImage => none
  | noGraph => none
  | noMark _ => none
  | noCursor _ => none
  | createDirectory _ fault => some (.file fault)
  | writeFile _ fault => some (.file fault)

end Failure

end PowerLift
