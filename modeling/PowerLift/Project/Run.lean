import PowerLift.Image.File
import PowerLift.Project.Failure
import PowerLift.Project.Source
import PowerLift.Text.Utf8

/-!
Runs over a project: from its configuration and its image to the source files. A run goes through
stages. Each works on what the stages before it have left, and what a stage has done stays when a
later one fails.
-/

namespace PowerLift

/-- Counts of what a run has come across. -/
structure Statistics where
  totalFunctions : Nat := 0
  emittedFunctions : Nat := 0
  partialFunctions : Nat := 0
  unimplementedInstructions : Nat := 0
  vtables : Nat := 0
  configWarnings : Nat := 0
deriving DecidableEq

/-- A run with all that its stages have made so far. -/
structure Run where
  config : Config
  files : FileTree
  image : Option Image := none
  vtables : List VTable := []
  graph : Option Graph := none
  functions : List EmittedFunction := []
  statistics : Statistics := {}

/-- A part of a run, which may fail half-way. -/
abbrev Stage := ExceptT Failure (StateM Run)

namespace Stage

/-- The result of a stage and the run after it. -/
def runOn (stage : Stage α) (start : Run) : Except Failure α × Run :=
  StateT.run (ExceptT.run stage) start

def image : Stage Image := do
  match (← get).image with
  | some image => return image
  | none => throw .noImage

def graph : Stage Graph := do
  match (← get).graph with
  | some graph => return graph
  | none => throw .noGraph

/-- Reads the image from a file. -/
def loadImage (path : Path) : Stage Unit := do
  match (← get).files.read path with
  | .error fault => throw (.readImage path fault)
  | .ok contents =>
    match Image.parse contents.data with
    | .error fault => throw (.parseImage path fault)
    | .ok image => modify fun run => { run with image := some image }

/-- Checks the configuration. One with errors is used only by force. -/
def validate (force : Bool) : Stage Unit := do
  let report := (← get).config.validate
  modify fun run =>
    { run with statistics.configWarnings := report.warnings.length }
  if !report.valid && !force then
    throw (.invalidConfig report.errors)

def scanVTables : Stage Unit := do
  match VTable.scanImage? (← image) with
  | .error cursor => throw (.noCursor cursor)
  | .ok vtables => modify fun run => { run with vtables, statistics.vtables := vtables.length }

def discover : Stage Unit := do
  let image ← image
  let run ← get
  match ({ image, config := run.config } : Program).discover? run.vtables with
  | .error use => throw (.noMark use)
  | .ok graph => set { run with graph := some graph, statistics.totalFunctions := graph.count }

def emit : Stage Unit := do
  let image ← image
  let graph ← graph
  let run ← get
  let functions := ({ image, config := run.config } : Program).emitAll graph
  let statistics :=
    { run.statistics with
      emittedFunctions := functions.length
      partialFunctions := functions.countP EmittedFunction.isPartial
      unimplementedInstructions := (functions.flatMap (·.unimplemented)).length }
  set { run with functions, statistics }

/-- Makes the directory for the source files. -/
def createDirectory (directory : Path) : Stage Unit := do
  match (← get).files.createAll directory with
  | .error fault => throw (.createDirectory directory fault)
  | .ok files => modify fun run => { run with files }

def writeFile (path : Path) (text : String) : Stage Path := do
  match (← get).files.write path text.toUTF8 with
  | .error fault => throw (.writeFile path fault)
  | .ok files =>
    modify fun run => { run with files }
    return path

/-- Writes the source files, numbered, and then the table of functions. -/
def write (directory : Path) : Stage (List Path) := do
  createDirectory directory
  let run ← get
  let project := run.config.projectName
  let functions := run.functions.map EmittedFunction.toSource
  let pathOf (name : String) : Path := directory.join (.ofText name)
  let sources ← (Source.split functions).zipIdx.mapM fun (text, index) =>
    writeFile (pathOf s!"{project}_recomp.{index}.rs") text
  let table ← writeFile (pathOf s!"{project}_mapping.rs") (Source.mapping functions)
  return sources ++ [table]

/-- All stages for an image that is there. -/
def recompile (directory : Path) (force : Bool) : Stage (List Path) := do
  validate force
  scanVTables
  discover
  emit
  write directory

end Stage

namespace Project

def readConfig (files : FileTree) (path : Path) : Except Failure Config := do
  let contents ← (files.read path).mapError (.readConfig path)
  match Text.ofUtf8? contents.data.toList with
  | none => throw (.readConfig path .notUtf8)
  | some document => (Config.parse document).mapError (.parseConfig path)

/-- The directory for the source files where the configuration names none. -/
def defaultDirectory : String := "out"

/-- The stages for the image that the configuration names. Paths in the configuration are seen from
the directory that it is in. -/
def stages (base : Path) (config : Config) (force : Bool) : Stage (List Path) := do
  match config.filePath with
  | none => throw .unnamedImage
  | some file =>
    Stage.loadImage (base.join (.ofText file))
    let directory := config.outDirectory.getD defaultDirectory
    Stage.recompile (base.join (.ofText directory)) force

/-- Runs all stages for the project of a configuration file. There is no run without a
configuration. The other part is the tree of files that is left in either case. -/
def run (files : FileTree) (path : Path) (force : Bool) : Except Failure Run × FileTree :=
  match readConfig files path with
  | .error failure => (.error failure, files)
  | .ok config =>
    match (stages path.parent config force).runOn { config, files } with
    | (.ok _, run) => (.ok run, run.files)
    | (.error failure, run) => (.error failure, run.files)

end Project

end PowerLift
