import PowerLift.Project.Path

/-!
A tree of directories and files, with the operations on it and the ways in which they fail.
-/

namespace PowerLift

inductive FileFault where
  | notFound
  | alreadyExists
  | notDirectory
  | isDirectory
  | nameTooLong
  | zeroByte
  | notUtf8
deriving DecidableEq

namespace FileFault

def text : FileFault → String
  | notFound => "No such file or directory (os error 2)"
  | alreadyExists => "File exists (os error 17)"
  | notDirectory => "Not a directory (os error 20)"
  | isDirectory => "Is a directory (os error 21)"
  | nameTooLong => "File name too long (os error 36)"
  | zeroByte => "file name contained an unexpected NUL byte"
  | notUtf8 => "stream did not contain valid UTF-8"

end FileFault

/-- What a name in the tree stands for. -/
inductive FileNode where
  | directory
  | file (contents : ByteArray)

/-- The nodes of the tree under the names that lead to them. -/
structure FileTree where
  nodes : List (List String × FileNode) := []

namespace FileTree

/-- The node under the given names. No names lead to the top directory. -/
def node? (tree : FileTree) (names : List String) : Option FileNode :=
  if names.isEmpty then some .directory
  else (tree.nodes.find? fun entry => entry.1 == names).map (·.2)

def insert (tree : FileTree) (names : List String) (node : FileNode) : FileTree :=
  { nodes := (names, node) :: tree.nodes.filter fun entry => entry.1 != names }

/-- The longest name, in bytes. -/
def maxNameLength : Nat := 255

/-- The longest path, in bytes. -/
def maxPathLength : Nat := 4095

/-- The names to which the parts of a path lead from a directory. All but the last have to exist. -/
def follow (tree : FileTree) : List String → List String → Except FileFault (List String)
  | names, [] => .ok names
  | names, part :: rest =>
    if part = "" || part = "." then tree.follow names rest
    else if part = ".." then tree.follow names.dropLast rest
    else if part.utf8ByteSize > maxNameLength then .error .nameTooLong
    else if rest.isEmpty then .ok (names ++ [part])
    else
      match tree.node? (names ++ [part]) with
      | none => .error .notFound
      | some (.file _) => .error .notDirectory
      | some .directory => tree.follow (names ++ [part]) rest

/-- The names to which a path leads from the top directory. The path as a whole is looked at before
any of its parts. -/
def resolve (tree : FileTree) (path : Path) : Except FileFault (List String) :=
  if path.text.contains '\x00' then .error .zeroByte
  else if path.text.utf8ByteSize > maxPathLength then .error .nameTooLong
  else tree.follow [] path.parts

def isDirectory (tree : FileTree) (path : Path) : Bool :=
  match tree.resolve path with
  | .ok names =>
    match tree.node? names with
    | some .directory => true
    | _ => false
  | .error _ => false

/-- Makes one directory. Slashes at the end of its path count for nothing. -/
def create (tree : FileTree) (path : Path) : Except FileFault FileTree := do
  let names ← tree.resolve { parts := path.withoutSlashes }
  match tree.node? names with
  | some _ => throw .alreadyExists
  | none => return tree.insert names .directory

/-- Makes one directory if it is not there. -/
def ensure (tree : FileTree) (path : Path) : Except FileFault FileTree :=
  match tree.create path with
  | .ok created => .ok created
  | .error fault => if tree.isDirectory path then .ok tree else .error fault

/-- Makes a directory together with as many of those above it as the fuel allows. -/
def createAbove (tree : FileTree) : Nat → Path → Except FileFault FileTree
  | 0, path => tree.ensure path
  | fuel + 1, path =>
    if path.parts.isEmpty then .ok tree
    else
      match tree.ensure path with
      | .error .notFound => do (← tree.createAbove fuel path.parent).ensure path
      | outcome => outcome

/-- Makes a directory together with those above it. -/
def createAll (tree : FileTree) (path : Path) : Except FileFault FileTree :=
  tree.createAbove path.parts.length path

def read (tree : FileTree) (path : Path) : Except FileFault ByteArray := do
  match tree.node? (← tree.resolve path) with
  | none => throw .notFound
  | some .directory => throw .isDirectory
  | some (.file contents) => return contents

def write (tree : FileTree) (path : Path) (contents : ByteArray) : Except FileFault FileTree := do
  let names ← tree.resolve path
  match tree.node? names with
  | some .directory => throw .isDirectory
  | _ => return tree.insert names (.file contents)

/-- Makes a file together with the directories above it. -/
def place (tree : FileTree) (path : Path) (contents : ByteArray) : Except FileFault FileTree := do
  (← tree.createAll path.parent).write path contents

/-- All files by their paths. -/
def files (tree : FileTree) : List (String × ByteArray) :=
  let found := tree.nodes.filterMap fun (names, node) =>
    match node with
    | .directory => none
    | .file contents => some ("/".intercalate names, contents)
  found.mergeSort fun a b => !(b.1 < a.1)

end FileTree

end PowerLift
