/-!
Paths of files, as they are written: nothing is resolved and nothing is dropped.
-/

namespace PowerLift

/-- A path by its parts. A first part that is empty makes it absolute, a last one stands for a
slash at the end. -/
structure Path where
  parts : List String
deriving DecidableEq

namespace Path

def ofText (text : String) : Path :=
  { parts := text.splitOn "/" }

def text (path : Path) : String :=
  "/".intercalate path.parts

def isAbsolute (path : Path) : Bool :=
  match path.parts with
  | first :: _ :: _ => first.isEmpty
  | _ => false

/-- The parts without an empty one at the end. -/
def withoutSlash (path : Path) : List String :=
  if path.parts.getLast? = some "" then path.parts.dropLast else path.parts

/-- The parts without any empty ones at the end. -/
def withoutSlashes (path : Path) : List String :=
  (path.parts.reverse.dropWhile (·.isEmpty)).reverse

/-- The second path as seen from the first. -/
def join (base path : Path) : Path :=
  if path.isAbsolute then path else { parts := base.withoutSlash ++ path.parts }

/-- Parts without those at the end that stay where they are. -/
def trim (parts : List String) : List String :=
  (parts.reverse.dropWhile fun part => part = "" || part = ".").reverse

/-- The directory that the path is in. -/
def parent (path : Path) : Path :=
  { parts := trim (trim path.parts).dropLast }

end Path

end PowerLift
