import PowerLift.Image.Section

/-!
Executable images: sections, the address where execution starts, and named functions.
-/

namespace PowerLift

/-- A named function. -/
structure Symbol where
  name : String
  address : UInt32
  size : UInt32
deriving DecidableEq, Inhabited

/-- What an image was read from. -/
inductive Container where
  /-- A file with a fixed header, which also reserves zeroed memory. -/
  | dol (bssAddress bssSize : UInt32)
  | elf
  /-- Sections supplied by a loader. -/
  | flat
deriving DecidableEq, Inhabited

structure Image where
  container : Container
  entry : UInt32
  sections : List Section
  symbols : List Symbol := []
deriving DecidableEq, Inhabited

namespace Image

/-- An image of one executable section, entered at its start. -/
def ofCode (address : UInt32) (code : Array UInt8) : Image :=
  { container := .flat
    entry := address
    sections := [{
      name := ".text"
      address
      size := UInt32.ofNat code.size
      data := code
      executable := true }] }

/-- The least address of a section. -/
def base (image : Image) : UInt32 :=
  ((image.sections.map (·.address)).min?).getD 0

/-- The distance from the least address to the greatest end of a section. -/
def size (image : Image) : UInt32 :=
  let stop := ((image.sections.map (·.stop)).max?).getD 0
  if stop ≤ image.base then 0 else stop - image.base

/-- The first section that contains an address. -/
def sectionAt? (image : Image) (address : UInt32) : Option Section :=
  image.sections.find? (·.contains address)

def isExecutable (image : Image) (address : UInt32) : Bool :=
  match image.sectionAt? address with
  | some sect => sect.executable
  | none => false

/-- The word at an address. -/
def read? (image : Image) (address : UInt32) : Option UInt32 := do
  let sect ← image.sectionAt? address
  sect.read? address

def executableSections (image : Image) : List Section :=
  image.sections.filter (·.executable)

def dataSections (image : Image) : List Section :=
  image.sections.filter (!·.executable)

end Image

end PowerLift
