import PowerLift.Image.Basic
import PowerLift.Text.Utf8

/-!
Virtual tables of C++ classes, recovered from the run-time type records in data sections. An object
locator is a record of five words with a zero signature and a pointer to a type descriptor. A
virtual table is preceded by a pointer to its locator, and its slots point to code.
-/

namespace PowerLift

structure VTable where
  /-- Of the first slot. -/
  address : UInt32
  locator : UInt32
  className : String
  slots : List UInt32
deriving DecidableEq, Inhabited

namespace VTable

def locatorSize : UInt32 := 20

/-- The offset of the name in a type descriptor. -/
def nameOffset : UInt32 := 8

/-- The longest name that is looked at, in bytes. -/
def maxNameLength : Nat := 512

/-- How the name of a class begins: `.?AV`. -/
def classMark : List UInt8 := [0x2E, 0x3F, 0x41, 0x56]

/-- How the name of a struct begins: `.?AU`. -/
def structMark : List UInt8 := [0x2E, 0x3F, 0x41, 0x55]

/-- The bytes before the first `@@`. -/
def beforeAts : List UInt8 → List UInt8
  | [] => []
  | 0x40 :: 0x40 :: _ => []
  | byte :: rest => byte :: beforeAts rest

/-- The name of a class without its decoration. -/
def demangle? (mangled : List UInt8) : Option String := do
  if classMark.isPrefixOf mangled || structMark.isPrefixOf mangled then
    let name ← Text.ofUtf8? (beforeAts (mangled.drop 4))
    if name.isEmpty then none else some name
  else none

/-- The class name in the type descriptor at an address. -/
def typeName? (image : Image) (descriptor : UInt32) : Option String := do
  let address ← checkedAdd descriptor nameOffset
  let sect ← image.sectionAt? address
  let tail := sect.data.extract (sect.offset address) (sect.offset address + maxNameLength)
  demangle? (tail.toList.takeWhile (· != 0))

/-- The class name of the object locator at an address, if there is one. -/
def locatorName? (image : Image) (sect : Section) (address : UInt32) : Option String := do
  if sect.read? address == some 0 then
    let descriptor ← sect.read? (address + 12)
    typeName? image descriptor
  else none

/-- Whether a whole locator fits between the cursor and the end of the section. -/
def fitsLocator (sect : Section) (cursor : UInt32) : Bool :=
  saturatingAdd cursor locatorSize ≤ sect.stop

/-- The locators from the cursor on, with their class names. -/
def locatorsFrom (image : Image) (sect : Section) : Nat → UInt32 → List (UInt32 × String)
  | 0, _ => []
  | fuel + 1, cursor =>
    if fitsLocator sect cursor then
      let rest := locatorsFrom image sect fuel (cursor + 4)
      match locatorName? image sect cursor with
      | some name => (cursor, name) :: rest
      | none => rest
    else []

/-- The locators of a section. None begins past the stored bytes, so these bound the search. -/
def locators (image : Image) (sect : Section) : List (UInt32 × String) :=
  locatorsFrom image sect (sect.data.size / 4 + 1) sect.address

/-- Slots point to aligned executable code. -/
def isSlot (image : Image) (value : UInt32) : Bool :=
  value != 0 && aligned value && image.isExecutable value

/-- The first address after a pointer to the locator where a slot stands. -/
def start? (image : Image) (sect : Section) (locator : UInt32) : Option UInt32 :=
  let starts := (sect.words.filter (·.2 == locator)).map (·.1 + 4)
  starts.find? fun start => ((sect.read? start).map (isSlot image)).getD false

/-- The slots from an address on, up to the first word that is none. Nothing follows the last
address. -/
def slotsFrom (image : Image) (sect : Section) : Nat → UInt32 → List UInt32
  | 0, _ => []
  | fuel + 1, address =>
    match sect.read? address with
    | some value =>
      if isSlot image value then
        match checkedAdd address 4 with
        | some next => value :: slotsFrom image sect fuel next
        | none => [value]
      else []
    | none => []

def slotsAt (image : Image) (sect : Section) (address : UInt32) : List UInt32 :=
  slotsFrom image sect (sect.data.size / 4 + 1) address

/-- The virtual table of a locator, if the section has one. -/
def ofLocator? (image : Image) (sect : Section) (locator : UInt32 × String) : Option VTable := do
  let address ← start? image sect locator.1
  let slots := slotsAt image sect address
  if slots.isEmpty then none
  else some { address, locator := locator.1, className := locator.2, slots }

def scan (image : Image) (sect : Section) : List VTable :=
  (locators image sect).filterMap (ofLocator? image sect)

/-- The virtual tables in all data sections. -/
def scanImage (image : Image) : List VTable :=
  image.dataSections.flatMap (scan image)

end VTable

end PowerLift
