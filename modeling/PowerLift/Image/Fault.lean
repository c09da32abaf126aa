import PowerLift.Word

/-!
What can be wrong with an executable file.
-/

namespace PowerLift

inductive ContainerFault where
  | tooSmall (size : Nat)
  | slotBeyondFile (slot : Nat) (offset size : UInt32)
  /-- The headers and tables of an ELF file do not fit together. -/
  | malformedElf
  | elfSectionBeyondFile (address offset size : Nat)
deriving DecidableEq

/-- The size of the header of a DOL file. -/
def dolHeaderSize : Nat := 0x100

/-- The first slots of a DOL file hold code, the others data. -/
def dolTextSlots : Nat := 7

namespace ContainerFault

/-- What is wrong. Nothing more is said about malformed ELF tables. -/
def text? : ContainerFault → Option String
  | tooSmall size => some s!"DOL file too small: {size} bytes (minimum {dolHeaderSize} bytes)"
  | slotBeyondFile slot offset size =>
    let kind := if slot < dolTextSlots then "Text" else "Data"
    some (s!"{kind} section {slot} extends beyond file: " ++
      s!"offset 0x{hex offset.toNat}, size 0x{hex size.toNat}")
  | malformedElf => none
  | elfSectionBeyondFile address offset size =>
    some (s!"ELF section at 0x{hex address} extends beyond file " ++
      s!"(offset 0x{hex offset}, size 0x{hex size})")

end ContainerFault

end PowerLift
