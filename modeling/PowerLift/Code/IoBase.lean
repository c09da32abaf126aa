import PowerLift.Isa.Instruction

/-!
Registers that hold the address of a page of device registers. A load of a constant high half makes
one, and any other write ends it.
-/

namespace PowerLift

/-- The tracked registers, with the addresses that they hold. -/
abbrev IoBases := List (Nat × UInt32)

namespace IoBases

/-- The first page of device registers. -/
def firstPage : Nat := 0x7FC8

/-- The last page of device registers. -/
def lastPage : Nat := 0x7FFF

def base? (bases : IoBases) (register : Nat) : Option UInt32 :=
  bases.lookup register

/-- The page address that an instruction puts into a register. -/
def loaded? (insn : Instruction) (register : Nat) : Option UInt32 :=
  if insn.opcode = .lis ∧ insn.rd = register ∧ firstPage ≤ insn.uimm ∧ insn.uimm ≤ lastPage then
    some (UInt32.ofNat insn.uimm <<< 16)
  else none

/-- After an instruction wrote a register. There are 32 of them. -/
def write (bases : IoBases) (insn : Instruction) (register : Nat) : IoBases :=
  if register < 32 then
    let others := bases.filter (·.1 != register)
    match loaded? insn register with
    | some address => (register, address) :: others
    | none => others
  else bases

/-- Whether an access goes to a device: its base register holds the address of one, or the next
instruction orders accesses to devices. -/
def isDeviceAccess (bases : IoBases) (insn : Instruction) (next : Option Instruction) : Bool :=
  (insn.ra != 0 && (bases.base? insn.ra).isSome) ||
    match next with
    | some next => next.opcode == .eieio
    | none => false

end IoBases

end PowerLift
