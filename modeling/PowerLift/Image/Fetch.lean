import PowerLift.Error
import PowerLift.Image.Basic
import PowerLift.Isa.Instruction

/-!
Reading words that must exist, and the instructions that they encode.
-/

namespace PowerLift.Image

/-- The word at an address, or the error that there is none. -/
def fetch (image : Image) (address : UInt32) : Except Error UInt32 :=
  match image.read? address with
  | some word => .ok word
  | none => .error (.unmapped address)

/-- The instruction at an address, if the word there is mapped. -/
def instruction (image : Image) (address : UInt32) : Except Error Instruction := do
  return Instruction.decode address (← image.fetch address)

/-- The instructions of a number of words from an address on. Every word must be mapped. -/
def instructionRun (image : Image) : Nat → UInt32 → Except Error (List Instruction)
  | 0, _ => .ok []
  | count + 1, address => do
    let insn ← image.instruction address
    return insn :: (← image.instructionRun count (address + 4))

/-- The number of words that begin in a range. -/
def wordCount (start stop : UInt32) : Nat :=
  if start < stop then ((stop - start).toNat + 3) / 4 else 0

/-- All instructions of a range. -/
def instructions (image : Image) (start stop : UInt32) : Except Error (List Instruction) :=
  image.instructionRun (wordCount start stop) start

end PowerLift.Image
