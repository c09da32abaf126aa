import PowerLift.Word

/-!
Instruction formats: which bits of a word hold which operand, and where the extended opcode of a
format lies. A field may be cut into slices; each slice says where it stands in the word and where
its bits go in the field's value, so one description serves reading and writing.
-/

namespace PowerLift

/-- `width` bits that stand at bit `low` of a word and at bit `place` of a field's value. -/
structure Slice where
  low : Nat
  width : Nat
  place : Nat
deriving DecidableEq

abbrev Field := List Slice

namespace Field

/-- The value of a field in a word. -/
def read (field : Field) (word : UInt32) : Nat :=
  field.foldr (fun slice rest => bits word slice.low slice.width <<< slice.place + rest) 0

/-- The bits that a field with the given value contributes to a word. -/
def write (field : Field) (value : Nat) : Nat :=
  field.foldr (fun slice rest =>
    (value >>> slice.place % (1 <<< slice.width)) <<< slice.low + rest) 0

def primary : Field := [⟨26, 6, 0⟩]

/-! Operand fields. The first one names the destination of most formats, the source of stores and
logical operations, the trap condition and the branch condition. -/

def rd : Field := [⟨21, 5, 0⟩]
def ra : Field := [⟨16, 5, 0⟩]
def rb : Field := [⟨11, 5, 0⟩]
def rc : Field := [⟨6, 5, 0⟩]
def crfd : Field := [⟨23, 3, 0⟩]
def crfs : Field := [⟨18, 3, 0⟩]
def immediate : Field := [⟨0, 16, 0⟩]
def displacement : Field := [⟨2, 14, 2⟩]
def me : Field := [⟨1, 5, 0⟩]
def sh64 : Field := [⟨11, 5, 0⟩, ⟨1, 1, 5⟩]
def mb64 : Field := [⟨6, 5, 0⟩, ⟨5, 1, 5⟩]
def spr : Field := [⟨16, 5, 0⟩, ⟨11, 5, 5⟩]
def crm : Field := [⟨12, 8, 0⟩]
def fm : Field := [⟨17, 8, 0⟩]
def fpscrImmediate : Field := [⟨12, 4, 0⟩]
def longBranch : Field := [⟨2, 24, 0⟩]
def shortBranch : Field := [⟨2, 14, 0⟩]
def vectorShift : Field := [⟨6, 4, 0⟩]
def vd128 : Field := [⟨21, 5, 0⟩, ⟨2, 2, 5⟩]
def va128 : Field := [⟨16, 5, 0⟩, ⟨5, 1, 5⟩, ⟨10, 1, 6⟩]
def vb128 : Field := [⟨11, 5, 0⟩, ⟨0, 2, 5⟩]
def vc128 : Field := [⟨6, 3, 0⟩]
def vz128 : Field := [⟨6, 2, 0⟩]
def vperm128 : Field := [⟨16, 5, 0⟩, ⟨6, 3, 5⟩]

end Field

inductive Format where
  | i | b | sc | d | ds | x | xl | xfx | xfl | xs | xo | a | m | md | mds
  | va | vx | vxr
  | vx128 | vx128_1 | vx128_2 | vx128_3 | vx128_4 | vx128_5 | vx128_p | vx128_r
  | unknown
deriving DecidableEq, Inhabited

namespace Format

/-- Where the extended opcode of a format lies. The vector formats with 7-bit register numbers
leave gaps in theirs, and the value keeps the gaps. -/
def extended? : Format → Option Field
  | .x | .xl | .xfx | .xfl => some [⟨1, 10, 0⟩]
  | .xo => some [⟨1, 9, 0⟩]
  | .xs => some [⟨2, 9, 0⟩]
  | .a => some [⟨1, 5, 0⟩]
  | .ds => some [⟨0, 2, 0⟩]
  | .md => some [⟨2, 3, 0⟩]
  | .mds => some [⟨1, 4, 0⟩]
  | .vx => some [⟨0, 11, 0⟩]
  | .vxr => some [⟨0, 10, 0⟩]
  | .va => some [⟨0, 6, 0⟩]
  | .vx128 => some [⟨4, 1, 4⟩, ⟨6, 4, 6⟩]
  | .vx128_1 => some [⟨0, 2, 0⟩, ⟨4, 7, 4⟩]
  | .vx128_2 => some [⟨4, 1, 4⟩, ⟨9, 1, 9⟩]
  | .vx128_3 => some [⟨4, 7, 4⟩]
  | .vx128_4 => some [⟨4, 2, 4⟩, ⟨8, 3, 8⟩]
  | .vx128_5 => some [⟨4, 1, 4⟩]
  | .vx128_p => some [⟨4, 2, 4⟩, ⟨9, 2, 9⟩]
  | .vx128_r => some [⟨4, 1, 4⟩, ⟨7, 3, 7⟩]
  | .i | .b | .sc | .d | .m | .unknown => none

/-- Formats whose last bit asks for the result to be recorded in a condition field. -/
def hasRecordBit : Format → Bool
  | .x | .xo | .xs | .a | .m | .md | .mds | .xfl => true
  | _ => false

end Format

/-- What an operation works on, which decides how it is lifted. -/
inductive Group where
  | branch | system | trap | conditionRegister | specialRegister
  | intArithmetic | intLogical | intCompare | intRotate | intShift | intLoad | intStore
  | cache
  | floatLoad | floatStore | floatArithmetic | floatMove | floatCompare | floatControl
  | vectorLoad | vectorStore | vectorInteger | vectorFloat | vectorPermute | vectorControl
  | unknown
deriving DecidableEq, Inhabited

end PowerLift
