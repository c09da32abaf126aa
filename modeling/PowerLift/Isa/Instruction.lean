import PowerLift.Isa.Descriptor

/-!
Decoded instructions. Decoding is total: a word that encodes nothing gives the operation
`unknown`. Operands are not stored; they are read off the word when asked for.
-/

namespace PowerLift

structure Instruction where
  address : UInt32
  raw : UInt32
  opcode : Opcode
  format : Format
  group : Group
  /-- Where a direct branch goes. -/
  target : Option UInt32
deriving DecidableEq, Inhabited

namespace Instruction

/-! Operands that share bits have a name per role. -/

def rd (insn : Instruction) : Nat := Field.rd.read insn.raw
def rs (insn : Instruction) : Nat := insn.rd
def bo (insn : Instruction) : Nat := insn.rd
def trapCondition (insn : Instruction) : Nat := insn.rd
def ra (insn : Instruction) : Nat := Field.ra.read insn.raw
def bi (insn : Instruction) : Nat := insn.ra
def rb (insn : Instruction) : Nat := Field.rb.read insn.raw
def sh (insn : Instruction) : Nat := insn.rb
def rc (insn : Instruction) : Nat := Field.rc.read insn.raw
def mb (insn : Instruction) : Nat := insn.rc
def me (insn : Instruction) : Nat := Field.me.read insn.raw
def sh64 (insn : Instruction) : Nat := Field.sh64.read insn.raw
def mb64 (insn : Instruction) : Nat := Field.mb64.read insn.raw
def crfd (insn : Instruction) : Nat := Field.crfd.read insn.raw
def crfs (insn : Instruction) : Nat := Field.crfs.read insn.raw
def crm (insn : Instruction) : Nat := Field.crm.read insn.raw
def fm (insn : Instruction) : Nat := Field.fm.read insn.raw
def spr (insn : Instruction) : Nat := Field.spr.read insn.raw
def fpscrImmediate (insn : Instruction) : Nat := Field.fpscrImmediate.read insn.raw

/-- The 16-bit immediate, unsigned and signed. -/
def uimm (insn : Instruction) : Nat := Field.immediate.read insn.raw
def simm (insn : Instruction) : Int := signExtend insn.uimm 16

/-- The displacement whose last two bits hold the extended opcode. -/
def ds (insn : Instruction) : Int := signExtend (Field.displacement.read insn.raw) 16

/-- Immediates of the vector formats. -/
def vsh (insn : Instruction) : Nat := Field.vectorShift.read insn.raw
def vuimm (insn : Instruction) : Nat := insn.ra
def vsimm (insn : Instruction) : Int := signExtend insn.ra 5

/-- Registers and immediates of the 128-register vector formats. -/
def vd128 (insn : Instruction) : Nat := Field.vd128.read insn.raw
def va128 (insn : Instruction) : Nat := Field.va128.read insn.raw
def vb128 (insn : Instruction) : Nat := Field.vb128.read insn.raw
def vc128 (insn : Instruction) : Nat := Field.vc128.read insn.raw
def vimm128 (insn : Instruction) : Nat := insn.ra
def vsh128 (insn : Instruction) : Nat := insn.vsh
def vz128 (insn : Instruction) : Nat := Field.vz128.read insn.raw
def vperm128 (insn : Instruction) : Nat := Field.vperm128.read insn.raw

def primary (insn : Instruction) : Nat := Field.primary.read insn.raw

/-! Single bits. -/

def recordBit (insn : Instruction) : Bool := bit insn.raw 0
def lk (insn : Instruction) : Bool := bit insn.raw 0
def aa (insn : Instruction) : Bool := bit insn.raw 1
def oe (insn : Instruction) : Bool := bit insn.raw 10
def wideCompare (insn : Instruction) : Bool := bit insn.raw 21

/-- The record bit of the vector comparisons. -/
def vectorRecordBit (insn : Instruction) : Bool :=
  match insn.format with
  | .vxr => bit insn.raw 10
  | .vx128_r => bit insn.raw 6
  | _ => false

/-- Where a branch at `address` goes whose offset field, in words, has `width` bits: relative to the
branch, or, with the absolute bit, to zero and unsigned. -/
def displaced (address word : UInt32) (offset width : Nat) : UInt32 :=
  if bit word 1 then UInt32.ofNat (4 * offset)
  else address + UInt32.ofInt (4 * signExtend offset width)

def branchTarget (address word : UInt32) : Format → Option UInt32
  | .i => some (displaced address word (Field.longBranch.read word) 24)
  | .b => some (displaced address word (Field.shortBranch.read word) 14)
  | _ => none

/-! The condition of a branch: it may leave the counter alone or decrement it and ask for zero or
for not zero, and it may ignore the condition bit or ask for it to be set or clear. -/

def ignoresCounter (insn : Instruction) : Bool := bit insn.raw 23
def wantsZeroCounter (insn : Instruction) : Bool := bit insn.raw 22
def ignoresCondition (insn : Instruction) : Bool := bit insn.raw 25
def wantsSetBit (insn : Instruction) : Bool := bit insn.raw 24

def alwaysTaken (insn : Instruction) : Bool :=
  insn.ignoresCounter && insn.ignoresCondition

/-- The numbers of the special registers that code may name. -/
def sprXer : Nat := 1
def sprLr : Nat := 8
def sprCtr : Nat := 9
def sprVrsave : Nat := 256

/-- The special form that an instruction has by its operands, if it has one. -/
def simplifiedOpcode (insn : Instruction) : Opcode :=
  match insn.opcode with
  | .b => if insn.lk then .bl else .b
  | .bc => if insn.lk then .bcl else .bc
  | .bclr => if insn.alwaysTaken then (if insn.lk then .blrl else .blr) else .bclr
  | .bcctr => if insn.alwaysTaken then (if insn.lk then .bctrl else .bctr) else .bcctr
  | .ori => if bits insn.raw 0 26 == 0 then .nop else .ori
  | .addi => if insn.ra == 0 then .li else .addi
  | .addis => if insn.ra == 0 then .lis else .addis
  | .or => if insn.rs == insn.rb then .mr else .or
  | .mfspr => if insn.spr == sprLr then .mflr else if insn.spr == sprCtr then .mfctr else .mfspr
  | .mtspr => if insn.spr == sprLr then .mtlr else if insn.spr == sprCtr then .mtctr else .mtspr
  | opcode => opcode

/-- The instruction a word encodes, before its special form is singled out. -/
def decodeBase (address word : UInt32) : Instruction :=
  let descriptor := Descriptor.lookup word
  { address
    raw := word
    opcode := descriptor.opcode
    format := descriptor.format
    group := descriptor.group
    target := branchTarget address word descriptor.format }

def decode (address word : UInt32) : Instruction :=
  let base := decodeBase address word
  { base with opcode := base.simplifiedOpcode }

/-- The descriptor of the instruction's operation. -/
def descriptor (insn : Instruction) : Descriptor :=
  Descriptor.ofOpcode insn.opcode

def isUnknown (insn : Instruction) : Bool :=
  insn.opcode == .unknown

def isReturn (insn : Instruction) : Bool :=
  insn.opcode == .blr

/-- Branches that leave a return address in the link register. -/
def isCall (insn : Instruction) : Bool :=
  match insn.opcode with
  | .bl | .bcl | .blrl | .bctrl => true
  | .bclr | .bcctr => insn.lk
  | _ => false

def isBranch (insn : Instruction) : Bool :=
  insn.group == .branch

def isConditional (insn : Instruction) : Bool :=
  match insn.opcode with
  | .bc | .bcl | .bclr | .bcctr => !insn.alwaysTaken
  | _ => false

/-- Traps that every outcome of their comparison springs. -/
def isUnconditionalTrap (insn : Instruction) : Bool :=
  insn.group == .trap && insn.trapCondition == 31

/-- Whether the word asks for its result to be recorded in a condition field. -/
def records (insn : Instruction) : Bool :=
  insn.format.hasRecordBit && insn.recordBit || insn.vectorRecordBit

end Instruction

/-- Words that are more likely data than code: fill patterns, and words that encode nothing. -/
def likelyData (word : UInt32) : Bool :=
  word == 0 || word == 0xFFFFFFFF || (Descriptor.lookup word).opcode == .unknown

end PowerLift
