import PowerLift.Isa.Mask
import PowerLift.Lift.Basic

/-!
Integer instructions. General registers hold doublewords; word operations act on the low word and
extend their result by sign where the machine does. Carries are set before the result is written,
since the destination may be an operand. Recording compares the low word of the result with zero.
-/

namespace PowerLift.Lift

/-- Compares a result with zero in the first condition field. -/
def record (result : Expr) : Action :=
  .perform (.send (.cr 0) (.compare .i32)
    [.cast result .i32, .decimal 0, .unary .borrow .xer])

/-- Actions with the recording of a result after them, if the instruction asks for it. -/
def recorded (insn : Instruction) (requests : List Register) (result : Expr)
    (actions : List Action) : Lifted :=
  .ofActions requests (if insn.records then actions ++ [record result] else actions)

/-! ## Arithmetic -/

/-- The immediate operand, extended by sign. -/
def immediate (insn : Instruction) : Expr :=
  .doubleword (UInt64.ofInt insn.simm)

/-- The immediate operand as the high half of a word, extended by sign. -/
def highImmediate (insn : Instruction) : Expr :=
  .doubleword (UInt64.ofInt (insn.simm * 0x10000))

/-- Addition with the carry in and out. -/
def addExtended (a b : Expr) : Expr :=
  .invoke .addExtended [.unary .borrowMut .xer, a, b]

/-- A value cast twice. -/
def castTwice (value : Expr) (first second : NumType) : Expr :=
  .cast (.cast value first) second

/-- The high half of a product of values that are cast to twice the width. -/
def productShifted (a b : Expr) (count : Nat) : Expr :=
  .binary .shr (.paren (.binary .mul (.paren a) (.paren b))) (.decimal count)

/-- A quotient that is zero if the divisor is. -/
def quotient (isZero value : Expr) : Expr :=
  .choice isZero (.decimal 0) value

/-- What an arithmetic instruction does, without recording. -/
def arithmeticActions (insn : Instruction) : Option (List Action) :=
  let rd := Expr.gpr insn.rd
  let ra := Expr.gpr insn.ra
  let rb := Expr.gpr insn.rb
  let imm := immediate insn
  let notA := Expr.unary .complement ra
  let set (value : Expr) : Option (List Action) := some [.assign rd value]
  match insn.opcode with
  | .li => set imm
  | .lis => set (highImmediate insn)
  | .addi => set (.send ra .wrappingAdd [imm])
  | .addis => set (.send ra .wrappingAdd [highImmediate insn])
  | .addic | .addicRc =>
    let sum := Expr.send (.paren (.cast ra .u32)) .overflowingAdd [.cast imm .u32]
    some [.assign .carry (.member sum .overflowed), .assign rd (.send ra .wrappingAdd [imm])]
  | .subfic =>
    some [
      .assign .carry (.binary .le (.paren (.cast ra .u32)) (.paren (.cast imm .u32))),
      .assign rd (.send imm .wrappingSub [ra])]
  | .mulli =>
    set (.cast (.send (.paren (.cast ra .i64)) .wrappingMul [.decimal insn.simm]) .u64)
  | .add => set (.send ra .wrappingAdd [rb])
  | .addc => set (.invoke .addCarrying [.unary .borrowMut .xer, ra, rb])
  | .adde => set (addExtended ra rb)
  | .addme => set (addExtended ra (.lit .allOnes))
  | .addze => set (addExtended ra (.decimal 0))
  | .subf => set (.send rb .wrappingSub [ra])
  | .subfc => some [.assign .carry (.lit (.boolean true)), .assign rd (addExtended notA rb)]
  | .subfe => set (addExtended notA rb)
  | .subfme => set (addExtended notA (.lit .allOnes))
  | .subfze => set (addExtended notA (.decimal 0))
  | .neg => set (.cast (.send (.paren (.cast ra .i64)) .wrappingNeg []) .u64)
  | .mullw =>
    set (.cast (.send (.paren (castTwice ra .i32 .i64)) .wrappingMul
      [castTwice rb .i32 .i64]) .u64)
  | .mulhw =>
    set (.cast (.paren (productShifted (castTwice ra .i32 .i64) (castTwice rb .i32 .i64) 32)) .u64)
  | .mulhwu => set (productShifted (castTwice ra .u32 .u64) (castTwice rb .u32 .u64) 32)
  | .mulld => set (.send ra .wrappingMul [rb])
  | .mulhd =>
    let product := productShifted (castTwice ra .i64 .i128) (castTwice rb .i64 .i128) 64
    set (.cast (.paren product) .u64)
  | .mulhdu => set (.cast (.paren (productShifted (.cast ra .u128) (.cast rb .u128) 64)) .u64)
  | .divw =>
    set (quotient (.binary .eq (.cast rb .i32) (.decimal 0))
      (castTwice (.send (.paren (.cast ra .i32)) .wrappingDiv [.cast rb .i32]) .u32 .u64))
  | .divwu =>
    let checked := Expr.send (.paren (.cast ra .u32)) .checkedDiv [.cast rb .u32]
    set (.cast (.send checked .unwrapOr [.decimal 0]) .u64)
  | .divd =>
    set (quotient (.binary .eq rb (.decimal 0))
      (.cast (.send (.paren (.cast ra .i64)) .wrappingDiv [.cast rb .i64]) .u64))
  | .divdu => set (.send (.send ra .checkedDiv [rb]) .unwrapOr [.decimal 0])
  | _ => none

/-- Forms that set the overflow bits have no code. -/
def arithmetic (insn : Instruction) : Lifted :=
  if insn.format = .xo ∧ insn.oe then .missing []
  else
    let requests := [.gpr insn.rd, .gpr insn.ra, .gpr insn.rb, .xer]
    let rd := Expr.gpr insn.rd
    match arithmeticActions insn with
    | some actions =>
      if insn.opcode = .addicRc then .ofActions requests (actions ++ [record rd])
      else recorded insn requests rd actions
    | none => .missing requests

/-! ## Logic -/

def logicalValue (insn : Instruction) : Option Expr :=
  let rs := Expr.gpr insn.rs
  let rb := Expr.gpr insn.rb
  let low := Expr.doubleword (UInt64.ofNat insn.uimm)
  let high := Expr.doubleword (UInt64.ofNat (insn.uimm <<< 16))
  let inverted (op : BinaryOp) : Expr := .unary .complement (.paren (.binary op rs rb))
  let extended (type : NumType) : Expr := .cast (castTwice rs type .i64) .u64
  match insn.opcode with
  | .ori => some (.binary .or rs low)
  | .oris => some (.binary .or rs high)
  | .xori => some (.binary .xor rs low)
  | .xoris => some (.binary .xor rs high)
  | .andiRc => some (.binary .and rs low)
  | .andisRc => some (.binary .and rs high)
  | .and => some (.binary .and rs rb)
  | .andc => some (.binary .and rs (.unary .complement rb))
  | .or => some (.binary .or rs rb)
  | .orc => some (.binary .or rs (.unary .complement rb))
  | .mr => some rs
  | .xor => some (.binary .xor rs rb)
  | .nand => some (inverted .and)
  | .nor => some (inverted .or)
  | .eqv => some (inverted .xor)
  | .extsb => some (extended .i8)
  | .extsh => some (extended .i16)
  | .extsw => some (extended .i32)
  | .cntlzw => some (.cast (.send (.paren (.cast rs .u32)) .leadingZeros []) .u64)
  | .cntlzd => some (.cast (.send rs .leadingZeros []) .u64)
  | _ => none

def logical (insn : Instruction) : Lifted :=
  if insn.opcode = .nop then {}
  else
    let requests := [.gpr insn.ra, .gpr insn.rs, .gpr insn.rb]
    let ra := Expr.gpr insn.ra
    match logicalValue insn with
    | some value =>
      if insn.opcode = .andiRc ∨ insn.opcode = .andisRc then
        .ofActions requests [.assign ra value, record ra]
      else recorded insn requests ra [.assign ra value]
    | none => .missing requests

/-! ## Comparisons -/

/-- The type in which an instruction compares, and its right operand. -/
def comparison (insn : Instruction) : Option (NumType × Expr) :=
  let rb := Expr.gpr insn.rb
  match insn.opcode, insn.wideCompare with
  | .cmp, false => some (.i32, .cast rb .i32)
  | .cmp, true => some (.i64, .cast rb .i64)
  | .cmpl, false => some (.u32, .cast rb .u32)
  | .cmpl, true => some (.u64, rb)
  | .cmpi, false => some (.i32, .decimal insn.simm)
  | .cmpi, true => some (.i64, .decimal insn.simm)
  | .cmpli, false => some (.u32, .hex insn.uimm)
  | .cmpli, true => some (.u64, .hex insn.uimm)
  | _, _ => none

def compare (insn : Instruction) : Lifted :=
  let requests := [.cr insn.crfd, .gpr insn.ra, .gpr insn.rb, .xer]
  let ra := Expr.gpr insn.ra
  match comparison insn with
  | some (type, right) =>
    let left := if type = .u64 then ra else .cast ra type
    .ofActions requests
      [.perform (.send (.cr insn.crfd) (.compare type) [left, right, .unary .borrow .xer])]
  | none => .missing requests

/-! ## Rotations -/

/-- The low word in both halves, which word rotations turn. -/
def doubledWord (value : Expr) : Expr :=
  .paren (.binary .or (.paren (.binary .and value (.lit .lowWord)))
    (.paren (.binary .shl value (.decimal 32))))

/-- A value turned to the left. -/
def rotated (value count : Expr) : Expr :=
  .send value .rotateLeft [count]

/-- The low bits of a register as a count. -/
def countIn (register : Expr) (mask : Nat) : Expr :=
  .cast (.paren (.binary .and register (.hex mask))) .u32

/-- A turned value under a mask. -/
def masked (value : Expr) (mask : UInt64) : Expr :=
  .binary .and value (.doubleword mask)

/-- A turned value under a mask, and the old value around it. -/
def inserted (value old : Expr) (mask : UInt64) : Expr :=
  .binary .or (.paren (masked value mask)) (.paren (masked old (~~~mask)))

def rotation (insn : Instruction) : Option Expr :=
  let ra := Expr.gpr insn.ra
  let rs := Expr.gpr insn.rs
  let rb := Expr.gpr insn.rb
  let wordMask := rotateMask64 (insn.mb + 32) (insn.me + 32)
  let wordTurned := rotated (doubledWord rs) (.decimal insn.sh)
  let turned := rotated rs (.decimal insn.sh64)
  match insn.opcode with
  | .rlwinm => some (masked wordTurned wordMask)
  | .rlwnm => some (masked (rotated (doubledWord rs) (countIn rb 0x1F)) wordMask)
  | .rlwimi => some (inserted wordTurned ra wordMask)
  | .rldicl => some (masked turned (rotateMask64 insn.mb64 63))
  | .rldicr => some (masked turned (rotateMask64 0 insn.mb64))
  | .rldic => some (masked turned (rotateMask64 insn.mb64 (63 - insn.sh64)))
  | .rldimi => some (inserted turned ra (rotateMask64 insn.mb64 (63 - insn.sh64)))
  | .rldcl => some (masked (rotated rs (countIn rb 0x3F)) (rotateMask64 insn.mb64 63))
  | .rldcr => some (masked (rotated rs (countIn rb 0x3F)) (rotateMask64 0 insn.mb64))
  | _ => none

def rotate (insn : Instruction) : Lifted :=
  let requests := [.gpr insn.ra, .gpr insn.rs, .gpr insn.rb]
  match rotation insn with
  | some value => recorded insn requests (.gpr insn.ra) [.assign (.gpr insn.ra) value]
  | none => .missing requests

/-! ## Shifts -/

/-- Zero if a bit of the count says that everything is shifted out. -/
def unlessShiftedOut (count : Expr) (bit : Nat) (value : Expr) : Expr :=
  .choice (.binary .ne (.binary .and count (.hex bit)) (.decimal 0)) (.decimal 0) value

/-- The count in the low bits of a register. -/
def maskedCount (count : Expr) (mask : Nat) : Expr :=
  .paren (.binary .and count (.hex mask))

/-- A word shifted by a count. -/
def shiftedWord (op : BinaryOp) (value count : Expr) : Expr :=
  .cast (.paren (.binary op (.paren (.cast value .u32)) (maskedCount count 0x1F))) .u64

/-- Whether a negative value loses ones to the right. -/
def carryOut (value : Expr) (signed : NumType) (low lost : Expr) : Expr :=
  .binary .both (.binary .lt (.paren (.cast value signed)) (.decimal 0))
    (.binary .ne (.binary .and low lost) (.decimal 0))

/-- The bits that a shift by `count` loses. -/
def lostMask (count : Nat) : UInt64 :=
  UInt64.ofNat (1 <<< count - 1)

def shiftActions (insn : Instruction) : Option (List Action) :=
  let ra := Expr.gpr insn.ra
  let rs := Expr.gpr insn.rs
  let rb := Expr.gpr insn.rb
  let set (value : Expr) : Option (List Action) := some [.assign ra value]
  match insn.opcode with
  | .slw => set (unlessShiftedOut rb 0x20 (shiftedWord .shl rs rb))
  | .srw => set (unlessShiftedOut rb 0x20 (shiftedWord .shr rs rb))
  | .sld => set (unlessShiftedOut rb 0x40 (.binary .shl rs (maskedCount rb 0x3F)))
  | .srd => set (unlessShiftedOut rb 0x40 (.binary .shr rs (maskedCount rb 0x3F)))
  | .sraw =>
    set (.invoke .shiftWord [.unary .borrowMut .xer, rs, .binary .and rb (.hex 0x3F)])
  | .srad =>
    set (.invoke .shiftDoubleword [.unary .borrowMut .xer, rs, .binary .and rb (.hex 0x7F)])
  | .srawi =>
    let lost := Expr.hex (lostMask insn.sh).toNat
    some [
      .assign .carry (carryOut rs .i32 (.paren (.cast rs .u32)) lost),
      .assign ra (castTwice
        (.paren (.binary .shr (.paren (.cast rs .i32)) (.decimal insn.sh))) .i64 .u64)]
  | .sradi =>
    some [
      .assign .carry (carryOut rs .i64 rs (.doubleword (lostMask insn.sh64))),
      .assign ra (.cast
        (.paren (.binary .shr (.paren (.cast rs .i64)) (.decimal insn.sh64))) .u64)]
  | _ => none

def shift (insn : Instruction) : Lifted :=
  let requests := [.gpr insn.ra, .gpr insn.rs, .gpr insn.rb, .xer]
  match shiftActions insn with
  | some actions => recorded insn requests (.gpr insn.ra) actions
  | none => .missing requests

end PowerLift.Lift
