import PowerLift.Lift.Basic

/-!
Floating-point instructions. Registers hold double precision; single-precision forms round their
result. Arithmetic needs denormals to be kept; moves and comparisons do not care.
-/

namespace PowerLift.Lift

/-- Rounds to single precision. -/
def single (value : Expr) : Expr :=
  .cast (.cast (.paren value) .f32) .f64

/-- A conversion to an integer, whose bits become the value. -/
def converted (routine : Routine) (arguments : List Expr) : Expr :=
  .invoke (.fromBits .f64) [.cast (.invoke routine arguments) .u64]

def floatValue (insn : Instruction) : Option Expr :=
  let fa := Expr.fpr insn.ra
  let fb := Expr.fpr insn.rb
  let fc := Expr.fpr insn.rc
  let negB := Expr.unary .negate fb
  let fused (addend : Expr) : Expr := .send fa .mulAdd [fc, addend]
  let root := Expr.send fb .sqrt []
  let one := Expr.lit (.float 1)
  let status := Expr.unary .borrow .fpscr
  match insn.opcode with
  | .fadd => some (.binary .add fa fb)
  | .fadds => some (single (.binary .add fa fb))
  | .fsub => some (.binary .sub fa fb)
  | .fsubs => some (single (.binary .sub fa fb))
  | .fmul => some (.binary .mul fa fc)
  | .fmuls => some (single (.binary .mul fa fc))
  | .fdiv => some (.binary .div fa fb)
  | .fdivs => some (single (.binary .div fa fb))
  | .fsqrt => some root
  | .fsqrts => some (single root)
  | .fres => some (single (.binary .div one fb))
  | .frsqrte => some (.binary .div one root)
  | .fsel => some (.choice (.binary .ge fa (.lit (.float 0))) fc fb)
  | .fmadd => some (fused fb)
  | .fmadds => some (single (fused fb))
  | .fmsub => some (fused negB)
  | .fmsubs => some (single (fused negB))
  | .fnmadd => some (.unary .negate (fused fb))
  | .fnmadds => some (single (.unary .negate (fused fb)))
  | .fnmsub => some (.unary .negate (fused negB))
  | .fnmsubs => some (single (.unary .negate (fused negB)))
  | .frsp => some (.cast (.cast fb .f32) .f64)
  | .fctiw => some (converted .toWord [status, fb])
  | .fctiwz => some (converted .toWordTruncating [fb])
  | .fctid => some (converted .toDoubleword [status, fb])
  | .fctidz => some (converted .toDoublewordTruncating [fb])
  | .fcfid => some (.cast (.cast (.send fb .toBits []) .i64) .f64)
  | _ => none

def floatArithmetic (insn : Instruction) : Lifted :=
  let requests := [.fpr insn.ra, .fpr insn.rb, .fpr insn.rc]
  match floatValue insn with
  | some value =>
    { Lifted.ofActions requests [.assign (.fpr insn.rd) value] with mode := some .scalar }
  | none => .missing requests

def floatMove (insn : Instruction) : Lifted :=
  let fb := Expr.fpr insn.rb
  let move (value : Expr) : Lifted := .ofActions [] [.assign (.fpr insn.rd) value]
  match insn.opcode with
  | .fmr => move fb
  | .fneg => move (.unary .negate fb)
  | .fabs => move (.send fb .abs [])
  | .fnabs => move (.unary .negate (.send fb .abs []))
  | _ => .missing fb.registers

def floatCompare (insn : Instruction) : Lifted :=
  if insn.opcode = .fcmpu ∨ insn.opcode = .fcmpo then
    .ofActions []
      [.perform (.send (.cr insn.crfd) (.compare .f64) [.fpr insn.ra, .fpr insn.rb])]
  else .missing []

/-- Takes a condition field from the floating-point status. -/
def statusField (field : Nat) (source : Nat) : Action :=
  .perform (.send (.cr field) .setBits [.send .fpscr .field [.decimal source]])

/-- Writes to the status may change the flush mode. -/
def writeStatus (name : Method) (arguments : List Expr) : Lifted :=
  { Lifted.ofActions [] [.perform (.send .fpscr name arguments)] with forgetsMode := true }

def floatControl (insn : Instruction) : Lifted :=
  match insn.opcode with
  | .mffs =>
    .ofActions [] [.assign (.fpr insn.rd)
      (.invoke (.fromBits .f64) [.cast (.send .fpscr .load []) .u64])]
  | .mcrfs => .ofActions [] [statusField insn.crfd insn.crfs]
  | .mtfsf =>
    writeStatus .storeMasked
      [.cast (.send (.fpr insn.rb) .toBits []) .u32, .lit (.hex 2 insn.fm)]
  | .mtfsfi => writeStatus .setField [.decimal insn.crfd, .hex insn.fpscrImmediate]
  | .mtfsb0 => writeStatus .setBit [.decimal insn.rd, .lit (.boolean false)]
  | .mtfsb1 => writeStatus .setBit [.decimal insn.rd, .lit (.boolean true)]
  | _ => .missing []

/-- Recording copies the summary of exceptions into the second condition field. -/
def float (insn : Instruction) : Lifted :=
  let lifted :=
    match insn.group with
    | .floatArithmetic => floatArithmetic insn
    | .floatMove => floatMove insn
    | .floatCompare => floatCompare insn
    | .floatControl => floatControl insn
    | _ => .missing []
  if insn.records then
    { lifted with body := lifted.body.map (· ++ [.act (statusField 1 0)]) }
  else lifted

end PowerLift.Lift
