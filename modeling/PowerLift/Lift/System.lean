import PowerLift.Lift.Basic

/-!
System instructions, the condition register, and moves of special registers.
-/

namespace PowerLift.Lift

def system (config : Config) (insn : Instruction) : Lifted :=
  match insn.opcode with
  | .sc =>
    { Lifted.ofActions [] [.perform (.invokeGuest .syscall [.wordHex insn.address])] with
      forgetsMode := true }
  | .sync =>
    .ofActions [] [.perform (.invoke .fence [.var "std::sync::atomic::Ordering::SeqCst"])]
  | .isync | .eieio => {}
  | .mfmsr =>
    if config.skipMsr then {} else .ofActions [] [.assign (.gpr insn.rd) (.reg .msr)]
  | .mtmsr | .mtmsrd =>
    if config.skipMsr then {} else .ofActions [] [.assign (.reg .msr) (.gpr insn.rs)]
  | _ => .missing []

/-! ## Condition register -/

/-- The position of a condition field in the whole register. -/
def fieldShift (field : Nat) : Expr :=
  .decimal (28 - 4 * field : Nat)

/-- All fields in their places. -/
def gatheredFields : List Expr :=
  (List.range 8).map fun field =>
    let bits := Expr.cast (.paren (.send (.cr field) .toBits [])) .u64
    .paren (.binary .shl (.paren bits) (fieldShift field))

/-- Takes a field from a register. -/
def scatterField (source : Nat) (field : Nat) : Action :=
  let shifted := Expr.paren (.binary .shr (.gpr source) (fieldShift field))
  .perform (.send (.cr field) .setBits
    [.cast (.paren (.binary .and shifted (.hex 0xF))) .u32])

/-- The value that an operation on two condition bits gives. -/
def bitOperation (opcode : Opcode) (a b : Expr) : Option Expr :=
  let inverted (op : BinaryOp) : Expr := .unary .complement (.paren (.binary op a b))
  let notB : Expr := .unary .complement b
  match opcode with
  | .crand => some (.binary .and a b)
  | .crandc => some (.binary .and a notB)
  | .creqv => some (inverted .xor)
  | .crnand => some (inverted .and)
  | .crnor => some (inverted .or)
  | .cror => some (.binary .or a b)
  | .crorc => some (.binary .or a notB)
  | .crxor => some (.binary .xor a b)
  | _ => none

def conditionRegister (insn : Instruction) : Lifted :=
  match insn.opcode with
  | .mcrf => .ofActions [] [.assign (.cr insn.crfd) (.cr insn.crfs)]
  | .mfcr =>
    match Expr.joined .or gatheredFields with
    | some value => .ofActions [] [.assign (.gpr insn.rd) value]
    | none => .missing []
  | .mtcrf =>
    .ofActions [.gpr insn.rs] ((Instruction.maskedFields insn.crm).map (scatterField insn.rs))
  | opcode =>
    match bitOperation opcode (.crBit insn.ra) (.crBit insn.rb) with
    | some value => .ofActions [] [.assign (.crBit insn.rd) value]
    | none => .missing [.cr (insn.ra / 4), .cr (insn.rb / 4)]

/-! ## Special registers -/

def specialRegister (config : Config) (insn : Instruction) : Lifted :=
  match insn.opcode with
  | .mflr => if config.skipLr then {} else .ofActions [] [.assign (.gpr insn.rd) .lr]
  | .mtlr => if config.skipLr then {} else .ofActions [] [.assign .lr (.gpr insn.rs)]
  | .mfctr => .ofActions [] [.assign (.gpr insn.rd) .ctr]
  | .mtctr => .ofActions [] [.assign .ctr (.gpr insn.rs)]
  | .mftb => .ofActions [] [.assign (.gpr insn.rd) (.invoke .timeBase [])]
  | .mfspr =>
    if insn.spr = Instruction.sprXer then
      .ofActions [] [.assign (.gpr insn.rd) (.cast (.send .xer .toBits []) .u64)]
    else if insn.spr = Instruction.sprVrsave then
      .ofActions [] [.assign (.gpr insn.rd) (.cast (.reg .vrsave) .u64)]
    else .missing [.gpr insn.rd]
  | .mtspr =>
    if insn.spr = Instruction.sprXer then
      .ofActions [] [.perform (.send .xer .setBits [.cast (.gpr insn.rs) .u32])]
    else if insn.spr = Instruction.sprVrsave then
      .ofActions [] [.assign (.reg .vrsave) (.cast (.gpr insn.rs) .u32)]
    else .missing [.gpr insn.rs]
  | _ => .missing []

end PowerLift.Lift
