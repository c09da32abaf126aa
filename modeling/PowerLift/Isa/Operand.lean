import PowerLift.Isa.Instruction

/-!
Disassembly: the operands of an instruction in assembler order, and its text.
-/

namespace PowerLift

inductive Operand where
  | gpr (number : Nat)
  | fpr (number : Nat)
  | vr (number : Nat)
  | crField (number : Nat)
  | crBit (number : Nat)
  | spr (number : Nat)
  | simm (value : Int)
  | uimm (value : Nat)
  | displacement (offset : Int) (base : Nat)
  | target (address : UInt32)
deriving DecidableEq

/-- A signed number in base sixteen. -/
def signedHex (value : Int) : String :=
  if value < 0 then "-0x" ++ hex value.natAbs else "0x" ++ hex value.natAbs

def Operand.text : Operand → String
  | .gpr number => s!"r{number}"
  | .fpr number => s!"f{number}"
  | .vr number => s!"v{number}"
  | .crField number => s!"cr{number}"
  | .crBit number | .spr number => toString number
  | .simm value => signedHex value
  | .uimm value => "0x" ++ hex value
  | .displacement offset base => signedHex offset ++ s!"(r{base})"
  | .target address => addressText address

namespace Instruction

/-- The operands of a vector operation, by format. -/
def vectorOperands (insn : Instruction) : List Operand :=
  let vd := Operand.vr insn.rd
  let va := Operand.vr insn.ra
  let vb := Operand.vr insn.rb
  let vd128 := Operand.vr insn.vd128
  let va128 := Operand.vr insn.va128
  let vb128 := Operand.vr insn.vb128
  match insn.format with
  | .va =>
    if insn.opcode == .vsldoi then [vd, va, vb, .uimm insn.vsh] else [vd, va, vb, .vr insn.rc]
  | .vx | .vxr =>
    match insn.opcode with
    | .vspltisb | .vspltish | .vspltisw => [vd, .simm insn.vsimm]
    | .vspltb | .vsplth | .vspltw | .vcfux | .vcfsx | .vctuxs | .vctsxs =>
      [vd, vb, .uimm insn.vuimm]
    | .vrefp | .vrsqrtefp | .vexptefp | .vlogefp | .vrfin | .vrfiz | .vrfip | .vrfim | .vupkhsb
    | .vupkhsh | .vupklsb | .vupklsh | .vupkhpx | .vupklpx => [vd, vb]
    | _ => [vd, va, vb]
  | .vx128 | .vx128_r => [vd128, va128, vb128]
  | .vx128_2 => [vd128, va128, vb128, .vr insn.vc128]
  | .vx128_3 =>
    match insn.opcode with
    | .vspltisw128 => [vd128, .simm insn.vsimm]
    | .vspltw128 | .vcfpsxws128 | .vcfpuxws128 | .vcsxwfp128 | .vcuxwfp128 | .vupkd3d128 =>
      [vd128, vb128, .uimm insn.vimm128]
    | _ => [vd128, vb128]
  | .vx128_4 => [vd128, vb128, .uimm insn.vimm128, .uimm insn.vz128]
  | .vx128_5 => [vd128, va128, vb128, .uimm insn.vsh128]
  | .vx128_p => [vd128, vb128, .uimm insn.vperm128]
  | _ => []

/-- The operands that follow from the group alone. -/
def groupOperands (insn : Instruction) : List Operand :=
  let rd := insn.rd
  let ra := insn.ra
  let rb := insn.rb
  match insn.group with
  | .intLoad | .intStore =>
    if insn.format == .x then [.gpr rd, .gpr ra, .gpr rb]
    else if insn.format == .ds then [.gpr rd, .displacement insn.ds ra]
    else [.gpr rd, .displacement insn.simm ra]
  | .floatLoad | .floatStore =>
    if insn.format == .x then [.fpr rd, .gpr ra, .gpr rb]
    else [.fpr rd, .displacement insn.simm ra]
  | .cache => [.gpr ra, .gpr rb]
  | .vectorLoad | .vectorStore =>
    [.vr (if insn.format == .vx128_1 then insn.vd128 else rd), .gpr ra, .gpr rb]
  | .intArithmetic =>
    if insn.format == .d then [.gpr rd, .gpr ra, .simm insn.simm] else [.gpr rd, .gpr ra, .gpr rb]
  | .intLogical | .intShift => [.gpr ra, .gpr rd, .gpr rb]
  | .conditionRegister => [.crBit rd, .crBit ra, .crBit rb]
  | .floatArithmetic | .floatMove =>
    match insn.opcode with
    | .fmul | .fmuls => [.fpr rd, .fpr ra, .fpr insn.rc]
    | .fadd | .fadds | .fsub | .fsubs | .fdiv | .fdivs => [.fpr rd, .fpr ra, .fpr rb]
    | .fsqrt | .fsqrts | .fres | .frsqrte => [.fpr rd, .fpr rb]
    | _ =>
      if insn.format == .a then [.fpr rd, .fpr ra, .fpr insn.rc, .fpr rb] else [.fpr rd, .fpr rb]
  | .vectorInteger | .vectorFloat | .vectorPermute | .vectorControl => insn.vectorOperands
  | _ => []

def operands (insn : Instruction) : List Operand :=
  let rd := insn.rd
  let ra := insn.ra
  let rb := insn.rb
  let target := Operand.target (insn.target.getD 0)
  match insn.opcode with
  | .unknown | .nop | .blr | .blrl | .bctr | .bctrl | .sc | .rfid | .sync | .isync | .eieio => []
  | .b | .bl => [target]
  | .bc | .bcl => [.uimm insn.bo, .crBit insn.bi, target]
  | .bclr | .bcctr => [.uimm insn.bo, .crBit insn.bi]
  | .tw | .td => [.uimm insn.trapCondition, .gpr ra, .gpr rb]
  | .twi | .tdi => [.uimm insn.trapCondition, .gpr ra, .simm insn.simm]
  | .mfmsr | .mfcr | .mflr | .mfctr | .mftb | .mtmsr | .mtmsrd | .mtlr | .mtctr => [.gpr rd]
  | .mfspr => [.gpr rd, .spr insn.spr]
  | .mtspr => [.spr insn.spr, .gpr rd]
  | .mtcrf => [.uimm insn.crm, .gpr rd]
  | .mcrf | .mcrfs => [.crField insn.crfd, .crField insn.crfs]
  | .li => [.gpr rd, .simm insn.simm]
  | .lis => [.gpr rd, .uimm insn.uimm]
  | .mr => [.gpr ra, .gpr rd]
  | .cmp | .cmpl => [.crField insn.crfd, .gpr ra, .gpr rb]
  | .cmpi => [.crField insn.crfd, .gpr ra, .simm insn.simm]
  | .cmpli => [.crField insn.crfd, .gpr ra, .uimm insn.uimm]
  | .fcmpu | .fcmpo => [.crField insn.crfd, .fpr ra, .fpr rb]
  | .ori | .oris | .xori | .xoris | .andiRc | .andisRc => [.gpr ra, .gpr rd, .uimm insn.uimm]
  | .rlwinm | .rlwimi => [.gpr ra, .gpr rd, .uimm insn.sh, .uimm insn.mb, .uimm insn.me]
  | .rlwnm => [.gpr ra, .gpr rd, .gpr rb, .uimm insn.mb, .uimm insn.me]
  | .rldicl | .rldicr | .rldic | .rldimi => [.gpr ra, .gpr rd, .uimm insn.sh64, .uimm insn.mb64]
  | .rldcl | .rldcr => [.gpr ra, .gpr rd, .gpr rb, .uimm insn.mb64]
  | .srawi => [.gpr ra, .gpr rd, .uimm insn.sh]
  | .sradi => [.gpr ra, .gpr rd, .uimm insn.sh64]
  | .extsb | .extsh | .extsw | .cntlzw | .cntlzd => [.gpr ra, .gpr rd]
  | .neg | .addme | .addze | .subfme | .subfze => [.gpr rd, .gpr ra]
  | .mffs => [.fpr rd]
  | .mtfsf => [.uimm insn.fm, .fpr rb]
  | .mtfsfi => [.crField insn.crfd, .uimm insn.fpscrImmediate]
  | .mtfsb0 | .mtfsb1 => [.crBit rd]
  | .mfvscr => [.vr rd]
  | .mtvscr => [.vr rb]
  | _ => insn.groupOperands

/-- The mnemonic with the suffixes that the word asks for: overflow, link, absolute, record. -/
def fullMnemonic (insn : Instruction) : String :=
  let overflow := if insn.format == .xo && insn.oe then "o" else ""
  let link := if (insn.opcode == .bclr || insn.opcode == .bcctr) && insn.lk then "l" else ""
  let absolute := if (insn.format == .i || insn.format == .b) && insn.aa then "a" else ""
  let stem := insn.opcode.mnemonic ++ overflow ++ link ++ absolute
  if insn.records && !stem.endsWith "." && insn.group != .intStore then stem ++ "." else stem

/-- The line a disassembler writes. -/
def text (insn : Instruction) : String :=
  match insn.operands with
  | [] => insn.fullMnemonic
  | operands => insn.fullMnemonic ++ " " ++ ", ".intercalate (operands.map Operand.text)

end Instruction

end PowerLift
