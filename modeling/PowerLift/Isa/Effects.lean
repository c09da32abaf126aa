import PowerLift.Isa.Instruction
import PowerLift.Isa.Register

/-!
The effects of an instruction: the registers it reads and writes, each once and in a fixed order,
whether it touches memory or the reservation, and how it transfers control.
-/

namespace PowerLift

inductive Transfer where
  | none
  | jump
  | conditional
  | call
  | ret
  | indirectJump
  | indirectCall
deriving DecidableEq, Inhabited

structure Effects where
  reads : List Register := []
  writes : List Register := []
  readsMemory : Bool := false
  writesMemory : Bool := false
  touchesReserved : Bool := false
  transfer : Transfer := .none
  conditional : Bool := false
deriving DecidableEq, Inhabited

namespace Effects

def readsGpr (effects : Effects) : List Nat :=
  effects.reads.filterMap fun | .gpr number => some number | _ => none

def writesGpr (effects : Effects) : List Nat :=
  effects.writes.filterMap fun | .gpr number => some number | _ => none

def readsFpr (effects : Effects) : List Nat :=
  effects.reads.filterMap fun | .fpr number => some number | _ => none

def writesFpr (effects : Effects) : List Nat :=
  effects.writes.filterMap fun | .fpr number => some number | _ => none

def readsVr (effects : Effects) : List Nat :=
  effects.reads.filterMap fun | .vr number => some number | _ => none

def writesVr (effects : Effects) : List Nat :=
  effects.writes.filterMap fun | .vr number => some number | _ => none

def readsCr (effects : Effects) : List Nat :=
  effects.reads.filterMap fun | .cr field => some field | _ => none

def writesCr (effects : Effects) : List Nat :=
  effects.writes.filterMap fun | .cr field => some field | _ => none

def touchesCr (effects : Effects) : Bool :=
  !effects.readsCr.isEmpty || !effects.writesCr.isEmpty

def isBranch (effects : Effects) : Bool :=
  effects.transfer != .none

/-- Effects on registers alone. -/
def registers (reads writes : List Register) : Effects :=
  { reads, writes }

/-- The effects of a load, and of a store. -/
def load (reads writes : List Register) : Effects :=
  { reads, writes, readsMemory := true }

def store (reads writes : List Register) : Effects :=
  { reads, writes, writesMemory := true }

end Effects

namespace Instruction

/-- A base address operand: register zero stands for the number zero. -/
def base (insn : Instruction) : List Register :=
  if insn.ra == 0 then [] else [.gpr insn.ra]

/-- The registers from `first` on that the multiple-word forms move. -/
def multiple (first : Nat) : List Register :=
  (List.range' first (32 - first)).map .gpr

/-- What the condition of a branch reads and writes. -/
def conditionReads (insn : Instruction) : List Register :=
  (if insn.ignoresCounter then [] else [.ctr]) ++
    (if insn.ignoresCondition then [] else [.cr (insn.bi / 4)])

def conditionWrites (insn : Instruction) : List Register :=
  if insn.ignoresCounter then [] else [.ctr]

/-- The condition fields that a field mask selects, the first one by the highest bit. -/
def maskedFields (mask : Nat) : List Nat :=
  (List.range 8).filter fun field => mask.testBit (7 - field)

/-- Register effects of the vector operations without memory access, by format. -/
def vectorEffects (insn : Instruction) : Effects :=
  let vd := Register.vr insn.rd
  let va := Register.vr insn.ra
  let vb := Register.vr insn.rb
  let vd128 := Register.vr insn.vd128
  let va128 := Register.vr insn.va128
  let vb128 := Register.vr insn.vb128
  match insn.format with
  | .va =>
    .registers ([va, vb] ++ (if insn.opcode == .vsldoi then [] else [.vr insn.rc])) [vd]
  | .vx | .vxr =>
    match insn.opcode with
    | .vspltisb | .vspltish | .vspltisw => .registers [] [vd]
    | .vspltb | .vsplth | .vspltw | .vrefp | .vrsqrtefp | .vexptefp | .vlogefp | .vrfin | .vrfiz
    | .vrfip | .vrfim | .vcfux | .vcfsx | .vctuxs | .vctsxs | .vupkhsb | .vupkhsh | .vupklsb
    | .vupklsh | .vupkhpx | .vupklpx => .registers [vb] [vd]
    | _ => .registers [va, vb] [vd]
  | .vx128 | .vx128_r =>
    match insn.opcode with
    | .vmaddfp128 | .vmaddcfp128 | .vnmsubfp128 | .vsel128 =>
      .registers [va128, vb128, vd128] [vd128]
    | _ => .registers [va128, vb128] [vd128]
  | .vx128_2 => .registers [va128, vb128, .vr insn.vc128] [vd128]
  | .vx128_3 | .vx128_p =>
    .registers (if insn.opcode == .vspltisw128 then [] else [vb128]) [vd128]
  | .vx128_4 => .registers [vd128, vb128] [vd128]
  | .vx128_5 => .registers [va128, vb128] [vd128]
  | _ => {}

/-- Effects that follow from the operation, before those of the record and overflow bits. -/
def ownEffects (insn : Instruction) : Effects :=
  let rd := Register.gpr insn.rd
  let ra := Register.gpr insn.ra
  let rb := Register.gpr insn.rb
  let fd := Register.fpr insn.rd
  let fa := Register.fpr insn.ra
  let fb := Register.fpr insn.rb
  let fc := Register.fpr insn.rc
  let base := insn.base
  match insn.opcode with
  | .b => { transfer := .jump }
  | .bl => { writes := [.lr], transfer := .call }
  | .bc =>
    { reads := insn.conditionReads
      writes := insn.conditionWrites
      transfer := if insn.alwaysTaken then .jump else .conditional
      conditional := !insn.alwaysTaken }
  | .bcl =>
    { reads := insn.conditionReads
      writes := insn.conditionWrites ++ [.lr]
      transfer := .call
      conditional := !insn.alwaysTaken }
  | .blr => { reads := [.lr], transfer := .ret }
  | .blrl => { reads := [.lr], writes := [.lr], transfer := .indirectCall }
  | .bclr =>
    { reads := insn.conditionReads ++ [.lr]
      writes := insn.conditionWrites ++ (if insn.lk then [.lr] else [])
      transfer := if insn.lk then .indirectCall else .ret
      conditional := !insn.alwaysTaken }
  | .bctr => { reads := [.ctr], transfer := .indirectJump }
  | .bctrl => { reads := [.ctr], writes := [.lr], transfer := .indirectCall }
  | .bcctr =>
    { reads := insn.conditionReads ++ [.ctr]
      writes := insn.conditionWrites ++ (if insn.lk then [.lr] else [])
      transfer := if insn.lk then .indirectCall else .indirectJump
      conditional := !insn.alwaysTaken }
  | .tw | .td => .registers [ra, rb] []
  | .twi | .tdi => .registers [ra] []
  | .mfmsr | .mftb => .registers [] [rd]
  | .mtmsr | .mtmsrd => .registers [rd] []
  | .mcrf => .registers [.cr insn.crfs] [.cr insn.crfd]
  | .crand | .crandc | .creqv | .crnand | .crnor | .cror | .crorc | .crxor =>
    .registers [.cr (insn.ra / 4), .cr (insn.rb / 4)] [.cr (insn.rd / 4)]
  | .mfcr => .registers ((List.range 8).map .cr) [rd]
  | .mtcrf => .registers [rd] ((maskedFields insn.crm).map .cr)
  | .mflr => .registers [.lr] [rd]
  | .mtlr => .registers [rd] [.lr]
  | .mfctr => .registers [.ctr] [rd]
  | .mtctr => .registers [rd] [.ctr]
  | .mfspr => .registers (if insn.spr == sprXer then [.xer] else []) [rd]
  | .mtspr => .registers [rd] (if insn.spr == sprXer then [.xer] else [])
  | .li | .lis => .registers [] [rd]
  | .addi | .addis => .registers base [rd]
  | .mulli | .neg => .registers [ra] [rd]
  | .addic | .subfic => .registers [ra] [rd, .xer]
  | .addicRc => .registers [ra, .xer] [rd, .xer, .cr 0]
  | .nop | .unknown => {}
  | .ori | .oris | .xori | .xoris => .registers [rd] [ra]
  | .andiRc | .andisRc => .registers [rd, .xer] [ra, .cr 0]
  | .cmp | .cmpl => .registers [ra, rb, .xer] [.cr insn.crfd]
  | .cmpi | .cmpli => .registers [ra, .xer] [.cr insn.crfd]
  | .rlwinm | .rldicl | .rldicr | .rldic => .registers [rd] [ra]
  | .rlwimi | .rldimi => .registers [rd, ra] [ra]
  | .rlwnm | .rldcl | .rldcr => .registers [rd, rb] [ra]
  | .srawi | .sradi => .registers [rd] [ra, .xer]
  | .mr | .extsb | .extsh | .extsw | .cntlzw | .cntlzd => .registers [rd] [ra]
  | .and | .andc | .or | .orc | .xor | .nand | .nor | .eqv | .slw | .srw | .sld | .srd =>
    .registers [rd, rb] [ra]
  | .sraw | .srad => .registers [rd, rb] [ra, .xer]
  | .addme | .addze | .subfme | .subfze => .registers [ra, .xer] [rd, .xer]
  | .add | .subf | .mullw | .mulhw | .mulhwu | .mulld | .mulhd | .mulhdu | .divw | .divwu | .divd
  | .divdu => .registers [ra, rb] [rd]
  | .addc | .subfc => .registers [ra, rb] [rd, .xer]
  | .adde | .subfe => .registers [ra, rb, .xer] [rd, .xer]
  | .lbz | .lhz | .lha | .lwz | .ld | .lwa => .load base [rd]
  | .lbzu | .lhzu | .lhau | .lwzu | .ldu => .load [ra] [rd, ra]
  | .lbzx | .lhzx | .lhax | .lwzx | .lwax | .ldx | .lhbrx | .lwbrx => .load (base ++ [rb]) [rd]
  | .lwarx | .ldarx => { Effects.load (base ++ [rb]) [rd] with touchesReserved := true }
  | .lbzux | .lhzux | .lhaux | .lwzux | .lwaux => .load [ra, rb] [rd, ra]
  | .lmw => .load base (multiple insn.rd)
  | .stb | .sth | .stw | .std => .store (rd :: base) []
  | .stbu | .sthu | .stwu | .stdu => .store [rd, ra] [ra]
  | .stbx | .sthx | .stwx | .stdx | .sthbrx | .stwbrx => .store (rd :: base ++ [rb]) []
  | .stwcxRc | .stdcxRc =>
    { Effects.store (rd :: base ++ [rb, .xer]) [.cr 0] with touchesReserved := true }
  | .stbux | .sthux | .stwux | .stdux => .store [rd, ra, rb] [ra]
  | .stmw => .store (base ++ multiple insn.rd) []
  | .dcbz => .store (base ++ [rb]) []
  | .dcbf | .dcbst | .dcbt | .dcbtst | .dcbi | .icbi => .registers (base ++ [rb]) []
  | .lfs | .lfd => .load base [fd]
  | .lfsu | .lfdu => .load [ra] [ra, fd]
  | .lfsx | .lfdx => .load (base ++ [rb]) [fd]
  | .lfsux | .lfdux => .load [ra, rb] [ra, fd]
  | .stfs | .stfd => .store (fd :: base) []
  | .stfsu | .stfdu => .store [fd, ra] [ra]
  | .stfsx | .stfdx | .stfiwx => .store (fd :: base ++ [rb]) []
  | .stfsux | .stfdux => .store [fd, ra, rb] [ra]
  | .fadd | .fadds | .fsub | .fsubs | .fdiv | .fdivs => .registers [fa, fb] [fd]
  | .fmul | .fmuls => .registers [fa, fc] [fd]
  | .fmadd | .fmadds | .fmsub | .fmsubs | .fnmadd | .fnmadds | .fnmsub | .fnmsubs | .fsel =>
    .registers [fa, fc, fb] [fd]
  | .fsqrt | .fsqrts | .fres | .frsqrte | .frsp | .fctiw | .fctiwz | .fctid | .fctidz | .fcfid
  | .fmr | .fneg | .fabs | .fnabs => .registers [fb] [fd]
  | .fcmpu | .fcmpo => .registers [fa, fb] [.cr insn.crfd]
  | .mffs => .registers [] [fd]
  | .mtfsf => .registers [fb] []
  | .mcrfs => .registers [] [.cr insn.crfd]
  | .mtfsfi | .mtfsb0 | .mtfsb1 => {}
  | .lvsl | .lvsr => .registers (base ++ [rb]) [.vr insn.rd]
  | .lvx | .lvxl | .lvebx | .lvehx | .lvewx | .lvlx | .lvrx | .lvlxl | .lvrxl =>
    .load (base ++ [rb]) [.vr insn.rd]
  | .stvx | .stvxl | .stvebx | .stvehx | .stvewx | .stvlx | .stvrx | .stvlxl | .stvrxl =>
    .store (.vr insn.rd :: base ++ [rb]) []
  | .lvsl128 | .lvsr128 => .registers (base ++ [rb]) [.vr insn.vd128]
  | .lvewx128 | .lvx128 | .lvxl128 | .lvlx128 | .lvrx128 | .lvlxl128 | .lvrxl128 =>
    .load (base ++ [rb]) [.vr insn.vd128]
  | .stvewx128 | .stvx128 | .stvxl128 | .stvlx128 | .stvrx128 | .stvlxl128 | .stvrxl128 =>
    .store (.vr insn.vd128 :: base ++ [rb]) []
  | .mfvscr => .registers [] [.vr insn.rd]
  | .mtvscr => .registers [.vr insn.rb] []
  | _ => insn.vectorEffects

/-- The condition field that the record bit updates: none for most memory accesses, field one for
floating-point results, field zero for the rest. -/
def recordedField? (insn : Instruction) : Option Nat :=
  if insn.format.hasRecordBit && insn.recordBit then
    match insn.group with
    | .intLoad | .intStore | .cache | .vectorLoad => none
    | .floatArithmetic | .floatMove | .floatControl => some 1
    | _ => some 0
  else none

/-- What the record and overflow bits add. -/
def suffixReads (insn : Instruction) : List Register :=
  (if insn.recordedField? == some 0 then [.xer] else []) ++
    (if insn.format == .xo && insn.oe then [.xer] else [])

def suffixWrites (insn : Instruction) : List Register :=
  (insn.recordedField?.map Register.cr).toList ++
    (if insn.format == .xo && insn.oe then [.xer] else []) ++
    (if insn.vectorRecordBit then [.cr 6] else [])

def effects (insn : Instruction) : Effects :=
  let own := insn.ownEffects
  { own with
    reads := (own.reads ++ insn.suffixReads).eraseDups
    writes := (own.writes ++ insn.suffixWrites).eraseDups }

end Instruction

end PowerLift
