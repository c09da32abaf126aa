import PowerLift.Isa.Opcode
import PowerLift.Isa.Format

/-!
The encoding table: one descriptor per operation, and the search for the descriptor of a word. A
descriptor matches a word when the primary opcodes agree and, if it has an extended opcode, the
extended field of its format holds that number.
-/

namespace PowerLift

structure Descriptor where
  opcode : Opcode
  format : Format
  group : Group
  primary : Nat
  extended : Option Nat
deriving DecidableEq, Inhabited

namespace Descriptor

/-- The descriptor of every word that encodes nothing. -/
def unknown : Descriptor := ⟨.unknown, .unknown, .unknown, 0, none⟩

/-- The field that tells this operation from the others of its primary opcode. -/
def field? (descriptor : Descriptor) : Option Field :=
  if descriptor.extended.isSome then descriptor.format.extended? else none

def Matches (descriptor : Descriptor) (word : UInt32) : Prop :=
  descriptor.primary = Field.primary.read word ∧
    ∀ field ∈ descriptor.field?, descriptor.extended = some (field.read word)

instance (descriptor : Descriptor) (word : UInt32) : Decidable (descriptor.Matches word) :=
  inferInstanceAs (Decidable (_ ∧ _))

/-- Operations that the primary opcode alone decides. -/
def primaryEntries : List Descriptor := [
  ⟨.tdi, .d, .trap, 2, none⟩, ⟨.twi, .d, .trap, 3, none⟩, ⟨.mulli, .d, .intArithmetic, 7, none⟩,
  ⟨.subfic, .d, .intArithmetic, 8, none⟩, ⟨.cmpli, .d, .intCompare, 10, none⟩,
  ⟨.cmpi, .d, .intCompare, 11, none⟩, ⟨.addic, .d, .intArithmetic, 12, none⟩,
  ⟨.addicRc, .d, .intArithmetic, 13, none⟩, ⟨.addi, .d, .intArithmetic, 14, none⟩,
  ⟨.addis, .d, .intArithmetic, 15, none⟩, ⟨.bc, .b, .branch, 16, none⟩,
  ⟨.sc, .sc, .system, 17, none⟩, ⟨.b, .i, .branch, 18, none⟩, ⟨.rlwimi, .m, .intRotate, 20, none⟩,
  ⟨.rlwinm, .m, .intRotate, 21, none⟩, ⟨.rlwnm, .m, .intRotate, 23, none⟩,
  ⟨.ori, .d, .intLogical, 24, none⟩, ⟨.oris, .d, .intLogical, 25, none⟩,
  ⟨.xori, .d, .intLogical, 26, none⟩, ⟨.xoris, .d, .intLogical, 27, none⟩,
  ⟨.andiRc, .d, .intLogical, 28, none⟩, ⟨.andisRc, .d, .intLogical, 29, none⟩,
  ⟨.lwz, .d, .intLoad, 32, none⟩, ⟨.lwzu, .d, .intLoad, 33, none⟩, ⟨.lbz, .d, .intLoad, 34, none⟩,
  ⟨.lbzu, .d, .intLoad, 35, none⟩, ⟨.stw, .d, .intStore, 36, none⟩,
  ⟨.stwu, .d, .intStore, 37, none⟩, ⟨.stb, .d, .intStore, 38, none⟩,
  ⟨.stbu, .d, .intStore, 39, none⟩, ⟨.lhz, .d, .intLoad, 40, none⟩,
  ⟨.lhzu, .d, .intLoad, 41, none⟩, ⟨.lha, .d, .intLoad, 42, none⟩,
  ⟨.lhau, .d, .intLoad, 43, none⟩, ⟨.sth, .d, .intStore, 44, none⟩,
  ⟨.sthu, .d, .intStore, 45, none⟩, ⟨.lmw, .d, .intLoad, 46, none⟩,
  ⟨.stmw, .d, .intStore, 47, none⟩, ⟨.lfs, .d, .floatLoad, 48, none⟩,
  ⟨.lfsu, .d, .floatLoad, 49, none⟩, ⟨.lfd, .d, .floatLoad, 50, none⟩,
  ⟨.lfdu, .d, .floatLoad, 51, none⟩, ⟨.stfs, .d, .floatStore, 52, none⟩,
  ⟨.stfsu, .d, .floatStore, 53, none⟩, ⟨.stfd, .d, .floatStore, 54, none⟩,
  ⟨.stfdu, .d, .floatStore, 55, none⟩]

/-- Doubleword loads and stores with a displacement. -/
def doublewordEntries : List Descriptor := [
  ⟨.ld, .ds, .intLoad, 58, some 0⟩, ⟨.ldu, .ds, .intLoad, 58, some 1⟩,
  ⟨.lwa, .ds, .intLoad, 58, some 2⟩, ⟨.std, .ds, .intStore, 62, some 0⟩,
  ⟨.stdu, .ds, .intStore, 62, some 1⟩]

/-- Condition register logic and branches through a register. -/
def linkEntries : List Descriptor := [
  ⟨.mcrf, .xl, .conditionRegister, 19, some 0⟩, ⟨.bclr, .xl, .branch, 19, some 16⟩,
  ⟨.rfid, .xl, .system, 19, some 18⟩, ⟨.crnor, .xl, .conditionRegister, 19, some 33⟩,
  ⟨.crandc, .xl, .conditionRegister, 19, some 129⟩, ⟨.isync, .xl, .system, 19, some 150⟩,
  ⟨.crxor, .xl, .conditionRegister, 19, some 193⟩,
  ⟨.crnand, .xl, .conditionRegister, 19, some 225⟩,
  ⟨.crand, .xl, .conditionRegister, 19, some 257⟩,
  ⟨.creqv, .xl, .conditionRegister, 19, some 289⟩,
  ⟨.crorc, .xl, .conditionRegister, 19, some 417⟩, ⟨.cror, .xl, .conditionRegister, 19, some 449⟩,
  ⟨.bcctr, .xl, .branch, 19, some 528⟩]

/-- Doubleword rotates. -/
def rotateEntries : List Descriptor := [
  ⟨.rldicl, .md, .intRotate, 30, some 0⟩, ⟨.rldicr, .md, .intRotate, 30, some 1⟩,
  ⟨.rldic, .md, .intRotate, 30, some 2⟩, ⟨.rldimi, .md, .intRotate, 30, some 3⟩,
  ⟨.rldcl, .mds, .intRotate, 30, some 8⟩, ⟨.rldcr, .mds, .intRotate, 30, some 9⟩]

/-- Integer arithmetic with an overflow bit. -/
def arithmeticEntries : List Descriptor := [
  ⟨.subfc, .xo, .intArithmetic, 31, some 8⟩, ⟨.mulhdu, .xo, .intArithmetic, 31, some 9⟩,
  ⟨.addc, .xo, .intArithmetic, 31, some 10⟩, ⟨.mulhwu, .xo, .intArithmetic, 31, some 11⟩,
  ⟨.subf, .xo, .intArithmetic, 31, some 40⟩, ⟨.mulhd, .xo, .intArithmetic, 31, some 73⟩,
  ⟨.mulhw, .xo, .intArithmetic, 31, some 75⟩, ⟨.neg, .xo, .intArithmetic, 31, some 104⟩,
  ⟨.subfe, .xo, .intArithmetic, 31, some 136⟩, ⟨.adde, .xo, .intArithmetic, 31, some 138⟩,
  ⟨.subfze, .xo, .intArithmetic, 31, some 200⟩, ⟨.addze, .xo, .intArithmetic, 31, some 202⟩,
  ⟨.subfme, .xo, .intArithmetic, 31, some 232⟩, ⟨.mulld, .xo, .intArithmetic, 31, some 233⟩,
  ⟨.addme, .xo, .intArithmetic, 31, some 234⟩, ⟨.mullw, .xo, .intArithmetic, 31, some 235⟩,
  ⟨.add, .xo, .intArithmetic, 31, some 266⟩, ⟨.divdu, .xo, .intArithmetic, 31, some 457⟩,
  ⟨.divwu, .xo, .intArithmetic, 31, some 459⟩, ⟨.divd, .xo, .intArithmetic, 31, some 489⟩,
  ⟨.divw, .xo, .intArithmetic, 31, some 491⟩]

/-- The doubleword shift whose amount is cut in two. -/
def shiftEntries : List Descriptor := [
  ⟨.sradi, .xs, .intShift, 31, some 413⟩]

/-- Indexed loads and stores, logic, comparisons and moves to and from special registers. -/
def indexedEntries : List Descriptor := [
  ⟨.cmp, .x, .intCompare, 31, some 0⟩, ⟨.tw, .x, .trap, 31, some 4⟩,
  ⟨.lvsl, .x, .vectorLoad, 31, some 6⟩, ⟨.lvebx, .x, .vectorLoad, 31, some 7⟩,
  ⟨.mfcr, .xfx, .conditionRegister, 31, some 19⟩, ⟨.lwarx, .x, .intLoad, 31, some 20⟩,
  ⟨.ldx, .x, .intLoad, 31, some 21⟩, ⟨.lwzx, .x, .intLoad, 31, some 23⟩,
  ⟨.slw, .x, .intShift, 31, some 24⟩, ⟨.cntlzw, .x, .intLogical, 31, some 26⟩,
  ⟨.sld, .x, .intShift, 31, some 27⟩, ⟨.and, .x, .intLogical, 31, some 28⟩,
  ⟨.cmpl, .x, .intCompare, 31, some 32⟩, ⟨.lvsr, .x, .vectorLoad, 31, some 38⟩,
  ⟨.lvehx, .x, .vectorLoad, 31, some 39⟩, ⟨.dcbst, .x, .cache, 31, some 54⟩,
  ⟨.lwzux, .x, .intLoad, 31, some 55⟩, ⟨.cntlzd, .x, .intLogical, 31, some 58⟩,
  ⟨.andc, .x, .intLogical, 31, some 60⟩, ⟨.td, .x, .trap, 31, some 68⟩,
  ⟨.lvewx, .x, .vectorLoad, 31, some 71⟩, ⟨.mfmsr, .x, .system, 31, some 83⟩,
  ⟨.ldarx, .x, .intLoad, 31, some 84⟩, ⟨.dcbf, .x, .cache, 31, some 86⟩,
  ⟨.lbzx, .x, .intLoad, 31, some 87⟩, ⟨.lvx, .x, .vectorLoad, 31, some 103⟩,
  ⟨.lbzux, .x, .intLoad, 31, some 119⟩, ⟨.nor, .x, .intLogical, 31, some 124⟩,
  ⟨.stvebx, .x, .vectorStore, 31, some 135⟩, ⟨.mtcrf, .xfx, .conditionRegister, 31, some 144⟩,
  ⟨.mtmsr, .x, .system, 31, some 146⟩, ⟨.stdx, .x, .intStore, 31, some 149⟩,
  ⟨.stwcxRc, .x, .intStore, 31, some 150⟩, ⟨.stwx, .x, .intStore, 31, some 151⟩,
  ⟨.stvehx, .x, .vectorStore, 31, some 167⟩, ⟨.mtmsrd, .x, .system, 31, some 178⟩,
  ⟨.stdux, .x, .intStore, 31, some 181⟩, ⟨.stwux, .x, .intStore, 31, some 183⟩,
  ⟨.stvewx, .x, .vectorStore, 31, some 199⟩, ⟨.stdcxRc, .x, .intStore, 31, some 214⟩,
  ⟨.stbx, .x, .intStore, 31, some 215⟩, ⟨.stvx, .x, .vectorStore, 31, some 231⟩,
  ⟨.dcbtst, .x, .cache, 31, some 246⟩, ⟨.stbux, .x, .intStore, 31, some 247⟩,
  ⟨.dcbt, .x, .cache, 31, some 278⟩, ⟨.lhzx, .x, .intLoad, 31, some 279⟩,
  ⟨.eqv, .x, .intLogical, 31, some 284⟩, ⟨.lhzux, .x, .intLoad, 31, some 311⟩,
  ⟨.xor, .x, .intLogical, 31, some 316⟩, ⟨.mfspr, .xfx, .specialRegister, 31, some 339⟩,
  ⟨.lwax, .x, .intLoad, 31, some 341⟩, ⟨.lhax, .x, .intLoad, 31, some 343⟩,
  ⟨.lvxl, .x, .vectorLoad, 31, some 359⟩, ⟨.mftb, .xfx, .specialRegister, 31, some 371⟩,
  ⟨.lwaux, .x, .intLoad, 31, some 373⟩, ⟨.lhaux, .x, .intLoad, 31, some 375⟩,
  ⟨.sthx, .x, .intStore, 31, some 407⟩, ⟨.orc, .x, .intLogical, 31, some 412⟩,
  ⟨.sthux, .x, .intStore, 31, some 439⟩, ⟨.or, .x, .intLogical, 31, some 444⟩,
  ⟨.mtspr, .xfx, .specialRegister, 31, some 467⟩, ⟨.dcbi, .x, .cache, 31, some 470⟩,
  ⟨.nand, .x, .intLogical, 31, some 476⟩, ⟨.stvxl, .x, .vectorStore, 31, some 487⟩,
  ⟨.lvlx, .x, .vectorLoad, 31, some 519⟩, ⟨.lwbrx, .x, .intLoad, 31, some 534⟩,
  ⟨.lfsx, .x, .floatLoad, 31, some 535⟩, ⟨.srw, .x, .intShift, 31, some 536⟩,
  ⟨.srd, .x, .intShift, 31, some 539⟩, ⟨.lvrx, .x, .vectorLoad, 31, some 551⟩,
  ⟨.lfsux, .x, .floatLoad, 31, some 567⟩, ⟨.sync, .x, .system, 31, some 598⟩,
  ⟨.lfdx, .x, .floatLoad, 31, some 599⟩, ⟨.lfdux, .x, .floatLoad, 31, some 631⟩,
  ⟨.stvlx, .x, .vectorStore, 31, some 647⟩, ⟨.stwbrx, .x, .intStore, 31, some 662⟩,
  ⟨.stfsx, .x, .floatStore, 31, some 663⟩, ⟨.stvrx, .x, .vectorStore, 31, some 679⟩,
  ⟨.stfsux, .x, .floatStore, 31, some 695⟩, ⟨.stfdx, .x, .floatStore, 31, some 727⟩,
  ⟨.stfdux, .x, .floatStore, 31, some 759⟩, ⟨.lvlxl, .x, .vectorLoad, 31, some 775⟩,
  ⟨.lhbrx, .x, .intLoad, 31, some 790⟩, ⟨.sraw, .x, .intShift, 31, some 792⟩,
  ⟨.srad, .x, .intShift, 31, some 794⟩, ⟨.lvrxl, .x, .vectorLoad, 31, some 807⟩,
  ⟨.srawi, .x, .intShift, 31, some 824⟩, ⟨.eieio, .x, .system, 31, some 854⟩,
  ⟨.stvlxl, .x, .vectorStore, 31, some 903⟩, ⟨.sthbrx, .x, .intStore, 31, some 918⟩,
  ⟨.extsh, .x, .intLogical, 31, some 922⟩, ⟨.stvrxl, .x, .vectorStore, 31, some 935⟩,
  ⟨.extsb, .x, .intLogical, 31, some 954⟩, ⟨.icbi, .x, .cache, 31, some 982⟩,
  ⟨.stfiwx, .x, .floatStore, 31, some 983⟩, ⟨.extsw, .x, .intLogical, 31, some 986⟩,
  ⟨.dcbz, .x, .cache, 31, some 1014⟩]

/-- Single-precision arithmetic. -/
def singleEntries : List Descriptor := [
  ⟨.fdivs, .a, .floatArithmetic, 59, some 18⟩, ⟨.fsubs, .a, .floatArithmetic, 59, some 20⟩,
  ⟨.fadds, .a, .floatArithmetic, 59, some 21⟩, ⟨.fsqrts, .a, .floatArithmetic, 59, some 22⟩,
  ⟨.fres, .a, .floatArithmetic, 59, some 24⟩, ⟨.fmuls, .a, .floatArithmetic, 59, some 25⟩,
  ⟨.fmsubs, .a, .floatArithmetic, 59, some 28⟩, ⟨.fmadds, .a, .floatArithmetic, 59, some 29⟩,
  ⟨.fnmsubs, .a, .floatArithmetic, 59, some 30⟩, ⟨.fnmadds, .a, .floatArithmetic, 59, some 31⟩]

/-- Double-precision arithmetic. -/
def doubleEntries : List Descriptor := [
  ⟨.fdiv, .a, .floatArithmetic, 63, some 18⟩, ⟨.fsub, .a, .floatArithmetic, 63, some 20⟩,
  ⟨.fadd, .a, .floatArithmetic, 63, some 21⟩, ⟨.fsqrt, .a, .floatArithmetic, 63, some 22⟩,
  ⟨.fsel, .a, .floatArithmetic, 63, some 23⟩, ⟨.fmul, .a, .floatArithmetic, 63, some 25⟩,
  ⟨.frsqrte, .a, .floatArithmetic, 63, some 26⟩, ⟨.fmsub, .a, .floatArithmetic, 63, some 28⟩,
  ⟨.fmadd, .a, .floatArithmetic, 63, some 29⟩, ⟨.fnmsub, .a, .floatArithmetic, 63, some 30⟩,
  ⟨.fnmadd, .a, .floatArithmetic, 63, some 31⟩]

/-- Floating-point moves, comparisons, conversions and status. -/
def floatEntries : List Descriptor := [
  ⟨.fcmpu, .x, .floatCompare, 63, some 0⟩, ⟨.frsp, .x, .floatArithmetic, 63, some 12⟩,
  ⟨.fctiw, .x, .floatArithmetic, 63, some 14⟩, ⟨.fctiwz, .x, .floatArithmetic, 63, some 15⟩,
  ⟨.fcmpo, .x, .floatCompare, 63, some 32⟩, ⟨.mtfsb1, .x, .floatControl, 63, some 38⟩,
  ⟨.fneg, .x, .floatMove, 63, some 40⟩, ⟨.mcrfs, .x, .floatControl, 63, some 64⟩,
  ⟨.mtfsb0, .x, .floatControl, 63, some 70⟩, ⟨.fmr, .x, .floatMove, 63, some 72⟩,
  ⟨.mtfsfi, .x, .floatControl, 63, some 134⟩, ⟨.fnabs, .x, .floatMove, 63, some 136⟩,
  ⟨.fabs, .x, .floatMove, 63, some 264⟩, ⟨.mffs, .x, .floatControl, 63, some 583⟩,
  ⟨.mtfsf, .xfl, .floatControl, 63, some 711⟩, ⟨.fctid, .x, .floatArithmetic, 63, some 814⟩,
  ⟨.fctidz, .x, .floatArithmetic, 63, some 815⟩, ⟨.fcfid, .x, .floatArithmetic, 63, some 846⟩]

/-- Vector operations on two registers. -/
def vectorEntries : List Descriptor := [
  ⟨.vaddubm, .vx, .vectorInteger, 4, some 0⟩, ⟨.vmaxub, .vx, .vectorInteger, 4, some 2⟩,
  ⟨.vrlb, .vx, .vectorInteger, 4, some 4⟩, ⟨.vmuloub, .vx, .vectorInteger, 4, some 8⟩,
  ⟨.vaddfp, .vx, .vectorFloat, 4, some 10⟩, ⟨.vmrghb, .vx, .vectorPermute, 4, some 12⟩,
  ⟨.vpkuhum, .vx, .vectorPermute, 4, some 14⟩, ⟨.vadduhm, .vx, .vectorInteger, 4, some 64⟩,
  ⟨.vmaxuh, .vx, .vectorInteger, 4, some 66⟩, ⟨.vrlh, .vx, .vectorInteger, 4, some 68⟩,
  ⟨.vsubfp, .vx, .vectorFloat, 4, some 74⟩, ⟨.vmrghh, .vx, .vectorPermute, 4, some 76⟩,
  ⟨.vpkuwum, .vx, .vectorPermute, 4, some 78⟩, ⟨.vadduwm, .vx, .vectorInteger, 4, some 128⟩,
  ⟨.vmaxuw, .vx, .vectorInteger, 4, some 130⟩, ⟨.vrlw, .vx, .vectorInteger, 4, some 132⟩,
  ⟨.vmrghw, .vx, .vectorPermute, 4, some 140⟩, ⟨.vpkuhus, .vx, .vectorPermute, 4, some 142⟩,
  ⟨.vpkuwus, .vx, .vectorPermute, 4, some 206⟩, ⟨.vmaxsb, .vx, .vectorInteger, 4, some 258⟩,
  ⟨.vslb, .vx, .vectorInteger, 4, some 260⟩, ⟨.vrefp, .vx, .vectorFloat, 4, some 266⟩,
  ⟨.vmrglb, .vx, .vectorPermute, 4, some 268⟩, ⟨.vpkshus, .vx, .vectorPermute, 4, some 270⟩,
  ⟨.vmaxsh, .vx, .vectorInteger, 4, some 322⟩, ⟨.vslh, .vx, .vectorInteger, 4, some 324⟩,
  ⟨.vrsqrtefp, .vx, .vectorFloat, 4, some 330⟩, ⟨.vmrglh, .vx, .vectorPermute, 4, some 332⟩,
  ⟨.vpkswus, .vx, .vectorPermute, 4, some 334⟩, ⟨.vaddcuw, .vx, .vectorInteger, 4, some 384⟩,
  ⟨.vmaxsw, .vx, .vectorInteger, 4, some 386⟩, ⟨.vslw, .vx, .vectorInteger, 4, some 388⟩,
  ⟨.vexptefp, .vx, .vectorFloat, 4, some 394⟩, ⟨.vmrglw, .vx, .vectorPermute, 4, some 396⟩,
  ⟨.vpkshss, .vx, .vectorPermute, 4, some 398⟩, ⟨.vsl, .vx, .vectorPermute, 4, some 452⟩,
  ⟨.vlogefp, .vx, .vectorFloat, 4, some 458⟩, ⟨.vpkswss, .vx, .vectorPermute, 4, some 462⟩,
  ⟨.vaddubs, .vx, .vectorInteger, 4, some 512⟩, ⟨.vminub, .vx, .vectorInteger, 4, some 514⟩,
  ⟨.vsrb, .vx, .vectorInteger, 4, some 516⟩, ⟨.vrfin, .vx, .vectorFloat, 4, some 522⟩,
  ⟨.vspltb, .vx, .vectorPermute, 4, some 524⟩, ⟨.vupkhsb, .vx, .vectorPermute, 4, some 526⟩,
  ⟨.vadduhs, .vx, .vectorInteger, 4, some 576⟩, ⟨.vminuh, .vx, .vectorInteger, 4, some 578⟩,
  ⟨.vsrh, .vx, .vectorInteger, 4, some 580⟩, ⟨.vrfiz, .vx, .vectorFloat, 4, some 586⟩,
  ⟨.vsplth, .vx, .vectorPermute, 4, some 588⟩, ⟨.vupkhsh, .vx, .vectorPermute, 4, some 590⟩,
  ⟨.vadduws, .vx, .vectorInteger, 4, some 640⟩, ⟨.vminuw, .vx, .vectorInteger, 4, some 642⟩,
  ⟨.vsrw, .vx, .vectorInteger, 4, some 644⟩, ⟨.vrfip, .vx, .vectorFloat, 4, some 650⟩,
  ⟨.vspltw, .vx, .vectorPermute, 4, some 652⟩, ⟨.vupklsb, .vx, .vectorPermute, 4, some 654⟩,
  ⟨.vsr, .vx, .vectorPermute, 4, some 708⟩, ⟨.vrfim, .vx, .vectorFloat, 4, some 714⟩,
  ⟨.vupklsh, .vx, .vectorPermute, 4, some 718⟩, ⟨.vaddsbs, .vx, .vectorInteger, 4, some 768⟩,
  ⟨.vminsb, .vx, .vectorInteger, 4, some 770⟩, ⟨.vsrab, .vx, .vectorInteger, 4, some 772⟩,
  ⟨.vcfux, .vx, .vectorFloat, 4, some 778⟩, ⟨.vspltisb, .vx, .vectorPermute, 4, some 780⟩,
  ⟨.vpkpx, .vx, .vectorPermute, 4, some 782⟩, ⟨.vaddshs, .vx, .vectorInteger, 4, some 832⟩,
  ⟨.vminsh, .vx, .vectorInteger, 4, some 834⟩, ⟨.vsrah, .vx, .vectorInteger, 4, some 836⟩,
  ⟨.vcfsx, .vx, .vectorFloat, 4, some 842⟩, ⟨.vspltish, .vx, .vectorPermute, 4, some 844⟩,
  ⟨.vupkhpx, .vx, .vectorPermute, 4, some 846⟩, ⟨.vaddsws, .vx, .vectorInteger, 4, some 896⟩,
  ⟨.vminsw, .vx, .vectorInteger, 4, some 898⟩, ⟨.vsraw, .vx, .vectorInteger, 4, some 900⟩,
  ⟨.vctuxs, .vx, .vectorFloat, 4, some 906⟩, ⟨.vspltisw, .vx, .vectorPermute, 4, some 908⟩,
  ⟨.vctsxs, .vx, .vectorFloat, 4, some 970⟩, ⟨.vupklpx, .vx, .vectorPermute, 4, some 974⟩,
  ⟨.vsububm, .vx, .vectorInteger, 4, some 1024⟩, ⟨.vavgub, .vx, .vectorInteger, 4, some 1026⟩,
  ⟨.vand, .vx, .vectorInteger, 4, some 1028⟩, ⟨.vmaxfp, .vx, .vectorFloat, 4, some 1034⟩,
  ⟨.vslo, .vx, .vectorPermute, 4, some 1036⟩, ⟨.vsubuhm, .vx, .vectorInteger, 4, some 1088⟩,
  ⟨.vavguh, .vx, .vectorInteger, 4, some 1090⟩, ⟨.vandc, .vx, .vectorInteger, 4, some 1092⟩,
  ⟨.vminfp, .vx, .vectorFloat, 4, some 1098⟩, ⟨.vsro, .vx, .vectorPermute, 4, some 1100⟩,
  ⟨.vsubuwm, .vx, .vectorInteger, 4, some 1152⟩, ⟨.vavguw, .vx, .vectorInteger, 4, some 1154⟩,
  ⟨.vor, .vx, .vectorInteger, 4, some 1156⟩, ⟨.vxor, .vx, .vectorInteger, 4, some 1220⟩,
  ⟨.vavgsb, .vx, .vectorInteger, 4, some 1282⟩, ⟨.vnor, .vx, .vectorInteger, 4, some 1284⟩,
  ⟨.vavgsh, .vx, .vectorInteger, 4, some 1346⟩, ⟨.vsubcuw, .vx, .vectorInteger, 4, some 1408⟩,
  ⟨.vavgsw, .vx, .vectorInteger, 4, some 1410⟩, ⟨.vsububs, .vx, .vectorInteger, 4, some 1536⟩,
  ⟨.mfvscr, .vx, .vectorControl, 4, some 1540⟩, ⟨.vsum4ubs, .vx, .vectorInteger, 4, some 1544⟩,
  ⟨.vsubuhs, .vx, .vectorInteger, 4, some 1600⟩, ⟨.mtvscr, .vx, .vectorControl, 4, some 1604⟩,
  ⟨.vsum4shs, .vx, .vectorInteger, 4, some 1608⟩, ⟨.vsubuws, .vx, .vectorInteger, 4, some 1664⟩,
  ⟨.vsum2sws, .vx, .vectorInteger, 4, some 1672⟩, ⟨.vsubsbs, .vx, .vectorInteger, 4, some 1792⟩,
  ⟨.vsum4sbs, .vx, .vectorInteger, 4, some 1800⟩, ⟨.vsubshs, .vx, .vectorInteger, 4, some 1856⟩,
  ⟨.vsubsws, .vx, .vectorInteger, 4, some 1920⟩, ⟨.vsumsws, .vx, .vectorInteger, 4, some 1928⟩]

/-- Vector comparisons. -/
def vectorCompareEntries : List Descriptor := [
  ⟨.vcmpequb, .vxr, .vectorInteger, 4, some 6⟩, ⟨.vcmpequh, .vxr, .vectorInteger, 4, some 70⟩,
  ⟨.vcmpequw, .vxr, .vectorInteger, 4, some 134⟩, ⟨.vcmpeqfp, .vxr, .vectorFloat, 4, some 198⟩,
  ⟨.vcmpgefp, .vxr, .vectorFloat, 4, some 454⟩, ⟨.vcmpgtub, .vxr, .vectorInteger, 4, some 518⟩,
  ⟨.vcmpgtuh, .vxr, .vectorInteger, 4, some 582⟩, ⟨.vcmpgtuw, .vxr, .vectorInteger, 4, some 646⟩,
  ⟨.vcmpgtfp, .vxr, .vectorFloat, 4, some 710⟩, ⟨.vcmpgtsb, .vxr, .vectorInteger, 4, some 774⟩,
  ⟨.vcmpgtsh, .vxr, .vectorInteger, 4, some 838⟩, ⟨.vcmpgtsw, .vxr, .vectorInteger, 4, some 902⟩,
  ⟨.vcmpbfp, .vxr, .vectorFloat, 4, some 966⟩]

/-- Vector operations on three registers. -/
def vectorTernaryEntries : List Descriptor := [
  ⟨.vmhaddshs, .va, .vectorInteger, 4, some 32⟩, ⟨.vmhraddshs, .va, .vectorInteger, 4, some 33⟩,
  ⟨.vmladduhm, .va, .vectorInteger, 4, some 34⟩, ⟨.vmsumubm, .va, .vectorInteger, 4, some 36⟩,
  ⟨.vmsummbm, .va, .vectorInteger, 4, some 37⟩, ⟨.vmsumuhm, .va, .vectorInteger, 4, some 38⟩,
  ⟨.vmsumuhs, .va, .vectorInteger, 4, some 39⟩, ⟨.vmsumshm, .va, .vectorInteger, 4, some 40⟩,
  ⟨.vmsumshs, .va, .vectorInteger, 4, some 41⟩, ⟨.vsel, .va, .vectorInteger, 4, some 42⟩,
  ⟨.vperm, .va, .vectorPermute, 4, some 43⟩, ⟨.vsldoi, .va, .vectorPermute, 4, some 44⟩,
  ⟨.vmaddfp, .va, .vectorFloat, 4, some 46⟩, ⟨.vnmsubfp, .va, .vectorFloat, 4, some 47⟩]

/-- Loads, stores and the immediate shift of the 128-register vector unit. -/
def extendedMemoryEntries : List Descriptor := [
  ⟨.lvsl128, .vx128_1, .vectorLoad, 4, some 3⟩, ⟨.lvsr128, .vx128_1, .vectorLoad, 4, some 67⟩,
  ⟨.lvewx128, .vx128_1, .vectorLoad, 4, some 131⟩, ⟨.lvx128, .vx128_1, .vectorLoad, 4, some 195⟩,
  ⟨.stvewx128, .vx128_1, .vectorStore, 4, some 387⟩,
  ⟨.stvx128, .vx128_1, .vectorStore, 4, some 451⟩, ⟨.lvxl128, .vx128_1, .vectorLoad, 4, some 707⟩,
  ⟨.stvxl128, .vx128_1, .vectorStore, 4, some 963⟩,
  ⟨.lvlx128, .vx128_1, .vectorLoad, 4, some 1027⟩,
  ⟨.lvrx128, .vx128_1, .vectorLoad, 4, some 1091⟩,
  ⟨.stvlx128, .vx128_1, .vectorStore, 4, some 1283⟩,
  ⟨.stvrx128, .vx128_1, .vectorStore, 4, some 1347⟩,
  ⟨.lvlxl128, .vx128_1, .vectorLoad, 4, some 1539⟩,
  ⟨.lvrxl128, .vx128_1, .vectorLoad, 4, some 1603⟩,
  ⟨.stvlxl128, .vx128_1, .vectorStore, 4, some 1795⟩,
  ⟨.stvrxl128, .vx128_1, .vectorStore, 4, some 1859⟩,
  ⟨.vsldoi128, .vx128_5, .vectorPermute, 4, some 16⟩]

/-- Arithmetic, logic and packing of the 128-register vector unit. -/
def extendedArithmeticEntries : List Descriptor := [
  ⟨.vperm128, .vx128_2, .vectorPermute, 5, some 0⟩,
  ⟨.vaddfp128, .vx128, .vectorFloat, 5, some 16⟩, ⟨.vsubfp128, .vx128, .vectorFloat, 5, some 80⟩,
  ⟨.vmulfp128, .vx128, .vectorFloat, 5, some 144⟩,
  ⟨.vmaddfp128, .vx128, .vectorFloat, 5, some 208⟩,
  ⟨.vmaddcfp128, .vx128, .vectorFloat, 5, some 272⟩,
  ⟨.vnmsubfp128, .vx128, .vectorFloat, 5, some 336⟩,
  ⟨.vmsum3fp128, .vx128, .vectorFloat, 5, some 400⟩,
  ⟨.vmsum4fp128, .vx128, .vectorFloat, 5, some 464⟩,
  ⟨.vpkshss128, .vx128, .vectorPermute, 5, some 512⟩,
  ⟨.vand128, .vx128, .vectorInteger, 5, some 528⟩,
  ⟨.vpkshus128, .vx128, .vectorPermute, 5, some 576⟩,
  ⟨.vandc128, .vx128, .vectorInteger, 5, some 592⟩,
  ⟨.vpkswss128, .vx128, .vectorPermute, 5, some 640⟩,
  ⟨.vnor128, .vx128, .vectorInteger, 5, some 656⟩,
  ⟨.vpkswus128, .vx128, .vectorPermute, 5, some 704⟩,
  ⟨.vor128, .vx128, .vectorInteger, 5, some 720⟩,
  ⟨.vpkuhum128, .vx128, .vectorPermute, 5, some 768⟩,
  ⟨.vxor128, .vx128, .vectorInteger, 5, some 784⟩,
  ⟨.vpkuhus128, .vx128, .vectorPermute, 5, some 832⟩,
  ⟨.vsel128, .vx128, .vectorInteger, 5, some 848⟩,
  ⟨.vpkuwum128, .vx128, .vectorPermute, 5, some 896⟩,
  ⟨.vslo128, .vx128, .vectorPermute, 5, some 912⟩,
  ⟨.vpkuwus128, .vx128, .vectorPermute, 5, some 960⟩,
  ⟨.vsro128, .vx128, .vectorPermute, 5, some 976⟩]

/-- Conversions, comparisons, merges and shifts of the 128-register vector unit. -/
def extendedUnaryEntries : List Descriptor := [
  ⟨.vpermwi128, .vx128_p, .vectorPermute, 6, some 528⟩,
  ⟨.vcfpsxws128, .vx128_3, .vectorFloat, 6, some 560⟩,
  ⟨.vcfpuxws128, .vx128_3, .vectorFloat, 6, some 624⟩,
  ⟨.vcsxwfp128, .vx128_3, .vectorFloat, 6, some 688⟩,
  ⟨.vcuxwfp128, .vx128_3, .vectorFloat, 6, some 752⟩,
  ⟨.vrfim128, .vx128_3, .vectorFloat, 6, some 816⟩,
  ⟨.vrfin128, .vx128_3, .vectorFloat, 6, some 880⟩,
  ⟨.vrfip128, .vx128_3, .vectorFloat, 6, some 944⟩,
  ⟨.vrfiz128, .vx128_3, .vectorFloat, 6, some 1008⟩,
  ⟨.vpkd3d128, .vx128_4, .vectorPermute, 6, some 1552⟩,
  ⟨.vrefp128, .vx128_3, .vectorFloat, 6, some 1584⟩,
  ⟨.vrsqrtefp128, .vx128_3, .vectorFloat, 6, some 1648⟩,
  ⟨.vexptefp128, .vx128_3, .vectorFloat, 6, some 1712⟩,
  ⟨.vlogefp128, .vx128_3, .vectorFloat, 6, some 1776⟩,
  ⟨.vrlimi128, .vx128_4, .vectorPermute, 6, some 1808⟩,
  ⟨.vspltw128, .vx128_3, .vectorPermute, 6, some 1840⟩,
  ⟨.vspltisw128, .vx128_3, .vectorPermute, 6, some 1904⟩,
  ⟨.vupkd3d128, .vx128_3, .vectorPermute, 6, some 2032⟩,
  ⟨.vcmpeqfp128, .vx128_r, .vectorFloat, 6, some 0⟩,
  ⟨.vcmpgefp128, .vx128_r, .vectorFloat, 6, some 128⟩,
  ⟨.vcmpgtfp128, .vx128_r, .vectorFloat, 6, some 256⟩,
  ⟨.vcmpbfp128, .vx128_r, .vectorFloat, 6, some 384⟩,
  ⟨.vcmpequw128, .vx128_r, .vectorInteger, 6, some 512⟩,
  ⟨.vrlw128, .vx128, .vectorInteger, 6, some 80⟩, ⟨.vslw128, .vx128, .vectorInteger, 6, some 208⟩,
  ⟨.vsraw128, .vx128, .vectorInteger, 6, some 336⟩,
  ⟨.vsrw128, .vx128, .vectorInteger, 6, some 464⟩,
  ⟨.vmaxfp128, .vx128, .vectorFloat, 6, some 640⟩,
  ⟨.vminfp128, .vx128, .vectorFloat, 6, some 704⟩,
  ⟨.vmrghw128, .vx128, .vectorPermute, 6, some 768⟩,
  ⟨.vmrglw128, .vx128, .vectorPermute, 6, some 832⟩,
  ⟨.vupkhsb128, .vx128, .vectorPermute, 6, some 896⟩,
  ⟨.vupklsb128, .vx128, .vectorPermute, 6, some 960⟩]

/-- Every encoding that a word can have. -/
def table : List Descriptor :=
  primaryEntries ++ doublewordEntries ++ linkEntries ++ rotateEntries ++ arithmeticEntries ++
    shiftEntries ++ indexedEntries ++ singleEntries ++ doubleEntries ++ floatEntries ++
    vectorEntries ++ vectorCompareEntries ++ vectorTernaryEntries ++ extendedMemoryEntries ++
    extendedArithmeticEntries ++ extendedUnaryEntries

/-- Descriptors of the simplified forms. They share their encodings with operations of the table. -/
def simplified : List Descriptor := [
  ⟨.bl, .i, .branch, 18, none⟩, ⟨.bcl, .b, .branch, 16, none⟩,
  ⟨.blr, .xl, .branch, 19, some 16⟩, ⟨.blrl, .xl, .branch, 19, some 16⟩,
  ⟨.bctr, .xl, .branch, 19, some 528⟩, ⟨.bctrl, .xl, .branch, 19, some 528⟩,
  ⟨.nop, .d, .intLogical, 24, none⟩, ⟨.li, .d, .intArithmetic, 14, none⟩,
  ⟨.lis, .d, .intArithmetic, 15, none⟩, ⟨.mr, .x, .intLogical, 31, some 444⟩,
  ⟨.mflr, .xfx, .specialRegister, 31, some 339⟩, ⟨.mfctr, .xfx, .specialRegister, 31, some 339⟩,
  ⟨.mtlr, .xfx, .specialRegister, 31, some 467⟩, ⟨.mtctr, .xfx, .specialRegister, 31, some 467⟩]

/-- The formats to try for a primary opcode, the most specific first. -/
def probedFormats : Nat → List Format
  | 4 => [.vx, .vxr, .va, .vx128_1, .vx128_5]
  | 5 => [.vx128, .vx128_2]
  | 6 => [.vx128_3, .vx128_4, .vx128_p, .vx128_r, .vx128]
  | 19 => [.xl]
  | 30 => [.mds, .md]
  | 31 => [.xo, .x, .xs]
  | 58 | 62 => [.ds]
  | 59 => [.a]
  | 63 => [.a, .x]
  | _ => []

def probeOrder (primary : Nat) : List Field :=
  (probedFormats primary).filterMap Format.extended?

/-- The descriptor of a word, trying the extended fields of its primary opcode in the given order
where the primary opcode alone decides nothing. -/
def lookupWith (order : Nat → List Field) (word : UInt32) : Descriptor :=
  let primary := Field.primary.read word
  match table.find? fun entry => entry.primary == primary && entry.extended.isNone with
  | some entry => entry
  | none =>
    ((order primary).findSome? fun field =>
      let value := field.read word
      table.find? fun entry =>
        entry.primary == primary && entry.extended == some value && entry.field? == some field)
    |>.getD unknown

def lookup : UInt32 → Descriptor :=
  lookupWith probeOrder

/-- The descriptor of an operation, simplified forms included. -/
def ofOpcode (opcode : Opcode) : Descriptor :=
  (simplified ++ table).find? (·.opcode == opcode) |>.getD unknown

end Descriptor

end PowerLift
