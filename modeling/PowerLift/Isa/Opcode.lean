/-!
The operations of the instruction set: PowerPC with the AltiVec and VMX128 vector extensions,
the simplified forms that decoding singles out (`blr`, `nop`, `li`, `mflr`, ...), and `unknown`
for words that encode nothing.
-/

namespace PowerLift

inductive Opcode where
  | unknown
  | b | bl | bc | bcl | bclr | blr | blrl | bcctr | bctr | bctrl | sc | rfid | tw | twi | td | tdi
  | sync | isync | eieio | mfmsr | mtmsr | mtmsrd
  | mcrf | crand | crandc | creqv | crnand | crnor | cror | crorc | crxor | mfcr | mtcrf
  | mfspr | mtspr | mftb | mflr | mtlr | mfctr | mtctr
  | addi | addis | li | lis | addic | addicRc | subfic | mulli | add | addc | adde | addme | addze
  | subf | subfc | subfe | subfme | subfze | neg | mullw | mulhw | mulhwu | mulld | mulhd | mulhdu
  | divw | divwu | divd | divdu
  | ori | oris | xori | xoris | andiRc | andisRc | nop | and | andc | or | orc | mr | xor | nand
  | nor | eqv | extsb | extsh | extsw | cntlzw | cntlzd
  | cmp | cmpl | cmpi | cmpli
  | rlwimi | rlwinm | rlwnm | rldicl | rldicr | rldic | rldimi | rldcl | rldcr | slw | srw | sraw
  | srawi | sld | srd | srad | sradi
  | lbz | lbzu | lbzx | lbzux | lhz | lhzu | lhzx | lhzux | lha | lhau | lhax | lhaux | lwz | lwzu
  | lwzx | lwzux | lwa | lwax | lwaux | ld | ldu | ldx | lhbrx | lwbrx | lwarx | ldarx | lmw
  | stb | stbu | stbx | stbux | sth | sthu | sthx | sthux | stw | stwu | stwx | stwux | std | stdu
  | stdx | stdux | sthbrx | stwbrx | stwcxRc | stdcxRc | stmw
  | dcbf | dcbst | dcbt | dcbtst | dcbz | dcbi | icbi
  | lfs | lfsu | lfsx | lfsux | lfd | lfdu | lfdx | lfdux | stfs | stfsu | stfsx | stfsux | stfd
  | stfdu | stfdx | stfdux | stfiwx
  | fadd | fadds | fsub | fsubs | fmul | fmuls | fdiv | fdivs | fsqrt | fsqrts | fres | frsqrte
  | fsel | fmadd | fmadds | fmsub | fmsubs | fnmadd | fnmadds | fnmsub | fnmsubs | fmr | fneg
  | fabs | fnabs | frsp | fctiw | fctiwz | fctid | fctidz | fcfid | fcmpu | fcmpo | mffs | mtfsf
  | mtfsfi | mtfsb0 | mtfsb1 | mcrfs
  | lvx | lvxl | lvebx | lvehx | lvewx | lvsl | lvsr | lvlx | lvrx | lvlxl | lvrxl | stvx | stvxl
  | stvebx | stvehx | stvewx | stvlx | stvrx | stvlxl | stvrxl
  | vaddubm | vadduhm | vadduwm | vaddcuw | vaddubs | vadduhs | vadduws | vaddsbs | vaddshs
  | vaddsws | vsububm | vsubuhm | vsubuwm | vsubcuw | vsububs | vsubuhs | vsubuws | vsubsbs
  | vsubshs | vsubsws | vmaxub | vmaxuh | vmaxuw | vmaxsb | vmaxsh | vmaxsw | vminub | vminuh
  | vminuw | vminsb | vminsh | vminsw | vavgub | vavguh | vavguw | vavgsb | vavgsh | vavgsw | vrlb
  | vrlh | vrlw | vslb | vslh | vslw | vsrb | vsrh | vsrw | vsrab | vsrah | vsraw | vsl | vsr
  | vslo | vsro | vand | vandc | vor | vxor | vnor | vmrghb | vmrghh | vmrghw | vmrglb | vmrglh
  | vmrglw | vpkuhum | vpkuwum | vpkuhus | vpkuwus | vpkshus | vpkswus | vpkshss | vpkswss | vpkpx
  | vupkhsb | vupkhsh | vupklsb | vupklsh | vupkhpx | vupklpx | vspltb | vsplth | vspltw
  | vspltisb | vspltish | vspltisw | vmuloub | vsum4ubs | vsum4sbs | vsum4shs | vsum2sws | vsumsws
  | vaddfp | vsubfp | vmaxfp | vminfp | vrefp | vrsqrtefp | vexptefp | vlogefp | vrfin | vrfiz
  | vrfip | vrfim | vcfux | vcfsx | vctuxs | vctsxs | mfvscr | mtvscr
  | vcmpequb | vcmpequh | vcmpequw | vcmpeqfp | vcmpgefp | vcmpgtfp | vcmpbfp | vcmpgtub
  | vcmpgtuh | vcmpgtuw | vcmpgtsb | vcmpgtsh | vcmpgtsw
  | vmhaddshs | vmhraddshs | vmladduhm | vmsumubm | vmsummbm | vmsumuhm | vmsumuhs | vmsumshm
  | vmsumshs | vsel | vperm | vsldoi | vmaddfp | vnmsubfp
  | lvsl128 | lvsr128 | lvewx128 | lvx128 | lvxl128 | lvlx128 | lvrx128 | lvlxl128 | lvrxl128
  | stvewx128 | stvx128 | stvxl128 | stvlx128 | stvrx128 | stvlxl128 | stvrxl128 | vsldoi128
  | vperm128 | vaddfp128 | vsubfp128 | vmulfp128 | vmaddfp128 | vmaddcfp128 | vnmsubfp128
  | vmsum3fp128 | vmsum4fp128 | vpkshss128 | vpkshus128 | vpkswss128 | vpkswus128 | vpkuhum128
  | vpkuhus128 | vpkuwum128 | vpkuwus128 | vand128 | vandc128 | vnor128 | vor128 | vxor128
  | vsel128 | vslo128 | vsro128 | vpermwi128 | vcfpsxws128 | vcfpuxws128 | vcsxwfp128 | vcuxwfp128
  | vrfim128 | vrfin128 | vrfip128 | vrfiz128 | vpkd3d128 | vrefp128 | vrsqrtefp128 | vexptefp128
  | vlogefp128 | vrlimi128 | vspltw128 | vspltisw128 | vupkd3d128 | vcmpeqfp128 | vcmpgefp128
  | vcmpgtfp128 | vcmpbfp128 | vcmpequw128 | vrlw128 | vslw128 | vsraw128 | vsrw128 | vmaxfp128
  | vminfp128 | vmrghw128 | vmrglw128 | vupkhsb128 | vupklsb128
deriving DecidableEq, Inhabited

namespace Opcode

/-- The assembler mnemonic, without the suffixes that depend on the word. -/
def mnemonic : Opcode → String
  | .unknown => "unknown"
  | .b => "b" | .bl => "bl" | .bc => "bc" | .bcl => "bcl" | .bclr => "bclr" | .blr => "blr"
  | .blrl => "blrl" | .bcctr => "bcctr" | .bctr => "bctr" | .bctrl => "bctrl" | .sc => "sc"
  | .rfid => "rfid" | .tw => "tw" | .twi => "twi" | .td => "td" | .tdi => "tdi" | .sync => "sync"
  | .isync => "isync" | .eieio => "eieio" | .mfmsr => "mfmsr" | .mtmsr => "mtmsr"
  | .mtmsrd => "mtmsrd"
  | .mcrf => "mcrf" | .crand => "crand" | .crandc => "crandc" | .creqv => "creqv"
  | .crnand => "crnand" | .crnor => "crnor" | .cror => "cror" | .crorc => "crorc"
  | .crxor => "crxor" | .mfcr => "mfcr" | .mtcrf => "mtcrf"
  | .mfspr => "mfspr" | .mtspr => "mtspr" | .mftb => "mftb" | .mflr => "mflr" | .mtlr => "mtlr"
  | .mfctr => "mfctr" | .mtctr => "mtctr"
  | .addi => "addi" | .addis => "addis" | .li => "li" | .lis => "lis" | .addic => "addic"
  | .addicRc => "addic." | .subfic => "subfic" | .mulli => "mulli" | .add => "add"
  | .addc => "addc" | .adde => "adde" | .addme => "addme" | .addze => "addze" | .subf => "subf"
  | .subfc => "subfc" | .subfe => "subfe" | .subfme => "subfme" | .subfze => "subfze"
  | .neg => "neg" | .mullw => "mullw" | .mulhw => "mulhw" | .mulhwu => "mulhwu"
  | .mulld => "mulld" | .mulhd => "mulhd" | .mulhdu => "mulhdu" | .divw => "divw"
  | .divwu => "divwu" | .divd => "divd" | .divdu => "divdu"
  | .ori => "ori" | .oris => "oris" | .xori => "xori" | .xoris => "xoris" | .andiRc => "andi."
  | .andisRc => "andis." | .nop => "nop" | .and => "and" | .andc => "andc" | .or => "or"
  | .orc => "orc" | .mr => "mr" | .xor => "xor" | .nand => "nand" | .nor => "nor" | .eqv => "eqv"
  | .extsb => "extsb" | .extsh => "extsh" | .extsw => "extsw" | .cntlzw => "cntlzw"
  | .cntlzd => "cntlzd"
  | .cmp => "cmp" | .cmpl => "cmpl" | .cmpi => "cmpi" | .cmpli => "cmpli"
  | .rlwimi => "rlwimi" | .rlwinm => "rlwinm" | .rlwnm => "rlwnm" | .rldicl => "rldicl"
  | .rldicr => "rldicr" | .rldic => "rldic" | .rldimi => "rldimi" | .rldcl => "rldcl"
  | .rldcr => "rldcr" | .slw => "slw" | .srw => "srw" | .sraw => "sraw" | .srawi => "srawi"
  | .sld => "sld" | .srd => "srd" | .srad => "srad" | .sradi => "sradi"
  | .lbz => "lbz" | .lbzu => "lbzu" | .lbzx => "lbzx" | .lbzux => "lbzux" | .lhz => "lhz"
  | .lhzu => "lhzu" | .lhzx => "lhzx" | .lhzux => "lhzux" | .lha => "lha" | .lhau => "lhau"
  | .lhax => "lhax" | .lhaux => "lhaux" | .lwz => "lwz" | .lwzu => "lwzu" | .lwzx => "lwzx"
  | .lwzux => "lwzux" | .lwa => "lwa" | .lwax => "lwax" | .lwaux => "lwaux" | .ld => "ld"
  | .ldu => "ldu" | .ldx => "ldx" | .lhbrx => "lhbrx" | .lwbrx => "lwbrx" | .lwarx => "lwarx"
  | .ldarx => "ldarx" | .lmw => "lmw"
  | .stb => "stb" | .stbu => "stbu" | .stbx => "stbx" | .stbux => "stbux" | .sth => "sth"
  | .sthu => "sthu" | .sthx => "sthx" | .sthux => "sthux" | .stw => "stw" | .stwu => "stwu"
  | .stwx => "stwx" | .stwux => "stwux" | .std => "std" | .stdu => "stdu" | .stdx => "stdx"
  | .stdux => "stdux" | .sthbrx => "sthbrx" | .stwbrx => "stwbrx" | .stwcxRc => "stwcx."
  | .stdcxRc => "stdcx." | .stmw => "stmw"
  | .dcbf => "dcbf" | .dcbst => "dcbst" | .dcbt => "dcbt" | .dcbtst => "dcbtst" | .dcbz => "dcbz"
  | .dcbi => "dcbi" | .icbi => "icbi"
  | .lfs => "lfs" | .lfsu => "lfsu" | .lfsx => "lfsx" | .lfsux => "lfsux" | .lfd => "lfd"
  | .lfdu => "lfdu" | .lfdx => "lfdx" | .lfdux => "lfdux" | .stfs => "stfs" | .stfsu => "stfsu"
  | .stfsx => "stfsx" | .stfsux => "stfsux" | .stfd => "stfd" | .stfdu => "stfdu"
  | .stfdx => "stfdx" | .stfdux => "stfdux" | .stfiwx => "stfiwx"
  | .fadd => "fadd" | .fadds => "fadds" | .fsub => "fsub" | .fsubs => "fsubs" | .fmul => "fmul"
  | .fmuls => "fmuls" | .fdiv => "fdiv" | .fdivs => "fdivs" | .fsqrt => "fsqrt"
  | .fsqrts => "fsqrts" | .fres => "fres" | .frsqrte => "frsqrte" | .fsel => "fsel"
  | .fmadd => "fmadd" | .fmadds => "fmadds" | .fmsub => "fmsub" | .fmsubs => "fmsubs"
  | .fnmadd => "fnmadd" | .fnmadds => "fnmadds" | .fnmsub => "fnmsub" | .fnmsubs => "fnmsubs"
  | .fmr => "fmr" | .fneg => "fneg" | .fabs => "fabs" | .fnabs => "fnabs" | .frsp => "frsp"
  | .fctiw => "fctiw" | .fctiwz => "fctiwz" | .fctid => "fctid" | .fctidz => "fctidz"
  | .fcfid => "fcfid" | .fcmpu => "fcmpu" | .fcmpo => "fcmpo" | .mffs => "mffs"
  | .mtfsf => "mtfsf" | .mtfsfi => "mtfsfi" | .mtfsb0 => "mtfsb0" | .mtfsb1 => "mtfsb1"
  | .mcrfs => "mcrfs"
  | .lvx => "lvx" | .lvxl => "lvxl" | .lvebx => "lvebx" | .lvehx => "lvehx" | .lvewx => "lvewx"
  | .lvsl => "lvsl" | .lvsr => "lvsr" | .lvlx => "lvlx" | .lvrx => "lvrx" | .lvlxl => "lvlxl"
  | .lvrxl => "lvrxl" | .stvx => "stvx" | .stvxl => "stvxl" | .stvebx => "stvebx"
  | .stvehx => "stvehx" | .stvewx => "stvewx" | .stvlx => "stvlx" | .stvrx => "stvrx"
  | .stvlxl => "stvlxl" | .stvrxl => "stvrxl"
  | .vaddubm => "vaddubm" | .vadduhm => "vadduhm" | .vadduwm => "vadduwm" | .vaddcuw => "vaddcuw"
  | .vaddubs => "vaddubs" | .vadduhs => "vadduhs" | .vadduws => "vadduws" | .vaddsbs => "vaddsbs"
  | .vaddshs => "vaddshs" | .vaddsws => "vaddsws" | .vsububm => "vsububm" | .vsubuhm => "vsubuhm"
  | .vsubuwm => "vsubuwm" | .vsubcuw => "vsubcuw" | .vsububs => "vsububs" | .vsubuhs => "vsubuhs"
  | .vsubuws => "vsubuws" | .vsubsbs => "vsubsbs" | .vsubshs => "vsubshs" | .vsubsws => "vsubsws"
  | .vmaxub => "vmaxub" | .vmaxuh => "vmaxuh" | .vmaxuw => "vmaxuw" | .vmaxsb => "vmaxsb"
  | .vmaxsh => "vmaxsh" | .vmaxsw => "vmaxsw" | .vminub => "vminub" | .vminuh => "vminuh"
  | .vminuw => "vminuw" | .vminsb => "vminsb" | .vminsh => "vminsh" | .vminsw => "vminsw"
  | .vavgub => "vavgub" | .vavguh => "vavguh" | .vavguw => "vavguw" | .vavgsb => "vavgsb"
  | .vavgsh => "vavgsh" | .vavgsw => "vavgsw" | .vrlb => "vrlb" | .vrlh => "vrlh"
  | .vrlw => "vrlw" | .vslb => "vslb" | .vslh => "vslh" | .vslw => "vslw" | .vsrb => "vsrb"
  | .vsrh => "vsrh" | .vsrw => "vsrw" | .vsrab => "vsrab" | .vsrah => "vsrah" | .vsraw => "vsraw"
  | .vsl => "vsl" | .vsr => "vsr" | .vslo => "vslo" | .vsro => "vsro" | .vand => "vand"
  | .vandc => "vandc" | .vor => "vor" | .vxor => "vxor" | .vnor => "vnor" | .vmrghb => "vmrghb"
  | .vmrghh => "vmrghh" | .vmrghw => "vmrghw" | .vmrglb => "vmrglb" | .vmrglh => "vmrglh"
  | .vmrglw => "vmrglw" | .vpkuhum => "vpkuhum" | .vpkuwum => "vpkuwum" | .vpkuhus => "vpkuhus"
  | .vpkuwus => "vpkuwus" | .vpkshus => "vpkshus" | .vpkswus => "vpkswus" | .vpkshss => "vpkshss"
  | .vpkswss => "vpkswss" | .vpkpx => "vpkpx" | .vupkhsb => "vupkhsb" | .vupkhsh => "vupkhsh"
  | .vupklsb => "vupklsb" | .vupklsh => "vupklsh" | .vupkhpx => "vupkhpx" | .vupklpx => "vupklpx"
  | .vspltb => "vspltb" | .vsplth => "vsplth" | .vspltw => "vspltw" | .vspltisb => "vspltisb"
  | .vspltish => "vspltish" | .vspltisw => "vspltisw" | .vmuloub => "vmuloub"
  | .vsum4ubs => "vsum4ubs" | .vsum4sbs => "vsum4sbs" | .vsum4shs => "vsum4shs"
  | .vsum2sws => "vsum2sws" | .vsumsws => "vsumsws" | .vaddfp => "vaddfp" | .vsubfp => "vsubfp"
  | .vmaxfp => "vmaxfp" | .vminfp => "vminfp" | .vrefp => "vrefp" | .vrsqrtefp => "vrsqrtefp"
  | .vexptefp => "vexptefp" | .vlogefp => "vlogefp" | .vrfin => "vrfin" | .vrfiz => "vrfiz"
  | .vrfip => "vrfip" | .vrfim => "vrfim" | .vcfux => "vcfux" | .vcfsx => "vcfsx"
  | .vctuxs => "vctuxs" | .vctsxs => "vctsxs" | .mfvscr => "mfvscr" | .mtvscr => "mtvscr"
  | .vcmpequb => "vcmpequb" | .vcmpequh => "vcmpequh" | .vcmpequw => "vcmpequw"
  | .vcmpeqfp => "vcmpeqfp" | .vcmpgefp => "vcmpgefp" | .vcmpgtfp => "vcmpgtfp"
  | .vcmpbfp => "vcmpbfp" | .vcmpgtub => "vcmpgtub" | .vcmpgtuh => "vcmpgtuh"
  | .vcmpgtuw => "vcmpgtuw" | .vcmpgtsb => "vcmpgtsb" | .vcmpgtsh => "vcmpgtsh"
  | .vcmpgtsw => "vcmpgtsw"
  | .vmhaddshs => "vmhaddshs" | .vmhraddshs => "vmhraddshs" | .vmladduhm => "vmladduhm"
  | .vmsumubm => "vmsumubm" | .vmsummbm => "vmsummbm" | .vmsumuhm => "vmsumuhm"
  | .vmsumuhs => "vmsumuhs" | .vmsumshm => "vmsumshm" | .vmsumshs => "vmsumshs" | .vsel => "vsel"
  | .vperm => "vperm" | .vsldoi => "vsldoi" | .vmaddfp => "vmaddfp" | .vnmsubfp => "vnmsubfp"
  | .lvsl128 => "lvsl128" | .lvsr128 => "lvsr128" | .lvewx128 => "lvewx128" | .lvx128 => "lvx128"
  | .lvxl128 => "lvxl128" | .lvlx128 => "lvlx128" | .lvrx128 => "lvrx128"
  | .lvlxl128 => "lvlxl128" | .lvrxl128 => "lvrxl128" | .stvewx128 => "stvewx128"
  | .stvx128 => "stvx128" | .stvxl128 => "stvxl128" | .stvlx128 => "stvlx128"
  | .stvrx128 => "stvrx128" | .stvlxl128 => "stvlxl128" | .stvrxl128 => "stvrxl128"
  | .vsldoi128 => "vsldoi128" | .vperm128 => "vperm128" | .vaddfp128 => "vaddfp128"
  | .vsubfp128 => "vsubfp128" | .vmulfp128 => "vmulfp128" | .vmaddfp128 => "vmaddfp128"
  | .vmaddcfp128 => "vmaddcfp128" | .vnmsubfp128 => "vnmsubfp128" | .vmsum3fp128 => "vmsum3fp128"
  | .vmsum4fp128 => "vmsum4fp128" | .vpkshss128 => "vpkshss128" | .vpkshus128 => "vpkshus128"
  | .vpkswss128 => "vpkswss128" | .vpkswus128 => "vpkswus128" | .vpkuhum128 => "vpkuhum128"
  | .vpkuhus128 => "vpkuhus128" | .vpkuwum128 => "vpkuwum128" | .vpkuwus128 => "vpkuwus128"
  | .vand128 => "vand128" | .vandc128 => "vandc128" | .vnor128 => "vnor128" | .vor128 => "vor128"
  | .vxor128 => "vxor128" | .vsel128 => "vsel128" | .vslo128 => "vslo128" | .vsro128 => "vsro128"
  | .vpermwi128 => "vpermwi128" | .vcfpsxws128 => "vcfpsxws128" | .vcfpuxws128 => "vcfpuxws128"
  | .vcsxwfp128 => "vcsxwfp128" | .vcuxwfp128 => "vcuxwfp128" | .vrfim128 => "vrfim128"
  | .vrfin128 => "vrfin128" | .vrfip128 => "vrfip128" | .vrfiz128 => "vrfiz128"
  | .vpkd3d128 => "vpkd3d128" | .vrefp128 => "vrefp128" | .vrsqrtefp128 => "vrsqrtefp128"
  | .vexptefp128 => "vexptefp128" | .vlogefp128 => "vlogefp128" | .vrlimi128 => "vrlimi128"
  | .vspltw128 => "vspltw128" | .vspltisw128 => "vspltisw128" | .vupkd3d128 => "vupkd3d128"
  | .vcmpeqfp128 => "vcmpeqfp128" | .vcmpgefp128 => "vcmpgefp128" | .vcmpgtfp128 => "vcmpgtfp128"
  | .vcmpbfp128 => "vcmpbfp128" | .vcmpequw128 => "vcmpequw128" | .vrlw128 => "vrlw128"
  | .vslw128 => "vslw128" | .vsraw128 => "vsraw128" | .vsrw128 => "vsrw128"
  | .vmaxfp128 => "vmaxfp128" | .vminfp128 => "vminfp128" | .vmrghw128 => "vmrghw128"
  | .vmrglw128 => "vmrglw128" | .vupkhsb128 => "vupkhsb128" | .vupklsb128 => "vupklsb128"

end Opcode

end PowerLift
