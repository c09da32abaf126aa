import PowerLift.Lift.Basic

/-!
Vector instructions. Every operation is a method of the same name on vectors; the forms with 128
registers use those of the forms with 32. Floating-point operations need denormals to be flushed.
-/

namespace PowerLift.Lift

/-- The registers of a vector instruction. -/
structure VectorOperands where
  vd : Nat
  va : Nat
  vb : Nat
  vc : Nat

def vectorOperands (insn : Instruction) : VectorOperands :=
  match insn.format with
  | .vx128 | .vx128_2 | .vx128_3 | .vx128_4 | .vx128_5 | .vx128_p | .vx128_r =>
    { vd := insn.vd128, va := insn.va128, vb := insn.vb128, vc := insn.vc128 }
  | _ => { vd := insn.rd, va := insn.ra, vb := insn.rb, vc := insn.rc }

/-- A name without the mark of the forms with 128 registers. -/
def withoutMark (name : String) : String :=
  if ['1', '2', '8'].isSuffixOf name.toList then String.ofList (name.toList.take (name.length - 3))
  else name

def methodName (opcode : Opcode) : String :=
  match opcode with
  | .vcfpsxws128 => "vctsxs"
  | .vcfpuxws128 => "vctuxs"
  | .vcsxwfp128 => "vcfsx"
  | .vcuxwfp128 => "vcfux"
  | _ => withoutMark opcode.mnemonic

def vectorValue (insn : Instruction) : Expr :=
  let operands := vectorOperands insn
  let vd := Expr.vr operands.vd
  let va := Expr.vr operands.va
  let vb := Expr.vr operands.vb
  let vc := Expr.vr operands.vc
  let name := methodName insn.opcode
  let method := Method.vector name
  match insn.opcode with
  | .vspltisb | .vspltish | .vspltisw | .vspltisw128 =>
    .invoke (.vector name) [.decimal insn.vsimm]
  | .vspltb | .vsplth | .vspltw | .vcfux | .vcfsx | .vctuxs | .vctsxs =>
    .send vb method [.decimal insn.vuimm]
  | .vspltw128 | .vcfpsxws128 | .vcfpuxws128 | .vcsxwfp128 | .vcuxwfp128 | .vupkd3d128 =>
    .send vb method [.decimal insn.vimm128]
  | .vpermwi128 => .send vb (.vector "vpermwi") [.lit (.hex 2 insn.vperm128)]
  -- These leave part of the destination as it is.
  | .vrlimi128 | .vpkd3d128 =>
    .send vd method [vb, .decimal insn.vimm128, .decimal insn.vz128]
  | .vrefp | .vrsqrtefp | .vexptefp | .vlogefp | .vrfin | .vrfiz | .vrfip | .vrfim | .vupkhsb
  | .vupkhsh | .vupklsb | .vupklsh | .vupkhpx | .vupklpx | .vrefp128 | .vrsqrtefp128
  | .vexptefp128 | .vlogefp128 | .vrfin128 | .vrfiz128 | .vrfip128 | .vrfim128 | .vupkhsb128
  | .vupklsb128 => .send vb method []
  | .vsldoi => .send va (.vector "vsldoi") [vb, .decimal insn.vsh]
  | .vsldoi128 => .send va (.vector "vsldoi") [vb, .decimal insn.vsh128]
  | .vmhaddshs | .vmhraddshs | .vmladduhm | .vmsumubm | .vmsummbm | .vmsumuhm | .vmsumuhs
  | .vmsumshm | .vmsumshs | .vsel | .vperm | .vperm128 => .send va method [vb, vc]
  -- The product is of the first and the third source.
  | .vmaddfp | .vnmsubfp => .send va method [vc, vb]
  -- With 128 registers the destination is the third source.
  | .vmaddfp128 | .vnmsubfp128 => .send va method [vb, vd]
  | .vmaddcfp128 => .send va (.vector "vmaddfp") [vd, vb]
  | .vsel128 => .send va (.vector "vsel") [vb, vd]
  | _ => .send va method [vb]

/-- Puts the summary of a comparison into the condition field for vectors. -/
def recordVector (insn : Instruction) (result : Expr) : List Action :=
  if insn.records then
    let method : Method :=
      if insn.opcode = .vcmpbfp ∨ insn.opcode = .vcmpbfp128 then .compareVectorBounds
      else .compareVector
    [.perform (.send (.cr 6) method [.unary .borrow result])]
  else []

def vectorActions (insn : Instruction) : List Action :=
  let vd := Expr.vr (vectorOperands insn).vd
  .assign vd (vectorValue insn) :: recordVector insn vd

def vectorControl (insn : Instruction) : Lifted :=
  match insn.opcode with
  | .mfvscr =>
    .ofActions [] [.assign (.vr insn.rd)
      (.invoke (.vector "from_u32") [.decimal 0, .decimal 0, .decimal 0, .reg .vscr])]
  | .mtvscr =>
    { Lifted.ofActions [] [.assign (.reg .vscr) (.send (.vr insn.rb) .lane32 [.decimal 3])] with
      forgetsMode := true }
  | _ => .missing []

def vector (insn : Instruction) : Lifted :=
  match insn.group with
  | .vectorControl => vectorControl insn
  | .vectorFloat => { Lifted.ofActions [] (vectorActions insn) with mode := some .vector }
  | .vectorInteger | .vectorPermute => .ofActions [] (vectorActions insn)
  | _ => .missing []

end PowerLift.Lift
