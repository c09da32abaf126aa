import PowerLift.Graph.Node
import PowerLift.Image.Fetch
import PowerLift.Isa.Effects

/-!
Jump tables recovered from the instructions before a computed branch. The index is compared with a
bound, scaled by four, added to a constant base to load a word, and the word is moved to the
counter:

    cmplwi  field, index, bound
    bgt     field, default        (or bge, which drops the last case)
    lis     base, high
    addi    base, base, low       (or ori)
    rlwinm  offset, index, 2, 0, 29
    lwzx    target, base, offset  (or the operands the other way round)
    mtctr   target
    bctr

The instructions before the branch are given nearest first.
-/

namespace PowerLift.TableIdiom

/-- How many instructions before the branch are searched. -/
def searchWindow : Nat := 32

/-- The most cases that a table may have. -/
def maxCases : Nat := 4096

/-- The move to the counter, with the instructions before it. A branch or another write to the
counter that is nearer hides it. -/
def counterWriter? : List Instruction → Option (Instruction × List Instruction)
  | [] => none
  | insn :: before =>
    if insn.effects.writes.contains .ctr || insn.isBranch then
      if insn.opcode = .mtctr then some (insn, before) else none
    else counterWriter? before

/-- The nearest instruction that writes a register, with the instructions before it. The search
stops at an unconditional branch. -/
def writer? (register : Nat) : List Instruction → Option (Instruction × List Instruction)
  | [] => none
  | insn :: before =>
    if insn.effects.writesGpr.contains register then some (insn, before)
    else if insn.isBranch && !insn.isConditional then none
    else writer? register before

/-- Whether the instruction multiplies by four. -/
def isWordScale (insn : Instruction) : Bool :=
  insn.opcode == .rlwinm && insn.sh == 2 && insn.mb == 0 && insn.me == 29

/-- The value of a register that was loaded with a high half and then had low halves added. Every
step goes back by at least one instruction. -/
def constantFrom : Nat → Nat → List Instruction → Option UInt32
  | 0, _, _ => none
  | fuel + 1, register, body => do
    let (insn, before) ← writer? register body
    match insn.opcode with
    | .lis => return UInt32.ofNat insn.uimm <<< 16
    | .addi =>
      if insn.ra == register then
        let high ← constantFrom fuel register before
        return high + UInt32.ofInt insn.simm
      else none
    | .ori =>
      if insn.rs == register && insn.ra == register then
        let high ← constantFrom fuel register before
        return high ||| UInt32.ofNat insn.uimm
      else none
    | _ => none

def constant? (register : Nat) (body : List Instruction) : Option UInt32 :=
  constantFrom (body.length + 1) register body

/-- Whether the instruction compares a register with a bound, both unsigned words. -/
def isBoundCheck (register : Nat) (insn : Instruction) : Bool :=
  insn.opcode == .cmpli && !insn.wideCompare && insn.ra == register

/-- Whether the instruction branches away if the comparison in a field did not give less. -/
def branchesIfNotLess (field : Nat) (insn : Instruction) : Bool :=
  insn.opcode == .bc && insn.bi / 4 == field && insn.bi % 4 == 0 && !insn.wantsSetBit

/-- The number of cases that the nearest bound check of the index leaves. -/
def caseCount? (index : Nat) (body : List Instruction) : Option Nat := do
  let later := body.takeWhile (!isBoundCheck index ·)
  let check ← body.find? (isBoundCheck index)
  if later.any fun insn => insn.effects.writesGpr.contains index then none
  else if later.any (branchesIfNotLess check.crfd) then return check.uimm
  else return check.uimm + 1

/-- The scaled index in one operand of the load: the index register, and the instructions before
the scaling. -/
def scaledIndex? (operand : Nat) (body : List Instruction) :
    Option (Nat × List Instruction) := do
  let (insn, before) ← writer? operand body
  if isWordScale insn then some (insn.rs, before) else none

/-- The words of a table. -/
def entries? (image : Image) (base : UInt32) (count : Nat) : Option (List UInt32) :=
  (List.range count).mapM fun index => do
    let address ← checkedAdd base (UInt32.ofNat (4 * index))
    image.read? address

/-- Base, index register and number of cases of the table that `body`, nearest first, sets up. -/
def dispatch? (body : List Instruction) : Option (UInt32 × Nat × Nat) := do
  let (move, body) ← counterWriter? body
  let (load, body) ← writer? move.rd body
  if load.opcode = .lwzx ∧ load.ra ≠ 0 then
    let (index, before, baseRegister) ←
      match scaledIndex? load.rb body with
      | some (index, before) => some (index, before, load.ra)
      | none => (scaledIndex? load.ra body).map fun (index, before) => (index, before, load.rb)
    let base ← constant? baseRegister body
    let count ← caseCount? index before
    return (base, index, count)
  else none

/-- The table of the computed branch that ends the instructions, given in order of address. All its
targets are aligned and executable. -/
def recognize? (image : Image) (instructions : List Instruction) : Option JumpTable := do
  match instructions.reverse with
  | [] => none
  | branch :: body =>
    if branch.opcode = .bctr then
      let (base, register, count) ← dispatch? body
      if count = 0 ∨ maxCases < count then none
      else
        let targets ← entries? image base count
        let table : JumpTable :=
          { address := branch.address, base := some base, register, targets, source := .recognized }
        if table.isValid image.isExecutable then some table else none
    else none

end PowerLift.TableIdiom
