import Mathlib
import PowerLift.Emit.Function
import PowerLift.Proofs.Assembler
import PowerLift.Proofs.RegisterUse

/-!
The registers that emitted code asks for are registers of the machine: their numbers come from
fields of a word that are no wider than they have to be, from the names in hooks, and, for the index
of a jump table, from the table.
-/

namespace PowerLift

/-- Whether the machine has a register of that number. -/
def Register.InRange : Register → Prop
  | .gpr number | .fpr number => number < 32
  | .vr number => number < 128
  | .cr field => field < 8
  | _ => True

/-! ## Fields -/

theorem Field.read_lt {field : Field} (ordered : field.Ordered) (bound : Nat)
    (inside : ∀ slice ∈ field, slice.place + slice.width ≤ bound) (word : UInt32) :
    field.read word < 2 ^ bound := by
  apply Nat.lt_pow_two_of_testBit
  intro index above
  by_contra set
  obtain ⟨slice, member, range, _⟩ :=
    (testBit_read ordered word index).mp (Bool.eq_true_of_not_eq_false set)
  have := inside slice member
  omega

namespace Instruction

variable (insn : Instruction)

@[simp] theorem rd_inRange : insn.rd < 32 := Field.read_lt (by decide) 5 (by decide) _

@[simp] theorem rs_inRange : insn.rs < 32 := insn.rd_inRange

@[simp] theorem ra_inRange : insn.ra < 32 := Field.read_lt (by decide) 5 (by decide) _

@[simp] theorem bi_inRange : insn.bi < 32 := insn.ra_inRange

@[simp] theorem rb_inRange : insn.rb < 32 := Field.read_lt (by decide) 5 (by decide) _

@[simp] theorem rc_inRange : insn.rc < 32 := Field.read_lt (by decide) 5 (by decide) _

@[simp] theorem crfd_inRange : insn.crfd < 8 := Field.read_lt (by decide) 3 (by decide) _

@[simp] theorem crfs_inRange : insn.crfs < 8 := Field.read_lt (by decide) 3 (by decide) _

@[simp] theorem vd128_inRange : insn.vd128 < 128 := Field.read_lt (by decide) 7 (by decide) _

@[simp] theorem va128_inRange : insn.va128 < 128 := Field.read_lt (by decide) 7 (by decide) _

@[simp] theorem vb128_inRange : insn.vb128 < 128 := Field.read_lt (by decide) 7 (by decide) _

@[simp] theorem vc128_inRange : insn.vc128 < 128 :=
  Nat.lt_trans (Field.read_lt (by decide) 3 (by decide) _) (by decide)

theorem maskedFields_inRange {mask field : Nat} (member : field ∈ maskedFields mask) :
    field < 8 :=
  List.mem_range.mp (List.mem_filter.mp member).1

end Instruction

/-! ## Code -/

/-- All registers in an expression are registers of the machine. -/
def Expr.InRange (expr : Expr) : Prop :=
  ∀ register ∈ expr.registers, register.InRange

def Action.InRange (action : Action) : Prop :=
  ∀ register ∈ action.registers, register.InRange

def Exit.InRange (exit : Exit) : Prop :=
  ∀ register ∈ exit.registers, register.InRange

def Stmt.InRange (stmt : Stmt) : Prop :=
  ∀ register ∈ stmt.registers, register.InRange

def Lifted.InRange (lifted : Lifted) : Prop :=
  ∀ register ∈ lifted.registers, register.InRange

namespace Expr

variable {a b c : Expr} {arguments : List Expr} {number : Nat}

@[simp] theorem inRange_reg {register : Register} :
    (reg register).InRange ↔ register.InRange := by
  simp [InRange, registers]

@[simp] theorem inRange_gpr : (gpr number).InRange ↔ number < 32 := inRange_reg

@[simp] theorem inRange_fpr : (fpr number).InRange ↔ number < 32 := inRange_reg

@[simp] theorem inRange_vr : (vr number).InRange ↔ number < 128 := inRange_reg

@[simp] theorem inRange_cr : (cr number).InRange ↔ number < 8 := inRange_reg

@[simp] theorem inRange_crBit : (crBit number).InRange ↔ number < 32 := by
  refine inRange_cr.trans ?_
  omega

@[simp] theorem inRange_ctr : ctr.InRange := inRange_reg.mpr trivial

@[simp] theorem inRange_xer : xer.InRange := inRange_reg.mpr trivial

@[simp] theorem inRange_lr : lr.InRange := inRange_reg.mpr trivial

@[simp] theorem inRange_fpscr : fpscr.InRange := inRange_reg.mpr trivial

@[simp] theorem inRange_carry : carry.InRange := inRange_xer

@[simp] theorem inRange_var (name : String) : (var name).InRange := by
  simp [InRange, registers]

@[simp] theorem inRange_lit (literal : Literal) : (lit literal).InRange := by
  simp [InRange, registers]

@[simp] theorem inRange_ea : ea.InRange := inRange_var _

@[simp] theorem inRange_target : target.InRange := inRange_var _

@[simp] theorem inRange_decimal (value : Int) : (decimal value).InRange := inRange_lit _

@[simp] theorem inRange_hex (value : Nat) : (hex value).InRange := inRange_lit _

@[simp] theorem inRange_wordHex (address : UInt32) : (wordHex address).InRange := inRange_lit _

@[simp] theorem inRange_doubleword (value : UInt64) : (doubleword value).InRange := inRange_lit _

@[simp] theorem inRange_paren : (paren a).InRange ↔ a.InRange := Iff.rfl

@[simp] theorem inRange_cast {type : NumType} : (cast a type).InRange ↔ a.InRange := Iff.rfl

@[simp] theorem inRange_unary {op : UnaryOp} : (unary op a).InRange ↔ a.InRange := Iff.rfl

@[simp] theorem inRange_member {part : Member} : (member a part).InRange ↔ a.InRange := Iff.rfl

@[simp] theorem inRange_binary {op : BinaryOp} :
    (binary op a b).InRange ↔ a.InRange ∧ b.InRange :=
  List.forall_mem_append

@[simp] theorem inRange_choice :
    (choice a b c).InRange ↔ (a.InRange ∧ b.InRange) ∧ c.InRange := by
  simp only [InRange, registers, List.forall_mem_append]

@[simp] theorem inRange_list :
    (list arguments).InRange ↔ ∀ argument ∈ arguments, argument.InRange := by
  simp only [InRange, registers_list, List.mem_flatMap]
  grind

@[simp] theorem inRange_send {name : Method} :
    (send a name arguments).InRange ↔
      a.InRange ∧ ∀ argument ∈ arguments, argument.InRange := by
  rw [← inRange_list]
  exact List.forall_mem_append

@[simp] theorem inRange_invoke {routine : Routine} :
    (invoke routine arguments).InRange ↔ ∀ argument ∈ arguments, argument.InRange :=
  inRange_list

@[simp] theorem inRange_invokeGuest {routine : Routine} :
    (invokeGuest routine arguments).InRange ↔ ∀ argument ∈ arguments, argument.InRange := by
  refine inRange_list.trans ?_
  simp [context, memory]

theorem joined_inRange {op : BinaryOp} {tests : List Expr} {value : Expr}
    (joins : joined op tests = some value) (known : ∀ test ∈ tests, test.InRange) :
    value.InRange := by
  have folded : ∀ (rest : List Expr) (first : Expr), first.InRange →
      (∀ test ∈ rest, test.InRange) → (rest.foldl (binary op) first).InRange := by
    intro rest
    induction rest with
    | nil => exact fun _ first _ => first
    | cons test rest ih =>
        intro first known others
        rw [List.forall_mem_cons] at others
        exact ih _ (inRange_binary.mpr ⟨known, others.1⟩) others.2
  cases tests with
  | nil => cases joins
  | cons first rest =>
      cases joins
      rw [List.forall_mem_cons] at known
      exact folded rest first known.1 known.2

end Expr

namespace Action

variable {place value : Expr}

@[simp] theorem inRange_declare {name : String} {type : NumType} :
    (declare name type value).InRange ↔ value.InRange := Iff.rfl

@[simp] theorem inRange_assign :
    (assign place value).InRange ↔ place.InRange ∧ value.InRange :=
  List.forall_mem_append

@[simp] theorem inRange_perform : (perform value).InRange ↔ value.InRange := Iff.rfl

end Action

namespace Stmt

@[simp] theorem inRange_act {action : Action} : (act action).InRange ↔ action.InRange := Iff.rfl

@[simp] theorem inRange_transfer {exit : Exit} : (transfer exit).InRange ↔ exit.InRange := Iff.rfl

@[simp] theorem inRange_guard {condition : Expr} {actions : List Action} {exit : Option Exit} :
    (guard condition actions exit).InRange ↔
      condition.InRange ∧ (∀ action ∈ actions, action.InRange) ∧ ∀ way ∈ exit, way.InRange := by
  simp only [InRange, registers, List.forall_mem_append, Action.InRange, Exit.InRange,
    Expr.InRange, List.mem_flatMap, Option.mem_toList, Option.mem_def, and_assoc]
  grind

theorem guarded_inRange {condition : Option Expr} {actions : List Action} {exit : Option Exit}
    (tested : ∀ test ∈ condition, test.InRange) (done : ∀ action ∈ actions, action.InRange)
    (left : ∀ way ∈ exit, way.InRange) :
    ∀ stmt ∈ guarded condition actions exit, stmt.InRange := by
  cases condition with
  | none =>
      simp only [guarded, List.forall_mem_append, List.forall_mem_map, inRange_act,
        inRange_transfer, Option.mem_toList]
      exact ⟨done, left⟩
  | some test =>
      rw [guarded, List.forall_mem_singleton, inRange_guard]
      exact ⟨tested test rfl, done, left⟩

end Stmt

namespace Lifted

theorem inRange_iff {lifted : Lifted} :
    lifted.InRange ↔ (∀ register ∈ lifted.requests, register.InRange) ∧
      ∀ stmt ∈ lifted.body.getD [], stmt.InRange := by
  simp only [InRange, registers, List.forall_mem_append, Stmt.InRange, List.mem_flatMap]
  grind

@[simp] theorem inRange_ofActions {requests : List Register} {actions : List Action} :
    (ofActions requests actions).InRange ↔
      (∀ register ∈ requests, register.InRange) ∧ ∀ action ∈ actions, action.InRange := by
  simp only [InRange, registers, ofActions, Option.getD_some, List.forall_mem_append,
    List.flatMap_map, Stmt.registers, Action.InRange, List.mem_flatMap]
  grind

@[simp] theorem inRange_nothing : ({} : Lifted).InRange := by
  simp [InRange, registers]

@[simp] theorem inRange_missing {requests : List Register} :
    (missing requests).InRange ↔ ∀ register ∈ requests, register.InRange := by
  simp [InRange, registers, missing]

end Lifted

namespace Flow

@[simp] theorem registers_callee (flow : Flow) (address : UInt32) :
    (flow.callee address).registers = [] := by
  unfold callee
  repeat' split
  all_goals rfl

@[simp] theorem registers_exitTo (flow : Flow) (address : UInt32) :
    (flow.exitTo address).registers = [] := by
  unfold exitTo
  split
  · rfl
  · exact flow.registers_callee address

@[simp] theorem exitTo_inRange (flow : Flow) (address : UInt32) :
    (flow.exitTo address).InRange := by
  simp [Exit.InRange]

@[simp] theorem setLink_inRange (flow : Flow) (insn : Instruction) :
    ∀ action ∈ flow.setLink insn, action.InRange := by
  unfold setLink
  split <;> simp

@[simp] theorem callActions_inRange (flow : Flow) (insn : Instruction) (address : UInt32) :
    ∀ action ∈ flow.callActions insn address, action.InRange := by
  have calls : (flow.callee address).InRange := by simp [Expr.InRange]
  rw [callActions, List.forall_mem_append, List.forall_mem_singleton]
  refine ⟨flow.setLink_inRange insn, ?_⟩
  repeat' split
  all_goals simp [calls]

end Flow

/-! ## The code for an instruction -/

namespace Lift

open Instruction

variable {insn : Instruction}

theorem recorded_inRange {requests : List Register} {result : Expr} {actions : List Action}
    (requested : ∀ register ∈ requests, register.InRange) (known : result.InRange)
    (done : ∀ action ∈ actions, action.InRange) :
    (recorded insn requests result actions).InRange := by
  have records : (record result).InRange := by simp [record, known]
  unfold recorded
  rw [Lifted.inRange_ofActions]
  refine ⟨requested, ?_⟩
  split
  · rw [List.forall_mem_append, List.forall_mem_singleton]
    exact ⟨done, records⟩
  · exact done

theorem arithmetic_inRange (insn : Instruction) : (arithmetic insn).InRange := by
  have own : ∀ actions, arithmeticActions insn = some actions →
      ∀ action ∈ actions, action.InRange := by
    intro actions found
    unfold arithmeticActions at found
    split at found <;> cases found <;>
      simp [immediate, highImmediate, addExtended, castTwice, productShifted, quotient]
  have requested : ∀ register ∈ [Register.gpr insn.rd, .gpr insn.ra, .gpr insn.rb, .xer],
      register.InRange := by
    simp [Register.InRange]
  unfold arithmetic
  split
  · simp
  · split
    next actions found =>
      split
      · rw [Lifted.inRange_ofActions, List.forall_mem_append]
        exact ⟨requested, own actions found, by simp [record]⟩
      · exact recorded_inRange requested (by simp) (own actions found)
    next => exact Lifted.inRange_missing.mpr requested

theorem logical_inRange (insn : Instruction) : (logical insn).InRange := by
  have own : ∀ value, logicalValue insn = some value → value.InRange := by
    intro value found
    unfold logicalValue at found
    split at found <;> cases found <;> simp [castTwice]
  unfold logical
  split
  · exact Lifted.inRange_nothing
  · split
    next value found =>
      have known := own value found
      split
      · simp [Register.InRange, record, known]
      · exact recorded_inRange (by simp [Register.InRange]) (by simp) (by simp [known])
    next => simp [Register.InRange]

theorem compare_inRange (insn : Instruction) : (compare insn).InRange := by
  unfold compare
  split
  next type right found =>
    unfold comparison at found
    split at found <;> cases found <;> simp [Register.InRange]
  next => simp [Register.InRange]

theorem rotate_inRange (insn : Instruction) : (rotate insn).InRange := by
  have own : ∀ value, rotation insn = some value → value.InRange := by
    intro value found
    unfold rotation at found
    split at found <;> cases found <;> simp [masked, inserted, rotated, doubledWord, countIn]
  unfold rotate
  split
  next value found =>
    exact recorded_inRange (by simp [Register.InRange]) (by simp) (by simp [own value found])
  next => simp [Register.InRange]

theorem shift_inRange (insn : Instruction) : (shift insn).InRange := by
  have own : ∀ actions, shiftActions insn = some actions →
      ∀ action ∈ actions, action.InRange := by
    intro actions found
    unfold shiftActions at found
    split at found <;> cases found <;>
      simp [unlessShiftedOut, shiftedWord, maskedCount, carryOut, castTwice]
  unfold shift
  split
  next actions found =>
    exact recorded_inRange (by simp [Register.InRange]) (by simp) (own actions found)
  next => simp [Register.InRange]

theorem access_inRange {actions : List Action} (done : ∀ action ∈ actions, action.InRange) :
    (Lifted.ofActions [] (nameAddress insn :: actions)).InRange := by
  have address : (effectiveAddress insn).InRange := by
    unfold effectiveAddress
    dsimp only
    repeat' split
    all_goals simp
  simp only [Lifted.inRange_ofActions, List.forall_mem_cons]
  exact ⟨by simp, address, done⟩

theorem update_inRange {action : Action} (known : action.InRange) {update : Bool} :
    (Lifted.ofActions [] ([nameAddress insn, action] ++ updateBase insn update)).InRange := by
  refine access_inRange (List.forall_mem_cons.mpr ⟨known, ?_⟩)
  unfold updateBase
  split <;> simp

theorem integerLoad_inRange (io : Bool) (insn : Instruction) :
    (integerLoad io insn).InRange := by
  unfold integerLoad
  split
  · exact access_inRange (by simp [Register.InRange])
  · exact access_inRange (by simp [Register.InRange])
  · apply access_inRange
    simp only [List.mem_map, List.mem_range]
    rintro _ ⟨index, below, rfl⟩
    simp [addressOf]
    omega
  · split
    next access found =>
      apply update_inRange
      unfold loadedValue
      dsimp only
      split <;> simp
    next => simp

theorem integerStore_inRange (io : Bool) (insn : Instruction) :
    (integerStore io insn).InRange := by
  unfold integerStore
  split
  · exact access_inRange (by simp [Register.InRange])
  · exact access_inRange (by simp [Register.InRange])
  · apply access_inRange
    simp only [List.mem_map, List.mem_range]
    rintro _ ⟨index, below, rfl⟩
    simp [addressOf]
    omega
  · split
    next access found =>
      apply update_inRange
      unfold storedValue
      dsimp only
      split <;> simp
    next => simp

theorem floatLoad_inRange (io : Bool) (insn : Instruction) : (floatLoad io insn).InRange := by
  unfold floatLoad
  split
  all_goals first | exact update_inRange (by simp [loadSingle, loadDouble]) | simp

theorem floatStore_inRange (io : Bool) (insn : Instruction) : (floatStore io insn).InRange := by
  unfold floatStore
  split
  all_goals first | exact update_inRange (by simp) | simp

theorem isVector_of_lt {number : Nat} (inRange : number < 32) : number < 128 :=
  Nat.lt_trans inRange (by decide)

theorem vectorOperand_inRange (insn : Instruction) : vectorOperand insn < 128 := by
  unfold vectorOperand
  split
  · exact insn.vd128_inRange
  · exact isVector_of_lt insn.rd_inRange

theorem vectorLoad_inRange (io : Bool) (insn : Instruction) : (vectorLoad io insn).InRange := by
  unfold vectorLoad
  split
  next value found =>
    apply access_inRange
    unfold vectorLoadValue at found
    split at found <;> cases found <;> simp [vectorOperand_inRange, roundedAddress]
  next => simp

theorem vectorStore_inRange (io : Bool) (insn : Instruction) :
    (vectorStore io insn).InRange := by
  unfold vectorStore
  split
  next datum address value found =>
    apply access_inRange
    unfold vectorStoreShape at found
    split at found <;> cases found <;> simp [vectorOperand_inRange, roundedAddress]
  next => simp

theorem cache_inRange (insn : Instruction) : (cache insn).InRange := by
  unfold cache
  split
  · exact access_inRange (by simp [roundedAddress])
  all_goals simp

theorem floatArithmetic_inRange (insn : Instruction) : (floatArithmetic insn).InRange := by
  have own : ∀ value, floatValue insn = some value → value.InRange := by
    intro value found
    unfold floatValue at found
    split at found <;> cases found <;> simp [single, converted]
  unfold floatArithmetic
  split
  next value found =>
    have done : (Lifted.ofActions [.fpr insn.ra, .fpr insn.rb, .fpr insn.rc]
        [.assign (.fpr insn.rd) value]).InRange := by
      simp [Register.InRange, own value found]
    exact done
  next => simp [Register.InRange]

theorem floatControl_inRange (insn : Instruction) : (floatControl insn).InRange := by
  have write (name : Method) (arguments : List Expr)
      (known : ∀ argument ∈ arguments, argument.InRange) :
      (writeStatus name arguments).InRange := by
    have done : (Lifted.ofActions [] [.perform (.send .fpscr name arguments)]).InRange := by
      simpa using known
    exact done
  unfold floatControl
  split
  all_goals first | exact write _ _ (by simp) | simp [statusField]

theorem float_inRange (insn : Instruction) : (float insn).InRange := by
  have own : ∀ lifted : Lifted, lifted.InRange →
      (if insn.records then { lifted with body := lifted.body.map (· ++ [.act (statusField 1 0)]) }
        else lifted).InRange := by
    intro lifted inRange
    split
    · unfold Lifted.InRange Lifted.registers at inRange ⊢
      cases body : lifted.body with
      | none => simpa [body] using inRange
      | some stmts =>
          have summary : (statusField 1 0).InRange := by simp [statusField]
          simp only [body, Option.getD_some, List.forall_mem_append] at inRange
          simp only [Option.map_some, Option.getD_some, List.flatMap_append,
            List.forall_mem_append]
          refine ⟨inRange.1, inRange.2, ?_⟩
          rw [List.flatMap_singleton]
          exact summary
    · exact inRange
  apply own
  split
  · exact floatArithmetic_inRange insn
  · unfold floatMove
    split <;> simp [Expr.fpr, Expr.registers, Register.InRange]
  · unfold floatCompare
    split <;> simp
  · exact floatControl_inRange insn
  · simp

theorem vectorOperands_inRange (insn : Instruction) :
    (vectorOperands insn).vd < 128 ∧ (vectorOperands insn).va < 128 ∧
      (vectorOperands insn).vb < 128 ∧ (vectorOperands insn).vc < 128 := by
  unfold vectorOperands
  split
  all_goals first
    | exact ⟨insn.vd128_inRange, insn.va128_inRange, insn.vb128_inRange, insn.vc128_inRange⟩
    | exact ⟨isVector_of_lt insn.rd_inRange, isVector_of_lt insn.ra_inRange,
        isVector_of_lt insn.rb_inRange, isVector_of_lt insn.rc_inRange⟩

theorem vectorActions_inRange (insn : Instruction) :
    ∀ action ∈ vectorActions insn, action.InRange := by
  obtain ⟨vd, va, vb, vc⟩ := vectorOperands_inRange insn
  have value : (vectorValue insn).InRange := by
    unfold vectorValue
    split <;> simp [vd, va, vb, vc]
  rw [vectorActions, List.forall_mem_cons]
  refine ⟨by simp [vd, value], ?_⟩
  unfold recordVector
  split <;> simp [vd]

theorem vector_inRange (insn : Instruction) : (vector insn).InRange := by
  have own : (Lifted.ofActions [] (vectorActions insn)).InRange :=
    Lifted.inRange_ofActions.mpr ⟨by simp, vectorActions_inRange insn⟩
  unfold vector
  split
  · unfold vectorControl
    split
    · simp [Register.InRange, isVector_of_lt]
    · have done : (Lifted.ofActions []
          [.assign (.reg .vscr) (.send (.vr insn.rb) .lane32 [.decimal 3])]).InRange := by
        simp [Register.InRange, isVector_of_lt]
      exact done
    · simp
  · exact own
  · exact own
  · exact own
  · simp

theorem system_inRange (config : Config) (insn : Instruction) :
    (system config insn).InRange := by
  have call : (Lifted.ofActions []
      [.perform (.invokeGuest .syscall [.wordHex insn.address])]).InRange := by
    simp
  unfold system
  split
  · exact call
  · simp
  · simp
  · simp
  · split <;> simp [Register.InRange]
  · split <;> simp [Register.InRange]
  · split <;> simp [Register.InRange]
  · simp

theorem conditionRegister_inRange (insn : Instruction) : (conditionRegister insn).InRange := by
  have bit {number : Nat} (small : number < 32) : number / 4 < 8 := by omega
  unfold conditionRegister
  split
  · simp
  · split
    next value joins =>
      have known := Expr.joined_inRange joins (by simp [gatheredFields, fieldShift])
      simp [known]
    next => simp
  · simp only [Lifted.inRange_ofActions, List.forall_mem_map]
    refine ⟨by simp [Register.InRange], fun field member => ?_⟩
    simp [scatterField, fieldShift, Instruction.maskedFields_inRange member]
  · split
    next value found =>
      unfold bitOperation at found
      split at found <;> cases found <;> simp
    next => simp [Register.InRange, bit]

theorem specialRegister_inRange (config : Config) (insn : Instruction) :
    (specialRegister config insn).InRange := by
  unfold specialRegister
  split
  all_goals
    repeat' split
    all_goals simp [Register.InRange]

theorem trap_inRange (insn : Instruction) : (trap insn).InRange := by
  have tests (right : Expr) (known : right.InRange) (signed unsigned : NumType) :
      ∀ test ∈ trapTests insn (.gpr insn.ra) right signed unsigned, test.InRange := by
    unfold trapTests
    simp only [List.forall_mem_append]
    refine ⟨⟨⟨⟨?_, ?_⟩, ?_⟩, ?_⟩, ?_⟩ <;> split <;> simp [known]
  have springs {right condition : Expr} {signed unsigned : NumType} (known : right.InRange)
      (joins : Expr.joined .either (trapTests insn (.gpr insn.ra) right signed unsigned) =
        some condition) :
      Lifted.InRange { body := some [.guard condition
        [.perform (.invokeGuest .trap [.wordHex insn.address])] none] } := by
    rw [Lifted.inRange_iff]
    simp [Expr.joined_inRange joins (tests right known signed unsigned)]
  have idle {right : Expr} (known : right.InRange) :
      Lifted.InRange { requests := (Expr.gpr insn.ra).registers ++ right.registers } := by
    have left : (Expr.gpr insn.ra).InRange := by simp
    rw [Lifted.inRange_iff]
    exact ⟨List.forall_mem_append.mpr ⟨left, known⟩, by simp⟩
  unfold trap
  dsimp only
  split
  · simp
  split
  iterate 4
    · split
      next joins => exact springs (by simp) joins
      next => exact idle (by simp)
  · simp [Register.InRange]

theorem branchCondition_inRange (insn : Instruction) :
    (∀ action ∈ (branchCondition insn).1, action.InRange) ∧
      ∀ test ∈ (branchCondition insn).2, test.InRange := by
  have counted : (∀ action ∈ (counterTest insn).1, action.InRange) ∧
      ∀ test ∈ (counterTest insn).2, test.InRange := by
    unfold counterTest
    split <;> simp
  have bit : ∀ test ∈ bitTest insn, test.InRange := by
    unfold bitTest
    repeat' split
    all_goals simp
  exact ⟨counted.1, fun test joins =>
    Expr.joined_inRange joins (List.forall_mem_append.mpr ⟨counted.2, bit⟩)⟩

theorem underCondition_inRange {insn : Instruction} {actions : List Action} {exit : Option Exit}
    (done : ∀ action ∈ actions, action.InRange) (left : ∀ way ∈ exit, way.InRange) :
    (underCondition insn actions exit).InRange := by
  obtain ⟨before, tested⟩ := branchCondition_inRange insn
  rw [Lifted.inRange_iff]
  refine ⟨by simp [underCondition], ?_⟩
  simp only [underCondition, Option.getD_some, List.forall_mem_append, List.forall_mem_map]
  exact ⟨before, Stmt.guarded_inRange tested done left⟩

/-- The index of a jump table is the one register that no field of the word gives. -/
theorem indirectJump_registers {flow : Flow} {table : Option JumpTable} {before : List Action}
    {condition : Option Expr} (counted : ∀ action ∈ before, action.InRange)
    (tested : ∀ test ∈ condition, test.InRange) {register : Register}
    (asked : register ∈ (indirectJump flow table before condition).registers) :
    register.InRange ∨ ∃ entry ∈ table, register = .gpr entry.register := by
  cases table with
  | none =>
      left
      have inRange : (indirectJump flow none before condition).InRange := by
        rw [Lifted.inRange_iff]
        refine ⟨by simp [indirectJump], ?_⟩
        simp only [indirectJump, Option.getD_some, List.forall_mem_append, List.forall_mem_map]
        refine ⟨counted, Stmt.guarded_inRange tested (by simp) ?_⟩
        simp [Exit.InRange, Exit.registers, Expr.invokeGuest, Expr.context, Expr.memory,
          Expr.registers, Expr.ctr, Register.InRange]
      exact inRange register asked
  | some entry =>
      have cases : (entry.targets.map flow.exitTo).flatMap Exit.registers = [] := by
        simp [List.flatMap_map]
      simp only [indirectJump, Lifted.registers, List.nil_append, Option.getD_some,
        List.flatMap_append, List.flatMap_map, List.flatMap_singleton, Stmt.registers, cases,
        List.append_nil, List.mem_append, List.mem_flatMap, Option.mem_toList] at asked
      rcases asked with ⟨action, among, own⟩ | (⟨test, among, own⟩ | own) | own
      · exact Or.inl (counted action among register own)
      · exact Or.inl (tested test among register own)
      · exact Or.inr ⟨entry, rfl, List.mem_singleton.mp own⟩
      · exact Or.inl (Expr.inRange_ctr register own)

theorem linkCall_inRange (flow : Flow) (insn : Instruction) :
    ∀ action ∈ linkCall flow insn, action.InRange := by
  simp only [linkCall, List.forall_mem_append]
  exact ⟨⟨by simp, flow.setLink_inRange insn⟩, by simp⟩

theorem counterCall_inRange (flow : Flow) (insn : Instruction) :
    ∀ action ∈ counterCall flow insn, action.InRange := by
  simp only [counterCall, List.forall_mem_append]
  exact ⟨flow.setLink_inRange insn, by simp⟩

theorem branch_registers {flow : Flow} {table : Option JumpTable} {insn : Instruction}
    {register : Register} (asked : register ∈ (branch flow table insn).registers) :
    register.InRange ∨ ∃ entry ∈ table, register = .gpr entry.register := by
  obtain ⟨before, tested⟩ := branchCondition_inRange insn
  have exitless : ∀ way ∈ (none : Option Exit), way.InRange := by simp
  have linked {actions : List Action} (done : ∀ action ∈ actions, action.InRange) :
      (linked insn actions).InRange :=
    underCondition_inRange done exitless
  unfold branch at asked
  split at asked
  case h_8 => exact indirectJump_registers (by simp) (by simp) asked
  case h_9 =>
    split at asked
    · exact Or.inl (linked (counterCall_inRange flow insn) register asked)
    · exact indirectJump_registers before tested asked
  -- In all other branches the registers come from the word.
  all_goals
    left
    refine (?_ : Lifted.InRange _) register asked
  case h_1 =>
    split
    · simp [Lifted.inRange_iff]
    · simp
  case h_2 =>
    split
    next target _ =>
      have done : (Lifted.ofActions [] (flow.callActions insn target)).InRange :=
        Lifted.inRange_ofActions.mpr ⟨by simp, flow.callActions_inRange insn target⟩
      exact done
    next => simp
  case h_3 =>
    split
    · exact underCondition_inRange (by simp) (by simp)
    · simp
  case h_4 =>
    split
    next target _ =>
      split
      · exact underCondition_inRange (flow.setLink_inRange insn) exitless
      · exact linked (flow.callActions_inRange insn target)
    next => simp
  case h_5 => simp [Lifted.inRange_iff, Exit.InRange, Exit.registers]
  case h_6 =>
    split
    · exact linked (linkCall_inRange flow insn)
    · exact underCondition_inRange (by simp) (by simp [Exit.InRange, Exit.registers])
  case h_7 => exact linked (linkCall_inRange flow insn)
  case h_10 => exact linked (counterCall_inRange flow insn)
  case h_11 => simp

end Lift

namespace Flow

/-- The code for an instruction asks for registers of the machine, except that the index of a jump
table may be any number. -/
theorem lift_registers {flow : Flow} {table : Option JumpTable} {io : Bool} {insn : Instruction}
    {register : Register} (asked : register ∈ (flow.lift table io insn).registers) :
    register.InRange ∨ ∃ entry ∈ table, register = .gpr entry.register := by
  have known {lifted : Lifted} (inRange : lifted.InRange) (own : register ∈ lifted.registers) :
      register.InRange ∨ ∃ entry ∈ table, register = .gpr entry.register :=
    Or.inl (inRange register own)
  unfold lift at asked
  split at asked
  · exact Lift.branch_registers asked
  · exact known (Lift.trap_inRange insn) asked
  · exact known (Lift.system_inRange flow.config insn) asked
  · exact known (Lift.conditionRegister_inRange insn) asked
  · exact known (Lift.specialRegister_inRange flow.config insn) asked
  · exact known (Lift.arithmetic_inRange insn) asked
  · exact known (Lift.logical_inRange insn) asked
  · exact known (Lift.compare_inRange insn) asked
  · exact known (Lift.rotate_inRange insn) asked
  · exact known (Lift.shift_inRange insn) asked
  · exact known (Lift.integerLoad_inRange io insn) asked
  · exact known (Lift.integerStore_inRange io insn) asked
  · exact known (Lift.floatLoad_inRange io insn) asked
  · exact known (Lift.floatStore_inRange io insn) asked
  · exact known (Lift.vectorLoad_inRange io insn) asked
  · exact known (Lift.vectorStore_inRange io insn) asked
  · exact known (Lift.cache_inRange insn) asked
  iterate 4 · exact known (Lift.float_inRange insn) asked
  iterate 4 · exact known (Lift.vector_inRange insn) asked
  · exact known (by simp) asked

end Flow

/-! ## Hooks -/

theorem Text.unsigned?_lt {base limit value : Nat} {chars : List Char}
    (read : unsigned? base limit chars = some value) : value < limit := by
  have checked : ∀ digits : List Char,
      (if digits.isEmpty then none else (digitsValue? base 0 digits).filter (· < limit)) =
        some value → value < limit := by
    intro digits read
    split at read
    · cases read
    · exact of_decide_eq_true (Option.filter_eq_some_iff.mp read).2
  exact checked _ read

theorem parseRegister_inRange {text : String} {register : Register}
    (read : parseRegister text = some register) : register.InRange := by
  have numbered {kind : Nat → Register} {count : Nat} {digits : List Char}
      (below : ∀ number < count, (kind number).InRange)
      (read : (registerNumber? count digits).map kind = some register) : register.InRange := by
    obtain ⟨number, digitsRead, rfl⟩ := Option.map_eq_some_iff.mp read
    exact below number (Text.unsigned?_lt digitsRead)
  unfold parseRegister at read
  dsimp only at read
  split at read
  · cases read; trivial
  split at read
  · cases read; trivial
  split at read
  · cases read; trivial
  split at read
  · cases read; trivial
  split at read
  · exact numbered (fun _ below => below) read
  · exact numbered (fun _ below => below) read
  · exact numbered (fun _ below => below) read
  · exact numbered (fun _ below => below) read
  · cases read

theorem Flow.hookCall_inRange (flow : Flow) (hook : Hook) :
    (Stmt.hook (flow.hookCall hook)).InRange := by
  have captured : ∀ capture ∈ captures hook, capture.2.InRange := by
    intro capture member
    obtain ⟨⟨name, number⟩, _, found⟩ := List.mem_filterMap.mp member
    obtain ⟨register, read, rfl⟩ := Option.map_eq_some_iff.mp found
    exact parseRegister_inRange read
  have exits : ∀ exit ∈ flow.hookExits hook, exit.2.registers = [] := by
    intro exit written
    simp only [hookExits, List.mem_append, List.mem_map, List.mem_ite_nil_right,
      List.mem_singleton] at written
    rcases written with ((((⟨_, rfl⟩ | ⟨target, _, rfl⟩) | ⟨_, rfl⟩) | ⟨_, rfl⟩) |
      ⟨target, _, rfl⟩) | ⟨target, _, rfl⟩
    all_goals first | rfl | exact flow.registers_exitTo target
  intro register named
  simp only [Stmt.registers, HookCall.registers, hookCall, List.mem_append, List.mem_map,
    List.mem_flatMap] at named
  rcases named with ⟨capture, member, rfl⟩ | ⟨exit, written, own⟩
  · exact captured capture member
  · rw [exits exit written] at own
    cases own

/-! ## Emitted code -/

/-- A fragment asks for all registers that its statements name, and only for registers with a
property. -/
structure Fragment.Asks (known : Register → Prop) (fragment : Fragment) : Prop where
  named : ∀ stmt ∈ fragment.stmts, ∀ register ∈ stmt.registers, register ∈ fragment.requests
  known : ∀ register ∈ fragment.requests, known register

namespace Fragment

variable {known : Register → Prop}

theorem Asks.append {first second : Fragment} (before : first.Asks known)
    (after : second.Asks known) : (first.append second).Asks known where
  named stmt member register own := by
    rcases List.mem_append.mp member with member | member
    · exact List.mem_append_left _ (before.named stmt member register own)
    · exact List.mem_append_right _ (after.named stmt member register own)
  known := List.forall_mem_append.mpr ⟨before.known, after.known⟩

theorem asks_ofStmts {stmts : List Stmt}
    (inside : ∀ stmt ∈ stmts, ∀ register ∈ stmt.registers, known register) :
    (ofStmts stmts).Asks known where
  named _ member _ own := List.mem_flatMap.mpr ⟨_, member, own⟩
  known register asked := by
    obtain ⟨stmt, member, own⟩ := List.mem_flatMap.mp asked
    exact inside stmt member register own

theorem asks_nothing : ({} : Fragment).Asks known :=
  ⟨by simp, by simp⟩

end Fragment

namespace Flow

/-- A register of the machine, or the index of a jump table of the function. -/
def Askable (flow : Flow) (register : Register) : Prop :=
  register.InRange ∨
    ∃ site, ∃ entry ∈ flow.node.jumpTableAt? site, register = .gpr entry.register

theorem emitHooks_asks (flow : Flow) (state : Knowledge) (hooks : List Hook) :
    (flow.emitHooks state hooks).1.Asks flow.Askable := by
  apply Fragment.asks_ofStmts
  rw [List.forall_mem_map]
  exact fun hook _ register own => Or.inl (flow.hookCall_inRange hook register own)

theorem emitMode_asks (flow : Flow) (state : Knowledge) (wanted : Option FlushMode) :
    (emitMode state wanted).1.Asks flow.Askable := by
  cases wanted with
  | none => exact Fragment.asks_nothing
  | some mode =>
      apply Fragment.asks_ofStmts
      rw [List.forall_mem_map]
      intro action required register own
      have switches : ∃ checked, action = mode.switch checked := by
        unfold FlushMode.require at required
        split at required
        · exact ⟨true, List.mem_singleton.mp required⟩
        · split at required
          · cases required
          · exact ⟨false, List.mem_singleton.mp required⟩
      obtain ⟨checked, rfl⟩ := switches
      obtain rfl : register = .fpscr := List.mem_singleton.mp own
      exact Or.inl trivial

theorem emitBody_asks {flow : Flow} {insn : Instruction} {io : Bool} :
    (emitBody insn (flow.lift (flow.node.jumpTableAt? insn.address) io insn)).Asks
      flow.Askable := by
  have known : ∀ register ∈ (flow.lift (flow.node.jumpTableAt? insn.address) io insn).registers,
      flow.Askable register :=
    fun register asked => (lift_registers asked).imp id fun index => ⟨insn.address, index⟩
  unfold emitBody
  split
  next stmts body =>
    refine ⟨fun stmt member register own => ?_, known⟩
    rw [Lifted.registers, body]
    exact List.mem_append_right _ (List.mem_flatMap.mpr ⟨stmt, member, own⟩)
  next => exact ⟨by simp [unimplementedCall, Stmt.registers, Action.registers, Expr.invoke,
    Expr.registers, Expr.context, Expr.wordHex], known⟩

theorem emitInstruction_asks (flow : Flow) (next : Option Instruction) (state : Knowledge)
    (insn : Instruction) : (flow.emitInstruction next state insn).1.Asks flow.Askable := by
  have comment : (Fragment.ofStmts
      [.comment s!"{addressText insn.address}: {insn.text}"]).Asks flow.Askable :=
    Fragment.asks_ofStmts (by simp [Stmt.registers])
  exact comment.append ((flow.emitHooks_asks state _).append ((flow.emitMode_asks _ _).append
    (emitBody_asks.append (flow.emitHooks_asks state _))))

theorem emitInstructions_asks (flow : Flow) (nextOf : Instruction → Option Instruction)
    (state : Knowledge) (instructions : List Instruction) :
    (flow.emitInstructions nextOf state instructions).Asks flow.Askable := by
  induction instructions generalizing state with
  | nil => exact Fragment.asks_nothing
  | cons insn rest ih => exact (flow.emitInstruction_asks _ _ insn).append (ih _)

theorem emitBlock_asks (flow : Flow) (nextOf : Instruction → Option Instruction)
    (block : Block) : (flow.emitBlock nextOf block).Asks flow.Askable := by
  refine (flow.emitInstructions_asks nextOf {} block.instructions).append
    (Fragment.asks_ofStmts ?_)
  rw [List.forall_mem_map]
  intro exit found register own
  obtain ⟨last, _, left⟩ := Option.bind_eq_some_iff.mp (Option.mem_toList.mp found)
  have nothing : exit.registers = [] := by
    unfold blockExit? at left
    split at left
    · cases left
    · split at left <;> cases left
      · rfl
      · exact flow.registers_exitTo block.stop
  have none : register ∈ exit.registers := own
  rw [nothing] at none
  cases none

end Flow

end PowerLift
