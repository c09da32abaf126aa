import Mathlib
import PowerLift.Emit.Arm

/-!
Code that runs straight on: it calls no emitted function by name and has no exit, and it leaves the
flush mode as it is unless it is said to forget it. That is what every instruction becomes that is
no branch.
-/

namespace PowerLift

/-! ## Calls by name -/

/-- The emitted function that a routine is, by name. -/
def Routine.guest? : Routine → Option String
  | guest symbol => some symbol
  | _ => none

/-- The emitted functions that an expression calls by name. -/
def Expr.guests : Expr → List String
  | reg _ | var _ | lit _ | nothing => []
  | paren inner | cast inner _ | unary _ inner | member inner _ => inner.guests
  | binary _ left right => left.guests ++ right.guests
  | method receiver _ arguments => receiver.guests ++ arguments.guests
  | call routine arguments => routine.guest?.toList ++ arguments.guests
  | choice condition yes no => condition.guests ++ yes.guests ++ no.guests
  | comma first rest => first.guests ++ rest.guests

@[simp] theorem Expr.guests_list (arguments : List Expr) :
    (list arguments).guests = arguments.flatMap guests :=
  collect_list rfl (fun _ _ => rfl) arguments

def Action.guests : Action → List String
  | declare _ _ value => value.guests
  | assign place value => place.guests ++ value.guests
  | perform effect => effect.guests

def Exit.guests : Exit → List String
  | goto _ | ret => []
  | redirect label => label.guests
  | leave call => call.guests

/-! ## The flush mode -/

/-- Whether other code runs, of the guest or of the host. -/
def Routine.runsCode : Routine → Bool
  | guest _ | host _ | dispatch | syscall | setjmp | longjmp => true
  | _ => false

/-- Whether the flush mode hangs on a register. -/
def Register.isStatus : Register → Bool
  | fpscr | vscr => true
  | _ => false

/-- Whether a method changes a status that it is called on. -/
def Method.altersStatus (name : Method) (receiver : Expr) : Bool :=
  name.mutates && receiver.registers.any Register.isStatus

/-- Whether evaluating an expression leaves the flush mode as it is. -/
def Expr.keepsMode : Expr → Bool
  | reg _ | var _ | lit _ | nothing => true
  | paren inner | cast inner _ | unary _ inner | member inner _ => inner.keepsMode
  | binary _ left right => left.keepsMode && right.keepsMode
  | method receiver name arguments =>
    receiver.keepsMode && arguments.keepsMode && !name.altersStatus receiver
  | call routine arguments => arguments.keepsMode && !routine.runsCode
  | choice condition yes no => condition.keepsMode && yes.keepsMode && no.keepsMode
  | comma first rest => first.keepsMode && rest.keepsMode

def Action.keepsMode : Action → Bool
  | declare _ _ value => value.keepsMode
  | assign place value =>
    value.keepsMode && place.keepsMode && !place.registers.any Register.isStatus
  | perform effect => effect.keepsMode

theorem Expr.guests_of_keepsMode {expr : Expr} (keeps : expr.keepsMode) : expr.guests = [] := by
  induction expr with
  | reg | var | lit | nothing => rfl
  | paren _ ih | cast _ _ ih | unary _ _ ih | member _ _ ih => exact ih keeps
  | binary _ _ _ ihLeft ihRight =>
      simp only [keepsMode, Bool.and_eq_true] at keeps
      simp [guests, ihLeft keeps.1, ihRight keeps.2]
  | method _ _ _ ihReceiver ihArguments =>
      simp only [keepsMode, Bool.and_eq_true] at keeps
      simp [guests, ihReceiver keeps.1.1, ihArguments keeps.1.2]
  | call routine _ ih =>
      simp only [keepsMode, Bool.and_eq_true, Bool.not_eq_true'] at keeps
      cases routine with
      | guest => cases keeps.2
      | _ => simp [guests, Routine.guest?, ih keeps.1]
  | choice _ _ _ ihCondition ihYes ihNo =>
      simp only [keepsMode, Bool.and_eq_true] at keeps
      simp [guests, ihCondition keeps.1.1, ihYes keeps.1.2, ihNo keeps.2]
  | comma _ _ ihFirst ihRest =>
      simp only [keepsMode, Bool.and_eq_true] at keeps
      simp [guests, ihFirst keeps.1, ihRest keeps.2]

theorem Action.guests_of_keepsMode {action : Action} (keeps : action.keepsMode) :
    action.guests = [] := by
  cases action with
  | declare | perform => exact Expr.guests_of_keepsMode keeps
  | assign place value =>
      simp only [keepsMode, Bool.and_eq_true] at keeps
      simp [guests, Expr.guests_of_keepsMode keeps.1.1, Expr.guests_of_keepsMode keeps.1.2]

namespace Stmt

/-- The emitted functions that a statement calls by name. -/
def guests : Stmt → List String
  | comment _ => []
  | act action => action.guests
  | transfer exit => exit.guests
  | guard condition actions exit =>
    condition.guests ++ actions.flatMap Action.guests ++ exit.toList.flatMap Exit.guests
  | switch condition index cases otherwise =>
    condition.toList.flatMap Expr.guests ++ index.guests ++ cases.flatMap Exit.guests ++
      otherwise.guests
  | hook call => call.call.guests ++ call.exits.flatMap (·.2.guests)

/-- Whether the flush mode is the same where control passes a statement. -/
def keepsMode : Stmt → Bool
  | comment _ | transfer _ => true
  | act action => action.keepsMode
  | guard condition actions exit =>
    condition.keepsMode && (exit.isSome || actions.all Action.keepsMode)
  | switch condition _ _ _ => condition.all Expr.keepsMode
  | hook _ => false

/-! ## Inline code -/

/-- Whether control passes a statement without a call by name. Comments are not meant. -/
def isInline : Stmt → Bool
  | act action => action.guests.isEmpty
  | guard condition actions none =>
    condition.guests.isEmpty && actions.all fun action => action.guests.isEmpty
  | _ => false

theorem guests_of_inline {stmt : Stmt} (inline : stmt.isInline) : stmt.guests = [] := by
  cases stmt with
  | act action => simpa [isInline, guests] using inline
  | guard condition actions exit =>
      cases exit with
      | none =>
          simp only [isInline, Bool.and_eq_true, List.isEmpty_iff, List.all_eq_true] at inline
          simpa [guests, inline.1, List.flatMap_eq_nil_iff] using inline.2
      | some => cases inline
  | comment | transfer | switch | hook => cases inline

end Stmt

namespace Lifted

/-- Whether all of the code for an instruction is inline, and keeps the flush mode unless it is said
to forget it. -/
def isInline (lifted : Lifted) : Bool :=
  (lifted.body.getD []).all fun stmt => stmt.isInline && (stmt.keepsMode || lifted.forgetsMode)

@[simp] theorem isInline_ofActions (requests : List Register) (actions : List Action) :
    (ofActions requests actions).isInline = actions.all Action.keepsMode := by
  have plain : ∀ action : Action,
      (action.guests.isEmpty && action.keepsMode) = action.keepsMode := by
    intro action
    cases keeps : action.keepsMode with
    | false => simp
    | true => simp [Action.guests_of_keepsMode keeps]
  simp [isInline, ofActions, Function.comp_def, Stmt.isInline, Stmt.keepsMode, plain]

theorem stmt_inline {lifted : Lifted} (inline : lifted.isInline) {stmt : Stmt}
    (member : stmt ∈ lifted.body.getD []) :
    stmt.isInline ∧ (lifted.forgetsMode = false → stmt.keepsMode) := by
  have here := List.all_eq_true.mp inline stmt member
  simp only [Bool.and_eq_true, Bool.or_eq_true] at here
  refine ⟨here.1, fun remembers => ?_⟩
  simpa [remembers] using here.2

end Lifted

namespace Lift

theorem system_inline (config : Config) (insn : Instruction) : (system config insn).isInline := by
  unfold system
  split <;> first | rfl | (split <;> rfl)

theorem conditionRegister_inline (insn : Instruction) : (conditionRegister insn).isInline := by
  unfold conditionRegister
  split
  · rfl
  · rfl
  · rw [Lifted.isInline_ofActions, List.all_map]
    exact List.all_eq_true.mpr fun _ _ => rfl
  · split
    next found =>
      unfold bitOperation at found
      split at found <;> cases found <;> rfl
    next => rfl

theorem specialRegister_inline (config : Config) (insn : Instruction) :
    (specialRegister config insn).isInline := by
  unfold specialRegister
  split <;> first | rfl | (split <;> first | rfl | (split <;> rfl))

theorem recorded_inline {insn : Instruction} {requests : List Register} {result : Nat}
    {actions : List Action} (inline : actions.all Action.keepsMode) :
    (recorded insn requests (.gpr result) actions).isInline := by
  unfold recorded
  rw [Lifted.isInline_ofActions]
  split
  · rw [List.all_append, inline]
    rfl
  · exact inline

theorem arithmetic_inline (insn : Instruction) : (arithmetic insn).isInline := by
  have own : ∀ actions, arithmeticActions insn = some actions →
      actions.all Action.keepsMode := by
    intro actions found
    unfold arithmeticActions at found
    split at found <;> cases found <;> rfl
  unfold arithmetic
  split
  · rfl
  · split
    next actions found =>
      split
      · rw [Lifted.isInline_ofActions, List.all_append, own actions found]
        rfl
      · exact recorded_inline (own actions found)
    next => rfl

theorem logical_inline (insn : Instruction) : (logical insn).isInline := by
  unfold logical
  split
  · rfl
  · split
    next found =>
      unfold logicalValue at found
      split at found <;> cases found <;> split <;> first | rfl | exact recorded_inline rfl
    next => rfl

theorem compare_inline (insn : Instruction) : (compare insn).isInline := by
  unfold compare
  split
  next found =>
    unfold comparison at found
    split at found <;> cases found <;> rfl
  next => rfl

theorem rotate_inline (insn : Instruction) : (rotate insn).isInline := by
  unfold rotate
  split
  next found =>
    unfold rotation at found
    split at found <;> cases found <;> exact recorded_inline rfl
  next => rfl

theorem shift_inline (insn : Instruction) : (shift insn).isInline := by
  unfold shift
  split
  next found =>
    unfold shiftActions at found
    split at found <;> cases found <;> exact recorded_inline rfl
  next => rfl

theorem isInline_access {requests : List Register} {insn : Instruction} {actions : List Action}
    (inline : actions.all Action.keepsMode) :
    (Lifted.ofActions requests (nameAddress insn :: actions)).isInline := by
  have address : (effectiveAddress insn).keepsMode := by
    unfold effectiveAddress
    dsimp only
    repeat' split
    all_goals rfl
  rw [Lifted.isInline_ofActions, List.all_cons, inline, Bool.and_true]
  exact address

theorem integerLoad_inline (io : Bool) (insn : Instruction) : (integerLoad io insn).isInline := by
  unfold integerLoad
  split
  · exact isInline_access rfl
  · exact isInline_access rfl
  · apply isInline_access
    rw [List.all_map]
    exact List.all_eq_true.mpr fun _ _ => rfl
  · split
    next found =>
      unfold loadAccess? at found
      split at found <;> cases found <;> exact isInline_access rfl
    next => rfl

theorem integerStore_inline (io : Bool) (insn : Instruction) :
    (integerStore io insn).isInline := by
  unfold integerStore
  split
  · exact isInline_access rfl
  · exact isInline_access rfl
  · apply isInline_access
    rw [List.all_map]
    exact List.all_eq_true.mpr fun _ _ => rfl
  · split
    next found =>
      unfold storeAccess? at found
      split at found <;> cases found <;> exact isInline_access rfl
    next => rfl

theorem floatLoad_inline (io : Bool) (insn : Instruction) : (floatLoad io insn).isInline := by
  unfold floatLoad
  split <;> first | rfl | exact isInline_access rfl

theorem floatStore_inline (io : Bool) (insn : Instruction) : (floatStore io insn).isInline := by
  unfold floatStore
  split <;> first | rfl | exact isInline_access rfl

theorem vectorLoad_inline (io : Bool) (insn : Instruction) : (vectorLoad io insn).isInline := by
  unfold vectorLoad
  split
  next found =>
    unfold vectorLoadValue at found
    split at found <;> cases found <;> exact isInline_access rfl
  next => rfl

theorem vectorStore_inline (io : Bool) (insn : Instruction) : (vectorStore io insn).isInline := by
  unfold vectorStore
  split
  next found =>
    unfold vectorStoreShape at found
    split at found <;> cases found <;> exact isInline_access rfl
  next => rfl

theorem cache_inline (insn : Instruction) : (cache insn).isInline := by
  unfold cache
  split <;> first | rfl | exact isInline_access rfl

theorem floatArithmetic_inline (insn : Instruction) : (floatArithmetic insn).isInline := by
  unfold floatArithmetic
  split
  next found =>
    unfold floatValue at found
    split at found <;> cases found <;> rfl
  next => rfl

theorem floatControl_inline (insn : Instruction) : (floatControl insn).isInline := by
  unfold floatControl
  split <;> rfl

theorem float_inline (insn : Instruction) : (float insn).isInline := by
  have own : ∀ lifted : Lifted, lifted.isInline →
      (if insn.records then { lifted with body := lifted.body.map (· ++ [.act (statusField 1 0)]) }
        else lifted).isInline := by
    intro lifted inline
    split
    · unfold Lifted.isInline at inline ⊢
      cases body : lifted.body with
      | none => rfl
      | some stmts =>
          rw [body, Option.getD_some] at inline
          rw [Option.map_some, Option.getD_some, List.all_append, inline]
          rfl
    · exact inline
  apply own
  split
  · exact floatArithmetic_inline insn
  · unfold floatMove
    split <;> rfl
  · unfold floatCompare
    split <;> rfl
  · exact floatControl_inline insn
  · rfl

theorem vectorActions_inline (insn : Instruction) :
    (vectorActions insn).all Action.keepsMode := by
  have value : (vectorValue insn).keepsMode := by
    unfold vectorValue
    split <;> rfl
  have summary : ∀ result : Nat, (recordVector insn (.vr result)).all Action.keepsMode := by
    intro result
    unfold recordVector
    dsimp only
    repeat' split
    all_goals rfl
  rw [vectorActions, List.all_cons, summary, Bool.and_true, Action.keepsMode, value]
  rfl

theorem vector_inline (insn : Instruction) : (vector insn).isInline := by
  unfold vector
  split
  · unfold vectorControl
    split <;> rfl
  · exact (Lifted.isInline_ofActions [] _).trans (vectorActions_inline insn)
  · exact (Lifted.isInline_ofActions [] _).trans (vectorActions_inline insn)
  · exact (Lifted.isInline_ofActions [] _).trans (vectorActions_inline insn)
  · rfl

theorem joined_keepsMode {op : BinaryOp} {tests : List Expr} {value : Expr}
    (plain : ∀ test ∈ tests, test.keepsMode) (found : Expr.joined op tests = some value) :
    value.keepsMode := by
  cases tests with
  | nil => cases found
  | cons first rest =>
      cases found
      rw [List.forall_mem_cons] at plain
      refine List.foldlRecOn (motive := fun value => value.keepsMode) rest (Expr.binary op)
        plain.1 ?_
      intro value keeps test among
      simp [Expr.keepsMode, keeps, plain.2 test among]

theorem trap_inline (insn : Instruction) : (trap insn).isInline := by
  have tests : ∀ (right : Expr) (signed unsigned : NumType) (condition : Expr),
      right.keepsMode →
      Expr.joined .either (trapTests insn (.gpr insn.ra) right signed unsigned) = some condition →
      condition.keepsMode := by
    intro right signed unsigned condition plain found
    refine joined_keepsMode (fun test member => ?_) found
    have operands : ∀ (op : BinaryOp) (type : NumType),
        (Expr.binary op (.paren (.cast (.gpr insn.ra) type))
          (.paren (.cast right type))).keepsMode := by
      intro op type
      simp [Expr.keepsMode, Expr.gpr, plain]
    simp only [trapTests, List.mem_append] at member
    rcases member with (((member | member) | member) | member) | member <;>
    · split at member
      · rw [List.mem_singleton.mp member]
        exact operands _ _
      · cases member
  unfold trap
  dsimp only
  split
  · rfl
  · split
    case h_5 => rfl
    all_goals
      split
      next condition found =>
        have plain := tests _ _ _ _ rfl found
        simp only [Lifted.isInline, Option.getD_some, List.all_cons, List.all_nil, Stmt.isInline,
          Stmt.keepsMode, plain, Expr.guests_of_keepsMode plain]
        rfl
      next => rfl

end Lift

/-- An instruction that is no branch becomes inline code. -/
theorem Flow.lift_inline (flow : Flow) (table : Option JumpTable) (io : Bool) {insn : Instruction}
    (noBranch : insn.group ≠ .branch) : (flow.lift table io insn).isInline := by
  unfold Flow.lift
  split
  case h_1 group => exact absurd group noBranch
  case h_2 => exact Lift.trap_inline insn
  case h_3 => exact Lift.system_inline flow.config insn
  case h_4 => exact Lift.conditionRegister_inline insn
  case h_5 => exact Lift.specialRegister_inline flow.config insn
  case h_6 => exact Lift.arithmetic_inline insn
  case h_7 => exact Lift.logical_inline insn
  case h_8 => exact Lift.compare_inline insn
  case h_9 => exact Lift.rotate_inline insn
  case h_10 => exact Lift.shift_inline insn
  case h_11 => exact Lift.integerLoad_inline io insn
  case h_12 => exact Lift.integerStore_inline io insn
  case h_13 => exact Lift.floatLoad_inline io insn
  case h_14 => exact Lift.floatStore_inline io insn
  case h_15 => exact Lift.vectorLoad_inline io insn
  case h_16 => exact Lift.vectorStore_inline io insn
  case h_17 => exact Lift.cache_inline insn
  case h_26 => rfl
  all_goals first | exact Lift.float_inline insn | exact Lift.vector_inline insn

end PowerLift
