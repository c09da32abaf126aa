import Mathlib
import PowerLift.Lift.Dispatch
import PowerLift.Proofs.ControlFlow

/-!
The ways that control takes through statements, and the exits in the code for an instruction.
-/

namespace PowerLift

/-! ## Paths -/

/-- How control goes on after host code, by its result: the first exit that applies is taken. -/
def HookCall.outcome (hook : HookCall) (result : Bool) : Option Exit :=
  (hook.exits.find? fun exit => exit.1.all (· == result)).map (·.2)

namespace Stmt

/-- The exits that a statement writes down. -/
def exits : Stmt → List Exit
  | comment _ | act _ => []
  | transfer exit => [exit]
  | guard _ _ exit => exit.toList
  | switch _ _ cases otherwise => cases ++ [otherwise]
  | hook call => call.exits.map (·.2)

/-- How control may go on after a statement: by an exit, or with the statement after it. -/
inductive Leads : Stmt → Option Exit → Prop
  | comment {text : String} : Leads (comment text) none
  | act {action : Action} : Leads (act action) none
  | transfer {exit : Exit} : Leads (transfer exit) (some exit)
  | holds {condition : Expr} {actions : List Action} {exit : Option Exit} :
      Leads (guard condition actions exit) exit
  | fails {condition : Expr} {actions : List Action} {exit : Option Exit} :
      Leads (guard condition actions exit) none
  | case {condition : Option Expr} {index : Expr} {cases : List Exit} {otherwise exit : Exit}
      (member : exit ∈ cases) : Leads (switch condition index cases otherwise) (some exit)
  | otherwise {condition : Option Expr} {index : Expr} {cases : List Exit} {otherwise : Exit} :
      Leads (switch condition index cases otherwise) (some otherwise)
  | unasked {condition index : Expr} {cases : List Exit} {otherwise : Exit} :
      Leads (switch (some condition) index cases otherwise) none
  | hook {call : HookCall} (result : Bool) : Leads (hook call) (call.outcome result)

theorem exists_leads (stmt : Stmt) : ∃ outcome, stmt.Leads outcome := by
  cases stmt with
  | comment => exact ⟨_, .comment⟩
  | act => exact ⟨_, .act⟩
  | transfer => exact ⟨_, .transfer⟩
  | guard => exact ⟨_, .fails⟩
  | switch => exact ⟨_, .otherwise⟩
  | hook => exact ⟨_, .hook true⟩

/-- The paths through statements one after the other. One without an exit reaches their end. -/
inductive Path : List Stmt → Option Exit → Prop
  | finish : Path [] none
  | leave {stmt : Stmt} {rest : List Stmt} {exit : Exit} (leads : stmt.Leads (some exit)) :
      Path (stmt :: rest) (some exit)
  | next {stmt : Stmt} {rest : List Stmt} {outcome : Option Exit} (leads : stmt.Leads none)
      (onward : Path rest outcome) : Path (stmt :: rest) outcome

theorem exists_path (stmts : List Stmt) : ∃ outcome, Path stmts outcome := by
  induction stmts with
  | nil => exact ⟨_, .finish⟩
  | cons stmt rest ih =>
      obtain ⟨outcome, leads⟩ := exists_leads stmt
      cases outcome with
      | some exit => exact ⟨_, .leave leads⟩
      | none =>
          obtain ⟨outcome, onward⟩ := ih
          exact ⟨_, .next leads onward⟩

/-- To reach the end, control passes every statement. -/
theorem Path.leads_none {stmts : List Stmt} (path : Path stmts none) :
    ∀ stmt ∈ stmts, stmt.Leads none := by
  generalize reached : (none : Option Exit) = outcome at path
  induction path with
  | finish => simp
  | leave => cases reached
  | next leads _ ih =>
      subst reached
      intro stmt member
      rcases List.mem_cons.mp member with rfl | later
      · exact leads
      · exact ih rfl stmt later

theorem not_leads_transfer {exit : Exit} : ¬ (transfer exit).Leads none := by
  rintro ⟨⟩

theorem not_leads_switch {index : Expr} {cases : List Exit} {otherwise : Exit} :
    ¬ (switch none index cases otherwise).Leads none := by
  rintro ⟨⟩

@[simp] theorem exits_acts (actions : List Action) : (actions.map act).flatMap exits = [] := by
  simp [List.flatMap_map, exits]

@[simp] theorem exits_guarded (condition : Option Expr) (actions : List Action)
    (exit : Option Exit) : (guarded condition actions exit).flatMap exits = exit.toList := by
  cases condition with
  | some condition => simp [guarded, exits]
  | none => cases exit <;> simp [guarded, exits, List.flatMap_map]

end Stmt

/-! ## Code without exits -/

namespace Lifted

/-- The exits in the code for an instruction. -/
def exits (lifted : Lifted) : List Exit :=
  (lifted.body.getD []).flatMap Stmt.exits

@[simp] theorem exits_missing (requests : List Register) : (missing requests).exits = [] := rfl

theorem exits_acts (requests : List Register) (mode : Option FlushMode) (actions : List Action)
    (forgets : Bool) : exits ⟨requests, mode, some (actions.map .act), forgets⟩ = [] :=
  Stmt.exits_acts actions

theorem exits_append_if (condition : Prop) [Decidable condition] (lifted : Lifted)
    (action : Action) :
    (if condition then { lifted with body := lifted.body.map (· ++ [.act action]) }
      else lifted).exits = lifted.exits := by
  split
  · cases body : lifted.body with
    | none => simp [exits, body]
    | some stmts => simp [exits, body, Stmt.exits]
  · rfl

@[simp] theorem exits_ofActions (requests : List Register) (actions : List Action) :
    (ofActions requests actions).exits = [] :=
  exits_acts _ _ _ _

end Lifted

namespace Lift

@[simp] theorem system_exits (config : Config) (insn : Instruction) :
    (system config insn).exits = [] := by
  unfold system
  split <;> first | rfl | (split <;> rfl)

@[simp] theorem conditionRegister_exits (insn : Instruction) :
    (conditionRegister insn).exits = [] := by
  unfold conditionRegister
  split
  · rfl
  · rfl
  · exact Lifted.exits_ofActions _ _
  · split <;> rfl

@[simp] theorem specialRegister_exits (config : Config) (insn : Instruction) :
    (specialRegister config insn).exits = [] := by
  unfold specialRegister
  split <;> first | rfl | (split <;> first | rfl | (split <;> rfl))

@[simp] theorem recorded_exits (insn : Instruction) (requests : List Register) (result : Expr)
    (actions : List Action) : (recorded insn requests result actions).exits = [] :=
  Lifted.exits_ofActions _ _

@[simp] theorem arithmetic_exits (insn : Instruction) : (arithmetic insn).exits = [] := by
  unfold arithmetic
  split
  · rfl
  · split
    · split
      · exact Lifted.exits_ofActions _ _
      · exact recorded_exits _ _ _ _
    · rfl

@[simp] theorem logical_exits (insn : Instruction) : (logical insn).exits = [] := by
  unfold logical
  split
  · rfl
  · split
    · split
      · rfl
      · exact recorded_exits _ _ _ _
    · rfl

@[simp] theorem compare_exits (insn : Instruction) : (compare insn).exits = [] := by
  unfold compare
  split <;> rfl

@[simp] theorem rotate_exits (insn : Instruction) : (rotate insn).exits = [] := by
  unfold rotate
  split
  · exact recorded_exits _ _ _ _
  · rfl

@[simp] theorem shift_exits (insn : Instruction) : (shift insn).exits = [] := by
  unfold shift
  split
  · exact recorded_exits _ _ _ _
  · rfl

@[simp] theorem integerLoad_exits (io : Bool) (insn : Instruction) :
    (integerLoad io insn).exits = [] := by
  unfold integerLoad
  split
  · rfl
  · rfl
  · exact Lifted.exits_ofActions _ _
  · split
    · exact Lifted.exits_ofActions _ _
    · rfl

@[simp] theorem integerStore_exits (io : Bool) (insn : Instruction) :
    (integerStore io insn).exits = [] := by
  unfold integerStore
  split
  · rfl
  · rfl
  · exact Lifted.exits_ofActions _ _
  · split
    · exact Lifted.exits_ofActions _ _
    · rfl

@[simp] theorem floatLoad_exits (io : Bool) (insn : Instruction) :
    (floatLoad io insn).exits = [] := by
  unfold floatLoad
  split <;> first | exact Lifted.exits_ofActions _ _ | rfl

@[simp] theorem floatStore_exits (io : Bool) (insn : Instruction) :
    (floatStore io insn).exits = [] := by
  unfold floatStore
  split <;> first | exact Lifted.exits_ofActions _ _ | rfl

@[simp] theorem vectorLoad_exits (io : Bool) (insn : Instruction) :
    (vectorLoad io insn).exits = [] := by
  unfold vectorLoad
  split <;> rfl

@[simp] theorem vectorStore_exits (io : Bool) (insn : Instruction) :
    (vectorStore io insn).exits = [] := by
  unfold vectorStore
  split <;> rfl

@[simp] theorem cache_exits (insn : Instruction) : (cache insn).exits = [] := by
  unfold cache
  split <;> rfl

@[simp] theorem floatArithmetic_exits (insn : Instruction) : (floatArithmetic insn).exits = [] := by
  unfold floatArithmetic
  split <;> rfl

@[simp] theorem floatMove_exits (insn : Instruction) : (floatMove insn).exits = [] := by
  unfold floatMove
  split <;> rfl

@[simp] theorem floatCompare_exits (insn : Instruction) : (floatCompare insn).exits = [] := by
  unfold floatCompare
  split <;> rfl

@[simp] theorem floatControl_exits (insn : Instruction) : (floatControl insn).exits = [] := by
  unfold floatControl
  split <;> rfl

@[simp] theorem float_exits (insn : Instruction) : (float insn).exits = [] := by
  unfold float
  rw [Lifted.exits_append_if]
  split
  · exact floatArithmetic_exits insn
  · exact floatMove_exits insn
  · exact floatCompare_exits insn
  · exact floatControl_exits insn
  · rfl

@[simp] theorem vector_exits (insn : Instruction) : (vector insn).exits = [] := by
  unfold vector
  split
  · unfold vectorControl
    split <;> rfl
  · exact Lifted.exits_acts _ _ _ _
  · exact Lifted.exits_ofActions _ _
  · exact Lifted.exits_ofActions _ _
  · rfl

@[simp] theorem trap_exits (insn : Instruction) : (trap insn).exits = [] := by
  unfold trap
  split
  · rfl
  · split
    all_goals first | rfl | (dsimp only; split <;> rfl)

end Lift

end PowerLift
