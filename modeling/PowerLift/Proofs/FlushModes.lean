import Mathlib
import PowerLift.Proofs.Positions

/-!
The flush mode of the host along the paths of an arm. Other code may leave any mode behind, and so
may a change of a status; nothing else touches it but the switches. Wherever a switch is left out,
the mode is the one that is needed.
-/

namespace PowerLift

/-! ## How code changes the mode -/

/-- Whether a method of a status may leave a mode behind. -/
def Method.Leaves : Method → FlushMode → Prop
  | flushMode on _, mode => mode = if on then .vector else .scalar
  | _, _ => True

/-- The modes before and after an expression is evaluated. -/
def Expr.Turns : Expr → FlushMode → FlushMode → Prop
  | reg _, before, after | var _, before, after | lit _, before, after | nothing, before, after =>
    after = before
  | paren inner, before, after | cast inner _, before, after | unary _ inner, before, after
  | member inner _, before, after => inner.Turns before after
  | binary _ left right, before, after =>
    -- The right side is not always evaluated.
    ∃ between, left.Turns before between ∧ (after = between ∨ right.Turns between after)
  | method receiver name arguments, before, after =>
    ∃ first between, receiver.Turns before first ∧ arguments.Turns first between ∧
      if name.altersStatus receiver then name.Leaves after else after = between
  | call routine arguments, before, after =>
    ∃ between, arguments.Turns before between ∧ (routine.runsCode ∨ after = between)
  | choice condition yes no, before, after =>
    ∃ between, condition.Turns before between ∧ (yes.Turns between after ∨ no.Turns between after)
  | comma first rest, before, after =>
    ∃ between, first.Turns before between ∧ rest.Turns between after

def Action.Turns : Action → FlushMode → FlushMode → Prop
  | declare _ _ value, before, after => value.Turns before after
  | assign place value, before, after =>
    ∃ first between, value.Turns before first ∧ place.Turns first between ∧
      (place.registers.any Register.isStatus ∨ after = between)
  | perform effect, before, after => effect.Turns before after

/-- The modes before and after steps one after the other. -/
def Through {α : Type} (step : α → FlushMode → FlushMode → Prop) :
    List α → FlushMode → FlushMode → Prop
  | [], before, after => after = before
  | head :: rest, before, after =>
    ∃ between, step head before between ∧ Through step rest between after

namespace Stmt

/-- The modes before and after control passes a statement. Where it leaves the arm it does not. -/
def Passes : Stmt → FlushMode → FlushMode → Prop
  | comment _, before, after => after = before
  | act action, before, after => action.Turns before after
  | transfer _, _, _ => False
  | guard condition actions exit, before, after =>
    ∃ between, condition.Turns before between ∧
      (after = between ∨ exit = none ∧ Through Action.Turns actions between after)
  | switch condition _ _ _, before, after => ∃ test ∈ condition, test.Turns before after
  | hook _, _, _ => True

/-- Control enters a statement in a mode and comes to an action of it in another. -/
def Executes : Stmt → FlushMode → Action → FlushMode → Prop
  | act action, before, executed, mode => executed = action ∧ mode = before
  | guard condition actions _, before, executed, mode =>
    ∃ front back between, actions = front ++ executed :: back ∧ condition.Turns before between ∧
      Through Action.Turns front between mode
  | _, _, _, _ => False

end Stmt

/-! ## Code that keeps the mode -/

theorem Expr.turns_of_keepsMode {expr : Expr} (keeps : expr.keepsMode) {before after : FlushMode}
    (turns : expr.Turns before after) : after = before := by
  induction expr generalizing before after with
  | reg | var | lit | nothing => exact turns
  | paren _ ih | cast _ _ ih | unary _ _ ih | member _ _ ih => exact ih keeps turns
  | binary _ _ _ ihLeft ihRight =>
      simp only [keepsMode, Bool.and_eq_true] at keeps
      obtain ⟨between, left, rfl | right⟩ := turns
      · exact ihLeft keeps.1 left
      · exact (ihRight keeps.2 right).trans (ihLeft keeps.1 left)
  | method receiver name _ ihReceiver ihArguments =>
      simp only [keepsMode, Bool.and_eq_true, Bool.not_eq_true'] at keeps
      obtain ⟨first, between, own, arguments, leaves⟩ := turns
      rw [keeps.2] at leaves
      exact leaves.trans ((ihArguments keeps.1.2 arguments).trans (ihReceiver keeps.1.1 own))
  | call routine _ ih =>
      simp only [keepsMode, Bool.and_eq_true, Bool.not_eq_true'] at keeps
      obtain ⟨between, arguments, runs | rfl⟩ := turns
      · rw [keeps.2] at runs
        cases runs
      · exact ih keeps.1 arguments
  | choice _ _ _ ihCondition ihYes ihNo =>
      simp only [keepsMode, Bool.and_eq_true] at keeps
      obtain ⟨between, condition, yes | no⟩ := turns
      · exact (ihYes keeps.1.2 yes).trans (ihCondition keeps.1.1 condition)
      · exact (ihNo keeps.2 no).trans (ihCondition keeps.1.1 condition)
  | comma _ _ ihFirst ihRest =>
      simp only [keepsMode, Bool.and_eq_true] at keeps
      obtain ⟨between, first, rest⟩ := turns
      exact (ihRest keeps.2 rest).trans (ihFirst keeps.1 first)

theorem Action.turns_of_keepsMode {action : Action} (keeps : action.keepsMode)
    {before after : FlushMode} (turns : action.Turns before after) : after = before := by
  cases action with
  | declare | perform => exact Expr.turns_of_keepsMode keeps turns
  | assign place value =>
      simp only [keepsMode, Bool.and_eq_true, Bool.not_eq_true'] at keeps
      obtain ⟨first, between, own, placed, status | rfl⟩ := turns
      · rw [keeps.2] at status
        cases status
      · exact (Expr.turns_of_keepsMode keeps.1.2 placed).trans
          (Expr.turns_of_keepsMode keeps.1.1 own)

theorem through_append {α : Type} {step : α → FlushMode → FlushMode → Prop} {first second : List α}
    {before after : FlushMode} :
    Through step (first ++ second) before after ↔
      ∃ between, Through step first before between ∧ Through step second between after := by
  induction first generalizing before with
  | nil => simp [Through]
  | cons head rest ih =>
      simp only [List.cons_append, Through, ih]
      constructor
      · rintro ⟨middle, own, between, others, onward⟩
        exact ⟨between, ⟨middle, own, others⟩, onward⟩
      · rintro ⟨between, ⟨middle, own, others⟩, onward⟩
        exact ⟨middle, own, between, others, onward⟩

theorem through_of_keeps {α : Type} {step : α → FlushMode → FlushMode → Prop} {items : List α}
    (keeps : ∀ item ∈ items, ∀ {before after}, step item before after → after = before)
    {before after : FlushMode} (through : Through step items before after) : after = before := by
  induction items generalizing before with
  | nil => exact through
  | cons head rest ih =>
      rw [List.forall_mem_cons] at keeps
      obtain ⟨between, own, others⟩ := through
      exact (ih keeps.2 others).trans (keeps.1 own)

namespace Stmt

theorem passes_of_keepsMode {stmt : Stmt} (keeps : stmt.keepsMode) {before after : FlushMode}
    (passes : stmt.Passes before after) : after = before := by
  cases stmt with
  | comment => exact passes
  | act => exact Action.turns_of_keepsMode keeps passes
  | transfer => exact passes.elim
  | guard condition actions exit =>
      simp only [keepsMode, Bool.and_eq_true] at keeps
      obtain ⟨between, tested, rfl | ⟨rfl, through⟩⟩ := passes
      · exact Expr.turns_of_keepsMode keeps.1 tested
      · have plain : ∀ action ∈ actions, action.keepsMode := by simpa using keeps.2
        exact (through_of_keeps (fun action member => Action.turns_of_keepsMode
          (plain action member)) through).trans (Expr.turns_of_keepsMode keeps.1 tested)
  | switch condition =>
      obtain ⟨test, found, tested⟩ := passes
      cases found
      exact Expr.turns_of_keepsMode keeps tested
  | hook => cases keeps

theorem Executes.mode_eq {stmt : Stmt} (inline : stmt.isInline) (keeps : stmt.keepsMode)
    {before mode : FlushMode} {action : Action} (executes : stmt.Executes before action mode) :
    mode = before := by
  cases stmt with
  | act => exact executes.2
  | guard condition actions exit =>
      simp only [keepsMode, Bool.and_eq_true] at keeps
      obtain ⟨front, back, between, rfl, tested, through⟩ := executes
      cases exit with
      | some => cases inline
      | none =>
          have plain : ∀ earlier ∈ front, earlier.keepsMode := by
            simp only [Option.isSome_none, Bool.false_or, List.all_append, Bool.and_eq_true,
              List.all_eq_true] at keeps
            exact keeps.2.1
          exact (through_of_keeps (fun earlier member => Action.turns_of_keepsMode
            (plain earlier member)) through).trans (Expr.turns_of_keepsMode keeps.1 tested)
  | comment | transfer | switch | hook => cases inline

end Stmt

/-! ## The code for an instruction -/

namespace Lift

theorem guarded_keepsMode {condition : Option Expr} {actions : List Action} {exit : Option Exit}
    (tests : ∀ test ∈ condition, test.keepsMode) (plain : ∀ action ∈ actions, action.keepsMode)
    {stmt : Stmt} (member : stmt ∈ Stmt.guarded condition actions exit) : stmt.keepsMode := by
  cases condition with
  | some test =>
      obtain rfl := List.mem_singleton.mp member
      simpa [Stmt.keepsMode, tests test rfl] using Or.inr plain
  | none =>
      rcases List.mem_append.mp member with member | member
      · obtain ⟨action, among, rfl⟩ := List.mem_map.mp member
        exact plain action among
      · obtain ⟨_, _, rfl⟩ := List.mem_map.mp member
        rfl

theorem acts_keepsMode {actions : List Action} (plain : ∀ action ∈ actions, action.keepsMode)
    {stmt : Stmt} (member : stmt ∈ actions.map Stmt.act) : stmt.keepsMode := by
  obtain ⟨action, among, rfl⟩ := List.mem_map.mp member
  exact plain action among

theorem underCondition_keepsMode {insn : Instruction} {actions : List Action} {exit : Option Exit}
    (plain : ∀ action ∈ actions, action.keepsMode) {stmt : Stmt}
    (member : stmt ∈ (underCondition insn actions exit).body.getD []) : stmt.keepsMode := by
  obtain ⟨before, tests⟩ := branchCondition_keepsMode insn
  rcases List.mem_append.mp member with member | member
  · exact acts_keepsMode before member
  · exact guarded_keepsMode tests plain member

theorem indirectJump_keepsMode {flow : Flow} {table : Option JumpTable} {before : List Action}
    {condition : Option Expr} (plain : ∀ action ∈ before, action.keepsMode)
    (tests : ∀ test ∈ condition, test.keepsMode) {stmt : Stmt}
    (member : stmt ∈ (indirectJump flow table before condition).body.getD []) :
    stmt.keepsMode := by
  cases table with
  | none =>
      rcases List.mem_append.mp member with member | member
      · exact acts_keepsMode plain member
      · exact guarded_keepsMode tests (by simp) member
  | some table =>
      rcases List.mem_append.mp member with member | member
      · exact acts_keepsMode plain member
      · obtain rfl := List.mem_singleton.mp member
        cases condition with
        | none => rfl
        | some test => exact tests test rfl

theorem setLink_keepsMode (flow : Flow) (insn : Instruction) :
    ∀ action ∈ flow.setLink insn, action.keepsMode := by
  unfold Flow.setLink
  split
  · simp
  · exact List.forall_mem_singleton.mpr rfl

/-- A branch that calls nothing on the way on keeps the mode. -/
theorem branch_keepsMode {flow : Flow} {table : Option JumpTable} {insn : Instruction}
    (remembers : (branch flow table insn).forgetsMode = false) {stmt : Stmt}
    (member : stmt ∈ (branch flow table insn).body.getD []) : stmt.keepsMode := by
  have absent : ∀ requests, stmt ∉ (Lifted.missing requests).body.getD [] := fun _ =>
    List.not_mem_nil
  have leaves : ∀ exit, stmt ∈ [Stmt.transfer exit] → stmt.keepsMode := by
    intro exit member
    obtain rfl := List.mem_singleton.mp member
    rfl
  generalize same : branch flow table insn = lifted at remembers member
  unfold branch at same
  split at same
  case h_1 =>
    split at same <;> subst same
    · exact leaves _ member
    · exact absurd member (absent _)
  case h_2 =>
    split at same <;> subst same
    · cases remembers
    · exact absurd member (absent _)
  case h_3 =>
    split at same <;> subst same
    · exact underCondition_keepsMode (by simp) member
    · exact absurd member (absent _)
  case h_4 =>
    split at same
    · split at same <;> subst same
      · exact underCondition_keepsMode (setLink_keepsMode flow insn) member
      · cases remembers
    · subst same
      exact absurd member (absent _)
  case h_5 =>
    subst same
    exact leaves _ member
  case h_6 =>
    split at same <;> subst same
    · cases remembers
    · exact underCondition_keepsMode (by simp) member
  case h_8 =>
    subst same
    exact indirectJump_keepsMode (by simp) (by simp) member
  case h_9 =>
    split at same <;> subst same
    · cases remembers
    · obtain ⟨before, tests⟩ := branchCondition_keepsMode insn
      exact indirectJump_keepsMode before tests member
  case h_11 =>
    subst same
    exact absurd member (absent _)
  all_goals
    subst same
    cases remembers

end Lift

namespace Flow

theorem lift_keepsMode {flow : Flow} {table : Option JumpTable} {io : Bool} {insn : Instruction}
    (remembers : (flow.lift table io insn).forgetsMode = false) {stmt : Stmt}
    (member : stmt ∈ (flow.lift table io insn).body.getD []) : stmt.keepsMode := by
  by_cases group : insn.group = .branch
  · have same : flow.lift table io insn = Lift.branch flow table insn := by
      rw [lift, group]
    rw [same] at remembers member
    exact Lift.branch_keepsMode remembers member
  · exact (Lifted.stmt_inline (flow.lift_inline table io group) member).2 remembers

/-- Arithmetic is done in the mode that its code asks for. -/
theorem lift_mode (flow : Flow) (table : Option JumpTable) (io : Bool) (insn : Instruction) :
    (insn.group = .floatArithmetic → (flow.lift table io insn).body = none ∨
      (flow.lift table io insn).mode = some .scalar ∧
        (flow.lift table io insn).forgetsMode = false) ∧
    (insn.group = .vectorFloat → (flow.lift table io insn).mode = some .vector ∧
      (flow.lift table io insn).forgetsMode = false) := by
  constructor
  · intro group
    simp only [lift, group, Lift.float, Lift.floatArithmetic]
    cases Lift.floatValue insn with
    | none => left; split <;> rfl
    | some value => right; split <;> exact ⟨rfl, rfl⟩
  · intro group
    simp only [lift, group, Lift.vector]
    exact ⟨trivial, rfl⟩

/-! ## What is known and what is so -/

end Flow

/-- The mode is the one that is known, if one is. -/
def Knowledge.Knows (state : Knowledge) (mode : FlushMode) : Prop :=
  ∀ known ∈ state.mode, known = mode

namespace Flow

theorem emitHooks_knows {flow : Flow} {state : Knowledge} {hooks : List Hook}
    {before after : FlushMode} (knows : state.Knows before)
    (through : Through Stmt.Passes (flow.hookStmts hooks) before after) :
    (flow.emitHooks state hooks).2.Knows after := by
  cases hooks with
  | nil =>
      obtain rfl : after = before := through
      exact knows
  | cons => exact fun _ known => by cases known

theorem emitMode_knows {state : Knowledge} {wanted : Option FlushMode} {before after : FlushMode}
    (knows : state.Knows before)
    (through : Through Stmt.Passes (emitMode state wanted).1.stmts before after) :
    (emitMode state wanted).2.Knows after := by
  have switched : ∀ {mode checked between}, (FlushMode.switch mode checked).Turns before between →
      between = mode := by
    rintro mode checked between ⟨_, _, _, _, leaves⟩
    cases mode <;> exact leaves
  cases wanted with
  | none =>
      obtain rfl : after = before := through
      exact knows
  | some mode =>
      rintro _ ⟨⟩
      cases known : state.mode with
      | none =>
          simp only [emitMode, known, FlushMode.require] at through
          obtain ⟨between, turns, rfl⟩ := through
          exact (switched turns).symm
      | some held =>
          obtain rfl : held = before := knows held known
          simp only [emitMode, known, FlushMode.require] at through
          split at through
          next same =>
            obtain rfl : after = held := through
            exact same.symm
          next =>
            obtain ⟨between, turns, rfl⟩ := through
            exact (switched turns).symm

theorem emitBody_keepsMode {flow : Flow} {next : Option Instruction} {state : Knowledge}
    {insn : Instruction} (remembers : (flow.liftedAt next state insn).forgetsMode = false)
    {stmt : Stmt} (member : stmt ∈ (emitBody insn (flow.liftedAt next state insn)).stmts) :
    stmt.keepsMode := by
  rcases mem_emitBody.mp member with own | ⟨_, rfl⟩
  · exact lift_keepsMode remembers own
  · rfl

theorem preamble_knows {flow : Flow} {next : Option Instruction} {state : Knowledge}
    {insn : Instruction} {before after : FlushMode} (knows : state.Knows before)
    (through : Through Stmt.Passes (flow.preamble next state insn) before after) :
    (emitMode (flow.ready state insn) (flow.liftedAt next state insn).mode).2.Knows after := by
  obtain ⟨between, front, mode⟩ := through_append.mp through
  obtain ⟨_, ⟨_, rfl, rfl⟩, hooks⟩ := through_append.mp front
  exact emitMode_knows (emitHooks_knows knows hooks) mode

theorem emitInstruction_knows {flow : Flow} {next : Option Instruction} {state : Knowledge}
    {insn : Instruction} {before after : FlushMode} (knows : state.Knows before)
    (through : Through Stmt.Passes (flow.emitInstruction next state insn).1.stmts before after) :
    (flow.emitInstruction next state insn).2.Knows after := by
  obtain ⟨stmts, known⟩ := flow.emitInstruction_eq next state insn
  rw [stmts] at through
  rw [known]
  obtain ⟨ready, preamble, rest⟩ := through_append.mp through
  obtain ⟨done, body, hooks⟩ := through_append.mp rest
  refine emitHooks_knows ?_ hooks
  have prepared := preamble_knows knows preamble
  cases remembers : (flow.liftedAt next state insn).forgetsMode with
  | true => simp [Knowledge.Knows, afterInstruction, remembers]
  | false =>
      obtain rfl := through_of_keeps (fun stmt member =>
        Stmt.passes_of_keepsMode (emitBody_keepsMode remembers member)) body
      simpa [Knowledge.Knows, afterInstruction, remembers] using prepared

theorem emitInstructions_knows {flow : Flow} {nextOf : Instruction → Option Instruction}
    {state : Knowledge} {instructions : List Instruction} {before after : FlushMode}
    (knows : state.Knows before)
    (through : Through Stmt.Passes (flow.emitInstructions nextOf state instructions).stmts
      before after) : (flow.knowledge nextOf state instructions).Knows after := by
  induction instructions generalizing state before with
  | nil =>
      obtain rfl : after = before := through
      exact knows
  | cons insn rest ih =>
      rw [emitInstructions_cons] at through
      obtain ⟨between, own, others⟩ := through_append.mp through
      exact ih (emitInstruction_knows knows own) others

theorem isOwn_of_executes {stmt : Stmt} {before mode : FlushMode} {place value : Expr}
    (executes : stmt.Executes before (.assign place value) mode) : IsOwn stmt := by
  cases stmt with
  | act action =>
      rintro wanted checked rfl
      cases executes.1
  | guard => trivial
  | comment | transfer | switch | hook => exact executes.elim

theorem emitInstruction_mode {flow : Flow} {next : Option Instruction} {state : Knowledge}
    {insn : Instruction} {front back : List Stmt} {stmt : Stmt}
    (split : (flow.emitInstruction next state insn).1.stmts = front ++ stmt :: back)
    {entered before mode : FlushMode} (knows : state.Knows entered)
    (reached : Through Stmt.Passes front entered before) {place value : Expr}
    (executes : stmt.Executes before (.assign place value) mode) :
    (insn.group = .floatArithmetic → mode = .scalar) ∧
      (insn.group = .vectorFloat → mode = .vector) := by
  obtain ⟨inner, rest, rfl, body⟩ := emitInstruction_split split (isOwn_of_executes executes)
  obtain ⟨prepared, preamble, through⟩ := through_append.mp reached
  have known := preamble_knows knows preamble
  have code : stmt ∈ (flow.liftedAt next state insn).body.getD [] := by
    have member := body ▸ List.mem_append_right inner List.mem_cons_self
    rcases mem_emitBody.mp member with own | ⟨_, rfl⟩
    · exact own
    · cases executes.1
  have needed : ∀ wanted, insn.group ≠ .branch →
      (flow.liftedAt next state insn).mode = some wanted →
      (flow.liftedAt next state insn).forgetsMode = false → mode = wanted := by
    intro wanted noBranch wants remembers
    obtain ⟨inline, keeps⟩ := Lifted.stmt_inline (flow.lift_inline _ _ noBranch) code
    have arrived : before = prepared := by
      refine through_of_keeps (fun earlier among => ?_) through
      exact Stmt.passes_of_keepsMode
        (emitBody_keepsMode remembers (body ▸ List.mem_append_left _ among))
    rw [executes.mode_eq inline (keeps remembers), arrived]
    rw [wants] at known
    exact (known wanted rfl).symm
  obtain ⟨scalar, vector⟩ := flow.lift_mode (flow.node.jumpTableAt? insn.address)
    ((flow.ready state insn).ioBases.isDeviceAccess insn next) insn
  constructor
  · intro group
    rcases scalar group with none | ⟨wants, remembers⟩
    · change (flow.liftedAt next state insn).body = _ at none
      rw [none] at code
      cases code
    · exact needed _ (by simp [group]) wants remembers
  · intro group
    exact needed _ (by simp [group]) (vector group).1 (vector group).2

end Flow

/-! ## Emitted functions -/

/-- Switches of the flush mode are left out only where they are not needed. On every path through an
arm, whatever the mode is where it is entered, the assignments for scalar arithmetic are made in
scalar mode, and those for vector arithmetic in vector mode. -/
theorem Program.Emits.mode_established {program : Program} {graph : Graph} {node : FunctionNode}
    {insn : Instruction} {front : List Stmt} {stmt : Stmt}
    (emits : program.Emits graph node insn front stmt) {entered before mode : FlushMode}
    (reached : Through Stmt.Passes front entered before) {place value : Expr}
    (executes : stmt.Executes before (.assign place value) mode) :
    (insn.group = .floatArithmetic → mode = .scalar) ∧
      (insn.group = .vectorFloat → mode = .vector) := by
  obtain ⟨instructions, block, earlier, later, inner, rest, _, _, _, rfl, split⟩ :=
    emits.inside (Flow.isOwn_of_executes executes)
  obtain ⟨between, past, here⟩ := through_append.mp reached
  -- Nothing is known where the arm is entered.
  have knows := Flow.emitInstructions_knows (fun _ unknown => by cases unknown) past
  exact Flow.emitInstruction_mode split knows here executes

/-! A call between vector arithmetic and scalar arithmetic. -/

def turnProgram : Program where
  image := Image.ofCode 0x1000 #[0x10, 0x22, 0x18, 0x0A, 0x4B, 0xFF, 0xFF, 0xFD,
    0xFC, 0x22, 0x18, 0x2A, 0x4E, 0x80, 0x00, 0x20]
  config := {}

def turnNode : FunctionNode :=
  { address := 0x1000, size := 16, authority := .discovered, blocks := [⟨0x1000, 0x1010⟩] }

def turnSum : Instruction := Instruction.decode 0x1008 0xFC22182A

/-- The code up to the scalar sum. -/
def turnFront : List Stmt :=
  [.comment "0x00001000: vaddfp v1, v2, v3",
    .act (FlushMode.switch .vector true),
    .act (.assign (.vr 1) (.send (.vr 2) (.vector "vaddfp") [.vr 3])),
    .comment "0x00001004: bl 0x00001000",
    .act (.assign .lr (.wordHex 0x1008)),
    .act (.perform (.invokeGuest (.guest "sub_00001000") [])),
    .comment "0x00001008: fadd f1, f2, f3",
    .act (FlushMode.switch .scalar true)]

def turnAssignment : Stmt :=
  .act (.assign (.fpr 1) (.binary .add (.fpr 2) (.fpr 3)))

theorem turnProgram_mode_established :
    turnProgram.Emits { nodes := [turnNode] } turnNode turnSum turnFront turnAssignment ∧
      turnSum.group = .floatArithmetic ∧
      Through Stmt.Passes turnFront .vector .scalar ∧
      ∀ entered before, Through Stmt.Passes turnFront entered before → before = .scalar := by
  have emits : turnProgram.Emits { nodes := [turnNode] } turnNode turnSum turnFront
      turnAssignment := by
    refine ⟨[Instruction.decode 0x1000 0x1022180A, Instruction.decode 0x1004 0x4BFFFFFD, turnSum,
        Instruction.decode 0x100C 0x4E800020], _,
      { label := 0x1000
        body := turnFront ++ turnAssignment :: [.comment "0x0000100C: blr", .transfer .ret] }, _,
      rfl, by simp, rfl, ?_, rfl, by decide +kernel⟩
    decide +kernel
  have arithmetic : turnSum.group = .floatArithmetic := by decide +kernel
  refine ⟨emits, arithmetic, ?_, ?_⟩
  · -- The call leaves vector mode behind.
    exact ⟨_, rfl, _, ⟨_, _, rfl, rfl, rfl⟩,
      _, ⟨_, _, ⟨_, _, rfl, rfl, rfl⟩, rfl, Or.inr rfl⟩,
      _, rfl, _, ⟨_, _, rfl, rfl, Or.inr rfl⟩, .vector, ⟨_, ⟨_, rfl, rfl⟩, Or.inl rfl⟩,
      _, rfl, _, ⟨_, _, rfl, rfl, rfl⟩, rfl⟩
  · intro entered before through
    exact (emits.mode_established through ⟨rfl, rfl⟩).1 arithmetic

end PowerLift
