import Mathlib
import PowerLift.Proofs.FlushModes

/-!
Which routines the code calls. The one that saves the context for a long jump is called by direct
calls of the address that is declared for it, and by nothing else.
-/

namespace PowerLift

/-! ## Calls of routines -/

/-- The routines that an expression calls. -/
def Expr.routines : Expr → List Routine
  | reg _ | var _ | lit _ | nothing => []
  | paren inner | cast inner _ | unary _ inner | member inner _ => inner.routines
  | binary _ left right => left.routines ++ right.routines
  | method receiver _ arguments => receiver.routines ++ arguments.routines
  | call routine arguments => routine :: arguments.routines
  | choice condition yes no => condition.routines ++ yes.routines ++ no.routines
  | comma first rest => first.routines ++ rest.routines

@[simp] theorem Expr.routines_list (arguments : List Expr) :
    (list arguments).routines = arguments.flatMap routines :=
  collect_list rfl (fun _ _ => rfl) arguments

def Action.routines : Action → List Routine
  | declare _ _ value => value.routines
  | assign place value => place.routines ++ value.routines
  | perform effect => effect.routines

def Exit.routines : Exit → List Routine
  | goto _ | ret => []
  | redirect label => label.routines
  | leave call => call.routines

def Stmt.routines : Stmt → List Routine
  | comment _ => []
  | act action => action.routines
  | transfer exit => exit.routines
  | guard condition actions exit =>
    condition.routines ++ actions.flatMap Action.routines ++ exit.toList.flatMap Exit.routines
  | switch condition index cases otherwise =>
    condition.toList.flatMap Expr.routines ++ index.routines ++ cases.flatMap Exit.routines ++
      otherwise.routines
  | hook call => call.call.routines ++ call.exits.flatMap (·.2.routines)

/-- Code that keeps the flush mode runs no other code. -/
theorem Expr.runsCode_of_keepsMode {expr : Expr} (keeps : expr.keepsMode) {routine : Routine}
    (called : routine ∈ expr.routines) : routine.runsCode = false := by
  induction expr with
  | reg | var | lit | nothing => cases called
  | paren _ ih | cast _ _ ih | unary _ _ ih | member _ _ ih => exact ih keeps called
  | binary _ _ _ ihLeft ihRight =>
      simp only [keepsMode, Bool.and_eq_true] at keeps
      rcases List.mem_append.mp called with left | right
      · exact ihLeft keeps.1 left
      · exact ihRight keeps.2 right
  | method _ _ _ ihReceiver ihArguments =>
      simp only [keepsMode, Bool.and_eq_true] at keeps
      rcases List.mem_append.mp called with receiver | arguments
      · exact ihReceiver keeps.1.1 receiver
      · exact ihArguments keeps.1.2 arguments
  | call _ _ ih =>
      simp only [keepsMode, Bool.and_eq_true, Bool.not_eq_true'] at keeps
      rcases List.mem_cons.mp called with rfl | inside
      · exact keeps.2
      · exact ih keeps.1 inside
  | choice _ _ _ ihCondition ihYes ihNo =>
      simp only [keepsMode, Bool.and_eq_true] at keeps
      simp only [routines, List.mem_append] at called
      rcases called with (condition | yes) | no
      · exact ihCondition keeps.1.1 condition
      · exact ihYes keeps.1.2 yes
      · exact ihNo keeps.2 no
  | comma _ _ ihFirst ihRest =>
      simp only [keepsMode, Bool.and_eq_true] at keeps
      rcases List.mem_append.mp called with first | rest
      · exact ihFirst keeps.1 first
      · exact ihRest keeps.2 rest

theorem Action.runsCode_of_keepsMode {action : Action} (keeps : action.keepsMode)
    {routine : Routine} (called : routine ∈ action.routines) : routine.runsCode = false := by
  cases action with
  | declare | perform => exact Expr.runsCode_of_keepsMode keeps called
  | assign place value =>
      simp only [keepsMode, Bool.and_eq_true] at keeps
      rcases List.mem_append.mp called with inPlace | inValue
      · exact Expr.runsCode_of_keepsMode keeps.1.2 inPlace
      · exact Expr.runsCode_of_keepsMode keeps.1.1 inValue

theorem Action.not_mem_routines {actions : List Action}
    (keep : ∀ action ∈ actions, action.keepsMode) {routine : Routine} (runs : routine.runsCode) :
    routine ∉ actions.flatMap routines := by
  intro called
  obtain ⟨action, among, own⟩ := List.mem_flatMap.mp called
  simp [runsCode_of_keepsMode (keep action among) own] at runs

theorem Stmt.runsCode_of_keepsMode {stmt : Stmt} (inline : stmt.isInline) (keeps : stmt.keepsMode)
    {routine : Routine} (called : routine ∈ stmt.routines) : routine.runsCode = false := by
  cases stmt with
  | act action => exact Action.runsCode_of_keepsMode keeps called
  | guard condition actions exit =>
      cases exit with
      | some => cases inline
      | none =>
          simp only [keepsMode, Option.isSome_none, Bool.false_or, Bool.and_eq_true,
            List.all_eq_true] at keeps
          simp only [routines, Option.toList_none, List.flatMap_nil, List.append_nil,
            List.mem_append, List.mem_flatMap] at called
          rcases called with tested | ⟨action, among, own⟩
          · exact Expr.runsCode_of_keepsMode keeps.1 tested
          · exact Action.runsCode_of_keepsMode (keeps.2 action among) own
  | comment | transfer | switch | hook => cases inline

/-! ## The code for an instruction -/

/-- A call of the routine that saves the context. One of the next instruction under a condition
only sets the link register. -/
def Instruction.SavesContext (insn : Instruction) (config : Config) : Prop :=
  ∃ target, config.setjmp = some target ∧ insn.target = some target ∧
    (insn.opcode = .bl ∨ insn.opcode = .bcl ∧ target ≠ insn.address + 4)

/-- An instruction with a target is a branch. -/
theorem Instruction.group_of_target {address word target : UInt32}
    (direct : (decode address word).target = some target) :
    (decode address word).group = .branch := by
  have branch : (Descriptor.lookup word).format = .i ∨ (Descriptor.lookup word).format = .b →
      (Descriptor.lookup word).group = .branch :=
    Descriptor.lookup_ind
      (motive := fun entry => entry.format = .i ∨ entry.format = .b → entry.group = .branch)
      (by decide +kernel) (by decide) word
  have found : branchTarget address word (Descriptor.lookup word).format = some target := direct
  apply branch
  unfold branchTarget at found
  split at found
  next format => exact Or.inl format
  next format => exact Or.inr format
  next => cases found

namespace Flow

theorem setjmp_not_mem_setLink (flow : Flow) (insn : Instruction) :
    .setjmp ∉ (flow.setLink insn).flatMap Action.routines :=
  Action.not_mem_routines (Lift.setLink_keepsMode flow insn) rfl

theorem setjmp_not_mem_callee (flow : Flow) (address : UInt32) :
    .setjmp ∉ (flow.callee address).routines := by
  unfold callee
  repeat' split
  all_goals simp [Expr.invokeGuest, Expr.routines, Expr.context, Expr.memory, Expr.wordHex]

theorem setjmp_not_mem_exitTo (flow : Flow) (address : UInt32) :
    .setjmp ∉ (flow.exitTo address).routines := by
  unfold exitTo
  split
  · exact List.not_mem_nil
  · exact flow.setjmp_not_mem_callee address

theorem setjmp_mem_callActions {flow : Flow} {insn : Instruction} {address : UInt32} :
    .setjmp ∈ (flow.callActions insn address).flatMap Action.routines ↔
      flow.config.setjmp = some address := by
  rw [callActions, List.flatMap_append, List.mem_append, List.flatMap_singleton]
  simp only [setjmp_not_mem_setLink, false_or]
  split
  next saves => exact iff_of_true List.mem_cons_self saves
  next other =>
    refine iff_of_false ?_ other
    split
    · decide
    · exact flow.setjmp_not_mem_callee address

end Flow

@[simp] theorem Stmt.routines_acts (actions : List Action) :
    (actions.map act).flatMap routines = actions.flatMap Action.routines := by
  simp [List.flatMap_map, routines]

/-- A condition runs no other code. -/
theorem Stmt.mem_routines_guarded {routine : Routine} (runs : routine.runsCode)
    {condition : Option Expr} (tests : ∀ test ∈ condition, test.keepsMode)
    {actions : List Action} {exit : Option Exit} :
    routine ∈ (guarded condition actions exit).flatMap routines ↔
      routine ∈ actions.flatMap Action.routines ∨ routine ∈ exit.toList.flatMap Exit.routines := by
  cases condition with
  | none => simp [guarded, List.flatMap_map, routines]
  | some test =>
      have tested : routine ∉ test.routines := by
        intro called
        simp [Expr.runsCode_of_keepsMode (tests test rfl) called] at runs
      simp [guarded, routines, tested]

namespace Lift

theorem mem_routines_underCondition {routine : Routine} (runs : routine.runsCode)
    {insn : Instruction} {actions : List Action} {exit : Option Exit} :
    routine ∈ ((underCondition insn actions exit).body.getD []).flatMap Stmt.routines ↔
      routine ∈ actions.flatMap Action.routines ∨ routine ∈ exit.toList.flatMap Exit.routines := by
  obtain ⟨before, tests⟩ := branchCondition_keepsMode insn
  simp only [underCondition, Option.getD_some, List.flatMap_append, List.mem_append,
    Stmt.routines_acts, Action.not_mem_routines before runs, false_or]
  exact Stmt.mem_routines_guarded runs tests

theorem setjmp_not_mem_indirectJump {flow : Flow} {table : Option JumpTable}
    {before : List Action} {condition : Option Expr}
    (counts : ∀ action ∈ before, action.keepsMode) (tests : ∀ test ∈ condition, test.keepsMode) :
    .setjmp ∉
      ((indirectJump flow table before condition).body.getD []).flatMap Stmt.routines := by
  have counted : .setjmp ∉ before.flatMap Action.routines := Action.not_mem_routines counts rfl
  cases table with
  | none =>
      simp only [indirectJump, Option.getD_some, List.flatMap_append, List.mem_append,
        Stmt.routines_acts, counted, false_or]
      rw [Stmt.mem_routines_guarded rfl tests]
      decide
  | some table =>
      have tested : .setjmp ∉ condition.toList.flatMap Expr.routines := by
        intro called
        obtain ⟨test, among, own⟩ := List.mem_flatMap.mp called
        cases Expr.runsCode_of_keepsMode (tests test (Option.mem_toList.mp among)) own
      have cases : .setjmp ∉ (table.targets.map flow.exitTo).flatMap Exit.routines := by
        simp [List.flatMap_map, Flow.setjmp_not_mem_exitTo]
      simp only [indirectJump, Option.getD_some, List.flatMap_append, List.mem_append,
        Stmt.routines_acts, counted, false_or, List.flatMap_singleton, Stmt.routines, tested, cases]
      simp [Expr.gpr, Expr.ctr, Exit.routines, Expr.routines]

theorem setjmp_not_mem_linkCall (flow : Flow) (insn : Instruction) :
    .setjmp ∉ (linkCall flow insn).flatMap Action.routines := by
  simp only [linkCall, List.flatMap_append, List.mem_append,
    flow.setjmp_not_mem_setLink insn, or_false]
  decide

theorem setjmp_not_mem_counterCall (flow : Flow) (insn : Instruction) :
    .setjmp ∉ (counterCall flow insn).flatMap Action.routines := by
  simp only [counterCall, List.flatMap_append, List.mem_append,
    flow.setjmp_not_mem_setLink insn, false_or]
  decide

/-- Of all branches only the two direct calls save the context. -/
theorem setjmp_mem_branch {flow : Flow} {table : Option JumpTable} {insn : Instruction}
    (agrees : flow.targetOf insn = insn.target) :
    .setjmp ∈ ((branch flow table insn).body.getD []).flatMap Stmt.routines ↔
      insn.SavesContext flow.config := by
  have called : ∀ {actions : List Action} {exit : Option Exit},
      .setjmp ∉ actions.flatMap Action.routines → .setjmp ∉ exit.toList.flatMap Exit.routines →
        .setjmp ∉ ((underCondition insn actions exit).body.getD []).flatMap Stmt.routines := by
    intro actions exit noCall noExit
    rw [mem_routines_underCondition rfl, not_or]
    exact ⟨noCall, noExit⟩
  have left : ∀ address, .setjmp ∉ (some (flow.exitTo address)).toList.flatMap Exit.routines := by
    intro address
    simpa using flow.setjmp_not_mem_exitTo address
  unfold branch
  split
  case h_2 opcode =>
    rw [agrees]
    simp only [Instruction.SavesContext, opcode]
    cases insn.target with
    | none => simp [Lifted.missing]
    | some target =>
        simp only [Lifted.ofActions, Option.getD_some, Stmt.routines_acts,
          Flow.setjmp_mem_callActions]
        simp
  case h_4 opcode =>
    simp only [Instruction.SavesContext, opcode]
    cases insn.target with
    | none => simp [Lifted.missing]
    | some target =>
        by_cases next : target = insn.address + 4
        · simp only [next, if_true]
          exact iff_of_false (called (flow.setjmp_not_mem_setLink insn) List.not_mem_nil)
            (by simp)
        · simp only [next, if_false, linked]
          rw [mem_routines_underCondition rfl, Flow.setjmp_mem_callActions]
          simp [next]
  -- All other branches call an emitted function, or whatever is at an address.
  all_goals refine iff_of_false ?_ (by simp_all [Instruction.SavesContext])
  case h_1 =>
    split
    next target _ => simpa [Stmt.routines] using flow.setjmp_not_mem_exitTo target
    next => exact List.not_mem_nil
  case h_3 =>
    split
    next target _ => exact called List.not_mem_nil (left target)
    next => exact List.not_mem_nil
  case h_6 =>
    split
    · exact called (setjmp_not_mem_linkCall flow insn) List.not_mem_nil
    · exact called List.not_mem_nil List.not_mem_nil
  case h_7 => exact called (setjmp_not_mem_linkCall flow insn) List.not_mem_nil
  case h_8 => exact setjmp_not_mem_indirectJump (by simp) (by simp)
  case h_9 =>
    split
    · exact called (setjmp_not_mem_counterCall flow insn) List.not_mem_nil
    · obtain ⟨before, tests⟩ := branchCondition_keepsMode insn
      exact setjmp_not_mem_indirectJump before tests
  case h_10 => exact called (setjmp_not_mem_counterCall flow insn) List.not_mem_nil
  all_goals exact List.not_mem_nil

end Lift

/-- Of the code that is no branch, only that of system calls and of writes to a status forgets the
flush mode. -/
theorem Flow.lift_remembers (flow : Flow) (table : Option JumpTable) (io : Bool)
    {insn : Instruction} (noBranch : insn.group ≠ .branch) (noSystem : insn.group ≠ .system)
    (noFloatControl : insn.group ≠ .floatControl) (noVectorControl : insn.group ≠ .vectorControl) :
    (flow.lift table io insn).forgetsMode = false := by
  unfold Flow.lift
  split
  case h_1 group => exact absurd group noBranch
  case h_3 group => exact absurd group noSystem
  case h_21 group => exact absurd group noFloatControl
  case h_25 group => exact absurd group noVectorControl
  case h_26 => rfl
  all_goals
    rename_i group
    simp only [Lift.trap, Lift.conditionRegister, Lift.specialRegister, Lift.arithmetic,
      Lift.logical, Lift.compare, Lift.rotate, Lift.shift, Lift.integerLoad, Lift.integerStore,
      Lift.floatLoad, Lift.floatStore, Lift.vectorLoad, Lift.vectorStore, Lift.cache, Lift.float,
      Lift.floatArithmetic, Lift.floatMove, Lift.floatCompare, Lift.vector, group]
    repeat' split
    all_goals rfl

namespace Lift

theorem system_routines (config : Config) (insn : Instruction) :
    ((system config insn).body.getD []).flatMap Stmt.routines ⊆ [.syscall, .fence] := by
  unfold system
  repeat' split
  all_goals simp [Lifted.missing, Lifted.ofActions, Stmt.routines, Action.routines, Expr.routines,
    Expr.invokeGuest, Expr.invoke, Expr.context, Expr.memory, Expr.wordHex, Expr.gpr]

theorem float_routines {insn : Instruction} (control : insn.group = .floatControl) :
    ((float insn).body.getD []).flatMap Stmt.routines ⊆ [.fromBits .f64] := by
  simp only [float, floatControl, control]
  repeat' split
  all_goals simp [writeStatus, statusField, Lifted.missing, Lifted.ofActions, Stmt.routines,
    Action.routines, Expr.routines, Expr.invoke, Expr.send, Expr.decimal, Expr.hex, Expr.fpr,
    Expr.fpscr, Expr.cr]

theorem vector_routines {insn : Instruction} (control : insn.group = .vectorControl) :
    ((vector insn).body.getD []).flatMap Stmt.routines ⊆ [.vector "from_u32"] := by
  simp only [vector, vectorControl, control]
  split
  all_goals simp [Lifted.missing, Lifted.ofActions, Stmt.routines, Action.routines, Expr.routines,
    Expr.invoke, Expr.send, Expr.decimal, Expr.vr]

end Lift

namespace Flow

theorem setjmp_not_mem_lift {flow : Flow} {table : Option JumpTable} {io : Bool}
    {insn : Instruction} (noBranch : insn.group ≠ .branch) :
    .setjmp ∉ ((flow.lift table io insn).body.getD []).flatMap Stmt.routines := by
  intro called
  by_cases system : insn.group = .system
  · rw [lift, system] at called
    exact absurd (Lift.system_routines _ _ called) (by decide)
  by_cases float : insn.group = .floatControl
  · rw [lift, float] at called
    exact absurd (Lift.float_routines float called) (by decide)
  by_cases vector : insn.group = .vectorControl
  · rw [lift, vector] at called
    exact absurd (Lift.vector_routines vector called) (by decide)
  -- What is left keeps the flush mode, and so it runs no other code.
  obtain ⟨stmt, member, own⟩ := List.mem_flatMap.mp called
  obtain ⟨inline, keeps⟩ := Lifted.stmt_inline (flow.lift_inline table io noBranch) member
  have remembers := flow.lift_remembers table io noBranch system float vector
  cases Stmt.runsCode_of_keepsMode inline (keeps remembers) own

/-- The code for an instruction saves the context iff the instruction is a call that does. -/
theorem setjmp_mem_lift {flow : Flow} {table : Option JumpTable} {io : Bool}
    {address word : UInt32} (agrees : flow.targetOf (Instruction.decode address word) =
      (Instruction.decode address word).target) :
    .setjmp ∈ ((flow.lift table io (Instruction.decode address word)).body.getD []).flatMap
        Stmt.routines ↔ (Instruction.decode address word).SavesContext flow.config := by
  by_cases group : (Instruction.decode address word).group = .branch
  · rw [lift, group]
    exact Lift.setjmp_mem_branch agrees
  · refine iff_of_false (setjmp_not_mem_lift group) ?_
    rintro ⟨_, _, direct, _⟩
    exact group (Instruction.group_of_target direct)

/-! ## Arms -/

theorem setjmp_not_mem_hookCall (flow : Flow) (hook : Hook) :
    .setjmp ∉ (Stmt.hook (flow.hookCall hook)).routines := by
  have host : .setjmp ∉ (flow.hookCall hook).call.routines := by
    simp [hookCall, HookCall.call, Expr.invoke, Expr.routines]
  have exits : ∀ exit ∈ flow.hookExits hook, .setjmp ∉ exit.2.routines := by
    intro exit written
    simp only [hookExits, List.mem_append, List.mem_map, List.mem_ite_nil_right,
      List.mem_singleton] at written
    rcases written with ((((⟨_, rfl⟩ | ⟨target, _, rfl⟩) | ⟨_, rfl⟩) | ⟨_, rfl⟩) |
      ⟨target, _, rfl⟩) | ⟨target, _, rfl⟩
    all_goals first | exact List.not_mem_nil | exact flow.setjmp_not_mem_exitTo target
  intro called
  rcases List.mem_append.mp called with own | left
  · exact host own
  · obtain ⟨exit, written, named⟩ := List.mem_flatMap.mp left
    exact exits exit written named

theorem emitInstruction_saves {flow : Flow} {next : Option Instruction} {state : Knowledge}
    {address word : UInt32} (agrees : flow.targetOf (Instruction.decode address word) =
      (Instruction.decode address word).target) :
    (∃ stmt ∈ (flow.emitInstruction next state (Instruction.decode address word)).1.stmts,
      .setjmp ∈ stmt.routines) ↔ (Instruction.decode address word).SavesContext flow.config := by
  obtain ⟨io, known, same⟩ :=
    flow.emitInstruction_parts next state (Instruction.decode address word)
  have hooks : ∀ hooks, ∀ stmt ∈ flow.hookStmts hooks, .setjmp ∉ stmt.routines := by
    intro hooks
    exact List.forall_mem_map.mpr fun hook _ => flow.setjmp_not_mem_hookCall hook
  rw [same, ← setjmp_mem_lift agrees, List.mem_flatMap]
  constructor
  · rintro ⟨stmt, member, saves⟩
    simp only [List.mem_append, List.mem_singleton, mem_emitBody] at member
    rcases member with rfl | before | mode | (body | ⟨_, rfl⟩) | after
    · cases saves
    · exact absurd saves (hooks _ stmt before)
    · obtain ⟨_, _, rfl⟩ := mem_emitMode mode
      cases saves
    · exact ⟨stmt, body, saves⟩
    · simp [unimplementedCall, Stmt.routines, Action.routines, Expr.invoke, Expr.routines,
        Expr.context, Expr.wordHex] at saves
    · exact absurd saves (hooks _ stmt after)
  · rintro ⟨stmt, body, saves⟩
    refine ⟨stmt, ?_, saves⟩
    simp only [List.mem_append, mem_emitBody]
    exact Or.inr (Or.inr (Or.inr (Or.inl (Or.inl body))))

theorem emitBlock_saves {flow : Flow} {nextOf : Instruction → Option Instruction} {block : Block}
    (decoded : ∀ insn ∈ block.instructions, (∃ word, insn = Instruction.decode insn.address word) ∧
      flow.targetOf insn = insn.target) :
    (∃ stmt ∈ (flow.emitBlock nextOf block).stmts, .setjmp ∈ stmt.routines) ↔
      ∃ insn ∈ block.instructions, insn.SavesContext flow.config := by
  constructor
  · rintro ⟨stmt, member, saves⟩
    rcases mem_emitBlock.mp member with code | ⟨last, exit, _, found, rfl⟩
    · obtain ⟨insn, among, state, here⟩ := mem_emitInstructions code
      obtain ⟨⟨word, same⟩, agrees⟩ := decoded insn among
      refine ⟨insn, among, ?_⟩
      rw [same] at agrees here ⊢
      exact (emitInstruction_saves agrees).mp ⟨stmt, here, saves⟩
    · unfold blockExit? at found
      split at found
      · cases found
      · split at found <;> cases found
        · cases saves
        · exact absurd saves (flow.setjmp_not_mem_exitTo block.stop)
  · rintro ⟨insn, among, saves⟩
    obtain ⟨known, subset⟩ := flow.emitInstruction_subset nextOf {} among
    obtain ⟨⟨word, same⟩, agrees⟩ := decoded insn among
    rw [same] at agrees saves subset
    obtain ⟨stmt, member, called⟩ := (emitInstruction_saves agrees).mpr saves
    exact ⟨stmt, mem_emitBlock.mpr (Or.inl (subset member)), called⟩

end Flow

end PowerLift
