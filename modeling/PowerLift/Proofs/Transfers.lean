import Mathlib
import PowerLift.Proofs.Arms
import PowerLift.Proofs.Inline

/-!
Where the code for an instruction goes: the addresses that a branch hands on, as labels of the
function or as functions that are called by name. From these come all literal transfers of an arm,
all its calls by name, and, beside them, one comment for each instruction.
-/

namespace PowerLift

/-! ## Functions that are called by name -/

/-- The name by which code calls the function at an address. Without one it is called by address. -/
def Graph.calledAs? (graph : Graph) (address : UInt32) : Option String :=
  ((graph.function? address).filter graph.standsAlone).map fun node =>
    functionSymbol node.displayName

namespace Flow

theorem callee_guests (flow : Flow) (address : UInt32) :
    (flow.callee address).guests = (flow.graph.calledAs? address).toList := by
  unfold callee Graph.calledAs?
  cases found : flow.graph.function? address with
  | none => rfl
  | some node =>
      cases alone : flow.graph.standsAlone node with
      | false =>
          rw [Option.filter_some_neg (by simp [alone])]
          simp only [alone]
          rfl
      | true =>
          rw [Option.filter_some_pos alone]
          simp only [alone, Graph.nameOf, found]
          rfl

theorem exitTo_guests {flow : Flow} {address : UInt32} {name : String}
    (member : name ∈ (flow.exitTo address).guests) :
    flow.graph.calledAs? address = some name := by
  unfold exitTo at member
  split at member
  · cases member
  · change name ∈ (flow.callee address).guests at member
    simpa [callee_guests, eq_comm] using member

theorem goto_eq_exitTo {flow : Flow} {address label : UInt32} :
    .goto label = flow.exitTo address ↔ label = address ∧ flow.layout.isLabel label := by
  unfold exitTo
  split
  next known =>
    simp only [Exit.goto.injEq]
    constructor
    · rintro rfl
      exact ⟨rfl, known⟩
    · exact fun same => same.1
  next unknown =>
    simp only [reduceCtorEq, false_iff]
    rintro ⟨rfl, known⟩
    exact unknown known

/-! ## Branches -/

/-- Where a branch without return may go. -/
def destinations (flow : Flow) (table : Option JumpTable) (insn : Instruction) : List UInt32 :=
  let cases := (table.map (·.targets)).getD []
  match insn.opcode with
  | .b => (flow.targetOf insn).toList
  | .bc => insn.target.toList
  | .bctr => cases
  | .bcctr => if insn.lk then [] else cases
  | _ => []

end Flow

namespace Lift

theorem goto_mem_indirectJump {flow : Flow} {table : Option JumpTable} {before : List Action}
    {condition : Option Expr} {label : UInt32} :
    .goto label ∈ (indirectJump flow table before condition).exits ↔
      label ∈ (table.map (·.targets)).getD [] ∧ flow.layout.isLabel label := by
  cases table with
  | none => simp [indirectJump, Lifted.exits]
  | some table =>
      simp only [indirectJump, Lifted.exits, Option.getD_some, List.flatMap_append,
        Stmt.exits_acts, List.flatMap_singleton, Stmt.exits, List.nil_append, List.mem_append,
        List.mem_map, List.mem_singleton, reduceCtorEq, or_false, Option.map_some]
      constructor
      · rintro ⟨target, member, same⟩
        obtain ⟨rfl, known⟩ := Flow.goto_eq_exitTo.mp same.symm
        exact ⟨member, known⟩
      · rintro ⟨member, known⟩
        exact ⟨label, member, (Flow.goto_eq_exitTo.mpr ⟨rfl, known⟩).symm⟩

theorem goto_mem_branch {flow : Flow} {table : Option JumpTable} {insn : Instruction}
    {label : UInt32} :
    .goto label ∈ (branch flow table insn).exits ↔
      label ∈ flow.destinations table insn ∧ flow.layout.isLabel label := by
  have direct : ∀ target : Option UInt32,
      (∃ address, target = some address ∧ Exit.goto label = flow.exitTo address) ↔
        label ∈ target.toList ∧ flow.layout.isLabel label := by
    intro target
    simp only [Flow.goto_eq_exitTo, Option.mem_toList]
    constructor
    · rintro ⟨_, found, rfl, known⟩
      exact ⟨found, known⟩
    · rintro ⟨found, known⟩
      exact ⟨label, found, rfl, known⟩
  unfold branch
  split
  case h_1 opcode =>
    simp only [Flow.destinations, opcode, ← direct]
    cases flow.targetOf insn <;> simp [Lifted.exits, Lifted.missing, Stmt.exits]
  case h_3 opcode =>
    simp only [Flow.destinations, opcode, ← direct]
    cases insn.target <;> simp
  case h_8 opcode =>
    simp only [Flow.destinations, opcode]
    exact goto_mem_indirectJump
  case h_9 opcode =>
    simp only [Flow.destinations, opcode]
    split
    · simp
    · exact goto_mem_indirectJump
  case h_11 =>
    have nowhere : flow.destinations table insn = [] := by
      unfold Flow.destinations
      split <;> first | rfl | contradiction
    simp [nowhere]
  all_goals
    rename_i opcode
    simp only [Flow.destinations, opcode, List.not_mem_nil, false_and, iff_false]
    repeat' split
    all_goals first
      | simp
      | simp [Lifted.exits, Lifted.ofActions, Stmt.exits]

end Lift

/-- The emitted functions that the code for an instruction calls by name. -/
def Lifted.guests (lifted : Lifted) : List String :=
  (lifted.body.getD []).flatMap Stmt.guests

namespace Stmt

@[simp] theorem guests_acts (actions : List Action) :
    (actions.map act).flatMap guests = actions.flatMap Action.guests := by
  simp [List.flatMap_map, guests]

theorem guests_guarded {condition : Option Expr} (plain : ∀ test ∈ condition, test.guests = [])
    (actions : List Action) (exit : Option Exit) :
    (guarded condition actions exit).flatMap guests =
      actions.flatMap Action.guests ++ exit.toList.flatMap Exit.guests := by
  cases condition with
  | some test => simp [guarded, guests, plain test rfl]
  | none => simp [guarded, List.flatMap_map, guests]

theorem comment_not_mem_guarded (text : String) (condition : Option Expr) (actions : List Action)
    (exit : Option Exit) : comment text ∉ guarded condition actions exit := by
  cases condition <;> simp [guarded]

end Stmt

namespace Lift

theorem branchCondition_keepsMode (insn : Instruction) :
    (∀ action ∈ (branchCondition insn).1, action.keepsMode) ∧
      ∀ test ∈ (branchCondition insn).2, test.keepsMode := by
  have counter : (∀ action ∈ (counterTest insn).1, action.keepsMode) ∧
      ∀ test ∈ (counterTest insn).2, test.keepsMode := by
    unfold counterTest
    split
    · exact ⟨by simp, by simp⟩
    · exact ⟨List.forall_mem_singleton.mpr rfl, List.forall_mem_singleton.mpr rfl⟩
  have bit : ∀ test ∈ bitTest insn, test.keepsMode := by
    unfold bitTest
    repeat' split
    · simp
    · exact List.forall_mem_singleton.mpr rfl
    · exact List.forall_mem_singleton.mpr rfl
  refine ⟨counter.1, fun test found => ?_⟩
  exact joined_keepsMode (List.forall_mem_append.mpr ⟨counter.2, bit⟩) found

theorem branchCondition_guests (insn : Instruction) :
    (branchCondition insn).1.flatMap Action.guests = [] ∧
      ∀ test ∈ (branchCondition insn).2, test.guests = [] := by
  obtain ⟨before, tests⟩ := branchCondition_keepsMode insn
  refine ⟨List.flatMap_eq_nil_iff.mpr fun action among => ?_, fun test found => ?_⟩
  · exact Action.guests_of_keepsMode (before action among)
  · exact Expr.guests_of_keepsMode (tests test found)

theorem underCondition_guests (insn : Instruction) (actions : List Action) (exit : Option Exit) :
    (underCondition insn actions exit).guests =
      actions.flatMap Action.guests ++ exit.toList.flatMap Exit.guests := by
  obtain ⟨before, condition⟩ := branchCondition_guests insn
  simp only [underCondition, Lifted.guests, Option.getD_some, List.flatMap_append,
    Stmt.guests_acts, before, List.nil_append]
  exact Stmt.guests_guarded condition actions exit

theorem setLink_guests (flow : Flow) (insn : Instruction) :
    (flow.setLink insn).flatMap Action.guests = [] := by
  unfold Flow.setLink
  split <;> rfl

theorem callActions_guests {flow : Flow} (insn : Instruction) {address : UInt32} {name : String}
    (member : name ∈ (flow.callActions insn address).flatMap Action.guests) :
    flow.graph.calledAs? address = some name := by
  rw [Flow.callActions, List.flatMap_append, setLink_guests, List.nil_append,
    List.flatMap_singleton] at member
  split at member
  · cases member
  · split at member
    · cases member
    · change name ∈ (flow.callee address).guests at member
      simpa [Flow.callee_guests, eq_comm] using member

theorem indirectJump_guests {flow : Flow} {table : Option JumpTable} {before : List Action}
    {condition : Option Expr} (plain : before.flatMap Action.guests = [])
    (tests : ∀ test ∈ condition, test.guests = []) {name : String}
    (member : name ∈ (indirectJump flow table before condition).guests) :
    ∃ target, flow.graph.calledAs? target = some name := by
  cases table with
  | none =>
      simp only [indirectJump, Lifted.guests, Option.getD_some, List.flatMap_append,
        Stmt.guests_acts, plain, Stmt.guests_guarded tests] at member
      cases member
  | some table =>
      have index : (Expr.gpr table.register).guests = [] := rfl
      have computed : (Exit.redirect .ctr).guests = [] := rfl
      have condition : condition.toList.flatMap Expr.guests = [] := by
        simpa [List.flatMap_eq_nil_iff] using tests
      simp only [indirectJump, Lifted.guests, Option.getD_some, List.flatMap_append, plain,
        List.flatMap_singleton, Stmt.guests, condition, index, computed, List.append_nil,
        List.nil_append, List.flatMap_map, List.mem_flatMap] at member
      obtain ⟨target, _, named⟩ := member
      exact ⟨target, Flow.exitTo_guests named⟩

/-- What a branch calls by name is a function that stands alone. -/
theorem branch_guests {flow : Flow} {table : Option JumpTable} {insn : Instruction} {name : String}
    (member : name ∈ (branch flow table insn).guests) :
    ∃ target, flow.graph.calledAs? target = some name := by
  have link : (linkCall flow insn).flatMap Action.guests = [] := by
    rw [linkCall, List.flatMap_append, List.flatMap_append, setLink_guests]
    rfl
  have counter : (counterCall flow insn).flatMap Action.guests = [] := by
    rw [counterCall, List.flatMap_append, setLink_guests]
    rfl
  have quiet : ∀ actions exit, actions.flatMap Action.guests = [] → exit.toList.flatMap
      Exit.guests = [] → name ∉ (underCondition insn actions exit).guests := by
    intro actions exit noCall noExit
    rw [underCondition_guests, noCall, noExit]
    exact List.not_mem_nil
  unfold branch at member
  split at member
  case h_1 =>
    split at member
    next target _ =>
      refine ⟨target, Flow.exitTo_guests ?_⟩
      simpa [Lifted.guests, Stmt.guests] using member
    next => cases member
  case h_2 =>
    split at member
    next target _ =>
      refine ⟨target, callActions_guests insn ?_⟩
      simpa [Lifted.guests, Lifted.ofActions] using member
    next => cases member
  case h_3 =>
    split at member
    next target _ =>
      rw [underCondition_guests] at member
      exact ⟨target, Flow.exitTo_guests (by simpa using member)⟩
    next => cases member
  case h_4 =>
    split at member
    next target _ =>
      split at member
      · exact absurd member (quiet _ _ (setLink_guests flow insn) rfl)
      · change name ∈ (underCondition insn _ none).guests at member
        rw [underCondition_guests] at member
        exact ⟨target, callActions_guests insn (by simpa using member)⟩
    next => cases member
  case h_5 => cases member
  case h_6 =>
    split at member
    · exact absurd member (quiet _ none link rfl)
    · exact absurd member (quiet _ _ rfl rfl)
  case h_7 => exact absurd member (quiet _ none link rfl)
  case h_8 => exact indirectJump_guests rfl (by simp) member
  case h_9 =>
    split at member
    · exact absurd member (quiet _ none counter rfl)
    · obtain ⟨before, condition⟩ := branchCondition_guests insn
      exact indirectJump_guests before condition member
  case h_10 => exact absurd member (quiet _ none counter rfl)
  case h_11 => cases member

theorem comment_not_mem_branch (flow : Flow) (table : Option JumpTable) (insn : Instruction)
    (text : String) : .comment text ∉ (branch flow table insn).body.getD [] := by
  have guarded : ∀ actions exit,
      .comment text ∉ (underCondition insn actions exit).body.getD [] := by
    intro actions exit
    simp [underCondition, Stmt.comment_not_mem_guarded]
  have indirect : ∀ before condition,
      .comment text ∉ (indirectJump flow table before condition).body.getD [] := by
    intro before condition
    cases table <;> simp [indirectJump, Stmt.comment_not_mem_guarded]
  unfold branch
  split
  case h_1 => split <;> simp [Lifted.missing]
  case h_2 => split <;> simp [Lifted.missing, Lifted.ofActions]
  case h_3 =>
    split
    · exact guarded _ _
    · simp [Lifted.missing]
  case h_4 =>
    split
    · split
      · exact guarded _ _
      · exact guarded _ _
    · simp [Lifted.missing]
  case h_5 => simp
  case h_6 =>
    split
    · exact guarded _ _
    · exact guarded _ _
  case h_7 => exact guarded _ _
  case h_8 => exact indirect _ _
  case h_9 =>
    split
    · exact guarded _ _
    · exact indirect _ _
  case h_10 => exact guarded _ _
  case h_11 => simp [Lifted.missing]

end Lift

/-! ## Instructions -/

namespace Flow

theorem lift_guests {flow : Flow} {table : Option JumpTable} {io : Bool} {insn : Instruction}
    {name : String} (member : name ∈ (flow.lift table io insn).guests) :
    ∃ target, flow.graph.calledAs? target = some name := by
  by_cases group : insn.group = .branch
  · have same : flow.lift table io insn = Lift.branch flow table insn := by
      rw [lift, group]
    exact Lift.branch_guests (same ▸ member)
  · obtain ⟨stmt, among, named⟩ := List.mem_flatMap.mp member
    have inline := (Lifted.stmt_inline (flow.lift_inline table io group) among).1
    rw [Stmt.guests_of_inline inline] at named
    cases named

theorem comment_not_mem_lift (flow : Flow) (table : Option JumpTable) (io : Bool)
    (insn : Instruction) (text : String) :
    .comment text ∉ (flow.lift table io insn).body.getD [] := by
  by_cases group : insn.group = .branch
  · have same : flow.lift table io insn = Lift.branch flow table insn := by
      rw [lift, group]
    rw [same]
    exact Lift.comment_not_mem_branch flow table insn text
  · intro member
    cases (Lifted.stmt_inline (flow.lift_inline table io group) member).1

theorem goto_mem_lift {flow : Flow} {table : Option JumpTable} {io : Bool}
    {address word label : UInt32} :
    .goto label ∈ (flow.lift table io (Instruction.decode address word)).exits ↔
      label ∈ flow.destinations table (Instruction.decode address word) ∧
        flow.layout.isLabel label := by
  by_cases group : (Instruction.decode address word).group = .branch
  · have same : flow.lift table io (Instruction.decode address word) =
        Lift.branch flow table (Instruction.decode address word) := by
      rw [lift, group]
    rw [same]
    exact Lift.goto_mem_branch
  · have plain : (flow.lift table io (Instruction.decode address word)).exits = [] := by
      unfold lift
      split
      next branch => exact absurd branch group
      all_goals simp
    have nowhere : flow.destinations table (Instruction.decode address word) = [] := by
      have other : (Instruction.decode address word).opcode ∉
          [Opcode.b, .bc, .bclr, .bcctr, .blr, .bctr] := fun branch =>
        group (Instruction.decode_branch branch).1
      unfold destinations
      split <;> first | rfl | (rename_i opcode; exact absurd (by simp [opcode]) other)
    simp [plain, nowhere]

/-- The comment in front of the code for an instruction. -/
def remark (insn : Instruction) : String :=
  s!"{addressText insn.address}: {insn.text}"

/-- Hooks as statements. -/
def hookStmts (flow : Flow) (hooks : List Hook) : List Stmt :=
  hooks.map fun hook => .hook (flow.hookCall hook)

/-- The parts of the code for an instruction. -/
theorem emitInstruction_parts (flow : Flow) (next : Option Instruction) (state : Knowledge)
    (insn : Instruction) :
    ∃ io known, (flow.emitInstruction next state insn).1.stmts =
      [.comment (remark insn)] ++
        (flow.hookStmts ((flow.config.hooksAt insn.address).filter (!·.afterInstruction)) ++
          ((emitMode known
              (flow.lift (flow.node.jumpTableAt? insn.address) io insn).mode).1.stmts ++
            ((emitBody insn (flow.lift (flow.node.jumpTableAt? insn.address) io insn)).stmts ++
              flow.hookStmts ((flow.config.hooksAt insn.address).filter (·.afterInstruction))))) :=
  ⟨_, _, rfl⟩

theorem mem_emitMode {known : Knowledge} {mode : Option FlushMode} {stmt : Stmt}
    (member : stmt ∈ (emitMode known mode).1.stmts) :
    ∃ wanted checked, stmt = .act (FlushMode.switch wanted checked) := by
  unfold emitMode FlushMode.require at member
  split at member
  · split at member
    · exact ⟨_, _, List.mem_singleton.mp member⟩
    · split at member
      · cases member
      · exact ⟨_, _, List.mem_singleton.mp member⟩
  · cases member

theorem mem_emitBody {insn : Instruction} {lifted : Lifted} {stmt : Stmt} :
    stmt ∈ (emitBody insn lifted).stmts ↔
      stmt ∈ lifted.body.getD [] ∨ lifted.body = none ∧ stmt = .act (unimplementedCall insn) := by
  unfold emitBody
  split
  next body => simp [body]
  next body => simp [body]

theorem comment_mem_emitInstruction {flow : Flow} {next : Option Instruction} {state : Knowledge}
    {insn : Instruction} {text : String} :
    .comment text ∈ (flow.emitInstruction next state insn).1.stmts ↔ text = remark insn := by
  obtain ⟨io, known, same⟩ := flow.emitInstruction_parts next state insn
  have hooks : ∀ hooks, .comment text ∉ flow.hookStmts hooks := by
    simp [hookStmts]
  have mode : ∀ mode, .comment text ∉ (emitMode known mode).1.stmts := by
    intro mode member
    obtain ⟨_, _, absurd⟩ := mem_emitMode member
    cases absurd
  have body : .comment text ∉
      (emitBody insn (flow.lift (flow.node.jumpTableAt? insn.address) io insn)).stmts := by
    rw [mem_emitBody]
    rintro (member | ⟨_, absurd⟩)
    · exact flow.comment_not_mem_lift _ _ _ _ member
    · cases absurd
  simp [same, hooks, mode, body]

theorem hookCall_guests {flow : Flow} {hook : Hook} {name : String}
    (member : name ∈ (Stmt.hook (flow.hookCall hook)).guests) :
    ∃ target, flow.graph.calledAs? target = some name := by
  have host : (flow.hookCall hook).call.guests = [] := by
    change (Expr.list _).guests = []
    rw [Expr.guests_list, List.flatMap_eq_nil_iff]
    intro argument among
    obtain ⟨capture, _, rfl⟩ := List.mem_map.mp among
    rfl
  rw [Stmt.guests, host, List.nil_append] at member
  obtain ⟨exit, written, named⟩ := List.mem_flatMap.mp member
  simp only [hookCall, hookExits, List.mem_append, List.mem_map, List.mem_ite_nil_right,
    List.mem_singleton] at written
  rcases written with ((((⟨_, rfl⟩ | ⟨target, _, rfl⟩) | ⟨_, rfl⟩) | ⟨_, rfl⟩) | ⟨target, _, rfl⟩) |
    ⟨target, _, rfl⟩
  · cases named
  · exact ⟨target, exitTo_guests named⟩
  · cases named
  · cases named
  · exact ⟨target, exitTo_guests named⟩
  · exact ⟨target, exitTo_guests named⟩

theorem emitInstruction_guests {flow : Flow} {next : Option Instruction} {state : Knowledge}
    {insn : Instruction} {stmt : Stmt}
    (member : stmt ∈ (flow.emitInstruction next state insn).1.stmts) {name : String}
    (named : name ∈ stmt.guests) : ∃ target, flow.graph.calledAs? target = some name := by
  obtain ⟨io, known, same⟩ := flow.emitInstruction_parts next state insn
  have hooks : ∀ hooks, stmt ∈ flow.hookStmts hooks →
      ∃ target, flow.graph.calledAs? target = some name := by
    intro hooks among
    obtain ⟨hook, _, rfl⟩ := List.mem_map.mp among
    exact hookCall_guests named
  rw [same] at member
  simp only [List.mem_append, List.mem_singleton, mem_emitBody] at member
  rcases member with rfl | before | mode | (body | ⟨_, rfl⟩) | after
  · cases named
  · exact hooks _ before
  · obtain ⟨_, _, rfl⟩ := mem_emitMode mode
    cases named
  · exact lift_guests (List.mem_flatMap.mpr ⟨stmt, body, named⟩)
  · cases named
  · exact hooks _ after

theorem goto_mem_emitInstruction {flow : Flow} {next : Option Instruction} {state : Knowledge}
    {address word label : UInt32} (plain : flow.config.hooksAt address = []) :
    (∃ stmt ∈ (flow.emitInstruction next state (Instruction.decode address word)).1.stmts,
      .goto label ∈ stmt.exits) ↔
      label ∈ flow.destinations (flow.node.jumpTableAt? address)
          (Instruction.decode address word) ∧ flow.layout.isLabel label := by
  obtain ⟨io, known, same⟩ :=
    flow.emitInstruction_parts next state (Instruction.decode address word)
  have here : (Instruction.decode address word).address = address := rfl
  have noHooks : flow.hookStmts [] = [] := rfl
  rw [here, plain, List.filter_nil, List.filter_nil, noHooks] at same
  rw [same, ← goto_mem_lift]
  constructor
  · rintro ⟨stmt, member, written⟩
    simp only [List.mem_append, List.mem_singleton, List.not_mem_nil, false_or, or_false,
      mem_emitBody] at member
    rcases member with rfl | mode | body | ⟨_, rfl⟩
    · cases written
    · obtain ⟨_, _, rfl⟩ := mem_emitMode mode
      cases written
    · exact List.mem_flatMap.mpr ⟨stmt, body, written⟩
    · cases written
  · intro member
    obtain ⟨stmt, body, written⟩ := List.mem_flatMap.mp member
    refine ⟨stmt, ?_, written⟩
    simp only [List.mem_append, mem_emitBody]
    exact Or.inr (Or.inr (Or.inr (Or.inl (Or.inl body))))

/-! ## Blocks -/

theorem mem_emitInstructions {flow : Flow} {nextOf : Instruction → Option Instruction}
    {state : Knowledge} {instructions : List Instruction} {stmt : Stmt}
    (member : stmt ∈ (flow.emitInstructions nextOf state instructions).stmts) :
    ∃ insn ∈ instructions, ∃ state,
      stmt ∈ (flow.emitInstruction (nextOf insn) state insn).1.stmts := by
  induction instructions generalizing state with
  | nil => cases member
  | cons insn rest ih =>
      rcases List.mem_append.mp member with here | later
      · exact ⟨insn, List.mem_cons_self, state, here⟩
      · obtain ⟨other, among, after⟩ := ih later
        exact ⟨other, List.mem_cons_of_mem _ among, after⟩

theorem emitInstruction_subset (flow : Flow) (nextOf : Instruction → Option Instruction)
    (state : Knowledge) {instructions : List Instruction} {insn : Instruction}
    (member : insn ∈ instructions) :
    ∃ known, (flow.emitInstruction (nextOf insn) known insn).1.stmts ⊆
      (flow.emitInstructions nextOf state instructions).stmts := by
  induction instructions generalizing state with
  | nil => cases member
  | cons first rest ih =>
      rcases List.mem_cons.mp member with rfl | later
      · exact ⟨state, List.subset_append_left _ _⟩
      · obtain ⟨known, subset⟩ := ih (flow.emitInstruction (nextOf first) state first).2 later
        exact ⟨known, List.Subset.trans subset (List.subset_append_right _ _)⟩

theorem mem_emitBlock {flow : Flow} {nextOf : Instruction → Option Instruction} {block : Block}
    {stmt : Stmt} :
    stmt ∈ (flow.emitBlock nextOf block).stmts ↔
      stmt ∈ (flow.emitInstructions nextOf {} block.instructions).stmts ∨
        ∃ last exit, block.last? = some last ∧ flow.blockExit? block last = some exit ∧
          stmt = .transfer exit := by
  simp only [emitBlock, Fragment.append, Fragment.ofStmts, List.mem_append, List.mem_map,
    Option.mem_toList, Option.bind_eq_some_iff]
  refine or_congr_right ⟨?_, ?_⟩
  · rintro ⟨exit, ⟨last, ends, found⟩, rfl⟩
    exact ⟨last, exit, ends, found, rfl⟩
  · rintro ⟨last, exit, ends, found, rfl⟩
    exact ⟨exit, ⟨last, ends, found⟩, rfl⟩

/-- The comments of an arm are those of its instructions. -/
theorem comment_mem_emitBlock {flow : Flow} {nextOf : Instruction → Option Instruction}
    {block : Block} {text : String} :
    .comment text ∈ (flow.emitBlock nextOf block).stmts ↔
      ∃ insn ∈ block.instructions, text = remark insn := by
  rw [mem_emitBlock]
  constructor
  · rintro (member | ⟨_, _, _, _, absurd⟩)
    · obtain ⟨insn, among, state, here⟩ := mem_emitInstructions member
      exact ⟨insn, among, comment_mem_emitInstruction.mp here⟩
    · cases absurd
  · rintro ⟨insn, among, same⟩
    obtain ⟨known, subset⟩ := flow.emitInstruction_subset nextOf {} among
    exact Or.inl (subset (comment_mem_emitInstruction.mpr same))

/-- What an arm calls by name is a function that stands alone. -/
theorem emitBlock_guests {flow : Flow} {nextOf : Instruction → Option Instruction} {block : Block}
    {stmt : Stmt} (member : stmt ∈ (flow.emitBlock nextOf block).stmts) {name : String}
    (named : name ∈ stmt.guests) : ∃ target, flow.graph.calledAs? target = some name := by
  rcases mem_emitBlock.mp member with code | ⟨last, exit, _, found, rfl⟩
  · obtain ⟨_, _, _, here⟩ := mem_emitInstructions code
    exact emitInstruction_guests here named
  · unfold blockExit? at found
    split at found
    · cases found
    · split at found
      · cases found
        cases named
      · cases found
        exact ⟨block.stop, exitTo_guests named⟩

end Flow

end PowerLift
