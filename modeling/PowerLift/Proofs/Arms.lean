import Mathlib
import PowerLift.Emit.Arm
import PowerLift.Proofs.Exits

/-!
The arms of the dispatch loop: exits that name a label name one of the function, and control does
not run past the end of an arm.
-/

namespace PowerLift

/-! ## Decoded branches -/

namespace Instruction

theorem lookup_branch (word : UInt32) :
    ((Descriptor.lookup word).opcode = .b →
      (Descriptor.lookup word).group = .branch ∧ (Descriptor.lookup word).format = .i) ∧
    ((Descriptor.lookup word).opcode = .bc →
      (Descriptor.lookup word).group = .branch ∧ (Descriptor.lookup word).format = .b) ∧
    ((Descriptor.lookup word).opcode ∈ [Opcode.bclr, .bcctr] →
      (Descriptor.lookup word).group = .branch) ∧
    (Descriptor.lookup word).opcode ∉ [Opcode.blr, .bctr] :=
  Descriptor.lookup_ind
    (motive := fun entry => (entry.opcode = .b → entry.group = .branch ∧ entry.format = .i) ∧
      (entry.opcode = .bc → entry.group = .branch ∧ entry.format = .b) ∧
      (entry.opcode ∈ [Opcode.bclr, .bcctr] → entry.group = .branch) ∧
      entry.opcode ∉ [Opcode.blr, .bctr])
    (by decide +kernel) (by decide) word

/-- Branches without link have one special form each, the one that is always taken. -/
theorem simplifiedOpcode_cases (insn : Instruction) :
    insn.simplifiedOpcode = insn.opcode ∨
      (insn.opcode = .bclr ∧ insn.simplifiedOpcode = .blr) ∨
      (insn.opcode = .bcctr ∧ insn.simplifiedOpcode = .bctr) ∨
      insn.simplifiedOpcode ∉ [Opcode.b, .bc, .bclr, .bcctr, .blr, .bctr] := by
  unfold simplifiedOpcode
  split
  all_goals first
    | exact Or.inl rfl
    | split <;> first | (simp [*]; done) | (split <;> simp [*])

theorem lookup_of_decode {address word : UInt32} {opcode : Opcode}
    (found : (decode address word).opcode = opcode)
    (branch : opcode ∈ [Opcode.b, .bc, .bclr, .bcctr, .blr, .bctr]) :
    (Descriptor.lookup word).opcode = opcode ∨
      ((Descriptor.lookup word).opcode = .bclr ∧ opcode = .blr) ∨
      ((Descriptor.lookup word).opcode = .bcctr ∧ opcode = .bctr) := by
  subst found
  rcases simplifiedOpcode_cases (decodeBase address word) with same | link | counter | other
  · exact Or.inl same.symm
  · exact Or.inr (Or.inl link)
  · exact Or.inr (Or.inr counter)
  · exact absurd branch other

theorem decode_branch {address word : UInt32}
    (branch : (decode address word).opcode ∈ [Opcode.b, .bc, .bclr, .bcctr, .blr, .bctr]) :
    (decode address word).group = .branch ∧
      ((decode address word).opcode ∈ [Opcode.b, .bc] → (decode address word).target.isSome) := by
  obtain ⟨long, short, indirect, plain⟩ := lookup_branch word
  rcases lookup_of_decode rfl branch with same | ⟨base, special⟩ | ⟨base, special⟩
  · rw [← same] at branch ⊢
    simp only [List.mem_cons, List.not_mem_nil, or_false] at branch
    rcases branch with base | base | base | base | base | base
    · exact ⟨(long base).1, fun _ => by simp [decode, decodeBase, branchTarget, (long base).2]⟩
    · exact ⟨(short base).1, fun _ => by simp [decode, decodeBase, branchTarget, (short base).2]⟩
    · exact ⟨indirect (by simp [base]), fun direct => absurd direct (by simp [base])⟩
    · exact ⟨indirect (by simp [base]), fun direct => absurd direct (by simp [base])⟩
    · exact absurd (by simp [base]) plain
    · exact absurd (by simp [base]) plain
  · exact ⟨indirect (by simp [base]), fun direct => absurd direct (by simp [special])⟩
  · exact ⟨indirect (by simp [base]), fun direct => absurd direct (by simp [special])⟩

end Instruction

/-! ## Exits to labels -/

namespace Flow

/-- An exit that names a label names one of the function. -/
def Lands (flow : Flow) (exit : Exit) : Prop :=
  ∀ label, exit = .goto label → flow.layout.isLabel label

theorem lands_exitTo (flow : Flow) (address : UInt32) : flow.Lands (flow.exitTo address) := by
  intro label named
  unfold exitTo at named
  split at named
  next known =>
    cases named
    exact known
  next => cases named

theorem lands_ret (flow : Flow) : flow.Lands .ret := by
  rintro _ ⟨⟩

end Flow

namespace Lift

@[simp] theorem underCondition_exits (insn : Instruction) (actions : List Action)
    (exit : Option Exit) : (underCondition insn actions exit).exits = exit.toList := by
  simp [underCondition, Lifted.exits]

@[simp] theorem linked_exits (insn : Instruction) (actions : List Action) :
    (linked insn actions).exits = [] :=
  underCondition_exits insn actions none

theorem indirectJump_lands (flow : Flow) (table : Option JumpTable) (before : List Action)
    (condition : Option Expr) :
    ∀ exit ∈ (indirectJump flow table before condition).exits, flow.Lands exit := by
  intro exit member
  cases table with
  | none =>
      simp only [indirectJump, Lifted.exits, Option.getD_some, List.flatMap_append,
        Stmt.exits_acts, Stmt.exits_guarded, List.nil_append, Option.toList_some,
        List.mem_singleton] at member
      subst member
      rintro _ ⟨⟩
  | some table =>
      simp only [indirectJump, Lifted.exits, Option.getD_some, List.flatMap_append,
        Stmt.exits_acts, Stmt.exits, List.flatMap_singleton, List.nil_append, List.mem_append,
        List.mem_map, List.mem_singleton] at member
      rcases member with ⟨target, _, rfl⟩ | rfl
      · exact flow.lands_exitTo target
      · rintro _ ⟨⟩

theorem branch_lands (flow : Flow) (table : Option JumpTable) (insn : Instruction) :
    ∀ exit ∈ (branch flow table insn).exits, flow.Lands exit := by
  intro exit member
  unfold branch at member
  split at member
  · split at member
    next target _ =>
      obtain rfl : exit = flow.exitTo target := List.mem_singleton.mp member
      exact flow.lands_exitTo target
    next => cases member
  · split at member
    next => simp [Lifted.exits, Lifted.ofActions] at member
    next => cases member
  · split at member
    next target _ =>
      obtain rfl : exit = flow.exitTo target := by simpa using member
      exact flow.lands_exitTo target
    next => cases member
  · split at member
    next => split at member <;> simp at member
    next => cases member
  · obtain rfl : exit = .ret := List.mem_singleton.mp member
    exact flow.lands_ret
  · split at member
    next => simp at member
    next =>
      obtain rfl : exit = .ret := by simpa using member
      exact flow.lands_ret
  · simp at member
  · exact indirectJump_lands _ _ _ _ exit member
  · split at member
    next => simp at member
    next => exact indirectJump_lands _ _ _ _ exit member
  · simp at member
  · cases member

theorem branchCondition_always {insn : Instruction} (always : insn.alwaysTaken) :
    branchCondition insn = ([], none) := by
  simp only [Instruction.alwaysTaken, Bool.and_eq_true] at always
  simp [branchCondition, counterTest, bitTest, always, Expr.joined]

theorem indirectJump_leaves (flow : Flow) (table : Option JumpTable) :
    ∃ stmts, (indirectJump flow table [] none).body = some stmts ∧
      ∃ stmt ∈ stmts, ¬ stmt.Leads none := by
  cases table with
  | none => exact ⟨_, rfl, _, List.mem_singleton_self _, Stmt.not_leads_transfer⟩
  | some table => exact ⟨_, rfl, _, List.mem_singleton_self _, Stmt.not_leads_switch⟩

theorem branch_leaves (flow : Flow) (table : Option JumpTable) {insn : Instruction}
    (leaves : Flow.leavesArm insn) (direct : insn.opcode ∈ [Opcode.b, .bc] → insn.target.isSome) :
    ∃ stmts, (branch flow table insn).body = some stmts ∧ ∃ stmt ∈ stmts, ¬ stmt.Leads none := by
  unfold Flow.leavesArm at leaves
  split at leaves
  next opcode =>
    obtain ⟨target, known⟩ := Option.isSome_iff_exists.mp (direct (by simp [opcode]))
    have named : (flow.targetOf insn).isSome := by
      simp [Flow.targetOf, known]
    obtain ⟨target, named⟩ := Option.isSome_iff_exists.mp named
    simp only [branch, opcode, named]
    exact ⟨_, rfl, _, List.mem_singleton_self _, Stmt.not_leads_transfer⟩
  next opcode =>
    simp only [branch, opcode]
    exact ⟨_, rfl, _, List.mem_singleton_self _, Stmt.not_leads_transfer⟩
  next opcode =>
    simp only [branch, opcode]
    exact indirectJump_leaves flow table
  next opcode =>
    obtain ⟨target, known⟩ := Option.isSome_iff_exists.mp (direct (by simp [opcode]))
    simp only [Instruction.isConditional, opcode, Bool.not_not, Bool.and_eq_true] at leaves
    simp only [branch, opcode, known, underCondition, branchCondition_always leaves.1.2]
    exact ⟨_, rfl, _, List.mem_singleton_self _, Stmt.not_leads_transfer⟩
  next opcode =>
    simp only [Instruction.isConditional, opcode, Bool.not_not, Bool.and_eq_true,
      Bool.not_eq_true'] at leaves
    simp only [branch, opcode, leaves.1.1, underCondition, branchCondition_always leaves.1.2]
    exact ⟨_, rfl, _, List.mem_singleton_self _, Stmt.not_leads_transfer⟩
  next opcode =>
    simp only [Instruction.isConditional, opcode, Bool.not_not, Bool.and_eq_true,
      Bool.not_eq_true'] at leaves
    simp only [branch, opcode, leaves.1.1, branchCondition_always leaves.1.2]
    exact indirectJump_leaves flow table
  next => cases leaves

end Lift

namespace Flow

theorem lift_lands (flow : Flow) (table : Option JumpTable) (io : Bool) (insn : Instruction) :
    ∀ exit ∈ (flow.lift table io insn).exits, flow.Lands exit := by
  intro exit member
  unfold lift at member
  split at member
  · exact Lift.branch_lands flow table insn exit member
  all_goals simp at member

theorem lift_leaves (flow : Flow) (table : Option JumpTable) (io : Bool) {address word : UInt32}
    (leaves : leavesArm (Instruction.decode address word)) :
    ∃ stmts, (flow.lift table io (Instruction.decode address word)).body = some stmts ∧
      ∃ stmt ∈ stmts, ¬ stmt.Leads none := by
  have branch : (Instruction.decode address word).opcode ∈
      [Opcode.b, .bc, .bclr, .bcctr, .blr, .bctr] := by
    unfold leavesArm at leaves
    split at leaves <;> simp [*]
    cases leaves
  obtain ⟨group, direct⟩ := Instruction.decode_branch branch
  simp only [lift, group]
  exact Lift.branch_leaves flow table leaves direct

/-! ## Blocks -/

/-- All exits in statements land. -/
def LandsAll (flow : Flow) (stmts : List Stmt) : Prop :=
  ∀ stmt ∈ stmts, ∀ exit ∈ stmt.exits, flow.Lands exit

theorem landsAll_append {flow : Flow} {first second : List Stmt} :
    flow.LandsAll (first ++ second) ↔ flow.LandsAll first ∧ flow.LandsAll second :=
  List.forall_mem_append

theorem landsAll_acts (flow : Flow) (actions : List Action) :
    flow.LandsAll (actions.map .act) := by
  intro stmt member exit written
  obtain ⟨action, _, rfl⟩ := List.mem_map.mp member
  cases written

theorem hookExits_lands (flow : Flow) (hook : Hook) :
    ∀ exit ∈ flow.hookExits hook, flow.Lands exit.2 := by
  intro exit member
  simp only [hookExits, List.mem_append, List.mem_map, List.mem_ite_nil_right,
    List.mem_singleton] at member
  rcases member with ((((⟨_, rfl⟩ | ⟨target, _, rfl⟩) | ⟨_, rfl⟩) | ⟨_, rfl⟩) | ⟨target, _, rfl⟩) |
    ⟨target, _, rfl⟩
  · exact flow.lands_ret
  · exact flow.lands_exitTo target
  · exact flow.lands_ret
  · exact flow.lands_ret
  · exact flow.lands_exitTo target
  · exact flow.lands_exitTo target

theorem emitHooks_lands (flow : Flow) (state : Knowledge) (hooks : List Hook) :
    flow.LandsAll (flow.emitHooks state hooks).1.stmts := by
  intro stmt member exit written
  obtain ⟨hook, _, rfl⟩ := List.mem_map.mp member
  obtain ⟨choice, among, rfl⟩ := List.mem_map.mp written
  exact flow.hookExits_lands hook choice among

theorem emitMode_lands (flow : Flow) (state : Knowledge) (wanted : Option FlushMode) :
    flow.LandsAll (emitMode state wanted).1.stmts := by
  cases wanted with
  | none => exact flow.landsAll_acts []
  | some mode => exact flow.landsAll_acts _

theorem emitBody_lands {flow : Flow} {insn : Instruction} {lifted : Lifted}
    (lands : ∀ exit ∈ lifted.exits, flow.Lands exit) :
    flow.LandsAll (emitBody insn lifted).stmts := by
  unfold emitBody
  split
  next stmts body =>
    intro stmt member exit written
    refine lands exit ?_
    simp only [Lifted.exits, body, Option.getD_some]
    exact List.mem_flatMap.mpr ⟨stmt, member, written⟩
  next => exact flow.landsAll_acts [unimplementedCall insn]

theorem emitInstruction_stmts (flow : Flow) (next : Option Instruction) (state : Knowledge)
    (insn : Instruction) :
    ∃ io before after, flow.LandsAll before ∧ flow.LandsAll after ∧
      (flow.emitInstruction next state insn).1.stmts =
        before ++ (emitBody insn
          (flow.lift (flow.node.jumpTableAt? insn.address) io insn)).stmts ++ after := by
  have comment (text : String) : flow.LandsAll [.comment text] := by
    intro stmt member exit written
    obtain rfl := List.mem_singleton.mp member
    cases written
  dsimp only [emitInstruction, Fragment.append, Fragment.ofStmts]
  simp only [← List.append_assoc]
  refine ⟨_, _, _, ?_, ?_, rfl⟩
  · exact landsAll_append.mpr ⟨landsAll_append.mpr ⟨comment _, flow.emitHooks_lands _ _⟩,
      flow.emitMode_lands _ _⟩
  · exact flow.emitHooks_lands _ _

theorem emitInstruction_lands (flow : Flow) (next : Option Instruction) (state : Knowledge)
    (insn : Instruction) : flow.LandsAll (flow.emitInstruction next state insn).1.stmts := by
  obtain ⟨io, before, after, landsBefore, landsAfter, same⟩ :=
    flow.emitInstruction_stmts next state insn
  rw [same]
  exact landsAll_append.mpr ⟨landsAll_append.mpr
    ⟨landsBefore, emitBody_lands (flow.lift_lands _ io insn)⟩, landsAfter⟩

theorem emitInstruction_leaves (flow : Flow) (next : Option Instruction) (state : Knowledge)
    {address word : UInt32} (leaves : leavesArm (Instruction.decode address word)) :
    ∃ stmt ∈ (flow.emitInstruction next state (Instruction.decode address word)).1.stmts,
      ¬ stmt.Leads none := by
  obtain ⟨io, before, after, _, _, same⟩ :=
    flow.emitInstruction_stmts next state (Instruction.decode address word)
  obtain ⟨stmts, body, stmt, member, barred⟩ := flow.lift_leaves
    (flow.node.jumpTableAt? (Instruction.decode address word).address) io leaves
  refine ⟨stmt, ?_, barred⟩
  rw [same]
  refine List.mem_append_left _ (List.mem_append_right _ ?_)
  simpa only [emitBody, body] using member

theorem emitInstructions_lands (flow : Flow) (nextOf : Instruction → Option Instruction)
    (state : Knowledge) (instructions : List Instruction) :
    flow.LandsAll (flow.emitInstructions nextOf state instructions).stmts := by
  induction instructions generalizing state with
  | nil => exact flow.landsAll_acts []
  | cons insn rest ih =>
      exact landsAll_append.mpr ⟨flow.emitInstruction_lands _ _ insn, ih _⟩

theorem emitInstructions_leaves (flow : Flow) (nextOf : Instruction → Option Instruction)
    (state : Knowledge) {instructions : List Instruction} {address word : UInt32}
    (member : Instruction.decode address word ∈ instructions)
    (leaves : leavesArm (Instruction.decode address word)) :
    ∃ stmt ∈ (flow.emitInstructions nextOf state instructions).stmts, ¬ stmt.Leads none := by
  induction instructions generalizing state with
  | nil => cases member
  | cons insn rest ih =>
      rcases List.mem_cons.mp member with rfl | later
      · obtain ⟨stmt, among, barred⟩ := flow.emitInstruction_leaves (nextOf _) state leaves
        exact ⟨stmt, List.mem_append_left _ among, barred⟩
      · obtain ⟨stmt, among, barred⟩ := ih _ later
        exact ⟨stmt, List.mem_append_right _ among, barred⟩

theorem blockExit?_lands {flow : Flow} {block : Block} {last : Instruction} {exit : Exit}
    (found : flow.blockExit? block last = some exit) : flow.Lands exit := by
  unfold blockExit? at found
  split at found
  · cases found
  · split at found
    · cases found
      exact flow.lands_ret
    · cases found
      exact flow.lands_exitTo _

theorem emitBlock_lands (flow : Flow) (nextOf : Instruction → Option Instruction)
    (block : Block) : flow.LandsAll (flow.emitBlock nextOf block).stmts := by
  refine landsAll_append.mpr ⟨flow.emitInstructions_lands _ _ _, ?_⟩
  intro stmt member exit written
  obtain ⟨chosen, among, rfl⟩ := List.mem_map.mp member
  obtain rfl := List.mem_singleton.mp written
  obtain ⟨last, _, found⟩ := Option.bind_eq_some_iff.mp (Option.mem_toList.mp among)
  exact blockExit?_lands found

/-- Control does not run past the end of a block: its last instruction always leaves, or else a
transfer follows. -/
theorem emitBlock_leaves (flow : Flow) (nextOf : Instruction → Option Instruction)
    {block : Block} {address word : UInt32}
    (last : block.last? = some (Instruction.decode address word)) :
    ¬ Stmt.Path (flow.emitBlock nextOf block).stmts none := by
  intro path
  cases leaves : leavesArm (Instruction.decode address word) with
  | true =>
      obtain ⟨stmt, member, barred⟩ :=
        flow.emitInstructions_leaves nextOf {} (List.mem_of_getLast? last) leaves
      exact barred (path.leads_none stmt (List.mem_append_left _ member))
  | false =>
      obtain ⟨exit, found⟩ : ∃ exit,
          flow.blockExit? block (Instruction.decode address word) = some exit := by
        unfold blockExit?
        rw [leaves]
        split
        · contradiction
        · split <;> exact ⟨_, rfl⟩
      refine Stmt.not_leads_transfer (path.leads_none (.transfer exit)
        (List.mem_append_right _ ?_))
      simp [Fragment.ofStmts, last, found]

end Flow

end PowerLift
