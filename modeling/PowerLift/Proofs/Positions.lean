import Mathlib
import PowerLift.Proofs.AddressText
import PowerLift.Proofs.Successors

/-!
Where a statement of an arm comes from. The code for an instruction stands under a comment that
begins with its address, so the last comment before a statement tells the instruction, and with it
what was known when the code was made.
-/

namespace PowerLift

namespace Stmt

def comment? : Stmt → Option String
  | comment text => some text
  | _ => none

def lastComment? (stmts : List Stmt) : Option String :=
  stmts.reverse.findSome? comment?

theorem lastComment?_append (stmts more : List Stmt) :
    lastComment? (stmts ++ more) = (lastComment? more).or (lastComment? stmts) := by
  simp [lastComment?, List.findSome?_append]

theorem mem_of_lastComment? {stmts : List Stmt} {text : String}
    (last : lastComment? stmts = some text) : .comment text ∈ stmts := by
  obtain ⟨stmt, member, found⟩ := List.exists_of_findSome?_eq_some last
  cases stmt with
  | comment => cases found; exact List.mem_reverse.mp member
  | _ => cases found

theorem lastComment?_isSome {stmts : List Stmt} {text : String} (member : .comment text ∈ stmts) :
    ∃ last, lastComment? stmts = some last := by
  apply Option.isSome_iff_exists.mp
  rw [lastComment?, List.findSome?_isSome_iff]
  exact ⟨_, List.mem_reverse.mpr member, rfl⟩

end Stmt

/-- A member of two lists is behind the first, or inside of it. -/
theorem split_append {α : Type} {first second front back : List α} {item : α}
    (same : first ++ second = front ++ item :: back) :
    (∃ inner, front = first ++ inner ∧ second = inner ++ item :: back) ∨
      ∃ rest, first = front ++ item :: rest ∧ back = rest ++ second := by
  rcases List.append_eq_append_iff.mp same with ⟨inner, rfl, rfl⟩ | ⟨inner, rfl, rest⟩
  · exact Or.inl ⟨inner, rfl, rfl⟩
  · cases inner with
    | nil => exact Or.inl ⟨[], by simp, rest.symm⟩
    | cons head tail =>
        cases rest
        exact Or.inr ⟨tail, rfl, rfl⟩

namespace Flow

/-! ## One instruction -/

/-- What is known behind the hooks in front of an instruction. -/
def ready (flow : Flow) (state : Knowledge) (insn : Instruction) : Knowledge :=
  (flow.emitHooks state ((flow.config.hooksAt insn.address).filter (!·.afterInstruction))).2

/-- The code for an instruction, given what is known before. -/
def liftedAt (flow : Flow) (next : Option Instruction) (state : Knowledge) (insn : Instruction) :
    Lifted :=
  flow.lift (flow.node.jumpTableAt? insn.address)
    ((flow.ready state insn).ioBases.isDeviceAccess insn next) insn

/-- The statements in front of the code for an instruction: its comment, its hooks and the switch
of the flush mode. -/
def preamble (flow : Flow) (next : Option Instruction) (state : Knowledge) (insn : Instruction) :
    List Stmt :=
  [.comment (remark insn)] ++
    flow.hookStmts ((flow.config.hooksAt insn.address).filter (!·.afterInstruction)) ++
    (emitMode (flow.ready state insn) (flow.liftedAt next state insn).mode).1.stmts

theorem emitInstruction_eq (flow : Flow) (next : Option Instruction) (state : Knowledge)
    (insn : Instruction) :
    (flow.emitInstruction next state insn).1.stmts =
      flow.preamble next state insn ++
        ((emitBody insn (flow.liftedAt next state insn)).stmts ++
          flow.hookStmts ((flow.config.hooksAt insn.address).filter (·.afterInstruction))) ∧
    (flow.emitInstruction next state insn).2 =
      (flow.emitHooks (afterInstruction
          (emitMode (flow.ready state insn) (flow.liftedAt next state insn).mode).2 insn
          (flow.liftedAt next state insn))
        ((flow.config.hooksAt insn.address).filter (·.afterInstruction))).2 := by
  refine ⟨?_, rfl⟩
  simp only [preamble, List.append_assoc]
  rfl

/-- Whether a statement can only be part of the code for an instruction itself. -/
def IsOwn (stmt : Stmt) : Prop :=
  match stmt with
  | .comment _ | .transfer _ | .hook _ => False
  | .act action => ∀ wanted checked, action ≠ FlushMode.switch wanted checked
  | _ => True

theorem emitInstruction_split {flow : Flow} {next : Option Instruction} {state : Knowledge}
    {insn : Instruction} {front back : List Stmt} {stmt : Stmt}
    (split : (flow.emitInstruction next state insn).1.stmts = front ++ stmt :: back)
    (own : IsOwn stmt) :
    ∃ inner rest, front = flow.preamble next state insn ++ inner ∧
      (emitBody insn (flow.liftedAt next state insn)).stmts = inner ++ stmt :: rest := by
  have hooks : ∀ hooks, stmt ∉ flow.hookStmts hooks := by
    intro hooks member
    obtain ⟨hook, _, rfl⟩ := List.mem_map.mp member
    exact own
  have before : stmt ∉ flow.preamble next state insn := by
    simp only [preamble, List.mem_append, List.mem_singleton, not_or]
    refine ⟨⟨?_, hooks _⟩, ?_⟩
    · rintro rfl
      exact own
    · intro member
      obtain ⟨wanted, checked, rfl⟩ := mem_emitMode member
      exact own wanted checked rfl
  rw [(flow.emitInstruction_eq next state insn).1] at split
  rcases split_append split with ⟨inner, rfl, later⟩ | ⟨rest, same, _⟩
  · rcases split_append later with ⟨_, _, afterwards⟩ | ⟨rest, same, _⟩
    · exact absurd (afterwards ▸ List.mem_append_right _ List.mem_cons_self) (hooks _)
    · exact ⟨inner, rest, rfl, same⟩
  · exact absurd (same ▸ List.mem_append_right _ List.mem_cons_self) before

/-! ## Instructions one after the other -/

/-- What is known after instructions. -/
def knowledge (flow : Flow) (nextOf : Instruction → Option Instruction) :
    Knowledge → List Instruction → Knowledge
  | state, [] => state
  | state, insn :: rest =>
    flow.knowledge nextOf (flow.emitInstruction (nextOf insn) state insn).2 rest

theorem emitInstructions_cons (flow : Flow) (nextOf : Instruction → Option Instruction)
    (state : Knowledge) (insn : Instruction) (rest : List Instruction) :
    (flow.emitInstructions nextOf state (insn :: rest)).stmts =
      (flow.emitInstruction (nextOf insn) state insn).1.stmts ++
        (flow.emitInstructions nextOf (flow.emitInstruction (nextOf insn) state insn).2
          rest).stmts :=
  rfl

theorem emitInstructions_split {flow : Flow} {nextOf : Instruction → Option Instruction}
    {state : Knowledge} {instructions : List Instruction} {front back : List Stmt} {stmt : Stmt}
    (split : (flow.emitInstructions nextOf state instructions).stmts = front ++ stmt :: back) :
    ∃ before insn after inner rest, instructions = before ++ insn :: after ∧
      front = (flow.emitInstructions nextOf state before).stmts ++ inner ∧
      (flow.emitInstruction (nextOf insn) (flow.knowledge nextOf state before) insn).1.stmts =
        inner ++ stmt :: rest := by
  induction instructions generalizing state front with
  | nil =>
      have empty : [] = front ++ stmt :: back := split
      simp at empty
  | cons insn others ih =>
      rw [emitInstructions_cons] at split
      rcases split_append split with ⟨inner, rfl, later⟩ | ⟨rest, here, _⟩
      · obtain ⟨before, found, after, inner, rest, rfl, rfl, own⟩ := ih later
        refine ⟨insn :: before, found, after, inner, rest, rfl, ?_, own⟩
        rw [emitInstructions_cons, List.append_assoc]
      · exact ⟨[], insn, others, front, rest, rfl, rfl, here⟩

theorem lastComment?_of_split {flow : Flow} {next : Option Instruction} {state : Knowledge}
    {insn : Instruction} {front back : List Stmt} {stmt : Stmt}
    (split : (flow.emitInstruction next state insn).1.stmts = front ++ stmt :: back)
    (own : IsOwn stmt) : Stmt.lastComment? front = some (remark insn) := by
  obtain ⟨inner, rest, rfl, _⟩ := emitInstruction_split split own
  have here : .comment (remark insn) ∈ flow.preamble next state insn ++ inner := by
    simp [preamble]
  obtain ⟨last, found⟩ := Stmt.lastComment?_isSome here
  have member : .comment last ∈ (flow.emitInstruction next state insn).1.stmts :=
    split ▸ List.mem_append_left _ (Stmt.mem_of_lastComment? found)
  rw [found, comment_mem_emitInstruction.mp member]

theorem address_eq_of_remark {first second : Instruction} (same : remark first = remark second) :
    first.address = second.address := by
  have marks : ∀ insn, remark insn = addressText insn.address ++ (": " ++ insn.text) := by
    intro insn
    rw [← String.append_assoc]
    rfl
  rw [marks, marks] at same
  exact address_eq_of_append same

end Flow

namespace Layout

/-! ## Instructions of blocks -/

/-- No instruction is in two blocks. -/
theorem blocksOf_listed (graph : Graph) {node : FunctionNode} {instructions : List Instruction}
    (config : Config) (listed : Instruction.Listed instructions)
    (ranges : (codeRanges node).Pairwise
      fun first second => first.stop.toNat ≤ second.start.toNat) :
    ((blocksOf graph node instructions config).flatMap (·.instructions)).Nodup := by
  refine (blocksOf_ascends graph config listed.ordered ranges).imp ?_
  intro first second below same
  exact UInt32.ne_of_lt below (congrArg _ same)

/-- An instruction has one place only. -/
theorem position_unique {blocks : List Block} (distinct : (blocks.flatMap (·.instructions)).Nodup)
    {first second : Block} (firstIn : first ∈ blocks) (secondIn : second ∈ blocks)
    {insn : Instruction} {before after before' after' : List Instruction}
    (here : first.instructions = before ++ insn :: after)
    (there : second.instructions = before' ++ insn :: after') : before = before' := by
  obtain ⟨each, apart⟩ := List.nodup_flatMap.mp distinct
  have inFirst : insn ∈ first.instructions := by rw [here]; simp
  have inSecond : insn ∈ second.instructions := by rw [there]; simp
  obtain rfl : first = second := by
    by_contra differ
    have symmetric : Std.Symm (Function.onFun List.Disjoint Block.instructions) :=
      ⟨fun _ _ apart => List.Disjoint.symm apart⟩
    exact apart.forall firstIn secondIn differ inFirst inSecond
  have once := each first firstIn
  rw [here, List.nodup_middle, List.nodup_cons, List.mem_append, not_or] at once
  exact ((List.append_cons_inj_of_notMem once.1.1 once.1.2).mp (here ▸ there)).1

end Layout

/-! ## Emitted functions -/

namespace Program

/-- The function of a node is emitted with a statement under the comment of an instruction, behind
others of the same arm. -/
def Emits (program : Program) (graph : Graph) (node : FunctionNode) (insn : Instruction)
    (front : List Stmt) (stmt : Stmt) : Prop :=
  ∃ instructions function arm back, program.instructionsOf node = .ok instructions ∧
    insn ∈ instructions ∧ program.emitFunction graph node = .ok function ∧ arm ∈ function.arms ∧
    arm.body = front ++ stmt :: back ∧ Stmt.lastComment? front = some (Flow.remark insn)

/-- The instruction after another in memory. -/
def nextIn (instructions : List Instruction) (insn : Instruction) : Option Instruction :=
  instructions.find? (·.address == insn.address + 4)

theorem Emits.inside {program : Program} {graph : Graph} {node : FunctionNode} {insn : Instruction}
    {front : List Stmt} {stmt : Stmt} (emits : program.Emits graph node insn front stmt)
    (own : Flow.IsOwn stmt) :
    ∃ instructions block before after inner rest,
      program.instructionsOf node = .ok instructions ∧
      block ∈ (program.flowOf graph node instructions).layout.blocks ∧
      block.instructions = before ++ insn :: after ∧
      front = ((program.flowOf graph node instructions).emitInstructions (nextIn instructions) {}
        before).stmts ++ inner ∧
      ((program.flowOf graph node instructions).emitInstruction (nextIn instructions insn)
        ((program.flowOf graph node instructions).knowledge (nextIn instructions) {} before)
        insn).1.stmts = inner ++ stmt :: rest := by
  obtain ⟨instructions, function, arm, back, decoded, listed, emitted, among, split, origin⟩ :=
    emits
  rw [emitFunction, decoded] at emitted
  cases emitted
  rw [emit_arms] at among
  obtain ⟨block, member, rfl⟩ := List.mem_map.mp among
  have code : ((program.flowOf graph node instructions).emitInstructions (nextIn instructions) {}
      block.instructions).stmts ++ _ = front ++ stmt :: back := split
  rcases split_append code with ⟨_, _, exit⟩ | ⟨back, split, _⟩
  · -- The transfer at the end is no code of an instruction.
    have last := exit ▸ List.mem_append_right _ List.mem_cons_self
    obtain ⟨exit, _, rfl⟩ := List.mem_map.mp last
    exact absurd own id
  · obtain ⟨before, found, after, inner, rest, same, rfl, inside⟩ :=
      Flow.emitInstructions_split split
    have last := Flow.lastComment?_of_split inside own
    rw [Stmt.lastComment?_append, last, Option.some_or] at origin
    have foundListed : found ∈ instructions :=
      Flow.mem_of_mem_block rfl member (by rw [same]; simp)
    obtain rfl : found = insn := by
      refine List.inj_on_of_nodup_map (f := Instruction.address) ?_ foundListed listed
        (Flow.address_eq_of_remark (Option.some.inj origin))
      exact (List.pairwise_map.mpr (Image.instructions_listed decoded).ordered).imp
        fun below => UInt32.ne_of_lt below
    exact ⟨instructions, block, before, after, inner, rest, decoded, member, same, rfl, inside⟩

theorem blocks_listed {program : Program} {graph : Graph} {node : FunctionNode}
    {instructions : List Instruction} (decoded : program.instructionsOf node = .ok instructions) :
    ((program.flowOf graph node instructions).layout.blocks.flatMap (·.instructions)).Nodup := by
  have listed := Image.instructions_listed decoded
  rw [program.flowOf_blocks graph node listed]
  exact Layout.blocksOf_listed graph program.config listed
    (graph.codeRanges_withChunks_ordered node)

/-- A statement in front of another of an arm is one of the arm too. -/
theorem Emits.earlier {program : Program} {graph : Graph} {node : FunctionNode}
    {insn other : Instruction} {front since : List Stmt} {stmt earlier : Stmt}
    (emits : program.Emits graph node insn (front ++ earlier :: since) stmt)
    {instructions : List Instruction} (decoded : program.instructionsOf node = .ok instructions)
    (listed : other ∈ instructions) (origin : Stmt.lastComment? front = some (Flow.remark other)) :
    program.Emits graph node other front earlier := by
  obtain ⟨_, function, arm, back, _, _, emitted, among, split, _⟩ := emits
  refine ⟨instructions, function, arm, since ++ stmt :: back, decoded, listed, emitted, among, ?_,
    origin⟩
  rw [split]
  simp

end Program

end PowerLift
