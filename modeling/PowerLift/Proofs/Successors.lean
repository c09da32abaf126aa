import Mathlib
import PowerLift.Proofs.Recorded
import PowerLift.Proofs.Runs
import PowerLift.Proofs.Transfers

/-!
The edges of a layout beside the transfers of the emitted arms. Both follow the last instruction of
a block; the arm also follows branches before it, and it returns where the edges still go on: after
a return from an interrupt, and after a word that encodes nothing. In code that discovery explored,
only the return from an interrupt remains.
-/

namespace PowerLift

/-! ## Instructions -/

namespace Instruction

/-- Where a branch that leaves no return address may go, apart from the next word. -/
def branchTargets (table : Option JumpTable) (insn : Instruction) : List UInt32 :=
  let cases := (table.map (·.targets)).getD []
  match insn.opcode with
  | .b | .bc => insn.target.toList
  | .bctr => cases
  | .bcctr => if insn.lk then [] else cases
  | _ => []

/-- Control may go on at the next word. -/
def passesOn (insn : Instruction) : Bool :=
  !Flow.leavesArm insn && !insn.isUnconditionalTrap

/-- The code for the instruction returns, although it is no branch. -/
def Halts (insn : Instruction) : Prop :=
  insn.opcode = .rfid ∨ insn.isUnknown

/-- The operations that transfer control by themselves. -/
def branches : List Opcode :=
  [.bc, .bclr, .bcctr, .b, .bl, .bcl, .blr, .blrl, .bctr, .bctrl]

theorem branch_cases (insn : Instruction) :
    insn.opcode ∈ branches ∨
      insn.transfer = .none ∧ insn.isConditional = false ∧ Flow.leavesArm insn = false ∧
        ∀ table, insn.branchTargets table = [] := by
  by_cases branch : insn.opcode ∈ branches
  · exact Or.inl branch
  · rw [branches] at branch
    refine Or.inr ⟨?_, ?_, ?_, ?_⟩
    · unfold transfer
      split <;> simp_all
    · unfold isConditional
      split <;> simp_all
    · unfold Flow.leavesArm
      split <;> simp_all
    · intro table
      unfold branchTargets
      split <;> simp_all

theorem leavesArm_of_conditional {insn : Instruction}
    (opcode : insn.opcode ∈ [Opcode.bc, .bclr, .bcctr]) :
    Flow.leavesArm insn = (!insn.lk && insn.alwaysTaken) := by
  simp only [List.mem_cons, List.not_mem_nil, or_false] at opcode
  rcases opcode with opcode | opcode | opcode <;>
    cases counter : insn.ignoresCounter <;>
      simp [Flow.leavesArm, isConditional, alwaysTaken, opcode, counter]

theorem branchTargets_of_straight {insn : Instruction} (straight : insn.endsBlock = false)
    (table : Option JumpTable) : insn.branchTargets table = [] := by
  have noJump : insn.transfer ≠ .jump ∧ insn.transfer ≠ .conditional ∧
      insn.transfer ≠ .indirectJump := by
    refine ⟨?_, ?_, ?_⟩ <;>
      · intro same
        simp [endsBlock, same] at straight
  unfold branchTargets
  split
  next opcode => exact absurd (by simp [transfer, opcode]) noJump.1
  next opcode =>
    cases always : insn.alwaysTaken with
    | true => exact absurd (by simp [transfer, opcode, always]) noJump.1
    | false => exact absurd (by simp [transfer, opcode, always]) noJump.2.1
  next opcode => exact absurd (by simp [transfer, opcode]) noJump.2.2
  next opcode =>
    cases linked : insn.lk with
    | true => rfl
    | false => exact absurd (by simp [transfer, opcode, linked]) noJump.2.2
  next => rfl

theorem halts_plain {insn : Instruction} (halts : insn.Halts) :
    Flow.leavesArm insn = false ∧ ∀ table, insn.branchTargets table = [] := by
  rcases insn.branch_cases with branch | ⟨_, _, stays, none⟩
  · rcases halts with opcode | unknown
    · simp [opcode, branches] at branch
    · rw [isUnknown, beq_iff_eq] at unknown
      simp [unknown, branches] at branch
  · exact ⟨stays, none⟩

section Decode

variable {address word : UInt32}

theorem lk_of_bc (opcode : (decode address word).opcode = .bc) :
    (decode address word).lk = false := by
  change (decodeBase address word).simplifiedOpcode = .bc at opcode
  change (decodeBase address word).lk = false
  unfold simplifiedOpcode at opcode
  split at opcode
  case h_2 =>
    split at opcode
    · cases opcode
    next single => simpa using single
  all_goals
    repeat' split at opcode
    all_goals simp_all

theorem opcode_of_trap (trap : (decode address word).isUnconditionalTrap) :
    (decode address word).opcode ∈ [Opcode.tdi, .twi, .tw, .td] := by
  simp only [isUnconditionalTrap, Bool.and_eq_true, beq_iff_eq] at trap
  exact decode_trap trap.1

theorem no_trap_of_branch (branch : (decode address word).opcode ∈ branches) :
    (decode address word).isUnconditionalTrap = false := by
  have apart : ∀ opcode ∈ branches, opcode ∉ [Opcode.tdi, .twi, .tw, .td] := by decide
  by_contra trap
  exact apart _ branch (opcode_of_trap (by simpa using trap))

theorem passesOn_of_rfid (opcode : (decode address word).opcode = .rfid) :
    (decode address word).passesOn := by
  have stays := (halts_plain (Or.inl opcode)).1
  have noTrap : (decode address word).isUnconditionalTrap = false := by
    by_contra trap
    have found := opcode_of_trap (by simpa using trap)
    rw [opcode] at found
    simp at found
  simp [passesOn, stays, noTrap]

end Decode

end Instruction

/-! ## Edges -/

namespace Layout

/-- An edge from the block at a place leads to the block at an address. -/
def LeadsTo (layout : Layout) (index : Nat) (address : UInt32) : Prop :=
  ∃ place ∈ layout.successors index, ∃ block, layout.blocks[place]? = some block ∧
    block.start = address

theorem mem_exits {node : FunctionNode} {block : Block} {address word target : UInt32} :
    (∃ kind, (target, kind) ∈ exits node block (Instruction.decode address word)) ↔
      target ∈ (Instruction.decode address word).branchTargets (node.jumpTableAt? address) ∨
        (Instruction.decode address word).passesOn ∧ target = block.stop := by
  have here : (Instruction.decode address word).address = address := rfl
  rcases (Instruction.decode address word).branch_cases with
    branch | ⟨transfer, conditional, stays, none⟩
  · have calm := Instruction.no_trap_of_branch branch
    have leaves := @Instruction.leavesArm_of_conditional (Instruction.decode address word)
    have single := @Instruction.lk_of_bc address word
    simp only [Instruction.branches, List.mem_cons, List.not_mem_nil, or_false] at branch
    simp only [exits, Instruction.effects_transfer, Instruction.effects_conditional,
      Instruction.passesOn, here, calm, Bool.not_false, Bool.and_true]
    rcases branch with opcode | opcode | opcode | plain
    · rw [leaves (by simp [opcode])]
      cases always : (Instruction.decode address word).alwaysTaken <;>
        simp [Instruction.transfer, Instruction.isConditional, Instruction.branchTargets, opcode,
          single opcode, always, exists_or]
    · rw [leaves (by simp [opcode])]
      cases linked : (Instruction.decode address word).lk <;>
        cases always : (Instruction.decode address word).alwaysTaken <;>
          simp [Instruction.transfer, Instruction.isConditional, Instruction.branchTargets, opcode,
            linked, always]
    · rw [leaves (by simp [opcode])]
      cases linked : (Instruction.decode address word).lk <;>
        cases always : (Instruction.decode address word).alwaysTaken <;>
          simp [Instruction.transfer, Instruction.isConditional, Instruction.branchTargets, opcode,
            linked, always, exists_or]
    · rcases plain with opcode | opcode | opcode | opcode | opcode | opcode | opcode <;>
        simp [Instruction.transfer, Instruction.isConditional, Instruction.branchTargets,
          Flow.leavesArm, opcode]
  · simp [exits, Instruction.effects_transfer, transfer, none, Instruction.passesOn, stays]

theorem mem_distinct {place : Nat} (places seen : List Nat) :
    place ∈ places.foldl (fun seen place => if seen.contains place then seen
      else seen ++ [place]) seen ↔ place ∈ seen ∨ place ∈ places := by
  induction places generalizing seen with
  | nil => simp
  | cons first rest ih =>
      rw [List.foldl_cons, ih]
      split
      next known =>
        have member : first ∈ seen := by simpa using known
        simp only [List.mem_cons]
        grind
      next => simp [or_assoc]

theorem mem_successors {layout : Layout} {index place : Nat} :
    place ∈ layout.successors index ↔
      ∃ edge ∈ layout.edges, edge.source = index ∧ edge.target = place := by
  simp only [successors, mem_distinct, List.not_mem_nil, false_or, List.mem_map, List.mem_filter,
    beq_iff_eq, and_assoc]

theorem mem_edgesFrom {node : FunctionNode} {blocks : List Block} {source : Nat} {block : Block}
    {edge : Edge} :
    edge ∈ edgesFrom node blocks source block ↔
      edge.source = source ∧ ∃ last, block.last? = some last ∧ ∃ address,
        (address, edge.kind) ∈ exits node block last ∧
          indexOf? blocks address = some edge.target := by
  unfold edgesFrom
  cases block.last? with
  | none => simp
  | some last =>
      simp only [List.mem_filterMap, Option.map_eq_some_iff, Prod.exists, Option.some.injEq,
        exists_eq_left']
      constructor
      · rintro ⟨address, kind, exit, target, place, rfl⟩
        exact ⟨rfl, address, exit, place⟩
      · rintro ⟨rfl, address, exit, place⟩
        exact ⟨address, edge.kind, exit, edge.target, place, rfl⟩

theorem mem_edgesOf {node : FunctionNode} {blocks : List Block} {edge : Edge} :
    edge ∈ edgesOf node blocks ↔ ∃ block, blocks[edge.source]? = some block ∧
      edge ∈ edgesFrom node blocks edge.source block := by
  simp only [edgesOf, List.mem_flatMap, Prod.exists, List.mk_mem_zipIdx_iff_getElem?]
  constructor
  · rintro ⟨block, source, here, member⟩
    obtain rfl := (mem_edgesFrom.mp member).1
    exact ⟨block, here, member⟩
  · rintro ⟨block, here, member⟩
    exact ⟨block, edge.source, here, member⟩

theorem indexOf?_block {blocks : List Block} {address : UInt32} {place : Nat}
    (found : indexOf? blocks address = some place) :
    ∃ block, blocks[place]? = some block ∧ block.start = address := by
  obtain ⟨bound, here, _⟩ := List.findIdx?_eq_some_iff_getElem.mp found
  exact ⟨blocks[place], List.getElem?_eq_getElem bound, by simpa using here⟩

theorem exists_indexOf? {layout : Layout} {address : UInt32} (label : layout.isLabel address) :
    ∃ place, indexOf? layout.blocks address = some place := by
  obtain ⟨block, member, start⟩ := exists_of_isLabel label
  apply Option.isSome_iff_exists.mp
  rw [indexOf?, List.findIdx?_isSome, List.any_eq_true]
  exact ⟨block, member, by simpa using start⟩

/-- The edges of a layout lead from a block to all labels where its last instruction may go. -/
theorem leadsTo_build {graph : Graph} {node : FunctionNode} {instructions : List Instruction}
    {config : Config} {index : Nat} {block : Block}
    (here : (build graph node instructions config).blocks[index]? = some block)
    {address : UInt32} :
    (build graph node instructions config).LeadsTo index address ↔
      (build graph node instructions config).isLabel address ∧
        ∃ last, block.last? = some last ∧ ∃ kind, (address, kind) ∈ exits node block last := by
  constructor
  · rintro ⟨place, successor, target, found, rfl⟩
    obtain ⟨edge, member, rfl, rfl⟩ := mem_successors.mp successor
    obtain ⟨source, atSource, leaving⟩ := mem_edgesOf.mp member
    obtain rfl : source = block := Option.some.inj (atSource.symm.trans here)
    obtain ⟨_, last, atEnd, address, exit, goal⟩ := mem_edgesFrom.mp leaving
    obtain ⟨other, atGoal, start⟩ := indexOf?_block goal
    obtain rfl : target = other := Option.some.inj (found.symm.trans atGoal)
    rw [start]
    refine ⟨(isLabel_iff (build_ascends graph node instructions config)).mpr ⟨target, ?_, start⟩,
      last, atEnd, edge.kind, exit⟩
    exact List.mem_of_getElem? found
  · rintro ⟨label, last, atEnd, kind, exit⟩
    obtain ⟨place, found⟩ := exists_indexOf? label
    obtain ⟨target, atPlace, start⟩ := indexOf?_block found
    refine ⟨place, mem_successors.mpr ⟨{ source := index, target := place, kind }, ?_, rfl, rfl⟩,
      target, atPlace, start⟩
    exact mem_edgesOf.mpr ⟨block, here, mem_edgesFrom.mpr
      ⟨rfl, last, atEnd, address, exit, found⟩⟩

end Layout

/-! ## Transfers -/

/-- The code of an arm has a transfer to a label. -/
def Arm.GoesTo (arm : Arm) (address : UInt32) : Prop :=
  ∃ stmt ∈ arm.body, Exit.goto address ∈ stmt.exits

namespace Flow

variable {flow : Flow}

/-- A recorded call says of a branch what the branch says itself. -/
theorem targetOf_eq {program : Program}
    (recorded : ∀ call ∈ flow.node.calls, program.Records call) {insn : Instruction}
    {word : UInt32} (read : program.image.read? insn.address = some word)
    (decoded : insn = Instruction.decode insn.address word) :
    flow.targetOf insn = insn.target := by
  unfold targetOf
  cases found : flow.node.callAt? insn.address with
  | none => rfl
  | some call =>
      have site : call.site = insn.address := by simpa using List.find?_some found
      cases known : call.target with
      | none => simp [known]
      | some target =>
          obtain ⟨other, atSite, branch⟩ :=
            recorded call (List.mem_of_find?_eq_some found) target known
          rw [site] at atSite
          obtain ⟨otherWord, otherRead, _, rfl, _⟩ := Program.instruction?_eq_some.mp atSite
          obtain rfl : word = otherWord := Option.some.inj (read.symm.trans otherRead)
          rw [← decoded] at branch
          simp [known, branch]

theorem destinations_eq {table : Option JumpTable} {insn : Instruction}
    (agrees : flow.targetOf insn = insn.target) :
    flow.destinations table insn = insn.branchTargets table := by
  unfold destinations Instruction.branchTargets
  split <;> simp_all

theorem goto_mem_blockExit {block : Block} {last : Instruction} {label : UInt32} :
    (∃ exit, flow.blockExit? block last = some exit ∧
        Exit.goto label ∈ (Stmt.transfer exit).exits) ↔
      (last.passesOn ∧ ¬ last.Halts) ∧ label = block.stop ∧ flow.layout.isLabel label := by
  unfold blockExit? Instruction.passesOn Instruction.Halts
  cases leaves : leavesArm last with
  | true => simp
  | false =>
      cases trap : last.isUnconditionalTrap with
      | true => simp [Stmt.exits]
      | false =>
          by_cases halts : last.opcode = .rfid ∨ last.isUnknown
          · rcases halts with halts | halts <;> simp [halts, Stmt.exits]
          · simp only [not_or] at halts
            simp [halts, Stmt.exits, goto_eq_exitTo]

/-- The arm of a block goes to all labels where its instructions branch, and on to the next block
if the last instruction passes on. -/
theorem goesTo_arm {instructions : List Instruction} {block : Block} {label : UInt32}
    (decoded : ∀ insn ∈ block.instructions, ∃ word, insn = Instruction.decode insn.address word)
    (plain : ∀ insn ∈ block.instructions, flow.config.hooksAt insn.address = []) :
    (flow.arm instructions block).GoesTo label ↔
      flow.layout.isLabel label ∧
        ((∃ insn ∈ block.instructions,
            label ∈ flow.destinations (flow.node.jumpTableAt? insn.address) insn) ∨
          ∃ last, block.last? = some last ∧ (last.passesOn ∧ ¬ last.Halts) ∧
            label = block.stop) := by
  constructor
  · rintro ⟨stmt, member, goes⟩
    rcases mem_emitBlock.mp member with inside | ⟨last, exit, atEnd, found, rfl⟩
    · obtain ⟨insn, among, state, written⟩ := mem_emitInstructions inside
      obtain ⟨word, same⟩ := decoded insn among
      have hookless := plain insn among
      rw [same] at written
      obtain ⟨target, label⟩ := (goto_mem_emitInstruction hookless).mp ⟨stmt, written, goes⟩
      rw [← same] at target
      exact ⟨label, Or.inl ⟨insn, among, target⟩⟩
    · obtain ⟨passes, stop, label⟩ := goto_mem_blockExit.mp ⟨exit, found, goes⟩
      exact ⟨label, Or.inr ⟨last, atEnd, passes, stop⟩⟩
  · rintro ⟨label, ⟨insn, among, target⟩ | ⟨last, atEnd, passes, stop⟩⟩
    · obtain ⟨word, same⟩ := decoded insn among
      have hookless := plain insn among
      obtain ⟨known, written⟩ := flow.emitInstruction_subset
        (fun insn => instructions.find? (·.address == insn.address + 4)) {} among
      rw [same] at target written
      obtain ⟨stmt, member, goes⟩ := (goto_mem_emitInstruction hookless).mpr ⟨target, label⟩
      exact ⟨stmt, mem_emitBlock.mpr (Or.inl (written member)), goes⟩
    · obtain ⟨exit, found, goes⟩ := goto_mem_blockExit.mpr ⟨passes, stop, label⟩
      exact ⟨.transfer exit, mem_emitBlock.mpr (Or.inr ⟨last, exit, atEnd, found, rfl⟩), goes⟩

end Flow

/-! ## Blocks of explored code -/

/-- Discovery found the code of a function and of the chunks inside of it. -/
def Graph.Explored (graph : Graph) (node : FunctionNode) : Prop :=
  node.blocks ≠ [] ∧ ∀ chunk ∈ graph.nested node, chunk.blocks ≠ []

namespace Layout

theorem mem_blocks_build {graph : Graph} {node : FunctionNode} {instructions : List Instruction}
    {config : Config} {block : Block}
    (member : block ∈ (build graph node instructions config).blocks) :
    ∃ span ∈ codeRanges node, ∃ isLabel, block ∈ blocksIn isLabel instructions span := by
  have listed := mem_blocksOf_of_build member
  rw [blocksOf_eq] at listed
  obtain ⟨span, range, inside⟩ := List.mem_flatMap.mp listed
  exact ⟨span, range, _, inside⟩

theorem runFrom_aligned {stop address : UInt32} (word : aligned address)
    {instructions : List Instruction} {insn : Instruction}
    (member : insn ∈ runFrom stop address instructions) : aligned insn.address := by
  induction instructions generalizing address with
  | nil => cases member
  | cons head rest ih =>
      simp only [runFrom] at member
      split at member
      · exact ih word member
      · split at member
        next here =>
          rcases List.mem_cons.mp member with rfl | later
          · rw [here.1]
            exact word
          · exact ih (aligned_add_four word) later
        next => cases member

end Layout

section Explored

variable {program : Program} {graph : Graph} {node : FunctionNode}

theorem Graph.Explored.codeRanges (explored : graph.Explored node)
    (straight : ∀ node ∈ graph.nodes, ∀ block ∈ node.blocks, program.Straight block)
    (member : node ∈ graph.nodes) :
    ∃ parts : List Span, (∀ part ∈ parts, program.Straight part) ∧
      Layout.codeRanges (graph.withChunks node) = Span.mergeOverlapping parts := by
  refine ⟨node.blocks ++ (graph.nested node).flatMap (Graph.rangesOf node), ?_,
    graph.codeRanges_of_blocks explored.1⟩
  intro part among
  rcases List.mem_append.mp among with own | nested
  · exact straight node member part own
  · obtain ⟨chunk, chunkMember, added⟩ := List.mem_flatMap.mp nested
    rw [Graph.rangesOf, if_neg (by simpa using explored.2 chunk chunkMember)] at added
    exact straight chunk (Graph.mem_nested.mp chunkMember).1 part added

/-- Of the parts of a joined range, one holds an instruction, also with what comes after it. -/
theorem Program.exists_part {parts : List Span} (straight : ∀ part ∈ parts, program.Straight part)
    {span : Span} (range : span ∈ Span.mergeOverlapping parts) {insn : Instruction}
    (addressWord : aligned insn.address)
    (read : ∃ word, program.image.read? insn.address = some word ∧
      insn = Instruction.decode insn.address word)
    (begins : span.start.toNat ≤ insn.address.toNat) (high : Nat)
    (above : insn.address.toNat ≤ high) (near : high ≤ insn.address.toNat + 4)
    (below : high < span.stop.toNat) :
    ∃ part ∈ parts, high < part.stop.toNat ∧ program.instruction? insn.address = some insn ∧
      (insn.endsBlock → part.stop.toNat ≤ insn.address.toNat + 4) := by
  obtain ⟨part, member, starts, stops⟩ := Span.mergeOverlapping_around range
    (show high ≤ insn.address.toNat + 3 + 1 by omega) (by omega) below
  obtain ⟨partWord, instructionAt⟩ := straight part member
  have number := aligned_iff.mp addressWord
  have partNumber := aligned_iff.mp partWord
  obtain ⟨other, found, ends⟩ := instructionAt insn.address addressWord
    (Span.contains_iff.mpr ⟨by omega, by omega⟩)
  obtain ⟨otherWord, otherRead, _, rfl, _⟩ := Program.instruction?_eq_some.mp found
  obtain ⟨word, wordRead, same⟩ := read
  obtain rfl : otherWord = word := Option.some.inj (otherRead.symm.trans wordRead)
  rw [← same] at found ends
  exact ⟨part, member, stops, found, ends⟩

/-- In explored code no instruction of a block but the last ends it, and all are known. -/
theorem Graph.Explored.block (explored : graph.Explored node)
    (straight : ∀ node ∈ graph.nodes, ∀ block ∈ node.blocks, program.Straight block)
    (unread : program.image.read? Discovery.lastWord = none) (member : node ∈ graph.nodes)
    {instructions : List Instruction} (listed : Instruction.Listed instructions)
    (read : ∀ insn ∈ instructions, ∃ word, program.image.read? insn.address = some word ∧
      insn = Instruction.decode insn.address word)
    {config : Config} {block : Block} (found : block ∈
      (Layout.build graph (graph.withChunks node) instructions config).blocks) :
    (∀ insn ∈ block.instructions.dropLast, insn.endsBlock = false) ∧
      ∀ insn ∈ block.instructions, insn.isUnknown = false := by
  obtain ⟨parts, partsStraight, ranges⟩ := explored.codeRanges straight member
  obtain ⟨span, range, isLabel, inside⟩ := Layout.mem_blocks_build found
  rw [ranges] at range
  have subset := (Layout.infix_of_mem_blocksIn inside).subset
  have startWord : aligned span.start := by
    obtain ⟨part, among, start⟩ := Span.mergeOverlapping_start range
    rw [start]
    exact (partsStraight part among).1
  have word : ∀ insn ∈ block.instructions, aligned insn.address :=
    fun insn among => Layout.runFrom_aligned startWord (subset among)
  have within : ∀ insn ∈ Layout.run instructions span,
      span.start.toNat ≤ insn.address.toNat ∧ insn.address.toNat < span.stop.toNat := by
    intro insn among
    obtain ⟨above, below⟩ := Layout.mem_runFrom listed.ordered among
    exact ⟨UInt32.le_iff_toNat_le.mp above, UInt32.lt_iff_toNat_lt.mp below⟩
  have part := fun insn (among : insn ∈ block.instructions) high =>
    Program.exists_part partsStraight range (word insn among)
      (read insn ((Layout.runFrom_sublist _ _ _).subset (subset among)))
      (within insn (subset among)).1 high
  constructor
  · intro insn early
    have among := List.mem_of_mem_dropLast early
    obtain ⟨next, nextMember, follows⟩ := Layout.exists_next inside early
    have before := (within insn (subset among)).2
    obtain ⟨_, _, _, found, _⟩ := part insn among _ (Nat.le_refl _) (by omega) before
    have room : insn.address.toNat + 4 < UInt32.size :=
      Discovery.bounded_of_unread unread { entry := insn.address, limit := span.stop } insn.address
        (word insn among) (Window.contains_iff.mpr ⟨Nat.le_refl _, before⟩) ⟨insn, found⟩
    have below := (within next nextMember).2
    rw [follows, toNat_add_four room] at below
    obtain ⟨part, _, stops, _, ends⟩ := part insn among _ (by omega) (Nat.le_refl _) below
    by_contra closing
    have := ends (by simpa using closing)
    omega
  · intro insn among
    obtain ⟨_, _, _, found, _⟩ := part insn among _ (Nat.le_refl _) (by omega)
      (within insn (subset among)).2
    obtain ⟨_, _, _, _, known⟩ := Program.instruction?_eq_some.mp found
    exact known

end Explored

/-! ## Agreement -/

namespace Flow

theorem mem_of_mem_block {flow : Flow} {instructions : List Instruction}
    (built : flow.layout = Layout.build flow.graph flow.node instructions flow.config)
    {block : Block} (member : block ∈ flow.layout.blocks) {insn : Instruction}
    (found : insn ∈ block.instructions) : insn ∈ instructions := by
  rw [built] at member
  obtain ⟨span, _, isLabel, inside⟩ := Layout.mem_blocks_build member
  exact (Layout.runFrom_sublist _ _ _).subset ((Layout.infix_of_mem_blocksIn inside).subset found)

/-- The edges of a block go to the labels at which its last instruction goes on. -/
theorem leadsTo_iff {flow : Flow} {instructions : List Instruction}
    (built : flow.layout = Layout.build flow.graph flow.node instructions flow.config)
    {index : Nat} {block : Block} (here : flow.layout.blocks[index]? = some block)
    {last : Instruction} (atEnd : block.last? = some last)
    (decoded : ∃ word, last = Instruction.decode last.address word) (address : UInt32) :
    flow.layout.LeadsTo index address ↔ flow.layout.isLabel address ∧
      (address ∈ last.branchTargets (flow.node.jumpTableAt? last.address) ∨
        last.passesOn ∧ address = block.stop) := by
  have exits : (∃ kind, (address, kind) ∈ Layout.exits flow.node block last) ↔
      address ∈ last.branchTargets (flow.node.jumpTableAt? last.address) ∨
        last.passesOn ∧ address = block.stop := by
    obtain ⟨word, same⟩ := decoded
    rw [same]
    exact Layout.mem_exits
  rw [built] at here ⊢
  rw [Layout.leadsTo_build here, atEnd]
  simp [exits]

/-- Edges and transfers, block by block, for any function whose calls agree with its code. -/
theorem goesTo_iff_leadsTo {program : Program} {flow : Flow} {instructions : List Instruction}
    (built : flow.layout = Layout.build flow.graph flow.node instructions flow.config)
    (recorded : ∀ call ∈ flow.node.calls, program.Records call)
    (read : ∀ insn ∈ instructions, ∃ word, program.image.read? insn.address = some word ∧
      insn = Instruction.decode insn.address word)
    (plain : ∀ insn ∈ instructions, flow.config.hooksAt insn.address = [])
    {index : Nat} {block : Block} (here : flow.layout.blocks[index]? = some block)
    {last : Instruction} (atEnd : block.last? = some last) (address : UInt32) :
    (flow.arm instructions block).GoesTo address ↔
      flow.layout.LeadsTo index address ∧ ¬ (last.Halts ∧ address = block.stop) ∨
        flow.layout.isLabel address ∧ ∃ insn ∈ block.instructions.dropLast,
          address ∈ insn.branchTargets (flow.node.jumpTableAt? insn.address) := by
  have among : ∀ insn ∈ block.instructions, insn ∈ instructions := fun insn found =>
    mem_of_mem_block built (List.mem_of_getElem? here) found
  have targets : ∀ insn ∈ block.instructions,
      flow.destinations (flow.node.jumpTableAt? insn.address) insn =
        insn.branchTargets (flow.node.jumpTableAt? insn.address) := by
    intro insn found
    obtain ⟨word, wordRead, same⟩ := read insn (among insn found)
    exact destinations_eq (targetOf_eq recorded wordRead same)
  have goes : (flow.arm instructions block).GoesTo address ↔ _ :=
    goesTo_arm (fun insn found => (read insn (among insn found)).imp fun _ => And.right)
      fun insn found => plain insn (among insn found)
  have leads := leadsTo_iff built here atEnd
    ((read last (among last (List.mem_of_getLast? atEnd))).imp fun _ => And.right) address
  have quiet : last.Halts → last.branchTargets (flow.node.jumpTableAt? last.address) = [] :=
    fun halts => (Instruction.halts_plain halts).2 _
  have whole : block.instructions = block.instructions.dropLast ++ [last] :=
    (List.dropLast_append_getLast? last atEnd).symm
  rw [goes, leads]
  constructor
  · rintro ⟨label, ⟨insn, found, target⟩ | ⟨other, otherEnd, ⟨passes, goesOn⟩, stop⟩⟩
    · rw [targets insn found] at target
      rw [whole] at found
      rcases List.mem_append.mp found with early | final
      · exact Or.inr ⟨label, insn, early, target⟩
      · obtain rfl := List.mem_singleton.mp final
        refine Or.inl ⟨⟨label, Or.inl target⟩, ?_⟩
        rintro ⟨halts, _⟩
        rw [quiet halts] at target
        cases target
    · obtain rfl : last = other := Option.some.inj (atEnd.symm.trans otherEnd)
      exact Or.inl ⟨⟨label, Or.inr ⟨passes, stop⟩⟩, fun both => goesOn both.1⟩
  · rintro (⟨⟨label, target | ⟨passes, stop⟩⟩, goesOn⟩ | ⟨label, insn, early, target⟩)
    · have found := List.mem_of_getLast? atEnd
      exact ⟨label, Or.inl ⟨last, found, by rwa [targets last found]⟩⟩
    · exact ⟨label, Or.inr ⟨last, atEnd, ⟨passes, fun halts => goesOn ⟨halts, stop⟩⟩, stop⟩⟩
    · have found := List.mem_of_mem_dropLast early
      exact ⟨label, Or.inl ⟨insn, found, by rwa [targets insn found]⟩⟩

/-- Where only the last instruction branches, the return from an interrupt makes the difference. -/
theorem leadsTo_iff_goesTo_iff {flow : Flow} {instructions : List Instruction}
    (built : flow.layout = Layout.build flow.graph flow.node instructions flow.config)
    {index : Nat} {block : Block} (here : flow.layout.blocks[index]? = some block)
    {lastAddress lastWord : UInt32}
    (atEnd : block.last? = some (Instruction.decode lastAddress lastWord))
    (straight : ∀ insn ∈ block.instructions.dropLast, insn.endsBlock = false)
    (known : ∀ insn ∈ block.instructions, insn.isUnknown = false)
    (goes : ∀ address, (flow.arm instructions block).GoesTo address ↔
      flow.layout.LeadsTo index address ∧
          ¬ ((Instruction.decode lastAddress lastWord).Halts ∧ address = block.stop) ∨
        flow.layout.isLabel address ∧ ∃ insn ∈ block.instructions.dropLast,
          address ∈ insn.branchTargets (flow.node.jumpTableAt? insn.address)) :
    (∀ address, flow.layout.LeadsTo index address ↔
        (flow.arm instructions block).GoesTo address) ↔
      ¬ ((Instruction.decode lastAddress lastWord).opcode = .rfid ∧
        flow.layout.isLabel block.stop) := by
  have leads := leadsTo_iff built here atEnd ⟨lastWord, rfl⟩
  constructor
  · rintro agrees ⟨interrupt, label⟩
    have edge : flow.layout.LeadsTo index block.stop :=
      (leads _).mpr ⟨label, Or.inr ⟨Instruction.passesOn_of_rfid interrupt, rfl⟩⟩
    rcases (goes _).mp ((agrees _).mp edge) with ⟨_, stays⟩ | ⟨_, insn, early, target⟩
    · exact stays ⟨Or.inl interrupt, rfl⟩
    · rw [Instruction.branchTargets_of_straight (straight insn early)] at target
      cases target
  · intro fine address
    rw [goes]
    constructor
    · intro edge
      refine Or.inl ⟨edge, ?_⟩
      rintro ⟨interrupt | unknown, rfl⟩
      · exact fine ⟨interrupt, ((leads _).mp edge).1⟩
      · rw [known _ (List.mem_of_getLast? atEnd)] at unknown
        cases unknown
    · rintro (⟨edge, _⟩ | ⟨_, insn, early, target⟩)
      · exact edge
      · rw [Instruction.branchTargets_of_straight (straight insn early)] at target
        cases target

end Flow

namespace Discovery

/-- Beside the edges of its block, an arm follows the branches before the last instruction, and it
does not follow the edge to the next block where the last instruction halts. In explored code, edges
and transfers agree unless a return from an interrupt stands before another block. -/
theorem run_transfers_follow_edges (program : Program) (hints : List UInt32) (tables : List VTable)
    (config : Config) :
    let graph := (((seed program).addEntries program hints).addVTables program tables).run program
    let emitter : Program := { program with config }
    ∀ node ∈ graph.nodes, ∀ instructions, emitter.instructionsOf node = .ok instructions →
      (∀ insn ∈ instructions, config.hooksAt insn.address = []) →
      let flow := emitter.flowOf graph node instructions
      ∀ index block arm, flow.layout.blocks[index]? = some block →
        (emitter.emit graph node instructions).arms[index]? = some arm →
        ∃ last, block.last? = some last ∧
          (∀ address, arm.GoesTo address ↔
            flow.layout.LeadsTo index address ∧ ¬ (last.Halts ∧ address = block.stop) ∨
              flow.layout.isLabel address ∧ ∃ insn ∈ block.instructions.dropLast,
                address ∈ insn.branchTargets (flow.node.jumpTableAt? insn.address)) ∧
          (program.image.read? lastWord = none → graph.Explored node →
            ((∀ address, flow.layout.LeadsTo index address ↔ arm.GoesTo address) ↔
              ¬ (last.opcode = .rfid ∧ flow.layout.isLabel block.stop))) := by
  intro graph emitter node member instructions decodes plain flow index block arm here armHere
  have read : ∀ insn ∈ instructions, ∃ word, program.image.read? insn.address = some word ∧
      insn = Instruction.decode insn.address word :=
    fun insn found => Image.read_of_mem_instructions decodes found
  have listed := Image.instructions_listed decodes
  obtain rfl : flow.arm instructions block = arm := by
    rw [Program.emit_arms, List.getElem?_map, here] at armHere
    exact Option.some.inj armHere
  have recorded : ∀ call ∈ flow.node.calls, program.Records call := by
    intro call found
    change call ∈ (graph.withChunks node).calls at found
    rw [Graph.withChunks_calls] at found
    rcases List.mem_append.mp found with own | nested
    · exact run_records member own
    · obtain ⟨chunk, chunkMember, inChunk⟩ := List.mem_flatMap.mp nested
      exact run_records (Graph.mem_nested.mp chunkMember).1 inChunk
  have among := List.mem_of_getElem? here
  obtain ⟨lastAddress, lastRaw, atEnd⟩ := Layout.blocksOf_last listed
    (Layout.mem_blocksOf_of_build among)
  have goes := Flow.goesTo_iff_leadsTo rfl recorded read plain here atEnd
  refine ⟨_, atEnd, goes, ?_⟩
  intro unread explored
  obtain ⟨straight, known⟩ := explored.block (fun _ found _ => run_straight unread found) unread
    member listed read among
  exact Flow.leadsTo_iff_goesTo_iff rfl here atEnd straight known goes

/-! A branch over a return from an interrupt, to the return of the function. -/

def interruptProgram : Program where
  image := Image.ofCode 0x1000 #[0x41, 0x82, 0x00, 0x08, 0x4C, 0x00, 0x00, 0x24,
    0x4E, 0x80, 0x00, 0x20]
  config := {}

def interruptNode : FunctionNode :=
  { address := 0x1000, size := 12, authority := .discovered
    blocks := [{ start := 0x1000, stop := 0x1004 }, { start := 0x1004, stop := 0x1008 },
      { start := 0x1008, stop := 0x100C }] }

def interruptCode : List Instruction :=
  [Instruction.decode 0x1000 0x41820008, Instruction.decode 0x1004 0x4C000024,
    Instruction.decode 0x1008 0x4E800020]

theorem interruptProgram_discover :
    interruptProgram.discover [] = { nodes := [interruptNode] } := by
  change (seed interruptProgram).run interruptProgram = _
  have scanned : interruptProgram.scan 0x1000 0x100C =
      { limit := 0x100C, blocks := interruptNode.blocks } :=
    scan_of_explored (by decide) (by decide +kernel) (by decide)
  rw [run_single rfl rfl scanned (fun _ none => absurd none List.not_mem_nil)]
  · decide
  · rfl

theorem interruptProgram_layout :
    (interruptProgram.flowOf (interruptProgram.discover []) interruptNode interruptCode).layout =
      Layout.build { nodes := [interruptNode] } interruptNode interruptCode {} := by
  have plain : Graph.withChunks { nodes := [interruptNode] } interruptNode = interruptNode := by
    change { interruptNode with blocks := Span.mergeOverlapping interruptNode.blocks } = _
    rw [Span.mergeOverlapping, List.mergeSort_of_pairwise (by decide)]
    rfl
  rw [interruptProgram_discover, Program.flowOf, plain]
  rfl

/-- The layout goes on after the return from the interrupt, the code does not. -/
theorem interruptProgram_disagrees :
    interruptProgram.instructionsOf interruptNode = .ok interruptCode ∧
      ∃ block arm,
        (interruptProgram.flowOf (interruptProgram.discover []) interruptNode
          interruptCode).layout.blocks[1]? = some block ∧
        (interruptProgram.emit (interruptProgram.discover []) interruptNode
          interruptCode).arms[1]? = some arm ∧
        ¬ ∀ address,
          (interruptProgram.flowOf (interruptProgram.discover []) interruptNode
            interruptCode).layout.LeadsTo 1 address ↔ arm.GoesTo address := by
  have decodes : interruptProgram.instructionsOf interruptNode = .ok interruptCode := rfl
  have member : interruptNode ∈ (interruptProgram.discover []).nodes := by
    rw [interruptProgram_discover]
    exact List.mem_singleton_self _
  have blockHere : ((interruptProgram.flowOf (interruptProgram.discover []) interruptNode
      interruptCode).layout.blocks[1]?) =
      some { start := 0x1004, instructions := [Instruction.decode 0x1004 0x4C000024] } := by
    rw [interruptProgram_layout]
    decide +kernel
  obtain ⟨arm, armHere⟩ : ∃ arm, (interruptProgram.emit (interruptProgram.discover [])
      interruptNode interruptCode).arms[1]? = some arm := by
    rw [Program.emit_arms, List.getElem?_map, blockHere]
    exact ⟨_, rfl⟩
  refine ⟨decodes, _, arm, blockHere, armHere, ?_⟩
  obtain ⟨last, atEnd, _, explored⟩ := run_transfers_follow_edges interruptProgram [] [] {}
    interruptNode member interruptCode decodes (fun _ _ => rfl) 1 _ arm blockHere armHere
  intro agrees
  refine (explored (by decide) ⟨by decide, ?_⟩).mp agrees ⟨?_, ?_⟩
  · change ∀ chunk ∈ (interruptProgram.discover []).nested interruptNode, _
    rw [interruptProgram_discover]
    decide
  · cases atEnd
    decide +kernel
  · change ((interruptProgram.flowOf (interruptProgram.discover []) interruptNode
      interruptCode).layout.isLabel _)
    rw [interruptProgram_layout]
    decide +kernel

end Discovery

end PowerLift
