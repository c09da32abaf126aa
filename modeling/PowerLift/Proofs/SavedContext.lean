import Mathlib
import PowerLift.Proofs.Contributions
import PowerLift.Proofs.Routines
import PowerLift.Proofs.Successors
import PowerLift.Proofs.Translation

/-!
Functions that save their context for a long jump, and exception handlers, are to keep all registers
in the context. Which functions save it is decided by the calls that were recorded, while the code
is that of all words of the function. The main result says when the two agree.
-/

namespace PowerLift

/-! ## Functions -/

/-- The code of a function saves its context. -/
def EmittedFunction.SavesContext (function : EmittedFunction) : Prop :=
  ∃ arm ∈ function.arms, ∃ stmt ∈ arm.body, .setjmp ∈ stmt.routines

namespace Program

/-- The word at an address is a call that saves the context. -/
def SavesAt (program : Program) (site : UInt32) : Prop :=
  ∃ word, program.image.read? site = some word ∧
    (Instruction.decode site word).SavesContext program.config

theorem emit_saves {program : Program} {graph : Graph} {node : FunctionNode}
    {instructions : List Instruction} (decodes : program.instructionsOf node = .ok instructions)
    (recorded : ∀ call ∈ (graph.withChunks node).calls, program.Records call) :
    (program.emit graph node instructions).SavesContext ↔
      ∃ span ∈ Layout.codeRanges (graph.withChunks node),
        ∃ insn ∈ Layout.run instructions span, insn.SavesContext program.config := by
  have decoded : ∀ block ∈ (program.flowOf graph node instructions).layout.blocks,
      ∀ insn ∈ block.instructions, (∃ word, insn = Instruction.decode insn.address word) ∧
        (program.flowOf graph node instructions).targetOf insn = insn.target := by
    intro block member insn found
    have listed := Flow.mem_of_mem_block rfl member found
    obtain ⟨word, read, same⟩ := Image.read_of_mem_instructions decodes listed
    exact ⟨⟨word, same⟩, Flow.targetOf_eq recorded read same⟩
  rw [← Layout.exists_mem_blocksOf_iff, EmittedFunction.SavesContext, emit_arms,
    ← program.flowOf_blocks graph node (Image.instructions_listed decodes)]
  constructor
  · rintro ⟨arm, among, saves⟩
    obtain ⟨block, member, rfl⟩ := List.mem_map.mp among
    exact ⟨block, member, (Flow.emitBlock_saves (decoded block member)).mp saves⟩
  · rintro ⟨block, member, saves⟩
    exact ⟨_, List.mem_map_of_mem member, (Flow.emitBlock_saves (decoded block member)).mpr saves⟩

/-- A function saves its context iff it translates a word that is a call that does. -/
theorem emit_savesContext_iff {program : Program} {graph : Graph} {node : FunctionNode}
    {instructions : List Instruction} (decodes : program.instructionsOf node = .ok instructions)
    (recorded : ∀ call ∈ (graph.withChunks node).calls, program.Records call) :
    (program.emit graph node instructions).SavesContext ↔
      ∃ site, (program.emit graph node instructions).Translates site ∧ program.SavesAt site := by
  have read : ∀ span, ∀ insn ∈ Layout.run instructions span,
      ∃ word, program.image.read? insn.address = some word ∧
        insn = Instruction.decode insn.address word := by
    intro span insn inRun
    exact Image.read_of_mem_instructions decodes ((Layout.runFrom_sublist _ _ _).subset inRun)
  simp only [emit_saves decodes recorded, translates_emit decodes]
  constructor
  · rintro ⟨span, range, insn, inRun, saves⟩
    obtain ⟨word, found, same⟩ := read span insn inRun
    rw [same] at saves
    exact ⟨insn.address, ⟨span, range, insn, inRun, rfl⟩, word, found, saves⟩
  · rintro ⟨_, ⟨span, range, insn, inRun, rfl⟩, word, found, saves⟩
    obtain ⟨other, otherFound, same⟩ := read span insn inRun
    obtain rfl : other = word := Option.some.inj (otherFound.symm.trans found)
    rw [← same] at saves
    exact ⟨span, range, insn, inRun, saves⟩

theorem aligned_of_translates {program : Program} {graph : Graph} (anchored : graph.Anchored)
    (worded : graph.Worded) {node : FunctionNode} (member : node ∈ graph.nodes)
    {instructions : List Instruction} (decodes : program.instructionsOf node = .ok instructions)
    {site : UInt32} (translates : (program.emit graph node instructions).Translates site) :
    aligned site := by
  obtain ⟨span, range, insn, inRun, rfl⟩ := (translates_emit decodes).mp translates
  exact Layout.runFrom_aligned (Graph.codeRanges_start anchored worded member range).1 inRun

end Program

/-! ## Registers in the context -/

/-- No register lives in a local: none is declared, and the code names all by their slots. -/
def EmittedFunction.KeepsContext (function : EmittedFunction) : Prop :=
  function.allocation.declarations = [] ∧
    ∀ arm ∈ function.arms, ∀ stmt ∈ arm.body, ∀ register ∈ stmt.registers,
      function.policy.place register = register.contextName

@[simp] theorem LocalPolicy.isLocal_contextOnly (register : Register) :
    contextOnly.isLocal register = false := by
  cases register <;> simp [isLocal, contextOnly]

theorem Allocation.requestAll_contextOnly (registers : List Register) :
    ({ policy := .contextOnly } : Allocation).requestAll registers =
      { policy := .contextOnly } := by
  induction registers with
  | nil => rfl
  | cons register rest ih =>
      rw [requestAll, List.foldl_cons]
      have first : ({ policy := .contextOnly } : Allocation).request register =
          { policy := .contextOnly } := by
        simp [request]
      rw [first]
      exact ih

theorem EmittedFunction.keepsContext_of_contextOnly {function : EmittedFunction}
    (only : function.policy = .contextOnly) : function.KeepsContext := by
  constructor
  · rw [allocation, only, Allocation.requestAll_contextOnly]
    simp [Allocation.declarations, Allocation.declared]
  · intro _ _ _ _ register _
    simp [only, LocalPolicy.place]

/-! ## Recorded calls -/

/-- A call of the routine that saves the context is recorded in a function, or in a chunk right
inside of it. -/
def Graph.RecordsSave (graph : Graph) (node : FunctionNode) (config : Config) : Prop :=
  ∃ setjmp, config.setjmp = some setjmp ∧
    ∃ part ∈ node :: graph.nested node, ∃ call ∈ part.calls, call.target = some setjmp

theorem Graph.mem_calls_withChunks {graph : Graph} {node : FunctionNode} {call : Call} :
    call ∈ (graph.withChunks node).calls ↔
      ∃ part ∈ node :: graph.nested node, call ∈ part.calls := by
  rw [withChunks_calls, ← List.flatMap_cons, List.mem_flatMap]

theorem Graph.recordsSave_iff {graph : Graph} {node : FunctionNode} {config : Config} :
    graph.RecordsSave node config ↔
      ∃ setjmp, config.setjmp = some setjmp ∧
        (graph.withChunks node).calls.any (·.target == some setjmp) := by
  refine exists_congr fun setjmp => and_congr_right fun _ => ?_
  simp only [List.any_eq_true, mem_calls_withChunks, beq_iff_eq]
  constructor
  · rintro ⟨part, among, call, own, called⟩
    exact ⟨call, ⟨part, among, own⟩, called⟩
  · rintro ⟨call, ⟨part, among, own⟩, called⟩
    exact ⟨part, among, call, own, called⟩

namespace Program

variable {program : Program} {graph : Graph} {node : FunctionNode}

theorem policyFor_of_kept (kept : program.config.isExceptionHandler node.address ∨
      graph.RecordsSave node program.config) :
    program.policyFor (graph.withChunks node) = .contextOnly := by
  simp only [policyFor, Graph.withChunks_address]
  refine if_pos ?_
  rcases kept with handler | saves
  · simp [handler]
  · obtain ⟨setjmp, found, called⟩ := Graph.recordsSave_iff.mp saves
    simp [found, called]

theorem policyFor_of_free (plain : ¬ program.config.isExceptionHandler node.address)
    (free : ¬ graph.RecordsSave node program.config) :
    program.policyFor (graph.withChunks node) = program.config.locals := by
  simp only [policyFor, Graph.withChunks_address]
  refine if_neg ?_
  simp only [plain, Bool.or_false]
  intro saves
  apply free
  rw [Graph.recordsSave_iff]
  split at saves
  next setjmp found => exact ⟨setjmp, found, saves⟩
  next => cases saves

/-- Registers stay in the context for one of the two reasons, or where none may leave it. -/
theorem emit_keepsContext_iff {instructions : List Instruction} :
    (program.emit graph node instructions).KeepsContext ↔
      program.config.isExceptionHandler node.address ∨ graph.RecordsSave node program.config ∨
        { program.emit graph node instructions with
          policy := program.config.locals }.KeepsContext := by
  rw [← or_assoc]
  by_cases reason : program.config.isExceptionHandler node.address ∨
      graph.RecordsSave node program.config
  · have keeps : (program.emit graph node instructions).KeepsContext :=
      EmittedFunction.keepsContext_of_contextOnly (policyFor_of_kept reason)
    exact iff_of_true keeps (Or.inl reason)
  · have policy : program.config.locals = (program.emit graph node instructions).policy := by
      rw [not_or] at reason
      exact (policyFor_of_free reason.1 reason.2).symm
    simp only [reason, false_or, policy]

/-- A direct call is recorded, unless it is one of the next instruction. -/
theorem mem_calls_step (window : Window) (extent : UInt32) {site word target : UInt32}
    (calls : (Instruction.decode site word).transfer = .call)
    (direct : (Instruction.decode site word).target = some target) (away : target ≠ site + 4) :
    Call.direct site target ∈
      (program.step window extent (Instruction.decode site word)).calls := by
  have transfers : (Instruction.decode site word).transfer ≠ .none := by
    simp [calls]
  obtain ⟨noTrap, noCall, noReturn⟩ := Instruction.plain_of_transfer transfers
  have here : (Instruction.decode site word).address = site := rfl
  simp only [step, ownStep, if_neg noTrap, if_neg noCall, if_neg noReturn,
    Instruction.effects_transfer, calls, direct, here, if_neg away]
  exact List.mem_singleton_self _

end Program

namespace Discovery

/-- A call that saves the context is recorded where a block has it. -/
theorem run_recordsSave {program : Program} {hints : List UInt32} {tables : List VTable}
    {part : FunctionNode}
    (member : part ∈ ((((seed program).addEntries program hints).addVTables program tables).run
      program).nodes) {block : Span} (recorded : block ∈ part.blocks) {site : UInt32}
    (word : aligned site) (inside : block.contains site) (saves : program.SavesAt site)
    (away : program.config.setjmp ≠ some (site + 4)) :
    ∃ setjmp, program.config.setjmp = some setjmp ∧
      ∃ call ∈ part.calls, call.target = some setjmp := by
  obtain ⟨raw, read, setjmp, declared, direct, branch⟩ := saves
  obtain ⟨limit, reflects⟩ := run_reflects member
  obtain ⟨insn, extent, found, among⟩ := reflects.word block recorded site word inside
  obtain ⟨other, otherRead, _, rfl, _⟩ := Program.instruction?_eq_some.mp found
  obtain rfl : other = raw := Option.some.inj (otherRead.symm.trans read)
  have calls : (Instruction.decode site other).transfer = .call := by
    unfold Instruction.transfer
    rcases branch with call | ⟨call, _⟩ <;> rw [call]
  refine ⟨setjmp, declared, Call.direct site setjmp, among.calls ?_, rfl⟩
  apply Program.mem_calls_step _ _ calls direct
  intro next
  exact away (next ▸ declared)

/-- Exception handlers keep their registers in the context, and so does a function whose code saves
the context: unless the call is one of the next instruction, or at a word that no block has. Others
keep them there only if none of them may live in a local. -/
theorem run_keepsContext {program : Program} (valid : program.config.validate.valid)
    (hints : List UInt32) (tables : List VTable) :
    let graph := (((seed program).addEntries program hints).addVTables program tables).run program
    ∀ function ∈ program.emitAll graph, ∃ node ∈ graph.nodes, node.address = function.address ∧
      (program.config.isExceptionHandler function.address → function.KeepsContext) ∧
      (function.SavesContext ↔ ∃ site, function.Translates site ∧ program.SavesAt site) ∧
      (∀ site, function.Translates site → program.SavesAt site → ¬ function.KeepsContext →
        program.config.setjmp = some (site + 4) ∨
          ∀ part ∈ node :: graph.nested node, ∀ block ∈ part.blocks, ¬ block.contains site) ∧
      (function.KeepsContext ↔ program.config.isExceptionHandler function.address ∨
        graph.RecordsSave node program.config ∨
          { function with policy := program.config.locals }.KeepsContext) := by
  intro graph function emitted
  obtain ⟨node, member, _, instructions, decodes, rfl⟩ := Program.mem_emitAll.mp emitted
  have coherent := ((seed_coherent program).addEntries hints).addEntries (tables.flatMap (·.slots))
  have anchored : graph.Anchored := run_anchored coherent
  have worded : graph.Worded := run_worded valid hints tables
  have parts : ∀ part ∈ node :: graph.nested node, part ∈ graph.nodes := by
    intro part among
    rcases List.mem_cons.mp among with rfl | nested
    · exact member
    · exact (Graph.mem_nested.mp nested).1
  have recorded : ∀ call ∈ (graph.withChunks node).calls, program.Records call := by
    intro call among
    obtain ⟨part, inside, own⟩ := Graph.mem_calls_withChunks.mp among
    exact run_records (parts part inside) own
  refine ⟨node, member, rfl, fun handler => Program.emit_keepsContext_iff.mpr (Or.inl handler),
    Program.emit_savesContext_iff decodes recorded, ?_, Program.emit_keepsContext_iff⟩
  intro site translates saves leaves
  have word := Program.aligned_of_translates anchored worded member decodes translates
  by_contra covered
  simp only [not_or, not_forall, not_not] at covered
  obtain ⟨away, part, among, block, inPart, inside⟩ := covered
  obtain ⟨setjmp, declared, call, own, called⟩ :=
    run_recordsSave (parts part among) inPart word inside saves away
  have save : graph.RecordsSave node program.config :=
    ⟨setjmp, declared, part, among, call, own, called⟩
  exact leaves (Program.emit_keepsContext_iff.mpr (Or.inr (Or.inl save)))

/-! A declared function whose first word is no instruction. It has no blocks, so no call of it is
recorded, but all of its words have code. -/

def unseenProgram : Program where
  image := Image.ofCode 0x1000 #[0x00, 0x00, 0x00, 0x00, 0x3B, 0xE0, 0x00, 0x07,
    0x48, 0x00, 0x00, 0x09, 0x4E, 0x80, 0x00, 0x20, 0x4E, 0x80, 0x00, 0x20]
  config :=
    { functions :=
        [{ address := 0x1000, key := "0x1000", size := some 16 },
         { address := 0x1010, key := "0x1010", size := some 4 }]
      setjmp := some 0x1010
      locals := { nonVolatile := true } }

def unseenCaller : FunctionNode :=
  { address := 0x1000, size := 16, authority := .configured }

def unseenCallee : FunctionNode :=
  { address := 0x1010, size := 4, authority := .configured
    blocks := [{ start := 0x1010, stop := 0x1014 }] }

def unseenGraph : Graph :=
  { nodes := [unseenCaller, unseenCallee] }

def unseenCode : List Instruction :=
  [Instruction.decode 0x1000 0, Instruction.decode 0x1004 0x3BE00007,
    Instruction.decode 0x1008 0x48000009, Instruction.decode 0x100C 0x4E800020]

theorem unseenProgram_discover : unseenProgram.discover [] = unseenGraph := by
  change (seed unseenProgram).run unseenProgram = _
  have caller : unseenProgram.scan 0x1000 0x1010 = { limit := 0x1010 } :=
    scan_of_explored (by decide) (by decide +kernel) .nil
  have callee : unseenProgram.scan 0x1010 0x1014 =
      { limit := 0x1014, blocks := unseenCallee.blocks } :=
    scan_of_explored (by decide) (by decide +kernel) (List.pairwise_singleton _ _)
  have seeded : seed unseenProgram =
      { entries := [0x1000, 0x1010], boundaries := [0x1000, 0x1010] } := rfl
  have scanned : ([0x1000, 0x1010].map fun entry => (entry, unseenProgram.scan entry
      (limitOf unseenProgram { entries := [0x1000, 0x1010], boundaries := [0x1000, 0x1010] }
        entry))) =
      [(0x1000, { limit := 0x1010 }),
        (0x1010, { limit := 0x1014, blocks := unseenCallee.blocks })] := by
    change [(_, unseenProgram.scan 0x1000 0x1010), (_, unseenProgram.scan 0x1010 0x1014)] = _
    rw [caller, callee]
  rw [run_of_known seeded scanned]
  · decide
  · exact List.forall_mem_nil _
  · rfl

theorem unseenProgram_valid : unseenProgram.config.validate.valid := by
  have ranges := Config.ranges_of_sorted (show (Config.firstPerAddress
    unseenProgram.config.functions).Pairwise _ by decide)
  rw [Config.validate, Report.valid, Config.errors, ranges]
  decide

/-- The code saves the context while a register lives in a local. -/
theorem unseenProgram_leaves_context :
    unseenProgram.config.validate.valid ∧
      ∃ function ∈ unseenProgram.emitAll (unseenProgram.discover []),
        function.SavesContext ∧ ¬ function.KeepsContext := by
  refine ⟨unseenProgram_valid, ?_⟩
  have rules := run_keepsContext unseenProgram_valid [] []
  have graph : run unseenProgram (((seed unseenProgram).addEntries unseenProgram
      []).addVTables unseenProgram []) = unseenGraph := unseenProgram_discover
  rw [graph] at rules
  rw [unseenProgram_discover]
  have emitted : unseenProgram.emit unseenGraph unseenCaller unseenCode ∈
      unseenProgram.emitAll unseenGraph :=
    Program.mem_emitAll.mpr
      ⟨unseenCaller, List.mem_cons_self, by decide, unseenCode, rfl, rfl⟩
  obtain ⟨node, member, here, _, saves, _, keeps⟩ := rules _ emitted
  obtain rfl : node = unseenCaller := by
    have only : ∀ node ∈ unseenGraph.nodes, node.address = 0x1000 → node = unseenCaller := by
      decide
    exact only node member here
  refine ⟨_, emitted, saves.mpr ⟨0x1008, (Program.translates_emit rfl).mpr ?_, ?_⟩, ?_⟩
  · decide +kernel
  · exact ⟨0x48000009, rfl, 0x1010, rfl, by decide +kernel, Or.inl (by decide +kernel)⟩
  · rw [keeps]
    rintro (handler | ⟨_, _, part, among, call, own, _⟩ | ⟨undeclared, _⟩)
    · cases handler
    · have silent : ∀ part ∈ unseenCaller :: unseenGraph.nested unseenCaller,
          part.calls = [] := by decide
      rw [silent part among] at own
      cases own
    · revert undeclared
      decide +kernel

end Discovery

end PowerLift
