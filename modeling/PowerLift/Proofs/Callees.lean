import Mathlib
import PowerLift.Proofs.Runs
import PowerLift.Proofs.Scanned
import PowerLift.Proofs.Transfers

/-!
Which functions have code. A function that stands alone is called by its name, but it gets code
only if all words of its range are mapped. The main result says that a call by name has its
function exactly then.
-/

namespace PowerLift

/-! ## Functions with code -/

namespace Program

theorem mem_emitAll {program : Program} {graph : Graph} {function : EmittedFunction} :
    function ∈ program.emitAll graph ↔
      ∃ node ∈ graph.nodes, graph.standsAlone node ∧ ∃ instructions,
        program.instructionsOf node = .ok instructions ∧
          function = program.emit graph node instructions := by
  have emitted : ∀ node, (program.emitFunction graph node).toOption = some function ↔
      ∃ instructions, program.instructionsOf node = .ok instructions ∧
        function = program.emit graph node instructions := by
    intro node
    unfold emitFunction
    cases program.instructionsOf node with
    | error => simp [bind, Except.bind, Except.toOption]
    | ok instructions => simp [bind, Except.bind, pure, Except.pure, Except.toOption, eq_comm]
  simp only [emitAll, List.mem_filterMap, List.mem_filter, emitted, and_assoc]

/-- A function that stands alone has code iff its range is mapped. -/
theorem exists_emitted_iff {program : Program} {graph : Graph} (ordered : graph.Ordered)
    {target : UInt32} {name : String} (called : graph.calledAs? target = some name) :
    (∃ callee ∈ program.emitAll graph, callee.address = target ∧ callee.name = name) ↔
      ∃ node ∈ graph.function? target, program.image.Mapped node.address node.stop := by
  obtain ⟨node, found, rfl⟩ := Option.map_eq_some_iff.mp called
  obtain ⟨found, alone⟩ := Option.filter_eq_some_iff.mp found
  obtain ⟨member, here⟩ := Graph.of_function? found
  constructor
  · rintro ⟨callee, emitted, address, _⟩
    obtain ⟨other, otherMember, _, instructions, decodes, rfl⟩ := mem_emitAll.mp emitted
    have same : graph.function? target = some other := by
      rw [← address]
      exact ordered.function?_of_mem otherMember
    exact ⟨other, same, Image.instructions_isOk_iff.mp ⟨instructions, decodes⟩⟩
  · rintro ⟨other, same, mapped⟩
    obtain rfl : node = other := Option.some.inj (found.symm.trans same)
    obtain ⟨instructions, decodes⟩ := Image.instructions_isOk_iff.mpr mapped
    exact ⟨program.emit graph node instructions,
      mem_emitAll.mpr ⟨node, member, alone, instructions, decodes, rfl⟩, here, rfl⟩

theorem emitAll_guests {program : Program} {graph : Graph} {caller : EmittedFunction}
    (emitted : caller ∈ program.emitAll graph) {arm : Arm} (among : arm ∈ caller.arms)
    {stmt : Stmt} (member : stmt ∈ arm.body) {name : String} (named : name ∈ stmt.guests) :
    ∃ target, graph.calledAs? target = some name := by
  obtain ⟨node, _, _, instructions, _, rfl⟩ := mem_emitAll.mp emitted
  rw [emit_arms] at among
  obtain ⟨block, _, rfl⟩ := List.mem_map.mp among
  have inBlock : stmt ∈ ((program.flowOf graph node instructions).emitBlock _ block).stmts := member
  exact Flow.emitBlock_guests inBlock named

end Program

/-! ## Calls by name -/

namespace Discovery

/-- A call by name is the call of a function of the graph that stands alone. That function has
code iff every word of its range is mapped. -/
theorem run_defines_callee_iff (program : Program) (hints : List UInt32) (tables : List VTable) :
    let graph := (((seed program).addEntries program hints).addVTables program tables).run program
    ∀ caller ∈ program.emitAll graph, ∀ arm ∈ caller.arms, ∀ stmt ∈ arm.body,
      ∀ name ∈ stmt.guests, (∃ target, graph.calledAs? target = some name) ∧
        ∀ target, graph.calledAs? target = some name →
          ((∃ callee ∈ program.emitAll graph, callee.address = target ∧ callee.name = name) ↔
            ∃ node ∈ graph.function? target,
              program.image.Mapped node.address node.stop) := by
  intro graph caller emitted arm among stmt member name named
  refine ⟨Program.emitAll_guests emitted among member named, ?_⟩
  intro target called
  exact Program.exists_emitted_iff (run_ordered program hints tables) called

/-! A function with a call to the next, which is declared longer than the image is. -/

def danglingProgram : Program where
  image := Image.ofCode 0x1000 #[0x48, 0x00, 0x00, 0x09, 0x4E, 0x80, 0x00, 0x20,
    0x4E, 0x80, 0x00, 0x20]
  config := { functions := [{ address := 0x1008, key := "0x1008", size := some 16 }] }

def danglingCaller : FunctionNode :=
  { address := 0x1000, size := 8, authority := .discovered
    blocks := [{ start := 0x1000, stop := 0x1008 }], calls := [Call.direct 0x1000 0x1008] }

def danglingCallee : FunctionNode :=
  { address := 0x1008, size := 16, authority := .configured
    blocks := [{ start := 0x1008, stop := 0x100C }] }

def danglingScans : List (UInt32 × Scan) :=
  [(0x1000,
      { limit := 0x1008, blocks := danglingCaller.blocks, calls := danglingCaller.calls
        newEntries := [0x1008] }),
    (0x1008, { limit := 0x100C, blocks := danglingCallee.blocks })]

theorem danglingProgram_discover :
    danglingProgram.discover [] = { nodes := [danglingCaller, danglingCallee] } := by
  change (seed danglingProgram).run danglingProgram = _
  have caller : danglingProgram.scan 0x1000 0x1008 = (danglingScans[0]).2 :=
    scan_of_explored (by decide) (by decide +kernel) (List.pairwise_singleton _ _)
  have callee : danglingProgram.scan 0x1008 0x100C = (danglingScans[1]).2 :=
    scan_of_explored (by decide) (by decide +kernel) (List.pairwise_singleton _ _)
  have seeded : seed danglingProgram =
      { entries := [0x1000, 0x1008], boundaries := [0x1000, 0x1008] } := rfl
  have scanned : ([0x1000, 0x1008].map fun entry => (entry, danglingProgram.scan entry
      (limitOf danglingProgram { entries := [0x1000, 0x1008], boundaries := [0x1000, 0x1008] }
        entry))) = danglingScans := by
    change [(_, danglingProgram.scan 0x1000 0x1008), (_, danglingProgram.scan 0x1008 0x100C)] = _
    rw [caller, callee]
    rfl
  rw [run_of_known seeded scanned]
  · decide
  · exact List.forall_mem_singleton.mpr rfl
  · rfl

theorem danglingProgram_valid : danglingProgram.config.validate.valid := by
  have ranges := Config.ranges_of_sorted (show (Config.firstPerAddress
    danglingProgram.config.functions).Pairwise _ by decide)
  rw [Config.validate, Report.valid, Config.errors, ranges]
  decide

/-- The callee is declared longer than the code, so it has no code although it is called. -/
theorem danglingProgram_lacks_callee :
    danglingProgram.config.validate.valid ∧
      (∃ caller ∈ danglingProgram.emitAll (danglingProgram.discover []), ∃ arm ∈ caller.arms,
        ∃ stmt ∈ arm.body, "sub_00001008" ∈ stmt.guests) ∧
      (danglingProgram.discover []).calledAs? 0x1008 = some "sub_00001008" ∧
      ¬ ∃ callee ∈ danglingProgram.emitAll (danglingProgram.discover []),
        callee.address = 0x1008 ∧ callee.name = "sub_00001008" := by
  have calls : ∃ caller ∈ danglingProgram.emitAll (danglingProgram.discover []),
      ∃ arm ∈ caller.arms, ∃ stmt ∈ arm.body, "sub_00001008" ∈ stmt.guests := by
    rw [danglingProgram_discover]
    decide +kernel
  have called : (danglingProgram.discover []).calledAs? 0x1008 = some "sub_00001008" := by
    rw [danglingProgram_discover]
    decide +kernel
  refine ⟨danglingProgram_valid, calls, called, ?_⟩
  obtain ⟨caller, emitted, arm, among, stmt, member, named⟩ := calls
  have code := (run_defines_callee_iff danglingProgram [] [] caller emitted arm among stmt member
    _ named).2 0x1008 called
  intro defined
  obtain ⟨node, found, mapped⟩ := code.mp defined
  change node ∈ (danglingProgram.discover []).function? 0x1008 at found
  rw [danglingProgram_discover] at found
  obtain rfl : danglingCallee = node := Option.some.inj found
  revert mapped
  decide

end Discovery

end PowerLift
