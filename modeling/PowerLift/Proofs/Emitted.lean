import Mathlib
import PowerLift.Proofs.Callees
import PowerLift.Proofs.Extents

/-!
Which functions are emitted. A function that discovery gave its extent can always be decoded, so it
gets code of its own unless it is a chunk inside of its parent.
-/

namespace PowerLift

/-- Only a chunk inside of its parent does not stand alone. -/
theorem Graph.Ordered.standsAlone_iff {graph : Graph} (ordered : graph.Ordered)
    {node : FunctionNode} :
    graph.standsAlone node ↔
      ¬ ∃ parent ∈ graph.nodes, node.parent = some parent.address ∧
        parent.contains node.address := by
  unfold standsAlone
  cases chunk : node.parent with
  | none => simp
  | some address =>
      rw [Option.bind_some]
      cases found : graph.function? address with
      | none =>
          refine iff_of_true rfl ?_
          rintro ⟨parent, member, same, _⟩
          rw [Option.some.inj same, ordered.function?_of_mem member] at found
          cases found
      | some parent =>
          obtain ⟨member, here⟩ := of_function? found
          constructor
          · rintro outside ⟨other, otherMember, same, inside⟩
            rw [Option.some.inj same, ordered.function?_of_mem otherMember] at found
            rw [Option.some.inj found] at inside
            simp [inside] at outside
          · intro outside
            rw [Bool.not_eq_true', ← Bool.not_eq_true]
            exact fun inside => outside ⟨parent, member, by rw [here], inside⟩

/-- A function has code iff it stands alone and its range is mapped. -/
theorem Program.exists_emitted_at_iff {program : Program} {graph : Graph}
    (ordered : graph.Ordered) {node : FunctionNode} (member : node ∈ graph.nodes) :
    (∃ function ∈ program.emitAll graph, function.address = node.address) ↔
      graph.standsAlone node ∧ program.image.Mapped node.address node.stop := by
  constructor
  · rintro ⟨function, emitted, address⟩
    obtain ⟨other, otherMember, alone, instructions, decodes, rfl⟩ := mem_emitAll.mp emitted
    obtain rfl : other = node := by
      have found := ordered.function?_of_mem otherMember
      rw [show other.address = node.address from address, ordered.function?_of_mem member] at found
      exact (Option.some.inj found).symm
    exact ⟨alone, Image.instructions_isOk_iff.mp ⟨instructions, decodes⟩⟩
  · rintro ⟨alone, mapped⟩
    obtain ⟨instructions, decodes⟩ := Image.instructions_isOk_iff.mpr mapped
    exact ⟨_, mem_emitAll.mpr ⟨node, member, alone, instructions, decodes, rfl⟩, rfl⟩

namespace Discovery

/-- The range of every function with a discovered extent can be decoded, holes between its blocks
included. So it has code, unless it is a chunk inside of its parent. -/
theorem run_emits_discovered (program : Program) (hints : List UInt32) (tables : List VTable)
    (apart : program.image.sections.Pairwise fun first second =>
      ∀ address, first.contains address → ¬ second.contains address) :
    let graph := (((seed program).addEntries program hints).addVTables program tables).run program
    ∀ node ∈ graph.nodes, node.authority = .discovered →
      (∃ instructions, program.instructionsOf node = .ok instructions) ∧
        ((∃ function ∈ program.emitAll graph, function.address = node.address) ↔
          ¬ ∃ parent ∈ graph.nodes, node.parent = some parent.address ∧
            parent.contains node.address) := by
  intro graph node member discovered
  have ordered : graph.Ordered := run_ordered program hints tables
  have mapped : program.image.Mapped node.address node.stop := by
    obtain ⟨final, isFinal, same⟩ := run_final program hints tables
    exact toGraph_mapped_of_discovered isFinal apart (same ▸ member) discovered
  refine ⟨Image.instructions_isOk_iff.mpr mapped, ?_⟩
  rw [Program.exists_emitted_at_iff ordered member, ordered.standsAlone_iff]
  exact and_iff_left mapped

/-! A function that jumps over a word without an instruction. Where it goes on, the configuration
makes a chunk of it. -/

def steppedProgram : Program where
  image :=
    { container := .flat, entry := 0x1000
      sections :=
        [{ name := ".text", address := 0x1000, size := 12, executable := true
           data := #[0x48, 0x00, 0x00, 0x08, 0x00, 0x00, 0x00, 0x00, 0x4E, 0x80, 0x00, 0x20] },
         { name := ".data", address := 0x1010, size := 8, executable := false
           data := #[0x00, 0x00, 0x00, 0x01] }] }
  config := { functions :=
    [{ address := 0x1000, key := "0x1000" },
     { address := 0x1008, key := "0x1008", parent := some 0x1000 }] }

def steppedFunction : FunctionNode :=
  { address := 0x1000, size := 12, authority := .discovered
    blocks := [{ start := 0x1000, stop := 0x1004 }, { start := 0x1008, stop := 0x100C }] }

def steppedChunk : FunctionNode :=
  { address := 0x1008, size := 4, authority := .discovered
    blocks := [{ start := 0x1008, stop := 0x100C }], parent := some 0x1000 }

def steppedScans : List (UInt32 × Scan) :=
  [(0x1000, { limit := 0x100C, blocks := steppedFunction.blocks }),
    (0x1008, { limit := 0x100C, blocks := steppedChunk.blocks })]

theorem steppedProgram_run :
    (seed steppedProgram).run steppedProgram = { nodes := [steppedFunction, steppedChunk] } := by
  have function : steppedProgram.scan 0x1000 0x100C = (steppedScans[0]).2 :=
    scan_of_explored (by decide) (by decide +kernel) (by decide)
  have chunk : steppedProgram.scan 0x1008 0x100C = (steppedScans[1]).2 :=
    scan_of_explored (by decide) (by decide +kernel) (List.pairwise_singleton _ _)
  have seeded : seed steppedProgram =
      { entries := [0x1000, 0x1008], boundaries := [0x1000] } := rfl
  have scanned : ([0x1000, 0x1008].map fun entry => (entry, steppedProgram.scan entry
      (limitOf steppedProgram { entries := [0x1000, 0x1008], boundaries := [0x1000] } entry))) =
        steppedScans := by
    change [(_, steppedProgram.scan 0x1000 0x100C), (_, steppedProgram.scan 0x1008 0x100C)] = _
    rw [function, chunk]
    rfl
  rw [run_of_known seeded scanned]
  · decide
  · exact List.forall_mem_nil _
  · rfl

theorem steppedProgram_apart :
    steppedProgram.image.sections.Pairwise fun first second =>
      ∀ address, first.contains address → ¬ second.contains address := by
  refine List.pairwise_pair.mpr ?_
  intro address inside other
  simp only [Section.contains, Bool.and_eq_true, decide_eq_true_eq, UInt32.le_iff_toNat_le,
    UInt32.lt_iff_toNat_lt] at inside other
  have first : (0x100C : UInt32).toNat ≤ (0x1010 : UInt32).toNat := by decide
  change _ ∧ _ < (0x100C : UInt32).toNat at inside
  change (0x1010 : UInt32).toNat ≤ _ ∧ _ at other
  omega

/-- The function is decoded over the word that it jumps over. Its chunk is decoded too, and has no
code of its own. -/
theorem steppedProgram_emits_function :
    (∃ instructions, steppedProgram.instructionsOf steppedFunction = .ok instructions) ∧
      (∃ instructions, steppedProgram.instructionsOf steppedChunk = .ok instructions) ∧
      (∃ function ∈ steppedProgram.emitAll ((seed steppedProgram).run steppedProgram),
        function.address = 0x1000) ∧
      ¬ ∃ function ∈ steppedProgram.emitAll ((seed steppedProgram).run steppedProgram),
        function.address = 0x1008 := by
  have emits := run_emits_discovered steppedProgram [] [] steppedProgram_apart
  have graph : run steppedProgram (((seed steppedProgram).addEntries steppedProgram []).addVTables
      steppedProgram []) = { nodes := [steppedFunction, steppedChunk] } := steppedProgram_run
  rw [graph] at emits
  rw [steppedProgram_run]
  obtain ⟨decodes, code⟩ := emits steppedFunction List.mem_cons_self rfl
  obtain ⟨chunkDecodes, chunkCode⟩ :=
    emits steppedChunk (List.mem_cons_of_mem _ List.mem_cons_self) rfl
  refine ⟨decodes, chunkDecodes, code.mpr ?_, fun emitted => chunkCode.mp emitted ?_⟩
  · rintro ⟨parent, _, same, _⟩
    cases same
  · exact ⟨steppedFunction, List.mem_cons_self, rfl, by decide⟩

end Discovery

end PowerLift
