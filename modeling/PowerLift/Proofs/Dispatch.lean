import Mathlib
import PowerLift.Emit.Function
import PowerLift.Proofs.Arms
import PowerLift.Proofs.Layout
import PowerLift.Proofs.Nodes

/-!
The dispatch loop of an emitted function is closed: control that enters an arm goes on at another
arm or leaves the function.
-/

namespace PowerLift

/-- A dispatch loop whose arms are in order, name only labels that have an arm, and never run into
their end. -/
structure EmittedFunction.Closed (function : EmittedFunction) : Prop where
  ordered : function.arms.Pairwise fun first second => first.label < second.label
  lands : ∀ arm ∈ function.arms, ∀ stmt ∈ arm.body, ∀ label, Exit.goto label ∈ stmt.exits →
    ∃ target ∈ function.arms, target.label = label
  leaves : ∀ arm ∈ function.arms,
    (∃ exit, Stmt.Path arm.body (some exit)) ∧ ¬ Stmt.Path arm.body none

theorem FunctionNode.address_lt_stop {node : FunctionNode} :
    node.address < node.stop ↔
      node.size ≠ 0 ∧ node.address.toNat + node.size.toNat < 4294967296 := by
  have address := node.address.toNat_lt
  have size := node.size.toNat_lt
  rw [UInt32.lt_iff_toNat_lt, stop, UInt32.toNat_add, ne_eq, ← UInt32.toNat_inj]
  change _ ↔ ¬ node.size.toNat = 0 ∧ _
  omega

/-! ## Chunks -/

namespace Graph

theorem withChunks_address (graph : Graph) (node : FunctionNode) :
    (graph.withChunks node).address = node.address :=
  List.foldlRecOn (motive := fun (merged : FunctionNode) => merged.address = node.address) _
    (mergeChunk node) rfl fun _ same _ _ => same

theorem withChunks_size (graph : Graph) (node : FunctionNode) :
    (graph.withChunks node).size = node.size :=
  List.foldlRecOn (motive := fun (merged : FunctionNode) => merged.size = node.size) _
    (mergeChunk node) rfl fun _ same _ _ => same

theorem withChunks_stop (graph : Graph) (node : FunctionNode) :
    (graph.withChunks node).stop = node.stop := by
  rw [FunctionNode.stop, withChunks_address, withChunks_size]
  rfl

theorem codeRanges_withChunks_ordered (graph : Graph) (node : FunctionNode) :
    (Layout.codeRanges (graph.withChunks node)).Pairwise
      fun first second => first.stop.toNat ≤ second.start.toNat := by
  unfold Layout.codeRanges
  split
  · exact List.pairwise_singleton _ _
  · exact Span.mergeOverlapping_ordered _

theorem withChunks_blocks_of_empty (graph : Graph) {node : FunctionNode}
    (empty : node.blocks = []) : (graph.withChunks node).blocks = [] := by
  have merged : (((graph.chunksOf node.address).filter
      fun chunk => node.contains chunk.address).foldl (mergeChunk node) node).blocks = [] :=
    List.foldlRecOn (motive := fun (merged : FunctionNode) => merged.blocks = []) _
      (mergeChunk node) empty fun merged none chunk _ => by simp [mergeChunk, none, empty]
  simp [withChunks, merged, Span.mergeOverlapping]

theorem mergeChunk_above {node merged chunk : FunctionNode} (anchored : chunk.Anchored)
    (inside : node.contains chunk.address)
    (above : ∀ block ∈ merged.blocks, node.address ≤ block.start) :
    ∀ block ∈ (mergeChunk node merged chunk).blocks, node.address ≤ block.start := by
  simp only [FunctionNode.contains, Bool.and_eq_true, decide_eq_true_eq] at inside
  intro block member
  simp only [mergeChunk] at member
  rcases List.mem_append.mp member with former | added
  · exact above block former
  · split at added
    · cases added
    · split at added
      · obtain rfl := List.mem_singleton.mp added
        exact inside.1
      · exact UInt32.le_trans inside.1 (anchored.above block added)

/-- Where blocks are in place, a function with its chunks still begins with a block. -/
theorem withChunks_entry {graph : Graph} (anchored : graph.Anchored) {node : FunctionNode}
    (member : node ∈ graph.nodes) (found : node.blocks ≠ []) :
    ∃ span ∈ (graph.withChunks node).blocks,
      span.start = node.address ∧ span.start < span.stop := by
  obtain ⟨kept, above⟩ : node.blocks ⊆ (((graph.chunksOf node.address).filter
        fun chunk => node.contains chunk.address).foldl (mergeChunk node) node).blocks ∧
      ∀ block ∈ (((graph.chunksOf node.address).filter
        fun chunk => node.contains chunk.address).foldl (mergeChunk node) node).blocks,
          node.address ≤ block.start := by
    refine List.foldlRecOn (motive := fun (merged : FunctionNode) =>
      node.blocks ⊆ merged.blocks ∧ ∀ block ∈ merged.blocks, node.address ≤ block.start) _
      (mergeChunk node) ⟨fun _ among => among, (anchored node member).above⟩ ?_
    rintro merged ⟨kept, above⟩ chunk among
    obtain ⟨ofNode, inside⟩ := List.mem_filter.mp among
    refine ⟨fun _ block => List.mem_append_left _ (kept block), ?_⟩
    exact mergeChunk_above (anchored chunk (List.mem_filter.mp ofNode).1) inside above
  obtain ⟨first, among, here⟩ := (anchored node member).entry found
  have nonempty := (anchored node member).placed.nonempty first among
  have covered : first.contains node.address := by
    simp [Span.contains, ← here, nonempty]
  -- The joined range that contains the address cannot start before it, since none does.
  obtain ⟨span, joined, contains⟩ := Span.mergeOverlapping_contains ⟨first, kept among, covered⟩
  obtain ⟨origin, originAmong, start⟩ := Span.mergeOverlapping_start joined
  have bounds := Span.contains_iff.mp contains
  have notBefore := UInt32.le_iff_toNat_le.mp (above origin originAmong)
  rw [← start] at notBefore
  have same : span.start = node.address := UInt32.toNat_inj.mp (by omega)
  exact ⟨span, joined, same, UInt32.lt_iff_toNat_lt.mpr (by omega)⟩

end Graph

/-! ## Functions -/

/-- The arm for a block, given the instructions of the function. -/
def Flow.arm (flow : Flow) (instructions : List Instruction) (block : Block) : Arm :=
  { label := block.start
    body := (flow.emitBlock
      (fun insn => instructions.find? (·.address == insn.address + 4)) block).stmts }

namespace Program

theorem emit_arms (program : Program) (graph : Graph) (node : FunctionNode)
    (instructions : List Instruction) :
    (program.emit graph node instructions).arms =
      (program.flowOf graph node instructions).layout.blocks.map
        ((program.flowOf graph node instructions).arm instructions) := by
  simp [emit, Flow.arm]

theorem flowOf_blocks (program : Program) (graph : Graph) (node : FunctionNode)
    {instructions : List Instruction} (listed : Instruction.Listed instructions) :
    (program.flowOf graph node instructions).layout.blocks =
      Layout.blocksOf graph (graph.withChunks node) instructions program.config :=
  Layout.build_blocks graph program.config listed.ordered (graph.codeRanges_withChunks_ordered node)

theorem emit_closed (program : Program) (graph : Graph) (node : FunctionNode)
    {instructions : List Instruction} (listed : Instruction.Listed instructions) :
    (program.emit graph node instructions).Closed := by
  refine ⟨?_, ?_, ?_⟩
  · rw [emit_arms, List.pairwise_map]
    exact Layout.build_ascends graph (graph.withChunks node) instructions program.config
  · intro arm member stmt among label written
    rw [emit_arms] at member ⊢
    obtain ⟨block, _, rfl⟩ := List.mem_map.mp member
    have known := Flow.emitBlock_lands _ _ block stmt among _ written label rfl
    obtain ⟨target, targetIn, same⟩ := Layout.exists_of_isLabel known
    exact ⟨_, List.mem_map_of_mem targetIn, same⟩
  · intro arm member
    rw [emit_arms] at member
    obtain ⟨block, blockIn, rfl⟩ := List.mem_map.mp member
    obtain ⟨address, word, last⟩ := Layout.blocksOf_last listed
      (Layout.mem_blocksOf_of_build blockIn)
    have barred := Flow.emitBlock_leaves (program.flowOf graph node instructions)
      (fun insn => instructions.find? (·.address == insn.address + 4)) last
    refine ⟨?_, barred⟩
    obtain ⟨outcome, path⟩ := Stmt.exists_path
      ((program.flowOf graph node instructions).arm instructions block).body
    cases outcome with
    | none => exact absurd path barred
    | some exit => exact ⟨exit, path⟩

theorem emit_arms_of_wrapped {program : Program} {graph : Graph} {node : FunctionNode}
    {instructions : List Instruction} (decodes : program.instructionsOf node = .ok instructions)
    (wrapped : ¬ node.address < node.stop) :
    (program.emit graph node instructions).arms = [] := by
  rw [instructionsOf, Image.instructions_eq_nil wrapped] at decodes
  cases decodes
  have empty : (program.flowOf graph node []).layout.blocks = [] := by
    rw [program.flowOf_blocks graph node ⟨.nil, by simp⟩]
    simp [Layout.blocksOf, Layout.run, Layout.runFrom, Layout.divide]
  rw [emit_arms, empty, List.map_nil]

theorem emit_entry {program : Program} {graph : Graph} (anchored : graph.Anchored)
    {node : FunctionNode} (member : node ∈ graph.nodes) {instructions : List Instruction}
    (decodes : program.instructionsOf node = .ok instructions)
    (order : node.address < node.stop) :
    ∃ arm ∈ (program.emit graph node instructions).arms, arm.label = node.address := by
  obtain ⟨insn, rest, same, here⟩ := Image.instructions_head order decodes
  obtain ⟨span, range, start, nonempty⟩ : ∃ span ∈ Layout.codeRanges (graph.withChunks node),
      span.start = node.address ∧ span.start < span.stop := by
    by_cases found : node.blocks = []
    · rw [Layout.codeRanges, graph.withChunks_blocks_of_empty found]
      exact ⟨_, List.mem_singleton_self _, graph.withChunks_address node,
        by simpa [Graph.withChunks_address, Graph.withChunks_stop] using order⟩
    · obtain ⟨span, joined, start, nonempty⟩ := graph.withChunks_entry anchored member found
      refine ⟨span, ?_, start, nonempty⟩
      rw [Layout.codeRanges, if_neg (by simpa using List.ne_nil_of_mem joined)]
      exact joined
  obtain ⟨block, blockIn, blockStart⟩ := Layout.blocksOf_start graph program.config range same
    (here.trans start.symm) nonempty
  rw [emit_arms, program.flowOf_blocks graph node (Image.instructions_listed decodes)]
  exact ⟨_, List.mem_map_of_mem blockIn, blockStart.trans start⟩

/-! A function near the end of memory that jumps to itself. With a size of sixty-four kilobytes it
ends at zero, past the last address. -/

def spin (size : UInt32) : Program where
  image := Image.ofCode 0xFFFF0000 #[0x48, 0x00, 0x00, 0x00]
  config := { functions := [{ address := 0xFFFF0000, key := "0xFFFF0000", size := some size }] }

def spinScan : Scan :=
  { limit := 0xFFFF0004, blocks := [{ start := 0xFFFF0000, stop := 0xFFFF0004 }] }

def spinNode (size : UInt32) : FunctionNode :=
  { address := 0xFFFF0000, size, authority := .configured, blocks := spinScan.blocks }

section Spin

variable {size : UInt32} (chosen : size = 4 ∨ size = 0x10000)

include chosen

theorem spin_scan : (spin size).scan 0xFFFF0000 0xFFFF0004 = spinScan := by
  have explored :
      (Exploration.run (spin size) { entry := 0xFFFF0000, limit := 0xFFFF0004 }
        (scanFuel { entry := 0xFFFF0000, limit := 0xFFFF0004 })
        (Exploration.start { entry := 0xFFFF0000, limit := 0xFFFF0004 })).scan = spinScan ∧
      (Exploration.run (spin size) { entry := 0xFFFF0000, limit := 0xFFFF0004 }
        (scanFuel { entry := 0xFFFF0000, limit := 0xFFFF0004 })
        (Exploration.start { entry := 0xFFFF0000, limit := 0xFFFF0004 })).splits =
          [0xFFFF0000] := by
    rcases chosen with rfl | rfl <;> decide +kernel
  rw [Exploration.scan_eq_result (by decide), Exploration.result, explored.1, explored.2]
  simp [spinScan, Scan.splitBlocks, Scan.cutAt]

theorem spin_discover : (spin size).discover [] = { nodes := [spinNode size] } := by
  have seeded : Discovery.seed (spin size) =
      { entries := [0xFFFF0000], boundaries := [0xFFFF0000] } := by
    rcases chosen with rfl | rfl <;> rfl
  have limited : Discovery.limitOf (spin size)
      { entries := [0xFFFF0000], boundaries := [0xFFFF0000] } 0xFFFF0000 = 0xFFFF0004 := by
    rcases chosen with rfl | rfl <;> decide
  change (Discovery.seed (spin size)).run (spin size) = _
  rw [Discovery.run_single seeded limited (spin_scan chosen) (List.forall_mem_nil _)]
  · rcases chosen with rfl | rfl <;> decide
  · rcases chosen with rfl | rfl <;> rfl

end Spin

end Program

end PowerLift
