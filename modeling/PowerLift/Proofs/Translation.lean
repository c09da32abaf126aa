import Mathlib
import PowerLift.Proofs.AddressText
import PowerLift.Proofs.Callees
import PowerLift.Proofs.Extents

/-!
Which words have code. An emitted function marks every instruction that it translates with a
comment, which begins with the address. The words that are marked are those in the range of a
function that stands alone which are also in one of its blocks, or in one of a chunk right inside
of it. A chunk inside of another chunk, and what reaches past the end of the host, has no code.
-/

namespace PowerLift

/-! ## Words of a code range -/

namespace Layout

theorem mem_runFrom_head_iff {image : Image} {count : Nat} {start stop : UInt32}
    {instructions : List Instruction}
    (found : image.instructionRun count start = .ok instructions)
    (room : start.toNat + 4 * count < 4294967296 + 4) {insn : Instruction} :
    insn ∈ runFrom stop start instructions ↔
      insn ∈ instructions ∧ insn.address.toNat < stop.toNat := by
  induction count generalizing start instructions with
  | zero =>
      cases found
      simp [runFrom]
  | succ count ih =>
      have above := (Image.instructionRun_listed room found).2
      obtain ⟨word, rest, _, others, rfl⟩ := Image.instructionRun_succ_eq_ok.mp found
      have next : (start + 4).toNat = (start.toNat + 4) % 4294967296 := UInt32.toNat_add _ _
      have here : (Instruction.decode start word).address = start := rfl
      simp only [runFrom, here]
      rw [if_neg (UInt32.lt_irrefl _)]
      split
      next before =>
        have first := UInt32.lt_iff_toNat_lt.mp before.2
        rw [List.mem_cons, ih others (by omega), List.mem_cons]
        constructor
        · rintro (rfl | ⟨later, below⟩)
          · exact ⟨Or.inl rfl, first⟩
          · exact ⟨Or.inr later, below⟩
        · rintro ⟨rfl | later, below⟩
          · exact Or.inl rfl
          · exact Or.inr ⟨later, below⟩
      next past =>
        have beyond : stop.toNat ≤ start.toNat := by
          simpa [UInt32.not_lt, UInt32.le_iff_toNat_le] using past
        simp only [List.not_mem_nil, false_iff]
        rintro ⟨member, below⟩
        have := above insn member
        omega

/-- A run that starts at one of the words leaves out those before it. -/
theorem mem_runFrom_iff {image : Image} {count index : Nat} {address start stop : UInt32}
    {instructions : List Instruction}
    (found : image.instructionRun count address = .ok instructions)
    (room : address.toNat + 4 * count < 4294967296 + 4)
    (phase : start.toNat = address.toNat + 4 * index) {insn : Instruction} :
    insn ∈ runFrom stop start instructions ↔
      insn ∈ instructions ∧ start.toNat ≤ insn.address.toNat ∧
        insn.address.toNat < stop.toNat := by
  induction index generalizing count address instructions with
  | zero =>
      obtain rfl : start = address := UInt32.toNat_inj.mp (by omega)
      have above := (Image.instructionRun_listed room found).2
      rw [mem_runFrom_head_iff found room]
      exact and_congr_right fun member => (and_iff_right (above insn member)).symm
  | succ index ih =>
      cases count with
      | zero =>
          cases found
          simp [runFrom]
      | succ count =>
          obtain ⟨word, rest, _, others, rfl⟩ := Image.instructionRun_succ_eq_ok.mp found
          have next : (address + 4).toNat = (address.toNat + 4) % 4294967296 :=
            UInt32.toNat_add _ _
          have here : (Instruction.decode address word).address = address := rfl
          have before : address < start := UInt32.lt_iff_toNat_lt.mpr (by omega)
          have top := start.toNat_lt
          simp only [runFrom, here]
          rw [if_pos before, ih others (by omega) (by omega), List.mem_cons]
          constructor
          · rintro ⟨later, bounds⟩
            exact ⟨Or.inr later, bounds⟩
          · rintro ⟨rfl | later, reached, below⟩
            · rw [here] at reached
              omega
            · exact ⟨later, reached, below⟩

/-- The run of a code range holds the words that the range and the function have in common. -/
theorem exists_mem_run_iff {image : Image} {start stop : UInt32} {instructions : List Instruction}
    (found : image.instructions start stop = .ok instructions) (startWord : aligned start)
    {span : Span} (spanWord : aligned span.start) (above : start ≤ span.start)
    {address : UInt32} (word : aligned address) :
    (∃ insn ∈ run instructions span, insn.address = address) ↔
      span.contains address ∧ start.toNat ≤ address.toNat ∧ address.toNat < stop.toNat := by
  have startNumber := aligned_iff.mp startWord
  have spanNumber := aligned_iff.mp spanWord
  have number := aligned_iff.mp word
  have order := UInt32.le_iff_toNat_le.mp above
  obtain ⟨index, distance⟩ : ∃ index, span.start.toNat = start.toNat + 4 * index :=
    ⟨(span.start.toNat - start.toNat) / 4, by omega⟩
  have inRun : ∀ insn, insn ∈ run instructions span ↔ insn ∈ instructions ∧
      span.start.toNat ≤ insn.address.toNat ∧ insn.address.toNat < span.stop.toNat := fun insn =>
    mem_runFrom_iff found (Image.wordCount_room start stop) distance
  rw [← Image.exists_mem_instructions_iff found (by omega), Span.contains_iff]
  simp only [inRun]
  constructor
  · rintro ⟨insn, ⟨member, within⟩, rfl⟩
    exact ⟨within, insn, member, rfl⟩
  · rintro ⟨within, insn, member, rfl⟩
    exact ⟨insn, ⟨member, within⟩, rfl⟩

theorem exists_mem_blocksOf_iff {graph : Graph} {node : FunctionNode}
    {instructions : List Instruction} {config : Config} {property : Instruction → Prop} :
    (∃ block ∈ blocksOf graph node instructions config, ∃ insn ∈ block.instructions,
        property insn) ↔
      ∃ span ∈ codeRanges node, ∃ insn ∈ run instructions span, property insn := by
  constructor
  · intro ⟨block, member, insn, inside, holds⟩
    obtain ⟨span, range, among⟩ := mem_blocksOf_iff.mp ⟨block, member, inside⟩
    exact ⟨span, range, insn, among, holds⟩
  · intro ⟨span, range, insn, among, holds⟩
    obtain ⟨block, member, inside⟩ := mem_blocksOf_iff.mpr ⟨span, range, among⟩
    exact ⟨block, member, insn, inside, holds⟩

end Layout

/-! ## Marked words -/

/-- The code of a function has the line that marks the translation of a word. -/
def EmittedFunction.Translates (function : EmittedFunction) (address : UInt32) : Prop :=
  ∃ arm ∈ function.arms, ∃ text, Stmt.comment (addressText address ++ ": " ++ text) ∈ arm.body

theorem Program.translates_emit {program : Program} {graph : Graph} {node : FunctionNode}
    {instructions : List Instruction} (decodes : program.instructionsOf node = .ok instructions)
    {address : UInt32} :
    (program.emit graph node instructions).Translates address ↔
      ∃ span ∈ Layout.codeRanges (graph.withChunks node),
        ∃ insn ∈ Layout.run instructions span, insn.address = address := by
  have marks : ∀ insn : Instruction,
      Flow.remark insn = addressText insn.address ++ ": " ++ insn.text := fun _ => rfl
  have held : (∃ block ∈ (program.flowOf graph node instructions).layout.blocks,
      ∃ insn ∈ block.instructions, insn.address = address) ↔
      ∃ span ∈ Layout.codeRanges (graph.withChunks node),
        ∃ insn ∈ Layout.run instructions span, insn.address = address := by
    rw [program.flowOf_blocks graph node (Image.instructions_listed decodes)]
    exact Layout.exists_mem_blocksOf_iff
  rw [← held]
  constructor
  · rintro ⟨arm, among, text, member⟩
    rw [emit_arms] at among
    obtain ⟨block, inLayout, rfl⟩ := List.mem_map.mp among
    obtain ⟨insn, inBlock, same⟩ := Flow.comment_mem_emitBlock.mp member
    rw [marks, String.append_assoc, String.append_assoc] at same
    exact ⟨block, inLayout, insn, inBlock, (address_eq_of_append same).symm⟩
  · rintro ⟨block, inLayout, insn, inBlock, rfl⟩
    refine ⟨(program.flowOf graph node instructions).arm instructions block, ?_, insn.text,
      Flow.comment_mem_emitBlock.mpr ⟨insn, inBlock, (marks insn).symm⟩⟩
    rw [emit_arms]
    exact List.mem_map_of_mem inLayout

/-! ## Words that a function holds -/

namespace Graph

/-- An address is in the code of a function or of a chunk right inside of it. All of a function
without blocks is code. -/
def Holds (graph : Graph) (node : FunctionNode) (address : UInt32) : Prop :=
  node.blocks = [] ∨
    ∃ span ∈ node.blocks ++ (graph.nested node).flatMap (rangesOf node), span.contains address

instance decidableHolds (graph : Graph) (node : FunctionNode) (address : UInt32) :
    Decidable (graph.Holds node address) :=
  inferInstanceAs (Decidable (node.blocks = [] ∨
    ∃ span ∈ node.blocks ++ (graph.nested node).flatMap (rangesOf node), span.contains address))

/-- Functions and blocks begin at words. -/
def Worded (graph : Graph) : Prop :=
  ∀ node ∈ graph.nodes, aligned node.address ∧ ∀ block ∈ node.blocks, aligned block.start

theorem contains_codeRanges_iff {graph : Graph} {node : FunctionNode} {address : UInt32}
    (inside : node.contains address) :
    (∃ span ∈ Layout.codeRanges (graph.withChunks node), span.contains address) ↔
      graph.Holds node address := by
  by_cases empty : node.blocks = []
  · rw [codeRanges_of_empty graph empty]
    exact iff_of_true ⟨_, List.mem_singleton_self _, inside⟩ (Or.inl empty)
  · rw [codeRanges_of_blocks graph empty, Span.contains_mergeOverlapping, Holds]
    simp only [empty, false_or]

theorem codeRanges_start {graph : Graph} (anchored : graph.Anchored) (worded : graph.Worded)
    {node : FunctionNode} (member : node ∈ graph.nodes) {span : Span}
    (range : span ∈ Layout.codeRanges (graph.withChunks node)) :
    aligned span.start ∧ node.address ≤ span.start := by
  obtain ⟨nodeWord, blockWords⟩ := worded node member
  by_cases empty : node.blocks = []
  · rw [codeRanges_of_empty graph empty] at range
    obtain rfl := List.mem_singleton.mp range
    exact ⟨nodeWord, UInt32.le_refl _⟩
  · rw [codeRanges_of_blocks graph empty] at range
    obtain ⟨part, among, same⟩ := Span.mergeOverlapping_start range
    rw [same]
    rcases List.mem_append.mp among with own | nested
    · exact ⟨blockWords part own, (anchored node member).above part own⟩
    · obtain ⟨chunk, chunkNested, added⟩ := List.mem_flatMap.mp nested
      obtain ⟨chunkMember, _, inside⟩ := mem_nested.mp chunkNested
      have after : node.address ≤ chunk.address := by
        simp only [FunctionNode.contains, Bool.and_eq_true, decide_eq_true_eq] at inside
        exact inside.1
      obtain ⟨chunkWord, chunkBlocks⟩ := worded chunk chunkMember
      unfold rangesOf at added
      split at added
      · obtain rfl := List.mem_singleton.mp added
        exact ⟨chunkWord, after⟩
      · exact ⟨chunkBlocks part added,
          UInt32.le_trans after ((anchored chunk chunkMember).above part added)⟩

end Graph

theorem FunctionNode.contains_iff {node : FunctionNode} {address : UInt32} :
    node.contains address ↔
      node.address.toNat ≤ address.toNat ∧ address.toNat < node.stop.toNat := by
  simp only [contains, Bool.and_eq_true, decide_eq_true_eq, UInt32.le_iff_toNat_le,
    UInt32.lt_iff_toNat_lt]

/-- A word has code iff a function that stands alone has it in its range and holds it, and the
whole range is mapped. -/
theorem Program.emitAll_translates_iff {program : Program} {graph : Graph}
    (anchored : graph.Anchored) (worded : graph.Worded) {address : UInt32}
    (word : aligned address) :
    (∃ function ∈ program.emitAll graph, function.Translates address) ↔
      ∃ host ∈ graph.nodes, graph.standsAlone host ∧
        program.image.Mapped host.address host.stop ∧ host.contains address ∧
          graph.Holds host address := by
  have marked : ∀ node ∈ graph.nodes, ∀ instructions,
      program.instructionsOf node = .ok instructions →
        ((program.emit graph node instructions).Translates address ↔
          node.contains address ∧ graph.Holds node address) := by
    intro node member instructions decodes
    rw [translates_emit decodes]
    constructor
    · rintro ⟨span, range, found⟩
      obtain ⟨spanWord, above⟩ := Graph.codeRanges_start anchored worded member range
      obtain ⟨within, bounds⟩ := (Layout.exists_mem_run_iff decodes (worded node member).1 spanWord
        above word).mp found
      have inside := FunctionNode.contains_iff.mpr bounds
      exact ⟨inside, (Graph.contains_codeRanges_iff inside).mp ⟨span, range, within⟩⟩
    · rintro ⟨inside, holds⟩
      obtain ⟨span, range, within⟩ := (Graph.contains_codeRanges_iff inside).mpr holds
      obtain ⟨spanWord, above⟩ := Graph.codeRanges_start anchored worded member range
      exact ⟨span, range, (Layout.exists_mem_run_iff decodes (worded node member).1 spanWord
        above word).mpr ⟨within, FunctionNode.contains_iff.mp inside⟩⟩
  constructor
  · rintro ⟨function, emitted, translates⟩
    obtain ⟨node, member, alone, instructions, decodes, rfl⟩ := mem_emitAll.mp emitted
    exact ⟨node, member, alone, Image.instructions_isOk_iff.mp ⟨instructions, decodes⟩,
      (marked node member instructions decodes).mp translates⟩
  · rintro ⟨host, member, alone, mapped, held⟩
    obtain ⟨instructions, decodes⟩ := Image.instructions_isOk_iff.mpr mapped
    exact ⟨program.emit graph host instructions,
      mem_emitAll.mpr ⟨host, member, alone, instructions, decodes, rfl⟩,
      (marked host member instructions decodes).mpr held⟩

namespace Discovery

theorem run_worded {program : Program} (valid : program.config.validate.valid)
    (hints : List UInt32) (tables : List VTable) :
    ((((seed program).addEntries program hints).addVTables program tables).run
      program).Worded := by
  intro node member
  constructor
  · obtain ⟨final, isFinal, same⟩ := run_final program hints tables
    rw [same] at member
    exact isFinal.aligned valid (toGraph_node isFinal valid member).1
  · obtain ⟨limit, blank, isBlank, same⟩ := run_absorbs member
    have content := congrArg FunctionNode.blocks same
    have blocks : node.blocks =
        ((program.scan node.address limit).blocks.foldl FunctionNode.addBlock blank).blocks :=
      content.trans (FunctionNode.absorb_frame (·.blocks) (fun _ _ => rfl) (fun _ _ => rfl)
        (fun _ _ => rfl) _ blank)
    obtain ⟨_, starts⟩ := FunctionNode.addBlocks_placed
      (fun block found => UInt32.lt_iff_toNat_lt.mpr (Program.scan_block found).2)
      (show FunctionNode.Placed blank.blocks by
        rw [isBlank.blocks]
        exact ⟨.nil, fun _ none => absurd none List.not_mem_nil⟩)
    intro block recorded
    have start : block.start ∈ node.blocks.map (·.start) := List.mem_map_of_mem recorded
    rw [blocks, starts, AddressSet.mem_insertAll, isBlank.blocks] at start
    rcases start with scanned | none
    · obtain ⟨found, among, same⟩ := List.mem_map.mp scanned
      rw [← same]
      exact Program.scan_start_aligned among
    · cases none

/-- With sections that are apart and configured extents that are mapped, a word has code iff a
function that stands alone has it in its range and holds it. -/
theorem run_translates_iff {program : Program} (valid : program.config.validate.valid)
    (apart : program.image.sections.Pairwise fun first second =>
      ∀ address, first.contains address → ¬ second.contains address)
    (mapped : ∀ entry ∈ program.config.functions, ∀ size ∈ entry.extent,
      program.image.Mapped entry.address (entry.address + size))
    (hints : List UInt32) (tables : List VTable) :
    let graph := (((seed program).addEntries program hints).addVTables program tables).run program
    ∀ address, aligned address →
      ((∃ function ∈ program.emitAll graph, function.Translates address) ↔
        ∃ host ∈ graph.nodes, graph.standsAlone host ∧ host.contains address ∧
          graph.Holds host address) := by
  intro graph address word
  have coherent := ((seed_coherent program).addEntries hints).addEntries (tables.flatMap (·.slots))
  have anchored : graph.Anchored := run_anchored coherent
  rw [Program.emitAll_translates_iff anchored (run_worded valid hints tables) word]
  constructor
  · rintro ⟨host, member, alone, _, held⟩
    exact ⟨host, member, alone, held⟩
  · rintro ⟨host, member, alone, held⟩
    refine ⟨host, member, alone, ?_, held⟩
    obtain ⟨final, isFinal, same⟩ := run_final program hints tables
    change host ∈ (run program _).nodes at member
    rw [same] at member
    exact toGraph_mapped isFinal valid apart mapped member

/-! Three returns, of which the last is a chunk of a chunk. -/

def chainProgram : Program where
  image := Image.ofCode 0x1000 #[0x4E, 0x80, 0x00, 0x20, 0x4E, 0x80, 0x00, 0x20,
    0x4E, 0x80, 0x00, 0x20]
  config :=
    { functions := [
        { address := 0x1000, key := "0x1000", size := some 12 },
        { address := 0x1004, key := "0x1004", size := some 8, parent := some 0x1000 },
        { address := 0x1008, key := "0x1008", size := some 4, parent := some 0x1004 }] }

def chainNode (address size : UInt32) (parent : Option UInt32) : FunctionNode :=
  { address, size, authority := .configured
    blocks := [{ start := address, stop := address + 4 }], parent }

def chainGraph : Graph :=
  { nodes := [chainNode 0x1000 12 none, chainNode 0x1004 8 (some 0x1000),
      chainNode 0x1008 4 (some 0x1004)] }

def chainScans : List (UInt32 × Scan) :=
  [0x1000, 0x1004, 0x1008].map fun entry =>
    (entry, { limit := 0x100C, blocks := [{ start := entry, stop := entry + 4 }] })

theorem chainProgram_discover : chainProgram.discover [] = chainGraph := by
  change (seed chainProgram).run chainProgram = _
  have scan : ∀ entry ∈ [(0x1000 : UInt32), 0x1004, 0x1008], chainProgram.scan entry 0x100C =
      { limit := 0x100C, blocks := [{ start := entry, stop := entry + 4 }] } := by
    refine List.forall_mem_cons.mpr ⟨?_, List.forall_mem_cons.mpr ⟨?_,
      List.forall_mem_singleton.mpr ?_⟩⟩ <;>
      exact scan_of_explored (by decide) (by decide +kernel) (List.pairwise_singleton _ _)
  have seeded : seed chainProgram =
      { entries := [0x1000, 0x1004, 0x1008], boundaries := [0x1000] } := rfl
  have scanned : ([0x1000, 0x1004, 0x1008].map fun entry => (entry, chainProgram.scan entry
      (limitOf chainProgram { entries := [0x1000, 0x1004, 0x1008], boundaries := [0x1000] }
        entry))) = chainScans := by
    change [(_, chainProgram.scan 0x1000 0x100C), (_, chainProgram.scan 0x1004 0x100C),
      (_, chainProgram.scan 0x1008 0x100C)] = _
    rw [scan 0x1000 (by simp), scan 0x1004 (by simp), scan 0x1008 (by simp)]
    rfl
  rw [run_of_known seeded scanned (fun _ none => absurd none List.not_mem_nil)]
  · decide
  · rfl

theorem chainProgram_valid : chainProgram.config.validate.valid := by
  have ranges := Config.ranges_of_sorted (show (Config.firstPerAddress
    chainProgram.config.functions).Pairwise _ by decide)
  rw [Config.validate, Report.valid, Config.errors, ranges]
  decide

/-- The last word is a block of a function, and no function has code for it. -/
theorem chainProgram_loses :
    chainProgram.config.validate.valid ∧
      (chainProgram.image.sections.Pairwise fun first second =>
        ∀ address, first.contains address → ¬ second.contains address) ∧
      (∀ entry ∈ chainProgram.config.functions, ∀ size ∈ entry.extent,
        chainProgram.image.Mapped entry.address (entry.address + size)) ∧
      (∃ node ∈ (chainProgram.discover []).nodes, ∃ block ∈ node.blocks,
        block.contains 0x1008) ∧
      ¬ ∃ function ∈ chainProgram.emitAll (chainProgram.discover []),
        function.Translates 0x1008 := by
  have apart : chainProgram.image.sections.Pairwise fun first second =>
      ∀ address, first.contains address → ¬ second.contains address := List.pairwise_singleton _ _
  have mapped : ∀ entry ∈ chainProgram.config.functions, ∀ size ∈ entry.extent,
      chainProgram.image.Mapped entry.address (entry.address + size) := by
    intro entry among size extent
    have whole : ∀ entry ∈ chainProgram.config.functions,
        chainProgram.image.Mapped entry.address (entry.address + entry.extent.getD 0) := by decide
    have here := whole entry among
    rwa [show entry.extent = some size from extent] at here
  refine ⟨chainProgram_valid, apart, mapped, ?_, ?_⟩
  · rw [chainProgram_discover]
    decide
  · intro translated
    obtain ⟨host, member, alone, inside, holds⟩ :=
      (run_translates_iff chainProgram_valid apart mapped [] [] 0x1008 (by decide)).mp translated
    change host ∈ (chainProgram.discover []).nodes at member
    change (chainProgram.discover []).standsAlone host at alone
    change (chainProgram.discover []).Holds host 0x1008 at holds
    rw [chainProgram_discover] at member alone holds
    have none : ∀ host ∈ chainGraph.nodes, chainGraph.standsAlone host →
        ¬ chainGraph.Holds host 0x1008 := by decide
    exact none host member alone holds

end Discovery

end PowerLift
