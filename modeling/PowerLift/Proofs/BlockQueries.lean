import Mathlib
import PowerLift.Proofs.GraphChanges
import PowerLift.Proofs.Layout

/-!
Questions about the blocks of functions and layouts. Searches by halves answer them as a look at all
blocks would: changes keep the blocks of a function in order and apart, and a layout arranges its
blocks by start, whatever code it is given.
-/

namespace PowerLift

/-! ## Functions -/

namespace FunctionNode

variable {node : FunctionNode}

theorem WellFormed.ascends (wellFormed : node.WellFormed) :
    Search.Ascends Span.start node.blocks :=
  List.pairwise_map.mp wellFormed.placed.sorted

/-- A block ends at or before the start of those behind it. -/
theorem WellFormed.stop_le (wellFormed : node.WellFormed) {low high : Nat} {first second : Span}
    (one : node.blocks[low]? = some first) (other : node.blocks[high]? = some second)
    (before : low < high) : first.stop ≤ second.start := by
  obtain ⟨_, rfl⟩ := List.getElem?_eq_some_iff.mp one
  obtain ⟨_, rfl⟩ := List.getElem?_eq_some_iff.mp other
  exact List.pairwise_iff_getElem.mp wellFormed.apart low high _ _ before

/-- Only the last block that starts at or before an address can contain it. -/
theorem WellFormed.blockContaining?_eq_some_iff (wellFormed : node.WellFormed) {address : UInt32}
    {span : Span} :
    node.blockContaining? address = some span ↔ span ∈ node.blocks ∧ span.contains address := by
  have reached : ∀ place : Nat,
      place < Search.partitionPoint (·.start ≤ address) node.blocks ↔
        node.blocks[place]?.any (·.start ≤ address) := fun place =>
    Search.lt_partitionPoint_iff (wellFormed.ascends.divided_le address)
  have started (place : Nat) (here : node.blocks[place]? = some span)
      (inside : span.contains address) :
      place < Search.partitionPoint (·.start ≤ address) node.blocks := by
    rw [reached, here, Option.any_some]
    exact (Bool.and_eq_true_iff.mp inside).1
  unfold blockContaining?
  split
  next first =>
    rw [first] at started
    refine ⟨fun found => absurd found (Option.some_ne_none span).symm, ?_⟩
    rintro ⟨member, inside⟩
    obtain ⟨place, here⟩ := List.mem_iff_getElem?.mp member
    exact absurd (started place here inside) (Nat.not_lt_zero place)
  next last found =>
    rw [Option.filter_eq_some_iff]
    refine and_congr_left fun inside => ⟨List.mem_of_getElem?, fun member => ?_⟩
    obtain ⟨place, here⟩ := List.mem_iff_getElem?.mp member
    have order := started place here inside
    rw [found] at order reached
    obtain ⟨other, there, before⟩ := (Option.any_eq_true _ _).mp ((reached last).mp (by omega))
    rcases Nat.lt_or_ge place last with early | late
    · -- The block would end before the last one starts, and so before the address.
      have stops := UInt32.le_trans (wellFormed.stop_le here there early) (of_decide_eq_true before)
      have below := of_decide_eq_true (Bool.and_eq_true_iff.mp inside).2
      exact absurd below (UInt32.not_lt.mpr stops)
    · obtain rfl : place = last := by omega
      exact here

theorem WellFormed.isBlockStart_iff (wellFormed : node.WellFormed) {address : UInt32} :
    node.isBlockStart address ↔ ∃ span ∈ node.blocks, span.start = address :=
  Search.placeOf?_isSome_iff wellFormed.ascends

/-- The answers about a function at an address: the block that contains it, and whether one starts
there. New blocks are put where a search by halves finds their place. -/
structure Answers (node : FunctionNode) (address : UInt32) : Prop where
  containing : ∀ span, node.blockContaining? address = some span ↔
    span ∈ node.blocks ∧ span.start ≤ address ∧ address < span.stop
  outside : node.blockContaining? address = none ↔
    ∀ span ∈ node.blocks, ¬ (span.start ≤ address ∧ address < span.stop)
  once : node.blocks.countP (·.contains address) ≤ 1
  starts : node.isBlockStart address ↔ ∃ span ∈ node.blocks, span.start = address
  before : node.blocks.takeWhile (·.start < address) =
    node.blocks.take (Search.partitionPoint (·.start < address) node.blocks)
  after : node.blocks.dropWhile (·.start < address) =
    node.blocks.drop (Search.partitionPoint (·.start < address) node.blocks)

theorem WellFormed.answers (wellFormed : node.WellFormed) (address : UInt32) :
    node.Answers address := by
  have contains (span : Span) :
      span.contains address ↔ span.start ≤ address ∧ address < span.stop := by
    simp [Span.contains]
  have divided := wellFormed.ascends.divided_lt address
  refine
    { containing := fun span => by rw [wellFormed.blockContaining?_eq_some_iff, contains]
      outside := ?_
      once := ?_
      starts := wellFormed.isBlockStart_iff
      before := (Search.take_partitionPoint divided).symm
      after := (Search.drop_partitionPoint divided).symm }
  · simp only [Option.eq_none_iff_forall_ne_some, ne_eq, wellFormed.blockContaining?_eq_some_iff,
      contains, not_and]
  · rw [List.countP_eq_length_filter]
    have distinct : (node.blocks.filter (·.contains address)).Nodup :=
      (wellFormed.ascends.imp fun less same => UInt32.ne_of_lt less (congrArg _ same)).filter _
    have only : node.blocks.filter (·.contains address) ⊆
        (node.blockContaining? address).toList := by
      intro span member
      rw [Option.mem_toList, wellFormed.blockContaining?_eq_some_iff]
      exact List.mem_filter.mp member
    refine (distinct.subperm only).length_le.trans ?_
    cases node.blockContaining? address <;> simp

end FunctionNode

/-! ## Layouts -/

namespace Layout

/-- The answers about a layout at an address: the block that starts there, and whether it is a
label. -/
structure Answers (layout : Layout) (address : UInt32) : Prop where
  starting : ∀ block, layout.blockAt? address = some block ↔
    block ∈ layout.blocks ∧ block.start = address
  elsewhere : layout.blockAt? address = none ↔ ∀ block ∈ layout.blocks, block.start ≠ address
  once : layout.starts.Nodup
  label : layout.isLabel address ↔ address ∈ layout.starts

theorem answers_of_ascends {layout : Layout} (ascends : Search.Ascends Block.start layout.blocks)
    (address : UInt32) : layout.Answers address where
  starting _ := blockAt?_eq_some_iff ascends
  elsewhere := by
    simp only [Option.eq_none_iff_forall_ne_some, ne_eq, blockAt?_eq_some_iff ascends, not_and]
  once := List.pairwise_map.mpr (ascends.imp UInt32.ne_of_lt)
  label := by
    rw [isLabel_iff ascends, starts, List.mem_map]

theorem blockAt?_eq_find? {layout : Layout} (ascends : Search.Ascends Block.start layout.blocks)
    (address : UInt32) :
    layout.blockAt? address = layout.blocks.find? (·.start == address) := by
  cases found : layout.blocks.find? (·.start == address) with
  | none =>
      refine (answers_of_ascends ascends address).elsewhere.mpr ?_
      simpa using List.find?_eq_none.mp found
  | some block =>
      exact (blockAt?_eq_some_iff ascends).mpr
        ⟨List.mem_of_find?_eq_some found, by simpa using List.find?_some found⟩

/-- Of the blocks with a start, as they come from the code ranges, the first is found. -/
theorem blockAt?_build (graph : Graph) (node : FunctionNode) (instructions : List Instruction)
    (config : Config) (address : UInt32) :
    (build graph node instructions config).blockAt? address =
      (blocksOf graph node instructions config).find? (·.start == address) := by
  rw [blockAt?_eq_find? (build_ascends graph node instructions config)]
  exact find?_arrange _ address

end Layout

/-- For all functions that changes lead to, and all layouts, the blocks that are found are those
that there are. -/
theorem block_queries_exact :
    (∀ changes : List Change, ∀ node ∈ (Change.performAll .empty changes).nodes,
      ∀ address, node.Answers address) ∧
    ∀ (graph : Graph) (node : FunctionNode) (instructions : List Instruction) (config : Config)
      (address : UInt32),
      (Layout.build graph node instructions config).Answers address ∧
      (Layout.build graph node instructions config).blockAt? address =
        (Layout.blocksOf graph node instructions config).find? (·.start == address) := by
  refine ⟨?_, ?_⟩
  · intro changes node member address
    exact ((Change.performAll_empty_wellFormed changes).nodes node member).answers address
  · intro graph node instructions config address
    exact ⟨Layout.answers_of_ascends (Layout.build_ascends graph node instructions config) address,
      Layout.blockAt?_build graph node instructions config address⟩

/-! A function whose first block is split by its second. -/

def splitChanges : List Change :=
  [.addFunction 0x1000 0 .discovered, .addBlock 0x1000 { start := 0x1000, stop := 0x1010 },
    .addBlock 0x1000 { start := 0x1008, stop := 0x1020 },
    .addBlock 0x1000 { start := 0x1020, stop := 0x1028 }]

def splitNode : FunctionNode where
  address := 0x1000
  size := 0x28
  authority := .discovered
  blocks := [{ start := 0x1000, stop := 0x1008 }, { start := 0x1008, stop := 0x1020 },
    { start := 0x1020, stop := 0x1028 }]

theorem splitNode_queries :
    splitNode ∈ (Change.performAll .empty splitChanges).nodes ∧
      splitNode.blockContaining? 0x100C = some { start := 0x1008, stop := 0x1020 } ∧
      splitNode.blockContaining? 0x1028 = none ∧ splitNode.isBlockStart 0x1020 := by
  have member : splitNode ∈ (Change.performAll .empty splitChanges).nodes := by decide
  have answers := block_queries_exact.1 splitChanges splitNode member
  exact ⟨member, ((answers 0x100C).containing _).mpr (by decide),
    (answers 0x1028).outside.mpr (by decide),
    (answers 0x1020).starts.mpr ⟨{ start := 0x1020, stop := 0x1028 }, by decide, rfl⟩⟩

end PowerLift
