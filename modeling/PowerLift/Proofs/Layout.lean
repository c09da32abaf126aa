import Mathlib
import PowerLift.Image.Fetch
import PowerLift.Layout
import PowerLift.Proofs.Blocks
import PowerLift.Proofs.Search

/-!
The blocks of a layout start at increasing addresses and hold instructions of the image.
-/

namespace PowerLift

/-! ## Joined ranges -/

namespace Span

theorem mergeFrom_start {first : Span} {spans : List Span} {merged : Span}
    (member : merged ∈ mergeFrom first spans) :
    merged.start = first.start ∨ ∃ span ∈ spans, merged.start = span.start := by
  induction spans generalizing first with
  | nil =>
      obtain rfl := List.mem_singleton.mp member
      exact Or.inl rfl
  | cons span rest ih =>
      simp only [mergeFrom] at member
      split at member
      · exact (ih member).imp_right fun ⟨other, later, same⟩ =>
          ⟨other, List.mem_cons_of_mem _ later, same⟩
      · rcases List.mem_cons.mp member with rfl | later
        · exact Or.inl rfl
        · rcases ih later with same | ⟨other, among, same⟩
          · exact Or.inr ⟨span, List.mem_cons_self, same⟩
          · exact Or.inr ⟨other, List.mem_cons_of_mem _ among, same⟩

theorem mergeFrom_ordered {first : Span} {spans : List Span}
    (sorted : spans.Pairwise fun a b => a.start.toNat ≤ b.start.toNat) :
    (mergeFrom first spans).Pairwise fun a b => a.stop.toNat ≤ b.start.toNat := by
  induction spans generalizing first with
  | nil => exact List.pairwise_singleton _ _
  | cons span rest ih =>
      obtain ⟨below, restSorted⟩ := List.pairwise_cons.mp sorted
      simp only [mergeFrom]
      split
      · exact ih restSorted
      next apart =>
        refine List.pairwise_cons.mpr ⟨?_, ih restSorted⟩
        intro merged member
        have gap := UInt32.le_iff_toNat_le.mp (UInt32.not_lt.mp apart)
        rcases mergeFrom_start member with same | ⟨other, among, same⟩
        · rw [same]
          exact gap
        · rw [same]
          exact Nat.le_trans gap (below other among)

/-- One span is part of another. -/
def Within (inner outer : Span) : Prop :=
  outer.start ≤ inner.start ∧ inner.stop ≤ outer.stop

theorem Within.refl (span : Span) : span.Within span :=
  ⟨UInt32.le_refl _, UInt32.le_refl _⟩

theorem Within.trans {inner middle outer : Span} (one : inner.Within middle)
    (other : middle.Within outer) : inner.Within outer :=
  ⟨UInt32.le_trans other.1 one.1, UInt32.le_trans one.2 other.2⟩

theorem Within.contains {inner outer : Span} (within : inner.Within outer) {address : UInt32}
    (inside : inner.contains address) : outer.contains address := by
  obtain ⟨start, stop⟩ := within
  simp only [contains_iff, UInt32.le_iff_toNat_le] at start stop inside ⊢
  omega

theorem mergeFrom_within {first : Span} {spans : List Span}
    (sorted : (first :: spans).Pairwise fun a b => a.start.toNat ≤ b.start.toNat) :
    ∀ span ∈ first :: spans, ∃ merged ∈ mergeFrom first spans, span.Within merged := by
  induction spans generalizing first with
  | nil => exact fun span member => ⟨span, member, .refl span⟩
  | cons next rest ih =>
      obtain ⟨below, restSorted⟩ := List.pairwise_cons.mp sorted
      simp only [mergeFrom]
      split
      · have joined : ({ first with stop := max first.stop next.stop } :: rest).Pairwise
            fun a b => a.start.toNat ≤ b.start.toNat :=
          List.pairwise_cons.mpr ⟨fun other member => below other (List.mem_cons_of_mem _ member),
            (List.pairwise_cons.mp restSorted).2⟩
        obtain ⟨⟨merged, among, covers⟩, others⟩ := List.forall_mem_cons.mp (ih joined)
        have order := UInt32.le_iff_toNat_le.mpr (below next List.mem_cons_self)
        have firstPart : first.Within { first with stop := max first.stop next.stop } := by
          refine ⟨UInt32.le_refl _, ?_⟩
          rw [UInt32.le_iff_toNat_le, toNat_max]
          omega
        have nextPart : next.Within { first with stop := max first.stop next.stop } := by
          refine ⟨order, ?_⟩
          rw [UInt32.le_iff_toNat_le, toNat_max]
          omega
        exact List.forall_mem_cons.mpr ⟨⟨merged, among, firstPart.trans covers⟩,
          List.forall_mem_cons.mpr ⟨⟨merged, among, nextPart.trans covers⟩, others⟩⟩
      · refine List.forall_mem_cons.mpr ⟨⟨first, List.mem_cons_self, .refl first⟩, ?_⟩
        intro span member
        obtain ⟨merged, among, within⟩ := ih restSorted span member
        exact ⟨merged, List.mem_cons_of_mem _ among, within⟩

theorem mergeOverlapping_ordered (spans : List Span) :
    (mergeOverlapping spans).Pairwise fun a b => a.stop.toNat ≤ b.start.toNat := by
  have sorted := mergeSort_ordered spans
  unfold mergeOverlapping
  split
  · exact .nil
  next same =>
    rw [same] at sorted
    exact mergeFrom_ordered (List.pairwise_cons.mp sorted).2

theorem mergeOverlapping_start {spans : List Span} {merged : Span}
    (member : merged ∈ mergeOverlapping spans) : ∃ span ∈ spans, merged.start = span.start := by
  unfold mergeOverlapping at member
  split at member
  · cases member
  next first rest same =>
    have among (span : Span) (found : span ∈ first :: rest) : span ∈ spans := by
      rw [← same] at found
      exact List.mem_mergeSort.mp found
    rcases mergeFrom_start member with start | ⟨span, later, start⟩
    · exact ⟨first, among first List.mem_cons_self, start⟩
    · exact ⟨span, among span (List.mem_cons_of_mem _ later), start⟩

/-- Every span is part of a joined one. -/
theorem mergeOverlapping_within {spans : List Span} {span : Span} (member : span ∈ spans) :
    ∃ merged ∈ mergeOverlapping spans, span.Within merged := by
  have sorted := mergeSort_ordered spans
  have stays : span ∈ spans.mergeSort fun a b => a.start ≤ b.start :=
    List.mem_mergeSort.mpr member
  unfold mergeOverlapping
  split
  next same =>
    rw [same] at stays
    cases stays
  next first rest same =>
    rw [same] at sorted stays
    exact mergeFrom_within sorted span stays

theorem mergeOverlapping_contains {spans : List Span} {address : UInt32}
    (covered : ∃ span ∈ spans, span.contains address) :
    ∃ merged ∈ mergeOverlapping spans, merged.contains address := by
  obtain ⟨span, member, inside⟩ := covered
  obtain ⟨merged, among, within⟩ := mergeOverlapping_within member
  exact ⟨merged, among, within.contains inside⟩

end Span

/-! ## Instructions of a range -/

/-- Instructions by address, each the one that some word encodes there. -/
structure Instruction.Listed (instructions : List Instruction) : Prop where
  ordered : instructions.Pairwise fun first second => first.address < second.address
  decoded : ∀ insn ∈ instructions, ∃ address word, insn = Instruction.decode address word

namespace Image

theorem instructionRun_succ_eq_ok {image : Image} {count : Nat} {address : UInt32}
    {instructions : List Instruction} :
    image.instructionRun (count + 1) address = .ok instructions ↔
      ∃ word rest, image.read? address = some word ∧
        image.instructionRun count (address + 4) = .ok rest ∧
        instructions = Instruction.decode address word :: rest := by
  simp only [instructionRun, instruction, fetch]
  cases image.read? address with
  | none => simp [bind, Except.bind]
  | some word =>
      cases image.instructionRun count (address + 4) with
      | error => simp [bind, Except.bind, pure, Except.pure]
      | ok rest => simp [bind, Except.bind, pure, Except.pure, eq_comm]

theorem instructionRun_listed {image : Image} {count : Nat} {address : UInt32}
    {instructions : List Instruction}
    (room : address.toNat + 4 * count < 4294967296 + 4)
    (found : image.instructionRun count address = .ok instructions) :
    Instruction.Listed instructions ∧
      ∀ insn ∈ instructions, address.toNat ≤ insn.address.toNat := by
  induction count generalizing address instructions with
  | zero =>
      cases found
      exact ⟨⟨.nil, by simp⟩, by simp⟩
  | succ count ih =>
      obtain ⟨word, rest, _, onward, rfl⟩ := instructionRun_succ_eq_ok.mp found
      have later : Instruction.Listed rest ∧
          ∀ insn ∈ rest, address.toNat < insn.address.toNat := by
        cases count with
        | zero =>
            cases onward
            exact ⟨⟨.nil, by simp⟩, by simp⟩
        | succ count =>
            have next : (address + 4).toNat = address.toNat + 4 :=
              toNat_add_four (by change _ < 4294967296; omega)
            obtain ⟨listed, above⟩ := ih (by omega) onward
            exact ⟨listed, fun insn member => by have := above insn member; omega⟩
      obtain ⟨⟨ordered, decoded⟩, above⟩ := later
      refine ⟨⟨List.pairwise_cons.mpr ⟨?_, ordered⟩, ?_⟩, ?_⟩
      · intro insn member
        exact UInt32.lt_iff_toNat_lt.mpr (above insn member)
      · intro insn member
        rcases List.mem_cons.mp member with rfl | among
        · exact ⟨address, word, rfl⟩
        · exact decoded insn among
      · intro insn member
        rcases List.mem_cons.mp member with rfl | among
        · exact Nat.le_refl _
        · exact Nat.le_of_lt (above insn among)

theorem wordCount_room (start stop : UInt32) :
    start.toNat + 4 * wordCount start stop < 4294967296 + 4 := by
  have bound := stop.toNat_lt
  have origin := start.toNat_lt
  unfold wordCount
  split
  next order =>
    have below := UInt32.lt_iff_toNat_lt.mp order
    rw [toNat_sub (Nat.le_of_lt below)]
    omega
  next => omega

theorem instructions_listed {image : Image} {start stop : UInt32}
    {instructions : List Instruction}
    (found : image.instructions start stop = .ok instructions) :
    Instruction.Listed instructions :=
  (instructionRun_listed (wordCount_room start stop) found).1

theorem instructions_head {image : Image} {start stop : UInt32}
    {instructions : List Instruction} (order : start < stop)
    (found : image.instructions start stop = .ok instructions) :
    ∃ insn rest, instructions = insn :: rest ∧ insn.address = start := by
  have positive : ∃ count, wordCount start stop = count + 1 := by
    have below := UInt32.lt_iff_toNat_lt.mp order
    refine ⟨((stop - start).toNat - 1) / 4, ?_⟩
    rw [wordCount, if_pos order, toNat_sub (Nat.le_of_lt below)]
    omega
  obtain ⟨count, same⟩ := positive
  rw [Image.instructions, same] at found
  obtain ⟨word, rest, _, _, rfl⟩ := instructionRun_succ_eq_ok.mp found
  exact ⟨_, rest, rfl, rfl⟩

theorem instructions_eq_nil {image : Image} {start stop : UInt32} (order : ¬ start < stop) :
    image.instructions start stop = .ok [] := by
  rw [instructions, wordCount, if_neg order]
  rfl

end Image

/-! ## Blocks -/

namespace Layout

theorem runFrom_sublist (stop address : UInt32) (instructions : List Instruction) :
    (runFrom stop address instructions).Sublist instructions := by
  induction instructions generalizing address with
  | nil => exact .slnil
  | cons insn rest ih =>
      simp only [runFrom]
      split
      · exact (ih address).cons insn
      · split
        · exact (ih (address + 4)).cons_cons insn
        · exact List.nil_sublist _

theorem mem_runFrom {stop address : UInt32} {instructions : List Instruction}
    (ordered : instructions.Pairwise fun first second => first.address < second.address)
    {insn : Instruction} (member : insn ∈ runFrom stop address instructions) :
    address ≤ insn.address ∧ insn.address < stop := by
  induction instructions generalizing address with
  | nil => cases member
  | cons head rest ih =>
      obtain ⟨above, restOrdered⟩ := List.pairwise_cons.mp ordered
      simp only [runFrom] at member
      split at member
      · exact ih restOrdered member
      · split at member
        next here =>
          rcases List.mem_cons.mp member with rfl | later
          · exact ⟨UInt32.le_of_eq here.1.symm, here.1 ▸ here.2⟩
          · -- The word after the last address is the first one, which no later instruction has.
            have among := (runFrom_sublist _ _ rest).subset later
            exact ⟨here.1 ▸ UInt32.le_of_lt (above insn among), (ih restOrdered later).2⟩
        next => cases member

theorem divide_flatten (isLabel : UInt32 → Bool) (instructions : List Instruction) :
    (divide isLabel instructions).flatten = instructions := by
  induction instructions with
  | nil => rfl
  | cons insn rest ih =>
      simp only [divide]
      split
      next next group groups same =>
        rw [same] at ih
        split <;> simpa using ih
      next => simpa using ih

theorem divide_head (isLabel : UInt32 → Bool) (first : Instruction) (rest : List Instruction) :
    ∃ group groups, divide isLabel (first :: rest) = (first :: group) :: groups := by
  simp only [divide]
  split
  · split <;> exact ⟨_, _, rfl⟩
  · exact ⟨_, _, rfl⟩

/-- The blocks of one range. -/
def blocksIn (isLabel : UInt32 → Bool) (instructions : List Instruction) (span : Span) :
    List Block :=
  (divide isLabel (run instructions span)).filterMap toBlock?

theorem blocksOf_eq (graph : Graph) (node : FunctionNode) (instructions : List Instruction)
    (config : Config) :
    blocksOf graph node instructions config =
      (codeRanges node).flatMap
        (blocksIn (labels graph node instructions config).contains instructions) :=
  rfl

theorem mem_blocksIn {isLabel : UInt32 → Bool} {instructions : List Instruction} {span : Span}
    {block : Block} (member : block ∈ blocksIn isLabel instructions span) :
    ∃ first rest, block = { start := first.address, instructions := first :: rest } ∧
      ∀ insn ∈ first :: rest, insn ∈ run instructions span := by
  obtain ⟨group, among, found⟩ := List.mem_filterMap.mp member
  cases group with
  | nil => cases found
  | cons first rest =>
      cases found
      refine ⟨first, rest, rfl, ?_⟩
      intro insn inside
      rw [← divide_flatten isLabel (run instructions span)]
      exact List.mem_flatten.mpr ⟨_, among, inside⟩

theorem toBlock?_instructions (groups : List (List Instruction)) :
    (groups.filterMap toBlock?).flatMap (·.instructions) = groups.flatten := by
  induction groups with
  | nil => rfl
  | cons group groups ih =>
      cases group with
      | nil => exact ih
      | cons first rest =>
          rw [List.filterMap_cons, toBlock?]
          simpa using ih

theorem blocksIn_instructions (isLabel : UInt32 → Bool) (instructions : List Instruction)
    (span : Span) :
    (blocksIn isLabel instructions span).flatMap (·.instructions) = run instructions span := by
  rw [blocksIn, toBlock?_instructions, divide_flatten]

/-- The blocks of a layout hold the instructions of its code ranges. -/
theorem mem_blocksOf_iff {graph : Graph} {node : FunctionNode} {instructions : List Instruction}
    {config : Config} {insn : Instruction} :
    (∃ block ∈ blocksOf graph node instructions config, insn ∈ block.instructions) ↔
      ∃ span ∈ codeRanges node, insn ∈ run instructions span := by
  rw [← List.mem_flatMap, blocksOf_eq, List.flatMap_assoc, List.mem_flatMap]
  simp only [blocksIn_instructions]

/-- The blocks hold their instructions by address, from the first block to the last. -/
theorem blocksOf_ascends (graph : Graph) {node : FunctionNode} {instructions : List Instruction}
    (config : Config)
    (ordered : instructions.Pairwise fun first second => first.address < second.address)
    (ranges : (codeRanges node).Pairwise
      fun first second => first.stop.toNat ≤ second.start.toNat) :
    ((blocksOf graph node instructions config).flatMap (·.instructions)).Pairwise
      fun first second => first.address < second.address := by
  rw [blocksOf_eq, List.flatMap_assoc]
  simp only [blocksIn_instructions]
  refine List.pairwise_flatMap.mpr ⟨fun span _ => ?_, ranges.imp ?_⟩
  · exact ordered.sublist (runFrom_sublist _ _ _)
  · intro earlier later apart first firstIn second secondIn
    have below := UInt32.lt_iff_toNat_lt.mp (mem_runFrom ordered firstIn).2
    have above := UInt32.le_iff_toNat_le.mp (mem_runFrom ordered secondIn).1
    rw [UInt32.lt_iff_toNat_lt]
    omega

theorem blocksOf_first {graph : Graph} {node : FunctionNode} {instructions : List Instruction}
    {config : Config} {block : Block} (member : block ∈ blocksOf graph node instructions config) :
    ∃ first rest, block = { start := first.address, instructions := first :: rest } := by
  rw [blocksOf_eq] at member
  obtain ⟨span, _, among⟩ := List.mem_flatMap.mp member
  obtain ⟨first, rest, same, _⟩ := mem_blocksIn among
  exact ⟨first, rest, same⟩

theorem blocksOf_starts (graph : Graph) {node : FunctionNode} {instructions : List Instruction}
    (config : Config)
    (ordered : instructions.Pairwise fun first second => first.address < second.address)
    (ranges : (codeRanges node).Pairwise
      fun first second => first.stop.toNat ≤ second.start.toNat) :
    (blocksOf graph node instructions config).Pairwise
      fun first second => first.start < second.start := by
  have ascends := (List.pairwise_flatMap.mp (blocksOf_ascends graph config ordered ranges)).2
  refine ascends.imp_of_mem ?_
  intro first second firstIn secondIn below
  obtain ⟨firstInsn, _, rfl⟩ := blocksOf_first firstIn
  obtain ⟨secondInsn, _, rfl⟩ := blocksOf_first secondIn
  exact below firstInsn List.mem_cons_self secondInsn List.mem_cons_self

theorem blocksOf_last {graph : Graph} {node : FunctionNode} {instructions : List Instruction}
    {config : Config} (listed : Instruction.Listed instructions) {block : Block}
    (member : block ∈ blocksOf graph node instructions config) :
    ∃ address word, block.last? = some (Instruction.decode address word) := by
  rw [blocksOf_eq] at member
  obtain ⟨span, _, among⟩ := List.mem_flatMap.mp member
  obtain ⟨first, rest, rfl, inRun⟩ := mem_blocksIn among
  have last := List.getLast_mem (List.cons_ne_nil first rest)
  obtain ⟨address, word, same⟩ :=
    listed.decoded _ ((runFrom_sublist _ _ _).subset (inRun _ last))
  refine ⟨address, word, ?_⟩
  rw [← same]
  exact List.getLast?_eq_getLast_of_ne_nil (List.cons_ne_nil first rest)

theorem blocksOf_start (graph : Graph) {node : FunctionNode} {instructions : List Instruction}
    (config : Config) {span : Span} (range : span ∈ codeRanges node)
    {insn : Instruction} {rest : List Instruction} (same : instructions = insn :: rest)
    (here : insn.address = span.start) (order : span.start < span.stop) :
    ∃ block ∈ blocksOf graph node instructions config, block.start = span.start := by
  have begins : run instructions span =
      insn :: runFrom span.stop (span.start + 4) rest := by
    rw [run, same, runFrom, if_neg (by simp [here]), if_pos ⟨here, order⟩]
  obtain ⟨group, groups, divided⟩ :=
    divide_head (labels graph node instructions config).contains insn
      (runFrom span.stop (span.start + 4) rest)
  refine ⟨{ start := insn.address, instructions := insn :: group }, ?_, here⟩
  rw [blocksOf_eq]
  refine List.mem_flatMap.mpr ⟨span, range, ?_⟩
  rw [blocksIn, begins, divided]
  exact List.mem_cons_self

/-! ## Blocks by start -/

theorem mem_placeBlock {block other : Block} {blocks : List Block}
    (member : other ∈ placeBlock block blocks) : other = block ∨ other ∈ blocks := by
  induction blocks with
  | nil => exact Or.inl (List.mem_singleton.mp member)
  | cons head rest ih =>
      simp only [placeBlock] at member
      split at member
      · exact List.mem_cons.mp member
      · split at member
        · exact (List.mem_cons.mp member).imp_right (List.mem_cons_of_mem _)
        · rcases List.mem_cons.mp member with rfl | later
          · exact Or.inr List.mem_cons_self
          · exact (ih later).imp_right (List.mem_cons_of_mem _)

theorem placeBlock_ascends (block : Block) {blocks : List Block}
    (ascends : Search.Ascends Block.start blocks) :
    Search.Ascends Block.start (placeBlock block blocks) := by
  induction blocks with
  | nil => exact List.pairwise_singleton _ _
  | cons head rest ih =>
      obtain ⟨above, restAscends⟩ := List.pairwise_cons.mp ascends
      simp only [placeBlock]
      split
      next before =>
        refine List.pairwise_cons.mpr ⟨?_, ascends⟩
        refine List.forall_mem_cons.mpr ⟨before, ?_⟩
        exact fun other member => UInt32.lt_trans before (above other member)
      next notBefore =>
        split
        next same =>
          rw [← same] at above
          exact List.pairwise_cons.mpr ⟨above, restAscends⟩
        next apart =>
          refine List.pairwise_cons.mpr ⟨?_, ih restAscends⟩
          intro other member
          rcases mem_placeBlock member with rfl | among
          · exact UInt32.lt_of_le_of_ne (UInt32.not_lt.mp notBefore) (Ne.symm apart)
          · exact above other among

/-- Blocks are arranged by start whatever they are. -/
theorem arrange_ascends (blocks : List Block) : Search.Ascends Block.start (arrange blocks) := by
  induction blocks with
  | nil => exact .nil
  | cons block rest ih => exact placeBlock_ascends block ih

theorem mem_of_mem_arrange {blocks : List Block} {block : Block}
    (member : block ∈ arrange blocks) : block ∈ blocks := by
  induction blocks with
  | nil => exact member
  | cons first rest ih =>
      rcases mem_placeBlock member with rfl | later
      · exact List.mem_cons_self
      · exact List.mem_cons_of_mem _ (ih later)

theorem find?_placeBlock (block : Block) (blocks : List Block) (address : UInt32) :
    (placeBlock block blocks).find? (·.start == address) =
      (block :: blocks).find? (·.start == address) := by
  induction blocks with
  | nil => rfl
  | cons head rest ih =>
      simp only [placeBlock]
      split
      · rfl
      · split
        next same => by_cases here : block.start = address <;> simp_all
        next apart =>
          by_cases here : head.start = address
          · have other : block.start ≠ address := here ▸ apart
            simp [here, other]
          · rw [List.find?_cons_of_neg (by simpa using here), ih]
            simp [List.find?_cons, here]

/-- Of the blocks with a start, the first stays. -/
theorem find?_arrange (blocks : List Block) (address : UInt32) :
    (arrange blocks).find? (·.start == address) = blocks.find? (·.start == address) := by
  induction blocks with
  | nil => rfl
  | cons block rest ih =>
      change (placeBlock block (arrange rest)).find? _ = _
      rw [find?_placeBlock, List.find?_cons, ih, List.find?_cons]

theorem arrange_eq_self {blocks : List Block} (ascends : Search.Ascends Block.start blocks) :
    arrange blocks = blocks := by
  induction blocks with
  | nil => rfl
  | cons block rest ih =>
      obtain ⟨above, restAscends⟩ := List.pairwise_cons.mp ascends
      change placeBlock block (arrange rest) = _
      rw [ih restAscends]
      cases rest with
      | nil => rfl
      | cons head rest => exact if_pos (above head List.mem_cons_self)

/-! ## Layouts -/

theorem build_ascends (graph : Graph) (node : FunctionNode) (instructions : List Instruction)
    (config : Config) :
    Search.Ascends Block.start (build graph node instructions config).blocks :=
  arrange_ascends _

theorem mem_blocksOf_of_build {graph : Graph} {node : FunctionNode}
    {instructions : List Instruction} {config : Config} {block : Block}
    (member : block ∈ (build graph node instructions config).blocks) :
    block ∈ blocksOf graph node instructions config :=
  mem_of_mem_arrange member

/-- Code that comes by address is laid out as it comes. -/
theorem build_blocks (graph : Graph) {node : FunctionNode} {instructions : List Instruction}
    (config : Config)
    (ordered : instructions.Pairwise fun first second => first.address < second.address)
    (ranges : (codeRanges node).Pairwise
      fun first second => first.stop.toNat ≤ second.start.toNat) :
    (build graph node instructions config).blocks = blocksOf graph node instructions config :=
  arrange_eq_self (blocksOf_starts graph config ordered ranges)

/-- The search for a block gives the one with the start. -/
theorem blockAt?_eq_some_iff {layout : Layout} (ascends : Search.Ascends Block.start layout.blocks)
    {address : UInt32} {block : Block} :
    layout.blockAt? address = some block ↔ block ∈ layout.blocks ∧ block.start = address := by
  simp only [blockAt?, Option.bind_eq_some_iff, Search.placeOf?_eq_some_iff ascends]
  constructor
  · rintro ⟨place, ⟨other, found, same⟩, here⟩
    obtain rfl := Option.some.inj (found.symm.trans here)
    exact ⟨List.mem_of_getElem? here, same⟩
  · rintro ⟨member, same⟩
    obtain ⟨place, here⟩ := List.mem_iff_getElem?.mp member
    exact ⟨place, ⟨block, here, same⟩, here⟩

theorem exists_of_isLabel {layout : Layout} {address : UInt32} (label : layout.isLabel address) :
    ∃ block ∈ layout.blocks, block.start = address := by
  obtain ⟨block, found⟩ := Option.isSome_iff_exists.mp label
  obtain ⟨place, searched, here⟩ := Option.bind_eq_some_iff.mp found
  obtain ⟨other, there, same⟩ := Search.getElem?_of_placeOf? searched
  exact ⟨other, List.mem_of_getElem? there, same⟩

theorem isLabel_iff {layout : Layout} (ascends : Search.Ascends Block.start layout.blocks)
    {address : UInt32} :
    layout.isLabel address ↔ ∃ block ∈ layout.blocks, block.start = address := by
  simp only [isLabel, Option.isSome_iff_exists, blockAt?_eq_some_iff ascends]

end Layout

end PowerLift
