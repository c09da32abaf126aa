import Mathlib
import PowerLift.Proofs.Successors

/-!
A layout divides the code of a function. Its blocks hold, each word once, what the instructions
given cover of the code ranges, and begin just where the code may be entered.
-/

namespace PowerLift

/-- The instructions of a block are those of its words, one after the other. -/
structure Block.Consecutive (block : Block) : Prop where
  nonempty : block.instructions ≠ []
  address : ∀ index insn, block.instructions[index]? = some insn →
    insn.address.toNat = block.start.toNat + 4 * index
  stop : ∀ last, block.last? = some last → last.address + 4 = block.stop

namespace Layout

/-- An address is in a range, a whole number of words from its start, and no instruction is missing
on the way to it. -/
def Reaches (instructions : List Instruction) (start stop address : UInt32) : Prop :=
  address < stop ∧ ∃ count, address.toNat = start.toNat + 4 * count ∧
    ∀ index ≤ count, ∃ insn ∈ instructions, insn.address.toNat = start.toNat + 4 * index

/-- Where the code of a function may be entered. -/
inductive Enters (graph : Graph) (node : FunctionNode) (instructions : List Instruction)
    (config : Config) : UInt32 → Prop
  | entry : Enters graph node instructions config node.address
  | range {span : Span} (member : span ∈ node.blocks) :
      Enters graph node instructions config span.start
  | branch {insn : Instruction} {target : UInt32} (member : insn ∈ instructions)
      (unlinked : insn.isCall = false) (goal : insn.target = some target)
      (inside : node.contains target) : Enters graph node instructions config target
  | hook {insn : Instruction} {hook : Hook} {target : UInt32} (member : insn ∈ instructions)
      (placed : hook ∈ config.hooksAt insn.address) (goal : target ∈ hook.jumpTargets)
      (inside : node.contains target) : Enters graph node instructions config target
  | table {table : JumpTable} {target : UInt32} (member : table ∈ node.jumpTables)
      (goal : target ∈ table.targets) (inside : node.contains target) :
      Enters graph node instructions config target
  | chunk {chunk : FunctionNode} (member : chunk ∈ graph.nested node) :
      Enters graph node instructions config chunk.address

/-- A layout is a division of the code that its edges join up. -/
structure Partitions (layout : Layout) (graph : Graph) (node : FunctionNode)
    (instructions : List Instruction) (config : Config) : Prop where
  ordered : layout.blocks.Pairwise fun first second => first.start < second.start
  placed : ∀ index block, layout.blocks[index]? = some block →
    layout.blockIndex? block.start = some index
  consecutive : ∀ block ∈ layout.blocks, block.Consecutive
  disjoint : ∀ first ∈ layout.blocks, ∀ second ∈ layout.blocks,
    ∀ insn ∈ first.instructions, ∀ other ∈ second.instructions,
      insn.address = other.address → first = second
  covers : ∀ insn, (∃ block ∈ layout.blocks, insn ∈ block.instructions) ↔
    insn ∈ instructions ∧
      ∃ span ∈ codeRanges node, Reaches instructions span.start span.stop insn.address
  divides : ∀ block ∈ layout.blocks, ∀ insn ∈ block.instructions,
    Enters graph node instructions config insn.address ↔ insn.address = block.start
  joins : ∀ edge ∈ layout.edges,
    edge.source < layout.blocks.length ∧ edge.target < layout.blocks.length
  successors : ∀ index, (layout.successors index).Nodup ∧ ∀ place,
    place ∈ layout.successors index ↔
      ∃ edge ∈ layout.edges, edge.source = index ∧ edge.target = place
  predecessors : ∀ index, (layout.predecessors index).Nodup ∧ ∀ place,
    place ∈ layout.predecessors index ↔
      ∃ edge ∈ layout.edges, edge.target = index ∧ edge.source = place

/-! ## Labels -/

theorem mem_labels {graph : Graph} {node : FunctionNode} {instructions : List Instruction}
    {config : Config} {address : UInt32} :
    address ∈ labels graph node instructions config ↔
      Enters graph node instructions config address := by
  simp only [labels, labelsOf, List.mem_append, List.mem_map, List.mem_singleton,
    List.mem_flatMap, List.mem_filter, List.mem_ite_nil_left, Option.mem_toList]
  constructor
  · intro label
    rcases label with (((⟨span, member, rfl⟩ | rfl) | ⟨insn, member, goal, inside⟩) |
      ⟨table, member, goal, inside⟩) | ⟨⟨chunk, member, rfl⟩, inside⟩
    · exact .range member
    · exact .entry
    · rcases goal with ⟨linked, goal⟩ | ⟨hook, placed, goal⟩
      · exact .branch member (by simpa using linked) goal inside
      · exact .hook member placed goal inside
    · exact .table member goal inside
    · exact .chunk (List.mem_filter.mpr ⟨member, inside⟩)
  · intro enters
    cases enters with
    | entry => exact Or.inl (Or.inl (Or.inl (Or.inr rfl)))
    | range member => exact Or.inl (Or.inl (Or.inl (Or.inl ⟨_, member, rfl⟩)))
    | branch member unlinked goal inside =>
        exact Or.inl (Or.inl (Or.inr ⟨_, member, Or.inl ⟨by simpa using unlinked, goal⟩, inside⟩))
    | hook member placed goal inside =>
        exact Or.inl (Or.inl (Or.inr ⟨_, member, Or.inr ⟨_, placed, goal⟩, inside⟩))
    | table member goal inside => exact Or.inl (Or.inr ⟨_, member, goal, inside⟩)
    | chunk member =>
        obtain ⟨member, inside⟩ := List.mem_filter.mp member
        exact Or.inr ⟨⟨_, member, rfl⟩, inside⟩

theorem enters_codeRange (graph : Graph) {node : FunctionNode} (instructions : List Instruction)
    (config : Config) {span : Span} (range : span ∈ codeRanges node) :
    Enters graph node instructions config span.start := by
  rw [codeRanges] at range
  split at range
  · obtain rfl := List.mem_singleton.mp range
    exact .entry
  · exact .range range

theorem divide_tail {isLabel : UInt32 → Bool} {instructions group : List Instruction}
    (member : group ∈ divide isLabel instructions) :
    ∀ insn ∈ group.tail, isLabel insn.address = false := by
  induction instructions generalizing group with
  | nil => cases member
  | cons first rest ih =>
      rw [divide] at member
      split at member
      next next others groups same =>
        rw [same] at ih
        split at member
        · rcases List.mem_cons.mp member with rfl | later
          · exact List.forall_mem_nil _
          · exact ih later
        next continues =>
          rcases List.mem_cons.mp member with rfl | later
          · exact List.forall_mem_cons.mpr ⟨by simpa using continues, ih List.mem_cons_self⟩
          · exact ih (List.mem_cons_of_mem _ later)
      next =>
        rcases List.mem_cons.mp member with rfl | later
        · exact List.forall_mem_nil _
        · exact ih later

theorem divide_starts {isLabel : UInt32 → Bool} {instructions group : List Instruction}
    (member : group ∈ (divide isLabel instructions).tail) :
    ∀ first ∈ group.head?, isLabel first.address := by
  induction instructions with
  | nil => cases member
  | cons insn rest ih =>
      rw [divide] at member
      split at member
      next next others groups same =>
        rw [same] at ih
        split at member
        next label =>
          rcases List.mem_cons.mp member with rfl | later
          · intro first same
            obtain rfl := Option.some.inj same
            exact label
          · exact ih later
        next => exact ih member
      next groups other =>
        rw [List.tail_cons] at member
        -- Only an empty group may come first, and it has no start.
        cases same : divide isLabel rest with
        | nil =>
            rw [same] at member
            cases member
        | cons front groups =>
            rw [same] at member ih
            rcases List.mem_cons.mp member with rfl | later
            · cases group with
              | nil => exact fun _ missing => absurd missing (Option.not_mem_none _)
              | cons first others => exact absurd same (other first others groups)
            · exact ih later

/-- A block begins at its range or at a label, and has no other label. -/
theorem isLabel_of_mem_blocksIn {isLabel : UInt32 → Bool} {instructions : List Instruction}
    {span : Span} (start : isLabel span.start) {block : Block}
    (member : block ∈ blocksIn isLabel instructions span) {insn : Instruction}
    (inside : insn ∈ block.instructions) :
    isLabel insn.address ↔ insn.address = block.start := by
  obtain ⟨group, among, found⟩ := List.mem_filterMap.mp member
  cases group with
  | nil => cases found
  | cons first rest =>
      cases found
      have begins : isLabel first.address := by
        cases code : run instructions span with
        | nil =>
            rw [code] at among
            cases among
        | cons head others =>
            obtain ⟨front, groups, divided⟩ := divide_head isLabel head others
            rw [code, divided] at among
            rcases List.mem_cons.mp among with same | later
            · obtain ⟨rfl, _⟩ := List.cons_eq_cons.mp same
              rw [runFrom_head code]
              exact start
            · have inTail : first :: rest ∈ (divide isLabel (head :: others)).tail := by
                rw [divided]
                exact later
              exact divide_starts inTail first rfl
      constructor
      · intro label
        rcases List.mem_cons.mp inside with rfl | later
        · rfl
        · rw [divide_tail among insn later] at label
          cases label
      · intro same
        rw [same]
        exact begins

/-! ## Runs -/

/-- Instructions before a range do not count. -/
theorem reaches_of_before {head : Instruction} {rest : List Instruction} {start : UInt32}
    (before : head.address < start) {stop address : UInt32} :
    Reaches (head :: rest) start stop address ↔ Reaches rest start stop address := by
  rw [UInt32.lt_iff_toNat_lt] at before
  refine and_congr_right fun _ => exists_congr fun count => and_congr_right fun _ =>
    forall₂_congr fun index _ => ?_
  rw [List.exists_mem_cons_iff]
  exact or_iff_right (by omega)

/-- Past its first word a range is reached from the second one. -/
theorem reaches_of_past {head : Instruction} {rest : List Instruction}
    (above : ∀ insn ∈ rest, head.address < insn.address) {stop address : UInt32}
    (past : head.address < address) :
    Reaches (head :: rest) head.address stop address ↔
      Reaches rest (head.address + 4) stop address := by
  have next : (head.address + 4).toNat = (head.address.toNat + 4) % 4294967296 :=
    UInt32.toNat_add _ _
  have bound := address.toNat_lt
  rw [UInt32.lt_iff_toNat_lt] at past
  constructor
  · intro ⟨below, count, distance, present⟩
    obtain ⟨count, rfl⟩ : ∃ fewer, count = fewer + 1 := ⟨count - 1, by omega⟩
    refine ⟨below, count, by omega, ?_⟩
    intro index early
    obtain ⟨insn, member, here⟩ := present (index + 1) (by omega)
    rcases List.mem_cons.mp member with rfl | later
    · omega
    · exact ⟨insn, later, by omega⟩
  · intro ⟨below, count, distance, present⟩
    -- The second word is present, so it has not passed the top of the address space.
    obtain ⟨second, member, here⟩ := present 0 (Nat.zero_le _)
    have later := UInt32.lt_iff_toNat_lt.mp (above second member)
    refine ⟨below, count + 1, by omega, ?_⟩
    intro index early
    cases index with
    | zero => exact ⟨head, List.mem_cons_self, rfl⟩
    | succ index =>
        obtain ⟨insn, among, there⟩ := present index (by omega)
        exact ⟨insn, List.mem_cons_of_mem _ among, by omega⟩

theorem mem_runFrom_iff_reaches {instructions : List Instruction}
    (ordered : instructions.Pairwise fun first second => first.address < second.address)
    {start stop : UInt32} {insn : Instruction} :
    insn ∈ runFrom stop start instructions ↔
      insn ∈ instructions ∧ Reaches instructions start stop insn.address := by
  induction instructions generalizing start with
  | nil => simp [runFrom]
  | cons head rest ih =>
      obtain ⟨above, ordered⟩ := List.pairwise_cons.mp ordered
      rw [runFrom]
      split
      next before =>
        rw [ih ordered, reaches_of_before before, List.mem_cons]
        constructor
        · rintro ⟨member, reaches⟩
          exact ⟨Or.inr member, reaches⟩
        · rintro ⟨member, reaches⟩
          refine ⟨member.resolve_left ?_, reaches⟩
          intro same
          obtain ⟨_, count, distance, _⟩ := reaches
          have lower := UInt32.lt_iff_toNat_lt.mp before
          rw [same] at distance
          omega
      next after =>
        split
        next here =>
          obtain ⟨rfl, below⟩ := here
          rw [List.mem_cons, List.mem_cons, ih ordered, or_and_right]
          apply or_congr
          · constructor
            · intro same
              refine ⟨same, same ▸ below, 0, same ▸ rfl, ?_⟩
              intro index first
              exact ⟨head, List.mem_cons_self, by omega⟩
            · exact And.left
          · exact and_congr_right fun member => (reaches_of_past above (above insn member)).symm
        next missing =>
          simp only [List.not_mem_nil, false_iff]
          rintro ⟨_, below, count, distance, present⟩
          obtain ⟨first, member, here⟩ := present 0 (Nat.zero_le _)
          rw [UInt32.lt_iff_toNat_lt] at after below
          rcases List.mem_cons.mp member with rfl | later
          · apply missing
            refine ⟨UInt32.toNat_inj.mp here, UInt32.lt_iff_toNat_lt.mpr ?_⟩
            omega
          · have higher := UInt32.lt_iff_toNat_lt.mp (above first later)
            omega

/-- Words one after the other that do not pass the top of the address space. -/
theorem toNat_of_chain {first : Instruction} {rest : List Instruction}
    (chain : (first :: rest).IsChain fun before after => after.address = before.address + 4)
    (ordered : (first :: rest).Pairwise fun before after => before.address < after.address)
    {index : Nat} {insn : Instruction} (found : (first :: rest)[index]? = some insn) :
    insn.address.toNat = first.address.toNat + 4 * index := by
  induction rest generalizing first index with
  | nil =>
      cases index with
      | zero =>
          obtain rfl := Option.some.inj found
          rfl
      | succ index => cases found
  | cons second others ih =>
      cases index with
      | zero =>
          obtain rfl := Option.some.inj found
          rfl
      | succ index =>
          obtain ⟨follows, chain⟩ := List.isChain_cons_cons.mp chain
          obtain ⟨above, ordered⟩ := List.pairwise_cons.mp ordered
          have later := UInt32.lt_iff_toNat_lt.mp (above second List.mem_cons_self)
          have next : (first.address + 4).toNat = (first.address.toNat + 4) % 4294967296 :=
            UInt32.toNat_add _ _
          have here := ih chain ordered found
          rw [follows] at here later
          omega

theorem consecutive_of_mem_blocksIn {isLabel : UInt32 → Bool} {instructions : List Instruction}
    (ordered : instructions.Pairwise fun first second => first.address < second.address)
    {span : Span} {block : Block} (member : block ∈ blocksIn isLabel instructions span) :
    block.Consecutive := by
  have part := infix_of_mem_blocksIn member
  have chain := List.IsChain.infix (runFrom_chain span.stop span.start instructions) part
  have ordered := ordered.sublist (part.sublist.trans (runFrom_sublist _ _ _))
  obtain ⟨first, rest, rfl, _⟩ := mem_blocksIn member
  have address (index : Nat) (insn : Instruction) (found : (first :: rest)[index]? = some insn) :
      insn.address.toNat = first.address.toNat + 4 * index :=
    toNat_of_chain chain ordered found
  refine ⟨List.cons_ne_nil _ _, address, ?_⟩
  intro last atEnd
  rw [Block.last?, List.getLast?_eq_getElem?] at atEnd
  have here := address _ last atEnd
  have four : (4 : UInt32).toNat = 4 := rfl
  apply UInt32.toNat_inj.mp
  simp only [Block.stop, Block.count, UInt32.toNat_add, UInt32.toNat_ofNat', here, four,
    List.length_cons]
  omega

/-! ## Places and edges -/

theorem indexOf?_of_starts {blocks : List Block}
    (ordered : blocks.Pairwise fun first second => first.start < second.start) {index : Nat}
    {block : Block} (here : blocks[index]? = some block) :
    indexOf? blocks block.start = some index := by
  obtain ⟨bound, rfl⟩ := List.getElem?_eq_some_iff.mp here
  apply List.findIdx?_eq_some_iff_getElem.mpr
  refine ⟨bound, beq_self_eq_true _, ?_⟩
  intro earlier before
  have below := List.pairwise_iff_getElem.mp ordered earlier index (by omega) bound before
  simpa using UInt32.ne_of_lt below

theorem eq_of_shared_address {blocks : List Block}
    (ascends : (blocks.flatMap (·.instructions)).Pairwise
      fun first second => first.address < second.address)
    {first second : Block} (firstIn : first ∈ blocks) (secondIn : second ∈ blocks)
    {insn other : Instruction} (inFirst : insn ∈ first.instructions)
    (inSecond : other ∈ second.instructions) (same : insn.address = other.address) :
    first = second := by
  by_contra differ
  have symmetric : Std.Symm fun first second : Block =>
      ∀ insn ∈ first.instructions, ∀ other ∈ second.instructions,
        insn.address ≠ other.address :=
    ⟨fun _ _ apart insn inFirst other inSecond => (apart other inSecond insn inFirst).symm⟩
  have apart := (List.pairwise_flatMap.mp ascends).2.imp fun below insn inFirst other inSecond =>
    UInt32.ne_of_lt (below insn inFirst other inSecond)
  exact apart.forall firstIn secondIn differ insn inFirst other inSecond same

theorem edge_joins {node : FunctionNode} {blocks : List Block} {edge : Edge}
    (member : edge ∈ edgesOf node blocks) :
    edge.source < blocks.length ∧ edge.target < blocks.length := by
  obtain ⟨source, atSource, leaving⟩ := mem_edgesOf.mp member
  obtain ⟨_, _, _, address, _, found⟩ := mem_edgesFrom.mp leaving
  obtain ⟨target, atTarget, _⟩ := indexOf?_block found
  exact ⟨(List.getElem?_eq_some_iff.mp atSource).1, (List.getElem?_eq_some_iff.mp atTarget).1⟩

theorem nodup_distinct (places : List Nat) {seen : List Nat} (distinct : seen.Nodup) :
    (places.foldl (fun seen place => if seen.contains place then seen
      else seen ++ [place]) seen).Nodup := by
  induction places generalizing seen with
  | nil => exact distinct
  | cons first rest ih =>
      rw [List.foldl_cons]
      apply ih
      split
      · exact distinct
      next unknown =>
        apply distinct.append (List.nodup_singleton first)
        simpa using unknown

theorem mem_predecessors {layout : Layout} {index place : Nat} :
    place ∈ layout.predecessors index ↔
      ∃ edge ∈ layout.edges, edge.target = index ∧ edge.source = place := by
  simp only [predecessors, mem_distinct, List.not_mem_nil, false_or, List.mem_map, List.mem_filter,
    beq_iff_eq, and_assoc]

/-! ## Layouts -/

/-- Every layout of a function divides its code, if the code ranges and the instructions come by
address. -/
theorem build_partitions (graph : Graph) {node : FunctionNode} {instructions : List Instruction}
    (config : Config)
    (ranges : node.blocks.Pairwise fun first second => first.stop ≤ second.start)
    (ordered : instructions.Pairwise fun first second => first.address < second.address) :
    (build graph node instructions config).Partitions graph node instructions config := by
  have apart : (codeRanges node).Pairwise
      fun first second => first.stop.toNat ≤ second.start.toNat := by
    rw [codeRanges]
    split
    · exact List.pairwise_singleton _ _
    · exact ranges.imp UInt32.le_iff_toNat_le.mp
  have starts := build_ascends graph node instructions config
  have same := build_blocks graph config ordered apart
  refine
    { ordered := starts
      placed := fun index block => indexOf?_of_starts starts
      consecutive := ?_
      disjoint := ?_
      covers := ?_
      divides := ?_
      joins := fun edge => edge_joins
      successors := fun index => ⟨nodup_distinct _ .nil, fun place => mem_successors⟩
      predecessors := fun index => ⟨nodup_distinct _ .nil, fun place => mem_predecessors⟩ }
  · intro block member
    obtain ⟨span, _, among⟩ := List.mem_flatMap.mp (mem_blocksOf_of_build member)
    exact consecutive_of_mem_blocksIn ordered among
  · intro first firstIn second secondIn insn inFirst other inSecond shared
    rw [same] at firstIn secondIn
    exact eq_of_shared_address (blocksOf_ascends graph config ordered apart) firstIn secondIn
      inFirst inSecond shared
  · intro insn
    rw [same]
    refine mem_blocksOf_iff.trans ?_
    simp only [run, mem_runFrom_iff_reaches ordered]
    constructor
    · rintro ⟨span, range, member, reaches⟩
      exact ⟨member, span, range, reaches⟩
    · rintro ⟨member, span, range, reaches⟩
      exact ⟨span, range, member, reaches⟩
  · intro block member insn inside
    obtain ⟨span, range, among⟩ := List.mem_flatMap.mp (mem_blocksOf_of_build member)
    have start := mem_labels.mpr (enters_codeRange graph instructions config range)
    rw [← isLabel_of_mem_blocksIn (by simpa using start) among inside, ← mem_labels,
      List.contains_iff_mem]

/-! A function that is divided by a table, a hook, a branch, a range and a chunk. The second range
stops short where a word is missing. -/

def partedNode : FunctionNode where
  address := 0x1000
  size := 0x28
  authority := .configured
  blocks := [{ start := 0x1000, stop := 0x1014 }, { start := 0x1014, stop := 0x1028 }]
  jumpTables := [{ address := 0x1010, base := none, register := 3, targets := [0x1004, 0x1014],
                   source := .configured }]

def partedGraph : Graph where
  nodes := [partedNode,
    { address := 0x1018, size := 8, authority := .configured, parent := some 0x1000 }]

def partedConfig : Config where
  hooks := [{ address := 0x1000, name := "skip", jump := some 0x1008 }]

def partedCode : List Instruction :=
  [.decode 0x1000 0x60000000, .decode 0x1004 0x60000000, .decode 0x1008 0x41820008,
    .decode 0x100C 0x60000000, .decode 0x1010 0x4E800420, .decode 0x1014 0x60000000,
    .decode 0x1018 0x60000000, .decode 0x1020 0x4E800020]

theorem build_partedNode :
    partedNode.blocks.Pairwise (fun first second => first.stop ≤ second.start) ∧
      partedCode.Pairwise (fun first second => first.address < second.address) ∧
      (build partedGraph partedNode partedCode partedConfig).blocks.map (·.start) =
        [0x1000, 0x1004, 0x1008, 0x1010, 0x1014, 0x1018] ∧
      (build partedGraph partedNode partedCode partedConfig).Partitions partedGraph partedNode
        partedCode partedConfig := by
  have ranges : partedNode.blocks.Pairwise fun first second => first.stop ≤ second.start := by
    decide
  have ordered : partedCode.Pairwise fun first second => first.address < second.address := by
    decide +kernel
  exact ⟨ranges, ordered, by decide +kernel,
    build_partitions partedGraph partedConfig ranges ordered⟩

end Layout

end PowerLift
