import Mathlib
import PowerLift.Proofs.Dispatch

/-!
Runs of code. The instructions of a range are its words in order, a layout takes those of each
code range, and ranges that are joined cover together what they covered before.
-/

namespace PowerLift

/-! ## Joined ranges -/

namespace Span

/-- What lies in a joined range lies in one of its parts, also next to where two parts meet. -/
theorem mergeFrom_around {first : Span} {spans : List Span} {merged : Span}
    (member : merged ∈ mergeFrom first spans) {low high : Nat} (near : high ≤ low + 1)
    (below : merged.start.toNat ≤ low) (above : high < merged.stop.toNat) :
    ∃ span ∈ first :: spans, span.start.toNat ≤ low ∧ high < span.stop.toNat := by
  induction spans generalizing first with
  | nil =>
      obtain rfl := List.mem_singleton.mp member
      exact ⟨merged, List.mem_singleton_self _, below, above⟩
  | cons span rest ih =>
      simp only [mergeFrom] at member
      split at member
      next overlaps =>
        rw [UInt32.lt_iff_toNat_lt] at overlaps
        obtain ⟨part, among, starts, stops⟩ := ih member
        rcases List.mem_cons.mp among with rfl | later
        · simp only [toNat_max] at starts stops
          by_cases inFirst : high < first.stop.toNat
          · exact ⟨first, List.mem_cons_self, starts, inFirst⟩
          · exact ⟨span, by simp, by omega, by omega⟩
        · exact ⟨part, by simp [later], starts, stops⟩
      next =>
        rcases List.mem_cons.mp member with rfl | later
        · exact ⟨merged, List.mem_cons_self, below, above⟩
        · obtain ⟨part, among, bounds⟩ := ih later
          exact ⟨part, List.mem_cons_of_mem _ among, bounds⟩

theorem mergeOverlapping_around {spans : List Span} {merged : Span}
    (member : merged ∈ mergeOverlapping spans) {low high : Nat} (near : high ≤ low + 1)
    (below : merged.start.toNat ≤ low) (above : high < merged.stop.toNat) :
    ∃ span ∈ spans, span.start.toNat ≤ low ∧ high < span.stop.toNat := by
  unfold mergeOverlapping at member
  split at member
  · cases member
  next first rest same =>
    obtain ⟨span, among, bounds⟩ := mergeFrom_around member near below above
    rw [← same] at among
    exact ⟨span, List.mem_mergeSort.mp among, bounds⟩

theorem mergeFrom_ne_nil (first : Span) (spans : List Span) : mergeFrom first spans ≠ [] := by
  induction spans generalizing first with
  | nil => simp [mergeFrom]
  | cons span rest ih =>
      rw [mergeFrom]
      split
      · exact ih _
      · simp

theorem mergeOverlapping_ne_nil {spans : List Span} (some : spans ≠ []) :
    mergeOverlapping spans ≠ [] := by
  unfold mergeOverlapping
  split
  next empty =>
    have same : (spans.mergeSort fun a b => a.start ≤ b.start).length = spans.length :=
      List.length_mergeSort spans
    rw [empty] at same
    exact absurd (List.length_eq_zero_iff.mp same.symm) some
  next first rest _ => exact mergeFrom_ne_nil first rest

theorem contains_mergeOverlapping {spans : List Span} {address : UInt32} :
    (∃ merged ∈ mergeOverlapping spans, merged.contains address) ↔
      ∃ span ∈ spans, span.contains address := by
  constructor
  · rintro ⟨merged, member, inside⟩
    obtain ⟨below, above⟩ := contains_iff.mp inside
    obtain ⟨span, among, bounds⟩ := mergeOverlapping_around member (by omega) below above
    exact ⟨span, among, contains_iff.mpr bounds⟩
  · exact mergeOverlapping_contains

end Span

/-! ## Chunks inside of a function -/

namespace Graph

/-- The chunks of a function that begin inside of it. -/
def nested (graph : Graph) (node : FunctionNode) : List FunctionNode :=
  (graph.chunksOf node.address).filter fun chunk => node.contains chunk.address

/-- The code ranges that a chunk adds. -/
def rangesOf (node chunk : FunctionNode) : List Span :=
  if chunk.blocks.isEmpty then [{ start := chunk.address, stop := min chunk.stop node.stop }]
  else chunk.blocks

theorem mem_nested {graph : Graph} {node chunk : FunctionNode} :
    chunk ∈ graph.nested node ↔
      chunk ∈ graph.nodes ∧ chunk.parent = some node.address ∧ node.contains chunk.address := by
  simp only [nested, chunksOf, List.mem_filter, beq_iff_eq, and_assoc]

theorem withChunks_blocks (graph : Graph) {node : FunctionNode} (found : node.blocks ≠ []) :
    (graph.withChunks node).blocks =
      Span.mergeOverlapping (node.blocks ++ (graph.nested node).flatMap (rangesOf node)) := by
  have merged : ∀ (chunks : List FunctionNode) (merged : FunctionNode),
      (chunks.foldl (mergeChunk node) merged).blocks =
        merged.blocks ++ chunks.flatMap (rangesOf node) := by
    intro chunks
    induction chunks with
    | nil => simp
    | cons chunk rest ih =>
        intro merged
        rw [List.foldl_cons, ih, List.flatMap_cons, ← List.append_assoc]
        simp [mergeChunk, rangesOf, found]
  exact congrArg Span.mergeOverlapping (merged (graph.nested node) node)

theorem codeRanges_of_empty (graph : Graph) {node : FunctionNode} (empty : node.blocks = []) :
    Layout.codeRanges (graph.withChunks node) = [{ start := node.address, stop := node.stop }] := by
  rw [Layout.codeRanges, withChunks_blocks_of_empty graph empty, withChunks_stop,
    withChunks_address]
  rfl

theorem codeRanges_of_blocks (graph : Graph) {node : FunctionNode} (found : node.blocks ≠ []) :
    Layout.codeRanges (graph.withChunks node) =
      Span.mergeOverlapping (node.blocks ++ (graph.nested node).flatMap (rangesOf node)) := by
  have blocks := graph.withChunks_blocks found
  have some : (graph.withChunks node).blocks ≠ [] := by
    rw [blocks]
    exact Span.mergeOverlapping_ne_nil (by simp [found])
  rw [Layout.codeRanges, if_neg (by simpa using some), blocks]

theorem withChunks_calls (graph : Graph) (node : FunctionNode) :
    (graph.withChunks node).calls = node.calls ++ (graph.nested node).flatMap (·.calls) := by
  have merged : ∀ (chunks : List FunctionNode) (merged : FunctionNode),
      (chunks.foldl (mergeChunk node) merged).calls =
        merged.calls ++ chunks.flatMap (·.calls) := by
    intro chunks
    induction chunks with
    | nil => simp
    | cons chunk rest ih =>
        intro merged
        rw [List.foldl_cons, ih, List.flatMap_cons, ← List.append_assoc]
        rfl
  exact merged (graph.nested node) node

end Graph

/-! ## The words of a range -/

namespace Image

/-- Every word that begins in a range can be read. -/
def Mapped (image : Image) (start stop : UInt32) : Prop :=
  ∀ index < wordCount start stop, (image.read? (start + UInt32.ofNat (4 * index))).isSome

instance decidableMapped (image : Image) (start stop : UInt32) :
    Decidable (image.Mapped start stop) :=
  inferInstanceAs (Decidable (∀ index < wordCount start stop,
    (image.read? (start + UInt32.ofNat (4 * index))).isSome))

theorem lt_wordCount_iff {start stop : UInt32} {index : Nat} :
    index < wordCount start stop ↔ start.toNat + 4 * index < stop.toNat := by
  unfold wordCount
  split
  next order =>
    rw [UInt32.lt_iff_toNat_lt] at order
    rw [toNat_sub (Nat.le_of_lt order)]
    omega
  next order =>
    rw [UInt32.lt_iff_toNat_lt] at order
    omega

theorem toNat_add_words {start stop : UInt32} {index : Nat}
    (before : start.toNat + 4 * index < stop.toNat) :
    (start + UInt32.ofNat (4 * index)).toNat = start.toNat + 4 * index := by
  have top := stop.toNat_lt
  rw [UInt32.toNat_add, UInt32.toNat_ofNat']
  omega

theorem exists_word_index {start stop address : UInt32} (above : start.toNat ≤ address.toNat)
    (below : address.toNat < stop.toNat) (phase : (address.toNat - start.toNat) % 4 = 0) :
    ∃ index < wordCount start stop, start + UInt32.ofNat (4 * index) = address := by
  obtain ⟨index, distance⟩ : ∃ index, address.toNat = start.toNat + 4 * index :=
    ⟨(address.toNat - start.toNat) / 4, by omega⟩
  have before : start.toNat + 4 * index < stop.toNat := by omega
  refine ⟨index, lt_wordCount_iff.mpr before, UInt32.toNat_inj.mp ?_⟩
  exact (toNat_add_words before).trans distance.symm

/-- A range is mapped if the words in it are, counted from its start. -/
theorem mapped_iff {image : Image} {start stop : UInt32} :
    image.Mapped start stop ↔ ∀ address : UInt32, start.toNat ≤ address.toNat →
      address.toNat < stop.toNat → (address.toNat - start.toNat) % 4 = 0 →
        (image.read? address).isSome := by
  constructor
  · intro mapped address above below phase
    obtain ⟨index, within, rfl⟩ := exists_word_index above below phase
    exact mapped index within
  · intro readable index within
    have before := lt_wordCount_iff.mp within
    have place := toNat_add_words before
    exact readable _ (by omega) (by omega) (by omega)

theorem add_words_succ (address : UInt32) (index : Nat) :
    address + UInt32.ofNat (4 * (index + 1)) = address + 4 + UInt32.ofNat (4 * index) := by
  rw [Nat.mul_succ, UInt32.ofNat_add, UInt32.add_comm (UInt32.ofNat _), ← UInt32.add_assoc]
  rfl

theorem instructionRun_isOk_iff {image : Image} {count : Nat} {address : UInt32} :
    (∃ instructions, image.instructionRun count address = .ok instructions) ↔
      ∀ index < count, (image.read? (address + UInt32.ofNat (4 * index))).isSome := by
  induction count generalizing address with
  | zero => exact iff_of_true ⟨[], rfl⟩ fun _ below => by omega
  | succ count ih =>
      constructor
      · rintro ⟨instructions, found⟩ index below
        obtain ⟨word, rest, first, others, _⟩ := instructionRun_succ_eq_ok.mp found
        cases index with
        | zero => simp [first]
        | succ index =>
            rw [add_words_succ]
            exact ih.mp ⟨rest, others⟩ index (by omega)
      · intro mapped
        obtain ⟨word, first⟩ := Option.isSome_iff_exists.mp (mapped 0 (by omega))
        obtain ⟨rest, others⟩ := ih.mpr fun index below => by
          rw [← add_words_succ]
          exact mapped (index + 1) (by omega)
        exact ⟨_, instructionRun_succ_eq_ok.mpr ⟨word, rest, by simpa using first, others, rfl⟩⟩

theorem instructions_isOk_iff {image : Image} {start stop : UInt32} :
    (∃ instructions, image.instructions start stop = .ok instructions) ↔
      image.Mapped start stop :=
  instructionRun_isOk_iff

theorem mem_instructionRun {image : Image} {count : Nat} {address : UInt32}
    {instructions : List Instruction}
    (found : image.instructionRun count address = .ok instructions) {insn : Instruction} :
    insn ∈ instructions ↔
      ∃ index < count, ∃ word, image.read? (address + UInt32.ofNat (4 * index)) = some word ∧
        insn = Instruction.decode (address + UInt32.ofNat (4 * index)) word := by
  induction count generalizing address instructions with
  | zero =>
      cases found
      simp
  | succ count ih =>
      obtain ⟨word, rest, read, others, rfl⟩ := instructionRun_succ_eq_ok.mp found
      have first : address + UInt32.ofNat (4 * 0) = address := by simp
      rw [List.mem_cons, ih others]
      constructor
      · rintro (rfl | ⟨index, below, other⟩)
        · exact ⟨0, by omega, word, by rw [first]; exact read, by rw [first]⟩
        · exact ⟨index + 1, by omega, by rwa [add_words_succ]⟩
      · rintro ⟨index, below, other, otherRead, rfl⟩
        cases index with
        | zero =>
            rw [first] at otherRead ⊢
            cases read.symm.trans otherRead
            exact Or.inl rfl
        | succ index =>
            rw [add_words_succ] at otherRead ⊢
            exact Or.inr ⟨index, by omega, other, otherRead, rfl⟩

theorem exists_mem_instructions_iff {image : Image} {start stop : UInt32}
    {instructions : List Instruction} (found : image.instructions start stop = .ok instructions)
    {address : UInt32} (phase : (address.toNat - start.toNat) % 4 = 0) :
    (∃ insn ∈ instructions, insn.address = address) ↔
      start.toNat ≤ address.toNat ∧ address.toNat < stop.toNat := by
  constructor
  · rintro ⟨insn, member, rfl⟩
    obtain ⟨index, within, word, _, rfl⟩ := (mem_instructionRun found).mp member
    have before := lt_wordCount_iff.mp within
    have place := toNat_add_words before
    change start.toNat ≤ (start + UInt32.ofNat (4 * index)).toNat ∧
      (start + UInt32.ofNat (4 * index)).toNat < stop.toNat
    omega
  · rintro ⟨above, below⟩
    obtain ⟨index, within, same⟩ := exists_word_index above below phase
    have readable := instructions_isOk_iff.mp ⟨_, found⟩ index within
    obtain ⟨word, read⟩ := Option.isSome_iff_exists.mp readable
    exact ⟨_, (mem_instructionRun found).mpr ⟨index, within, word, read, rfl⟩, same⟩

theorem read_of_mem_instructions {image : Image} {start stop : UInt32}
    {instructions : List Instruction}
    (found : image.instructions start stop = .ok instructions) {insn : Instruction}
    (member : insn ∈ instructions) :
    ∃ word, image.read? insn.address = some word ∧ insn = Instruction.decode insn.address word := by
  obtain ⟨index, _, word, read, rfl⟩ := (mem_instructionRun found).mp member
  exact ⟨word, read, rfl⟩

end Image

/-! ## The instructions of a block -/

namespace Layout

theorem runFrom_head {stop address : UInt32} {instructions : List Instruction}
    {first : Instruction} {rest : List Instruction}
    (same : runFrom stop address instructions = first :: rest) : first.address = address := by
  induction instructions with
  | nil => cases same
  | cons insn others ih =>
      simp only [runFrom] at same
      split at same
      · exact ih same
      · split at same
        next here =>
          cases same
          exact here.1
        next => cases same

theorem runFrom_chain (stop address : UInt32) (instructions : List Instruction) :
    (runFrom stop address instructions).IsChain
      fun first second => second.address = first.address + 4 := by
  induction instructions generalizing address with
  | nil => exact .nil
  | cons insn rest ih =>
      simp only [runFrom]
      split
      · exact ih address
      · split
        next here =>
          refine List.isChain_cons.mpr ⟨?_, ih (address + 4)⟩
          intro second follows
          obtain ⟨others, same⟩ := List.head?_eq_some_iff.mp follows
          rw [runFrom_head same, here.1]
        next => exact .nil

/-- A block of a code range is a piece of its run. -/
theorem infix_of_mem_blocksIn {isLabel : UInt32 → Bool} {instructions : List Instruction}
    {span : Span} {block : Block} (member : block ∈ blocksIn isLabel instructions span) :
    block.instructions <:+: run instructions span := by
  obtain ⟨group, among, found⟩ := List.mem_filterMap.mp member
  obtain ⟨before, after, split⟩ := List.append_of_mem among
  cases group with
  | nil => cases found
  | cons first rest =>
      cases found
      refine ⟨before.flatten, after.flatten, ?_⟩
      rw [← divide_flatten isLabel (run instructions span), split]
      simp

/-- After every instruction of a block but the last comes the next word. -/
theorem exists_next {isLabel : UInt32 → Bool} {instructions : List Instruction}
    {span : Span} {block : Block} (member : block ∈ blocksIn isLabel instructions span)
    {insn : Instruction} (early : insn ∈ block.instructions.dropLast) :
    ∃ next ∈ run instructions span, next.address = insn.address + 4 := by
  have part := infix_of_mem_blocksIn member
  have chain := List.IsChain.infix (runFrom_chain span.stop span.start instructions) part
  obtain ⟨index, bound, rfl⟩ := List.mem_iff_getElem.mp early
  rw [List.length_dropLast] at bound
  refine ⟨block.instructions[index + 1], part.subset (List.getElem_mem _), ?_⟩
  rw [List.getElem_dropLast]
  exact List.isChain_iff_getElem.mp chain index (by omega)

end Layout

end PowerLift
