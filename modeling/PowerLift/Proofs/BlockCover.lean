import Mathlib
import PowerLift.Proofs.GraphChanges

/-!
The addresses that the blocks of a function cover, and what adding a block does to them. Nothing
that was covered is lost. Of the new block, the part before the next block is covered; what it has
past the start of a later block is covered only where other blocks do so already.
-/

namespace PowerLift

namespace Span

/-- The addresses inside of spans. -/
def covered (spans : List Span) : Set UInt32 :=
  {address | ∃ span ∈ spans, span.contains address}

@[simp] theorem mem_covered_nil {address : UInt32} : address ∉ covered [] := by
  simp [covered]

@[simp] theorem mem_covered_cons {span : Span} {rest : List Span} {address : UInt32} :
    address ∈ covered (span :: rest) ↔ span.contains address ∨ address ∈ covered rest := by
  simp [covered]

@[simp] theorem mem_covered_append {first second : List Span} {address : UInt32} :
    address ∈ covered (first ++ second) ↔ address ∈ covered first ∨ address ∈ covered second := by
  simp [covered, or_and_right, exists_or]

theorem contains_min_max {start first second limit address : UInt32} :
    contains { start, stop := min (max first second) limit } address ↔
      (contains { start, stop := first } address ∨ contains { start, stop := second } address) ∧
        address < limit := by
  simp only [contains_iff, toNat_min, toNat_max, UInt32.lt_iff_toNat_lt]
  omega

theorem lt_of_contains {span : Span} {address limit : UInt32} (inside : span.contains address)
    (within : span.stop ≤ limit) : address < limit :=
  UInt32.lt_of_lt_of_le (UInt32.lt_iff_toNat_lt.mpr (contains_iff.mp inside).2) within

end Span

namespace FunctionNode

/-! ## The next block -/

theorem le_firstStart {stop : UInt32} {blocks : List Span}
    (within : ∀ later ∈ blocks, stop ≤ later.start) : stop ≤ firstStart blocks := by
  cases blocks with
  | nil => exact UInt32.le_iff_toNat_le.mpr (Nat.le_of_lt_succ stop.toNat_lt)
  | cons next rest => exact within next List.mem_cons_self

/-- An address of a block is before the next block just if it is before all that start later. -/
theorem lt_firstStart_iff {block : Span} {before after : List Span} {address : UInt32}
    (below : ∀ other ∈ before, other.start ≤ block.start)
    (above : ∀ other ∈ after, block.start < other.start)
    (sorted : AddressSet.Sorted (after.map (·.start))) (inside : block.contains address) :
    address < firstStart after ↔
      ∀ later ∈ before ++ after, block.start < later.start → address < later.start := by
  constructor
  · intro next later member starts
    rcases List.mem_append.mp member with early | late
    · exact absurd starts (UInt32.not_lt.mpr (below later early))
    · exact UInt32.lt_of_lt_of_le next (firstStart_le sorted late)
  · intro all
    apply firstStart_gt (UInt32.lt_iff_toNat_lt.mpr (Span.contains_iff.mp inside).2)
    intro later late
    exact all later (List.mem_append_right _ late) (above later late)

/-! ## Placing a block -/

/-- What a cut takes from the last block goes up to the end that is given back. -/
theorem mem_covered_cutLast {start address : UInt32} {blocks : List Span}
    (below : ∀ block ∈ blocks, block.start < start) :
    address ∈ Span.covered blocks ↔
      address ∈ Span.covered (cutLast start blocks).1 ∨
        Span.contains { start, stop := (cutLast start blocks).2.getD 0 } address := by
  induction blocks with
  | nil => simp [cutLast, Span.contains_iff]
  | cons block rest ih =>
      cases rest with
      | nil =>
          have order := UInt32.lt_iff_toNat_lt.mp (below block List.mem_cons_self)
          simp only [cutLast]
          split
          next inside =>
            have := UInt32.lt_iff_toNat_lt.mp inside
            simp only [Span.mem_covered_cons, Span.mem_covered_nil, or_false,
              Option.getD_some, Span.contains_iff]
            omega
          next => simp [Span.contains_iff]
      | cons next rest =>
          have parts := ih fun other member => below other (List.mem_cons_of_mem _ member)
          change _ ↔ address ∈ Span.covered (block :: (cutLast start (next :: rest)).1) ∨
            Span.contains { start, stop := (cutLast start (next :: rest)).2.getD 0 } address
          rw [Span.mem_covered_cons, parts, Span.mem_covered_cons, or_assoc]

theorem exists_of_cutLast {address stop : UInt32} {blocks : List Span}
    (cut : (cutLast address blocks).2 = some stop) : ∃ former ∈ blocks, former.stop = stop := by
  induction blocks with
  | nil => cases cut
  | cons first rest ih =>
      cases rest with
      | nil =>
          simp only [cutLast] at cut
          split at cut
          · exact ⟨first, List.mem_cons_self, Option.some.inj cut⟩
          · cases cut
      | cons next rest =>
          obtain ⟨former, among, same⟩ := ih cut
          exact ⟨former, List.mem_cons_of_mem _ among, same⟩

theorem cutLast_le {start limit : UInt32} {blocks : List Span}
    (within : ∀ block ∈ blocks, block.stop ≤ limit) :
    (cutLast start blocks).2.getD 0 ≤ limit := by
  cases cut : (cutLast start blocks).2 with
  | none => exact UInt32.le_iff_toNat_le.mpr (Nat.zero_le _)
  | some stop =>
      obtain ⟨former, member, rfl⟩ := exists_of_cutLast cut
      exact within former member

theorem mem_covered_placeBlock {block : Span} {before after : List Span} {address : UInt32}
    (below : ∀ other ∈ before, other.start < block.start)
    (within : ∀ other ∈ before, other.stop ≤ firstStart after) :
    address ∈ Span.covered (placeBlock block before after) ↔
      address ∈ Span.covered (before ++ after) ∨
        block.contains address ∧ address < firstStart after := by
  -- The end taken from the block before is no later than the next start, so it is not cut off.
  have kept : Span.contains { start := block.start
                              stop := (cutLast block.start before).2.getD 0 } address →
      address < firstStart after := fun inside => Span.lt_of_contains inside (cutLast_le within)
  rw [placeBlock, Span.mem_covered_append, Span.mem_covered_cons, Span.contains_min_max,
    Span.mem_covered_append, mem_covered_cutLast below]
  tauto

/-- A block that starts where the new one does takes that in, up to the next block. -/
theorem mem_covered_grown {block same : Span} {before rest : List Span} {address : UInt32}
    (here : same.start = block.start) (within : same.stop ≤ firstStart rest) :
    address ∈ Span.covered (before ++
        { same with stop := min (max same.stop block.stop) (firstStart rest) } :: rest) ↔
      address ∈ Span.covered (before ++ same :: rest) ∨
        block.contains address ∧ address < firstStart rest := by
  have kept : same.contains address → address < firstStart rest := fun inside =>
    Span.lt_of_contains inside within
  have own : Span.contains { start := same.start, stop := block.stop } address =
      block.contains address := by rw [here]
  rw [Span.mem_covered_append, Span.mem_covered_cons, Span.contains_min_max, own,
    Span.mem_covered_append, Span.mem_covered_cons]
  tauto

/-- What blocks cover after one more is put among them. -/
theorem mem_covered_insertBlock {blocks : List Span} (placed : Placed blocks)
    (apart : Apart blocks) {block : Span} (nonempty : block.start < block.stop)
    (address : UInt32) :
    address ∈ Span.covered (insertBlock block blocks) ↔
      address ∈ Span.covered blocks ∨ block.contains address ∧
        ∀ later ∈ blocks, block.start < later.start → address < later.start := by
  have holds : block.isEmpty = false := by simpa [Span.isEmpty] using nonempty
  obtain ⟨before, after, same, taken, dropped, below, above⟩ := exists_place block blocks
  have sorted := placed.sorted
  rw [same, List.map_append] at sorted
  rw [same] at apart
  obtain ⟨_, afterSorted, _⟩ := List.pairwise_append.mp sorted
  obtain ⟨_, afterApart, between⟩ := List.pairwise_append.mp apart
  have placedCovers (beyond : ∀ other ∈ after, block.start < other.start) :
      address ∈ Span.covered (placeBlock block before after) ↔
        address ∈ Span.covered (before ++ after) ∨ block.contains address ∧
          ∀ later ∈ before ++ after, block.start < later.start → address < later.start := by
    rw [mem_covered_placeBlock below fun other early => le_firstStart (between other early)]
    exact or_congr_right (and_congr_right fun inside =>
      lt_firstStart_iff (fun other early => UInt32.le_of_lt (below other early)) beyond afterSorted
        inside)
  rw [insertBlock, holds, if_neg Bool.false_ne_true, taken, dropped, same]
  cases after with
  | nil => exact placedCovers fun _ member => absurd member List.not_mem_nil
  | cons next rest =>
      obtain ⟨nextBelow, restSorted⟩ := List.pairwise_cons.mp afterSorted
      obtain ⟨nextApart, _⟩ := List.pairwise_cons.mp afterApart
      have restAbove : ∀ other ∈ rest, next.start < other.start := fun other member =>
        nextBelow _ (List.mem_map_of_mem member)
      simp only
      split
      next here =>
        have early : ∀ other ∈ before ++ [next], other.start ≤ block.start := by
          intro other member
          rcases List.mem_append.mp member with first | last
          · exact UInt32.le_of_lt (below other first)
          · obtain rfl := List.mem_singleton.mp last
            exact UInt32.le_of_eq here
        rw [mem_covered_grown here (le_firstStart nextApart)]
        refine or_congr_right (and_congr_right fun inside => ?_)
        rw [lt_firstStart_iff early (here ▸ restAbove) restSorted inside, List.append_assoc,
          List.singleton_append]
      next there =>
        have beyond := UInt32.lt_of_le_of_ne (above next rest rfl) (Ne.symm there)
        refine placedCovers (List.forall_mem_cons.mpr ⟨beyond, ?_⟩)
        intro other member
        exact UInt32.lt_trans beyond (restAbove other member)

theorem covered_insertBlock_subset {blocks : List Span} (placed : Placed blocks)
    (apart : Apart blocks) (block : Span) :
    Span.covered (insertBlock block blocks) ⊆ Span.covered (block :: blocks) := by
  intro address inside
  rw [Span.mem_covered_cons]
  by_cases nonempty : block.start < block.stop
  · rcases (mem_covered_insertBlock placed apart nonempty address).mp inside with old | ⟨own, _⟩
    · exact Or.inr old
    · exact Or.inl own
  · have empty : block.isEmpty := by simpa [Span.isEmpty] using nonempty
    rw [insertBlock, if_pos empty] at inside
    exact Or.inr inside

end FunctionNode

/-! ## Changes of a graph -/

namespace Change

/-- After any changes, one more block of a function leaves all covered that was, and adds what it
has before the next block. So nothing of it is lost just if whatever it has past the start of a
later block was covered before. -/
theorem addBlock_covered (changes : List Change) {address : UInt32} {node : FunctionNode}
    (found : (performAll .empty changes).function? address = some node) {block : Span}
    (nonempty : block.start < block.stop) :
    ∃ after grown, (performAll .empty changes).addBlock address block = .ok after ∧
      after.function? address = some grown ∧
      Span.covered grown.blocks = Span.covered node.blocks ∪
        {inner | block.start ≤ inner ∧ inner < block.stop ∧
          ∀ later ∈ node.blocks, block.start < later.start → inner < later.start} ∧
      (Span.covered grown.blocks =
          Span.covered node.blocks ∪ {inner | block.start ≤ inner ∧ inner < block.stop} ↔
        ∀ later ∈ node.blocks, block.start < later.start →
          ∀ inner, later.start ≤ inner → inner < block.stop →
            inner ∈ Span.covered node.blocks) := by
  have wellFormed := (performAll_empty_wellFormed changes).nodes node (Graph.of_function? found).1
  have covers : Span.covered (node.addBlock block).blocks = Span.covered node.blocks ∪
      {inner | block.start ≤ inner ∧ inner < block.stop ∧
        ∀ later ∈ node.blocks, block.start < later.start → inner < later.start} := by
    ext inner
    rw [FunctionNode.addBlock,
      FunctionNode.mem_covered_insertBlock wellFormed.placed wellFormed.apart nonempty]
    simp [Span.contains, and_assoc]
  refine ⟨_, node.addBlock block, Graph.modify_eq_ok (by rw [found]; rfl) _, ?_, covers, ?_⟩
  · rw [Graph.function?_adjust_eq _ _ (Graph.addBlock_stays block), if_pos rfl, found]
    rfl
  · rw [covers]
    constructor
    · intro whole later member starts inner above below
      have inside : inner ∈ Span.covered node.blocks ∪
          {inner | block.start ≤ inner ∧ inner < block.stop} :=
        Or.inr ⟨UInt32.le_of_lt (UInt32.lt_of_lt_of_le starts above), below⟩
      rw [← whole] at inside
      rcases inside with old | ⟨_, _, before⟩
      · exact old
      · exact absurd above (UInt32.not_le.mpr (before later member starts))
    · intro rest
      ext inner
      constructor
      · rintro (old | ⟨above, below, _⟩)
        · exact Or.inl old
        · exact Or.inr ⟨above, below⟩
      · rintro (old | ⟨above, below⟩)
        · exact Or.inl old
        · by_cases reached : ∃ later ∈ node.blocks, block.start < later.start ∧
              later.start ≤ inner
          · obtain ⟨later, member, starts, past⟩ := reached
            exact Or.inl (rest later member starts inner past below)
          · refine Or.inr ⟨above, below, ?_⟩
            intro later member starts
            by_contra past
            exact reached ⟨later, member, starts, UInt32.not_lt.mp past⟩

/-- A block around a former one: what it has behind that is lost. -/
theorem addBlock_loses_rest :
    let graph := performAll .empty
      [.addFunction 0x1000 0 .discovered, .addBlock 0x1000 ⟨0x1004, 0x1008⟩]
    ∃ after grown, graph.addBlock 0x1000 ⟨0x1000, 0x1010⟩ = .ok after ∧
      after.function? 0x1000 = some grown ∧ 0x1008 ∉ Span.covered grown.blocks := by
  intro graph
  obtain ⟨after, grown, added, here, covers, _⟩ := addBlock_covered
    [.addFunction 0x1000 0 .discovered, .addBlock 0x1000 ⟨0x1004, 0x1008⟩]
    (show graph.function? 0x1000 = some
      { address := 0x1000, size := 8, authority := .discovered, blocks := [⟨0x1004, 0x1008⟩] }
      by decide) (show Span.start ⟨0x1000, 0x1010⟩ < Span.stop ⟨0x1000, 0x1010⟩ by decide)
  refine ⟨after, grown, added, here, ?_⟩
  rw [covers]
  rintro (old | ⟨_, _, before⟩)
  · simp [Span.covered, Span.contains] at old
  · exact absurd (before ⟨0x1004, 0x1008⟩ List.mem_cons_self (by decide)) (by decide)

end Change

end PowerLift
