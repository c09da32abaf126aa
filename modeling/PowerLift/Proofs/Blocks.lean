import Mathlib
import PowerLift.Proofs.Worklist

/-!
Cutting blocks at branch targets: it keeps what is covered, and makes every target begin a block.
What a scan gives lies in its window, whatever the code.
-/

namespace PowerLift

/-- Two spans without a common address. -/
def Span.Apart (first second : Span) : Prop :=
  first.stop.toNat ≤ second.start.toNat ∨ second.stop.toNat ≤ first.start.toNat

instance : Std.Symm Span.Apart where
  symm _ _ apart := Or.symm apart

theorem Span.mergeSort_ordered (spans : List Span) :
    (spans.mergeSort fun a b => a.start ≤ b.start).Pairwise
      (fun first second => first.start.toNat ≤ second.start.toNat) := by
  refine (List.pairwise_mergeSort ?_ ?_ spans).imp ?_
  · intro first second third firstSecond secondThird
    simp only [decide_eq_true_eq, UInt32.le_iff_toNat_le] at *
    omega
  · intro first second
    simp only [Bool.or_eq_true, decide_eq_true_eq, UInt32.le_iff_toNat_le]
    omega
  · intro first second le
    simpa [UInt32.le_iff_toNat_le] using le

namespace Scan

/-! ## Cutting one block -/

/-- The places where a block can be cut: inside, in increasing order. -/
def Cuts (start stop : UInt32) (splits : List UInt32) : Prop :=
  AddressSet.Sorted splits ∧
    ∀ split ∈ splits, start.toNat < split.toNat ∧ split.toNat < stop.toNat

theorem Cuts.tail {start stop split : UInt32} {rest : List UInt32}
    (cuts : Cuts start stop (split :: rest)) : Cuts split stop rest := by
  obtain ⟨sorted, inside⟩ := cuts
  obtain ⟨above, restSorted⟩ := List.pairwise_cons.mp sorted
  refine ⟨restSorted, ?_⟩
  intro other member
  exact ⟨UInt32.lt_iff_toNat_lt.mp (above other member),
    (inside other (List.mem_cons_of_mem _ member)).2⟩

theorem mem_cutAt {start stop : UInt32} {splits : List UInt32} (cuts : Cuts start stop splits)
    (order : start.toNat < stop.toNat) {piece : Span} (member : piece ∈ cutAt start stop splits) :
    start.toNat ≤ piece.start.toNat ∧ piece.start.toNat < piece.stop.toNat ∧
      piece.stop.toNat ≤ stop.toNat ∧ (piece.start = start ∨ piece.start ∈ splits) ∧
      (piece.stop = stop ∨ piece.stop ∈ splits) := by
  induction splits generalizing start with
  | nil =>
      obtain rfl := List.mem_singleton.mp member
      exact ⟨Nat.le_refl _, order, Nat.le_refl _, Or.inl rfl, Or.inl rfl⟩
  | cons split rest ih =>
      obtain ⟨above, below⟩ := cuts.2 split List.mem_cons_self
      rcases List.mem_cons.mp member with rfl | later
      · exact ⟨Nat.le_refl _, above, Nat.le_of_lt below, Or.inl rfl, Or.inr List.mem_cons_self⟩
      · obtain ⟨after, nonempty, before, first, last⟩ := ih cuts.tail below later
        refine ⟨by omega, nonempty, before, Or.inr ?_, last.imp_right (List.mem_cons_of_mem _)⟩
        rcases first with atSplit | atLater
        · exact atSplit ▸ List.mem_cons_self
        · exact List.mem_cons_of_mem _ atLater

theorem cutAt_ordered {start stop : UInt32} {splits : List UInt32}
    (cuts : Cuts start stop splits) (order : start.toNat < stop.toNat) :
    (cutAt start stop splits).Pairwise (fun first second => first.stop ≤ second.start) := by
  induction splits generalizing start with
  | nil => exact List.pairwise_singleton _ _
  | cons split rest ih =>
      have below := (cuts.2 split List.mem_cons_self).2
      refine List.pairwise_cons.mpr ⟨?_, ih cuts.tail below⟩
      intro piece member
      exact UInt32.le_iff_toNat_le.mpr (mem_cutAt cuts.tail below member).1

theorem cutAt_contains {start stop : UInt32} {splits : List UInt32}
    (cuts : Cuts start stop splits) (order : start.toNat < stop.toNat) (address : UInt32) :
    (∃ piece ∈ cutAt start stop splits, piece.contains address) ↔
      Span.contains { start, stop } address := by
  induction splits generalizing start with
  | nil => simp [cutAt]
  | cons split rest ih =>
      obtain ⟨above, below⟩ := cuts.2 split List.mem_cons_self
      rw [cutAt, List.exists_mem_cons_iff, ih cuts.tail below]
      simp only [Span.contains_iff]
      omega

theorem cutAt_starts {start : UInt32} (stop : UInt32) {splits : List UInt32} {address : UInt32}
    (cut : address = start ∨ address ∈ splits) :
    ∃ piece ∈ cutAt start stop splits, piece.start = address := by
  induction splits generalizing start with
  | nil =>
      obtain rfl := cut.resolve_right List.not_mem_nil
      exact ⟨_, List.mem_singleton.mpr rfl, rfl⟩
  | cons split rest ih =>
      rcases cut with rfl | inside
      · exact ⟨_, List.mem_cons_self, rfl⟩
      · obtain ⟨piece, member, same⟩ := ih (List.mem_cons.mp inside)
        exact ⟨piece, List.mem_cons_of_mem _ member, same⟩

/-! ## Cutting all blocks -/

/-- The cuts of one block among all splits. -/
def splitsIn (block : Span) (splits : List UInt32) : List UInt32 :=
  splits.filter fun split => block.start < split && split < block.stop

theorem mem_splitsIn {block : Span} {splits : List UInt32} {split : UInt32} :
    split ∈ splitsIn block splits ↔
      split ∈ splits ∧ block.start.toNat < split.toNat ∧ split.toNat < block.stop.toNat := by
  simp [splitsIn, UInt32.lt_iff_toNat_lt]

theorem cuts_splitsIn {splits : List UInt32} (sorted : AddressSet.Sorted splits) (block : Span) :
    Cuts block.start block.stop (splitsIn block splits) :=
  ⟨sorted.filter _, fun _ member => (mem_splitsIn.mp member).2⟩

theorem mem_splitBlocks {blocks : List Span} {splits : List UInt32} {piece : Span} :
    piece ∈ splitBlocks blocks splits ↔
      ∃ block ∈ blocks, piece ∈ cutAt block.start block.stop (splitsIn block splits) := by
  simp [splitBlocks, splitsIn]

theorem splitBlocks_ordered {blocks : List Span} {splits : List UInt32}
    (sorted : AddressSet.Sorted splits)
    (nonempty : ∀ block ∈ blocks, block.start.toNat < block.stop.toNat)
    (apart : blocks.Pairwise Span.Apart) :
    (splitBlocks blocks splits).Pairwise
      (fun first second => first.stop ≤ second.start) := by
  have byStart := Span.mergeSort_ordered blocks
  have stillApart : (blocks.mergeSort fun a b => a.start ≤ b.start).Pairwise Span.Apart :=
    (List.mergeSort_perm blocks _).symm.pairwise apart fun related => Or.symm related
  refine List.pairwise_flatMap.mpr ⟨?_, ?_⟩
  · intro block member
    exact cutAt_ordered (cuts_splitsIn sorted block) (nonempty block (List.mem_mergeSort.mp member))
  · refine (byStart.and stillApart).imp_of_mem ?_
    intro first second firstMember secondMember ⟨startOrder, separate⟩ piece pieceMember other
      otherMember
    have firstOrder := nonempty first (List.mem_mergeSort.mp firstMember)
    have secondOrder := nonempty second (List.mem_mergeSort.mp secondMember)
    have pieceBounds := mem_cutAt (cuts_splitsIn sorted first) firstOrder pieceMember
    have otherBounds := mem_cutAt (cuts_splitsIn sorted second) secondOrder otherMember
    rw [UInt32.le_iff_toNat_le]
    rcases separate with before | after
    · omega
    · omega

theorem splitBlocks_contains {blocks : List Span} {splits : List UInt32}
    (sorted : AddressSet.Sorted splits)
    (nonempty : ∀ block ∈ blocks, block.start.toNat < block.stop.toNat) (address : UInt32) :
    (∃ piece ∈ splitBlocks blocks splits, piece.contains address) ↔
      ∃ block ∈ blocks, block.contains address := by
  constructor
  · rintro ⟨piece, member, inside⟩
    obtain ⟨block, blockMember, pieceMember⟩ := mem_splitBlocks.mp member
    exact ⟨block, blockMember, (cutAt_contains (cuts_splitsIn sorted block)
      (nonempty block blockMember) address).mp ⟨piece, pieceMember, inside⟩⟩
  · rintro ⟨block, blockMember, inside⟩
    obtain ⟨piece, pieceMember, pieceInside⟩ := (cutAt_contains (cuts_splitsIn sorted block)
      (nonempty block blockMember) address).mpr inside
    exact ⟨piece, mem_splitBlocks.mpr ⟨block, blockMember, pieceMember⟩, pieceInside⟩

theorem splitBlocks_starts {blocks : List Span} {splits : List UInt32} {address : UInt32}
    (cut : (∃ block ∈ blocks, block.start = address) ∨
      address ∈ splits ∧ ∃ block ∈ blocks, block.contains address) :
    ∃ piece ∈ splitBlocks blocks splits, piece.start = address := by
  rcases cut with ⟨block, member, same⟩ | ⟨split, block, member, inside⟩
  · have place : address = block.start ∨ address ∈ splitsIn block splits := Or.inl same.symm
    obtain ⟨piece, pieceMember, start⟩ := cutAt_starts block.stop place
    exact ⟨piece, mem_splitBlocks.mpr ⟨block, member, pieceMember⟩, start⟩
  · have bounds := Span.contains_iff.mp inside
    have place : address = block.start ∨ address ∈ splitsIn block splits := by
      by_cases same : address = block.start
      · exact Or.inl same
      · have different : address.toNat ≠ block.start.toNat := mt UInt32.toNat_inj.mp same
        exact Or.inr (mem_splitsIn.mpr ⟨split, by omega, bounds.2⟩)
    obtain ⟨piece, pieceMember, start⟩ := cutAt_starts block.stop place
    exact ⟨piece, mem_splitBlocks.mpr ⟨block, member, pieceMember⟩, start⟩

end Scan

/-! ## Whole scans -/

namespace Exploration

/-- The scan that a finished exploration gives. -/
def result (state : Exploration) : Scan :=
  { state.scan with blocks := Scan.splitBlocks state.scan.blocks state.splits }

theorem scan_eq_result {program : Program} {entry limit : UInt32} (nonempty : entry < limit) :
    program.scan entry limit = (run program { entry, limit }
      (Program.scanFuel { entry, limit }) (start { entry, limit })).result := by
  rw [Program.scan, if_neg (UInt32.not_le.mpr nonempty)]
  rfl

theorem Tidy.result_block {state : Exploration} {program : Program} {window : Window}
    (tidy : state.Tidy program window) {piece : Span} (member : piece ∈ state.result.blocks) :
    window.contains piece.start ∧ piece.start.toNat < piece.stop.toNat := by
  obtain ⟨block, blockMember, pieceMember⟩ := Scan.mem_splitBlocks.mp member
  obtain ⟨inside, order⟩ := tidy.block block blockMember
  obtain ⟨_, nonempty, _, first, _⟩ :=
    Scan.mem_cutAt (Scan.cuts_splitsIn tidy.splitsSorted block) order pieceMember
  refine ⟨?_, nonempty⟩
  rcases first with atStart | atSplit
  · exact atStart ▸ inside
  · exact tidy.splitsInside _ (Scan.mem_splitsIn.mp atSplit).1

end Exploration

namespace Program

theorem scan_cases (program : Program) (entry limit : UInt32) :
    program.scan entry limit = { limit } ∨
      ∃ state : Exploration, state.Tidy program { entry, limit } ∧
        program.scan entry limit = state.result := by
  by_cases nonempty : entry < limit
  · exact Or.inr ⟨_, (Exploration.tidy_start program nonempty).run _,
      Exploration.scan_eq_result nonempty⟩
  · exact Or.inl (if_pos (UInt32.not_lt.mp nonempty))

@[simp] theorem scan_limit (program : Program) (entry limit : UInt32) :
    (program.scan entry limit).limit = limit := by
  rcases program.scan_cases entry limit with empty | ⟨state, tidy, result⟩
  · rw [empty]
  · rw [result]
    exact tidy.limit

theorem scan_recorded (program : Program) (entry limit : UInt32) :
    program.Recorded (program.scan entry limit).calls
      (program.scan entry limit).newEntries := by
  rcases program.scan_cases entry limit with empty | ⟨state, tidy, result⟩
  · rw [empty]
    exact .nil _
  · rw [result]
    exact tidy.called

theorem scan_block {program : Program} {entry limit : UInt32} {block : Span}
    (member : block ∈ (program.scan entry limit).blocks) :
    Window.contains { entry, limit } block.start ∧ block.start.toNat < block.stop.toNat := by
  rcases program.scan_cases entry limit with empty | ⟨state, tidy, result⟩
  · rw [empty] at member
    cases member
  · rw [result] at member
    exact tidy.result_block member

end Program

end PowerLift
