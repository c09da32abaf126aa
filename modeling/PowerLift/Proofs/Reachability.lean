import Mathlib
import PowerLift.Proofs.Exploration

/-!
A scan computes the code that control reaches, in blocks that begin wherever control arrives.
-/

namespace PowerLift

namespace Scan

/-- A scan whose blocks make up one partition of the code that they cover. -/
structure WellFormed (scan : Scan) (program : Program) : Prop where
  ordered : scan.blocks.Pairwise (fun first second => first.stop ≤ second.start)
  nonempty : ∀ block ∈ scan.blocks, block.start < block.stop
  words : ∀ block ∈ scan.blocks, aligned block.start ∧ aligned block.stop
  /-- Only the last instruction of a block ends it. -/
  last : ∀ block ∈ scan.blocks, ∀ address insn, aligned address → block.contains address →
    program.instruction? address = some insn → insn.endsBlock → address + 4 = block.stop

theorem WellFormed.next_start {scan : Scan} {program : Program}
    (wellFormed : scan.WellFormed program) {block : Span} (member : block ∈ scan.blocks)
    {address : UInt32} (word : aligned address) (inside : block.contains address)
    (room : address.toNat + 4 < UInt32.size) (covered : scan.covers (address + 4)) :
    block.contains (address + 4) ∨ ∃ other ∈ scan.blocks, other.start = address + 4 := by
  obtain ⟨other, otherMember, otherInside⟩ := covers_iff.mp covered
  by_cases same : other = block
  · exact Or.inl (same ▸ otherInside)
  · refine Or.inr ⟨other, otherMember, UInt32.toNat_inj.mp ?_⟩
    have bounds := Span.contains_iff.mp inside
    have otherBounds := Span.contains_iff.mp otherInside
    have number := aligned_iff.mp word
    have stopNumber := aligned_iff.mp (wellFormed.words block member).2
    rw [toNat_add_four room] at otherBounds ⊢
    have apart : scan.blocks.Pairwise Span.Apart :=
      wellFormed.ordered.imp fun le => Or.inl (UInt32.le_iff_toNat_le.mp le)
    rcases apart.forall member otherMember (Ne.symm same) with before | after
    · omega
    · omega

end Scan

/-! ## Whole scans -/

namespace Exploration

theorem Tidy.result_covers {state : Exploration} {program : Program} {window : Window}
    (tidy : state.Tidy program window) (address : UInt32) :
    state.result.covers address ↔ state.scan.covers address := by
  rw [Scan.covers_iff, Scan.covers_iff]
  exact Scan.splitBlocks_contains tidy.splitsSorted
    (fun block member => (tidy.block block member).2) address

theorem Sound.covers_inside {state : Exploration} {program : Program} {window : Window}
    (sound : state.Sound program window) {address : UInt32} (word : aligned address)
    (covered : state.scan.covers address) : window.contains address := by
  obtain ⟨block, member, inside⟩ := Scan.covers_iff.mp covered
  have isBlock := sound.block block member
  exact Window.contains_iff.mpr ⟨Nat.le_trans isBlock.above (Span.contains_iff.mp inside).1,
    (isBlock.word address word inside).1⟩

theorem Sound.jump_lands {state : Exploration} {program : Program} {window : Window}
    (sound : state.Sound program window) (finished : state.pending = [])
    {address target : UInt32} {insn : Instruction} (word : aligned address)
    (covered : state.scan.covers address) (found : program.instruction? address = some insn)
    (jumps : program.Jumps window insn target) (inside : window.contains target)
    (targetWord : aligned target) (usable : program.Usable target) :
    (∃ block ∈ state.scan.blocks, block.start = target) ∨
      target ∈ state.splits ∧ ∃ block ∈ state.scan.blocks, block.contains target := by
  rcases sound.jump address insn target word covered found jumps inside targetWord usable with
    waiting | split | start
  · rw [finished] at waiting
    cases waiting
  · exact Or.inr ⟨split, Scan.covers_iff.mp (sound.splitsCovered target split).2⟩
  · exact Or.inl start

theorem Sound.covers_of_reaches {state : Exploration} {program : Program} {window : Window}
    (sound : state.Sound program window) (finished : state.pending = [])
    (entryWord : aligned window.entry) {address : UInt32}
    (reaches : program.Reaches window address) : aligned address ∧ state.scan.covers address := by
  induction reaches with
  | entry usable =>
      refine ⟨entryWord, (sound.entry usable).resolve_left ?_⟩
      simp [finished]
  | @flow source target insn reached found flows inside targetWord usable ih =>
      obtain ⟨sourceWord, sourceCovered⟩ := ih
      refine ⟨targetWord, ?_⟩
      rcases flows with jumps | ⟨continues, straight⟩
      · rcases sound.jump_lands finished sourceWord sourceCovered found jumps inside targetWord
          usable with ⟨block, member, rfl⟩ | ⟨_, block⟩
        · exact Scan.covers_iff.mpr ⟨block, member, (sound.block block member).contains_start⟩
        · exact Scan.covers_iff.mpr block
      · rw [Program.instruction?_address found] at straight
        subst straight
        exact sound.onward source insn sourceWord sourceCovered found continues inside usable

theorem Sound.wellFormed {state : Exploration} {program : Program} {window : Window}
    (sound : state.Sound program window) (tidy : state.Tidy program window) :
    state.result.WellFormed program := by
  have pieces : ∀ piece ∈ state.result.blocks, ∃ block : Span, block.IsBlock program window ∧
      block.start.toNat ≤ piece.start.toNat ∧ piece.start.toNat < piece.stop.toNat ∧
      piece.stop.toNat ≤ block.stop.toNat ∧ aligned piece.start ∧ aligned piece.stop := by
    intro piece member
    obtain ⟨block, blockMember, pieceMember⟩ := Scan.mem_splitBlocks.mp member
    have isBlock := sound.block block blockMember
    obtain ⟨after, nonempty, before, first, last⟩ := Scan.mem_cutAt
      (Scan.cuts_splitsIn tidy.splitsSorted block) isBlock.nonempty pieceMember
    have splitWord : ∀ split ∈ Scan.splitsIn block state.splits, aligned split :=
      fun split inside => (sound.splitsCovered split (Scan.mem_splitsIn.mp inside).1).1
    refine ⟨block, isBlock, after, nonempty, before, ?_, ?_⟩
    · rcases first with atStart | atSplit
      · exact atStart ▸ aligned_iff.mpr isBlock.startWord
      · exact splitWord _ atSplit
    · rcases last with atStop | atSplit
      · exact atStop ▸ aligned_iff.mpr isBlock.stopWord
      · exact splitWord _ atSplit
  constructor
  · exact Scan.splitBlocks_ordered tidy.splitsSorted
      (fun block member => (sound.block block member).nonempty) sound.apart
  · intro piece member
    obtain ⟨_, _, _, nonempty, _⟩ := pieces piece member
    exact UInt32.lt_iff_toNat_lt.mpr nonempty
  · intro piece member
    obtain ⟨_, _, _, _, _, words⟩ := pieces piece member
    exact words
  · intro piece member address insn word inside found ends
    obtain ⟨block, isBlock, after, _, before, _, stopWord⟩ := pieces piece member
    have bounds := Span.contains_iff.mp inside
    obtain ⟨_, _, ownFound, onlyLast⟩ := isBlock.word address word
      (Span.contains_iff.mpr ⟨by omega, by omega⟩)
    cases ownFound.symm.trans found
    have last := onlyLast ends
    have number := aligned_iff.mp word
    have stopNumber := aligned_iff.mp stopWord
    have room := block.stop.toNat_lt_size
    apply UInt32.toNat_inj.mp
    rw [toNat_add_four (by omega)]
    omega

end Exploration

namespace Program

/-- A scan computes what control reaches, as blocks in order that only their last instructions end
and that begin wherever control arrives from another block. -/
theorem scan_computes_reachability (program : Program) (entry limit : UInt32)
    (entryWord : aligned entry) (nonempty : entry < limit)
    (small : limit.toNat - entry.toNat + 4 ≤
      program.config.analysis.largeFunctionThreshold.toNat)
    (bounded : program.Bounded { entry, limit }) :
    (∀ address, aligned address →
      ((program.scan entry limit).covers address ↔ program.Reaches { entry, limit } address)) ∧
    (program.scan entry limit).WellFormed program ∧
    (∀ address insn target, aligned address → (program.scan entry limit).covers address →
      program.instruction? address = some insn → program.Jumps { entry, limit } insn target →
      Window.contains { entry, limit } target → aligned target → program.Usable target →
        ∃ block ∈ (program.scan entry limit).blocks, block.start = target) ∧
    (∀ block ∈ (program.scan entry limit).blocks, ∀ address insn, aligned address →
      block.contains address → program.instruction? address = some insn →
      insn.endsBlock = false → Window.contains { entry, limit } (address + 4) →
      program.Usable (address + 4) → block.contains (address + 4) ∨
        ∃ other ∈ (program.scan entry limit).blocks, other.start = address + 4) := by
  have admissible : Window.Admissible { entry, limit } program :=
    ⟨entryWord, nonempty, small, bounded⟩
  have explores := Exploration.run_start_explores bounded nonempty
  have finished := explores.finished
  have sound := explores.sound admissible (Exploration.sound_start admissible)
  have tidy := (Exploration.tidy_start program admissible.nonempty).run
    (scanFuel { entry, limit })
  rw [Exploration.scan_eq_result nonempty]
  have wellFormed := sound.wellFormed tidy
  refine ⟨?_, wellFormed, ?_, ?_⟩
  · intro address word
    rw [tidy.result_covers]
    exact ⟨sound.reached address word,
      fun reaches => (sound.covers_of_reaches finished entryWord reaches).2⟩
  · intro address insn target word covered found jumps inside targetWord usable
    exact Scan.splitBlocks_starts (sound.jump_lands finished word
      ((tidy.result_covers address).mp covered) found jumps inside targetWord usable)
  · intro block member address insn word inside found continues nextInside usable
    have covered := (tidy.result_covers address).mp (Scan.covers_iff.mpr ⟨block, member, inside⟩)
    have onward := sound.onward address insn word covered found continues nextInside usable
    have room := bounded address word (sound.covers_inside word covered) ⟨insn, found⟩
    exact wellFormed.next_start member word inside room ((tidy.result_covers _).mpr onward)

/-- Two additions, the second of which a branch back into the block repeats, and a return. -/
def countdown : Program where
  image := Image.ofCode 0x1000 #[0x38, 0x63, 0x00, 0x01, 0x38, 0x63, 0x00, 0x01,
    0x42, 0x00, 0xFF, 0xFC, 0x4E, 0x80, 0x00, 0x20]
  config := {}

theorem scan_countdown_splits :
    aligned 0x1000 ∧ (0x1000 : UInt32) < 0x1010 ∧
      countdown.Bounded { entry := 0x1000, limit := 0x1010 } ∧
      (countdown.scan 0x1000 0x1010).covers 0x1008 ∧
      ∃ block ∈ (countdown.scan 0x1000 0x1010).blocks, block.start = 0x1004 := by
  have bounded : countdown.Bounded { entry := 0x1000, limit := 0x1010 } := by
    intro address _ inside _
    have below : address.toNat < 0x1010 := (Window.contains_iff.mp inside).2
    change _ < 4294967296
    omega
  have addition : countdown.instruction? 0x1000 =
      some (Instruction.decode 0x1000 0x38630001) := by decide +kernel
  have repeated : countdown.instruction? 0x1004 =
      some (Instruction.decode 0x1004 0x38630001) := by decide +kernel
  have branch : countdown.instruction? 0x1008 =
      some (Instruction.decode 0x1008 0x4200FFFC) := by decide +kernel
  have first : countdown.Reaches { entry := 0x1000, limit := 0x1010 } 0x1000 :=
    .entry ⟨_, addition⟩
  have second : countdown.Reaches { entry := 0x1000, limit := 0x1010 } 0x1004 :=
    .flow first addition (Or.inr (by decide +kernel)) (by decide) (by decide) ⟨_, repeated⟩
  have third : countdown.Reaches { entry := 0x1000, limit := 0x1010 } 0x1008 :=
    .flow second repeated (Or.inr (by decide +kernel)) (by decide) (by decide) ⟨_, branch⟩
  obtain ⟨reachable, _, lands, _⟩ :=
    scan_computes_reachability countdown 0x1000 0x1010 (by decide) (by decide) (by decide) bounded
  have covered := (reachable 0x1008 (by decide)).mpr third
  refine ⟨by decide, by decide, bounded, covered, ?_⟩
  exact lands 0x1008 _ 0x1004 (by decide) covered branch
    (.branch (by decide +kernel) (by decide +kernel)) (by decide) (by decide) ⟨_, repeated⟩

end Program

end PowerLift
