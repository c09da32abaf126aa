import Mathlib
import PowerLift.Proofs.ControlFlow

/-!
One straight run of instructions: what a walk passes over, where it ends, and that it ends.
-/

namespace PowerLift

theorem Window.contains_iff {window : Window} {address : UInt32} :
    window.contains address ↔
      window.entry.toNat ≤ address.toNat ∧ address.toNat < window.limit.toNat := by
  simp [contains, UInt32.le_iff_toNat_le, UInt32.lt_iff_toNat_lt]

theorem Window.exists_index {window : Window} {address : UInt32} (entryWord : aligned window.entry)
    (word : aligned address) (inside : window.contains address) :
    ∃ index < window.wordCount, address.toNat = window.entry.toNat + 4 * index ∧
      window.entry + UInt32.ofNat (4 * index) = address := by
  have bounds := contains_iff.mp inside
  have number := aligned_iff.mp word
  have entryNumber := aligned_iff.mp entryWord
  have limit := address.toNat_lt
  refine ⟨(address.toNat - window.entry.toNat) / 4, ?_, by omega, ?_⟩
  · rw [wordCount, toNat_sub (by omega)]
    omega
  · apply UInt32.toNat_inj.mp
    rw [UInt32.toNat_add, UInt32.toNat_ofNat']
    omega

theorem Span.contains_iff {span : Span} {address : UInt32} :
    span.contains address ↔
      span.start.toNat ≤ address.toNat ∧ address.toNat < span.stop.toNat := by
  simp [contains, UInt32.le_iff_toNat_le, UInt32.lt_iff_toNat_lt]

theorem Scan.covers_iff {scan : Scan} {address : UInt32} :
    scan.covers address ↔ ∃ block ∈ scan.blocks, block.contains address := by
  simp [covers]

namespace Program

/-- The word after each instruction in the window has an address. -/
def Bounded (program : Program) (window : Window) : Prop :=
  ∀ address, aligned address → window.contains address → program.Usable address →
    address.toNat + 4 < UInt32.size

/-- A walk from an address to the end of a block, without a bound on its length. -/
inductive Walks (program : Program) (window : Window) (scan : Scan) (extent : UInt32) :
    UInt32 → UInt32 → Step → Prop
  | limit {address : UInt32} (past : window.limit ≤ address) :
      Walks program window scan extent address address {}
  | seen {address : UInt32} (covered : scan.covers address) :
      Walks program window scan extent address address {}
  | data {address : UInt32} (missing : program.instruction? address = none) :
      Walks program window scan extent address address {}
  | stop {address : UInt32} {insn : Instruction} (before : address < window.limit)
      (fresh : scan.covers address = false)
      (found : program.instruction? address = some insn) (ends : insn.endsBlock) :
      Walks program window scan extent address (address + 4) (program.step window extent insn)
  | next {address finish : UInt32} {insn : Instruction} {rest : Step}
      (before : address < window.limit) (fresh : scan.covers address = false)
      (found : program.instruction? address = some insn) (continues : insn.endsBlock = false)
      (onward : Walks program window scan extent (address + 4) finish rest) :
      Walks program window scan extent address finish
        ((program.step window extent insn).append rest)

/-- The fuel of a walk is enough when it counts the words up to the limit. -/
theorem walk_walks {program : Program} {window : Window} (bounded : program.Bounded window)
    (scan : Scan) (extent : UInt32) (fuel : Nat) (address : UInt32) (word : aligned address)
    (above : window.entry.toNat ≤ address.toNat)
    (enough : window.limit.toNat ≤ address.toNat + 4 * fuel) :
    program.Walks window scan extent address (program.walk window scan extent fuel address).1
      (program.walk window scan extent fuel address).2 := by
  induction fuel generalizing address with
  | zero =>
      exact .limit (UInt32.le_iff_toNat_le.mpr (by omega))
  | succ fuel ih =>
      simp only [walk]
      by_cases past : window.limit ≤ address
      · simpa [past] using Walks.limit past
      · by_cases covered : scan.covers address
        · simpa [covered] using Walks.seen covered
        · have before := UInt32.not_le.mp past
          have fresh : scan.covers address = false := by simpa using covered
          rw [if_neg (by simp [past, fresh])]
          cases found : program.instruction? address with
          | none => exact .data found
          | some insn =>
              simp only [step_stops]
              cases ends : insn.endsBlock with
              | true => exact .stop before fresh found ends
              | false =>
                  have inside : window.contains address :=
                    Window.contains_iff.mpr ⟨above, UInt32.lt_iff_toNat_lt.mp before⟩
                  have next := toNat_add_four (bounded address word inside ⟨insn, found⟩)
                  exact .next before fresh found ends
                    (ih (address + 4) (aligned_next word next) (by omega) (by omega))

/-- What a walk has passed over. -/
structure Passed (program : Program) (window : Window) (scan : Scan) (extent : UInt32)
    (start finish : UInt32) (step : Step) : Prop where
  le : start.toNat ≤ finish.toNat
  whole : finish.toNat % 4 = 0
  /-- Every word is a fresh instruction, and only the last may end the block. -/
  word : ∀ address, aligned address → start.toNat ≤ address.toNat →
    address.toNat < finish.toNat →
      address.toNat < window.limit.toNat ∧ scan.covers address = false ∧
        ∃ insn, program.instruction? address = some insn ∧
          (insn.endsBlock → address.toNat + 4 = finish.toNat) ∧
          ∀ target ∈ (program.step window extent insn).successors, target ∈ step.successors
  /-- Nothing else contributes. -/
  origin : ∀ target ∈ step.successors, ∃ address insn, aligned address ∧
    start.toNat ≤ address.toNat ∧ address.toNat < finish.toNat ∧
      program.instruction? address = some insn ∧
      target ∈ (program.step window extent insn).successors
  /-- There is a reason to end where it ends. -/
  closed : (∃ address insn, aligned address ∧ start.toNat ≤ address.toNat ∧
      address.toNat + 4 = finish.toNat ∧ program.instruction? address = some insn ∧
      insn.endsBlock) ∨
    window.limit.toNat ≤ finish.toNat ∨ scan.covers finish ∨
      program.instruction? finish = none

theorem Passed.refl {program : Program} {window : Window} {scan : Scan}
    {extent address : UInt32} (word : aligned address)
    (closed : window.limit.toNat ≤ address.toNat ∨ scan.covers address ∨
      program.instruction? address = none) :
    program.Passed window scan extent address address {} where
  le := Nat.le_refl _
  whole := aligned_iff.mp word
  word := fun _ _ after before => absurd before (Nat.not_lt.mpr after)
  origin := fun _ member => absurd member List.not_mem_nil
  closed := Or.inr closed

theorem Passed.last {program : Program} {window : Window} {scan : Scan}
    {extent address : UInt32} {insn : Instruction} (word : aligned address)
    (room : address.toNat + 4 < UInt32.size) (before : address.toNat < window.limit.toNat)
    (fresh : scan.covers address = false) (found : program.instruction? address = some insn)
    (ends : insn.endsBlock) :
    program.Passed window scan extent address (address + 4)
      (program.step window extent insn) := by
  have next := toNat_add_four room
  have first := aligned_iff.mp word
  refine ⟨by omega, by omega, ?_, ?_, ?_⟩
  · intro other otherWord after beforeNext
    have sameNumber : other.toNat = address.toNat := by
      have := aligned_iff.mp otherWord
      omega
    obtain rfl := UInt32.toNat_inj.mp sameNumber
    exact ⟨before, fresh, insn, found, fun _ => next.symm, fun _ member => member⟩
  · intro target member
    exact ⟨address, insn, word, Nat.le_refl _, by omega, found, member⟩
  · exact Or.inl ⟨address, insn, word, Nat.le_refl _, next.symm, found, ends⟩

theorem Passed.cons {program : Program} {window : Window} {scan : Scan}
    {extent address finish : UInt32} {insn : Instruction} {rest : Step}
    (word : aligned address) (room : address.toNat + 4 < UInt32.size)
    (before : address.toNat < window.limit.toNat) (fresh : scan.covers address = false)
    (found : program.instruction? address = some insn) (continues : insn.endsBlock = false)
    (passed : program.Passed window scan extent (address + 4) finish rest) :
    program.Passed window scan extent address finish
      ((program.step window extent insn).append rest) := by
  have next := toNat_add_four room
  have first := aligned_iff.mp word
  have onward := passed.le
  refine ⟨by omega, passed.whole, ?_, ?_, ?_⟩
  · intro other otherWord after beforeFinish
    by_cases here : other.toNat = address.toNat
    · obtain rfl := UInt32.toNat_inj.mp here
      refine ⟨before, fresh, insn, found, ?_, ?_⟩
      · intro ends
        rw [continues] at ends
        cases ends
      · intro target member
        exact List.mem_append_left _ member
    · have otherNumber := aligned_iff.mp otherWord
      obtain ⟨inside, otherFresh, otherInsn, otherFound, otherEnds, contributes⟩ :=
        passed.word other otherWord (by omega) beforeFinish
      refine ⟨inside, otherFresh, otherInsn, otherFound, otherEnds, ?_⟩
      intro target member
      exact List.mem_append_right _ (contributes target member)
  · intro target member
    rcases List.mem_append.mp member with own | later
    · exact ⟨address, insn, word, Nat.le_refl _, by omega, found, own⟩
    · obtain ⟨other, otherInsn, otherWord, after, beforeFinish, otherFound, contributed⟩ :=
        passed.origin target later
      exact ⟨other, otherInsn, otherWord, by omega, beforeFinish, otherFound, contributed⟩
  · rcases passed.closed with ⟨other, otherInsn, otherWord, after, last⟩ | reason
    · exact Or.inl ⟨other, otherInsn, otherWord, by omega, last⟩
    · exact Or.inr reason

theorem Walks.passed {program : Program} {window : Window} {scan : Scan}
    {extent start finish : UInt32} {step : Step} (bounded : program.Bounded window)
    (walks : program.Walks window scan extent start finish step)
    (above : window.entry.toNat ≤ start.toNat) (word : aligned start) :
    program.Passed window scan extent start finish step := by
  induction walks with
  | limit past => exact .refl word (Or.inl (UInt32.le_iff_toNat_le.mp past))
  | seen covered => exact .refl word (Or.inr (Or.inl covered))
  | data missing => exact .refl word (Or.inr (Or.inr missing))
  | @stop address insn before fresh found ends =>
      have below := UInt32.lt_iff_toNat_lt.mp before
      have room := bounded address word (Window.contains_iff.mpr ⟨above, below⟩) ⟨insn, found⟩
      exact .last word room below fresh found ends
  | @next address finish insn rest before fresh found continues onward ih =>
      have below := UInt32.lt_iff_toNat_lt.mp before
      have room := bounded address word (Window.contains_iff.mpr ⟨above, below⟩) ⟨insn, found⟩
      have next := toNat_add_four room
      exact .cons word room below fresh found continues
        (ih (by omega) (aligned_next word next))

end Program

end PowerLift
