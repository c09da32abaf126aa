import Mathlib
import PowerLift.Proofs.Blocks

/-!
A scan that finds a block at all finds one at the entry. The first walk begins there; if it runs
past the last address and leaves no block behind, then so does every other.
-/

namespace PowerLift

namespace Program

/-- Where a walk ends as long as nothing is covered. -/
def freshEnd (program : Program) (window : Window) : Nat → UInt32 → UInt32
  | 0, address => address
  | fuel + 1, address =>
    if window.limit ≤ address then address
    else
      match program.instruction? address with
      | none => address
      | some insn =>
        if insn.endsBlock then address + 4 else freshEnd program window fuel (address + 4)

theorem walk_fst {program : Program} {window : Window} {scan : Scan} (empty : scan.blocks = [])
    (extent : UInt32) (fuel : Nat) (address : UInt32) :
    (program.walk window scan extent fuel address).1 =
      program.freshEnd window fuel address := by
  have fresh (other : UInt32) : scan.covers other = false := by simp [Scan.covers, empty]
  induction fuel generalizing address with
  | zero => rfl
  | succ fuel ih =>
      simp only [walk, freshEnd, fresh, Bool.or_false, decide_eq_true_eq, step_stops]
      split
      · rfl
      · cases program.instruction? address with
        | none => rfl
        | some insn =>
            simp only
            split
            · rfl
            · exact ih (address + 4)

theorem freshEnd_add (program : Program) (window : Window) (fuel extra : Nat)
    (address : UInt32) :
    ∃ count ≤ extra, program.freshEnd window (fuel + extra) address =
      program.freshEnd window fuel address + UInt32.ofNat (4 * count) := by
  induction fuel generalizing address with
  | zero =>
      rw [Nat.zero_add, freshEnd]
      induction extra generalizing address with
      | zero => exact ⟨0, Nat.le_refl _, by simp [freshEnd]⟩
      | succ extra ih =>
          simp only [freshEnd]
          split
          · exact ⟨0, Nat.zero_le _, by simp⟩
          · split
            · exact ⟨0, Nat.zero_le _, by simp⟩
            · split
              · exact ⟨1, by omega, rfl⟩
              · obtain ⟨count, few, same⟩ := ih (address + 4)
                refine ⟨count + 1, by omega, ?_⟩
                rw [same, UInt32.add_assoc, Nat.mul_succ, UInt32.ofNat_add, UInt32.add_comm 4]
                rfl
  | succ fuel ih =>
      rw [Nat.add_right_comm]
      simp only [freshEnd]
      split
      · exact ⟨0, Nat.zero_le _, by simp⟩
      · split
        · exact ⟨0, Nat.zero_le _, by simp⟩
        · split
          · exact ⟨0, Nat.zero_le _, by simp⟩
          · exact ih (address + 4)

/-- A first walk that leaves no block behind goes through all words up to the limit, so that a walk
from any of them ends where it ends. -/
theorem freshEnd_of_wrapped {program : Program} {window : Window} {fuel : Nat}
    (usable : program.Usable window.entry)
    (wrapped : (program.freshEnd window fuel window.entry).toNat ≤ window.entry.toNat)
    (count : Nat) (inside : window.entry.toNat + 4 * count < window.limit.toNat)
    (enough : count < fuel) :
    program.freshEnd window (fuel - count) (window.entry + UInt32.ofNat (4 * count)) =
      program.freshEnd window fuel window.entry := by
  induction count with
  | zero => simp
  | succ count ih =>
      have same := ih (by omega) (by omega)
      have top := window.limit.toNat_lt
      have place : (window.entry + UInt32.ofNat (4 * count)).toNat =
          window.entry.toNat + 4 * count := by
        rw [UInt32.toNat_add, UInt32.toNat_ofNat']
        omega
      have next : window.entry + UInt32.ofNat (4 * count) + 4 =
          window.entry + UInt32.ofNat (4 * (count + 1)) := by
        rw [UInt32.add_assoc, Nat.mul_succ, UInt32.ofNat_add]
        rfl
      have after : (window.entry + UInt32.ofNat (4 * count) + 4).toNat =
          window.entry.toNat + 4 * count + 4 := by
        rw [toNat_add_four (by change _ < 4294967296; omega), place]
      have before : ¬ window.limit ≤ window.entry + UInt32.ofNat (4 * count) := by
        rw [UInt32.le_iff_toNat_le]
        omega
      rw [← same, show fuel - count = fuel - (count + 1) + 1 by omega, freshEnd, if_neg before,
        ← next]
      rw [show fuel - count = fuel - (count + 1) + 1 by omega, freshEnd, if_neg before] at same
      cases found : program.instruction? (window.entry + UInt32.ofNat (4 * count)) with
      | none =>
          -- Only the entry itself is not past the entry, and it is an instruction.
          simp only [found] at same
          have first : count = 0 := by
            rw [← same, place] at wrapped
            omega
          obtain ⟨insn, atEntry⟩ := usable
          rw [first] at found
          simp [atEntry] at found
      | some insn =>
          simp only [found] at same ⊢
          split
          next ends =>
            rw [if_pos ends] at same
            rw [← same, after] at wrapped
            omega
          next => rfl

theorem freshEnd_le {program : Program} {window : Window} (entryWord : aligned window.entry)
    (usable : program.Usable window.entry)
    (wrapped : program.freshEnd window (window.wordCount + 1) window.entry ≤ window.entry)
    {start : UInt32} (inside : window.contains start) (word : aligned start) :
    program.freshEnd window (window.wordCount + 1) start ≤ start := by
  obtain ⟨index, few, distance, place⟩ := Window.exists_index entryWord word inside
  have bounds := Window.contains_iff.mp inside
  rw [UInt32.le_iff_toNat_le] at wrapped ⊢
  have shorter := freshEnd_of_wrapped usable wrapped index (by omega) (by omega)
  obtain ⟨extra, atMost, longer⟩ :=
    program.freshEnd_add window (window.wordCount + 1 - index) index start
  rw [place] at shorter
  rw [Nat.sub_add_cancel (by omega), shorter] at longer
  rw [longer, UInt32.toNat_add, UInt32.toNat_ofNat']
  omega

end Program

namespace Exploration

theorem visit_blocks (program : Program) (window : Window) (state : Exploration)
    (start : UInt32) :
    state.scan.blocks ⊆ (visit program window state start).scan.blocks := by
  intro block member
  rcases visit_cases program window state start with
    ⟨equation, _⟩ | ⟨equation, _⟩ | ⟨finish, step, _, equation, _⟩
  · rwa [equation]
  · rwa [equation]
  · rw [equation]
    simp only [record]
    split
    · exact List.mem_append_left _ member
    · exact member

theorem run_blocks (program : Program) (window : Window) (fuel : Nat) (state : Exploration) :
    state.scan.blocks ⊆ (run program window fuel state).scan.blocks := by
  induction fuel generalizing state with
  | zero => exact fun _ member => member
  | succ fuel ih =>
      rw [run]
      split
      · exact fun _ member => member
      next pending _ =>
        exact fun _ member => ih _ (visit_blocks program window { state with pending } _ member)

theorem run_empty {program : Program} {window : Window}
    (vain : ∀ start, window.contains start → aligned start →
      program.freshEnd window (window.wordCount + 1) start ≤ start)
    (fuel : Nat) {state : Exploration} (empty : state.scan.blocks = []) :
    (run program window fuel state).scan.blocks = [] := by
  induction fuel generalizing state with
  | zero => exact empty
  | succ fuel ih =>
      rw [run]
      split
      · exact empty
      next start pending _ =>
        apply ih
        rcases visit_cases program window { state with pending } start with
          ⟨equation, _⟩ | ⟨equation, _⟩ | ⟨finish, step, walked, equation, inside, word, _⟩
        · rw [equation]
          exact empty
        · rw [equation]
          exact empty
        · have ends : finish = program.freshEnd window (window.wordCount + 1) start := by
            rw [← Program.walk_fst empty state.extent]
            exact (congrArg Prod.fst walked).symm
          rw [equation, record, if_neg (UInt32.not_lt.mpr (ends ▸ vain start inside word))]
          exact empty

theorem run_done (program : Program) (window : Window) (fuel : Nat) {state : Exploration}
    (finished : state.pending = []) : run program window fuel state = state := by
  cases fuel with
  | zero => rfl
  | succ fuel => rw [run, finished]

theorem walkFrom_unusable {program : Program} {window : Window} {state : Exploration}
    {start : UInt32} (unusable : ¬ program.Usable start) :
    walkFrom program window state start = (start, {}) := by
  have missing : program.instruction? start = none :=
    Option.eq_none_iff_forall_ne_some.mpr fun insn found => unusable ⟨insn, found⟩
  simp only [walkFrom, Program.walk, missing]
  split <;> rfl

theorem run_start_entry (program : Program) (window : Window) (fuel : Nat) :
    (run program window fuel (start window)).scan.blocks = [] ∨
      ∃ block ∈ (run program window fuel (start window)).scan.blocks,
        block.start = window.entry := by
  cases fuel with
  | zero => exact Or.inl rfl
  | succ fuel =>
      change (run program window fuel (visit program window
          { start window with pending := [] } window.entry)).scan.blocks = [] ∨
        ∃ block ∈ (run program window fuel (visit program window
          { start window with pending := [] } window.entry)).scan.blocks, _
      rcases visit_cases program window { start window with pending := [] } window.entry with
        ⟨equation, _⟩ | ⟨equation, _⟩ | ⟨finish, step, walked, equation, inside, word, _⟩
      · rw [equation, run_done program window fuel rfl]
        exact Or.inl rfl
      · rw [equation, run_done program window fuel rfl]
        exact Or.inl rfl
      · rw [equation]
        by_cases nonempty : window.entry < finish
        · refine Or.inr ⟨{ start := window.entry, stop := finish }, ?_, rfl⟩
          apply run_blocks
          simp [record, nonempty]
        · have empty : (record { start window with pending := [] } window window.entry finish
              step).scan.blocks = [] := by
            simp [record, nonempty, start]
          left
          by_cases usable : program.Usable window.entry
          · -- The walk ran past the last address, and so will all others.
            have ends : finish =
                program.freshEnd window (window.wordCount + 1) window.entry := by
              have none : (start window).scan.blocks = [] := rfl
              rw [← Program.walk_fst none (start window).extent]
              exact (congrArg Prod.fst walked).symm
            refine run_empty ?_ fuel empty
            intro other otherInside otherWord
            exact Program.freshEnd_le word usable (ends ▸ UInt32.not_lt.mp nonempty) otherInside
              otherWord
          · -- Nothing is pending any more.
            rw [walkFrom_unusable usable] at walked
            obtain ⟨rfl, rfl⟩ := Prod.mk.inj walked
            rw [run_done program window fuel (by simp [record, AddressSet.insertAll])]
            exact empty

end Exploration

/-- The entry begins a block unless there is none. -/
theorem Program.scan_entry {program : Program} {entry limit : UInt32}
    (found : (program.scan entry limit).blocks ≠ []) :
    ∃ block ∈ (program.scan entry limit).blocks, block.start = entry := by
  by_cases nonempty : entry < limit
  · rw [Exploration.scan_eq_result nonempty] at found ⊢
    rcases Exploration.run_start_entry program { entry, limit } (scanFuel { entry, limit }) with
      empty | begun
    · exact absurd (by simp [Exploration.result, empty, Scan.splitBlocks]) found
    · exact Scan.splitBlocks_starts (Or.inl begun)
  · rw [Program.scan, if_pos (UInt32.not_lt.mp nonempty)] at found
    exact absurd rfl found

end PowerLift
