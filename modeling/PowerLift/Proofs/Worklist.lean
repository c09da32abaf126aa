import Mathlib
import PowerLift.Proofs.Walk

/-!
The worklist of a scan as such: what it keeps in every state, whatever the code, and that it comes
to an end.
-/

namespace PowerLift

/-! ## Calls -/

namespace Program

/-- Every function that is called, if its address can be an entry, is among the entries. -/
def Recorded (program : Program) (calls : List Call) (entries : List UInt32) : Prop :=
  ∀ call ∈ calls, ∀ target, call.target = some target → program.isCodeAddress target →
    target ∈ entries

theorem Recorded.nil {program : Program} (entries : List UInt32) :
    program.Recorded [] entries :=
  fun _ member => absurd member List.not_mem_nil

theorem Recorded.append {program : Program} {firstCalls secondCalls : List Call}
    {firstEntries secondEntries : List UInt32} (first : program.Recorded firstCalls firstEntries)
    (second : program.Recorded secondCalls secondEntries) :
    program.Recorded (firstCalls ++ secondCalls) (firstEntries ++ secondEntries) := by
  intro call member target called code
  rcases List.mem_append.mp member with early | late
  · exact List.mem_append_left _ (first call early target called code)
  · exact List.mem_append_right _ (second call late target called code)

theorem callStep_recorded (program : Program) (call : Call) :
    program.Recorded (program.callStep call).calls (program.callStep call).newEntries := by
  intro other member target called code
  obtain rfl := List.mem_singleton.mp member
  simp [callStep, called, code]

theorem indirectStep_recorded (program : Program) (window : Window) (insn : Instruction) :
    program.Recorded (program.indirectStep window insn).calls
      (program.indirectStep window insn).newEntries := by
  unfold indirectStep
  split
  · exact .nil _
  · split
    · intro call member target called
      obtain rfl := List.mem_singleton.mp member
      cases called
    · split <;> exact .nil _

theorem ownStep_recorded (program : Program) (window : Window) (reached : UInt32)
    (insn : Instruction) :
    program.Recorded (program.ownStep window reached insn).calls
      (program.ownStep window reached insn).newEntries := by
  simp only [ownStep]
  by_cases trap : insn.group = .trap
  · simpa only [trap, if_true] using .nil _
  · by_cases system : insn.opcode = .sc
    · simpa only [trap, system, if_true, if_false] using .nil _
    · by_cases interrupt : insn.opcode = .rfid
      · simpa only [trap, system, interrupt, if_true, if_false] using .nil _
      · simp only [trap, system, interrupt, if_false]
        cases insn.effects.transfer with
        | none => exact .nil _
        | call =>
            cases insn.target with
            | none => exact .nil _
            | some target =>
                simp only
                split
                · exact .nil _
                · exact callStep_recorded program _
        | indirectCall =>
            intro call member target called
            obtain rfl := List.mem_singleton.mp member
            cases called
        | ret => exact .nil _
        | indirectJump => exact indirectStep_recorded program window insn
        | jump =>
            cases insn.target with
            | none => exact .nil _
            | some target =>
                simp only
                split
                · exact .nil _
                · exact callStep_recorded program _
        | conditional =>
            cases insn.target with
            | none => exact .nil _
            | some target =>
                simp only
                split
                · exact .nil _
                · exact callStep_recorded program _

theorem walk_recorded (program : Program) (window : Window) (scan : Scan) (extent : UInt32)
    (fuel : Nat) (address : UInt32) :
    program.Recorded (program.walk window scan extent fuel address).2.calls
      (program.walk window scan extent fuel address).2.newEntries := by
  induction fuel generalizing address with
  | zero => exact .nil _
  | succ fuel ih =>
      simp only [walk]
      split
      · exact .nil _
      · split
        · exact .nil _
        next insn _ =>
          split
          · exact ownStep_recorded program window _ insn
          · exact (ownStep_recorded program window _ insn).append (ih (address + 4))

end Program

/-! ## What every state keeps -/

namespace Exploration

/-- What holds of every scan under way: all places lie in the window. -/
structure Tidy (state : Exploration) (program : Program) (window : Window) : Prop where
  limit : state.scan.limit = window.limit
  block : ∀ block ∈ state.scan.blocks,
    window.contains block.start ∧ block.start.toNat < block.stop.toNat
  called : program.Recorded state.scan.calls state.scan.newEntries
  pendingSorted : AddressSet.Sorted state.pending
  pendingInside : ∀ address ∈ state.pending, window.contains address
  splitsSorted : AddressSet.Sorted state.splits
  splitsInside : ∀ address ∈ state.splits, window.contains address

/-- With nothing found yet, only the entry is pending. -/
def start (window : Window) : Exploration :=
  { scan := { limit := window.limit }, pending := [window.entry], extent := window.entry }

theorem tidy_start (program : Program) {window : Window}
    (nonempty : window.entry < window.limit) : (start window).Tidy program window where
  limit := rfl
  block := fun _ member => absurd member List.not_mem_nil
  called := .nil _
  pendingSorted := List.pairwise_singleton _ _
  pendingInside := by
    intro address member
    obtain rfl := List.mem_singleton.mp member
    exact Window.contains_iff.mpr ⟨Nat.le_refl _, UInt32.lt_iff_toNat_lt.mp nonempty⟩
  splitsSorted := AddressSet.sorted_nil
  splitsInside := fun _ member => absurd member List.not_mem_nil

theorem Tidy.drop {state : Exploration} {program : Program} {window : Window} {start : UInt32}
    {pending : List UInt32} (tidy : state.Tidy program window)
    (next : state.pending = start :: pending) : Tidy { state with pending } program window where
  limit := tidy.limit
  block := tidy.block
  called := tidy.called
  pendingSorted := (next ▸ tidy.pendingSorted).tail
  pendingInside := fun address member =>
    tidy.pendingInside address (by rw [next]; exact List.mem_cons_of_mem _ member)
  splitsSorted := tidy.splitsSorted
  splitsInside := tidy.splitsInside

theorem Tidy.split {state : Exploration} {program : Program} {window : Window} {start : UInt32}
    (tidy : state.Tidy program window) (inside : window.contains start) :
    Tidy { state with splits := AddressSet.insert start state.splits } program window where
  limit := tidy.limit
  block := tidy.block
  called := tidy.called
  pendingSorted := tidy.pendingSorted
  pendingInside := tidy.pendingInside
  splitsSorted := tidy.splitsSorted.insert
  splitsInside := by
    intro address member
    rcases AddressSet.mem_insert.mp member with rfl | earlier
    · exact inside
    · exact tidy.splitsInside address earlier

theorem Tidy.record {state : Exploration} {program : Program} {window : Window}
    {start finish : UInt32} {step : Step} (tidy : state.Tidy program window)
    (inside : window.contains start) (recorded : program.Recorded step.calls step.newEntries) :
    (state.record window start finish step).Tidy program window where
  limit := tidy.limit
  block := by
    intro block member
    simp only [Exploration.record] at member
    split at member
    next nonempty =>
      rcases List.mem_append.mp member with old | new
      · exact tidy.block block old
      · obtain rfl := List.mem_singleton.mp new
        exact ⟨inside, UInt32.lt_iff_toNat_lt.mp nonempty⟩
    next => exact tidy.block block member
  called := tidy.called.append recorded
  pendingSorted := tidy.pendingSorted.insertAll
  pendingInside := by
    intro address member
    rcases AddressSet.mem_insertAll.mp member with new | old
    · exact (List.mem_filter.mp new).2
    · exact tidy.pendingInside address old
  splitsSorted := tidy.splitsSorted
  splitsInside := tidy.splitsInside

/-- The walk that a visit makes. -/
def walkFrom (program : Program) (window : Window) (state : Exploration) (start : UInt32) :
    UInt32 × Step :=
  program.walk window state.scan state.extent (window.wordCount + 1) start

/-- The three ways in which a visit may end: nothing to do, a split, or the block of a walk. -/
theorem visit_cases (program : Program) (window : Window) (state : Exploration)
    (start : UInt32) :
    (visit program window state start = state ∧ ¬ (window.contains start ∧ aligned start)) ∨
    (visit program window state start =
        { state with splits := AddressSet.insert start state.splits } ∧
      window.contains start ∧ aligned start ∧ state.scan.covers start) ∨
    ∃ finish step, walkFrom program window state start = (finish, step) ∧
      visit program window state start = state.record window start finish step ∧
      window.contains start ∧ aligned start ∧ state.scan.covers start = false := by
  by_cases inside : window.contains start
  · by_cases word : aligned start
    · cases covered : state.scan.covers start with
      | true => exact Or.inr (Or.inl ⟨by simp [visit, inside, word, covered], inside, word, rfl⟩)
      | false =>
          refine Or.inr (Or.inr ⟨(walkFrom program window state start).1,
            (walkFrom program window state start).2, rfl, ?_, inside, word, rfl⟩)
          simp [visit, walkFrom, inside, word, covered]
    · exact Or.inl ⟨by simp [visit, word], fun both => word both.2⟩
  · exact Or.inl ⟨by simp [visit, inside], fun both => inside both.1⟩

theorem Tidy.visit {state : Exploration} {program : Program} {window : Window} {start : UInt32}
    {pending : List UInt32} (tidy : state.Tidy program window)
    (next : state.pending = start :: pending) :
    (visit program window { state with pending } start).Tidy program window := by
  have dropped := tidy.drop next
  rcases visit_cases program window { state with pending } start with
    ⟨equation, _⟩ | ⟨equation, inside, _⟩ | ⟨finish, step, walked, equation, inside, _⟩
  · rw [equation]
    exact dropped
  · rw [equation]
    exact dropped.split inside
  · rw [equation]
    have recorded := Program.walk_recorded program window state.scan state.extent
      (window.wordCount + 1) start
    rw [show program.walk window _ _ _ _ = _ from walked] at recorded
    exact dropped.record inside recorded

theorem Tidy.run {state : Exploration} {program : Program} {window : Window}
    (tidy : state.Tidy program window) (fuel : Nat) :
    (run program window fuel state).Tidy program window := by
  induction fuel generalizing state with
  | zero => exact tidy
  | succ fuel ih =>
      rw [Exploration.run]
      split
      · exact tidy
      next next => exact ih (tidy.visit next)

/-! ## Termination -/

/-- The worklist without a bound on the number of visits. -/
inductive Explores (program : Program) (window : Window) : Exploration → Exploration → Prop
  | done {state : Exploration} (finished : state.pending = []) :
      Explores program window state state
  | visit {state result : Exploration} {start : UInt32} {pending : List UInt32}
      (next : state.pending = start :: pending)
      (onward : Explores program window
        (Exploration.visit program window { state with pending } start) result) :
      Explores program window state result

theorem Explores.finished {program : Program} {window : Window} {state result : Exploration}
    (explores : Explores program window state result) : result.pending = [] := by
  induction explores with
  | done finished => exact finished
  | visit _ _ ih => exact ih

theorem walk_window_walks {program : Program} {window : Window}
    (bounded : program.Bounded window) (scan : Scan) (extent : UInt32) {start : UInt32}
    (inside : window.contains start) (word : aligned start) :
    program.Walks window scan extent start
      (program.walk window scan extent (window.wordCount + 1) start).1
      (program.walk window scan extent (window.wordCount + 1) start).2 := by
  have bounds := Window.contains_iff.mp inside
  have size : (window.limit - window.entry).toNat = window.limit.toNat - window.entry.toNat :=
    toNat_sub (by omega)
  refine Program.walk_walks bounded scan extent (window.wordCount + 1) start word bounds.1 ?_
  simp only [Window.wordCount, size]
  omega

theorem passed_walkFrom {program : Program} {window : Window} (bounded : program.Bounded window)
    {state : Exploration} {start finish : UInt32} {step : Step}
    (walked : walkFrom program window state start = (finish, step))
    (inside : window.contains start) (word : aligned start) :
    program.Passed window state.scan state.extent start finish step := by
  have walks := walk_window_walks bounded state.scan state.extent inside word
  rw [show program.walk window _ _ _ _ = _ from walked] at walks
  exact walks.passed bounded (Window.contains_iff.mp inside).1 word

theorem unusable_of_passed {program : Program} {window : Window} {scan : Scan}
    {extent start finish : UInt32} {step : Step} (inside : window.contains start)
    (fresh : scan.covers start = false)
    (passed : program.Passed window scan extent start finish step)
    (empty : ¬ start < finish) : ¬ program.Usable start ∧ step.successors = [] := by
  have le := passed.le
  have same : finish = start := by
    rw [UInt32.lt_iff_toNat_lt] at empty
    exact UInt32.toNat_inj.mp (by omega)
  subst same
  constructor
  · rintro ⟨insn, found⟩
    rcases passed.closed with ⟨other, _, _, after, last, _⟩ | past | covered | missing
    · omega
    · have := (Window.contains_iff.mp inside).2
      omega
    · rw [fresh] at covered
      cases covered
    · rw [missing] at found
      cases found
  · rw [List.eq_nil_iff_forall_not_mem]
    intro target member
    obtain ⟨_, _, _, after, before, _⟩ := passed.origin target member
    omega

theorem record_covers {state : Exploration} {window : Window} {start finish address : UInt32}
    {step : Step} (nonempty : start < finish) :
    (state.record window start finish step).scan.covers address ↔
      state.scan.covers address ∨ Span.contains { start, stop := finish } address := by
  simp [record, Scan.covers, nonempty]

/-- The words of the window that no block covers yet, by index. -/
def uncovered (window : Window) (scan : Scan) : Finset Nat :=
  (Finset.range window.wordCount).filter fun index =>
    scan.covers (window.entry + UInt32.ofNat (4 * index)) = false

/-- Bounds the number of visits that are left. -/
def remaining (window : Window) (state : Exploration) : Nat :=
  (uncovered window state.scan).card * ((window.limit - window.entry).toNat + 1) +
    state.pending.length

theorem uncovered_lt {window : Window} {before after : Scan} {start : UInt32}
    (word : aligned start) (entryWord : aligned window.entry) (inside : window.contains start)
    (fresh : before.covers start = false) (covered : after.covers start)
    (grows : ∀ address, before.covers address → after.covers address) :
    (uncovered window after).card < (uncovered window before).card := by
  obtain ⟨index, few, _, place⟩ := Window.exists_index entryWord word inside
  apply Finset.card_lt_card
  rw [Finset.ssubset_iff_of_subset]
  · refine ⟨index, ?_, ?_⟩
    · simp only [uncovered, Finset.mem_filter, Finset.mem_range, place]
      exact ⟨few, fresh⟩
    · simp only [uncovered, Finset.mem_filter, place, covered]
      simp
  · intro index member
    simp only [uncovered, Finset.mem_filter] at member ⊢
    refine ⟨member.1, ?_⟩
    cases already : before.covers (window.entry + UInt32.ofNat (4 * index)) with
    | false => rfl
    | true => exact (grows _ already).symm.trans member.2

theorem Tidy.pending_length {state : Exploration} {program : Program} {window : Window}
    (tidy : state.Tidy program window) (nonempty : window.entry < window.limit) :
    state.pending.length ≤ (window.limit - window.entry).toNat := by
  rw [toNat_sub (Nat.le_of_lt (UInt32.lt_iff_toNat_lt.mp nonempty))]
  exact AddressSet.length_le_of_between tidy.pendingSorted fun address member =>
    Window.contains_iff.mp (tidy.pendingInside address member)

theorem Tidy.remaining_lt {state : Exploration} {program : Program} {window : Window}
    {start : UInt32} {pending : List UInt32} (tidy : state.Tidy program window)
    (bounded : program.Bounded window) (nonempty : window.entry < window.limit)
    (entryWord : aligned window.entry) (next : state.pending = start :: pending) :
    remaining window (Exploration.visit program window { state with pending } start) <
      remaining window state := by
  have length : state.pending.length = pending.length + 1 := by simp [next]
  rcases visit_cases program window { state with pending } start with
    ⟨equation, _⟩ | ⟨equation, _⟩ | ⟨finish, step, walked, equation, inside, word, fresh⟩
  · simp only [equation, remaining]
    omega
  · simp only [equation, remaining]
    omega
  · have pendingBound := (tidy.visit next).pending_length nonempty
    rw [equation] at pendingBound ⊢
    by_cases order : start < finish
    · -- The new block covers a word more, which pays for all addresses that become pending.
      have fewer : (uncovered window ({ state with pending }.record window start finish
          step).scan).card < (uncovered window state.scan).card := by
        apply uncovered_lt word entryWord inside fresh
        · exact (record_covers order).mpr (Or.inr (Span.contains_iff.mpr
            ⟨Nat.le_refl _, UInt32.lt_iff_toNat_lt.mp order⟩))
        · exact fun address covered => (record_covers order).mpr (Or.inl covered)
      have product := Nat.mul_le_mul_right ((window.limit - window.entry).toNat + 1) fewer
      rw [Nat.succ_mul] at product
      simp only [remaining] at pendingBound ⊢
      omega
    · obtain ⟨_, nothing⟩ := unusable_of_passed inside fresh
        (passed_walkFrom bounded walked inside word) order
      have sameScan : uncovered window ({ state with pending }.record window start finish
          step).scan = uncovered window state.scan := by
        simp [uncovered, Exploration.record, Scan.covers, order]
      have samePending : ({ state with pending }.record window start finish step).pending =
          pending := by
        simp [Exploration.record, nothing, AddressSet.insertAll]
      simp only [remaining, sameScan, samePending]
      omega

theorem Tidy.run_explores {state : Exploration} {program : Program} {window : Window}
    (tidy : state.Tidy program window) (bounded : program.Bounded window)
    (nonempty : window.entry < window.limit) (entryWord : aligned window.entry) (fuel : Nat)
    (enough : remaining window state ≤ fuel) :
    Explores program window state (Exploration.run program window fuel state) := by
  induction fuel generalizing state with
  | zero =>
      have empty : state.pending.length = 0 := by
        unfold remaining at enough
        omega
      exact .done (List.length_eq_zero_iff.mp empty)
  | succ fuel ih =>
      rw [Exploration.run]
      split
      next finished => exact .done finished
      next start pending next =>
        have fewer := tidy.remaining_lt bounded nonempty entryWord next
        exact .visit next (ih (tidy.visit next) (by omega))

theorem run_start_explores {program : Program} {window : Window}
    (bounded : program.Bounded window) (nonempty : window.entry < window.limit) :
    Explores program window (start window)
      (run program window (Program.scanFuel window) (start window)) := by
  by_cases entryWord : aligned window.entry
  · apply (tidy_start program nonempty).run_explores bounded nonempty entryWord
    have words : (uncovered window (start window).scan).card ≤ window.wordCount :=
      (Finset.card_filter_le _ _).trans (Finset.card_range _).le
    have product := Nat.mul_le_mul_right ((window.limit - window.entry).toNat + 1) words
    have one : (start window).pending.length = 1 := rfl
    simp only [remaining, Program.scanFuel, one, Nat.succ_mul]
    omega
  · -- There is no code at an address between words.
    have skipped : visit program window { start window with pending := [] } window.entry =
        { start window with pending := [] } := by
      rcases visit_cases program window { start window with pending := [] } window.entry with
        ⟨equation, _⟩ | ⟨_, _, word, _⟩ | ⟨_, _, _, _, _, word, _⟩
      · exact equation
      · exact absurd word entryWord
      · exact absurd word entryWord
    have positive : 0 < Program.scanFuel window := by simp [Program.scanFuel]
    obtain ⟨fuel, equation⟩ := Nat.exists_eq_succ_of_ne_zero (Nat.ne_of_gt positive)
    rw [equation]
    refine .visit rfl ?_
    change Explores program window (visit program window { start window with pending := [] } _)
      (run program window fuel (visit program window { start window with pending := [] } _))
    rw [skipped]
    cases fuel with
    | zero => exact .done rfl
    | succ fuel => exact .done rfl

end Exploration

end PowerLift
