import Mathlib
import PowerLift.Proofs.EntryBlock
import PowerLift.Proofs.Reachability

/-!
What a scan keeps of the instructions in its blocks, however large the function is: their calls are
recorded, and wherever they go on in the window a block begins.
-/

namespace PowerLift

/-! ## One walk -/

namespace Program

theorem indirectStep_jumpTables {program : Program} {window : Window} {insn : Instruction}
    {table : JumpTable} (member : table ∈ (program.indirectStep window insn).jumpTables) :
    program.acceptedTable? window insn = some table := by
  unfold indirectStep at member
  unfold acceptedTable?
  cases configured : program.configuredTable? insn.address with
  | some found =>
      rw [configured] at member
      rw [List.mem_singleton.mp member]
      rfl
  | none =>
      simp only [configured] at member
      split at member
      · cases member
      next computed =>
        rw [if_neg computed]
        cases recognized : program.recognizedTable? window insn with
        | some found =>
            rw [recognized] at member
            rw [List.mem_singleton.mp member]
            rfl
        | none =>
            rw [recognized] at member
            cases member

theorem ownStep_jumpTables {program : Program} {window : Window} {reached : UInt32}
    {insn : Instruction} {table : JumpTable}
    (member : table ∈ (program.ownStep window reached insn).jumpTables) :
    program.acceptedTable? window insn = some table := by
  simp only [ownStep] at member
  split at member
  · cases member
  · split at member
    · cases member
    · split at member
      · cases member
      · cases transfer : insn.effects.transfer with
        | none | indirectCall | ret =>
            rw [transfer] at member
            cases member
        | call | jump | conditional =>
            -- A direct branch has no table, wherever it goes.
            simp only [transfer] at member
            split at member
            · split at member <;> cases member
            · cases member
        | indirectJump =>
            rw [transfer] at member
            exact indirectStep_jumpTables member

/-- What a walk owes to its instructions: all their calls, and each of its tables. -/
structure Accounts (program : Program) (window : Window) (extent start finish : UInt32)
    (step : Step) : Prop where
  call : ∀ address insn, aligned address → start.toNat ≤ address.toNat →
    address.toNat < finish.toNat → program.instruction? address = some insn →
      (program.step window extent insn).calls ⊆ step.calls
  table : ∀ table ∈ step.jumpTables, ∃ address insn, aligned address ∧
    start.toNat ≤ address.toNat ∧ address.toNat < finish.toNat ∧
      program.instruction? address = some insn ∧ program.acceptedTable? window insn = some table

theorem accounts_refl (program : Program) (window : Window) (extent address : UInt32) :
    program.Accounts window extent address address {} where
  call := fun _ _ _ after before => absurd before (Nat.not_lt.mpr after)
  table := fun _ member => absurd member List.not_mem_nil

theorem Walks.accounts {program : Program} {window : Window} {scan : Scan}
    {extent start finish : UInt32} {step : Step} (bounded : program.Bounded window)
    (walks : program.Walks window scan extent start finish step)
    (above : window.entry.toNat ≤ start.toNat) (word : aligned start) :
    program.Accounts window extent start finish step := by
  induction walks with
  | limit | seen | data => exact program.accounts_refl window extent _
  | @stop address insn before fresh found ends =>
      have below := UInt32.lt_iff_toNat_lt.mp before
      have next := toNat_add_four
        (bounded address word (Window.contains_iff.mpr ⟨above, below⟩) ⟨insn, found⟩)
      have number := aligned_iff.mp word
      constructor
      · intro other otherInsn otherWord after beforeNext otherFound
        have same : other.toNat = address.toNat := by
          have := aligned_iff.mp otherWord
          omega
        obtain rfl := UInt32.toNat_inj.mp same
        cases found.symm.trans otherFound
        exact List.Subset.refl _
      · intro table member
        exact ⟨address, insn, word, Nat.le_refl _, by omega, found, ownStep_jumpTables member⟩
  | @next address finish insn rest before fresh found continues onward ih =>
      have below := UInt32.lt_iff_toNat_lt.mp before
      have next := toNat_add_four
        (bounded address word (Window.contains_iff.mpr ⟨above, below⟩) ⟨insn, found⟩)
      have number := aligned_iff.mp word
      have later := ih (by omega) (aligned_next word next)
      have further := (onward.passed bounded (by omega) (aligned_next word next)).le
      constructor
      · intro other otherInsn otherWord after beforeFinish otherFound
        by_cases here : other.toNat = address.toNat
        · obtain rfl := UInt32.toNat_inj.mp here
          cases found.symm.trans otherFound
          exact List.subset_append_left _ _
        · have otherNumber := aligned_iff.mp otherWord
          exact List.Subset.trans
            (later.call other otherInsn otherWord (by omega) beforeFinish otherFound)
            (List.subset_append_right _ _)
      · intro table member
        rcases List.mem_append.mp member with own | further
        · exact ⟨address, insn, word, Nat.le_refl _, by omega, found, ownStep_jumpTables own⟩
        · obtain ⟨other, otherInsn, otherWord, after, origin⟩ := later.table table further
          exact ⟨other, otherInsn, otherWord, by omega, origin⟩

end Program

namespace Exploration

theorem accounts_walkFrom {program : Program} {window : Window} (bounded : program.Bounded window)
    {state : Exploration} {start finish : UInt32} {step : Step}
    (walked : walkFrom program window state start = (finish, step))
    (inside : window.contains start) (word : aligned start) :
    program.Accounts window state.extent start finish step := by
  have walks := walk_window_walks bounded state.scan state.extent inside word
  rw [show program.walk window _ _ _ _ = _ from walked] at walks
  exact walks.accounts bounded (Window.contains_iff.mp inside).1 word

/-! ## The invariant -/

/-- An address that is looked at now or later, or begins a block. -/
def Awaits (state : Exploration) (target : UInt32) : Prop :=
  target ∈ state.pending ∨ target ∈ state.splits ∨
    ∃ block ∈ state.scan.blocks, block.start = target

theorem Awaits.visit {state : Exploration} {program : Program} {window : Window}
    {start target : UInt32} {pending : List UInt32} (bounded : program.Bounded window)
    (next : state.pending = start :: pending) (awaits : state.Awaits target)
    (inside : window.contains target) (word : aligned target) (usable : program.Usable target) :
    (visit program window { state with pending } start).Awaits target := by
  have split : target = start ∨ Awaits { state with pending } target := by
    rcases awaits with waiting | known
    · rw [next] at waiting
      exact (List.mem_cons.mp waiting).imp_right Or.inl
    · exact Or.inr (Or.inr known)
  rcases visit_cases program window { state with pending } start with
    ⟨equation, useless⟩ | ⟨equation, _⟩ | ⟨finish, step, walked, equation, startInside, startWord,
      fresh⟩
  · rw [equation]
    rcases split with rfl | still
    · exact absurd ⟨inside, word⟩ useless
    · exact still
  · rw [equation]
    rcases split with rfl | waiting | cut | begun
    · exact Or.inr (Or.inl (AddressSet.mem_insert.mpr (Or.inl rfl)))
    · exact Or.inl waiting
    · exact Or.inr (Or.inl (AddressSet.mem_insert.mpr (Or.inr cut)))
    · exact Or.inr (Or.inr begun)
  · have blocks := visit_blocks program window { state with pending } start
    rw [equation] at blocks ⊢
    rcases split with rfl | waiting | cut | ⟨block, member, same⟩
    · by_cases nonempty : target < finish
      · refine Or.inr (Or.inr ⟨{ start := target, stop := finish }, ?_, rfl⟩)
        simp [record, nonempty]
      · have passed := passed_walkFrom bounded walked startInside startWord
        exact absurd usable (unusable_of_passed startInside fresh passed nonempty).1
    · exact Or.inl (AddressSet.mem_insertAll.mpr (Or.inr waiting))
    · exact Or.inr (Or.inl cut)
    · exact Or.inr (Or.inr ⟨block, blocks member, same⟩)

/-- What holds of a scan under way, for functions of any size. -/
structure Followed (state : Exploration) (program : Program) (window : Window) : Prop where
  block : ∀ block ∈ state.scan.blocks, block.IsBlock program window
  apart : state.scan.blocks.Pairwise Span.Apart
  entry : aligned window.entry → program.Usable window.entry → state.Awaits window.entry
  splitsCovered : ∀ address ∈ state.splits, state.scan.covers address
  followed : ∀ address insn, aligned address → state.scan.covers address →
    program.instruction? address = some insn →
      ∃ extent, (program.step window extent insn).calls ⊆ state.scan.calls ∧
        ∀ target ∈ (program.step window extent insn).successors, window.contains target →
          aligned target → program.Usable target → state.Awaits target
  table : ∀ table ∈ state.scan.jumpTables, ∃ address insn, aligned address ∧
    state.scan.covers address ∧ program.instruction? address = some insn ∧
      program.acceptedTable? window insn = some table

theorem followed_start (program : Program) (window : Window) :
    (start window).Followed program window where
  block := fun _ member => absurd member List.not_mem_nil
  apart := List.Pairwise.nil
  entry := fun _ _ => Or.inl (by simp [start])
  splitsCovered := fun _ member => absurd member List.not_mem_nil
  followed := fun _ _ _ covered => by simp [start, Scan.covers] at covered
  table := fun _ member => absurd member List.not_mem_nil

section Record

variable {state : Exploration} {program : Program} {window : Window} {start finish : UInt32}
  {pending : List UInt32} {step : Step}

theorem mem_record_blocks {block : Span}
    (member : block ∈ (state.record window start finish step).scan.blocks) :
    block ∈ state.scan.blocks ∨ start < finish ∧ block = { start, stop := finish } := by
  simp only [record] at member
  split at member
  next nonempty =>
    exact (List.mem_append.mp member).imp_right fun new => ⟨nonempty, List.mem_singleton.mp new⟩
  next => exact Or.inl member

theorem record_apart (blocks : ∀ block ∈ state.scan.blocks, block.IsBlock program window)
    (apart : state.scan.blocks.Pairwise Span.Apart) (word : aligned start)
    (passed : program.Passed window state.scan state.extent start finish step) :
    (state.record window start finish step).scan.blocks.Pairwise Span.Apart := by
  simp only [record]
  split
  next nonempty =>
    rw [List.pairwise_append]
    refine ⟨apart, List.pairwise_singleton _ _, ?_⟩
    intro block old other new
    obtain rfl := List.mem_singleton.mp new
    exact passed.apart word (UInt32.lt_iff_toNat_lt.mp nonempty) old (blocks block old)
  next => exact apart

/-- The instructions of a new block contribute with the extent at the time of the walk. -/
theorem followed_of_passed (state : Exploration)
    (accounts : program.Accounts window state.extent start finish step)
    (passed : program.Passed window state.scan state.extent start finish step)
    {address : UInt32} {insn : Instruction} (word : aligned address)
    (inside : Span.contains { start, stop := finish } address)
    (found : program.instruction? address = some insn) :
    (program.step window state.extent insn).calls ⊆
        (state.record window start finish step).scan.calls ∧
      ∀ target ∈ (program.step window state.extent insn).successors, window.contains target →
        (state.record window start finish step).Awaits target := by
  have bounds := Span.contains_iff.mp inside
  constructor
  · exact List.Subset.trans (accounts.call address insn word bounds.1 bounds.2 found)
      (List.subset_append_right _ _)
  · intro target member targetInside
    obtain ⟨_, _, ownInsn, ownFound, _, contributes⟩ := passed.word address word bounds.1 bounds.2
    cases ownFound.symm.trans found
    exact Or.inl (AddressSet.mem_insertAll.mpr
      (Or.inl (List.mem_filter.mpr ⟨contributes target member, targetInside⟩)))

end Record

theorem Followed.visit {state : Exploration} {program : Program} {window : Window}
    {start : UInt32} {pending : List UInt32} (bounded : program.Bounded window)
    (nonempty : window.entry < window.limit) (next : state.pending = start :: pending)
    (followed : state.Followed program window) :
    (visit program window { state with pending } start).Followed program window := by
  have entryInside : window.contains window.entry :=
    Window.contains_iff.mpr ⟨Nat.le_refl _, UInt32.lt_iff_toNat_lt.mp nonempty⟩
  have entry : aligned window.entry → program.Usable window.entry →
      (Exploration.visit program window { state with pending } start).Awaits window.entry :=
    fun word usable => (followed.entry word usable).visit bounded next entryInside word usable
  have old : ∀ address insn, aligned address → state.scan.covers address →
      program.instruction? address = some insn →
        ∃ extent, (program.step window extent insn).calls ⊆ state.scan.calls ∧
          ∀ target ∈ (program.step window extent insn).successors, window.contains target →
            aligned target → program.Usable target →
              (Exploration.visit program window { state with pending } start).Awaits target := by
    intro address insn word covered found
    obtain ⟨extent, calls, awaits⟩ := followed.followed address insn word covered found
    refine ⟨extent, calls, ?_⟩
    intro target member inside targetWord usable
    exact (awaits target member inside targetWord usable).visit bounded next inside targetWord
      usable
  rcases visit_cases program window { state with pending } start with
    ⟨equation, _⟩ | ⟨equation, _, word, covered⟩ | ⟨finish, step, walked, equation, inside, word, _⟩
  · rw [equation] at entry old ⊢
    exact ⟨followed.block, followed.apart, entry, followed.splitsCovered, old, followed.table⟩
  · rw [equation] at entry old ⊢
    refine ⟨followed.block, followed.apart, entry, ?_, old, followed.table⟩
    intro address member
    rcases AddressSet.mem_insert.mp member with rfl | earlier
    · exact covered
    · exact followed.splitsCovered address earlier
  · have passed : program.Passed window state.scan state.extent start finish step :=
      passed_walkFrom bounded walked inside word
    have accounts : program.Accounts window state.extent start finish step :=
      accounts_walkFrom bounded walked inside word
    have above := (Window.contains_iff.mp inside).1
    have kept : ∀ address, state.scan.covers address →
        (record { state with pending } window start finish step).scan.covers address := by
      intro address covered
      obtain ⟨block, former, within⟩ := Scan.covers_iff.mp covered
      have still := visit_blocks program window { state with pending } start former
      rw [equation] at still
      exact Scan.covers_iff.mpr ⟨block, still, within⟩
    rw [equation] at entry old ⊢
    constructor
    · intro block member
      rcases mem_record_blocks member with former | ⟨order, rfl⟩
      · exact followed.block block former
      · exact passed.isBlock above word (UInt32.lt_iff_toNat_lt.mp order)
    · exact record_apart followed.block followed.apart word passed
    · exact entry
    · intro address member
      exact kept address (followed.splitsCovered address member)
    · intro address insn addressWord covered found
      obtain ⟨block, member, within⟩ := Scan.covers_iff.mp covered
      rcases mem_record_blocks member with former | ⟨_, rfl⟩
      · obtain ⟨extent, calls, awaits⟩ :=
          old address insn addressWord (Scan.covers_iff.mpr ⟨block, former, within⟩) found
        exact ⟨extent, List.Subset.trans calls (List.subset_append_left _ _), awaits⟩
      · obtain ⟨calls, awaits⟩ :=
          followed_of_passed { state with pending } accounts passed addressWord within found
        exact ⟨state.extent, calls, fun target among targetInside _ _ =>
          awaits target among targetInside⟩
    · intro table member
      rcases List.mem_append.mp member with former | new
      · obtain ⟨address, insn, addressWord, covered, origin⟩ := followed.table table former
        exact ⟨address, insn, addressWord, kept address covered, origin⟩
      · obtain ⟨address, insn, addressWord, after, before, origin⟩ := accounts.table table new
        refine ⟨address, insn, addressWord, ?_, origin⟩
        have nonempty : start < finish := UInt32.lt_iff_toNat_lt.mpr (by omega)
        refine Scan.covers_iff.mpr ⟨{ start, stop := finish }, ?_, ?_⟩
        · simp [record, nonempty]
        · exact Span.contains_iff.mpr ⟨after, before⟩

theorem run_keeps {program : Program} {window : Window} (invariant : Exploration → Prop)
    (keeps : ∀ state start pending, state.pending = start :: pending → invariant state →
      invariant (visit program window { state with pending } start))
    (fuel : Nat) {state : Exploration} (holds : invariant state) :
    invariant (run program window fuel state) := by
  induction fuel generalizing state with
  | zero => exact holds
  | succ fuel ih =>
      rw [run]
      split
      · exact holds
      next next => exact ih (keeps state _ _ next holds)

/-! ## Where blocks end -/

end Exploration

theorem aligned_add_four {address : UInt32} (word : aligned address) : aligned (address + 4) := by
  have number := aligned_iff.mp word
  apply aligned_iff.mpr
  rw [UInt32.toNat_add]
  change (address.toNat + 4) % 4294967296 % 4 = 0
  omega

namespace Program

/-- A walk ends after an instruction that begins before the limit, if it gets anywhere. -/
theorem walk_stop (program : Program) (window : Window) (scan : Scan) (extent : UInt32)
    (fuel : Nat) {address : UInt32} (word : aligned address) :
    aligned (program.walk window scan extent fuel address).1 ∧
      ((program.walk window scan extent fuel address).1 = address ∨
        (program.walk window scan extent fuel address).1 - 4 < window.limit ∧
          program.Usable ((program.walk window scan extent fuel address).1 - 4)) := by
  induction fuel generalizing address with
  | zero => exact ⟨word, Or.inl rfl⟩
  | succ fuel ih =>
      rw [walk]
      split
      · exact ⟨word, Or.inl rfl⟩
      next inside =>
        have before : address < window.limit := by
          simp only [Bool.or_eq_true, decide_eq_true_eq, not_or] at inside
          exact UInt32.not_le.mp inside.1
        split
        · exact ⟨word, Or.inl rfl⟩
        next insn found =>
          have last : address + 4 - 4 < window.limit ∧ program.Usable (address + 4 - 4) := by
            rw [UInt32.add_sub_cancel]
            exact ⟨before, insn, found⟩
          simp only
          split
          · exact ⟨aligned_add_four word, Or.inr last⟩
          · obtain ⟨stopWord, stop⟩ := ih (aligned_add_four word)
            refine ⟨stopWord, Or.inr ?_⟩
            rcases stop with here | further
            · rw [here]
              exact last
            · exact further

end Program

namespace Exploration

theorem visit_stop_le {program : Program} {window : Window} {state : Exploration}
    {next : UInt32} (word : aligned next) (beyond : window.limit ≤ next) (start : UInt32)
    (short : ∀ block ∈ state.scan.blocks, block.stop ≤ next) :
    ∀ block ∈ (visit program window state start).scan.blocks, block.stop ≤ next := by
  rcases visit_cases program window state start with
    ⟨equation, _⟩ | ⟨equation, _⟩ | ⟨finish, step, walked, equation, _, startWord, _⟩
  · rwa [equation]
  · rwa [equation]
  · rw [equation]
    intro block member
    rcases mem_record_blocks member with old | ⟨order, rfl⟩
    · exact short block old
    · obtain ⟨stopWord, stop⟩ := program.walk_stop window state.scan state.extent
        (window.wordCount + 1) startWord
      rw [show program.walk window _ _ _ _ = _ from walked] at stopWord stop
      have number : finish.toNat % 4 = 0 := aligned_iff.mp stopWord
      have nextNumber := aligned_iff.mp word
      have started := UInt32.lt_iff_toNat_lt.mp order
      have limit := UInt32.le_iff_toNat_le.mp beyond
      rcases stop with nowhere | ⟨further, _⟩
      · exact absurd (nowhere ▸ order) (UInt32.lt_irrefl _)
      · have last : (finish - 4).toNat = finish.toNat - 4 := toNat_sub (by change 4 ≤ _; omega)
        have before := UInt32.lt_iff_toNat_lt.mp further
        rw [UInt32.le_iff_toNat_le]
        change finish.toNat ≤ next.toNat
        simp only at before
        omega

/-- Blocks begin at words, and so do the branch targets that divide them. -/
structure Whole (state : Exploration) : Prop where
  blocks : ∀ block ∈ state.scan.blocks, aligned block.start
  splits : ∀ address ∈ state.splits, aligned address

theorem whole_start {window : Window} : (start window).Whole :=
  ⟨fun _ none => absurd none List.not_mem_nil, fun _ none => absurd none List.not_mem_nil⟩

theorem Whole.visit {state : Exploration} {pending : List UInt32} (whole : state.Whole)
    (program : Program) (window : Window) (start : UInt32) :
    (visit program window { state with pending } start).Whole := by
  rcases visit_cases program window { state with pending } start with
    ⟨equation, _⟩ | ⟨equation, _, word, _⟩ | ⟨finish, step, _, equation, _, word, _⟩
  · rw [equation]
    exact ⟨whole.blocks, whole.splits⟩
  · rw [equation]
    refine ⟨whole.blocks, ?_⟩
    intro address member
    rcases AddressSet.mem_insert.mp member with rfl | earlier
    · exact word
    · exact whole.splits address earlier
  · rw [equation]
    refine ⟨?_, whole.splits⟩
    intro block member
    rcases mem_record_blocks member with old | ⟨_, rfl⟩
    · exact whole.blocks block old
    · exact word

end Exploration

/-! ## Whole scans -/

namespace Program

/-- Every block is a piece of one that the exploration found, where an invariant of it holds. -/
theorem scan_piece {program : Program} {entry limit : UInt32} (invariant : Exploration → Prop)
    (begins : invariant (Exploration.start { entry, limit }))
    (keeps : ∀ state start pending, state.pending = start :: pending → invariant state →
      invariant (Exploration.visit program { entry, limit } { state with pending } start))
    {block : Span} (member : block ∈ (program.scan entry limit).blocks) :
    ∃ state, invariant state ∧ ∃ whole ∈ state.scan.blocks, block.stop ≤ whole.stop ∧
      (block.start = whole.start ∨ block.start ∈ state.splits) := by
  by_cases nonempty : entry < limit
  · rw [Exploration.scan_eq_result nonempty] at member
    have tidy : (Exploration.run program { entry, limit } (scanFuel { entry, limit })
        (Exploration.start { entry, limit })).Tidy program { entry, limit } :=
      (Exploration.tidy_start program nonempty).run _
    refine ⟨_, Exploration.run_keeps invariant keeps (scanFuel { entry, limit }) begins, ?_⟩
    obtain ⟨whole, wholeMember, piece⟩ := Scan.mem_splitBlocks.mp member
    obtain ⟨_, _, within, first, _⟩ := Scan.mem_cutAt
      (Scan.cuts_splitsIn tidy.splitsSorted whole) (tidy.block whole wholeMember).2 piece
    refine ⟨whole, wholeMember, UInt32.le_iff_toNat_le.mpr within, ?_⟩
    exact first.imp_right fun split => (List.mem_filter.mp split).1
  · rw [scan, if_pos (UInt32.not_lt.mp nonempty)] at member
    cases member

/-- No block reaches past a word at or after the limit. -/
theorem scan_stop_le {program : Program} {entry limit next : UInt32} (word : aligned next)
    (beyond : limit ≤ next) {block : Span} (member : block ∈ (program.scan entry limit).blocks) :
    block.stop ≤ next := by
  obtain ⟨state, short, whole, among, within, _⟩ := scan_piece
    (fun state => ∀ block ∈ state.scan.blocks, block.stop ≤ next)
    (fun _ none => absurd none List.not_mem_nil)
    (fun _ start _ _ short => Exploration.visit_stop_le word beyond start short) member
  exact UInt32.le_trans within (short whole among)

theorem scan_start_aligned {program : Program} {entry limit : UInt32} {block : Span}
    (member : block ∈ (program.scan entry limit).blocks) : aligned block.start := by
  obtain ⟨state, words, whole, among, _, start⟩ := scan_piece Exploration.Whole
    Exploration.whole_start (fun _ start _ _ words => words.visit program _ start) member
  rcases start with same | split
  · rw [same]
    exact words.blocks whole among
  · exact words.splits _ split

theorem scan_followed {program : Program} {entry limit : UInt32} (nonempty : entry < limit)
    (bounded : program.Bounded { entry, limit }) :
    ∃ state : Exploration, state.Followed program { entry, limit } ∧
      state.Tidy program { entry, limit } ∧ state.pending = [] ∧
        program.scan entry limit = state.result := by
  refine ⟨_, ?_, (Exploration.tidy_start program nonempty).run _,
    (Exploration.run_start_explores bounded nonempty).finished,
    Exploration.scan_eq_result nonempty⟩
  apply Exploration.run_keeps fun state => state.Followed program { entry, limit }
  · intro state start pending next followed
    exact followed.visit bounded nonempty next
  · exact Exploration.followed_start program _

theorem scan_ordered {program : Program} {entry limit : UInt32}
    (bounded : program.Bounded { entry, limit }) :
    (program.scan entry limit).blocks.Pairwise fun first second => first.stop ≤ second.start := by
  by_cases nonempty : entry < limit
  · obtain ⟨state, followed, tidy, _, same⟩ := scan_followed nonempty bounded
    rw [same]
    exact Scan.splitBlocks_ordered tidy.splitsSorted
      (fun block member => (followed.block block member).nonempty) followed.apart
  · rw [scan, if_pos (UInt32.not_lt.mp nonempty)]
    exact List.Pairwise.nil

end Program

namespace Exploration

/-- In the end what was awaited begins a block. -/
theorem Followed.result_start {state : Exploration} {program : Program} {window : Window}
    (followed : state.Followed program window) (finished : state.pending = []) {target : UInt32}
    (awaits : state.Awaits target) : ∃ block ∈ state.result.blocks, block.start = target := by
  apply Scan.splitBlocks_starts
  rcases awaits with waiting | cut | begun
  · rw [finished] at waiting
    cases waiting
  · exact Or.inr ⟨cut, Scan.covers_iff.mp (followed.splitsCovered target cut)⟩
  · exact Or.inl begun

end Exploration

namespace Program

theorem scan_begins {program : Program} {entry limit : UInt32} (nonempty : entry < limit)
    (bounded : program.Bounded { entry, limit }) (word : aligned entry)
    (usable : program.Usable entry) :
    ∃ block ∈ (program.scan entry limit).blocks, block.start = entry := by
  obtain ⟨state, followed, _, finished, same⟩ := scan_followed nonempty bounded
  rw [same]
  exact followed.result_start finished (followed.entry word usable)

/-- Every instruction in a block contributed its calls, and begins a block wherever it goes on in
the window. -/
theorem scan_follows {program : Program} {entry limit : UInt32} (nonempty : entry < limit)
    (bounded : program.Bounded { entry, limit }) {address : UInt32} (word : aligned address)
    (covered : (program.scan entry limit).covers address) :
    ∃ insn extent, program.instruction? address = some insn ∧
      Window.contains { entry, limit } address ∧
      (program.step { entry, limit } extent insn).calls ⊆ (program.scan entry limit).calls ∧
        ∀ target ∈ (program.step { entry, limit } extent insn).successors,
          Window.contains { entry, limit } target → aligned target → program.Usable target →
            ∃ block ∈ (program.scan entry limit).blocks, block.start = target := by
  obtain ⟨state, followed, tidy, finished, same⟩ := scan_followed nonempty bounded
  rw [same] at covered ⊢
  have explored := (tidy.result_covers address).mp covered
  obtain ⟨block, member, inside⟩ := Scan.covers_iff.mp explored
  have isBlock := followed.block block member
  obtain ⟨below, insn, found, _⟩ := isBlock.word address word inside
  obtain ⟨extent, calls, awaits⟩ := followed.followed address insn word explored found
  refine ⟨insn, extent, found, ?_, calls, ?_⟩
  · exact Window.contains_iff.mpr
      ⟨Nat.le_trans isBlock.above (Span.contains_iff.mp inside).1, below⟩
  · intro target among targetInside targetWord usable
    exact followed.result_start finished (awaits target among targetInside targetWord usable)

/-- A table belongs to an instruction in a block. -/
theorem scan_table {program : Program} {entry limit : UInt32}
    (bounded : program.Bounded { entry, limit }) {table : JumpTable}
    (member : table ∈ (program.scan entry limit).jumpTables) :
    ∃ address insn, aligned address ∧ (program.scan entry limit).covers address ∧
      program.instruction? address = some insn ∧
      program.acceptedTable? { entry, limit } insn = some table := by
  by_cases nonempty : entry < limit
  · obtain ⟨state, followed, tidy, _, same⟩ := scan_followed nonempty bounded
    rw [same] at member ⊢
    obtain ⟨address, insn, word, covered, origin⟩ := followed.table table member
    exact ⟨address, insn, word, (tidy.result_covers address).mpr covered, origin⟩
  · rw [scan, if_pos (UInt32.not_lt.mp nonempty)] at member
    cases member

end Program

end PowerLift
