import Mathlib
import PowerLift.Proofs.Blocks

/-!
The invariant of a scan. At every point its blocks hold only code that control reaches, and what
they still lead to is pending; in the end nothing is.
-/

namespace PowerLift

/-- Windows of words whose functions count as small, so that every branch inside is local. -/
structure Window.Admissible (window : Window) (program : Program) : Prop where
  entryWord : aligned window.entry
  nonempty : window.entry < window.limit
  small : window.limit.toNat - window.entry.toNat + 4 ≤
    program.config.analysis.largeFunctionThreshold.toNat
  bounded : program.Bounded window

theorem Window.Admissible.contains_entry {window : Window} {program : Program}
    (admissible : window.Admissible program) : window.contains window.entry :=
  contains_iff.mpr ⟨Nat.le_refl _, UInt32.lt_iff_toNat_lt.mp admissible.nonempty⟩

/-! ## Blocks -/

/-- A run of instructions of which only the last may end a block. -/
structure Span.IsBlock (block : Span) (program : Program) (window : Window) : Prop where
  nonempty : block.start.toNat < block.stop.toNat
  startWord : block.start.toNat % 4 = 0
  stopWord : block.stop.toNat % 4 = 0
  above : window.entry.toNat ≤ block.start.toNat
  word : ∀ address, aligned address → block.contains address →
    address.toNat < window.limit.toNat ∧
      ∃ insn, program.instruction? address = some insn ∧
        (insn.endsBlock → address.toNat + 4 = block.stop.toNat)

theorem Span.IsBlock.contains_start {block : Span} {program : Program} {window : Window}
    (isBlock : block.IsBlock program window) : block.contains block.start :=
  Span.contains_iff.mpr ⟨Nat.le_refl _, isBlock.nonempty⟩

theorem Span.IsBlock.stop_le {block : Span} {program : Program} {window : Window}
    (isBlock : block.IsBlock program window) :
    block.stop.toNat ≤ window.limit.toNat + 3 := by
  have order := isBlock.nonempty
  have startWord := isBlock.startWord
  have stopWord := isBlock.stopWord
  have last : (block.stop - 4).toNat = block.stop.toNat - 4 :=
    toNat_sub (by change 4 ≤ _; omega)
  have inside : block.contains (block.stop - 4) :=
    Span.contains_iff.mpr ⟨by omega, by omega⟩
  have := (isBlock.word _ (aligned_iff.mpr (by omega)) inside).1
  omega

/-- Spans of words that share an address share the later of their first words. -/
theorem Span.apart_of_words {first second : Span} (firstWord : first.start.toNat % 4 = 0)
    (secondWord : second.start.toNat % 4 = 0)
    (disjoint : ∀ address, aligned address → first.contains address →
      ¬ second.contains address) :
    first.start.toNat < first.stop.toNat → second.start.toNat < second.stop.toNat →
      first.Apart second := by
  intro firstOrder secondOrder
  by_contra notApart
  simp only [Apart, not_or, Nat.not_le] at notApart
  rcases Nat.le_total first.start.toNat second.start.toNat with earlier | later
  · exact disjoint second.start (aligned_iff.mpr secondWord)
      (Span.contains_iff.mpr ⟨earlier, notApart.1⟩)
      (Span.contains_iff.mpr ⟨Nat.le_refl _, secondOrder⟩)
  · exact disjoint first.start (aligned_iff.mpr firstWord)
      (Span.contains_iff.mpr ⟨Nat.le_refl _, firstOrder⟩)
      (Span.contains_iff.mpr ⟨later, notApart.2⟩)

/-! ## The block of a walk -/

namespace Program

theorem Passed.isBlock {program : Program} {window : Window} {scan : Scan}
    {extent start finish : UInt32} {step : Step}
    (passed : program.Passed window scan extent start finish step)
    (above : window.entry.toNat ≤ start.toNat) (word : aligned start)
    (nonempty : start.toNat < finish.toNat) :
    Span.IsBlock { start, stop := finish } program window where
  nonempty := nonempty
  startWord := aligned_iff.mp word
  stopWord := passed.whole
  above := above
  word := by
    intro address addressWord inside
    have bounds := Span.contains_iff.mp inside
    obtain ⟨below, _, insn, found, ends, _⟩ :=
      passed.word address addressWord bounds.1 bounds.2
    exact ⟨below, insn, found, ends⟩

theorem Passed.reaches {program : Program} {window : Window} {scan : Scan}
    {extent start finish : UInt32} {step : Step}
    (passed : program.Passed window scan extent start finish step)
    (word : aligned start) (above : window.entry.toNat ≤ start.toNat)
    (reached : program.Reaches window start) (distance : Nat) (address : UInt32)
    (addressWord : aligned address) (here : address.toNat = start.toNat + distance)
    (before : address.toNat < finish.toNat) : program.Reaches window address := by
  induction distance using Nat.strongRecOn generalizing address with
  | _ distance ih =>
      rcases Nat.eq_zero_or_pos distance with zero | positive
      · have same : address.toNat = start.toNat := by omega
        exact UInt32.toNat_inj.mp same ▸ reached
      · have startNumber := aligned_iff.mp word
        have number := aligned_iff.mp addressWord
        have previous : (address - 4).toNat = address.toNat - 4 :=
          toNat_sub (by change 4 ≤ _; omega)
        have previousWord : aligned (address - 4) := aligned_iff.mpr (by omega)
        obtain ⟨_, _, insn, found, ends, _⟩ :=
          passed.word (address - 4) previousWord (by omega) (by omega)
        obtain ⟨below, _, ownInsn, ownFound, _⟩ :=
          passed.word address addressWord (by omega) before
        have continues : insn.endsBlock = false := by
          cases ending : insn.endsBlock with
          | false => rfl
          | true =>
              have := ends ending
              omega
        have next : address = insn.address + 4 := by
          rw [instruction?_address found]
          simp
        refine .flow (ih (distance - 4) (by omega) (address - 4) previousWord (by omega)
          (by omega)) found (Or.inr ⟨continues, next⟩)
          (Window.contains_iff.mpr ⟨by omega, below⟩) addressWord ⟨ownInsn, ownFound⟩

theorem Passed.apart {program : Program} {window : Window} {scan : Scan}
    {extent start finish : UInt32} {step : Step}
    (passed : program.Passed window scan extent start finish step)
    (word : aligned start) (nonempty : start.toNat < finish.toNat) {block : Span}
    (member : block ∈ scan.blocks) (isBlock : block.IsBlock program window) :
    block.Apart { start, stop := finish } := by
  apply Span.apart_of_words isBlock.startWord (aligned_iff.mp word) _ isBlock.nonempty nonempty
  intro address addressWord covered inside
  have bounds := Span.contains_iff.mp inside
  have fresh := (passed.word address addressWord bounds.1 bounds.2).2.1
  have := Scan.covers_iff.mpr ⟨block, member, covered⟩
  rw [fresh] at this
  cases this

end Program

/-! ## The invariant -/

namespace Exploration

/-- What holds of a scan under way. -/
structure Sound (state : Exploration) (program : Program) (window : Window) : Prop where
  block : ∀ block ∈ state.scan.blocks, block.IsBlock program window
  apart : state.scan.blocks.Pairwise Span.Apart
  reached : ∀ address, aligned address → state.scan.covers address →
    program.Reaches window address
  /-- What is covered jumps to addresses that are looked at now or later. -/
  jump : ∀ address insn target, aligned address → state.scan.covers address →
    program.instruction? address = some insn → program.Jumps window insn target →
    window.contains target → aligned target → program.Usable target →
      target ∈ state.pending ∨ target ∈ state.splits ∨
        ∃ block ∈ state.scan.blocks, block.start = target
  /-- What is covered goes straight on to what is covered. -/
  onward : ∀ address insn, aligned address → state.scan.covers address →
    program.instruction? address = some insn → insn.endsBlock = false →
    window.contains (address + 4) → program.Usable (address + 4) →
      state.scan.covers (address + 4)
  entry : program.Usable window.entry →
    window.entry ∈ state.pending ∨ state.scan.covers window.entry
  pendingReached : ∀ address ∈ state.pending, aligned address → program.Usable address →
    program.Reaches window address
  splitsCovered : ∀ address ∈ state.splits, aligned address ∧ state.scan.covers address
  extentAbove : window.entry.toNat ≤ state.extent.toNat
  extentBelow : state.extent.toNat ≤ window.limit.toNat + 3

theorem sound_start {program : Program} {window : Window}
    (admissible : window.Admissible program) : (start window).Sound program window where
  block := fun _ member => absurd member List.not_mem_nil
  apart := List.Pairwise.nil
  reached := fun _ _ covered => by simp [start, Scan.covers] at covered
  jump := fun _ _ _ _ covered => by simp [start, Scan.covers] at covered
  onward := fun _ _ _ covered => by simp [start, Scan.covers] at covered
  entry := fun _ => Or.inl (by simp [start])
  pendingReached := by
    intro address member _ usable
    obtain rfl := List.mem_singleton.mp member
    exact .entry usable
  splitsCovered := fun _ member => absurd member List.not_mem_nil
  extentAbove := Nat.le_refl _
  extentBelow := by
    have := UInt32.lt_iff_toNat_lt.mp admissible.nonempty
    simp only [start]
    omega

/-! ## One visit -/

/-- In an admissible window the code seen so far is always small. -/
theorem Sound.reached_small {state : Exploration} {program : Program} {window : Window}
    (sound : state.Sound program window) (admissible : window.Admissible program)
    {address : UInt32} (word : aligned address) (inside : window.contains address)
    (usable : program.Usable address) :
    max state.extent (address + 4) - window.entry <
      program.config.analysis.largeFunctionThreshold := by
  have next := toNat_add_four (admissible.bounded address word inside usable)
  have bounds := Window.contains_iff.mp inside
  have low := sound.extentAbove
  have high := sound.extentBelow
  have small := admissible.small
  have maximum := toNat_max state.extent (address + 4)
  rw [UInt32.lt_iff_toNat_lt, toNat_sub (by omega)]
  omega

theorem Sound.drop {state : Exploration} {program : Program} {window : Window} {start : UInt32}
    {pending : List UInt32} (sound : state.Sound program window)
    (admissible : window.Admissible program) (next : state.pending = start :: pending)
    (useless : window.contains start → aligned start → ¬ program.Usable start) :
    Sound { state with pending } program window where
  block := sound.block
  apart := sound.apart
  reached := sound.reached
  jump := by
    intro address insn target word covered found jumps inside targetWord usable
    rcases sound.jump address insn target word covered found jumps inside targetWord usable with
      waiting | rest
    · rw [next] at waiting
      rcases List.mem_cons.mp waiting with rfl | later
      · exact absurd usable (useless inside targetWord)
      · exact Or.inl later
    · exact Or.inr rest
  onward := sound.onward
  entry := by
    intro usable
    rcases sound.entry usable with waiting | covered
    · rw [next] at waiting
      rcases List.mem_cons.mp waiting with same | later
      · subst same
        exact absurd usable (useless admissible.contains_entry admissible.entryWord)
      · exact Or.inl later
    · exact Or.inr covered
  pendingReached := fun address member =>
    sound.pendingReached address (by rw [next]; exact List.mem_cons_of_mem _ member)
  splitsCovered := sound.splitsCovered
  extentAbove := sound.extentAbove
  extentBelow := sound.extentBelow

theorem Sound.split {state : Exploration} {program : Program} {window : Window} {start : UInt32}
    {pending : List UInt32} (sound : state.Sound program window)
    (next : state.pending = start :: pending) (word : aligned start)
    (covered : state.scan.covers start) :
    Sound { state with pending, splits := AddressSet.insert start state.splits } program
      window where
  block := sound.block
  apart := sound.apart
  reached := sound.reached
  jump := by
    intro address insn target sourceWord source found jumps inside targetWord usable
    rcases sound.jump address insn target sourceWord source found jumps inside targetWord usable
      with waiting | split | start
    · rw [next] at waiting
      rcases List.mem_cons.mp waiting with rfl | later
      · exact Or.inr (Or.inl (AddressSet.mem_insert.mpr (Or.inl rfl)))
      · exact Or.inl later
    · exact Or.inr (Or.inl (AddressSet.mem_insert.mpr (Or.inr split)))
    · exact Or.inr (Or.inr start)
  onward := sound.onward
  entry := by
    intro usable
    rcases sound.entry usable with waiting | entryCovered
    · rw [next] at waiting
      rcases List.mem_cons.mp waiting with same | later
      · exact Or.inr (same ▸ covered)
      · exact Or.inl later
    · exact Or.inr entryCovered
  pendingReached := fun address member =>
    sound.pendingReached address (by rw [next]; exact List.mem_cons_of_mem _ member)
  splitsCovered := by
    intro address member
    rcases AddressSet.mem_insert.mp member with rfl | earlier
    · exact ⟨word, covered⟩
    · exact sound.splitsCovered address earlier
  extentAbove := sound.extentAbove
  extentBelow := sound.extentBelow

theorem Sound.of_eq {first second : Exploration} {program : Program} {window : Window}
    (sound : first.Sound program window) (blocks : second.scan.blocks = first.scan.blocks)
    (pending : second.pending = first.pending) (splits : second.splits = first.splits)
    (extent : second.extent = first.extent) : second.Sound program window := by
  have covers : ∀ address, second.scan.covers address = first.scan.covers address := by
    simp [Scan.covers, blocks]
  constructor
  · simpa only [blocks] using sound.block
  · simpa only [blocks] using sound.apart
  · simpa only [covers] using sound.reached
  · simpa only [blocks, covers, pending, splits] using sound.jump
  · simpa only [covers] using sound.onward
  · simpa only [covers, pending] using sound.entry
  · simpa only [pending] using sound.pendingReached
  · simpa only [covers, splits] using sound.splitsCovered
  · simpa only [extent] using sound.extentAbove
  · simpa only [extent] using sound.extentBelow

/-! ## A new block -/

section Record

variable {state : Exploration} {program : Program} {window : Window} {start finish : UInt32}
  {pending : List UInt32} {step : Step}

theorem Sound.mem_successors (sound : state.Sound program window)
    (admissible : window.Admissible program) (inside : window.contains start)
    (passed : program.Passed window state.scan state.extent start finish step)
    {address target : UInt32} {insn : Instruction} (word : aligned address)
    (member : Span.contains { start, stop := finish } address)
    (found : program.instruction? address = some insn) (targetInside : window.contains target) :
    target ∈ (program.step window state.extent insn).successors ↔
      program.Jumps window insn target := by
  have above := (Window.contains_iff.mp inside).1
  have bounds := Span.contains_iff.mp member
  have below := (passed.word address word bounds.1 bounds.2).1
  have addressInside : window.contains address :=
    Window.contains_iff.mpr ⟨Nat.le_trans above bounds.1, below⟩
  exact Program.mem_step_successors found
    (sound.reached_small admissible word addressInside ⟨insn, found⟩) targetInside

theorem Sound.block_reached (sound : state.Sound program window)
    (next : state.pending = start :: pending) (inside : window.contains start)
    (word : aligned start) (nonempty : start < finish)
    (passed : program.Passed window state.scan state.extent start finish step)
    {address : UInt32} (addressWord : aligned address)
    (member : Span.contains { start, stop := finish } address) :
    program.Reaches window address := by
  have order := UInt32.lt_iff_toNat_lt.mp nonempty
  have bounds := Span.contains_iff.mp member
  obtain ⟨_, _, insn, found, _⟩ := passed.word start word (Nat.le_refl _) order
  have startReached := sound.pendingReached start (by simp [next]) word ⟨insn, found⟩
  exact passed.reaches word (Window.contains_iff.mp inside).1 startReached
    (address.toNat - start.toNat) address addressWord (by simp only at bounds; omega) bounds.2

theorem Sound.record_jump (sound : state.Sound program window)
    (admissible : window.Admissible program) (next : state.pending = start :: pending)
    (inside : window.contains start) (nonempty : start < finish)
    (passed : program.Passed window state.scan state.extent start finish step)
    {address target : UInt32} {insn : Instruction} (word : aligned address)
    (covered : ({ state with pending }.record window start finish step).scan.covers address)
    (found : program.instruction? address = some insn)
    (jumps : program.Jumps window insn target) (targetInside : window.contains target)
    (targetWord : aligned target) (usable : program.Usable target) :
    target ∈ ({ state with pending }.record window start finish step).pending ∨
      target ∈ state.splits ∨
      ∃ block ∈ state.scan.blocks ++ [{ start, stop := finish }], block.start = target := by
  rcases (record_covers nonempty).mp covered with old | new
  · rcases sound.jump address insn target word old found jumps targetInside targetWord usable
      with waiting | split | ⟨block, member, startEquation⟩
    · rw [next] at waiting
      rcases List.mem_cons.mp waiting with rfl | later
      · exact Or.inr (Or.inr ⟨_, List.mem_append_right _ (List.mem_singleton.mpr rfl), rfl⟩)
      · exact Or.inl (AddressSet.mem_insertAll.mpr (Or.inr later))
    · exact Or.inr (Or.inl split)
    · exact Or.inr (Or.inr ⟨block, List.mem_append_left _ member, startEquation⟩)
  · have bounds := Span.contains_iff.mp new
    obtain ⟨_, _, ownInsn, ownFound, _, contributes⟩ :=
      passed.word address word bounds.1 bounds.2
    obtain rfl : ownInsn = insn := Option.some.inj (ownFound.symm.trans found)
    have contributed := contributes target
      ((sound.mem_successors admissible inside passed word new found targetInside).mpr jumps)
    exact Or.inl (AddressSet.mem_insertAll.mpr
      (Or.inl (List.mem_filter.mpr ⟨contributed, targetInside⟩)))

theorem Sound.record_onward (sound : state.Sound program window)
    (admissible : window.Admissible program) (inside : window.contains start)
    (nonempty : start < finish)
    (passed : program.Passed window state.scan state.extent start finish step)
    {address : UInt32} {insn : Instruction} (word : aligned address)
    (covered : ({ state with pending }.record window start finish step).scan.covers address)
    (found : program.instruction? address = some insn) (continues : insn.endsBlock = false)
    (nextInside : window.contains (address + 4)) (usable : program.Usable (address + 4)) :
    ({ state with pending }.record window start finish step).scan.covers (address + 4) := by
  rw [record_covers nonempty]
  rcases (record_covers nonempty).mp covered with old | new
  · exact Or.inl (sound.onward address insn word old found continues nextInside usable)
  · have above := (Window.contains_iff.mp inside).1
    have bounds := Span.contains_iff.mp new
    have below := (passed.word address word bounds.1 bounds.2).1
    have nextNumber := toNat_add_four (admissible.bounded address word
      (Window.contains_iff.mpr ⟨Nat.le_trans above bounds.1, below⟩) ⟨insn, found⟩)
    have number := aligned_iff.mp word
    have whole := passed.whole
    simp only at bounds
    by_cases more : address.toNat + 4 < finish.toNat
    · exact Or.inr (Span.contains_iff.mpr ⟨by simp only; omega, by simp only; omega⟩)
    · -- The walk ended here, for another reason than this instruction.
      have last : address + 4 = finish := UInt32.toNat_inj.mp (by omega)
      rw [last] at nextInside usable ⊢
      rcases passed.closed with ⟨other, otherInsn, _, _, otherLast, otherFound, ends⟩ | past |
        covered | missing
      · have same : other = address := UInt32.toNat_inj.mp (by omega)
        rw [same, found] at otherFound
        cases otherFound
        rw [continues] at ends
        cases ends
      · have := (Window.contains_iff.mp nextInside).2
        omega
      · exact Or.inl covered
      · obtain ⟨_, nextFound⟩ := usable
        rw [missing] at nextFound
        cases nextFound

theorem Sound.record_pendingReached (sound : state.Sound program window)
    (admissible : window.Admissible program) (next : state.pending = start :: pending)
    (inside : window.contains start) (word : aligned start) (nonempty : start < finish)
    (passed : program.Passed window state.scan state.extent start finish step)
    {target : UInt32}
    (member : target ∈ ({ state with pending }.record window start finish step).pending)
    (targetWord : aligned target) (usable : program.Usable target) :
    program.Reaches window target := by
  rcases AddressSet.mem_insertAll.mp member with new | old
  · obtain ⟨contributed, targetInside⟩ := List.mem_filter.mp new
    obtain ⟨address, insn, addressWord, after, before, found, own⟩ :=
      passed.origin target contributed
    have member : Span.contains { start, stop := finish } address :=
      Span.contains_iff.mpr ⟨after, before⟩
    have reached := sound.block_reached next inside word nonempty passed addressWord member
    have jumps := (sound.mem_successors admissible inside passed addressWord member found
      targetInside).mp own
    exact .flow reached found (Or.inl jumps) targetInside targetWord usable
  · exact sound.pendingReached target (by rw [next]; exact List.mem_cons_of_mem _ old) targetWord
      usable

theorem Sound.record (sound : state.Sound program window)
    (admissible : window.Admissible program) (next : state.pending = start :: pending)
    (inside : window.contains start) (word : aligned start) (nonempty : start < finish)
    (passed : program.Passed window state.scan state.extent start finish step) :
    ({ state with pending }.record window start finish step).Sound program window := by
  have order := UInt32.lt_iff_toNat_lt.mp nonempty
  have isBlock := passed.isBlock (Window.contains_iff.mp inside).1 word order
  have blocks : ({ state with pending }.record window start finish step).scan.blocks =
      state.scan.blocks ++ [{ start, stop := finish }] := by
    simp [Exploration.record, nonempty]
  constructor
  · intro block member
    rw [blocks] at member
    rcases List.mem_append.mp member with old | new
    · exact sound.block block old
    · exact List.mem_singleton.mp new ▸ isBlock
  · rw [blocks, List.pairwise_append]
    refine ⟨sound.apart, List.pairwise_singleton _ _, ?_⟩
    intro block old other new
    obtain rfl := List.mem_singleton.mp new
    exact passed.apart word order old (sound.block block old)
  · intro address addressWord covered
    rcases (record_covers nonempty).mp covered with old | new
    · exact sound.reached address addressWord old
    · exact sound.block_reached next inside word nonempty passed addressWord new
  · intro address insn target addressWord covered found jumps targetInside targetWord usable
    rw [blocks]
    exact sound.record_jump admissible next inside nonempty passed addressWord covered found jumps
      targetInside targetWord usable
  · intro address insn addressWord covered found continues nextInside usable
    exact sound.record_onward admissible inside nonempty passed addressWord covered found
      continues nextInside usable
  · intro usable
    rw [record_covers nonempty]
    rcases sound.entry usable with waiting | old
    · rw [next] at waiting
      rcases List.mem_cons.mp waiting with same | later
      · exact Or.inr (Or.inr (same ▸ isBlock.contains_start))
      · exact Or.inl (AddressSet.mem_insertAll.mpr (Or.inr later))
    · exact Or.inr (Or.inl old)
  · intro target member targetWord usable
    exact sound.record_pendingReached admissible next inside word nonempty passed member
      targetWord usable
  · intro address member
    obtain ⟨addressWord, covered⟩ := sound.splitsCovered address member
    exact ⟨addressWord, (record_covers nonempty).mpr (Or.inl covered)⟩
  · have low := sound.extentAbove
    simp only [Exploration.record, nonempty, if_true, toNat_max]
    omega
  · have high := sound.extentBelow
    have blockEnd := isBlock.stop_le
    simp only [Exploration.record, nonempty, if_true, toNat_max] at blockEnd ⊢
    omega

end Record

theorem Sound.visit {state : Exploration} {program : Program} {window : Window} {start : UInt32}
    {pending : List UInt32} (sound : state.Sound program window)
    (admissible : window.Admissible program) (next : state.pending = start :: pending) :
    (visit program window { state with pending } start).Sound program window := by
  rcases visit_cases program window { state with pending } start with
    ⟨equation, useless⟩ | ⟨equation, _, word, covered⟩ |
      ⟨finish, step, walked, equation, inside, word, fresh⟩
  · rw [equation]
    exact sound.drop admissible next fun inside word => absurd ⟨inside, word⟩ useless
  · rw [equation]
    exact sound.split next word covered
  · have passed := passed_walkFrom admissible.bounded walked inside word
    rw [equation]
    by_cases nonempty : start < finish
    · exact sound.record admissible next inside word nonempty passed
    · obtain ⟨unusable, nothing⟩ := unusable_of_passed inside fresh passed nonempty
      apply (sound.drop admissible next fun _ _ => unusable).of_eq
      · simp [Exploration.record, nonempty]
      · simp [Exploration.record, nothing, AddressSet.insertAll]
      · rfl
      · simp [Exploration.record, nonempty]

theorem Explores.sound {program : Program} {window : Window} {state result : Exploration}
    (explores : Explores program window state result) (admissible : window.Admissible program)
    (sound : state.Sound program window) : result.Sound program window := by
  induction explores with
  | done => exact sound
  | visit next _ ih => exact ih (sound.visit admissible next)

end Exploration

end PowerLift
