import Mathlib
import PowerLift.Discovery.Scan
import PowerLift.Proofs.AddressSet
import PowerLift.Proofs.Lookup

/-!
Where control goes after an instruction, said for itself: which instructions end a block, and the
addresses that an instruction or its hooks may jump to. The steps of a scan agree with it.
-/

namespace PowerLift

/-! ## Instructions -/

namespace Descriptor

theorem lookup_ind {motive : Descriptor → Prop} (known : ∀ entry ∈ table, motive entry)
    (otherwise : motive unknown) (word : UInt32) : motive (lookup word) := by
  rcases lookupWith_sound probeOrder word with missed | ⟨member, _⟩
  · rw [lookup, missed]
    exact otherwise
  · exact known _ member

end Descriptor

namespace Instruction

/-- How an instruction transfers control, by its operation. -/
def transfer (insn : Instruction) : Transfer :=
  match insn.opcode with
  | .b => .jump
  | .bc => if insn.alwaysTaken then .jump else .conditional
  | .bl | .bcl => .call
  | .blr => .ret
  | .bctr => .indirectJump
  | .blrl | .bctrl => .indirectCall
  | .bclr => if insn.lk then .indirectCall else .ret
  | .bcctr => if insn.lk then .indirectCall else .indirectJump
  | _ => .none

theorem vectorEffects_plain (insn : Instruction) :
    insn.vectorEffects.transfer = .none ∧ insn.vectorEffects.conditional = false := by
  unfold vectorEffects
  split <;> try exact ⟨rfl, rfl⟩
  all_goals (split <;> exact ⟨rfl, rfl⟩)

theorem effects_transfer (insn : Instruction) : insn.effects.transfer = insn.transfer := by
  obtain ⟨address, raw, opcode, format, group, target⟩ := insn
  cases opcode <;> first | rfl | exact (vectorEffects_plain _).1

theorem effects_conditional (insn : Instruction) :
    insn.effects.conditional = insn.isConditional := by
  obtain ⟨address, raw, opcode, format, group, target⟩ := insn
  cases opcode <;> first | rfl | exact (vectorEffects_plain _).2

/-- Whether a block ends with the instruction: traps, system calls, the return from an interrupt,
and branches that leave no return address. -/
def endsBlock (insn : Instruction) : Bool :=
  insn.group == .trap || insn.opcode == .sc || insn.opcode == .rfid ||
    match insn.transfer with
    | .jump | .conditional | .ret | .indirectJump => true
    | .none | .call | .indirectCall => false

/-- Whether control may go on after an instruction that ends a block: after a system call, and
where a trap or a branch has a condition. -/
def resumes (insn : Instruction) : Bool :=
  if insn.group = .trap then !insn.isUnconditionalTrap
  else insn.opcode == .sc || insn.isConditional

theorem decode_trap {address word : UInt32} (trap : (decode address word).group = .trap) :
    (decode address word).opcode ∈ [Opcode.tdi, .twi, .tw, .td] := by
  have base : (Descriptor.lookup word).opcode ∈ [Opcode.tdi, .twi, .tw, .td] :=
    Descriptor.lookup_ind
      (motive := fun entry => entry.group = .trap → entry.opcode ∈ [Opcode.tdi, .twi, .tw, .td])
      (by decide +kernel) (by decide) word trap
  have same : (decode address word).opcode = (Descriptor.lookup word).opcode := by
    simp only [List.mem_cons, List.not_mem_nil, or_false] at base
    rcases base with found | found | found | found <;>
      simp [decode, decodeBase, simplifiedOpcode, found]
  rw [same]
  exact base

theorem transfer_of_trap {address word : UInt32} (trap : (decode address word).group = .trap) :
    (decode address word).transfer = .none := by
  have found := decode_trap trap
  simp only [List.mem_cons, List.not_mem_nil, or_false] at found
  unfold transfer
  rcases found with found | found | found | found <;> rw [found]

theorem transfer_of_system {insn : Instruction} (system : insn.opcode = .sc ∨ insn.opcode = .rfid) :
    insn.transfer = .none ∧ insn.isConditional = false := by
  rcases system with found | found <;> simp [transfer, isConditional, found]

/-- What transfers control by itself is no trap and no instruction of the system. -/
theorem plain_of_transfer {address word : UInt32}
    (transfers : (decode address word).transfer ≠ .none) :
    (decode address word).group ≠ .trap ∧ (decode address word).opcode ≠ .sc ∧
      (decode address word).opcode ≠ .rfid :=
  ⟨fun trap => transfers (transfer_of_trap trap),
    fun system => transfers (transfer_of_system (Or.inl system)).1,
    fun interrupt => transfers (transfer_of_system (Or.inr interrupt)).1⟩

end Instruction

/-! ## Jumps -/

namespace Program

/-- The word at an address is an instruction that control can reach. -/
def Usable (program : Program) (address : UInt32) : Prop :=
  ∃ insn, program.instruction? address = some insn

theorem instruction?_eq_some {program : Program} {address : UInt32} {insn : Instruction} :
    program.instruction? address = some insn ↔
      ∃ word, program.image.read? address = some word ∧
        program.config.dataPattern word = none ∧
        insn = Instruction.decode address word ∧ insn.isUnknown = false := by
  unfold instruction?
  cases program.image.read? address with
  | none => simp
  | some word =>
      cases pattern : program.config.dataPattern word with
      | some _ => simp [pattern]
      | none =>
          simp only [Option.bind_eq_bind, Option.bind_some, pattern, Option.isSome_none,
            Bool.false_eq_true, if_false]
          constructor
          · intro found
            split at found
            · cases found
            next known =>
              cases found
              exact ⟨word, rfl, pattern, rfl, by simpa using known⟩
          · rintro ⟨_, sameWord, _, rfl, known⟩
            cases sameWord
            rw [if_neg (by simpa using known)]

theorem instruction?_address {program : Program} {address : UInt32} {insn : Instruction}
    (found : program.instruction? address = some insn) : insn.address = address := by
  obtain ⟨word, _, _, rfl, _⟩ := instruction?_eq_some.mp found
  rfl

/-- The jump table of a computed branch, configured or else recognised. -/
def acceptedTable? (program : Program) (window : Window) (insn : Instruction) :
    Option JumpTable :=
  (program.configuredTable? insn.address).or
    (if program.config.isIndirectCall insn.address then none
      else program.recognizedTable? window insn)

/-- Where an instruction or its hooks may go, other than straight on inside of a block. -/
inductive Jumps (program : Program) (window : Window) (insn : Instruction) : UInt32 → Prop
  | resume (ends : insn.endsBlock) (resumes : insn.resumes) :
      Jumps program window insn (insn.address + 4)
  | branch {target : UInt32} (direct : insn.transfer = .jump ∨ insn.transfer = .conditional)
      (target_eq : insn.target = some target) : Jumps program window insn target
  | tableCase {table : JumpTable} {target : UInt32} (computed : insn.transfer = .indirectJump)
      (accepted : program.acceptedTable? window insn = some table)
      (member : target ∈ table.targets) : Jumps program window insn target
  | hook {hook : Hook} {target : UInt32} (attached : hook ∈ program.config.hooksAt insn.address)
      (member : target ∈ hook.jumpTargets) : Jumps program window insn target

/-- Where control may go after an instruction. -/
def Flows (program : Program) (window : Window) (insn : Instruction) (target : UInt32) : Prop :=
  program.Jumps window insn target ∨ insn.endsBlock = false ∧ target = insn.address + 4

/-- The addresses that control reaches from the entry without leaving the window. -/
inductive Reaches (program : Program) (window : Window) : UInt32 → Prop
  | entry (usable : program.Usable window.entry) : Reaches program window window.entry
  | flow {address target : UInt32} {insn : Instruction}
      (source : Reaches program window address)
      (found : program.instruction? address = some insn)
      (flows : program.Flows window insn target)
      (inside : window.contains target) (word : aligned target)
      (usable : program.Usable target) : Reaches program window target

/-! ## Steps of a scan -/

theorem isLocal_of_small {program : Program} {window : Window} {reached : UInt32}
    (small : reached - window.entry < program.config.analysis.largeFunctionThreshold)
    (target : UInt32) : program.isLocal window reached target = window.contains target := by
  simp [isLocal, small]

theorem indirectStep_successors (program : Program) (window : Window) (insn : Instruction) :
    (program.indirectStep window insn).successors =
      (((program.acceptedTable? window insn).map (·.targets)).getD []).filter window.contains := by
  unfold indirectStep acceptedTable?
  cases program.configuredTable? insn.address with
  | some table => rfl
  | none =>
      by_cases call : program.config.isIndirectCall insn.address
      · simp [call]
      · cases program.recognizedTable? window insn with
        | some table => simp [call, tableStep]
        | none => simp [call]

theorem ownStep_stops (program : Program) (window : Window) (reached : UInt32)
    (insn : Instruction) : (program.ownStep window reached insn).stops = insn.endsBlock := by
  simp only [ownStep, Instruction.effects_transfer, Instruction.endsBlock]
  by_cases trap : insn.group = .trap
  · simp [trap]
  · by_cases system : insn.opcode = .sc
    · simp [trap, system]
    · by_cases interrupt : insn.opcode = .rfid
      · simp [trap, interrupt]
      · simp only [trap, system, interrupt, if_false, beq_eq_false_iff_ne.mpr trap,
          beq_eq_false_iff_ne.mpr system, beq_eq_false_iff_ne.mpr interrupt, Bool.false_or]
        cases insn.transfer with
        | none => rfl
        | call =>
            cases insn.target with
            | none => rfl
            | some target =>
                by_cases next : target = insn.address + 4 <;> simp [next, callStep]
        | indirectCall => rfl
        | ret => rfl
        | indirectJump => rfl
        | jump =>
            cases insn.target with
            | none => rfl
            | some target =>
                by_cases inside : program.isLocal window reached target <;> simp [inside]
        | conditional =>
            cases insn.target with
            | none => rfl
            | some target =>
                by_cases inside : program.isLocal window reached target <;> simp [inside]

@[simp] theorem step_stops (program : Program) (window : Window) (extent : UInt32)
    (insn : Instruction) : (program.step window extent insn).stops = insn.endsBlock :=
  ownStep_stops program window _ insn

/-- The jumps of an instruction itself. -/
def OwnJump (program : Program) (window : Window) (insn : Instruction) (target : UInt32) : Prop :=
  (insn.endsBlock ∧ insn.resumes ∧ target = insn.address + 4) ∨
    ((insn.transfer = .jump ∨ insn.transfer = .conditional) ∧ insn.target = some target) ∨
    (insn.transfer = .indirectJump ∧
      ∃ table, program.acceptedTable? window insn = some table ∧ target ∈ table.targets)

theorem jumps_iff {program : Program} {window : Window} {insn : Instruction} {target : UInt32} :
    program.Jumps window insn target ↔
      (∃ hook ∈ program.config.hooksAt insn.address, target ∈ hook.jumpTargets) ∨
        program.OwnJump window insn target := by
  constructor
  · intro jump
    cases jump with
    | resume ends resumes => exact Or.inr (Or.inl ⟨ends, resumes, rfl⟩)
    | branch direct target_eq => exact Or.inr (Or.inr (Or.inl ⟨direct, target_eq⟩))
    | tableCase computed accepted member =>
        exact Or.inr (Or.inr (Or.inr ⟨computed, _, accepted, member⟩))
    | hook attached member => exact Or.inl ⟨_, attached, member⟩
  · rintro (⟨hook, attached, member⟩ | ⟨ends, resumes, rfl⟩ | ⟨direct, target_eq⟩ |
      ⟨computed, table, accepted, member⟩)
    · exact .hook attached member
    · exact .resume ends resumes
    · exact .branch direct target_eq
    · exact .tableCase computed accepted member

theorem mem_ownStep_successors {program : Program} {window : Window} {reached target : UInt32}
    {insn : Instruction} (untransferred : insn.group = .trap → insn.transfer = .none)
    (small : reached - window.entry < program.config.analysis.largeFunctionThreshold)
    (inside : window.contains target) :
    target ∈ (program.ownStep window reached insn).successors ↔
      program.OwnJump window insn target := by
  simp only [ownStep, Instruction.effects_transfer, Instruction.effects_conditional,
    isLocal_of_small small, OwnJump, Instruction.endsBlock, Instruction.resumes]
  by_cases trap : insn.group = .trap
  · by_cases always : insn.isUnconditionalTrap <;> simp [trap, always, untransferred trap]
  · by_cases system : insn.opcode = .sc
    · simp [trap, system, Instruction.transfer_of_system (Or.inl system)]
    · by_cases interrupt : insn.opcode = .rfid
      · simp [trap, interrupt, Instruction.transfer_of_system (Or.inr interrupt)]
      · simp only [trap, system, interrupt, if_false, beq_eq_false_iff_ne.mpr trap,
          beq_eq_false_iff_ne.mpr system, beq_eq_false_iff_ne.mpr interrupt, Bool.false_or]
        cases transfer : insn.transfer with
        | none => simp
        | call =>
            cases insn.target with
            | none => simp
            | some other =>
                by_cases next : other = insn.address + 4 <;> simp [next, callStep]
        | indirectCall => simp
        | ret => by_cases conditional : insn.isConditional <;> simp [conditional]
        | indirectJump =>
            cases accepted : program.acceptedTable? window insn with
            | none =>
                by_cases conditional : insn.isConditional <;>
                  simp [conditional, indirectStep_successors, accepted]
            | some table =>
                by_cases conditional : insn.isConditional <;>
                  simp [conditional, indirectStep_successors, accepted, inside, or_comm]
        | jump =>
            cases insn.target with
            | none => by_cases conditional : insn.isConditional <;> simp [conditional]
            | some other =>
                by_cases stays : window.contains other
                · by_cases conditional : insn.isConditional <;>
                    simp [stays, conditional, or_comm, eq_comm]
                · have different : other ≠ target := fun same => stays (same ▸ inside)
                  by_cases conditional : insn.isConditional <;>
                    simp [stays, conditional, callStep, different]
        | conditional =>
            cases insn.target with
            | none => by_cases conditional : insn.isConditional <;> simp [conditional]
            | some other =>
                by_cases stays : window.contains other
                · by_cases conditional : insn.isConditional <;>
                    simp [stays, conditional, or_comm, eq_comm]
                · have different : other ≠ target := fun same => stays (same ▸ inside)
                  by_cases conditional : insn.isConditional <;>
                    simp [stays, conditional, callStep, different]

/-- The successors of a step inside of the window are the jumps of the instruction. -/
theorem mem_step_successors {program : Program} {window : Window}
    {address extent target : UInt32} {insn : Instruction}
    (found : program.instruction? address = some insn)
    (small : max extent (address + 4) - window.entry <
      program.config.analysis.largeFunctionThreshold)
    (inside : window.contains target) :
    target ∈ (program.step window extent insn).successors ↔
      program.Jumps window insn target := by
  have untransferred : insn.group = .trap → insn.transfer = .none := by
    obtain ⟨word, _, _, rfl, _⟩ := instruction?_eq_some.mp found
    exact Instruction.transfer_of_trap
  rw [← instruction?_address found] at small
  rw [jumps_iff, ← mem_ownStep_successors untransferred small inside]
  simp [step]

end Program

end PowerLift
