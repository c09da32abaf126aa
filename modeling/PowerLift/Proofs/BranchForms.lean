import Mathlib
import PowerLift.Proofs.RegisterUse
import PowerLift.Proofs.Successors

/-!
The forms of branches. Four encodings branch, and decoding singles out special forms by the link bit
and by whether the branch is always taken. Every classification of an instruction is read off its
form, which is why the classifications agree.
-/

namespace PowerLift

namespace Instruction

/-- The forms of a branch, each with what its word says. The plain forms through a register are left
for branches that may not be taken. -/
inductive BranchForm (insn : Instruction) : Prop
  | b (opcode : insn.opcode = .b) (format : insn.format = .i) (link : insn.lk = false)
  | bl (opcode : insn.opcode = .bl) (format : insn.format = .i) (link : insn.lk = true)
  | bc (opcode : insn.opcode = .bc) (format : insn.format = .b) (link : insn.lk = false)
  | bcl (opcode : insn.opcode = .bcl) (format : insn.format = .b) (link : insn.lk = true)
  | blr (opcode : insn.opcode = .blr) (format : insn.format = .xl) (link : insn.lk = false)
      (always : insn.alwaysTaken = true)
  | blrl (opcode : insn.opcode = .blrl) (format : insn.format = .xl) (link : insn.lk = true)
      (always : insn.alwaysTaken = true)
  | bclr (opcode : insn.opcode = .bclr) (format : insn.format = .xl)
      (sometimes : insn.alwaysTaken = false)
  | bctr (opcode : insn.opcode = .bctr) (format : insn.format = .xl) (link : insn.lk = false)
      (always : insn.alwaysTaken = true)
  | bctrl (opcode : insn.opcode = .bctrl) (format : insn.format = .xl) (link : insn.lk = true)
      (always : insn.alwaysTaken = true)
  | bcctr (opcode : insn.opcode = .bcctr) (format : insn.format = .xl)
      (sometimes : insn.alwaysTaken = false)

/-! ## Decoding -/

theorem lookup_forms (word : UInt32) :
    (Descriptor.lookup word).group = .branch ∧
        ((Descriptor.lookup word).opcode, (Descriptor.lookup word).format) ∈
          [(Opcode.b, Format.i), (.bc, .b), (.bclr, .xl), (.bcctr, .xl)] ∨
      (Descriptor.lookup word).group ≠ .branch ∧ (Descriptor.lookup word).opcode ∉ branches ∧
        (Descriptor.lookup word).format ∉ [Format.i, .b] :=
  Descriptor.lookup_ind
    (motive := fun entry => entry.group = .branch ∧ (entry.opcode, entry.format) ∈
        [(Opcode.b, Format.i), (.bc, .b), (.bclr, .xl), (.bcctr, .xl)] ∨
      entry.group ≠ .branch ∧ entry.opcode ∉ branches ∧ entry.format ∉ [Format.i, .b])
    (by decide +kernel) (by decide) word

/-- Only branches have special forms that branch. -/
theorem simplifiedOpcode_not_branch {insn : Instruction} (plain : insn.opcode ∉ branches) :
    insn.simplifiedOpcode ∉ branches := by
  unfold simplifiedOpcode
  split
  case h_11 => exact plain
  all_goals
    rename_i opcode
    rw [opcode] at plain
    first
      | exact absurd (by decide) plain
      | (repeat' split) <;> decide

theorem form_of_simplified (insn : Instruction)
    (known : (insn.opcode, insn.format) ∈
      [(Opcode.b, Format.i), (.bc, .b), (.bclr, .xl), (.bcctr, .xl)]) :
    BranchForm { insn with opcode := insn.simplifiedOpcode } := by
  simp only [List.mem_cons, Prod.mk.injEq, List.not_mem_nil, or_false] at known
  rcases known with ⟨opcode, format⟩ | ⟨opcode, format⟩ | ⟨opcode, format⟩ | ⟨opcode, format⟩
  · cases link : insn.lk with
    | false => exact .b (by simp [simplifiedOpcode, opcode, link]) format link
    | true => exact .bl (by simp [simplifiedOpcode, opcode, link]) format link
  · cases link : insn.lk with
    | false => exact .bc (by simp [simplifiedOpcode, opcode, link]) format link
    | true => exact .bcl (by simp [simplifiedOpcode, opcode, link]) format link
  · cases always : insn.alwaysTaken with
    | false => exact .bclr (by simp [simplifiedOpcode, opcode, always]) format always
    | true =>
        cases link : insn.lk with
        | false => exact .blr (by simp [simplifiedOpcode, opcode, always, link]) format link always
        | true => exact .blrl (by simp [simplifiedOpcode, opcode, always, link]) format link always
  · cases always : insn.alwaysTaken with
    | false => exact .bcctr (by simp [simplifiedOpcode, opcode, always]) format always
    | true =>
        cases link : insn.lk with
        | false => exact .bctr (by simp [simplifiedOpcode, opcode, always, link]) format link always
        | true => exact .bctrl (by simp [simplifiedOpcode, opcode, always, link]) format link always

theorem decode_form (address word : UInt32) :
    (decode address word).group = .branch ∧ (decode address word).BranchForm ∨
      (decode address word).group ≠ .branch ∧ (decode address word).opcode ∉ branches ∧
        (decode address word).target = none := by
  rcases lookup_forms word with ⟨group, known⟩ | ⟨group, opcode, format⟩
  · exact Or.inl ⟨group, form_of_simplified (decodeBase address word) known⟩
  · refine Or.inr ⟨group, simplifiedOpcode_not_branch opcode, ?_⟩
    change branchTarget address word (Descriptor.lookup word).format = none
    unfold branchTarget
    split <;> simp_all

/-! ## Branches -/

namespace BranchForm

variable {insn : Instruction}

theorem isCall_iff (form : insn.BranchForm) : insn.isCall ↔ insn.lk := by
  cases form <;> grind [isCall]

theorem transfer_call_iff (form : insn.BranchForm) :
    insn.transfer = .call ∨ insn.transfer = .indirectCall ↔ insn.lk := by
  cases form <;> grind [transfer]

theorem lr_mem_writes_iff (form : insn.BranchForm) : .lr ∈ insn.effects.writes ↔ insn.lk := by
  rw [mem_writes_iff_own (by simp) (by simp)]
  cases form <;> simp [ownEffects, conditionWrites, *]

theorem transfer_direct_iff (form : insn.BranchForm) :
    insn.transfer ∈ [Transfer.jump, .conditional, .call] ↔ insn.format = .i ∨ insn.format = .b := by
  cases form <;> grind [transfer]

theorem leavesArm_iff (form : insn.BranchForm) :
    Flow.leavesArm insn ↔ insn.lk = false ∧ insn.isConditional = false := by
  cases form <;> grind [Flow.leavesArm, isConditional, alwaysTaken]

theorem transfer_ne_none (form : insn.BranchForm) : insn.transfer ≠ .none := by
  cases form <;> grind [transfer]

/-- What transfers control and leaves no return address does one of these. -/
theorem transfer_leaving_iff (form : insn.BranchForm) :
    insn.transfer ∈ [Transfer.jump, .ret, .indirectJump] ∧ insn.isConditional = false ↔
      insn.lk = false ∧ insn.isConditional = false := by
  cases form <;> grind [transfer, isConditional]

/-- Formats with a condition: the branch has one unless it is always taken. -/
theorem isConditional_iff (form : insn.BranchForm) (conditioned : insn.format ≠ .i) :
    insn.isConditional ↔ insn.alwaysTaken = false := by
  cases form <;> grind [isConditional]

end BranchForm

theorem isCall_of_not_branch {insn : Instruction} (plain : insn.opcode ∉ branches) :
    insn.isCall = false := by
  unfold isCall
  split <;> simp_all [branches]

end Instruction

/-! ## Conditions -/

theorem Lift.branchCondition_eq_none_iff (insn : Instruction) :
    (branchCondition insn).2 = none ↔ insn.alwaysTaken := by
  simp only [branchCondition, counterTest, bitTest, Instruction.alwaysTaken]
  cases insn.ignoresCounter <;> cases insn.ignoresCondition <;> cases insn.wantsSetBit <;>
    simp [Expr.joined]

/-! ## Agreement -/

namespace Instruction

theorem target_isSome_iff (address word : UInt32) :
    (decode address word).target.isSome ↔
      (decode address word).format = .i ∨ (decode address word).format = .b := by
  change (branchTarget address word (Descriptor.lookup word).format).isSome ↔
    (Descriptor.lookup word).format = .i ∨ (Descriptor.lookup word).format = .b
  unfold branchTarget
  split <;> simp_all

/-- The classifications of a decoded instruction agree: those of the decoder with the effects, calls
with writes of the link register, targets with direct transfers, the end of an arm with transfers
that neither return here nor depend on anything, and the condition that the code tests with the one
that the effects announce. -/
theorem decode_classified (address word : UInt32) :
    let insn := decode address word
    let effects := insn.effects
    (insn.isBranch ↔ effects.transfer ≠ .none) ∧
    (insn.isConditional ↔ effects.conditional) ∧
    (insn.isCall ↔ effects.transfer = .call ∨ effects.transfer = .indirectCall) ∧
    (insn.isCall ↔ insn.isBranch ∧ .lr ∈ effects.writes) ∧
    (insn.target.isSome ↔ effects.transfer ∈ [Transfer.jump, .conditional, .call]) ∧
    (Flow.leavesArm insn ↔
      effects.transfer ∈ [Transfer.jump, .ret, .indirectJump] ∧ effects.conditional = false) ∧
    (insn.isBranch → insn.format = .b ∨ insn.format = .xl →
      ((Lift.branchCondition insn).2 = none ↔ effects.conditional = false)) := by
  intro insn effects
  have transfer : effects.transfer = insn.transfer := effects_transfer insn
  have conditional : effects.conditional = insn.isConditional := effects_conditional insn
  rw [transfer, conditional]
  rcases decode_form address word with ⟨group, form⟩ | ⟨group, plain, untargeted⟩
  · have branch : insn.isBranch := by
      simp [isBranch, insn, group]
    refine ⟨iff_of_true branch form.transfer_ne_none, Iff.rfl,
      form.isCall_iff.trans form.transfer_call_iff.symm, ?_,
      (target_isSome_iff address word).trans form.transfer_direct_iff.symm,
      form.leavesArm_iff.trans form.transfer_leaving_iff.symm, ?_⟩
    · rw [and_iff_right branch]
      exact form.isCall_iff.trans form.lr_mem_writes_iff.symm
    · intro _ format
      have conditioned : insn.format ≠ .i := by
        rcases format with format | format <;> simp [format]
      rw [Lift.branchCondition_eq_none_iff, ← Bool.not_eq_true, form.isConditional_iff conditioned,
        Bool.not_eq_false]
  · have noBranch : insn.isBranch = false := by
      simp [isBranch, insn, group]
    obtain ⟨none, _, stays, _⟩ := insn.branch_cases.resolve_left plain
    simp [insn, noBranch, none, isCall_of_not_branch plain, stays, untargeted]

/-- At `bdnz` all classifications have something to say: it is taken under a condition, has a
target, leaves no return address and may go on. -/
theorem decode_classified_bdnz :
    let insn := decode 0x82000000 0x4200FFF8
    insn.isBranch ∧ insn.format = .b ∧ insn.target = some 0x81FFFFF8 ∧
      insn.effects.transfer = .conditional ∧ insn.effects.conditional ∧
      ((Lift.branchCondition insn).2 = none ↔ insn.effects.conditional = false) := by
  intro insn
  have branch : insn.isBranch := by decide +kernel
  have format : insn.format = .b := by decide +kernel
  exact ⟨branch, format, by decide +kernel, by decide +kernel, by decide +kernel,
    (decode_classified 0x82000000 0x4200FFF8).2.2.2.2.2.2 branch (Or.inl format)⟩

end Instruction

end PowerLift
