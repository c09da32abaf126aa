import Mathlib
import PowerLift.Isa.Operand
import PowerLift.Proofs.ComputedBranches
import PowerLift.Proofs.Constants
import PowerLift.Proofs.Successors

/-!
The windows in which a table is recognised: all that hold the idiom, in order, among instructions
that do not branch and leave its registers alone.
-/

namespace PowerLift

/-! ## Decoded instructions -/

namespace Instruction

theorem opcode_of_branch {address word : UInt32} (branch : (decode address word).isBranch) :
    (decode address word).opcode ∈ branches := by
  have base : (Descriptor.lookup word).group = .branch →
      (Descriptor.lookup word).opcode ∈ [Opcode.b, .bc, .bclr, .bcctr] :=
    Descriptor.lookup_ind
      (motive := fun entry => entry.group = .branch →
        entry.opcode ∈ [Opcode.b, .bc, .bclr, .bcctr])
      (by decide +kernel) (by decide) word
  rw [isBranch, beq_iff_eq] at branch
  have opcode := base branch
  change (decodeBase address word).simplifiedOpcode ∈ branches
  change (decodeBase address word).opcode ∈ _ at opcode
  simp only [List.mem_cons, List.not_mem_nil, or_false] at opcode
  unfold simplifiedOpcode
  rcases opcode with opcode | opcode | opcode | opcode <;> rw [opcode] <;> dsimp only <;>
    repeat' split
  all_goals decide

/-- An operation without special form was looked up as it is. -/
theorem opcode_of_simplified {insn : Instruction} {opcode : Opcode}
    (same : insn.simplifiedOpcode = opcode)
    (plain : opcode ∉ Descriptor.simplified.map (·.opcode)) : insn.opcode = opcode := by
  subst same
  unfold simplifiedOpcode at plain ⊢
  split at plain
  case h_11 => rfl
  all_goals
    revert plain
    repeat' split
    all_goals simp_all [Descriptor.simplified]

theorem decode_lwzx {address word : UInt32} (load : (decode address word).opcode = .lwzx) :
    (decode address word).group = .intLoad ∧ (decode address word).format = .x :=
  Descriptor.lookup_ind
    (motive := fun entry => entry.opcode = .lwzx → entry.group = .intLoad ∧ entry.format = .x)
    (by decide +kernel) (by decide) word (opcode_of_simplified load (by decide))

theorem decode_addi {address word : UInt32} (addition : (decode address word).opcode = .addi) :
    (decode address word).group = .intArithmetic ∧ (decode address word).format = .d :=
  Descriptor.lookup_ind
    (motive := fun entry => entry.opcode = .addi →
      entry.group = .intArithmetic ∧ entry.format = .d)
    (by decide +kernel) (by decide) word (opcode_of_simplified addition (by decide))

end Instruction

namespace TableIdiom

open Instruction

/-! ## The idiom -/

/-- The instruction is an operation with the given operands, in the order of the assembler. -/
def Reads (insn : Instruction) (opcode : Opcode) (operands : List Operand) : Prop :=
  insn.opcode = opcode ∧ insn.operands = operands

instance (insn : Instruction) (opcode : Opcode) (operands : List Operand) :
    Decidable (Reads insn opcode operands) :=
  inferInstanceAs (Decidable (_ ∧ _))

/-- The condition field and the registers of an idiom. The registers need not all differ. -/
structure Roles where
  field : Nat
  index : Nat
  base : Nat
  offset : Nat
  target : Nat
  base_ne_index : base ≠ index
  base_ne_offset : base ≠ offset
  base_ne_zero : base ≠ 0

/-- Instructions that may stand between those of the idiom. -/
structure Roles.Spares (roles : Roles) (insn : Instruction) : Prop where
  straight : insn.isBranch = false
  counter : .ctr ∉ insn.effects.writes
  registers : ∀ register ∈ [roles.index, roles.base, roles.offset, roles.target],
    register ∉ insn.effects.writesGpr
  unchecked : isBoundCheck roles.index insn = false

/-- Code that has given instructions in order and others between them. -/
def Spread (between : Instruction → Prop) : List Instruction → List Instruction → Prop
  | [], code => ∀ insn ∈ code, between insn
  | insn :: rest, code =>
    ∃ gap later, code = gap ++ insn :: later ∧ (∀ other ∈ gap, between other) ∧
      Spread between rest later

/-- A branch away if a comparison gave greater, with any hint. -/
def LeavesAbove (field : Nat) (insn : Instruction) : Prop :=
  ∃ hint < 4, ∃ goal,
    Reads insn .bc [.uimm (12 + hint), .crBit (4 * field + 1), .target goal]

/-- A branch away if a comparison did not give less. -/
def LeavesNotBelow (field : Nat) (insn : Instruction) : Prop :=
  ∃ hint < 4, ∃ goal,
    Reads insn .bc [.uimm (4 + hint), .crBit (4 * field), .target goal]

structure Idiom where
  check : Instruction
  leave : Instruction
  high : Instruction
  low : Instruction
  scale : Instruction
  fetch : Instruction
  move : Instruction
  branch : Instruction

/-- The idiom dispatches to a number of cases through a table at a base. -/
structure Idiom.Dispatches (idiom : Idiom) (roles : Roles) (base : UInt32) (count : Nat) :
    Prop where
  bounded : ∃ bound,
    Reads idiom.check .cmpli [.crField roles.field, .gpr roles.index, .uimm bound] ∧
      idiom.check.wideCompare = false ∧
      (LeavesAbove roles.field idiom.leave ∧ count = bound + 1 ∨
        LeavesNotBelow roles.field idiom.leave ∧ count = bound)
  based : ∃ high : Nat, Reads idiom.high .lis [.gpr roles.base, .uimm high] ∧
    ((∃ low : Int, Reads idiom.low .addi [.gpr roles.base, .gpr roles.base, .simm low] ∧
        UInt32.ofInt (high * 65536 + low) = base) ∨
      ∃ low : Nat, Reads idiom.low .ori [.gpr roles.base, .gpr roles.base, .uimm low] ∧
        UInt32.ofNat (high <<< 16 ||| low) = base)
  scaled : Reads idiom.scale .rlwinm
    [.gpr roles.offset, .gpr roles.index, .uimm 2, .uimm 0, .uimm 29]
  fetched :
    Reads idiom.fetch .lwzx [.gpr roles.target, .gpr roles.base, .gpr roles.offset] ∨
      roles.offset ≠ 0 ∧
        Reads idiom.fetch .lwzx [.gpr roles.target, .gpr roles.offset, .gpr roles.base]
  moved : Reads idiom.move .mtctr [.gpr roles.target]
  branches : Reads idiom.branch .bctr []

/-! ## Operands -/

section Operands

variable {insn : Instruction} {first second third : Nat}

theorem Reads.cmpli (reads : Reads insn .cmpli [.crField first, .gpr second, .uimm third]) :
    insn.crfd = first ∧ insn.ra = second ∧ insn.uimm = third := by
  obtain ⟨opcode, operands⟩ := reads
  simpa [Instruction.operands, opcode] using operands

theorem Reads.bc {goal : UInt32}
    (reads : Reads insn .bc [.uimm first, .crBit second, .target goal]) :
    insn.bo = first ∧ insn.bi = second := by
  obtain ⟨opcode, operands⟩ := reads
  simp only [Instruction.operands, opcode, List.cons.injEq, Operand.uimm.injEq,
    Operand.crBit.injEq] at operands
  exact ⟨operands.1, operands.2.1⟩

theorem Reads.lis (reads : Reads insn .lis [.gpr first, .uimm second]) :
    insn.rd = first ∧ insn.uimm = second := by
  obtain ⟨opcode, operands⟩ := reads
  simpa [Instruction.operands, opcode] using operands

theorem Reads.addi {address word : UInt32} {value : Int}
    (reads : Reads (decode address word) .addi [.gpr first, .gpr second, .simm value]) :
    (decode address word).rd = first ∧ (decode address word).ra = second ∧
      (decode address word).simm = value := by
  obtain ⟨opcode, operands⟩ := reads
  obtain ⟨group, format⟩ := decode_addi opcode
  simpa [Instruction.operands, groupOperands, opcode, group, format] using operands

theorem Reads.ori (reads : Reads insn .ori [.gpr first, .gpr second, .uimm third]) :
    insn.ra = first ∧ insn.rs = second ∧ insn.uimm = third := by
  obtain ⟨opcode, operands⟩ := reads
  simpa [Instruction.operands, opcode, rs] using operands

theorem Reads.rlwinm
    (reads : Reads insn .rlwinm [.gpr first, .gpr second, .uimm 2, .uimm 0, .uimm 29]) :
    insn.ra = first ∧ insn.rs = second ∧ isWordScale insn := by
  obtain ⟨opcode, operands⟩ := reads
  simpa [Instruction.operands, isWordScale, opcode, rs, and_assoc] using operands

theorem Reads.lwzx {address word : UInt32}
    (reads : Reads (decode address word) .lwzx [.gpr first, .gpr second, .gpr third]) :
    (decode address word).rd = first ∧ (decode address word).ra = second ∧
      (decode address word).rb = third := by
  obtain ⟨opcode, operands⟩ := reads
  obtain ⟨group, format⟩ := decode_lwzx opcode
  simpa [Instruction.operands, groupOperands, opcode, group, format] using operands

theorem Reads.mtctr (reads : Reads insn .mtctr [.gpr first]) : insn.rd = first := by
  obtain ⟨opcode, operands⟩ := reads
  simpa [Instruction.operands, opcode] using operands

theorem wantsSetBit_eq (insn : Instruction) : insn.wantsSetBit = (insn.bo / 8 % 2 == 1) := by
  have digit : bits insn.raw 24 1 = insn.bo / 8 % 2 := by
    simp only [bo, rd, Field.rd, Field.read, List.foldr, bits, Nat.one_shiftLeft,
      Nat.shiftRight_eq_div_pow, Nat.shiftLeft_zero, Nat.add_zero]
    omega
  rw [wantsSetBit, bit, digit]

end Operands

/-! ## Searching through gaps -/

theorem Spread.split {between : Instruction → Prop} (first : List Instruction)
    {second code : List Instruction} {insn : Instruction}
    (spread : Spread between (first ++ insn :: second) code) :
    ∃ before after, code = before ++ insn :: after ∧ Spread between first before ∧
      Spread between second after := by
  induction first generalizing code with
  | nil => exact spread
  | cons head rest ih =>
      obtain ⟨gap, later, rfl, spared, spread⟩ := spread
      obtain ⟨before, after, rfl, earlier, onward⟩ := ih spread
      refine ⟨gap ++ head :: before, after, by simp, ⟨gap, before, rfl, spared, earlier⟩, onward⟩

theorem Spread.mem_or {between : Instruction → Prop} {insns code : List Instruction}
    (spread : Spread between insns code) {insn : Instruction} (member : insn ∈ code) :
    between insn ∨ insn ∈ insns := by
  induction insns generalizing code with
  | nil => exact Or.inl (spread insn member)
  | cons head rest ih =>
      obtain ⟨gap, later, rfl, spared, spread⟩ := spread
      rcases List.mem_append.mp member with inGap | member
      · exact Or.inl (spared insn inGap)
      · rcases List.mem_cons.mp member with rfl | inLater
        · exact Or.inr List.mem_cons_self
        · exact (ih spread inLater).imp_right (List.mem_cons_of_mem _)

theorem Roles.Spares.passes {roles : Roles} {insn : Instruction} (spares : roles.Spares insn)
    {register : Nat}
    (role : register ∈ [roles.index, roles.base, roles.offset, roles.target]) :
    Passes register insn := by
  refine ⟨spares.registers register role, ?_⟩
  rw [spares.straight]
  exact fun branch => absurd branch Bool.false_ne_true

/-- The last writer of a register is found across a gap. -/
theorem writer?_gap {roles : Roles} {gap : List Instruction}
    (spared : ∀ insn ∈ gap, roles.Spares insn) {register : Nat}
    (role : register ∈ [roles.index, roles.base, roles.offset, roles.target]) {insn : Instruction}
    (writes : register ∈ insn.effects.writesGpr) (before : List Instruction) :
    writer? register (gap.reverse ++ insn :: before) = some (insn, before) := by
  apply writer?_eq_some_iff.mpr
  refine ⟨writes, gap.reverse, rfl, ?_⟩
  intro other member
  exact (spared other (List.mem_reverse.mp member)).passes role

theorem Roles.Spares.branchesIfNotLess_eq {roles : Roles} {insn : Instruction}
    (spares : roles.Spares insn) (decoded : ∃ address word, insn = decode address word)
    (field : Nat) : branchesIfNotLess field insn = false := by
  rw [Bool.eq_false_iff]
  intro found
  obtain ⟨address, word, rfl⟩ := decoded
  simp only [branchesIfNotLess, Bool.and_eq_true, beq_iff_eq] at found
  have branch := (decode_branch (by simp [found.1.1.1] :
    (decode address word).opcode ∈ [Opcode.b, .bc, .bclr, .bcctr, .blr, .bctr])).1
  have straight := spares.straight
  rw [isBranch, branch] at straight
  cases straight

/-! ## The instructions of the idiom -/

theorem straight_of_opcode {address word : UInt32}
    (other : (decode address word).opcode ∉ branches) :
    (decode address word).isBranch = false := by
  rw [Bool.eq_false_iff]
  exact fun branch => other (opcode_of_branch branch)

theorem not_mem_writesGpr_bc {insn : Instruction} (opcode : insn.opcode = .bc) (number : Nat) :
    number ∉ insn.effects.writesGpr := by
  rw [mem_writesGpr_iff_own]
  simp only [ownEffects, opcode, conditionWrites]
  split <;> simp

theorem isBoundCheck_of_ne {insn : Instruction} (other : insn.opcode ≠ .cmpli) (register : Nat) :
    isBoundCheck register insn = false := by
  simp [isBoundCheck, other]

theorem branchesIfNotLess_of_ne {insn : Instruction} (other : insn.opcode ≠ .bc) (field : Nat) :
    branchesIfNotLess field insn = false := by
  simp [branchesIfNotLess, other]

theorem LeavesAbove.branchesIfNotLess_eq {field : Nat} {insn : Instruction}
    (leaves : LeavesAbove field insn) : branchesIfNotLess field insn = false := by
  obtain ⟨hint, _, goal, reads⟩ := leaves
  obtain ⟨_, condition⟩ := reads.bc
  have other : insn.bi % 4 ≠ 0 := by omega
  simp [branchesIfNotLess, other]

theorem LeavesNotBelow.branchesIfNotLess_eq {field : Nat} {insn : Instruction}
    (leaves : LeavesNotBelow field insn) : branchesIfNotLess field insn = true := by
  obtain ⟨hint, few, goal, reads⟩ := leaves
  obtain ⟨options, condition⟩ := reads.bc
  have clear : insn.wantsSetBit = false := by
    rw [wantsSetBit_eq, beq_eq_false_iff_ne]
    omega
  have inField : insn.bi / 4 = field := by omega
  have first : insn.bi % 4 = 0 := by omega
  simp [branchesIfNotLess, reads.1, clear, inField, first]

theorem ofInt_high (high : Nat) : UInt32.ofInt (high * 65536) = UInt32.ofNat high <<< 16 := by
  apply UInt32.toNat_inj.mp
  have shift : (16 : UInt32).toNat % 32 = 16 := rfl
  rw [UInt32.ofInt, UInt32.toNat_shiftLeft, UInt32.toNat_ofNat', UInt32.toNat_ofNat', shift,
    Nat.shiftLeft_eq]
  omega

namespace Idiom.Dispatches

variable {idiom : Idiom} {roles : Roles} {base : UInt32} {count : Nat}
variable (dispatches : idiom.Dispatches roles base count)

include dispatches

theorem leave_opcode : idiom.leave.opcode = .bc := by
  obtain ⟨_, _, _, ⟨⟨_, _, _, reads⟩, _⟩ | ⟨⟨_, _, _, reads⟩, _⟩⟩ := dispatches.bounded
  · exact reads.1
  · exact reads.1

theorem high_opcode : idiom.high.opcode = .lis := by
  obtain ⟨_, reads, _⟩ := dispatches.based
  exact reads.1

theorem high_writes {number : Nat} :
    number ∈ idiom.high.effects.writesGpr ↔ number = roles.base := by
  obtain ⟨_, reads, _⟩ := dispatches.based
  rw [mem_writesGpr_rd (by simp [reads.1]), reads.lis.1]

theorem low_opcode : idiom.low.opcode = .addi ∨ idiom.low.opcode = .ori := by
  obtain ⟨_, _, ⟨_, reads, _⟩ | ⟨_, reads, _⟩⟩ := dispatches.based
  · exact Or.inl reads.1
  · exact Or.inr reads.1

theorem low_writes (decoded : ∃ address word, idiom.low = decode address word) {number : Nat} :
    number ∈ idiom.low.effects.writesGpr ↔ number = roles.base := by
  obtain ⟨_, _, ⟨_, reads, _⟩ | ⟨_, reads, _⟩⟩ := dispatches.based
  · obtain ⟨address, word, same⟩ := decoded
    rw [same] at reads ⊢
    rw [mem_writesGpr_rd (by simp [reads.1]), reads.addi.1]
  · rw [mem_writesGpr_ra (by simp [reads.1]), reads.ori.1]

theorem fetch_operands (decoded : ∃ address word, idiom.fetch = decode address word) :
    idiom.fetch.opcode = .lwzx ∧ idiom.fetch.rd = roles.target ∧ idiom.fetch.ra ≠ 0 ∧
      (idiom.fetch.ra = roles.base ∧ idiom.fetch.rb = roles.offset ∨
        idiom.fetch.ra = roles.offset ∧ idiom.fetch.rb = roles.base) := by
  have fetched := dispatches.fetched
  obtain ⟨address, word, same⟩ := decoded
  rw [same] at fetched ⊢
  rcases fetched with reads | ⟨nonzero, reads⟩
  · obtain ⟨target, first, second⟩ := reads.lwzx
    refine ⟨reads.1, target, ?_, Or.inl ⟨first, second⟩⟩
    rw [first]
    exact roles.base_ne_zero
  · obtain ⟨target, first, second⟩ := reads.lwzx
    refine ⟨reads.1, target, ?_, Or.inr ⟨first, second⟩⟩
    rw [first]
    exact nonzero

theorem scale_writes {number : Nat} :
    number ∈ idiom.scale.effects.writesGpr ↔ number = roles.offset := by
  rw [mem_writesGpr_ra (by simp [dispatches.scaled.1]), dispatches.scaled.rlwinm.1]

/-! ## Recognition -/

theorem any_branchesIfNotLess {field : Nat} {later : List Instruction}
    (spread : Spread roles.Spares [idiom.leave, idiom.high, idiom.low] later)
    (decoded : ∀ insn ∈ later, ∃ address word, insn = decode address word) :
    later.reverse.any (branchesIfNotLess field) = branchesIfNotLess field idiom.leave := by
  apply Bool.eq_iff_iff.mpr
  simp only [List.any_eq_true, List.mem_reverse]
  constructor
  · intro ⟨insn, member, branches⟩
    rcases spread.mem_or member with spares | named
    · rw [spares.branchesIfNotLess_eq (decoded insn member)] at branches
      cases branches
    · simp only [List.mem_cons, List.not_mem_nil, or_false] at named
      rcases named with rfl | rfl | rfl
      · exact branches
      · rw [branchesIfNotLess_of_ne (by simp [dispatches.high_opcode])] at branches
        cases branches
      · rw [branchesIfNotLess_of_ne] at branches
        · cases branches
        · rcases dispatches.low_opcode with opcode | opcode <;> simp [opcode]
  · intro branches
    obtain ⟨gap, rest, rfl, _⟩ := spread
    exact ⟨idiom.leave, by simp, branches⟩

/-- The bound check leaves the cases, whatever comes before it. -/
theorem caseCount?_eq {later : List Instruction}
    (spread : Spread roles.Spares [idiom.leave, idiom.high, idiom.low] later)
    (decoded : ∀ insn ∈ later, ∃ address word, insn = decode address word)
    (earlier : List Instruction) :
    caseCount? roles.index (later.reverse ++ idiom.check :: earlier) = some count := by
  obtain ⟨bound, reads, narrow, counted⟩ := dispatches.bounded
  obtain ⟨field, register, immediate⟩ := reads.cmpli
  apply caseCount?_eq_some_iff.mpr
  refine ⟨later.reverse, idiom.check, earlier, rfl, ?_, ?_, ?_⟩
  · simp [isBoundCheck, reads.1, narrow, register]
  · intro insn member
    rw [List.mem_reverse] at member
    rcases spread.mem_or member with spares | named
    · exact ⟨spares.unchecked, spares.registers _ List.mem_cons_self⟩
    · simp only [List.mem_cons, List.not_mem_nil, or_false] at named
      rcases named with rfl | rfl | rfl
      · exact ⟨isBoundCheck_of_ne (by simp [dispatches.leave_opcode]) _,
          not_mem_writesGpr_bc dispatches.leave_opcode _⟩
      · refine ⟨isBoundCheck_of_ne (by simp [dispatches.high_opcode]) _, ?_⟩
        rw [dispatches.high_writes]
        exact roles.base_ne_index.symm
      · refine ⟨isBoundCheck_of_ne ?_ _, ?_⟩
        · rcases dispatches.low_opcode with opcode | opcode <;> simp [opcode]
        · rw [dispatches.low_writes (decoded _ member)]
          exact roles.base_ne_index.symm
  · rw [dispatches.any_branchesIfNotLess spread decoded, field, immediate]
    rcases counted with ⟨leaves, rfl⟩ | ⟨leaves, rfl⟩
    · rw [leaves.branchesIfNotLess_eq, if_neg Bool.false_ne_true]
    · rw [leaves.branchesIfNotLess_eq, if_pos rfl]

theorem scale_passes (decoded : ∃ address word, idiom.scale = decode address word) :
    Passes roles.base idiom.scale := by
  constructor
  · rw [dispatches.scale_writes]
    exact roles.base_ne_offset
  · intro branch
    have opcode := dispatches.scaled.1
    obtain ⟨address, word, same⟩ := decoded
    rw [same] at branch opcode
    rw [straight_of_opcode (by rw [opcode]; decide)] at branch
    cases branch

theorem writer?_base {later : List Instruction}
    (spread : Spread roles.Spares [idiom.scale] later)
    (decodedLow : ∃ address word, idiom.low = decode address word)
    (decoded : ∀ insn ∈ later, ∃ address word, insn = decode address word)
    (before : List Instruction) :
    writer? roles.base (later.reverse ++ idiom.low :: before) = some (idiom.low, before) := by
  apply writer?_eq_some_iff.mpr
  refine ⟨(dispatches.low_writes decodedLow).mpr rfl, later.reverse, rfl, ?_⟩
  intro insn member
  rw [List.mem_reverse] at member
  rcases spread.mem_or member with spares | named
  · exact spares.passes (by simp)
  · obtain rfl := List.mem_singleton.mp named
    exact dispatches.scale_passes (decoded _ member)

/-- The base is what its halves make, whatever comes before them. -/
theorem builds {later : List Instruction}
    (spread : Spread roles.Spares [idiom.high, idiom.low, idiom.scale] later)
    (decoded : ∀ insn ∈ later, ∃ address word, insn = decode address word)
    (earlier : List Instruction) : Builds roles.base (later.reverse ++ earlier) base := by
  obtain ⟨before, after, rfl, ⟨early, gap, rfl, _, spared⟩, onward⟩ :=
    spread.split [idiom.high]
  obtain ⟨decodedLow, decodedAfter⟩ :=
    List.forall_mem_cons.mp (List.forall_mem_append.mp decoded).2
  have writtenLow := dispatches.writer?_base onward decodedLow decodedAfter
    (gap.reverse ++ idiom.high :: (early.reverse ++ earlier))
  have writtenHigh := writer?_gap spared (by simp) (dispatches.high_writes.mpr rfl)
    (early.reverse ++ earlier)
  have builtHigh := Builds.high writtenHigh dispatches.high_opcode
  obtain ⟨high, readsHigh, halves⟩ := dispatches.based
  rw [readsHigh.lis.2] at builtHigh
  simp only [List.reverse_append, List.reverse_cons, List.append_assoc, List.cons_append,
    List.nil_append]
  rcases halves with ⟨low, reads, rfl⟩ | ⟨low, reads, rfl⟩
  · obtain ⟨address, word, same⟩ := decodedLow
    rw [same] at reads
    obtain ⟨_, source, immediate⟩ := reads.addi
    rw [← same] at reads source immediate
    have built := Builds.add writtenLow reads.1 source builtHigh
    rwa [immediate, ← ofInt_high, ← UInt32.ofInt_add] at built
  · obtain ⟨target, source, immediate⟩ := reads.ori
    have built := Builds.insert writtenLow reads.1 source target builtHigh
    have shifted : UInt32.ofNat (high <<< 16) = UInt32.ofNat high <<< 16 :=
      UInt32.ofNat_shiftLeft high 16 (by omega)
    rwa [immediate, ← shifted, ← UInt32.ofNat_or] at built

theorem scaledIndex?_offset {gap : List Instruction} (spared : ∀ insn ∈ gap, roles.Spares insn)
    (before : List Instruction) :
    scaledIndex? roles.offset (gap.reverse ++ idiom.scale :: before) =
      some (roles.index, before) := by
  have written := writer?_gap spared (by simp) (dispatches.scale_writes.mpr rfl) before
  obtain ⟨_, source, scales⟩ := dispatches.scaled.rlwinm
  simp [scaledIndex?, written, scales, source]

/-- The base is not mistaken for the scaled index. -/
theorem scaledIndex?_base {later : List Instruction}
    (spread : Spread roles.Spares [idiom.scale] later)
    (decodedLow : ∃ address word, idiom.low = decode address word)
    (decoded : ∀ insn ∈ later, ∃ address word, insn = decode address word)
    (before : List Instruction) :
    scaledIndex? roles.base (later.reverse ++ idiom.low :: before) = none := by
  have scales : isWordScale idiom.low = false := by
    rcases dispatches.low_opcode with opcode | opcode <;> simp [isWordScale, opcode]
  simp [scaledIndex?, dispatches.writer?_base spread decodedLow decoded before, scales]

/-- What the load adds up is set up by the instructions before it. -/
theorem operands_found {later : List Instruction}
    (spread : Spread roles.Spares [idiom.leave, idiom.high, idiom.low, idiom.scale] later)
    (decoded : ∀ insn ∈ later, ∃ address word, insn = decode address word)
    (earlier : List Instruction) :
    constant? roles.base (later.reverse ++ idiom.check :: earlier) = some base ∧
      scaledIndex? roles.base (later.reverse ++ idiom.check :: earlier) = none ∧
      ∃ before,
        scaledIndex? roles.offset (later.reverse ++ idiom.check :: earlier) =
            some (roles.index, before) ∧
          caseCount? roles.index before = some count := by
  refine ⟨?_, ?_, ?_⟩
  · obtain ⟨gap, onward, rfl, _, spread⟩ := spread
    have decoded := (List.forall_mem_cons.mp (List.forall_mem_append.mp decoded).2).2
    have built := dispatches.builds spread decoded
      (idiom.leave :: (gap.reverse ++ idiom.check :: earlier))
    apply constant?_eq_some_iff.mpr
    simpa using built
  · obtain ⟨before, after, rfl, _, spread⟩ := spread.split [idiom.leave, idiom.high]
    obtain ⟨decodedLow, decoded⟩ :=
      List.forall_mem_cons.mp (List.forall_mem_append.mp decoded).2
    have missing := dispatches.scaledIndex?_base spread decodedLow decoded
      (before.reverse ++ idiom.check :: earlier)
    simpa using missing
  · obtain ⟨before, gap, rfl, spread, spared⟩ :=
      spread.split [idiom.leave, idiom.high, idiom.low]
    have found := dispatches.scaledIndex?_offset spared
      (before.reverse ++ idiom.check :: earlier)
    refine ⟨before.reverse ++ idiom.check :: earlier, by simpa using found, ?_⟩
    exact dispatches.caseCount?_eq spread (List.forall_mem_append.mp decoded).1 earlier

theorem dispatch?_eq {middle : List Instruction}
    (spread : Spread roles.Spares
      [idiom.leave, idiom.high, idiom.low, idiom.scale, idiom.fetch, idiom.move] middle)
    (decoded : ∀ insn ∈ middle, ∃ address word, insn = decode address word)
    (earlier : List Instruction) :
    dispatch? (middle.reverse ++ idiom.check :: earlier) = some (base, roles.index, count) := by
  obtain ⟨_, afterMove, rfl, spread, sparedMove⟩ :=
    spread.split [idiom.leave, idiom.high, idiom.low, idiom.scale, idiom.fetch]
  obtain ⟨later, afterFetch, rfl, spread, sparedFetch⟩ :=
    spread.split [idiom.leave, idiom.high, idiom.low, idiom.scale]
  obtain ⟨decoded, _⟩ := List.forall_mem_append.mp decoded
  obtain ⟨decoded, decodedFetch⟩ := List.forall_mem_append.mp decoded
  obtain ⟨opcode, target, nonzero, order⟩ :=
    dispatches.fetch_operands (List.forall_mem_cons.mp decodedFetch).1
  obtain ⟨constant, missing, before, scaled, counted⟩ :=
    dispatches.operands_found spread decoded earlier
  simp only [List.reverse_append, List.reverse_cons, List.append_assoc, List.cons_append,
    List.nil_append]
  generalize later.reverse ++ idiom.check :: earlier = body at constant missing scaled ⊢
  have moved : counterWriter? (afterMove.reverse ++ idiom.move ::
      (afterFetch.reverse ++ idiom.fetch :: body)) =
        some (idiom.move, afterFetch.reverse ++ idiom.fetch :: body) := by
    apply counterWriter?_eq_some_iff.mpr
    refine ⟨dispatches.moved.1, afterMove.reverse, rfl, ?_⟩
    intro insn member
    have spares := sparedMove insn (List.mem_reverse.mp member)
    exact ⟨spares.counter, spares.straight⟩
  have fetched : writer? idiom.move.rd (afterFetch.reverse ++ idiom.fetch :: body) =
      some (idiom.fetch, body) := by
    rw [dispatches.moved.mtctr]
    apply writer?_gap sparedFetch (by simp)
    rw [mem_writesGpr_rd (by simp [opcode]), target]
  rcases order with ⟨first, second⟩ | ⟨first, second⟩
  · have nonzero : roles.base ≠ 0 := roles.base_ne_zero
    simp [dispatch?, moved, fetched, opcode, first, second, nonzero, scaled, constant, counted]
  · rw [first] at nonzero
    simp [dispatch?, moved, fetched, opcode, first, second, nonzero, missing, scaled, constant,
      counted]

end Idiom.Dispatches

theorem exists_stored {image : Image} {base : UInt32} {count : Nat}
    (stored : ∀ index < count, base.toNat + 4 * index < 2 ^ 32 ∧
      ∃ target ∈ image.read? (base + UInt32.ofNat (4 * index)),
        aligned target ∧ image.isExecutable target) :
    ∃ targets : List UInt32, targets.length = count ∧
      (∀ index < count, image.read? (base + UInt32.ofNat (4 * index)) = targets[index]?) ∧
      ∀ target ∈ targets, aligned target ∧ image.isExecutable target := by
  induction count with
  | zero => exact ⟨[], rfl, fun _ below => absurd below (Nat.not_lt_zero _), by simp⟩
  | succ count ih =>
      obtain ⟨targets, rfl, read, code⟩ :=
        ih fun index below => stored index (Nat.lt_succ_of_lt below)
      obtain ⟨_, last, found, codeLast⟩ := stored targets.length (Nat.lt_succ_self _)
      refine ⟨targets ++ [last], List.length_append, ?_, ?_⟩
      · intro index below
        rcases Nat.lt_succ_iff_lt_or_eq.mp below with former | rfl
        · rw [List.getElem?_append_left former, read index former]
        · rw [List.getElem?_concat_length]
          exact found
      · refine List.forall_mem_append.mpr ⟨code, ?_⟩
        rw [List.forall_mem_singleton]
        exact codeLast

/-- Code with the idiom in it is recognised as a table, if the words of the table can be read and
are code addresses. Nothing is asked of the instructions before the bound check. -/
theorem recognize?_idiom {idiom : Idiom} {roles : Roles} {base : UInt32} {count : Nat}
    (dispatches : idiom.Dispatches roles base count) {middle : List Instruction}
    (spread : Spread roles.Spares
      [idiom.leave, idiom.high, idiom.low, idiom.scale, idiom.fetch, idiom.move] middle)
    (decoded : ∀ insn ∈ middle, ∃ address word, insn = decode address word)
    (positive : 1 ≤ count) (few : count ≤ 4096) {image : Image}
    (stored : ∀ index < count, base.toNat + 4 * index < 2 ^ 32 ∧
      ∃ target ∈ image.read? (base + UInt32.ofNat (4 * index)),
        aligned target ∧ image.isExecutable target)
    (earlier : List Instruction) :
    ∃ targets, targets.length = count ∧
      (∀ index < count, image.read? (base + UInt32.ofNat (4 * index)) = targets[index]?) ∧
      recognize? image (earlier ++ idiom.check :: middle ++ [idiom.branch]) =
        some { address := idiom.branch.address, base := some base, register := roles.index,
               targets, source := .recognized } := by
  obtain ⟨targets, length, read, code⟩ := exists_stored stored
  subst length
  refine ⟨targets, rfl, read, ?_⟩
  have order : (earlier ++ idiom.check :: middle ++ [idiom.branch]).reverse =
      idiom.branch :: (middle.reverse ++ idiom.check :: earlier.reverse) := by simp
  have dispatched := dispatches.dispatch?_eq spread decoded earlier.reverse
  have within : ¬ (targets.length = 0 ∨ maxCases < targets.length) := by
    change ¬ (_ ∨ 4096 < _)
    omega
  have entries : entries? image base targets.length = some targets :=
    entries?_of_stored fun index below => ⟨(stored index below).1, read index below⟩
  simp only [recognize?, order, dispatches.branches.1, if_pos, dispatched, Option.bind_eq_bind,
    Option.bind_some, if_neg within, entries]
  exact if_pos (JumpTable.isValid_iff.mpr code)

/-! A table of two cases whose base borrows from its high half. The index is scaled in place, the
load has the base second and overwrites it, and an older bound check comes before the code. -/

def borrowedBaseImage : Image :=
  Image.ofCode 0x1FFBC #[0x28, 0x03, 0x00, 0x09, 0x2B, 0x03, 0x00, 0x02, 0x38, 0xA5, 0x00, 0x01,
    0x40, 0x98, 0xFF, 0xF8, 0x3D, 0x60, 0x00, 0x02, 0x39, 0x6B, 0xFF, 0xE8, 0x90, 0xA1, 0x00,
    0x00, 0x54, 0x63, 0x10, 0x3A, 0x7D, 0x63, 0x58, 0x2E, 0x7D, 0x69, 0x03, 0xA6, 0x4E, 0x80,
    0x04, 0x20, 0x00, 0x01, 0xFF, 0xC0, 0x00, 0x01, 0xFF, 0xCC]

def borrowedBase : Idiom where
  check := decode 0x1FFC0 0x2B030002
  leave := decode 0x1FFC8 0x4098FFF8
  high := decode 0x1FFCC 0x3D600002
  low := decode 0x1FFD0 0x396BFFE8
  scale := decode 0x1FFD8 0x5463103A
  fetch := decode 0x1FFDC 0x7D63582E
  move := decode 0x1FFE0 0x7D6903A6
  branch := decode 0x1FFE4 0x4E800420

def borrowedBaseRoles : Roles where
  field := 6
  index := 3
  base := 11
  offset := 3
  target := 11
  base_ne_index := by decide
  base_ne_offset := by decide
  base_ne_zero := by decide

def borrowedBaseCode : List Instruction :=
  [decode 0x1FFC4 0x38A50001, borrowedBase.leave, borrowedBase.high, borrowedBase.low,
    decode 0x1FFD4 0x90A10000, borrowedBase.scale, borrowedBase.fetch, borrowedBase.move]

theorem borrowedBase_dispatches : borrowedBase.Dispatches borrowedBaseRoles 0x1FFE8 2 where
  bounded := ⟨2, by decide +kernel, by decide +kernel,
    Or.inr ⟨⟨0, by decide, 0x1FFC0, by decide +kernel⟩, rfl⟩⟩
  based := ⟨2, by decide +kernel, Or.inl ⟨-24, by decide +kernel, by decide +kernel⟩⟩
  scaled := by decide +kernel
  fetched := by decide +kernel
  moved := by decide +kernel
  branches := by decide +kernel

theorem borrowedBaseCode_spread : Spread borrowedBaseRoles.Spares
    [borrowedBase.leave, borrowedBase.high, borrowedBase.low, borrowedBase.scale,
      borrowedBase.fetch, borrowedBase.move] borrowedBaseCode := by
  have counting : borrowedBaseRoles.Spares (decode 0x1FFC4 0x38A50001) :=
    ⟨by decide +kernel, by decide +kernel, by decide +kernel, by decide +kernel⟩
  have storing : borrowedBaseRoles.Spares (decode 0x1FFD4 0x90A10000) :=
    ⟨by decide +kernel, by decide +kernel, by decide +kernel, by decide +kernel⟩
  exact ⟨[_], _, rfl, List.forall_mem_singleton.mpr counting, [], _, rfl, List.forall_mem_nil _,
    [], _, rfl, List.forall_mem_nil _, [_], _, rfl, List.forall_mem_singleton.mpr storing,
    [], _, rfl, List.forall_mem_nil _, [], _, rfl, List.forall_mem_nil _, List.forall_mem_nil _⟩

theorem recognize?_borrowedBase :
    borrowedBase.Dispatches borrowedBaseRoles 0x1FFE8 2 ∧
      recognize? borrowedBaseImage ([decode 0x1FFBC 0x28030009] ++ borrowedBase.check ::
          borrowedBaseCode ++ [borrowedBase.branch]) =
        some { address := 0x1FFE4, base := some 0x1FFE8, register := 3,
               targets := [0x1FFC0, 0x1FFCC], source := .recognized } := by
  have stored : ∀ index < 2, (0x1FFE8 : UInt32).toNat + 4 * index < 2 ^ 32 ∧
      ∃ target ∈ borrowedBaseImage.read? (0x1FFE8 + UInt32.ofNat (4 * index)),
        aligned target ∧ borrowedBaseImage.isExecutable target := by
    intro index below
    interval_cases index
    · exact ⟨by decide, 0x1FFC0, by decide +kernel, by decide +kernel⟩
    · exact ⟨by decide, 0x1FFCC, by decide +kernel, by decide +kernel⟩
  refine ⟨borrowedBase_dispatches, ?_⟩
  obtain ⟨targets, length, read, found⟩ := recognize?_idiom borrowedBase_dispatches
    borrowedBaseCode_spread (by
      simp only [borrowedBaseCode, List.forall_mem_cons]
      exact ⟨⟨_, _, rfl⟩, ⟨_, _, rfl⟩, ⟨_, _, rfl⟩, ⟨_, _, rfl⟩, ⟨_, _, rfl⟩, ⟨_, _, rfl⟩,
        ⟨_, _, rfl⟩, ⟨_, _, rfl⟩, List.forall_mem_nil _⟩)
    (by decide) (by decide) stored [decode 0x1FFBC 0x28030009]
  obtain ⟨first, second, rfl⟩ := List.length_eq_two.mp length
  have firstRead : some 0x1FFC0 = some first := read 0 (by decide)
  have secondRead : some 0x1FFCC = some second := read 1 (by decide)
  obtain rfl := Option.some.inj firstRead
  obtain rfl := Option.some.inj secondRead
  exact found

end TableIdiom

end PowerLift
