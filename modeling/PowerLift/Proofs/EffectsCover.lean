import Mathlib
import PowerLift.Proofs.RegisterUse

/-!
The effects of an instruction account for the registers in its code, group by group. There is one
exception: a comparison of floating-point numbers with its record bit set changes the second
condition field, and its effects have the first one there.
-/

namespace PowerLift

/-! ## Integers -/

namespace Lift

open Instruction

attribute [local simp] Expr.assigned Expr.registers

/-- The groups whose recording compares the result with zero. -/
def ComparesResult (group : Group) : Prop :=
  group = .intArithmetic ∨ group = .intLogical ∨ group = .intRotate ∨ group = .intShift

theorem record_covered {insn : Instruction} (result : Nat)
    (writes : .gpr result ∈ insn.effects.writes) (condition : .cr 0 ∈ insn.effects.writes)
    (overflow : .xer ∈ insn.effects.reads) : insn.CoversActions [record (.gpr result)] := by
  constructor
  · simp [record, Action.assigned, Expr.send, Expr.cr, Expr.gpr, Expr.decimal, Expr.xer,
      Method.mutates, condition]
  · simp [record, Action.registers, Expr.send, Expr.cr, Expr.gpr, Expr.decimal, Expr.xer, condition,
      overflow, writes]

theorem recorded_covered {insn : Instruction} (regular : insn.Regular)
    (compares : ComparesResult insn.group) {requests : List Register} {result : Nat}
    {actions : List Action} {stmts : List Stmt} (covered : insn.CoversActions actions)
    (writes : .gpr result ∈ insn.effects.writes)
    (accepted : (recorded insn requests (.gpr result) actions).body = some stmts) :
    insn.Covers stmts := by
  cases accepted
  rw [covers_acts]
  split
  next asked =>
    have field : insn.recordedField? = some 0 := by
      have plain : insn.vectorRecordBit = false := by
        by_contra vector
        rcases regular.recorded (by simpa using vector) with group | group <;>
          simp [ComparesResult, group] at compares
      have bit : (insn.format.hasRecordBit && insn.recordBit) = true := by
        simpa [Instruction.records, plain] using asked
      rcases compares with group | group | group | group <;> simp [recordedField?, bit, group]
    refine coversActions_append covered (record_covered result writes ?_ ?_)
    · exact mem_writes.mpr (Or.inr (by simp [suffixWrites, field]))
    · exact mem_reads.mpr (Or.inr (by simp [suffixReads, field]))
  next => exact covered

theorem arithmeticActions_covered {insn : Instruction} (regular : insn.Regular)
    {actions : List Action} (found : arithmeticActions insn = some actions) :
    insn.CoversActions actions ∧ .gpr insn.rd ∈ insn.effects.writes := by
  have base := regular.base
  unfold arithmeticActions at found
  split at found
  all_goals
    rename_i opcode
    cases found
  all_goals
    refine ⟨⟨?_, ?_⟩, ?_⟩ <;>
      simp [mem_reads, mem_writes, ownEffects, opcode, Effects.registers, Action.assigned,
        Action.registers, Expr.gpr, Expr.send, Expr.invoke, Expr.carry, Expr.xer, Expr.decimal,
        immediate, highImmediate, addExtended, castTwice, productShifted, quotient, Method.mutates,
        Expr.doubleword, Instruction.base, base]

theorem arithmetic_covered {insn : Instruction} (regular : insn.Regular)
    (group : insn.group = .intArithmetic) {stmts : List Stmt}
    (accepted : (arithmetic insn).body = some stmts) : insn.Covers stmts := by
  unfold arithmetic at accepted
  split at accepted
  · cases accepted
  · split at accepted
    next actions found =>
      obtain ⟨covered, writes⟩ := arithmeticActions_covered regular found
      split at accepted
      next opcode =>
        cases accepted
        rw [covers_acts]
        refine coversActions_append covered (record_covered insn.rd writes ?_ ?_)
        · simp [mem_writes, ownEffects, opcode, Effects.registers]
        · simp [mem_reads, ownEffects, opcode, Effects.registers]
      next =>
        exact recorded_covered regular (by simp [ComparesResult, group]) covered writes accepted
    next => cases accepted

theorem logicalValue_covered {insn : Instruction} {value : Expr}
    (found : logicalValue insn = some value) :
    insn.CoversActions [.assign (.gpr insn.ra) value] ∧ .gpr insn.ra ∈ insn.effects.writes := by
  unfold logicalValue at found
  split at found
  all_goals
    rename_i opcode
    cases found
  all_goals
    refine ⟨⟨?_, ?_⟩, ?_⟩ <;>
      simp [mem_reads, mem_writes, ownEffects, opcode, Effects.registers, Action.assigned,
        Action.registers, Expr.gpr, Expr.send, castTwice, Method.mutates, Expr.doubleword, rs]

theorem logical_covered {insn : Instruction} (regular : insn.Regular)
    (group : insn.group = .intLogical) {stmts : List Stmt}
    (accepted : (logical insn).body = some stmts) : insn.Covers stmts := by
  unfold logical at accepted
  split at accepted
  · cases accepted
    exact bounds_nil insn
  · split at accepted
    next value found =>
      obtain ⟨covered, writes⟩ := logicalValue_covered found
      split at accepted
      next opcode =>
        cases accepted
        refine covers_acts.mpr (coversActions_cons covered (record_covered insn.ra writes ?_ ?_))
        · rcases opcode with opcode | opcode <;>
            simp [mem_writes, ownEffects, opcode, Effects.registers]
        · rcases opcode with opcode | opcode <;>
            simp [mem_reads, ownEffects, opcode, Effects.registers]
      next =>
        exact recorded_covered regular (by simp [ComparesResult, group]) covered writes accepted
    next => cases accepted

theorem compare_covered {insn : Instruction} {stmts : List Stmt}
    (accepted : (compare insn).body = some stmts) : insn.Covers stmts := by
  unfold compare at accepted
  split at accepted
  next type right found =>
    cases accepted
    rw [covers_acts]
    unfold comparison at found
    split at found
    all_goals
      rename_i opcode wide
      cases found
    all_goals
      constructor <;>
        simp [mem_reads, mem_writes, ownEffects, opcode, Effects.registers, Action.assigned,
          Action.registers, Expr.gpr, Expr.cr, Expr.xer, Expr.send, Expr.decimal, Expr.hex,
          Method.mutates]
  next => cases accepted

theorem rotation_covered {insn : Instruction} {value : Expr} (found : rotation insn = some value) :
    insn.CoversActions [.assign (.gpr insn.ra) value] ∧ .gpr insn.ra ∈ insn.effects.writes := by
  unfold rotation at found
  split at found
  all_goals
    rename_i opcode
    cases found
  all_goals
    refine ⟨⟨?_, ?_⟩, ?_⟩ <;>
      simp [mem_reads, mem_writes, ownEffects, opcode, Effects.registers, Action.assigned,
        Action.registers, Expr.gpr, Expr.send, Expr.decimal, Expr.hex, Expr.doubleword,
        Method.mutates, masked, inserted, rotated, doubledWord, countIn, rs]

theorem rotate_covered {insn : Instruction} (regular : insn.Regular)
    (group : insn.group = .intRotate) {stmts : List Stmt}
    (accepted : (rotate insn).body = some stmts) : insn.Covers stmts := by
  unfold rotate at accepted
  split at accepted
  next value found =>
    obtain ⟨covered, writes⟩ := rotation_covered found
    exact recorded_covered regular (by simp [ComparesResult, group]) covered writes accepted
  next => cases accepted

theorem shiftActions_covered {insn : Instruction} {actions : List Action}
    (found : shiftActions insn = some actions) :
    insn.CoversActions actions ∧ .gpr insn.ra ∈ insn.effects.writes := by
  unfold shiftActions at found
  split at found
  all_goals
    rename_i opcode
    cases found
  all_goals
    refine ⟨⟨?_, ?_⟩, ?_⟩ <;>
      simp [mem_reads, mem_writes, ownEffects, opcode, Effects.registers, Action.assigned,
        Action.registers, Expr.gpr, Expr.xer, Expr.carry, Expr.invoke, Expr.decimal, Expr.hex,
        Expr.doubleword, unlessShiftedOut, maskedCount, shiftedWord, carryOut, castTwice, rs]

theorem shift_covered {insn : Instruction} (regular : insn.Regular)
    (group : insn.group = .intShift) {stmts : List Stmt}
    (accepted : (shift insn).body = some stmts) : insn.Covers stmts := by
  unfold shift at accepted
  split at accepted
  next actions found =>
    obtain ⟨covered, writes⟩ := shiftActions_covered found
    exact recorded_covered regular (by simp [ComparesResult, group]) covered writes accepted
  next => cases accepted

/-! ## Memory -/

theorem mem_multiple {first index : Nat} (small : index < 32 - first) :
    .gpr (first + index) ∈ multiple first := by
  simp only [multiple, List.mem_map, List.mem_range'_1, Register.gpr.injEq, exists_eq_right]
  omega

@[simp] theorem nameAddress_assigned (insn : Instruction) : (nameAddress insn).assigned = [] := by
  change (effectiveAddress insn).assigned = []
  unfold effectiveAddress
  dsimp only
  repeat' split
  all_goals rfl

/-- The address of an access names the base register, and an index register unless there is a
displacement. -/
theorem nameAddress_covered {insn : Instruction} (regular : insn.Regular)
    (base : insn.ra ≠ 0 → .gpr insn.ra ∈ insn.ownEffects.reads)
    (index : insn.opcode.isDisplaced = false → .gpr insn.rb ∈ insn.ownEffects.reads) :
    insn.CoversActions [nameAddress insn] := by
  have named : ∀ register ∈ (effectiveAddress insn).registers,
      register ∈ insn.ownEffects.reads := by
    unfold effectiveAddress
    dsimp only
    split
    next indexed =>
      have indexRead := index (by
        by_contra displaced
        rcases regular.displaced (by simpa using displaced) with format | format <;>
          simp [format] at indexed)
      split
      · simpa [Expr.gpr] using indexRead
      next some =>
        simpa [Expr.gpr, Expr.send] using ⟨base some, indexRead⟩
    next =>
      split
      · simp
      next some => simpa [Expr.gpr, Expr.send, Expr.hex] using base some
  constructor
  · simp
  · simpa [nameAddress, Action.registers] using
      fun register member _ => Or.inl (mem_reads.mpr (Or.inl (named register member)))

/-- An access is covered if what comes after its address is. -/
theorem access_covered {insn : Instruction} (regular : insn.Regular) {actions : List Action}
    (base : insn.ra ≠ 0 → .gpr insn.ra ∈ insn.ownEffects.reads)
    (index : insn.opcode.isDisplaced = false → .gpr insn.rb ∈ insn.ownEffects.reads)
    (rest : insn.CoversActions actions) :
    insn.Covers ((nameAddress insn :: actions).map .act) :=
  covers_acts.mpr (coversActions_cons (nameAddress_covered regular base index) rest)

theorem integerLoad_covered {insn : Instruction} (regular : insn.Regular) {io : Bool}
    {stmts : List Stmt} (accepted : (integerLoad io insn).body = some stmts) :
    insn.Covers stmts := by
  unfold integerLoad at accepted
  split at accepted
  case h_3 opcode =>
    cases accepted
    refine access_covered regular ?_ ?_ (coversActions_map fun index member => ⟨?_, ?_⟩)
    · simp [ownEffects, opcode, Effects.load, Instruction.base]
    · simp [opcode, Opcode.isDisplaced]
    all_goals
      simp [mem_writes, ownEffects, opcode, Effects.load, Action.assigned, Action.registers,
        Expr.gpr, Expr.invoke, Expr.send, Expr.ea, Expr.decimal, addressOf, Method.mutates,
        mem_multiple (List.mem_range.mp member)]
  case h_4 =>
    split at accepted
    next access found =>
      cases accepted
      unfold loadAccess? at found
      split at found
      all_goals
        rename_i opcode
        cases found
      all_goals
        refine access_covered regular ?_ ?_ ⟨?_, ?_⟩ <;>
          simp +contextual [mem_writes, ownEffects, opcode, Effects.load, Instruction.base,
            Opcode.isDisplaced, updateBase, loadedValue, signedType, Action.assigned,
            Action.registers, Expr.gpr, Expr.invoke, Expr.send, Expr.ea, Method.mutates]
    next => cases accepted
  all_goals
    rename_i opcode
    cases accepted
    refine access_covered regular ?_ ?_ ⟨?_, ?_⟩ <;>
      simp +contextual [mem_writes, ownEffects, opcode, Effects.load, Instruction.base,
        Opcode.isDisplaced, Action.assigned, Action.registers, Expr.gpr, Expr.invoke, Expr.ea,
        Register.isTracked]

theorem integerStore_covered {insn : Instruction} (regular : insn.Regular) {io : Bool}
    {stmts : List Stmt} (accepted : (integerStore io insn).body = some stmts) :
    insn.Covers stmts := by
  unfold integerStore at accepted
  split at accepted
  case h_3 opcode =>
    cases accepted
    refine access_covered regular ?_ ?_ (coversActions_map fun index member => ⟨?_, ?_⟩)
    · simp +contextual [ownEffects, opcode, Effects.store, Instruction.base]
    · simp [opcode, Opcode.isDisplaced]
    all_goals
      have moved : .gpr (insn.rd + index) ∈ multiple insn.rd :=
        mem_multiple (List.mem_range.mp member)
      simp [mem_reads, ownEffects, opcode, Effects.store, Action.assigned, Action.registers,
        Expr.gpr, Expr.invoke, Expr.send, Expr.ea, Expr.decimal, addressOf, Method.mutates, rs,
        moved]
  case h_4 =>
    split at accepted
    next access found =>
      cases accepted
      unfold storeAccess? at found
      split at found
      all_goals
        rename_i opcode
        cases found
      all_goals
        refine access_covered regular ?_ ?_ ⟨?_, ?_⟩ <;>
          simp +contextual [mem_reads, mem_writes, ownEffects, opcode, Effects.store,
            Instruction.base, Opcode.isDisplaced, updateBase, storedValue, Action.assigned,
            Action.registers, Expr.gpr, Expr.invoke, Expr.send, Expr.ea, Method.mutates, rs]
    next => cases accepted
  all_goals
    rename_i opcode
    cases accepted
    refine access_covered regular ?_ ?_ ⟨?_, ?_⟩ <;>
      simp +contextual [mem_reads, mem_writes, ownEffects, opcode, Effects.store, Instruction.base,
        Opcode.isDisplaced, Action.assigned, Action.registers, Expr.gpr, Expr.cr, Expr.xer,
        Expr.invoke, Expr.send, Expr.ea, Method.mutates, rs, Register.isTracked]

theorem floatLoad_covered {insn : Instruction} (regular : insn.Regular) {io : Bool}
    {stmts : List Stmt} (accepted : (floatLoad io insn).body = some stmts) :
    insn.Covers stmts := by
  unfold floatLoad at accepted
  split at accepted
  all_goals
    rename_i opcode
    cases accepted
  all_goals
    refine access_covered regular ?_ ?_ ⟨?_, ?_⟩ <;>
      simp +contextual [mem_writes, ownEffects, opcode, Effects.load, Instruction.base,
        Opcode.isDisplaced, updateBase, loadSingle, loadDouble, Action.assigned, Action.registers,
        Expr.gpr, Expr.fpr, Expr.invoke, Expr.ea]

theorem floatStore_covered {insn : Instruction} (regular : insn.Regular) {io : Bool}
    {stmts : List Stmt} (accepted : (floatStore io insn).body = some stmts) :
    insn.Covers stmts := by
  unfold floatStore at accepted
  split at accepted
  all_goals
    rename_i opcode
    cases accepted
  all_goals
    refine access_covered regular ?_ ?_ ⟨?_, ?_⟩ <;>
      simp +contextual [mem_reads, mem_writes, ownEffects, opcode, Effects.store, Instruction.base,
        Opcode.isDisplaced, updateBase, Action.assigned, Action.registers, Expr.gpr, Expr.fpr,
        Expr.invoke, Expr.send, Expr.ea, Method.mutates, rs]

theorem vectorOperand_eq {insn : Instruction} (regular : insn.Regular)
    (group : insn.group = .vectorLoad ∨ insn.group = .vectorStore) :
    vectorOperand insn = if insn.opcode.isWideAccess then insn.vd128 else insn.rd := by
  simp only [vectorOperand, regular.wide group]

theorem vectorLoad_covered {insn : Instruction} (regular : insn.Regular)
    (group : insn.group = .vectorLoad) {io : Bool} {stmts : List Stmt}
    (accepted : (vectorLoad io insn).body = some stmts) : insn.Covers stmts := by
  unfold vectorLoad at accepted
  split at accepted
  next value found =>
    cases accepted
    unfold vectorLoadValue at found
    split at found
    all_goals
      rename_i opcode
      cases found
    all_goals
      refine access_covered regular ?_ ?_ ⟨?_, ?_⟩ <;>
        simp +contextual [mem_writes, ownEffects, opcode, Effects.registers, Effects.load,
          Instruction.base, vectorOperand_eq regular (Or.inl group), Opcode.isWideAccess,
          roundedAddress, Action.assigned, Action.registers, Expr.vr, Expr.invoke, Expr.ea,
          Expr.hex]
  next => cases accepted

theorem vectorStore_covered {insn : Instruction} (regular : insn.Regular)
    (group : insn.group = .vectorStore) {io : Bool} {stmts : List Stmt}
    (accepted : (vectorStore io insn).body = some stmts) : insn.Covers stmts := by
  unfold vectorStore at accepted
  split at accepted
  next datum address value found =>
    cases accepted
    unfold vectorStoreShape at found
    split at found
    all_goals
      rename_i opcode
      cases found
    all_goals
      refine access_covered regular ?_ ?_ ⟨?_, ?_⟩ <;>
        simp +contextual [mem_reads, ownEffects, opcode, Effects.store, Instruction.base,
          vectorOperand_eq regular (Or.inr group), Opcode.isWideAccess, roundedAddress,
          Action.assigned, Action.registers, Expr.vr, Expr.invoke, Expr.send, Expr.ea, Expr.hex,
          Expr.decimal, Method.mutates]
  next => cases accepted

theorem cache_covered {insn : Instruction} (regular : insn.Regular) {stmts : List Stmt}
    (accepted : (cache insn).body = some stmts) : insn.Covers stmts := by
  unfold cache at accepted
  split at accepted
  case h_1 opcode =>
    cases accepted
    refine access_covered regular ?_ ?_ ⟨?_, ?_⟩ <;>
      simp +contextual [ownEffects, opcode, Effects.store, Instruction.base, roundedAddress,
        Action.assigned, Action.registers, Expr.invoke, Expr.ea, Expr.decimal]
  all_goals
    cases accepted
  all_goals exact bounds_nil insn

/-! ## Floating point -/

theorem statusField_covered_iff {insn : Instruction} {field source : Nat} :
    insn.CoversActions [statusField field source] ↔ .cr field ∈ insn.effects.writes := by
  constructor
  · rintro ⟨writes, -⟩
    exact writes (.cr field) (by simp [statusField, Action.assigned, Expr.send, Expr.cr,
      Method.mutates]) rfl
  · intro written
    constructor <;>
      simp [statusField, Action.assigned, Action.registers, Expr.send, Expr.cr, Expr.fpscr,
        Expr.decimal, Method.mutates, Register.isTracked, written]

theorem floatArithmetic_covered {insn : Instruction} {stmts : List Stmt}
    (accepted : (floatArithmetic insn).body = some stmts) : insn.Covers stmts := by
  unfold floatArithmetic at accepted
  split at accepted
  next value found =>
    cases accepted
    rw [covers_acts]
    unfold floatValue at found
    split at found
    all_goals
      rename_i opcode
      cases found
    all_goals
      constructor <;>
        simp [mem_reads, mem_writes, ownEffects, opcode, Effects.registers, single, converted,
          Action.assigned, Action.registers, Expr.fpr, Expr.fpscr, Expr.send, Expr.invoke,
          Method.mutates, Register.isTracked]
  next => cases accepted

theorem floatMove_covered {insn : Instruction} {stmts : List Stmt}
    (accepted : (floatMove insn).body = some stmts) : insn.Covers stmts := by
  unfold floatMove at accepted
  split at accepted
  all_goals
    rename_i opcode
    cases accepted
  all_goals
    refine covers_acts.mpr ⟨?_, ?_⟩ <;>
      simp [mem_reads, mem_writes, ownEffects, opcode, Effects.registers, Action.assigned,
        Action.registers, Expr.fpr, Expr.send, Method.mutates]

theorem floatCompare_covered {insn : Instruction} {stmts : List Stmt}
    (accepted : (floatCompare insn).body = some stmts) :
    insn.Covers stmts ∧ insn.ownEffects.writes = [.cr insn.crfd] := by
  unfold floatCompare at accepted
  split at accepted
  next opcode =>
    cases accepted
    rw [covers_acts]
    rcases opcode with opcode | opcode <;>
      refine ⟨⟨?_, ?_⟩, ?_⟩ <;>
        simp [mem_reads, mem_writes, ownEffects, opcode, Effects.registers, Action.assigned,
          Action.registers, Expr.fpr, Expr.cr, Expr.send, Method.mutates]
  next => cases accepted

theorem floatControl_covered {insn : Instruction} {stmts : List Stmt}
    (accepted : (floatControl insn).body = some stmts) : insn.Covers stmts := by
  unfold floatControl at accepted
  split at accepted
  all_goals
    rename_i opcode
    cases accepted
  all_goals
    refine covers_acts.mpr ⟨?_, ?_⟩ <;>
      simp [mem_reads, mem_writes, ownEffects, opcode, Effects.registers, statusField,
        Action.assigned, Action.registers, Expr.fpr, Expr.cr, Expr.fpscr, Expr.send, Expr.invoke,
        Expr.decimal, Expr.hex, Method.mutates, Register.isTracked]

/-- The condition field of the floating-point summary is accounted for, except that comparisons
account for the first field in its place. -/
theorem cr_one_mem_writes_iff {insn : Instruction} (regular : insn.Regular)
    (group : insn.group = .floatArithmetic ∨ insn.group = .floatMove ∨
      insn.group = .floatControl ∨
      (insn.group = .floatCompare ∧ insn.ownEffects.writes = [.cr insn.crfd]))
    (asked : insn.records) :
    .cr 1 ∈ insn.effects.writes ↔ ¬ (insn.group = .floatCompare ∧ insn.crfd ≠ 1) := by
  have plain : insn.vectorRecordBit = false := by
    by_contra vector
    rcases regular.recorded (by simpa using vector) with other | other <;>
      simp [other] at group
  have bit : (insn.format.hasRecordBit && insn.recordBit) = true := by
    simpa [Instruction.records, plain] using asked
  rcases group with group | group | group | ⟨group, writes⟩
  · simp [mem_writes, suffixWrites, recordedField?, bit, group]
  · simp [mem_writes, suffixWrites, recordedField?, bit, group]
  · simp [mem_writes, suffixWrites, recordedField?, bit, group]
  · simp only [mem_writes, suffixWrites, recordedField?, bit, group, writes, plain]
    simpa using eq_comm

theorem body_append_if {condition : Prop} [Decidable condition] {lifted : Lifted} {action : Action}
    {stmts : List Stmt}
    (accepted : (if condition then { lifted with body := lifted.body.map (· ++ [.act action]) }
      else lifted).body = some stmts) :
    ∃ own, lifted.body = some own ∧ stmts = own ++ if condition then [.act action] else [] := by
  split at accepted
  next asked =>
    obtain ⟨own, found, rfl⟩ := Option.map_eq_some_iff.mp accepted
    exact ⟨own, found, by rw [if_pos asked]⟩
  next plain => exact ⟨stmts, accepted, by rw [if_neg plain, List.append_nil]⟩

theorem float_covered_iff {insn : Instruction} (regular : insn.Regular) {stmts : List Stmt}
    (accepted : (float insn).body = some stmts) :
    insn.Covers stmts ↔ ¬ (insn.group = .floatCompare ∧ insn.records ∧ insn.crfd ≠ 1) := by
  obtain ⟨own, found, rfl⟩ := body_append_if accepted
  have parts : insn.Covers own ∧ (insn.group = .floatArithmetic ∨ insn.group = .floatMove ∨
      insn.group = .floatControl ∨
      (insn.group = .floatCompare ∧ insn.ownEffects.writes = [.cr insn.crfd])) := by
    split at found
    case h_1 group => exact ⟨floatArithmetic_covered found, Or.inl group⟩
    case h_2 group => exact ⟨floatMove_covered found, Or.inr (Or.inl group)⟩
    case h_3 group =>
      obtain ⟨covered, writes⟩ := floatCompare_covered found
      exact ⟨covered, Or.inr (Or.inr (Or.inr ⟨group, writes⟩))⟩
    case h_4 group => exact ⟨floatControl_covered found, Or.inr (Or.inr (Or.inl group))⟩
    case h_5 => cases found
  rw [covers_append, and_iff_right parts.1]
  split
  next asked =>
    change insn.Covers ([statusField 1 0].map .act) ↔ _
    rw [covers_acts, statusField_covered_iff, cr_one_mem_writes_iff regular parts.2 asked]
    simp [asked]
  next plain => simp [plain, Covers]

/-! ## Vectors -/

theorem vectorValue_registers (insn : Instruction) :
    (vectorValue insn).registers =
      (vectorValue (probe insn.opcode insn.format)).registers.map (vectorOperands insn).place := by
  unfold vectorValue
  rw [vectorOperands_probe]
  generalize vectorOperands insn = operands
  obtain ⟨address, raw, opcode, format, group, target⟩ := insn
  cases opcode <;> rfl

theorem vectorValue_assigned (insn : Instruction) : (vectorValue insn).assigned = [] := by
  unfold vectorValue
  obtain ⟨address, raw, opcode, format, group, target⟩ := insn
  cases opcode <;> rfl

theorem vectorEffects_placed (insn : Instruction) :
    insn.vectorEffects.reads =
        (probe insn.opcode insn.format).vectorEffects.reads.map (vectorOperands insn).place ∧
      insn.vectorEffects.writes =
        (probe insn.opcode insn.format).vectorEffects.writes.map (vectorOperands insn).place := by
  cases format : insn.format
  all_goals
    simp only [vectorEffects, vectorOperands, probe_opcode, probe_format, probe_registers, format]
    repeat' split
    all_goals exact ⟨rfl, rfl⟩


theorem ownEffects_of_shape {insn : Instruction}
    (shape : (probe insn.opcode .vx128_4).ownEffects = (probe insn.opcode .vx128_4).vectorEffects) :
    insn.ownEffects = insn.vectorEffects := by
  obtain ⟨address, raw, opcode, format, group, target⟩ := insn
  change (probe opcode .vx128_4).ownEffects = (probe opcode .vx128_4).vectorEffects at shape
  cases opcode <;> first | rfl | exact absurd shape (by decide +kernel)

theorem vectorActions_covered {insn : Instruction} (shape : VectorShape insn.opcode insn.format) :
    insn.CoversActions (vectorActions insn) := by
  obtain ⟨own, plain, target, sources⟩ := shape
  obtain ⟨reads, writes⟩ := vectorEffects_placed insn
  rw [← ownEffects_of_shape own] at reads writes
  have written : .vr (vectorOperands insn).vd ∈ insn.effects.writes :=
    mem_writes.mpr (Or.inl (by rw [writes]; exact List.mem_map_of_mem target))
  have named : ∀ register ∈ (vectorValue insn).registers,
      register ∈ insn.effects.reads ∨ register ∈ insn.effects.writes := by
    rw [vectorValue_registers]
    intro register member
    obtain ⟨source, used, rfl⟩ := List.mem_map.mp member
    rcases sources source used with read | write
    · exact Or.inl (mem_reads.mpr (Or.inl (by rw [reads]; exact List.mem_map_of_mem read)))
    · exact Or.inr (mem_writes.mpr (Or.inl (by rw [writes]; exact List.mem_map_of_mem write)))
  refine coversActions_cons ⟨?_, ?_⟩ ?_
  · simp [Action.assigned, Expr.vr, vectorValue_assigned, written]
  · simp only [List.flatMap_singleton, Action.registers, Expr.vr, Expr.registers,
      List.singleton_append, List.forall_mem_cons]
    exact ⟨fun _ => Or.inr written, fun register member _ => named register member⟩
  · unfold recordVector
    split
    next asked =>
      have bit : insn.vectorRecordBit := by simpa [Instruction.records, plain] using asked
      have summary : .cr 6 ∈ insn.effects.writes :=
        mem_writes.mpr (Or.inr (by simp [suffixWrites, bit]))
      dsimp only
      split <;> constructor <;>
        simp [Action.assigned, Action.registers, Expr.send, Expr.cr, Expr.vr, Method.mutates,
          summary, written]
    next => exact bounds_nil insn

theorem vector_covered {insn : Instruction} (regular : insn.Regular) {stmts : List Stmt}
    (accepted : (vector insn).body = some stmts) : insn.Covers stmts := by
  unfold vector at accepted
  split at accepted
  case h_1 =>
    unfold vectorControl at accepted
    split at accepted
    all_goals
      rename_i opcode
      cases accepted
    all_goals
      refine covers_acts.mpr ⟨?_, ?_⟩ <;>
        simp [mem_reads, mem_writes, ownEffects, opcode, Effects.registers, Action.assigned,
          Action.registers, Expr.vr, Expr.send, Expr.invoke, Expr.decimal, Method.mutates,
          Register.isTracked]
  case h_2 group =>
    cases accepted
    exact covers_acts.mpr (vectorActions_covered (regular.vector (Or.inr (Or.inl group))))
  case h_3 group =>
    cases accepted
    exact covers_acts.mpr (vectorActions_covered (regular.vector (Or.inl group)))
  case h_4 group =>
    cases accepted
    exact covers_acts.mpr (vectorActions_covered (regular.vector (Or.inr (Or.inr group))))
  case h_5 => cases accepted

/-! ## System, special registers and traps -/

theorem system_covered {config : Config} {insn : Instruction} {stmts : List Stmt}
    (accepted : (system config insn).body = some stmts) : insn.Covers stmts := by
  unfold system at accepted
  split at accepted
  all_goals
    rename_i opcode
    repeat' split at accepted
    all_goals cases accepted
  all_goals first
    | exact bounds_nil insn
    | refine covers_acts.mpr ⟨?_, ?_⟩ <;>
        simp [mem_reads, mem_writes, ownEffects, opcode, Effects.registers, Action.assigned,
          Action.registers, Expr.gpr, Register.isTracked, rs]

theorem joined_foldl_registers (op : BinaryOp) (first : Expr) (rest : List Expr) :
    (rest.foldl (Expr.binary op) first).registers =
      first.registers ++ rest.flatMap Expr.registers := by
  induction rest generalizing first with
  | nil => simp
  | cons next rest ih => simp [ih]

theorem joined_foldl_assigned (op : BinaryOp) (first : Expr) (rest : List Expr) :
    (rest.foldl (Expr.binary op) first).assigned =
      first.assigned ++ rest.flatMap Expr.assigned := by
  induction rest generalizing first with
  | nil => simp
  | cons next rest ih => simp [ih]

theorem joined_registers {op : BinaryOp} {tests : List Expr} {value : Expr}
    (found : Expr.joined op tests = some value) :
    value.registers = tests.flatMap Expr.registers ∧
      value.assigned = tests.flatMap Expr.assigned := by
  cases tests with
  | nil => cases found
  | cons first rest =>
      cases found
      exact ⟨by simp [joined_foldl_registers], by simp [joined_foldl_assigned]⟩

theorem conditionRegister_covered {insn : Instruction} {stmts : List Stmt}
    (accepted : (conditionRegister insn).body = some stmts) : insn.Covers stmts := by
  unfold conditionRegister at accepted
  split at accepted
  case h_1 opcode =>
    cases accepted
    refine covers_acts.mpr ⟨?_, ?_⟩ <;>
      simp [mem_reads, mem_writes, ownEffects, opcode, Effects.registers, Action.assigned,
        Action.registers, Expr.cr]
  case h_2 opcode =>
    split at accepted
    next value found =>
      cases accepted
      obtain ⟨named, changed⟩ := joined_registers found
      have fields : gatheredFields.flatMap Expr.registers = (List.range 8).map .cr := rfl
      have plain : gatheredFields.flatMap Expr.assigned = [] := rfl
      refine covers_acts.mpr ⟨?_, ?_⟩
      · simp [mem_writes, ownEffects, opcode, Effects.registers, Action.assigned, Expr.gpr, changed,
          plain]
      · simp +contextual [mem_reads, mem_writes, ownEffects, opcode, Effects.registers,
          Action.registers, Expr.gpr, named, fields]
    next => cases accepted
  case h_3 opcode =>
    cases accepted
    refine covers_acts.mpr (coversActions_map fun field member => ⟨?_, ?_⟩) <;>
      simp [mem_reads, mem_writes, ownEffects, opcode, Effects.registers, scatterField, fieldShift,
        Action.assigned, Action.registers, Expr.gpr, Expr.cr, Expr.send, Expr.decimal, Expr.hex,
        Method.mutates, rs, member]
  case h_4 =>
    split at accepted
    next value found =>
      cases accepted
      unfold bitOperation at found
      split at found
      all_goals
        rename_i opcode
        cases found
      all_goals
        refine covers_acts.mpr ⟨?_, ?_⟩ <;>
          simp [mem_reads, mem_writes, ownEffects, opcode, Effects.registers, Action.assigned,
            Action.registers, Expr.crBit, Expr.cr]
    next => cases accepted

theorem specialRegister_covered {config : Config} {insn : Instruction} {stmts : List Stmt}
    (accepted : (specialRegister config insn).body = some stmts) : insn.Covers stmts := by
  unfold specialRegister at accepted
  split at accepted
  all_goals
    rename_i opcode
    repeat' split at accepted
    all_goals cases accepted
  all_goals first
    | exact bounds_nil insn
    | refine covers_acts.mpr ⟨?_, ?_⟩ <;>
        simp_all [mem_reads, mem_writes, ownEffects, Effects.registers, Action.assigned,
          Action.registers, Expr.gpr, Expr.lr, Expr.ctr, Expr.xer, Expr.send, Expr.invoke,
          Method.mutates, Register.isTracked, rs]

/-- The comparisons of a trap name its operands. -/
theorem trapTests_registers (insn : Instruction) (left right : Expr) (signed unsigned : NumType) :
    (∀ register ∈ (trapTests insn left right signed unsigned).flatMap Expr.registers,
      register ∈ left.registers ∨ register ∈ right.registers) ∧
    ∀ register ∈ (trapTests insn left right signed unsigned).flatMap Expr.assigned,
      register ∈ left.assigned ∨ register ∈ right.assigned := by
  unfold trapTests
  constructor <;>
  · simp only [List.flatMap_append, List.forall_mem_append]
    refine ⟨⟨⟨⟨?_, ?_⟩, ?_⟩, ?_⟩, ?_⟩ <;>
    · split <;> simp

theorem trapGuard_covered {insn : Instruction} {right condition : Expr} {signed unsigned : NumType}
    (found : Expr.joined .either (trapTests insn (.gpr insn.ra) right signed unsigned) =
      some condition)
    (left : .gpr insn.ra ∈ insn.effects.reads)
    (named : ∀ register ∈ right.registers, register ∈ insn.effects.reads)
    (plain : right.assigned = []) :
    insn.Covers
      [.guard condition [.perform (.invokeGuest .trap [.wordHex insn.address])] none] := by
  obtain ⟨registers, assigned⟩ := joined_registers found
  obtain ⟨operands, changed⟩ := trapTests_registers insn (.gpr insn.ra) right signed unsigned
  rw [← registers] at operands
  rw [← assigned, plain] at changed
  have spring : Expr.registers (.invokeGuest .trap [.wordHex insn.address]) = [] ∧
      Expr.assigned (.invokeGuest .trap [.wordHex insn.address]) = [] := ⟨rfl, rfl⟩
  constructor
  · intro register member _
    simp only [List.flatMap_singleton, Stmt.assigned, Action.assigned, spring.2, Option.toList_none,
      List.flatMap_nil, List.append_nil] at member
    rcases changed register member with absent | absent <;> cases absent
  · intro register member _
    simp only [List.flatMap_singleton, Stmt.registers, Action.registers, spring.1,
      Option.toList_none, List.flatMap_nil, List.append_nil] at member
    rcases operands register member with first | second
    · rw [List.mem_singleton.mp first]
      exact Or.inl left
    · exact Or.inl (named register second)

theorem trap_covered {insn : Instruction} {stmts : List Stmt}
    (accepted : (trap insn).body = some stmts) : insn.Covers stmts := by
  unfold trap at accepted
  dsimp only at accepted
  split at accepted
  · cases accepted
    exact bounds_nil insn
  · split at accepted
    case h_5 => cases accepted
    all_goals
      rename_i opcode
      split at accepted
      next condition found =>
        cases accepted
        refine trapGuard_covered found ?_ ?_ rfl <;>
          simp [mem_reads, ownEffects, opcode, Effects.registers, Expr.gpr, Expr.doubleword]
      next =>
        cases accepted
        exact bounds_nil insn

theorem emitMode_covered (insn : Instruction) (state : Knowledge) (mode : Option FlushMode) :
    insn.Covers (Flow.emitMode state mode).1.stmts := by
  unfold Flow.emitMode FlushMode.require
  repeat' split
  all_goals first
    | exact bounds_nil insn
    | constructor <;>
        simp [Fragment.ofStmts, Stmt.assigned, Stmt.registers, FlushMode.switch, Action.assigned,
          Action.registers, Expr.send, Expr.fpscr, Method.mutates, Register.isTracked]

end Lift

/-! ## All instructions -/

open Lift in
theorem Flow.lift_covered_iff {flow : Flow} {table : Option JumpTable} {io : Bool}
    {insn : Instruction} (regular : insn.Regular) (noBranch : insn.group ≠ .branch)
    {stmts : List Stmt} (accepted : (flow.lift table io insn).body = some stmts) :
    insn.Covers stmts ↔ ¬ (insn.group = .floatCompare ∧ insn.records ∧ insn.crfd ≠ 1) := by
  by_cases float : insn.group = .floatArithmetic ∨ insn.group = .floatMove ∨
      insn.group = .floatCompare ∨ insn.group = .floatControl
  · have same : flow.lift table io insn = Lift.float insn := by
      unfold Flow.lift
      rcases float with group | group | group | group <;> rw [group]
    exact float_covered_iff regular (same ▸ accepted)
  · simp only [not_or] at float
    refine iff_of_true ?_ (fun compare => float.2.2.1 compare.1)
    unfold Flow.lift at accepted
    split at accepted
    case h_1 group => exact absurd group noBranch
    case h_2 => exact trap_covered accepted
    case h_3 => exact system_covered accepted
    case h_4 => exact conditionRegister_covered accepted
    case h_5 => exact specialRegister_covered accepted
    case h_6 group => exact arithmetic_covered regular group accepted
    case h_7 group => exact logical_covered regular group accepted
    case h_8 => exact compare_covered accepted
    case h_9 group => exact rotate_covered regular group accepted
    case h_10 group => exact shift_covered regular group accepted
    case h_11 => exact integerLoad_covered regular accepted
    case h_12 => exact integerStore_covered regular accepted
    case h_13 => exact floatLoad_covered regular accepted
    case h_14 => exact floatStore_covered regular accepted
    case h_15 group => exact vectorLoad_covered regular group accepted
    case h_16 group => exact vectorStore_covered regular group accepted
    case h_17 => exact cache_covered regular accepted
    case h_18 group => exact absurd group float.1
    case h_19 group => exact absurd group float.2.1
    case h_20 group => exact absurd group float.2.2.1
    case h_21 group => exact absurd group float.2.2.2
    case h_22 => exact vector_covered regular accepted
    case h_23 => exact vector_covered regular accepted
    case h_24 => exact vector_covered regular accepted
    case h_25 => exact vector_covered regular accepted
    case h_26 => cases accepted

/-- The effects of an instruction that is no branch account for its code, the switch of the flush
mode included, unless it is a comparison of floating-point numbers that records: the summary goes to
the second condition field then, which the effects have only if the outcome goes there too. -/
theorem effects_cover_code_iff (flow : Flow) (table : Option JumpTable) (io : Bool)
    (state : Knowledge) (address word : UInt32) {stmts : List Stmt}
    (noBranch : (Instruction.decode address word).group ≠ .branch)
    (accepted : (flow.lift table io (Instruction.decode address word)).body = some stmts) :
    (Instruction.decode address word).Covers
        ((Flow.emitMode state
          (flow.lift table io (Instruction.decode address word)).mode).1.stmts ++ stmts) ↔
      ¬ ((Instruction.decode address word).group = .floatCompare ∧
        (Instruction.decode address word).records ∧
        (Instruction.decode address word).crfd ≠ 1) := by
  rw [Instruction.covers_append, and_iff_right (Lift.emitMode_covered _ _ _)]
  exact Flow.lift_covered_iff (Instruction.decode_regular address word) noBranch accepted

/-- The comparison `fcmpu. cr2, f1, f2` changes a condition field that its effects do not have, and
`fcmpu. cr1, f1, f2` does not. -/
theorem effects_cover_code_fcmpu :
    let flow : Flow := ⟨⟨[]⟩, default, default, {}⟩
    let compare (field : Nat) : List Stmt :=
      [.act (.perform (.send (.cr field) (.compare .f64) [.fpr 1, .fpr 2])),
        .act (Lift.statusField 1 0)]
    (flow.lift none false (Instruction.decode 0x1000 0xFD011001)).body = some (compare 2) ∧
      ¬ (Instruction.decode 0x1000 0xFD011001).Covers (compare 2) ∧
      (flow.lift none false (Instruction.decode 0x1000 0xFC811001)).body = some (compare 1) ∧
      (Instruction.decode 0x1000 0xFC811001).Covers (compare 1) := by
  intro flow compare
  have second : (flow.lift none false (Instruction.decode 0x1000 0xFD011001)).body =
      some (compare 2) := by decide +kernel
  have first : (flow.lift none false (Instruction.decode 0x1000 0xFC811001)).body =
      some (compare 1) := by decide +kernel
  refine ⟨second, ?_, first, ?_⟩
  · exact fun covered => (effects_cover_code_iff flow none false {} 0x1000 0xFD011001
      (by decide +kernel) second).mp covered (by decide +kernel)
  · exact (effects_cover_code_iff flow none false {} 0x1000 0xFC811001
      (by decide +kernel) first).mpr (by decide +kernel)

end PowerLift
