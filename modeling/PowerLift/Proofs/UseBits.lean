import Mathlib
import PowerLift.Code.UseBits
import PowerLift.Proofs.Implemented
import PowerLift.Proofs.Locals

/-!
The numbers of registers are in range wherever they index something. The effects of an instruction
list each register of a class once and none that the machine does not have, and so does the code
for it, which is why the bit of a register that lives in a local is always there.
-/

namespace PowerLift

/-! ## Lists of registers -/

namespace Register

variable {number : Nat} {register : Register} {registers more : List Register}

@[simp] theorem inRange_gpr : (gpr number).InRange ↔ number < 32 := Iff.rfl

@[simp] theorem inRange_fpr : (fpr number).InRange ↔ number < 32 := Iff.rfl

@[simp] theorem inRange_vr : (vr number).InRange ↔ number < 128 := Iff.rfl

@[simp] theorem inRange_cr : (cr number).InRange ↔ number < 8 := Iff.rfl

@[simp] theorem inRange_ctr : ctr.InRange := trivial

@[simp] theorem inRange_xer : xer.InRange := trivial

@[simp] theorem inRange_lr : lr.InRange := trivial

def AllInRange (registers : List Register) : Prop :=
  ∀ register ∈ registers, register.InRange

@[simp] theorem allInRange_nil : AllInRange [] :=
  List.forall_mem_nil _

@[simp] theorem allInRange_cons :
    AllInRange (register :: registers) ↔ register.InRange ∧ AllInRange registers :=
  List.forall_mem_cons

@[simp] theorem allInRange_append :
    AllInRange (registers ++ more) ↔ AllInRange registers ∧ AllInRange more :=
  List.forall_mem_append

@[simp] theorem allInRange_ite {condition : Prop} [Decidable condition] :
    AllInRange (if condition then registers else more) ↔
      if condition then AllInRange registers else AllInRange more := by
  split <;> rfl

theorem allInRange_fields {fields : List Nat} (below : ∀ field ∈ fields, field < 8) :
    AllInRange (fields.map cr) :=
  List.forall_mem_map.mpr below

theorem nodup_eraseDups (registers : List Register) : registers.eraseDups.Nodup := by
  induction size : registers.length using Nat.strong_induction_on generalizing registers with
  | _ length ih =>
      cases registers with
      | nil => simp
      | cons first rest =>
          rw [List.eraseDups_cons, List.nodup_cons]
          constructor
          · simp
          · refine ih _ ?_ _ rfl
            rw [← size]
            exact Nat.lt_succ_of_le (List.length_filter_le _ _)

/-- Register numbers of one class, of which the machine has `count`. -/
structure Numbers (count : Nat) (numbers : List Nat) : Prop where
  below : ∀ number ∈ numbers, number < count
  once : numbers.Nodup

/-- The numbers of the registers of one class in a list. -/
theorem numbers_filterMap {count : Nat} {number? : Register → Option Nat} (kind : Nat → Register)
    (inverse : ∀ register number, number? register = some number → register = kind number)
    (bounded : ∀ number, (kind number).InRange → number < count)
    (inRange : AllInRange registers) (distinct : registers.Nodup) :
    Numbers count (registers.filterMap number?) where
  below number member := by
    obtain ⟨register, listed, found⟩ := List.mem_filterMap.mp member
    apply bounded
    rw [← inverse register number found]
    exact inRange register listed
  once := by
    refine distinct.filterMap ?_
    intro first second number one other
    rw [inverse first number one, inverse second number other]

end Register

open Register (AllInRange Numbers)

/-! ## Effects -/

namespace Effects

/-- The registers that effects list are registers of the machine. -/
structure InRange (effects : Effects) : Prop where
  reads : AllInRange effects.reads
  writes : AllInRange effects.writes

/-- The lists of register numbers in effects. -/
structure Numbered (effects : Effects) : Prop where
  readsGpr : Numbers 32 effects.readsGpr
  writesGpr : Numbers 32 effects.writesGpr
  readsFpr : Numbers 32 effects.readsFpr
  writesFpr : Numbers 32 effects.writesFpr
  readsVr : Numbers 128 effects.readsVr
  writesVr : Numbers 128 effects.writesVr
  readsCr : Numbers 8 effects.readsCr
  writesCr : Numbers 8 effects.writesCr

theorem InRange.numbered {effects : Effects} (inRange : effects.InRange)
    (reads : effects.reads.Nodup) (writes : effects.writes.Nodup) : effects.Numbered := by
  constructor
  case readsGpr => exact Register.numbers_filterMap .gpr (by grind) (by simp) inRange.reads reads
  case writesGpr => exact Register.numbers_filterMap .gpr (by grind) (by simp) inRange.writes writes
  case readsFpr => exact Register.numbers_filterMap .fpr (by grind) (by simp) inRange.reads reads
  case writesFpr => exact Register.numbers_filterMap .fpr (by grind) (by simp) inRange.writes writes
  case readsVr => exact Register.numbers_filterMap .vr (by grind) (by simp) inRange.reads reads
  case writesVr => exact Register.numbers_filterMap .vr (by grind) (by simp) inRange.writes writes
  case readsCr => exact Register.numbers_filterMap .cr (by grind) (by simp) inRange.reads reads
  case writesCr => exact Register.numbers_filterMap .cr (by grind) (by simp) inRange.writes writes

end Effects

namespace Instruction

variable (insn : Instruction)

/-- A condition bit is in a field of the condition register. -/
theorem field_of_bit {bit : Nat} (inRange : bit < 32) : bit / 4 < 8 := by
  omega

@[simp] theorem base_inRange : AllInRange insn.base := by
  unfold base
  split <;> simp

@[simp] theorem multiple_inRange (first : Nat) : AllInRange (multiple first) := by
  intro register member
  obtain ⟨number, moved, rfl⟩ := List.mem_map.mp member
  have last := List.mem_range'.mp moved
  rw [Register.inRange_gpr]
  omega

@[simp] theorem conditionReads_inRange : AllInRange insn.conditionReads := by
  simp [conditionReads, field_of_bit]

@[simp] theorem conditionWrites_inRange : AllInRange insn.conditionWrites := by
  simp [conditionWrites]

@[simp] theorem allFields_inRange : AllInRange ((List.range 8).map .cr) :=
  Register.allInRange_fields fun _ => List.mem_range.mp

@[simp] theorem maskedFields_cr_inRange (mask : Nat) :
    AllInRange ((maskedFields mask).map .cr) :=
  Register.allInRange_fields fun _ => maskedFields_inRange

theorem vectorEffects_inRange : insn.vectorEffects.InRange := by
  unfold vectorEffects
  dsimp only
  repeat' split
  all_goals
    constructor <;> simp [Effects.registers, Lift.isVector_of_lt]

theorem ownEffects_inRange : insn.ownEffects.InRange := by
  have vector := insn.vectorEffects_inRange
  obtain ⟨address, raw, opcode, format, group, target⟩ := insn
  -- By operation and not by the cases of the definition: its last case would come with a hypothesis
  -- for every operation before it, and most operations of that case are one term here.
  cases opcode
  all_goals first
    | exact vector
    | constructor <;> simp [ownEffects, Effects.registers, Effects.load, Effects.store,
        field_of_bit, Lift.isVector_of_lt]

theorem suffixReads_inRange : AllInRange insn.suffixReads := by
  simp [suffixReads]

theorem suffixWrites_inRange : AllInRange insn.suffixWrites := by
  have recorded : AllInRange (insn.recordedField?.map Register.cr).toList := by
    unfold recordedField?
    repeat' split
    all_goals simp
  simp [suffixWrites, recorded]

theorem effects_inRange : insn.effects.InRange where
  reads register member := by
    rcases mem_reads.mp member with own | suffix
    · exact insn.ownEffects_inRange.reads register own
    · exact insn.suffixReads_inRange register suffix
  writes register member := by
    rcases mem_writes.mp member with own | suffix
    · exact insn.ownEffects_inRange.writes register own
    · exact insn.suffixWrites_inRange register suffix

theorem effects_numbered : insn.effects.Numbered :=
  insn.effects_inRange.numbered (Register.nodup_eraseDups _) (Register.nodup_eraseDups _)

end Instruction

/-! ## Bits -/

theorem LocalPolicy.class?_isSome_of_isLocal {policy : LocalPolicy} {register : Register}
    (kept : policy.isLocal register) : register.class?.isSome := by
  cases register <;> simp [isLocal, Register.class?] at kept ⊢

namespace UseBits

section Vectors

variable {count index : Nat} {bits after : Vector Bool count}

theorem setBit?_eq_some_iff :
    setBit? bits index = some after ↔
      ∃ inside : index < count, bits.set index true inside = after := by
  unfold setBit?
  split <;> simp_all

@[simp] theorem bitAt_replicate : bitAt (.replicate count false) index = false := by
  unfold bitAt
  rw [Vector.getElem?_replicate]
  split <;> rfl

theorem bitAt_setBit? (set : setBit? bits index = some after) (other : Nat) :
    bitAt after other ↔ bitAt bits other ∨ other = index := by
  obtain ⟨inside, rfl⟩ := setBit?_eq_some_iff.mp set
  unfold bitAt
  rw [Vector.getElem?_set]
  split
  next same => simp [same]
  next different => simp [Ne.symm different]

end Vectors

variable {policy : LocalPolicy} {bits after : UseBits} {register : Register}

/-- A mark fails exactly at numbers that the machine has no register for. -/
theorem mark?_isSome_iff : (bits.mark? register).isSome ↔ register.InRange := by
  cases register <;> simp [mark?, setBit?, Register.InRange]

theorem isMarked_mark? (marked : bits.mark? register = some after) (other : Register) :
    after.isMarked other ↔
      bits.isMarked other ∨ other = register ∧ register.class?.isSome := by
  cases register with
  | gpr number | fpr number | vr number | cr number =>
      -- Only the bits of this class change.
      obtain ⟨changed, set, rfl⟩ := Option.map_eq_some_iff.mp marked
      cases other <;> simp [isMarked, Register.class?, bitAt_setBit? set]
  | _ =>
      cases marked
      cases other <;> simp [isMarked, Register.class?]

theorem request?_isSome_iff (bits : UseBits) :
    (bits.request? policy register).isSome ↔ (policy.isLocal register → register.InRange) := by
  unfold request?
  split
  next kept => simp [mark?_isSome_iff, kept]
  next kept => simp [kept]

theorem isMarked_request? (asked : bits.request? policy register = some after)
    (other : Register) :
    after.isMarked other ↔ bits.isMarked other ∨ other = register ∧ policy.isLocal register := by
  unfold request? at asked
  split at asked
  next kept => simp [isMarked_mark? asked, LocalPolicy.class?_isSome_of_isLocal kept, kept]
  next kept =>
    cases asked
    simp [kept]

variable {requests : List Register}

/-- Requests fail exactly if one of them is for a local that the machine has no register for. -/
theorem requestAll?_isSome_iff :
    (bits.requestAll? policy requests).isSome ↔
      ∀ register ∈ requests, policy.isLocal register → register.InRange := by
  induction requests generalizing bits with
  | nil => simp [requestAll?]
  | cons first rest ih =>
      have step : bits.requestAll? policy (first :: rest) =
          (bits.request? policy first).bind fun after => after.requestAll? policy rest :=
        List.foldlM_cons
      rw [step, List.forall_mem_cons, ← request?_isSome_iff bits]
      cases asked : bits.request? policy first with
      | none => simp
      | some after => simp [ih]

theorem isMarked_requestAll? (asked : bits.requestAll? policy requests = some after)
    (register : Register) :
    after.isMarked register ↔
      bits.isMarked register ∨ register ∈ requests ∧ policy.isLocal register := by
  induction requests generalizing bits with
  | nil =>
      cases asked
      simp
  | cons first rest ih =>
      obtain ⟨between, one, others⟩ := Option.bind_eq_some_iff.mp asked
      rw [ih others, isMarked_request? one, List.mem_cons]
      grind

/-- Bits and lists account for the same locals. -/
theorem declared_requestAll? (asked : ({} : UseBits).requestAll? policy requests = some after) :
    after.declared = (({ policy } : Allocation).requestAll requests).declared := by
  have blank : ({} : UseBits).isMarked = fun _ => false := by
    funext register
    cases register <;> simp [isMarked]
  refine List.filter_congr fun register _ => ?_
  rw [Bool.eq_iff_iff, isMarked_requestAll? asked, blank, List.contains_iff_mem,
    Allocation.mem_locals]
  simp

/-- Of all numbers only those of condition fields have to be known to be in range: of other classes
only registers of the machine live in locals. -/
theorem requestAll?_of_fieldExists (bits : UseBits)
    (exist : ∀ register ∈ requests, register.FieldExists) :
    ∃ after, bits.requestAll? policy requests = some after ∧
      ∀ register, after.isMarked register ↔
        bits.isMarked register ∨ register ∈ requests ∧ policy.isLocal register := by
  have asked : (bits.requestAll? policy requests).isSome := by
    rw [requestAll?_isSome_iff]
    intro register member kept
    have promotable := LocalPolicy.promotable_of_isLocal (exist register member) kept
    exact (Register.mem_promotable.mp promotable).1
  obtain ⟨after, marked⟩ := Option.isSome_iff_exists.mp asked
  exact ⟨after, marked, isMarked_requestAll? marked⟩

end UseBits

/-! ## Code -/

/-- The bits of all locals of an emitted function are there, and those that are set are the locals
that it declares. -/
theorem Program.emit_useBits (program : Program) (graph : Graph) (node : FunctionNode)
    (instructions : List Instruction) :
    let function := program.emit graph node instructions
    ∃ bits, ({} : UseBits).requestAll? function.policy function.requests = some bits ∧
      bits.declared = function.allocation.declared := by
  obtain ⟨bits, asked, _⟩ := UseBits.requestAll?_of_fieldExists {} fun _ => emit_fieldExists
  exact ⟨bits, asked, UseBits.declared_requestAll? asked⟩

theorem Flow.lift_fieldExists {flow : Flow} {table : Option JumpTable} {io : Bool}
    {insn : Instruction} {register : Register}
    (asked : register ∈ (flow.lift table io insn).registers) : register.FieldExists := by
  rintro field rfl
  rcases lift_registers asked with inRange | ⟨entry, _, index⟩
  · exact inRange
  · cases index

/-- The effects of an instruction list registers of the machine, each once, and its code asks for
such registers only, up to the index of a jump table. The bits of those that live in locals are
there whatever the index is. -/
theorem Instruction.decode_registers_inRange (address word : UInt32) :
    (decode address word).effects.Numbered ∧
    ∀ (flow : Flow) (table : Option JumpTable) (io : Bool),
      ((∀ entry ∈ table, entry.register < 32) →
        ∀ register ∈ (flow.lift table io (decode address word)).registers, register.InRange) ∧
      ∀ (policy : LocalPolicy) (bits : UseBits), ∃ after,
        bits.requestAll? policy (flow.lift table io (decode address word)).registers =
          some after ∧
        ∀ register, after.isMarked register ↔ bits.isMarked register ∨
          register ∈ (flow.lift table io (decode address word)).registers ∧
            policy.isLocal register := by
  refine ⟨effects_numbered _, fun flow table io => ⟨?_, fun policy bits => ?_⟩⟩
  · -- All numbers but that of the index come from fields of the word.
    intro below register asked
    rcases Flow.lift_registers asked with inRange | ⟨entry, member, rfl⟩
    · exact inRange
    · exact below entry member
  · exact bits.requestAll?_of_fieldExists fun _ => Flow.lift_fieldExists

/-! A computed branch under a condition, with the index of its table in a register that may live
in a local. -/

def caseTable : JumpTable :=
  { address := 0x1000, base := none, register := 11, targets := [0x1008], source := .configured }

theorem caseTable_inRange :
    (∀ entry ∈ some caseTable, entry.register < 32) ∧
    (Instruction.decode 0x1000 0x4D820420).effects.Numbered ∧
    (∀ register ∈ [Register.cr 0, .gpr 11, .ctr], register.InRange) ∧
    ∃ after, ({} : UseBits).requestAll? { nonArgument := true, cr := true }
        [.cr 0, .gpr 11, .ctr] = some after ∧
      after.isMarked (.gpr 11) ∧ after.isMarked (.cr 0) ∧ ¬ after.isMarked .ctr := by
  have below : ∀ entry ∈ some caseTable, entry.register < 32 := by
    simp [caseTable]
  have asked : (Lift.blankFlow.lift (some caseTable) false
      (Instruction.decode 0x1000 0x4D820420)).registers = [.cr 0, .gpr 11, .ctr] := by
    decide +kernel
  obtain ⟨numbered, code⟩ := Instruction.decode_registers_inRange 0x1000 0x4D820420
  obtain ⟨inRange, bits⟩ := code Lift.blankFlow (some caseTable) false
  obtain ⟨after, marks, marked⟩ := bits { nonArgument := true, cr := true } {}
  have inRange := inRange below
  rw [asked] at inRange marks
  simp only [asked] at marked
  refine ⟨below, numbered, inRange, after, marks, ?_, ?_, ?_⟩
  · exact (marked _).mpr (by decide)
  · exact (marked _).mpr (by decide)
  · exact fun set => absurd ((marked _).mp set) (by decide)

end PowerLift
