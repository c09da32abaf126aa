import Mathlib
import PowerLift.Proofs.Implemented

/-!
Special forms. Decoding renames instructions whose operands make them a special form and changes
nothing else of them, so a special form has the descriptor of its general form but for the name.
Half of the special forms only name what the general form does with their operands; the others have
effects of their own.
-/

namespace PowerLift

/-- The operation that a special form is a case of. -/
def Opcode.general : Opcode → Opcode
  | .bl => .b
  | .bcl => .bc
  | .blr | .blrl => .bclr
  | .bctr | .bctrl => .bcctr
  | .nop => .ori
  | .li => .addi
  | .lis => .addis
  | .mr => .or
  | .mflr | .mfctr => .mfspr
  | .mtlr | .mtctr => .mtspr
  | opcode => opcode

/-- The special forms with effects that their general forms do not have: calls, which write the link
register, the instruction without effect, and moves of the link register and the counter. -/
def Opcode.distinctForms : List Opcode :=
  [.bl, .bcl, .nop, .mflr, .mfctr, .mtlr, .mtctr]

/-! ## Descriptors -/

namespace Descriptor

/-- Whether no number stands twice in a list or is one of the set bits of `seen`. One pass over the
list decides it, without comparing all pairs. -/
def fresh (seen : Nat) : List Nat → Bool
  | [] => true
  | number :: rest => !seen.testBit number && fresh (seen ||| 2 ^ number) rest

theorem nodup_of_fresh {seen : Nat} {numbers : List Nat} (pass : fresh seen numbers) :
    numbers.Nodup ∧ ∀ number ∈ numbers, seen.testBit number = false := by
  induction numbers generalizing seen with
  | nil => simp
  | cons number rest ih =>
      simp only [fresh, Bool.and_eq_true, Bool.not_eq_true'] at pass
      obtain ⟨nodup, unseen⟩ := ih pass.2
      simp only [Nat.testBit_or, Bool.or_eq_false_iff, Nat.testBit_two_pow] at unseen
      refine ⟨List.nodup_cons.mpr ⟨?_, nodup⟩, List.forall_mem_cons.mpr ⟨pass.1, ?_⟩⟩
      · intro again
        exact of_decide_eq_false (unseen number again).2 rfl
      · exact fun other member => (unseen other member).1

theorem opcodes_nodup :
    ((unknown :: (simplified ++ table)).map fun entry => entry.opcode.ctorIdx).Nodup := by
  have pass :
      fresh 0 ((unknown :: (simplified ++ table)).map fun entry => entry.opcode.ctorIdx) := by
    decide +kernel
  exact (nodup_of_fresh pass).1

/-- No operation has two descriptors, so none hides another. -/
theorem ofOpcode_opcode {entry : Descriptor} (listed : entry ∈ unknown :: (simplified ++ table)) :
    ofOpcode entry.opcode = entry := by
  unfold ofOpcode
  cases found : (simplified ++ table).find? (·.opcode == entry.opcode) with
  | none =>
      obtain rfl | member := List.mem_cons.mp listed
      · rfl
      · exact absurd (List.find?_eq_none.mp found entry member) (by simp)
  | some other =>
      have same : other.opcode = entry.opcode := by simpa using List.find?_some found
      have member := List.mem_of_find?_eq_some found
      exact List.inj_on_of_nodup_map opcodes_nodup (List.mem_cons_of_mem _ member) listed
        (congrArg Opcode.ctorIdx same)

theorem ofOpcode_unknown : ofOpcode .unknown = unknown :=
  @ofOpcode_opcode unknown List.mem_cons_self

/-- The operations of the table are general, and their special forms are listed with the same
encoding. -/
theorem table_forms : ∀ entry ∈ table,
    entry.opcode ∉ Opcode.distinctForms ∧ entry.opcode.general = entry.opcode ∧
      ∀ opcode ∈ entry.opcode.specialForms,
        opcode.general = entry.opcode ∧ { entry with opcode } ∈ simplified := by
  decide +kernel

theorem operations_general {entry : Descriptor} (member : entry ∈ table) {opcode : Opcode}
    (operation : opcode ∈ entry.operations) : opcode.general = entry.opcode := by
  obtain ⟨-, own, forms⟩ := table_forms entry member
  obtain rfl | special := List.mem_cons.mp operation
  · exact own
  · exact (forms opcode special).1

/-- The descriptor of a special form is that of its general form but for the name. -/
theorem ofOpcode_of_operations {entry : Descriptor} (member : entry ∈ table) {opcode : Opcode}
    (operation : opcode ∈ entry.operations) : ofOpcode opcode = { entry with opcode } := by
  have listed : { entry with opcode } ∈ simplified ++ table := by
    obtain rfl | special := List.mem_cons.mp operation
    · exact List.mem_append_right _ member
    · exact List.mem_append_left _ ((table_forms entry member).2.2 opcode special).2
  exact ofOpcode_opcode (List.mem_cons_of_mem _ listed)

theorem exists_extended {entry : Descriptor} (member : entry ∈ table) {word : UInt32}
    (matched : entry.Matches word) {value : Nat} (extended : entry.extended = some value) :
    ∃ field, entry.format.extended? = some field ∧ field.read word = value := by
  have isSome : entry.extended.isSome := by rw [extended]; rfl
  obtain ⟨field, -, found⟩ := table_probed entry member isSome
  have read := matched.2 field found
  rw [field?, if_pos isSome] at found
  rw [extended] at read
  exact ⟨field, found, (Option.some.inj read).symm⟩

end Descriptor

namespace Instruction

/-- The descriptor of an instruction tells its name, format and group, and the opcodes that its word
holds. -/
structure Described (insn : Instruction) : Prop where
  opcode : insn.descriptor.opcode = insn.opcode
  format : insn.descriptor.format = insn.format
  group : insn.descriptor.group = insn.group
  primary : ¬ insn.isUnknown → insn.descriptor.primary = insn.primary
  extended : ∀ value, insn.descriptor.extended = some value →
    ∃ field, insn.format.extended? = some field ∧ field.read insn.raw = value

theorem descriptor_decode (address word : UInt32) : (decode address word).descriptor =
    { Descriptor.lookup word with opcode := (decode address word).opcode } :=
  decode_operation
    (motive := fun entry opcode => Descriptor.ofOpcode opcode = { entry with opcode })
    (fun _ member _ operation => Descriptor.ofOpcode_of_operations member operation)
    Descriptor.ofOpcode_unknown address word

theorem general_opcode_decode (address word : UInt32) :
    (decode address word).opcode.general = (decodeBase address word).opcode :=
  decode_operation (motive := fun entry opcode => opcode.general = entry.opcode)
    (fun _ member _ operation => Descriptor.operations_general member operation) rfl address word

theorem isUnknown_of_lookup {address word : UInt32}
    (missed : Descriptor.lookup word = Descriptor.unknown) : (decode address word).isUnknown := by
  have member := simplifiedOpcode_mem (decodeBase address word)
  have opcode : (decodeBase address word).opcode = .unknown := congrArg Descriptor.opcode missed
  rw [opcode] at member
  exact beq_iff_eq.mpr (List.mem_singleton.mp member)

theorem described_decode (address word : UInt32) : (decode address word).Described := by
  have descriptor := descriptor_decode address word
  have sound := Descriptor.lookupWith_sound Descriptor.probeOrder word
  refine ⟨by rw [descriptor], by rw [descriptor]; rfl, by rw [descriptor]; rfl, ?_, ?_⟩
  · intro known
    have found := sound.resolve_left fun missed => known (isUnknown_of_lookup missed)
    rw [descriptor]
    exact found.2.primary_eq
  · intro value extended
    rw [descriptor] at extended
    obtain missed | ⟨member, matched⟩ := sound
    · have none : (Descriptor.lookup word).extended = none := congrArg Descriptor.extended missed
      cases none.symm.trans extended
    · exact Descriptor.exists_extended member matched extended

/-! ## Effects -/

/-- The name of an instruction decides its own effects only; those of the record and overflow bits
stay. -/
theorem effects_rename {insn : Instruction} {opcode : Opcode}
    (same : { insn with opcode }.ownEffects = insn.ownEffects) :
    { insn with opcode }.effects = insn.effects := by
  unfold effects
  rw [same]
  rfl

section Renaming

variable {insn : Instruction}

theorem effects_returning (opcode : insn.opcode = .bclr) (always : insn.alwaysTaken) :
    { insn with opcode := if insn.lk then .blrl else .blr }.effects = insn.effects := by
  apply effects_rename
  obtain ⟨counter, condition⟩ := Bool.and_eq_true_iff.mp always
  cases link : insn.lk <;>
    simp [ownEffects, opcode, link, always, conditionReads, conditionWrites, counter, condition]

theorem effects_throughCounter (opcode : insn.opcode = .bcctr) (always : insn.alwaysTaken) :
    { insn with opcode := if insn.lk then .bctrl else .bctr }.effects = insn.effects := by
  apply effects_rename
  obtain ⟨counter, condition⟩ := Bool.and_eq_true_iff.mp always
  cases link : insn.lk <;>
    simp [ownEffects, opcode, link, always, conditionReads, conditionWrites, counter, condition]

theorem effects_immediate {special : Opcode}
    (opcode : insn.opcode = .addi ∧ special = .li ∨ insn.opcode = .addis ∧ special = .lis)
    (noBase : insn.ra = 0) : { insn with opcode := special }.effects = insn.effects := by
  apply effects_rename
  obtain ⟨opcode, rfl⟩ | ⟨opcode, rfl⟩ := opcode <;>
    simp [ownEffects, opcode, base, noBase, rd]

/-- The two sources of a move are one register, and effects name each register once. -/
theorem effects_move (opcode : insn.opcode = .or) (one : insn.rs = insn.rb) :
    { insn with opcode := .mr }.effects = insn.effects := by
  have twice (register : Register) (rest : List Register) :
      (register :: register :: rest).eraseDups = (register :: rest).eraseDups := by
    simp [List.eraseDups_cons]
  have own : insn.ownEffects = .registers [.gpr insn.rd, .gpr insn.rb] [.gpr insn.ra] := by
    simp [ownEffects, opcode]
  unfold effects
  rw [own, ← one]
  simp only [Effects.registers, List.cons_append]
  rw [rs, twice]
  rfl

theorem effects_link_ne {special : Opcode}
    (opcode : insn.opcode = .b ∧ special = .bl ∨ insn.opcode = .bc ∧ special = .bcl) :
    { insn with opcode := special }.effects ≠ insn.effects := by
  intro same
  have transfer := congrArg Effects.transfer same
  obtain ⟨opcode, rfl⟩ | ⟨opcode, rfl⟩ := opcode
  · simp [effects, ownEffects, opcode] at transfer
  · cases always : insn.alwaysTaken <;> simp [effects, ownEffects, opcode, always] at transfer

theorem effects_nop_ne (opcode : insn.opcode = .ori) :
    { insn with opcode := .nop }.effects ≠ insn.effects := by
  intro same
  have read : Register.gpr insn.rd ∈ insn.effects.reads :=
    (mem_reads_iff_own (by simp)).mpr (by simp [ownEffects, opcode, Effects.registers])
  rw [← same, mem_reads_iff_own (by simp)] at read
  simp [ownEffects] at read

theorem effects_fromSpecial_ne {special : Opcode} {register : Register}
    (opcode : insn.opcode = .mfspr)
    (named : special = .mflr ∧ register = .lr ∨ special = .mfctr ∧ register = .ctr) :
    { insn with opcode := special }.effects ≠ insn.effects := by
  intro same
  have other : register ≠ .xer := by grind
  have read : register ∈ { insn with opcode := special }.effects.reads := by
    rw [mem_reads_iff_own other]
    obtain ⟨rfl, rfl⟩ | ⟨rfl, rfl⟩ := named <;> simp [ownEffects, Effects.registers]
  rw [same, mem_reads_iff_own other] at read
  simp only [ownEffects, opcode, Effects.registers] at read
  grind

theorem effects_toSpecial_ne {special : Opcode} {register : Register}
    (opcode : insn.opcode = .mtspr)
    (named : special = .mtlr ∧ register = .lr ∨ special = .mtctr ∧ register = .ctr) :
    { insn with opcode := special }.effects ≠ insn.effects := by
  intro same
  have other : register ≠ .xer := by grind
  have noField : ∀ field, register ≠ .cr field := by grind
  have written : register ∈ { insn with opcode := special }.effects.writes := by
    rw [mem_writes_iff_own other noField]
    obtain ⟨rfl, rfl⟩ | ⟨rfl, rfl⟩ := named <;> simp [ownEffects, Effects.registers]
  rw [same, mem_writes_iff_own other noField] at written
  simp only [ownEffects, opcode, Effects.registers] at written
  grind

/-- A special form has the effects of its general form just if it is not a distinct one. -/
theorem effects_simplified_iff (general : insn.opcode ∉ Opcode.distinctForms) :
    { insn with opcode := insn.simplifiedOpcode }.effects = insn.effects ↔
      insn.simplifiedOpcode ∉ Opcode.distinctForms := by
  have unchanged {opcode : Opcode} (same : insn.opcode = opcode) :
      { insn with opcode }.effects = insn.effects ↔ opcode ∉ Opcode.distinctForms :=
    iff_of_true (by rw [← same]) (same ▸ general)
  have lost {opcode : Opcode} (differ : { insn with opcode }.effects ≠ insn.effects)
      (distinct : opcode ∈ Opcode.distinctForms) :
      { insn with opcode }.effects = insn.effects ↔ opcode ∉ Opcode.distinctForms :=
    iff_of_false differ (not_not.mpr distinct)
  unfold simplifiedOpcode
  split
  case h_1 opcode =>
    split
    · exact lost (effects_link_ne (.inl ⟨opcode, rfl⟩)) (by decide)
    · exact unchanged opcode
  case h_2 opcode =>
    split
    · exact lost (effects_link_ne (.inr ⟨opcode, rfl⟩)) (by decide)
    · exact unchanged opcode
  case h_3 opcode =>
    split
    · rename_i always
      exact iff_of_true (effects_returning opcode always) (by split <;> decide)
    · exact unchanged opcode
  case h_4 opcode =>
    split
    · rename_i always
      exact iff_of_true (effects_throughCounter opcode always) (by split <;> decide)
    · exact unchanged opcode
  case h_5 opcode =>
    split
    · exact lost (effects_nop_ne opcode) (by decide)
    · exact unchanged opcode
  case h_6 opcode =>
    split
    · rename_i noBase
      exact iff_of_true (effects_immediate (.inl ⟨opcode, rfl⟩) (beq_iff_eq.mp noBase)) (by decide)
    · exact unchanged opcode
  case h_7 opcode =>
    split
    · rename_i noBase
      exact iff_of_true (effects_immediate (.inr ⟨opcode, rfl⟩) (beq_iff_eq.mp noBase)) (by decide)
    · exact unchanged opcode
  case h_8 opcode =>
    split
    · rename_i one
      exact iff_of_true (effects_move opcode (beq_iff_eq.mp one)) (by decide)
    · exact unchanged opcode
  case h_9 opcode =>
    split
    · exact lost (effects_fromSpecial_ne opcode (.inl ⟨rfl, rfl⟩)) (by decide)
    · split
      · exact lost (effects_fromSpecial_ne opcode (.inr ⟨rfl, rfl⟩)) (by decide)
      · exact unchanged opcode
  case h_10 opcode =>
    split
    · exact lost (effects_toSpecial_ne opcode (.inl ⟨rfl, rfl⟩)) (by decide)
    · split
      · exact lost (effects_toSpecial_ne opcode (.inr ⟨rfl, rfl⟩)) (by decide)
      · exact unchanged opcode
  case h_11 => exact unchanged rfl

end Renaming

theorem general_decodeBase (address word : UInt32) :
    (decodeBase address word).opcode ∉ Opcode.distinctForms :=
  Descriptor.lookup_ind (motive := fun entry => entry.opcode ∉ Opcode.distinctForms)
    (fun entry member => (Descriptor.table_forms entry member).1) (by decide) word

theorem decodeBase_eq (address word : UInt32) : decodeBase address word =
    { decode address word with opcode := (decode address word).opcode.general } := by
  rw [general_opcode_decode]
  rfl

/-- Instructions and descriptors agree. Each operation has one descriptor, and the descriptor of a
decoded instruction describes it. Singling out a special form changes the name of the instruction
from that of the general form and nothing else. It keeps the effects but for the distinct forms:
returns, branches through the counter, loads of immediates and moves do what their general forms do
with the same operands. -/
theorem decode_described :
    (∀ entry ∈ Descriptor.simplified ++ Descriptor.table,
      Descriptor.ofOpcode entry.opcode = entry) ∧
    ∀ address word,
      (decode address word).Described ∧
      decodeBase address word =
        { decode address word with opcode := (decode address word).opcode.general } ∧
      ((decode address word).effects = (decodeBase address word).effects ↔
        (decode address word).opcode ∉ Opcode.distinctForms) := by
  refine ⟨fun entry listed => Descriptor.ofOpcode_opcode (List.mem_cons_of_mem _ listed), ?_⟩
  intro address word
  exact ⟨described_decode address word, decodeBase_eq address word,
    effects_simplified_iff (general_decodeBase address word)⟩

/-- The move `mr r3, r4` is `or r3, r4, r4`. -/
theorem decode_described_move :
    ⟨.mr, .x, .intLogical, 31, some 444⟩ ∈ Descriptor.simplified ++ Descriptor.table ∧
      Descriptor.ofOpcode .mr = ⟨.mr, .x, .intLogical, 31, some 444⟩ ∧
      (decode 0 0x7C832378).opcode = .mr ∧ (decodeBase 0 0x7C832378).opcode = .or ∧
      (decode 0 0x7C832378).descriptor.primary = 31 ∧
      (decode 0 0x7C832378).effects = (decodeBase 0 0x7C832378).effects := by
  obtain ⟨unique, each⟩ := decode_described
  obtain ⟨described, -, effects⟩ := each 0 0x7C832378
  have listed :
      ⟨.mr, .x, .intLogical, 31, some 444⟩ ∈ Descriptor.simplified ++ Descriptor.table := by
    decide +kernel
  have move : (decode 0 0x7C832378).opcode = .mr := by decide +kernel
  refine ⟨listed, unique _ listed, move, by decide +kernel, ?_, effects.mpr ?_⟩
  · rw [described.primary (by simp [isUnknown, move])]
    decide +kernel
  · rw [move]
    decide

end Instruction

end PowerLift
