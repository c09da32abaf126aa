import Mathlib
import PowerLift.Proofs.RegisterUse
import PowerLift.Proofs.TableIndex

/-!
Constants that code builds in a register. The search goes backwards from the end of the code; what
it finds is the low word of the register after every execution that runs through.
-/

namespace PowerLift

/-! ## Straight-line execution -/

/-- The contents of the general registers. -/
abbrev Registers := Nat → UInt64

namespace Instruction

/-- An instruction may take the registers from one state to another. Loads of a high half, additions
of a constant and insertions of a low half compute what the architecture says, other instructions
change what they write in any way, and a linked branch leaves what the code that it calls leaves. -/
def Takes (insn : Instruction) (before after : Registers) : Prop :=
  match insn.opcode with
  | .lis => after = Function.update before insn.rd (UInt64.ofInt (insn.simm * 65536))
  | .addi =>
    let base := if insn.ra = 0 then 0 else before insn.ra
    after = Function.update before insn.rd (base + UInt64.ofInt insn.simm)
  | .ori => after = Function.update before insn.ra (before insn.rs ||| UInt64.ofNat insn.uimm)
  | _ =>
    insn.isCall = false →
      ∀ number, number ∉ insn.effects.writesGpr → after number = before number

/-- Instructions one after the other, none of which branches away. -/
def TakesAll : List Instruction → Registers → Registers → Prop
  | [], before, after => after = before
  | insn :: rest, before, after =>
    ∃ between, insn.Takes before between ∧ TakesAll rest between after

theorem takesAll_append {first second : List Instruction} {before after : Registers} :
    TakesAll (first ++ second) before after ↔
      ∃ between, TakesAll first before between ∧ TakesAll second between after := by
  induction first generalizing before with
  | nil => simp [TakesAll]
  | cons insn rest ih =>
      simp only [List.cons_append, TakesAll, ih]
      constructor
      · intro ⟨middle, step, between, earlier, later⟩
        exact ⟨between, ⟨middle, step, earlier⟩, later⟩
      · intro ⟨between, ⟨middle, step, earlier⟩, later⟩
        exact ⟨middle, step, between, earlier, later⟩

/-! ## Written registers -/

variable {insn : Instruction} {number : Nat}

/-- The record and overflow bits write no general register. -/
theorem mem_writesGpr_iff_own :
    number ∈ insn.effects.writesGpr ↔ .gpr number ∈ insn.ownEffects.writes := by
  rw [mem_writesGpr, mem_writes_iff_own (by simp) (by simp)]

theorem mem_writesGpr_rd (opcode : insn.opcode ∈ [Opcode.lis, .addi, .lwzx]) :
    number ∈ insn.effects.writesGpr ↔ number = insn.rd := by
  rw [mem_writesGpr_iff_own]
  simp only [List.mem_cons, List.not_mem_nil, or_false] at opcode
  rcases opcode with opcode | opcode | opcode <;>
    simp [ownEffects, opcode, Effects.registers, Effects.load]

theorem mem_writesGpr_ra (opcode : insn.opcode ∈ [Opcode.ori, .rlwinm]) :
    number ∈ insn.effects.writesGpr ↔ number = insn.ra := by
  rw [mem_writesGpr_iff_own]
  simp only [List.mem_cons, List.not_mem_nil, or_false] at opcode
  rcases opcode with opcode | opcode <;> simp [ownEffects, opcode, Effects.registers]

theorem Takes.keeps {before after : Registers} (takes : insn.Takes before after)
    (unlinked : insn.isCall = false) (spared : number ∉ insn.effects.writesGpr) :
    after number = before number := by
  unfold Takes at takes
  split at takes
  next opcode =>
    rw [mem_writesGpr_rd (by simp [opcode])] at spared
    rw [takes, Function.update_of_ne spared]
  next opcode =>
    rw [mem_writesGpr_rd (by simp [opcode])] at spared
    rw [takes, Function.update_of_ne spared]
  next opcode =>
    rw [mem_writesGpr_ra (by simp [opcode])] at spared
    rw [takes, Function.update_of_ne spared]
  next => exact takes unlinked number spared

theorem TakesAll.keeps {body : List Instruction} {before after : Registers}
    (takes : TakesAll body before after) (unlinked : ∀ insn ∈ body, insn.isCall = false)
    (spared : ∀ insn ∈ body, number ∉ insn.effects.writesGpr) : after number = before number := by
  induction body generalizing before with
  | nil => rw [takes]
  | cons insn rest ih =>
      obtain ⟨between, step, onward⟩ := takes
      obtain ⟨unlinkedHere, unlinked⟩ := List.forall_mem_cons.mp unlinked
      obtain ⟨sparedHere, spared⟩ := List.forall_mem_cons.mp spared
      rw [ih onward unlinked spared, step.keeps unlinkedHere sparedHere]

end Instruction

/-! ## Constants -/

namespace TableIdiom

open Instruction

variable {register : Nat} {body before : List Instruction} {insn : Instruction} {value : UInt32}

/-- A register has a constant at the end of code, given nearest instruction first, by its last
writer: the load of a high half, or a change of a constant that the register had before. -/
inductive Builds (register : Nat) : List Instruction → UInt32 → Prop
  | high {body before : List Instruction} {insn : Instruction}
      (written : writer? register body = some (insn, before)) (opcode : insn.opcode = .lis) :
      Builds register body (UInt32.ofNat insn.uimm <<< 16)
  | add {body before : List Instruction} {insn : Instruction} {value : UInt32}
      (written : writer? register body = some (insn, before)) (opcode : insn.opcode = .addi)
      (source : insn.ra = register) (earlier : Builds register before value) :
      Builds register body (value + UInt32.ofInt insn.simm)
  | insert {body before : List Instruction} {insn : Instruction} {value : UInt32}
      (written : writer? register body = some (insn, before)) (opcode : insn.opcode = .ori)
      (source : insn.rs = register) (target : insn.ra = register)
      (earlier : Builds register before value) :
      Builds register body (value ||| UInt32.ofNat insn.uimm)

theorem builds_of_constantFrom {fuel : Nat}
    (found : constantFrom fuel register body = some value) : Builds register body value := by
  induction fuel generalizing body value with
  | zero => cases found
  | succ fuel ih =>
      simp only [constantFrom, Option.bind_eq_bind, Option.bind_eq_some_iff] at found
      obtain ⟨⟨insn, before⟩, written, found⟩ := found
      split at found
      next opcode =>
        obtain rfl := Option.some.inj found
        exact .high written opcode
      next opcode =>
        split at found
        next source =>
          obtain ⟨high, earlier, same⟩ := Option.bind_eq_some_iff.mp found
          obtain rfl := Option.some.inj same
          exact .add written opcode (by simpa using source) (ih earlier)
        next => cases found
      next opcode =>
        split at found
        next operands =>
          obtain ⟨high, earlier, same⟩ := Option.bind_eq_some_iff.mp found
          obtain rfl := Option.some.inj same
          simp only [Bool.and_eq_true, beq_iff_eq] at operands
          exact .insert written opcode operands.1 operands.2 (ih earlier)
        next => cases found
      next => cases found

theorem length_lt_of_writer? (written : writer? register body = some (insn, before)) :
    before.length < body.length := by
  obtain ⟨_, passed, same, _⟩ := writer?_eq_some_iff.mp written
  simp only [same, List.length_append, List.length_cons]
  omega

theorem Builds.constantFrom_eq (builds : Builds register body value) {fuel : Nat}
    (enough : body.length < fuel) : constantFrom fuel register body = some value := by
  induction builds generalizing fuel with
  | high written opcode =>
      obtain ⟨fuel, rfl⟩ := Nat.exists_eq_add_one_of_ne_zero (Nat.ne_zero_of_lt enough)
      simp [constantFrom, written, opcode]
  | add written opcode source _ ih =>
      obtain ⟨fuel, rfl⟩ := Nat.exists_eq_add_one_of_ne_zero (Nat.ne_zero_of_lt enough)
      have shorter := length_lt_of_writer? written
      simp [constantFrom, written, opcode, source, ih (by omega : _ < fuel)]
  | insert written opcode source target _ ih =>
      obtain ⟨fuel, rfl⟩ := Nat.exists_eq_add_one_of_ne_zero (Nat.ne_zero_of_lt enough)
      have shorter := length_lt_of_writer? written
      simp [constantFrom, written, opcode, source, target, ih (by omega : _ < fuel)]

theorem constant?_eq_some_iff :
    constant? register body = some value ↔ Builds register body value := by
  constructor
  · exact builds_of_constantFrom
  · intro builds
    exact builds.constantFrom_eq (Nat.lt_succ_self _)

/-! ## What the machine computes -/

theorem toUInt32_ofInt (value : Int) : (UInt64.ofInt value).toUInt32 = UInt32.ofInt value := by
  rw [UInt64.ofInt, UInt64.toUInt32_ofNat', UInt32.ofInt]
  apply UInt32.toNat_inj.mp
  simp only [UInt32.toNat_ofNat']
  omega

theorem toUInt32_high (insn : Instruction) :
    (UInt64.ofInt (insn.simm * 65536)).toUInt32 = UInt32.ofNat insn.uimm <<< 16 := by
  rw [toUInt32_ofInt, UInt32.ofInt]
  apply UInt32.toNat_inj.mp
  have shift : (16 : UInt32).toNat % 32 = 16 := rfl
  rw [UInt32.toNat_shiftLeft, UInt32.toNat_ofNat', UInt32.toNat_ofNat', shift, Nat.shiftLeft_eq,
    simm, signExtend]
  split <;> omega

/-- After its last writer a register keeps what the writer left. -/
theorem exists_last_write (written : writer? register body = some (insn, before))
    (unlinked : ∀ other ∈ body, other.isCall = false) {start finish : Registers}
    (takes : TakesAll body.reverse start finish) :
    ∃ middle next, TakesAll before.reverse start middle ∧ insn.Takes middle next ∧
      finish register = next register := by
  obtain ⟨_, passed, rfl, passes⟩ := writer?_eq_some_iff.mp written
  rw [List.reverse_append, List.reverse_cons, List.append_assoc, takesAll_append] at takes
  obtain ⟨middle, earlier, next, step, later⟩ := takes
  refine ⟨middle, next, earlier, step, later.keeps ?_ ?_⟩
  · intro other member
    exact unlinked other (List.mem_append_left _ (List.mem_reverse.mp member))
  · intro other member
    exact (passes other (List.mem_reverse.mp member)).1

theorem Builds.holds (builds : Builds register body value)
    (based : ∀ insn ∈ body, insn.opcode = .addi → insn.ra ≠ 0)
    (unlinked : ∀ insn ∈ body, insn.isCall = false) {start finish : Registers}
    (takes : TakesAll body.reverse start finish) : (finish register).toUInt32 = value := by
  induction builds generalizing finish with
  | high written opcode =>
      obtain ⟨middle, next, _, step, kept⟩ := exists_last_write written unlinked takes
      have writes := (writer?_eq_some_iff.mp written).1
      rw [mem_writesGpr_rd (by simp [opcode])] at writes
      simp only [Takes, opcode] at step
      rw [kept, step, ← writes, Function.update_self, toUInt32_high]
  | add written opcode source _ ih =>
      obtain ⟨middle, next, earlier, step, kept⟩ := exists_last_write written unlinked takes
      obtain ⟨writes, passed, rfl, _⟩ := writer?_eq_some_iff.mp written
      rw [mem_writesGpr_rd (by simp [opcode])] at writes
      have base := based _ (by simp) opcode
      obtain ⟨_, based⟩ := List.forall_mem_cons.mp (List.forall_mem_append.mp based).2
      obtain ⟨_, unlinked⟩ := List.forall_mem_cons.mp (List.forall_mem_append.mp unlinked).2
      simp only [Takes, opcode, if_neg base] at step
      rw [kept, step, ← writes, Function.update_self, UInt64.toUInt32_add, source,
        ih based unlinked earlier, toUInt32_ofInt]
  | insert written opcode source target _ ih =>
      obtain ⟨middle, next, earlier, step, kept⟩ := exists_last_write written unlinked takes
      obtain ⟨_, passed, rfl, _⟩ := writer?_eq_some_iff.mp written
      obtain ⟨_, based⟩ := List.forall_mem_cons.mp (List.forall_mem_append.mp based).2
      obtain ⟨_, unlinked⟩ := List.forall_mem_cons.mp (List.forall_mem_append.mp unlinked).2
      simp only [Takes, opcode] at step
      rw [kept, step, target, Function.update_self, UInt64.toUInt32_or, source,
        ih based unlinked earlier, UInt64.toUInt32_ofNat']

/-- A constant that is found for a register is the low word that the register has after the code,
whatever it had before. -/
theorem constant?_holds {body : List Instruction}
    (decoded : ∀ insn ∈ body, ∃ address word, insn = decode address word)
    (unlinked : ∀ insn ∈ body, insn.isCall = false) {register : Nat} {value : UInt32}
    (found : constant? register body.reverse = some value) {before after : Registers}
    (takes : TakesAll body before after) : (after register).toUInt32 = value := by
  apply (constant?_eq_some_iff.mp found).holds
  · intro insn member opcode
    obtain ⟨address, word, rfl⟩ := decoded insn (List.mem_reverse.mp member)
    exact (decode_regular address word).base (Or.inl opcode)
  · intro insn member
    exact unlinked insn (List.mem_reverse.mp member)
  · rwa [List.reverse_reverse]

/-! An address built around a load with update and a conditional branch. Its low half is negative,
so that it borrows from the high one. -/

def pointerCode : List Instruction :=
  [decode 0x1000 0x3C808201, decode 0x1004 0x84A60004, decode 0x1008 0x41820008,
    decode 0x100C 0x38848004]

def pointerLoaded : Registers :=
  Function.update (fun _ => 0) 4 0xFFFFFFFF82010000

def pointerUpdated : Registers :=
  Function.update (Function.update pointerLoaded 5 1) 6 4

def pointerBuilt : Registers :=
  Function.update pointerUpdated 4 0xFFFFFFFF82008004

theorem pointerCode_takes : TakesAll pointerCode (fun _ => 0) pointerBuilt := by
  refine ⟨pointerLoaded, ?_, pointerUpdated, ?_, pointerUpdated, ?_, pointerBuilt, ?_, rfl⟩
  · have opcode : (decode 0x1000 0x3C808201).opcode = .lis := by decide +kernel
    simp only [Takes, opcode]
    rfl
  · have opcode : (decode 0x1004 0x84A60004).opcode = .lwzu := by decide +kernel
    have writes : (decode 0x1004 0x84A60004).effects.writesGpr = [5, 6] := by decide +kernel
    simp only [Takes, opcode, writes]
    intro _ number other
    simp only [List.mem_cons, List.not_mem_nil, or_false, not_or] at other
    rw [pointerUpdated, Function.update_of_ne other.2, Function.update_of_ne other.1]
  · have opcode : (decode 0x1008 0x41820008).opcode = .bc := by decide +kernel
    simp only [Takes, opcode]
    exact fun _ _ _ => trivial
  · have opcode : (decode 0x100C 0x38848004).opcode = .addi := by decide +kernel
    simp only [Takes, opcode]
    rfl

theorem pointerCode_holds :
    constant? 4 pointerCode.reverse = some 0x82008004 ∧
      TakesAll pointerCode (fun _ => 0) pointerBuilt ∧
      (pointerBuilt 4).toUInt32 = 0x82008004 := by
  have found : constant? 4 pointerCode.reverse = some 0x82008004 := by decide +kernel
  refine ⟨found, pointerCode_takes, constant?_holds ?_ ?_ found pointerCode_takes⟩
  · intro insn member
    simp only [pointerCode, List.mem_cons, List.not_mem_nil, or_false] at member
    rcases member with rfl | rfl | rfl | rfl <;> exact ⟨_, _, rfl⟩
  · decide +kernel

end TableIdiom

end PowerLift
