import Mathlib
import PowerLift.Emit.Arm
import PowerLift.Proofs.ControlFlow

/-!
The registers that statements name and change, and the effects of an instruction as a bound on
them: what the code for an instruction changes is among the registers that it writes, and what the
code names is among those that it reads or writes.
-/

namespace PowerLift

/-! ## Registers of statements -/

/-- Whether effects account for a register. -/
def Register.isTracked : Register → Bool
  | .gpr _ | .fpr _ | .vr _ | .cr _ | .ctr | .xer | .lr => true
  | .reserved | .msr | .fpscr | .vscr | .vrsave => false

namespace Expr

/-- The registers that evaluating an expression changes: those that are lent out for it, and those
that a method changes which is called on them. -/
def assigned : Expr → List Register
  | reg _ | var _ | lit _ | nothing => []
  | unary .borrowMut inner => inner.registers
  | paren inner | cast inner _ | unary _ inner | member inner _ => inner.assigned
  | binary _ left right => left.assigned ++ right.assigned
  | method receiver name arguments =>
    (if name.mutates then receiver.registers else receiver.assigned) ++ arguments.assigned
  | call _ arguments => arguments.assigned
  | choice condition yes no => condition.assigned ++ yes.assigned ++ no.assigned
  | comma first rest => first.assigned ++ rest.assigned

@[simp] theorem registers_list (arguments : List Expr) :
    (list arguments).registers = arguments.flatMap registers :=
  collect_list rfl (fun _ _ => rfl) arguments

@[simp] theorem assigned_list (arguments : List Expr) :
    (list arguments).assigned = arguments.flatMap assigned :=
  collect_list rfl (fun _ _ => rfl) arguments

end Expr

def Action.assigned : Action → List Register
  | declare _ _ value => value.assigned
  | assign place value => place.registers ++ value.assigned
  | perform effect => effect.assigned

def Exit.assigned : Exit → List Register
  | goto _ | ret => []
  | redirect label => label.assigned
  | leave call => call.assigned

/-- The registers that a statement changes. Copies that are handed to host code are written back. -/
def Stmt.assigned : Stmt → List Register
  | comment _ => []
  | act action => action.assigned
  | transfer exit => exit.assigned
  | guard condition actions exit =>
    condition.assigned ++ actions.flatMap Action.assigned ++ exit.toList.flatMap Exit.assigned
  | switch condition index cases otherwise =>
    condition.toList.flatMap Expr.assigned ++ index.assigned ++ cases.flatMap Exit.assigned ++
      otherwise.assigned
  | hook call => call.captures.map (·.2) ++ call.exits.flatMap (·.2.assigned)

/-! ## Effects as a bound -/

namespace Instruction

/-- The effects of an instruction account for given registers that are changed, and for others that
are named. -/
structure Bounds (insn : Instruction) (changed named : List Register) : Prop where
  writes : ∀ register ∈ changed, register.isTracked → register ∈ insn.effects.writes
  reads : ∀ register ∈ named, register.isTracked →
    register ∈ insn.effects.reads ∨ register ∈ insn.effects.writes

/-- The effects of an instruction account for statements. -/
def Covers (insn : Instruction) (stmts : List Stmt) : Prop :=
  insn.Bounds (stmts.flatMap Stmt.assigned) (stmts.flatMap Stmt.registers)

/-- The effects of an instruction account for actions. -/
def CoversActions (insn : Instruction) (actions : List Action) : Prop :=
  insn.Bounds (actions.flatMap Action.assigned) (actions.flatMap Action.registers)

@[simp] theorem bounds_nil (insn : Instruction) : insn.Bounds [] [] :=
  ⟨by simp, by simp⟩

@[simp] theorem bounds_append {insn : Instruction} {changed changed' named named' : List Register} :
    insn.Bounds (changed ++ changed') (named ++ named') ↔
      insn.Bounds changed named ∧ insn.Bounds changed' named' := by
  constructor
  · rintro ⟨writes, reads⟩
    simp only [List.forall_mem_append] at writes reads
    exact ⟨⟨writes.1, reads.1⟩, ⟨writes.2, reads.2⟩⟩
  · rintro ⟨first, second⟩
    exact ⟨List.forall_mem_append.mpr ⟨first.writes, second.writes⟩,
      List.forall_mem_append.mpr ⟨first.reads, second.reads⟩⟩

theorem covers_append {insn : Instruction} {stmts more : List Stmt} :
    insn.Covers (stmts ++ more) ↔ insn.Covers stmts ∧ insn.Covers more := by
  rw [Covers, List.flatMap_append, List.flatMap_append]
  exact bounds_append

theorem covers_acts {insn : Instruction} {actions : List Action} :
    insn.Covers (actions.map .act) ↔ insn.CoversActions actions := by
  simp only [Covers, CoversActions, List.flatMap_map, Stmt.assigned, Stmt.registers]

theorem mem_reads {insn : Instruction} {register : Register} :
    register ∈ insn.effects.reads ↔
      register ∈ insn.ownEffects.reads ∨ register ∈ insn.suffixReads := by
  simp [effects, List.mem_eraseDups]

theorem mem_writes {insn : Instruction} {register : Register} :
    register ∈ insn.effects.writes ↔
      register ∈ insn.ownEffects.writes ∨ register ∈ insn.suffixWrites := by
  simp [effects, List.mem_eraseDups]

/-- The record and overflow bits read the exception register only, and write it and fields of the
condition register. -/
theorem mem_reads_iff_own {insn : Instruction} {register : Register} (other : register ≠ .xer) :
    register ∈ insn.effects.reads ↔ register ∈ insn.ownEffects.reads := by
  rw [mem_reads, or_iff_left]
  unfold suffixReads
  grind

theorem mem_writes_iff_own {insn : Instruction} {register : Register} (other : register ≠ .xer)
    (noField : ∀ field, register ≠ .cr field) :
    register ∈ insn.effects.writes ↔ register ∈ insn.ownEffects.writes := by
  rw [mem_writes, or_iff_left]
  unfold suffixWrites
  grind [Option.map_eq_some_iff]

theorem mem_writesGpr {insn : Instruction} {number : Nat} :
    number ∈ insn.effects.writesGpr ↔ .gpr number ∈ insn.effects.writes := by
  rw [Effects.writesGpr, List.mem_filterMap]
  constructor
  · rintro ⟨register, written, found⟩
    cases register with
    | gpr => cases found; exact written
    | _ => cases found
  · exact fun written => ⟨_, written, rfl⟩

theorem coversActions_append {insn : Instruction} {actions more : List Action}
    (covered : insn.CoversActions actions) (rest : insn.CoversActions more) :
    insn.CoversActions (actions ++ more) := by
  rw [CoversActions, List.flatMap_append, List.flatMap_append]
  exact bounds_append.mpr ⟨covered, rest⟩

theorem coversActions_cons {insn : Instruction} {action : Action} {more : List Action}
    (covered : insn.CoversActions [action]) (rest : insn.CoversActions more) :
    insn.CoversActions (action :: more) :=
  coversActions_append covered rest

theorem coversActions_map {insn : Instruction} {α : Type} {action : α → Action} {xs : List α}
    (covered : ∀ x ∈ xs, insn.CoversActions [action x]) : insn.CoversActions (xs.map action) := by
  induction xs with
  | nil => exact bounds_nil insn
  | cons x rest ih =>
      rw [List.forall_mem_cons] at covered
      exact coversActions_cons covered.1 (ih covered.2)

end Instruction

/-! ## Decoded instructions -/

namespace Opcode

/-- Whether an access has its address from a base register and a displacement. -/
def isDisplaced : Opcode → Bool
  | .lbz | .lbzu | .lhz | .lhzu | .lha | .lhau | .lwz | .lwzu | .lwa | .ld | .ldu | .lmw
  | .stb | .stbu | .sth | .sthu | .stw | .stwu | .std | .stdu | .stmw
  | .lfs | .lfsu | .lfd | .lfdu | .stfs | .stfsu | .stfd | .stfdu => true
  | _ => false

/-- Whether an access is to one of 128 vector registers. -/
def isWideAccess : Opcode → Bool
  | .lvsl128 | .lvsr128 | .lvewx128 | .lvx128 | .lvxl128 | .lvlx128 | .lvrx128 | .lvlxl128
  | .lvrxl128 | .stvewx128 | .stvx128 | .stvxl128 | .stvlx128 | .stvrx128 | .stvlxl128
  | .stvrxl128 => true
  | _ => false

end Opcode

namespace Lift

/-- An instruction whose vector operands are the registers zero to three, in every format. -/
def probe (opcode : Opcode) (format : Format) : Instruction :=
  ⟨0, 0x000110C0, opcode, format, .unknown, none⟩

/-- The operands of an instruction in the place of those of a probe. -/
def VectorOperands.place (operands : VectorOperands) : Register → Register
  | .vr 0 => .vr operands.vd
  | .vr 1 => .vr operands.va
  | .vr 2 => .vr operands.vb
  | .vr 3 => .vr operands.vc
  | register => register

@[simp] theorem probe_opcode (opcode : Opcode) (format : Format) :
    (probe opcode format).opcode = opcode := rfl

@[simp] theorem probe_format (opcode : Opcode) (format : Format) :
    (probe opcode format).format = format := rfl

theorem probe_registers (opcode : Opcode) (format : Format) :
    ((probe opcode format).rd = 0 ∧ (probe opcode format).ra = 1 ∧ (probe opcode format).rb = 2 ∧
      (probe opcode format).rc = 3) ∧
    (probe opcode format).vd128 = 0 ∧ (probe opcode format).va128 = 1 ∧
      (probe opcode format).vb128 = 2 ∧ (probe opcode format).vc128 = 3 := by
  change (Field.rd.read 0x000110C0 = 0 ∧ Field.ra.read 0x000110C0 = 1 ∧
    Field.rb.read 0x000110C0 = 2 ∧ Field.rc.read 0x000110C0 = 3) ∧
    Field.vd128.read 0x000110C0 = 0 ∧ Field.va128.read 0x000110C0 = 1 ∧
    Field.vb128.read 0x000110C0 = 2 ∧ Field.vc128.read 0x000110C0 = 3
  decide +kernel

theorem vectorOperands_probe (opcode : Opcode) (format : Format) :
    vectorOperands (probe opcode format) = ⟨0, 1, 2, 3⟩ := by
  cases format <;> simp only [vectorOperands, probe_format, probe_registers]

/-- What is asked of a vector operation in its format: its effects are those of the format, it has
no ordinary record bit, and the effects of a probe account for its operands. -/
def VectorShape (opcode : Opcode) (format : Format) : Prop :=
  -- No operation with effects of its own has those that this format gives a probe.
  (probe opcode .vx128_4).ownEffects = (probe opcode .vx128_4).vectorEffects ∧
    format.hasRecordBit = false ∧
    .vr 0 ∈ (probe opcode format).vectorEffects.writes ∧
    ∀ register ∈ (vectorValue (probe opcode format)).registers,
      register ∈ (probe opcode format).vectorEffects.reads ∨
        register ∈ (probe opcode format).vectorEffects.writes

instance VectorShape.decidable (opcode : Opcode) (format : Format) :
    Decidable (VectorShape opcode format) :=
  inferInstanceAs (Decidable (_ ∧ _ ∧ _ ∧ ∀ register ∈ _, _))

end Lift

namespace Instruction

/-- The groups of vector operations on registers alone. -/
def IsVectorOperation (insn : Instruction) : Prop :=
  insn.group = .vectorInteger ∨ insn.group = .vectorFloat ∨ insn.group = .vectorPermute

/-- What decoding guarantees of an instruction: the format goes with the operation, only vector
comparisons have a record bit of their own, and additions to no register have a special form. -/
structure Regular (insn : Instruction) : Prop where
  displaced : insn.opcode.isDisplaced → insn.format = .d ∨ insn.format = .ds
  wide : insn.group = .vectorLoad ∨ insn.group = .vectorStore →
    (insn.format = .vx128_1 ↔ insn.opcode.isWideAccess)
  recorded : insn.vectorRecordBit → insn.group = .vectorInteger ∨ insn.group = .vectorFloat
  base : insn.opcode = .addi ∨ insn.opcode = .addis → insn.ra ≠ 0
  vector : insn.IsVectorOperation → Lift.VectorShape insn.opcode insn.format

theorem simplifiedOpcode_access (insn : Instruction) :
    insn.simplifiedOpcode.isDisplaced = insn.opcode.isDisplaced ∧
      insn.simplifiedOpcode.isWideAccess = insn.opcode.isWideAccess := by
  unfold simplifiedOpcode
  split
  case h_11 => exact ⟨rfl, rfl⟩
  all_goals
    rename_i opcode
    rw [opcode]
    repeat' split
    all_goals exact ⟨rfl, rfl⟩

theorem simplifiedOpcode_addition (insn : Instruction)
    (addition : insn.simplifiedOpcode = .addi ∨ insn.simplifiedOpcode = .addis) : insn.ra ≠ 0 := by
  intro noBase
  unfold simplifiedOpcode at addition
  split at addition
  case h_11 noAddi noAddis _ _ _ =>
    rcases addition with found | found
    · exact noAddi found
    · exact noAddis found
  all_goals
    revert addition
    repeat' split
    all_goals simp_all

/-- No vector operation has special forms. -/
theorem simplifiedOpcode_vector (insn : Instruction)
    (plain : insn.opcode ∉
      [Opcode.b, .bc, .bclr, .bcctr, .ori, .addi, .addis, .or, .mfspr, .mtspr]) :
    insn.simplifiedOpcode = insn.opcode := by
  unfold simplifiedOpcode
  split
  case h_11 => rfl
  all_goals
    rename_i opcode
    exact absurd (by simp [opcode]) plain

theorem lookup_vector (word : UInt32) :
    (Descriptor.lookup word).group = .vectorInteger ∨
        (Descriptor.lookup word).group = .vectorFloat ∨
        (Descriptor.lookup word).group = .vectorPermute →
    (Descriptor.lookup word).opcode ∉
        [Opcode.b, .bc, .bclr, .bcctr, .ori, .addi, .addis, .or, .mfspr, .mtspr] ∧
      Lift.VectorShape (Descriptor.lookup word).opcode (Descriptor.lookup word).format :=
  Descriptor.lookup_ind
    (motive := fun entry => entry.group = .vectorInteger ∨ entry.group = .vectorFloat ∨
        entry.group = .vectorPermute →
      entry.opcode ∉ [Opcode.b, .bc, .bclr, .bcctr, .ori, .addi, .addis, .or, .mfspr, .mtspr] ∧
        Lift.VectorShape entry.opcode entry.format)
    (by decide +kernel) (by decide +kernel) word

theorem lookup_access (word : UInt32) :
    ((Descriptor.lookup word).opcode.isDisplaced →
      (Descriptor.lookup word).format = .d ∨ (Descriptor.lookup word).format = .ds) ∧
    ((Descriptor.lookup word).group = .vectorLoad ∨ (Descriptor.lookup word).group = .vectorStore →
      ((Descriptor.lookup word).format = .vx128_1 ↔
        (Descriptor.lookup word).opcode.isWideAccess)) ∧
    ((Descriptor.lookup word).format = .vxr ∨ (Descriptor.lookup word).format = .vx128_r →
      (Descriptor.lookup word).group = .vectorInteger ∨
        (Descriptor.lookup word).group = .vectorFloat) :=
  Descriptor.lookup_ind
    (motive := fun entry => (entry.opcode.isDisplaced → entry.format = .d ∨ entry.format = .ds) ∧
      (entry.group = .vectorLoad ∨ entry.group = .vectorStore →
        (entry.format = .vx128_1 ↔ entry.opcode.isWideAccess)) ∧
      (entry.format = .vxr ∨ entry.format = .vx128_r →
        entry.group = .vectorInteger ∨ entry.group = .vectorFloat))
    (by decide +kernel) (by decide) word

theorem decode_regular (address word : UInt32) : (decode address word).Regular := by
  obtain ⟨displaced, wide, compares⟩ := lookup_access word
  have special := simplifiedOpcode_access (decodeBase address word)
  constructor
  · intro access
    exact displaced (special.1 ▸ access)
  · intro access
    rw [show (decode address word).opcode.isWideAccess = _ from special.2]
    exact wide access
  · intro records
    apply compares
    simp only [vectorRecordBit, decode, decodeBase] at records
    split at records
    next vxr => exact Or.inl vxr
    next vx128_r => exact Or.inr vx128_r
    next => cases records
  · exact simplifiedOpcode_addition (decodeBase address word)
  · intro vector
    obtain ⟨plain, shape⟩ := lookup_vector word vector
    have same : (decode address word).opcode = (Descriptor.lookup word).opcode :=
      simplifiedOpcode_vector (decodeBase address word) plain
    rw [same]
    exact shape

end Instruction

end PowerLift
