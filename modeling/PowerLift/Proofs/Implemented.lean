import Mathlib
import PowerLift.Proofs.BranchForms
import PowerLift.Proofs.Positions

/-!
Which instructions have code. The builder of a group knows all operations that the encoding table
gives its group but the return from an interrupt, and whatever the operands are: what decides is the
operation, except for arithmetic that sets the overflow bits and for moves of special registers. An
instruction without code is recorded in the function that it belongs to.
-/

namespace PowerLift

/-! ## Operations of the encoding table -/

/-- The special forms of an operation. -/
def Opcode.specialForms : Opcode → List Opcode
  | .b => [.bl]
  | .bc => [.bcl]
  | .bclr => [.blr, .blrl]
  | .bcctr => [.bctr, .bctrl]
  | .ori => [.nop]
  | .addi => [.li]
  | .addis => [.lis]
  | .or => [.mr]
  | .mfspr => [.mflr, .mfctr]
  | .mtspr => [.mtlr, .mtctr]
  | _ => []

/-- The operations that words of an encoding decode to. -/
def Descriptor.operations (entry : Descriptor) : List Opcode :=
  entry.opcode :: entry.opcode.specialForms

namespace Instruction

theorem simplifiedOpcode_mem (insn : Instruction) :
    insn.simplifiedOpcode ∈ insn.opcode :: insn.opcode.specialForms := by
  unfold simplifiedOpcode
  split
  case h_11 => exact List.mem_cons_self
  all_goals
    rename_i opcode
    rw [opcode]
    (repeat' split) <;> decide

/-- What relates each entry of the table, and the unknown one, to all its operations relates the
descriptor of every word to the operation that the word decodes to. -/
theorem decode_operation {motive : Descriptor → Opcode → Prop}
    (known : ∀ entry ∈ Descriptor.table, ∀ opcode ∈ entry.operations, motive entry opcode)
    (otherwise : motive .unknown .unknown) (address word : UInt32) :
    motive (Descriptor.lookup word) (decode address word).opcode := by
  have all : ∀ opcode ∈ (Descriptor.lookup word).operations,
      motive (Descriptor.lookup word) opcode := by
    refine Descriptor.lookup_ind
      (motive := fun entry => ∀ opcode ∈ entry.operations, motive entry opcode) known ?_ word
    intro opcode member
    obtain rfl : opcode = .unknown := List.mem_singleton.mp member
    exact otherwise
  exact all _ (simplifiedOpcode_mem (decodeBase address word))

/-- What holds of all operations of the table, and of the unknown one, holds of all words. -/
theorem decode_ind {motive : Group → Format → Opcode → Prop}
    (known : ∀ entry ∈ Descriptor.table, ∀ opcode ∈ entry.operations,
      motive entry.group entry.format opcode)
    (otherwise : motive .unknown .unknown .unknown) (address word : UInt32) :
    motive (decode address word).group (decode address word).format
      (decode address word).opcode :=
  decode_operation (motive := fun entry opcode => motive entry.group entry.format opcode) known
    otherwise address word

/-- The instructions without code: words that encode nothing, the return from an interrupt,
arithmetic that sets the overflow bits, and moves of other special registers than the link register,
the counter, the exception register and the vector save register. -/
def LacksCode (insn : Instruction) : Prop :=
  insn.isUnknown ∨ insn.opcode = .rfid ∨ insn.format = .xo ∧ insn.oe ∨
    (insn.opcode = .mfspr ∨ insn.opcode = .mtspr) ∧
      insn.spr ∉ [sprLr, sprCtr, sprXer, sprVrsave]

instance decidableLacksCode : DecidablePred LacksCode := fun insn =>
  inferInstanceAs (Decidable (_ ∨ _ ∨ _ ∧ _ ∨ (_ ∨ _) ∧ insn.spr ∉ _))

end Instruction

/-! ## Builders -/

@[simp, grind =]
theorem Lifted.body_ofActions (requests : List Register) (actions : List Action) :
    (ofActions requests actions).body = some (actions.map .act) :=
  rfl

@[simp, grind =]
theorem Lifted.body_missing (requests : List Register) : (missing requests).body = none :=
  rfl

namespace Lift

/-- Operands with which no operation but the return from an interrupt lacks code. -/
structure Ordinary (insn : Instruction) : Prop where
  direct : insn.opcode ∈ [Opcode.b, .bl, .bc, .bcl] → insn.target.isSome
  trap : insn.isUnconditionalTrap → insn.opcode ∈ [Opcode.tdi, .twi, .tw, .td]
  special : insn.opcode = .mfspr ∨ insn.opcode = .mtspr →
    insn.spr = Instruction.sprXer ∨ insn.spr = Instruction.sprVrsave
  overflow : ¬ (insn.format = .xo ∧ insn.oe)

theorem trap_isSome {insn : Instruction} (ordinary : Ordinary insn) :
    (trap insn).body.isSome = (insn.opcode ∈ [Opcode.tdi, .twi, .tw, .td] : Bool) := by
  unfold trap
  split
  next always => simpa using ordinary.trap always
  next => split <;> simp_all <;> split <;> rfl

theorem conditionRegister_isSome (insn : Instruction) :
    (conditionRegister insn).body.isSome = (insn.opcode ∈ [Opcode.mcrf, .mfcr, .mtcrf] ∨
      (bitOperation insn.opcode (.crBit insn.ra) (.crBit insn.rb)).isSome : Bool) := by
  unfold conditionRegister
  split
  · simp_all
  · simp_all
    rfl
  · simp_all
  · split <;> simp_all

theorem arithmetic_isSome {insn : Instruction} (plain : ¬ (insn.format = .xo ∧ insn.oe)) :
    (arithmetic insn).body.isSome = (arithmeticActions insn).isSome := by
  rw [arithmetic, if_neg plain]
  split
  · split <;> simp_all [recorded]
  · simp_all

theorem rotate_isSome (insn : Instruction) :
    (rotate insn).body.isSome = (rotation insn).isSome := by
  unfold rotate
  split <;> simp_all [recorded]

theorem shift_isSome (insn : Instruction) :
    (shift insn).body.isSome = (shiftActions insn).isSome := by
  unfold shift
  split <;> simp_all [recorded]

theorem logical_isSome (insn : Instruction) :
    (logical insn).body.isSome = (insn.opcode == .nop || (logicalValue insn).isSome) := by
  unfold logical
  split
  · simp_all
  · split
    · split <;> simp_all [recorded]
    · simp_all

theorem compare_isSome (insn : Instruction) :
    (compare insn).body.isSome = (comparison insn).isSome := by
  unfold compare
  split <;> simp_all

theorem floatArithmetic_isSome (insn : Instruction) :
    (floatArithmetic insn).body.isSome = (floatValue insn).isSome := by
  unfold floatArithmetic
  split <;> simp_all

theorem vectorLoad_isSome (io : Bool) (insn : Instruction) :
    (vectorLoad io insn).body.isSome = (vectorLoadValue io insn.opcode).isSome := by
  unfold vectorLoad
  split <;> simp_all

theorem vectorStore_isSome (io : Bool) (insn : Instruction) :
    (vectorStore io insn).body.isSome =
      (vectorStoreShape insn.opcode (.vr (vectorOperand insn))).isSome := by
  unfold vectorStore
  split <;> simp_all

theorem float_isSome (insn : Instruction) :
    (float insn).body.isSome =
      match insn.group with
      | .floatArithmetic => (floatArithmetic insn).body.isSome
      | .floatMove => (floatMove insn).body.isSome
      | .floatCompare => (floatCompare insn).body.isSome
      | .floatControl => (floatControl insn).body.isSome
      | _ => false := by
  unfold float
  split <;> split <;> simp_all

section Operation

/-! Instructions of one operation both have code or both have none. -/

variable {insn other : Instruction} (same : insn.opcode = other.opcode)
include same

theorem branch_congr (flow flow' : Flow) (table table' : Option JumpTable)
    (ordinary : Ordinary insn) (ordinary' : Ordinary other) :
    (branch flow table insn).body.isSome = (branch flow' table' other).body.isSome := by
  have direct := ordinary.direct
  have direct' := ordinary'.direct
  unfold branch
  rw [same] at direct ⊢
  split <;>
    simp_all [underCondition, linked, indirectJump, Option.isSome_iff_exists, Flow.targetOf] <;>
    grind

theorem trap_congr (ordinary : Ordinary insn) (ordinary' : Ordinary other) :
    (trap insn).body.isSome = (trap other).body.isSome := by
  rw [trap_isSome ordinary, trap_isSome ordinary', same]

theorem system_congr (config config' : Config) :
    (system config insn).body.isSome = (system config' other).body.isSome := by
  unfold system
  rw [same]
  cases config.skipMsr <;> cases config'.skipMsr <;> split <;> simp_all

theorem conditionRegister_congr :
    (conditionRegister insn).body.isSome = (conditionRegister other).body.isSome := by
  rw [conditionRegister_isSome, conditionRegister_isSome, same]
  unfold bitOperation
  split <;> rfl

theorem specialRegister_congr (config config' : Config) (ordinary : Ordinary insn)
    (ordinary' : Ordinary other) :
    (specialRegister config insn).body.isSome = (specialRegister config' other).body.isSome := by
  have special := ordinary.special
  have special' := ordinary'.special
  unfold specialRegister
  rw [same] at special ⊢
  cases config.skipLr <;> cases config'.skipLr <;> split <;> simp_all <;> grind

theorem arithmetic_congr (ordinary : Ordinary insn) (ordinary' : Ordinary other) :
    (arithmetic insn).body.isSome = (arithmetic other).body.isSome := by
  rw [arithmetic_isSome ordinary.overflow, arithmetic_isSome ordinary'.overflow]
  unfold arithmeticActions
  rw [same]
  split <;> simp_all

theorem logical_congr : (logical insn).body.isSome = (logical other).body.isSome := by
  rw [logical_isSome, logical_isSome, same]
  unfold logicalValue
  rw [same]
  split <;> simp_all

theorem compare_congr : (compare insn).body.isSome = (compare other).body.isSome := by
  rw [compare_isSome, compare_isSome]
  unfold comparison
  rw [same]
  cases insn.wideCompare <;> cases other.wideCompare <;> split <;> simp_all

theorem rotate_congr : (rotate insn).body.isSome = (rotate other).body.isSome := by
  rw [rotate_isSome, rotate_isSome]
  unfold rotation
  rw [same]
  split <;> simp_all

theorem shift_congr : (shift insn).body.isSome = (shift other).body.isSome := by
  rw [shift_isSome, shift_isSome]
  unfold shiftActions
  rw [same]
  split <;> simp_all

theorem integerLoad_congr (io io' : Bool) :
    (integerLoad io insn).body.isSome = (integerLoad io' other).body.isSome := by
  unfold integerLoad
  rw [same]
  split <;> simp_all [loadReserved]
  split <;> simp_all

theorem integerStore_congr (io io' : Bool) :
    (integerStore io insn).body.isSome = (integerStore io' other).body.isSome := by
  unfold integerStore
  rw [same]
  split <;> simp_all [storeConditional]
  split <;> simp_all

theorem floatLoad_congr (io io' : Bool) :
    (floatLoad io insn).body.isSome = (floatLoad io' other).body.isSome := by
  unfold floatLoad
  rw [same]
  split <;> simp_all

theorem floatStore_congr (io io' : Bool) :
    (floatStore io insn).body.isSome = (floatStore io' other).body.isSome := by
  unfold floatStore
  rw [same]
  split <;> simp_all

theorem vectorLoad_congr (io io' : Bool) :
    (vectorLoad io insn).body.isSome = (vectorLoad io' other).body.isSome := by
  rw [vectorLoad_isSome, vectorLoad_isSome]
  unfold vectorLoadValue
  rw [same]
  split <;> simp_all

theorem vectorStore_congr (io io' : Bool) :
    (vectorStore io insn).body.isSome = (vectorStore io' other).body.isSome := by
  rw [vectorStore_isSome, vectorStore_isSome]
  unfold vectorStoreShape
  rw [same]
  split <;> simp_all

theorem cache_congr : (cache insn).body.isSome = (cache other).body.isSome := by
  unfold cache
  rw [same]
  split <;> simp_all

theorem floatArithmetic_congr :
    (floatArithmetic insn).body.isSome = (floatArithmetic other).body.isSome := by
  rw [floatArithmetic_isSome, floatArithmetic_isSome]
  unfold floatValue
  rw [same]
  split <;> simp_all

theorem floatMove_congr : (floatMove insn).body.isSome = (floatMove other).body.isSome := by
  unfold floatMove
  rw [same]
  split <;> simp_all

theorem floatCompare_congr :
    (floatCompare insn).body.isSome = (floatCompare other).body.isSome := by
  unfold floatCompare
  rw [same]
  split <;> simp_all

theorem floatControl_congr :
    (floatControl insn).body.isSome = (floatControl other).body.isSome := by
  unfold floatControl
  rw [same]
  split <;> simp_all [writeStatus]

theorem float_congr (group : insn.group = other.group) :
    (float insn).body.isSome = (float other).body.isSome := by
  rw [float_isSome, float_isSome, group]
  split
  · exact floatArithmetic_congr same
  · exact floatMove_congr same
  · exact floatCompare_congr same
  · exact floatControl_congr same
  · rfl

theorem vectorControl_congr :
    (vectorControl insn).body.isSome = (vectorControl other).body.isSome := by
  unfold vectorControl
  rw [same]
  split <;> simp_all

theorem vector_congr (group : insn.group = other.group) :
    (vector insn).body.isSome = (vector other).body.isSome := by
  unfold vector
  rw [group]
  split
  · exact vectorControl_congr same
  all_goals rfl

theorem lift_congr (flow flow' : Flow) (table table' : Option JumpTable) (io io' : Bool)
    (group : insn.group = other.group) (ordinary : Ordinary insn) (ordinary' : Ordinary other) :
    (flow.lift table io insn).body.isSome = (flow'.lift table' io' other).body.isSome := by
  unfold Flow.lift
  rw [group]
  split
  · exact branch_congr same flow flow' table table' ordinary ordinary'
  · exact trap_congr same ordinary ordinary'
  · exact system_congr same flow.config flow'.config
  · exact conditionRegister_congr same
  · exact specialRegister_congr same flow.config flow'.config ordinary ordinary'
  · exact arithmetic_congr same ordinary ordinary'
  · exact logical_congr same
  · exact compare_congr same
  · exact rotate_congr same
  · exact shift_congr same
  · exact integerLoad_congr same io io'
  · exact integerStore_congr same io io'
  · exact floatLoad_congr same io io'
  · exact floatStore_congr same io io'
  · exact vectorLoad_congr same io io'
  · exact vectorStore_congr same io io'
  · exact cache_congr same
  iterate 4 exact float_congr same group
  iterate 4 exact vector_congr same group
  · rfl

end Operation

/-! ## All operations -/

/-- An instruction of an operation with operands that never matter. -/
def sample (group : Group) (opcode : Opcode) : Instruction :=
  ⟨0, 0x00010000, opcode, .d, group, some 0⟩

theorem sample_ordinary (group : Group) (opcode : Opcode) : Ordinary (sample group opcode) where
  direct _ := rfl
  trap always := by
    have never : (sample group opcode).trapCondition = 0 := by
      change Field.rd.read 0x00010000 = 0
      decide
    simp [Instruction.isUnconditionalTrap, never] at always
  special _ := by
    have exception : (sample group opcode).spr = Instruction.sprXer := by
      change Field.spr.read 0x00010000 = 1
      decide
    exact Or.inl exception
  overflow both := by simp [sample] at both

/-- A function without code and without anything configured. -/
def blankFlow : Flow :=
  { graph := {}, node := { address := 0, size := 0, authority := .discovered }
    layout := default, config := {} }

/-- The builder of a group knows the operations that the table gives the group. -/
theorem lift_sample : ∀ entry ∈ Descriptor.table, ∀ opcode ∈ entry.operations, opcode ≠ .rfid →
    (blankFlow.lift none false (sample entry.group opcode)).body.isSome := by
  decide +kernel

end Lift

namespace Instruction

variable {address word : UInt32}

/-- Moves of the link register and the counter have forms of their own. -/
theorem decode_move (move : (decode address word).opcode = .mfspr ∨
      (decode address word).opcode = .mtspr) :
    (decode address word).spr ≠ sprLr ∧ (decode address word).spr ≠ sprCtr := by
  change (decodeBase address word).spr ≠ sprLr ∧ (decodeBase address word).spr ≠ sprCtr
  change (decodeBase address word).simplifiedOpcode = .mfspr ∨
    (decodeBase address word).simplifiedOpcode = .mtspr at move
  unfold simplifiedOpcode at move
  grind

/-- The groups of what lacks code, and the formats of direct branches. -/
theorem decode_group (address word : UInt32) :
    let insn := decode address word
    (insn.group = .unknown ↔ insn.opcode = .unknown) ∧
      (insn.opcode = .rfid → insn.group = .system) ∧
      (insn.format = .xo → insn.group = .intArithmetic) ∧
      (insn.opcode = .mfspr ∨ insn.opcode = .mtspr → insn.group = .specialRegister) ∧
      (insn.opcode ∈ [Opcode.b, .bl, .bc, .bcl] → insn.format = .i ∨ insn.format = .b) :=
  decode_ind (motive := fun group format opcode => (group = .unknown ↔ opcode = .unknown) ∧
      (opcode = .rfid → group = .system) ∧ (format = .xo → group = .intArithmetic) ∧
      (opcode = .mfspr ∨ opcode = .mtspr → group = .specialRegister) ∧
      (opcode ∈ [Opcode.b, .bl, .bc, .bcl] → format = .i ∨ format = .b))
    (by decide +kernel) (by decide) address word

theorem decode_ordinary (coded : ¬ (decode address word).LacksCode) :
    Lift.Ordinary (decode address word) := by
  simp only [LacksCode, not_or, not_and, not_not] at coded
  obtain ⟨_, _, overflow, special⟩ := coded
  refine ⟨?_, ?_, ?_, fun both => overflow both.1 both.2⟩
  · intro direct
    exact (target_isSome_iff address word).mpr ((decode_group address word).2.2.2.2 direct)
  · intro always
    simp only [isUnconditionalTrap, Bool.and_eq_true, beq_iff_eq] at always
    exact decode_trap always.1
  · intro move
    have known := special move
    simp only [List.mem_cons, List.not_mem_nil, or_false] at known
    rcases known with link | counter | exception | save
    · exact absurd link (decode_move move).1
    · exact absurd counter (decode_move move).2
    · exact Or.inl exception
    · exact Or.inr save

theorem lift_of_lacksCode (flow : Flow) (table : Option JumpTable) (io : Bool)
    (lacks : (decode address word).LacksCode) :
    (flow.lift table io (decode address word)).body = none := by
  obtain ⟨unknown, interrupt, arithmetic, special, -⟩ := decode_group address word
  rcases lacks with nothing | opcode | ⟨format, overflow⟩ | ⟨move, other⟩
  · simp [Flow.lift, unknown.mpr (beq_iff_eq.mp nothing)]
  · simp [Flow.lift, interrupt opcode, Lift.system, opcode]
  · simp [Flow.lift, arithmetic format, Lift.arithmetic, format, overflow]
  · simp only [List.mem_cons, List.not_mem_nil, or_false, not_or] at other
    simp only [Flow.lift, special move]
    rcases move with opcode | opcode <;> simp [Lift.specialRegister, opcode, other]

theorem lift_of_coded (flow : Flow) (table : Option JumpTable) (io : Bool)
    (coded : ¬ (decode address word).LacksCode) :
    (flow.lift table io (decode address word)).body.isSome := by
  set insn := decode address word
  have ordinary : Lift.Ordinary insn := decode_ordinary coded
  rw [LacksCode, not_or, not_or] at coded
  have known : insn.opcode ≠ .unknown := fun unknown => coded.1 (beq_iff_eq.mpr unknown)
  let sample := Lift.sample insn.group insn.opcode
  have sampled : (Lift.blankFlow.lift none false sample).body.isSome :=
    decode_ind (motive := fun group _ opcode => opcode ≠ .unknown → opcode ≠ .rfid →
        (Lift.blankFlow.lift none false (Lift.sample group opcode)).body.isSome)
      (fun entry member opcode among _ => Lift.lift_sample entry member opcode among)
      (fun known => absurd rfl known) address word known coded.2.1
  have same : insn.opcode = sample.opcode := rfl
  rw [← sampled]
  exact Lift.lift_congr same flow Lift.blankFlow table none io false rfl ordinary
    (Lift.sample_ordinary insn.group insn.opcode)

theorem lift_body_eq_none_iff (flow : Flow) (table : Option JumpTable) (io : Bool)
    (address word : UInt32) :
    (flow.lift table io (decode address word)).body = none ↔ (decode address word).LacksCode := by
  refine ⟨?_, lift_of_lacksCode flow table io⟩
  intro missing
  by_contra coded
  have known := lift_of_coded flow table io coded
  simp [missing] at known

/-- What is recorded of instructions: those without code, by address. -/
def lacking (instructions : List Instruction) : List (UInt32 × Opcode) :=
  (instructions.filter (LacksCode ·)).map fun insn => (insn.address, insn.opcode)

theorem lacking_append (first second : List Instruction) :
    lacking (first ++ second) = lacking first ++ lacking second := by
  simp [lacking]

theorem lacking_flatMap {α : Type} (items : List α) (instructions : α → List Instruction) :
    lacking (items.flatMap instructions) =
      items.flatMap fun item => lacking (instructions item) := by
  simp [lacking, List.filter_flatMap, List.map_flatMap]

theorem lacking_isEmpty (instructions : List Instruction) :
    (lacking instructions).isEmpty ↔ ∀ insn ∈ instructions, ¬ insn.LacksCode := by
  simp [lacking]

end Instruction

/-! ## Records -/

namespace Flow

theorem emitInstruction_unimplemented (flow : Flow) (next : Option Instruction) (state : Knowledge)
    (address word : UInt32) :
    (flow.emitInstruction next state (Instruction.decode address word)).1.unimplemented =
      Instruction.lacking [Instruction.decode address word] := by
  set insn := Instruction.decode address word
  have modes : ∀ state wanted, (emitMode state wanted).1.unimplemented = [] := by
    intro state wanted
    cases wanted <;> rfl
  have own : (flow.emitInstruction next state insn).1.unimplemented =
      (emitMode (flow.ready state insn) (flow.liftedAt next state insn).mode).1.unimplemented ++
        ((emitBody insn (flow.liftedAt next state insn)).unimplemented ++ []) := rfl
  have exact : (flow.liftedAt next state insn).body = none ↔ insn.LacksCode :=
    Instruction.lift_body_eq_none_iff flow _ _ address word
  rw [own, modes, List.nil_append, List.append_nil, emitBody]
  split
  next found =>
    have coded : ¬ insn.LacksCode := fun lacks => by simp [exact.mpr lacks] at found
    simp [Instruction.lacking, coded]
  next missing => simp [Instruction.lacking, exact.mp missing]

theorem emitInstructions_unimplemented (flow : Flow) (nextOf : Instruction → Option Instruction)
    {instructions : List Instruction}
    (decoded : ∀ insn ∈ instructions, ∃ word, insn = Instruction.decode insn.address word)
    (state : Knowledge) :
    (flow.emitInstructions nextOf state instructions).unimplemented =
      Instruction.lacking instructions := by
  induction instructions generalizing state with
  | nil => rfl
  | cons insn rest ih =>
      obtain ⟨⟨word, found⟩, others⟩ := List.forall_mem_cons.mp decoded
      have first := flow.emitInstruction_unimplemented (nextOf insn) state insn.address word
      rw [← found] at first
      rw [← List.singleton_append, Instruction.lacking_append, ← first, ← ih others]
      rfl

end Flow

namespace Program

/-- The code of a function records the instructions of its blocks that lack code. -/
theorem emit_unimplemented (program : Program) (graph : Graph) {node : FunctionNode}
    {instructions : List Instruction} (decodes : program.instructionsOf node = .ok instructions) :
    (program.emit graph node instructions).unimplemented = Instruction.lacking
      ((program.flowOf graph node instructions).layout.blocks.flatMap (·.instructions)) := by
  set flow := program.flowOf graph node instructions
  have each : ∀ block ∈ flow.layout.blocks,
      (flow.emitBlock (nextIn instructions) block).unimplemented =
        Instruction.lacking block.instructions := by
    intro block member
    refine (List.append_nil _).trans (flow.emitInstructions_unimplemented _ ?_ {})
    intro insn found
    obtain ⟨word, _, same⟩ :=
      Image.read_of_mem_instructions decodes (Flow.mem_of_mem_block rfl member found)
    exact ⟨word, same⟩
  have own : (program.emit graph node instructions).unimplemented =
      flow.layout.blocks.flatMap fun block =>
        (flow.emitBlock (nextIn instructions) block).unimplemented :=
    List.flatMap_map ..
  rw [own, List.flatMap_congr each, Instruction.lacking_flatMap]

/-- An instruction has no code exactly if it is one of those listed, wherever it stands. It is then
recorded in its function, which nothing else makes partial. -/
theorem unimplemented_exact :
    (∀ (flow : Flow) (table : Option JumpTable) (io : Bool) (address word : UInt32),
      (flow.lift table io (Instruction.decode address word)).body = none ↔
        (Instruction.decode address word).LacksCode) ∧
    (∀ (flow : Flow) (next : Option Instruction) (state : Knowledge) (address word : UInt32),
      let insn := Instruction.decode address word
      (flow.emitInstruction next state insn).1.unimplemented =
        if insn.LacksCode then [(address, insn.opcode)] else []) ∧
    ∀ (program : Program) (graph : Graph) (node : FunctionNode) (function : EmittedFunction),
      program.emitFunction graph node = .ok function →
      ∃ instructions, program.instructionsOf node = .ok instructions ∧
        let translated :=
          (program.flowOf graph node instructions).layout.blocks.flatMap (·.instructions)
        function.unimplemented = ((translated.filter (Instruction.LacksCode ·)).map
          fun insn => (insn.address, insn.opcode)) ∧
        (function.isPartial ↔ ∃ insn ∈ translated, insn.LacksCode) := by
  refine ⟨Instruction.lift_body_eq_none_iff, ?_, ?_⟩
  · intro flow next state address word insn
    rw [flow.emitInstruction_unimplemented next state address word]
    change Instruction.lacking [insn] = if insn.LacksCode then [(insn.address, insn.opcode)] else []
    split <;> simp_all [Instruction.lacking]
  · intro program graph node function emitted
    cases decodes : program.instructionsOf node with
    | error error =>
        rw [emitFunction, decodes] at emitted
        cases emitted
    | ok instructions =>
        rw [emitFunction, decodes] at emitted
        cases emitted
        have records := program.emit_unimplemented graph decodes
        refine ⟨instructions, rfl, records, ?_⟩
        change (!(program.emit graph node instructions).unimplemented.isEmpty) = true ↔ _
        rw [records, Bool.not_eq_true', ← Bool.not_eq_true, Instruction.lacking_isEmpty]
        push Not
        rfl

/-! A sum that sets the overflow bits, and a return. -/

def overflowProgram : Program where
  image := Image.ofCode 0x1000 #[0x7C, 0x64, 0x2E, 0x14, 0x4E, 0x80, 0x00, 0x20]
  config := {}

def overflowNode : FunctionNode :=
  { address := 0x1000, size := 8, authority := .discovered }

def overflowCode : List Instruction :=
  [Instruction.decode 0x1000 0x7C642E14, Instruction.decode 0x1004 0x4E800020]

theorem overflowProgram_translated :
    (overflowProgram.flowOf {} overflowNode overflowCode).layout.blocks.flatMap (·.instructions) =
      overflowCode := by
  have plain : Graph.withChunks {} overflowNode = overflowNode := by
    change { overflowNode with blocks := Span.mergeOverlapping [] } = _
    rw [Span.mergeOverlapping, List.mergeSort_nil]
    rfl
  rw [flowOf, plain]
  decide +kernel

/-- The sum has no code, and the function is partial. -/
theorem overflowProgram_partial :
    ∃ function, overflowProgram.emitFunction {} overflowNode = .ok function ∧
      function.unimplemented = [(0x1000, .add)] ∧ function.isPartial := by
  have decodes : overflowProgram.instructionsOf overflowNode = .ok overflowCode := rfl
  have emitted : overflowProgram.emitFunction {} overflowNode =
      .ok (overflowProgram.emit {} overflowNode overflowCode) := rfl
  obtain ⟨instructions, found, records, isPartial⟩ :=
    unimplemented_exact.2.2 overflowProgram {} overflowNode _ emitted
  obtain rfl : overflowCode = instructions := Except.ok.inj (decodes.symm.trans found)
  rw [overflowProgram_translated] at records isPartial
  refine ⟨_, emitted, records.trans (by decide +kernel), isPartial.mpr ?_⟩
  exact ⟨Instruction.decode 0x1000 0x7C642E14, List.mem_cons_self, by decide +kernel⟩

end Program

end PowerLift
