import Mathlib
import PowerLift.Proofs.EffectsCover
import PowerLift.Proofs.Positions

/-!
Base registers of device accesses. A register is tracked from the load of a page address on, up to
the next instruction that writes it. It holds the address for as long as nothing else changes it:
a hook that writes its copy back, the call that saves the context, or the access itself, where it
loads several words and the base register is among their targets.
-/

namespace PowerLift

/-! ## Device accesses -/

def Routine.isDevice : Routine → Bool
  | load io _ | store io _ => io
  | _ => false

def Expr.accessesDevice : Expr → Bool
  | reg _ | var _ | lit _ | nothing => false
  | paren inner | cast inner _ | unary _ inner | member inner _ => inner.accessesDevice
  | binary _ left right => left.accessesDevice || right.accessesDevice
  | method receiver _ arguments => receiver.accessesDevice || arguments.accessesDevice
  | call routine arguments => routine.isDevice || arguments.accessesDevice
  | choice condition yes no =>
    condition.accessesDevice || yes.accessesDevice || no.accessesDevice
  | comma first rest => first.accessesDevice || rest.accessesDevice

def Action.accessesDevice : Action → Bool
  | declare _ _ value => value.accessesDevice
  | assign place value => place.accessesDevice || value.accessesDevice
  | perform effect => effect.accessesDevice

def Stmt.accessesDevice : Stmt → Bool
  | act action => action.accessesDevice
  | _ => false

/-- Loads and stores. -/
def Instruction.AccessesMemory (insn : Instruction) : Prop :=
  insn.group = .intLoad ∨ insn.group = .intStore ∨ insn.group = .floatLoad ∨
    insn.group = .floatStore ∨ insn.group = .vectorLoad ∨ insn.group = .vectorStore

@[simp] theorem Expr.assigned_invokeGuest (routine : Routine) (arguments : List Expr) :
    (invokeGuest routine arguments).assigned = arguments.flatMap assigned := by
  simp [invokeGuest, assigned, context, memory]

/-! ## Changes by other code -/

/-- The call that saves the context, whose result is in a register. -/
def Flow.saveContext : Action :=
  .assign (.gpr 3) (.invokeGuest .setjmp [])

/-- Whether registers are changed by other code: that of a hook, or of the call that saves the
context. -/
def Stmt.IsForeign : Stmt → Prop
  | hook _ => True
  | act action => action = Flow.saveContext
  | guard _ actions _ => Flow.saveContext ∈ actions
  | _ => False

/-- Whether only other code changes general registers. -/
def Stmt.Spares (stmt : Stmt) : Prop :=
  ∀ number, .gpr number ∈ stmt.assigned → stmt.IsForeign

theorem Stmt.spares_of_plain {stmt : Stmt} (plain : ∀ number, .gpr number ∉ stmt.assigned) :
    stmt.Spares :=
  fun number changed => absurd changed (plain number)

theorem Stmt.guarded_spares {condition : Option Expr} {actions : List Action} {exit : Option Exit}
    (tests : ∀ test ∈ condition, test.assigned = [])
    (spares : ∀ action ∈ actions, (act action).Spares)
    (exits : ∀ leaving ∈ exit, leaving.assigned = []) :
    ∀ stmt ∈ guarded condition actions exit, stmt.Spares := by
  intro stmt member
  cases condition with
  | none =>
      rcases List.mem_append.mp member with acted | left
      · obtain ⟨action, among, rfl⟩ := List.mem_map.mp acted
        exact spares action among
      · obtain ⟨leaving, among, rfl⟩ := List.mem_map.mp left
        apply spares_of_plain
        intro number
        simp [assigned, exits leaving (Option.mem_toList.mp among)]
  | some test =>
      obtain rfl := List.mem_singleton.mp member
      intro number changed
      have leaves : exit.toList.flatMap Exit.assigned = [] := by
        cases exit with
        | none => rfl
        | some leaving => simpa using exits leaving rfl
      rw [assigned, tests test rfl, leaves, List.nil_append, List.append_nil] at changed
      obtain ⟨action, among, own⟩ := List.mem_flatMap.mp changed
      obtain rfl : action = Flow.saveContext := spares action among number own
      exact among

namespace Flow

theorem callee_assigned (flow : Flow) (address : UInt32) : (flow.callee address).assigned = [] := by
  unfold callee
  repeat' split
  all_goals rfl

theorem exitTo_assigned (flow : Flow) (address : UInt32) : (flow.exitTo address).assigned = [] := by
  unfold exitTo
  split
  · rfl
  · exact flow.callee_assigned address

theorem setLink_spares {flow : Flow} {insn : Instruction} :
    ∀ action ∈ flow.setLink insn, (Stmt.act action).Spares := by
  unfold setLink
  split
  · simp
  · rw [List.forall_mem_singleton]
    apply Stmt.spares_of_plain
    simp [Stmt.assigned, Action.assigned, Expr.lr, Expr.registers, Expr.wordHex, Expr.assigned]

theorem callActions_spares {flow : Flow} {insn : Instruction} {address : UInt32} :
    ∀ action ∈ flow.callActions insn address, (Stmt.act action).Spares := by
  refine List.forall_mem_append.mpr ⟨setLink_spares, List.forall_mem_singleton.mpr ?_⟩
  split
  · exact fun _ _ => rfl
  · apply Stmt.spares_of_plain
    split
    · simp [Stmt.assigned, Action.assigned]
    · simp [Stmt.assigned, Action.assigned, callee_assigned]

end Flow

namespace Lift

theorem branchCondition_spares (insn : Instruction) :
    (∀ action ∈ (branchCondition insn).1, (Stmt.act action).Spares) ∧
      ∀ test ∈ (branchCondition insn).2, test.assigned = [] := by
  have counter : (∀ action ∈ (counterTest insn).1, (Stmt.act action).Spares) ∧
      (counterTest insn).2.flatMap Expr.assigned = [] := by
    unfold counterTest
    split
    · simp
    · refine ⟨List.forall_mem_singleton.mpr ?_, by split <;> rfl⟩
      apply Stmt.spares_of_plain
      simp [Stmt.assigned, Action.assigned, Expr.ctr, Expr.registers, Expr.send, Expr.assigned,
        Expr.decimal, Method.mutates]
  have bit : (bitTest insn).flatMap Expr.assigned = [] := by
    unfold bitTest
    repeat' split
    all_goals rfl
  refine ⟨counter.1, fun test found => ?_⟩
  have joined : Expr.joined .both ((counterTest insn).2 ++ bitTest insn) = some test := found
  rw [(joined_registers joined).2, List.flatMap_append, counter.2, bit, List.append_nil]

theorem underCondition_spares {insn : Instruction} {actions : List Action} {exit : Option Exit}
    (spares : ∀ action ∈ actions, (Stmt.act action).Spares)
    (exits : ∀ leaving ∈ exit, leaving.assigned = []) :
    ∀ stmt ∈ (underCondition insn actions exit).body.getD [], stmt.Spares := by
  obtain ⟨before, tests⟩ := branchCondition_spares insn
  exact List.forall_mem_append.mpr
    ⟨List.forall_mem_map.mpr before, Stmt.guarded_spares tests spares exits⟩

theorem indirectJump_spares {flow : Flow} {table : Option JumpTable} {before : List Action}
    {condition : Option Expr} (counts : ∀ action ∈ before, (Stmt.act action).Spares)
    (tests : ∀ test ∈ condition, test.assigned = []) :
    ∀ stmt ∈ (indirectJump flow table before condition).body.getD [], stmt.Spares := by
  cases table with
  | none =>
      refine List.forall_mem_append.mpr
        ⟨List.forall_mem_map.mpr counts, Stmt.guarded_spares tests (by simp) ?_⟩
      simp [Exit.assigned, Expr.assigned, Expr.ctr]
  | some table =>
      have exits : (table.targets.map flow.exitTo).flatMap Exit.assigned = [] := by
        simp [List.flatMap_map, Flow.exitTo_assigned]
      have condition : condition.toList.flatMap Expr.assigned = [] := by
        simpa using tests
      refine List.forall_mem_append.mpr
        ⟨List.forall_mem_map.mpr counts, List.forall_mem_singleton.mpr ?_⟩
      apply Stmt.spares_of_plain
      rw [Stmt.assigned, exits, condition]
      simp [Expr.gpr, Expr.ctr, Expr.assigned, Exit.assigned]

theorem linkCall_spares {flow : Flow} {insn : Instruction} :
    ∀ action ∈ linkCall flow insn, (Stmt.act action).Spares := by
  simp only [linkCall, List.forall_mem_append, List.forall_mem_singleton]
  refine ⟨⟨?_, Flow.setLink_spares⟩, ?_⟩
  · apply Stmt.spares_of_plain
    simp [Stmt.assigned, Action.assigned, Expr.lr, Expr.assigned]
  · apply Stmt.spares_of_plain
    simp [Stmt.assigned, Action.assigned, Expr.target, Expr.assigned]

theorem counterCall_spares {flow : Flow} {insn : Instruction} :
    ∀ action ∈ counterCall flow insn, (Stmt.act action).Spares := by
  simp only [counterCall, List.forall_mem_append, List.forall_mem_singleton]
  refine ⟨Flow.setLink_spares, ?_⟩
  apply Stmt.spares_of_plain
  simp [Stmt.assigned, Action.assigned, Expr.ctr, Expr.assigned]

theorem branch_spares {flow : Flow} {table : Option JumpTable} {insn : Instruction} :
    ∀ stmt ∈ (branch flow table insn).body.getD [], stmt.Spares := by
  have leaves : ∀ address, ∀ leaving ∈ some (flow.exitTo address), leaving.assigned = [] := by
    rintro address _ ⟨⟩
    exact flow.exitTo_assigned address
  have returns : ∀ leaving ∈ some Exit.ret, leaving.assigned = [] := by
    rintro _ ⟨⟩
    rfl
  have transfers : ∀ exit : Exit, exit.assigned = [] →
      ∀ stmt ∈ [Stmt.transfer exit], stmt.Spares := by
    intro exit plain
    rw [List.forall_mem_singleton]
    apply Stmt.spares_of_plain
    simp [Stmt.assigned, plain]
  have stays : ∀ leaving ∈ (none : Option Exit), leaving.assigned = [] := by simp
  unfold branch
  split
  case h_1 =>
    split
    next target _ => exact transfers _ (flow.exitTo_assigned target)
    next => simp [Lifted.missing]
  case h_2 =>
    split
    next => exact List.forall_mem_map.mpr Flow.callActions_spares
    next => simp [Lifted.missing]
  case h_3 =>
    split
    next target _ => exact underCondition_spares (by simp) (leaves target)
    next => simp [Lifted.missing]
  case h_4 =>
    split
    next =>
      split
      · exact underCondition_spares Flow.setLink_spares stays
      · exact underCondition_spares Flow.callActions_spares stays
    next => simp [Lifted.missing]
  case h_5 => exact transfers _ rfl
  case h_6 =>
    split
    · exact underCondition_spares linkCall_spares stays
    · exact underCondition_spares (by simp) returns
  case h_7 => exact underCondition_spares linkCall_spares stays
  case h_8 => exact indirectJump_spares (by simp) (by simp)
  case h_9 =>
    split
    · exact underCondition_spares counterCall_spares stays
    · obtain ⟨before, tests⟩ := branchCondition_spares insn
      exact indirectJump_spares before tests
  case h_10 => exact underCondition_spares counterCall_spares stays
  case h_11 => simp [Lifted.missing]

end Lift

/-! ## Changes by an instruction -/

theorem Instruction.Covers.writesGpr {insn : Instruction} {stmts : List Stmt}
    (covers : insn.Covers stmts) {stmt : Stmt} (member : stmt ∈ stmts) {number : Nat}
    (changed : .gpr number ∈ stmt.assigned) : number ∈ insn.effects.writesGpr :=
  mem_writesGpr.mpr (covers.writes _ (List.mem_flatMap.mpr ⟨stmt, member, changed⟩) rfl)

theorem Lift.float_writesGpr {insn : Instruction} (group : insn.group = .floatCompare)
    {stmts : List Stmt} (accepted : (float insn).body = some stmts) {stmt : Stmt}
    (member : stmt ∈ stmts) {number : Nat} (changed : .gpr number ∈ stmt.assigned) :
    number ∈ insn.effects.writesGpr := by
  obtain ⟨own, found, rfl⟩ := body_append_if accepted
  simp only [group] at found
  rcases List.mem_append.mp member with compared | recorded
  · exact (floatCompare_covered found).1.writesGpr compared changed
  · split at recorded
    · obtain rfl := List.mem_singleton.mp recorded
      simp [Stmt.assigned, statusField, Action.assigned, Expr.send, Expr.assigned, Expr.registers,
        Expr.cr, Expr.fpscr, Expr.decimal, Method.mutates] at changed
    · cases recorded

namespace Flow

theorem lift_writesGpr {flow : Flow} {table : Option JumpTable} {io : Bool} {insn : Instruction}
    (regular : insn.Regular) {stmt : Stmt}
    (member : stmt ∈ (flow.lift table io insn).body.getD []) {number : Nat}
    (changed : .gpr number ∈ stmt.assigned) :
    stmt.IsForeign ∨ number ∈ insn.effects.writesGpr := by
  by_cases branch : insn.group = .branch
  · simp only [lift, branch] at member
    exact Or.inl (Lift.branch_spares stmt member number changed)
  · right
    cases accepted : (flow.lift table io insn).body with
    | none =>
        rw [accepted] at member
        cases member
    | some stmts =>
        rw [accepted] at member
        by_cases compare : insn.group = .floatCompare
        · have same : flow.lift table io insn = Lift.float insn := by
            simp only [lift, compare]
          exact Lift.float_writesGpr compare (same ▸ accepted) member changed
        · have covers := (lift_covered_iff regular branch accepted).mpr fun other => compare other.1
          exact covers.writesGpr member changed

theorem hookStmts_spares {flow : Flow} {hooks : List Hook} :
    ∀ stmt ∈ flow.hookStmts hooks, stmt.Spares := by
  intro stmt member number _
  obtain ⟨hook, _, rfl⟩ := List.mem_map.mp member
  trivial

theorem preamble_spares {flow : Flow} {next : Option Instruction} {state : Knowledge}
    {insn : Instruction} : ∀ stmt ∈ flow.preamble next state insn, stmt.Spares := by
  simp only [preamble, List.forall_mem_append, List.forall_mem_singleton]
  refine ⟨⟨?_, hookStmts_spares⟩, ?_⟩
  · intro number changed
    cases changed
  · intro stmt switches
    obtain ⟨wanted, checked, rfl⟩ := mem_emitMode switches
    apply Stmt.spares_of_plain
    simp [Stmt.assigned, FlushMode.switch, Action.assigned, Expr.send, Expr.assigned,
      Expr.registers, Expr.fpscr, Method.mutates]

theorem emitInstruction_writesGpr {flow : Flow} {next : Option Instruction} {state : Knowledge}
    {insn : Instruction} (regular : insn.Regular) {stmt : Stmt}
    (member : stmt ∈ (flow.emitInstruction next state insn).1.stmts) {number : Nat}
    (changed : .gpr number ∈ stmt.assigned) :
    stmt.IsForeign ∨ number ∈ insn.effects.writesGpr := by
  rw [(flow.emitInstruction_eq next state insn).1, List.mem_append, List.mem_append] at member
  rcases member with before | body | after
  · exact Or.inl (preamble_spares stmt before number changed)
  · rcases mem_emitBody.mp body with own | ⟨_, rfl⟩
    · exact lift_writesGpr regular own changed
    · simp [Stmt.assigned, unimplementedCall, Action.assigned, Expr.invoke, Expr.assigned,
        Expr.context, Expr.wordHex] at changed
  · exact Or.inl (hookStmts_spares stmt after number changed)

end Flow

/-! ## Loads of page addresses -/

namespace Instruction

theorem simplifiedOpcode_lis {insn : Instruction} (load : insn.simplifiedOpcode = .lis) :
    insn.opcode = .addis ∨ insn.opcode = .lis := by
  unfold simplifiedOpcode at load
  split at load
  case h_7 opcode => exact Or.inl opcode
  case h_11 => exact Or.inr load
  all_goals
    revert load
    repeat' split
    all_goals simp

theorem decode_lis {address word : UInt32} (load : (decode address word).opcode = .lis) :
    (decode address word).group = .intArithmetic ∧ (decode address word).format = .d :=
  Descriptor.lookup_ind
    (motive := fun entry => entry.opcode = .addis ∨ entry.opcode = .lis →
      entry.group = .intArithmetic ∧ entry.format = .d)
    (by decide +kernel) (by decide) word (simplifiedOpcode_lis load)

end Instruction

theorem Flow.lift_lis {flow : Flow} {table : Option JumpTable} {io : Bool} {address word : UInt32}
    {insn : Instruction} (decoded : insn = Instruction.decode address word)
    (load : insn.opcode = .lis) :
    (flow.lift table io insn).body =
      some [.act (.assign (.gpr insn.rd) (Lift.highImmediate insn))] := by
  obtain ⟨group, format⟩ : insn.group = .intArithmetic ∧ insn.format = .d := by
    subst decoded
    exact Instruction.decode_lis load
  have plain : insn.records = false := by
    simp [Instruction.records, Instruction.vectorRecordBit, Format.hasRecordBit, format]
  simp [lift, group, Lift.arithmetic, format, Lift.arithmeticActions, load, Lift.recorded, plain,
    Lifted.ofActions]

namespace IoBases

theorem lookup_others (bases : IoBases) (written register : Nat) :
    (bases.filter (·.1 != written)).lookup register =
      if written = register then none else bases.lookup register := by
  induction bases with
  | nil => simp
  | cons base bases ih =>
      obtain ⟨number, address⟩ := base
      by_cases same : number = written
      · rw [List.filter_cons_of_neg (by simp [same]), ih, List.lookup_cons]
        by_cases other : written = register
        · simp [other]
        · have apart : (register == number) = false := by
            simpa [same] using fun found => other found.symm
          simp [apart]
      · rw [List.filter_cons_of_pos (by simp [same]), List.lookup_cons, List.lookup_cons, ih]
        by_cases found : register = number
        · simp [found, Ne.symm same]
        · have apart : (register == number) = false := by simpa using found
          simp [apart]

theorem base?_write (bases : IoBases) (insn : Instruction) (written register : Nat) :
    (bases.write insn written).base? register =
      if written = register ∧ register < 32 then loaded? insn register
      else bases.base? register := by
  have others := lookup_others bases written register
  unfold write
  by_cases small : written < 32
  · rw [if_pos small]
    by_cases same : written = register
    · subst same
      cases loaded? insn written with
      | none => simpa [base?, small] using others
      | some address => simp [base?, small]
    · have apart : (register == written) = false := by
        simpa using fun found => same found.symm
      cases loaded? insn written with
      | none => simpa [base?, same] using others
      | some address => simpa [base?, same, List.lookup_cons, apart] using others
  · have large : ¬ (written = register ∧ register < 32) := by
      rintro ⟨rfl, below⟩
      exact small below
    rw [if_neg small, if_neg large]

/-- After an instruction wrote registers, those hold an address that it loaded into them, and the
others the address that they held before. -/
theorem base?_writes (bases : IoBases) (insn : Instruction) (writes : List Nat) (register : Nat) :
    (writes.foldl (fun bases => bases.write insn) bases).base? register =
      if register ∈ writes ∧ register < 32 then loaded? insn register
      else bases.base? register := by
  induction writes generalizing bases with
  | nil => simp
  | cons written writes ih =>
      rw [List.foldl_cons, ih, base?_write]
      by_cases later : register ∈ writes ∧ register < 32
      · rw [if_pos later, if_pos ⟨List.mem_cons_of_mem _ later.1, later.2⟩]
      · rw [if_neg later]
        by_cases here : written = register ∧ register < 32
        · rw [if_pos here, if_pos ⟨List.mem_cons.mpr (Or.inl here.1.symm), here.2⟩]
        · rw [if_neg here, if_neg]
          rintro ⟨member, small⟩
          rcases List.mem_cons.mp member with rfl | among
          · exact here ⟨rfl, small⟩
          · exact later ⟨among, small⟩

end IoBases

/-! ## Tracked registers -/

/-- The code of an instruction that puts the address of a page of device registers into a
register. -/
structure Instruction.LoadsPage (page : Instruction) (register : Nat) (load : Stmt) : Prop where
  opcode : page.opcode = .lis
  target : page.rd = register
  device : IoBases.firstPage ≤ page.uimm ∧ page.uimm ≤ IoBases.lastPage
  code : load = .act (.assign (.gpr register) (Lift.highImmediate page))

theorem Instruction.rd_lt (insn : Instruction) : insn.rd < 32 := by
  simpa [rd, Field.read, Field.rd] using Field.bits_lt insn.raw 21 5

/-- Every tracked register was loaded with the address of a page, and only other code changed it
since. -/
def Knowledge.Traces (state : Knowledge) (instructions : List Instruction) (front : List Stmt) :
    Prop :=
  ∀ register, (state.ioBases.base? register).isSome →
    ∃ page ∈ instructions, ∃ earlier load since, front = earlier ++ load :: since ∧
      Stmt.lastComment? earlier = some (Flow.remark page) ∧ page.LoadsPage register load ∧
      ∀ stmt ∈ since, .gpr register ∈ stmt.assigned → stmt.IsForeign

namespace Flow

theorem emitHooks_ioBases (flow : Flow) (state : Knowledge) (hooks : List Hook) :
    (flow.emitHooks state hooks).2.ioBases = state.ioBases := by
  unfold emitHooks
  dsimp only
  split <;> rfl

theorem emitMode_ioBases (state : Knowledge) (wanted : Option FlushMode) :
    (emitMode state wanted).2.ioBases = state.ioBases := by
  cases wanted <;> rfl

theorem emitInstruction_ioBases (flow : Flow) (next : Option Instruction) (state : Knowledge)
    (insn : Instruction) :
    (flow.emitInstruction next state insn).2.ioBases =
      insn.effects.writesGpr.foldl (fun bases => bases.write insn) state.ioBases := by
  rw [(flow.emitInstruction_eq next state insn).2, emitHooks_ioBases, afterInstruction,
    emitMode_ioBases, ready, emitHooks_ioBases]

theorem emitInstruction_lis (flow : Flow) (next : Option Instruction) (state : Knowledge)
    {insn : Instruction} {address word : UInt32} (decoded : insn = .decode address word)
    (load : insn.opcode = .lis) :
    (flow.emitInstruction next state insn).1.stmts =
      flow.preamble next state insn ++
        .act (.assign (.gpr insn.rd) (Lift.highImmediate insn)) ::
          flow.hookStmts ((flow.config.hooksAt insn.address).filter (·.afterInstruction)) := by
  have body : (flow.liftedAt next state insn).body = _ := lift_lis decoded load
  rw [(flow.emitInstruction_eq next state insn).1, emitBody, body]
  rfl

theorem emitInstruction_traces {flow : Flow} {next : Option Instruction} {state : Knowledge}
    {instructions : List Instruction} (listed : Instruction.Listed instructions)
    {insn : Instruction} (member : insn ∈ instructions) {front : List Stmt}
    (traces : state.Traces instructions front) :
    (flow.emitInstruction next state insn).2.Traces instructions
      (front ++ (flow.emitInstruction next state insn).1.stmts) := by
  obtain ⟨address, word, decoded⟩ := listed.decoded insn member
  intro register tracked
  rw [emitInstruction_ioBases, IoBases.base?_writes] at tracked
  split at tracked
  next =>
    -- The instruction itself loads the address.
    unfold IoBases.loaded? at tracked
    split at tracked
    next page =>
      obtain ⟨opcode, rfl, device⟩ := page
      have split := flow.emitInstruction_lis next state decoded opcode
      have origin := lastComment?_of_split split (by intro wanted checked same; cases same)
      rw [split, ← List.append_assoc]
      refine ⟨insn, member, _, _, _, rfl, ?_, ⟨opcode, rfl, device, rfl⟩,
        fun stmt after => hookStmts_spares stmt after insn.rd⟩
      rw [Stmt.lastComment?_append, origin, Option.some_or]
    next => cases tracked
  next unwritten =>
    obtain ⟨page, among, earlier, load, since, rfl, origin, loads, unchanged⟩ :=
      traces register tracked
    refine ⟨page, among, earlier, load, since ++ (flow.emitInstruction next state insn).1.stmts,
      by simp, origin, loads,
      List.forall_mem_append.mpr ⟨unchanged, fun stmt emitted changed => ?_⟩⟩
    have regular : insn.Regular := decoded ▸ Instruction.decode_regular address word
    rcases emitInstruction_writesGpr regular emitted changed with foreign | written
    · exact foreign
    · exact absurd ⟨written, loads.target ▸ page.rd_lt⟩ unwritten

theorem emitInstructions_traces (flow : Flow) (nextOf : Instruction → Option Instruction)
    {instructions : List Instruction} (listed : Instruction.Listed instructions)
    {run : List Instruction} (members : run ⊆ instructions) {state : Knowledge} {front : List Stmt}
    (traces : state.Traces instructions front) :
    (flow.knowledge nextOf state run).Traces instructions
      (front ++ (flow.emitInstructions nextOf state run).stmts) := by
  induction run generalizing state front with
  | nil =>
      change state.Traces instructions (front ++ [])
      rwa [List.append_nil]
  | cons insn rest ih =>
      obtain ⟨member, others⟩ := List.cons_subset.mp members
      rw [emitInstructions_cons, ← List.append_assoc]
      exact ih others (emitInstruction_traces listed member traces)

end Flow

/-! ## The code for an access -/

/-- No register is changed before an access to a device by the code for the same instruction, unless
that loads several words. -/
def Instruction.Orders (insn : Instruction) (first later : Stmt) : Prop :=
  later.accessesDevice → ∀ number, .gpr number ∈ first.assigned →
    insn.opcode = .lmw ∧ first.accessesDevice

namespace Lift

theorem access_ordered {insn : Instruction} {actions : List Action}
    (ordered : (actions.map Stmt.act).Pairwise insn.Orders) :
    ((nameAddress insn :: actions).map Stmt.act).Pairwise insn.Orders := by
  rw [List.map_cons, List.pairwise_cons]
  refine ⟨fun later _ _ number changed => ?_, ordered⟩
  rw [Stmt.assigned, nameAddress_assigned] at changed
  cases changed

theorem single_ordered (insn : Instruction) (access : Action) (update : Bool) :
    (([access] ++ updateBase insn update).map Stmt.act).Pairwise insn.Orders := by
  cases update with
  | false => exact List.pairwise_singleton _ _
  | true => exact List.pairwise_pair.mpr (fun device => by cases device)

theorem integerLoad_ordered {io : Bool} {insn : Instruction} {stmts : List Stmt}
    (accepted : (integerLoad io insn).body = some stmts) : stmts.Pairwise insn.Orders := by
  unfold integerLoad at accepted
  split at accepted
  case h_3 opcode =>
    cases accepted
    apply access_ordered
    rw [List.map_map, List.pairwise_map]
    apply List.pairwise_of_forall
    intro first later device number _
    exact ⟨opcode, device⟩
  case h_4 =>
    split at accepted
    next access _ =>
      cases accepted
      exact access_ordered (single_ordered insn _ access.update)
    next => cases accepted
  all_goals
    cases accepted
    exact access_ordered (List.pairwise_pair.mpr fun device => by cases device)

theorem integerStore_ordered {io : Bool} {insn : Instruction} {stmts : List Stmt}
    (accepted : (integerStore io insn).body = some stmts) : stmts.Pairwise insn.Orders := by
  unfold integerStore at accepted
  split at accepted
  case h_3 =>
    cases accepted
    apply access_ordered
    rw [List.map_map, List.pairwise_map]
    apply List.pairwise_of_forall
    intro first later _ number changed
    simp [Stmt.assigned, Action.assigned, Expr.invoke, Expr.assigned, addressOf, Expr.send, Expr.ea,
      Expr.decimal, Expr.gpr, Method.mutates] at changed
  case h_4 =>
    split at accepted
    next access _ =>
      cases accepted
      exact access_ordered (single_ordered insn _ access.update)
    next => cases accepted
  all_goals
    cases accepted
    exact access_ordered (List.pairwise_singleton _ _)

theorem floatLoad_ordered {io : Bool} {insn : Instruction} {stmts : List Stmt}
    (accepted : (floatLoad io insn).body = some stmts) : stmts.Pairwise insn.Orders := by
  unfold floatLoad at accepted
  split at accepted
  all_goals cases accepted
  all_goals exact access_ordered (single_ordered insn _ _)

theorem floatStore_ordered {io : Bool} {insn : Instruction} {stmts : List Stmt}
    (accepted : (floatStore io insn).body = some stmts) : stmts.Pairwise insn.Orders := by
  unfold floatStore at accepted
  split at accepted
  all_goals cases accepted
  all_goals exact access_ordered (single_ordered insn _ _)

theorem vectorLoad_ordered {io : Bool} {insn : Instruction} {stmts : List Stmt}
    (accepted : (vectorLoad io insn).body = some stmts) : stmts.Pairwise insn.Orders := by
  unfold vectorLoad at accepted
  split at accepted
  · cases accepted
    exact access_ordered (single_ordered insn _ false)
  · cases accepted

theorem vectorStore_ordered {io : Bool} {insn : Instruction} {stmts : List Stmt}
    (accepted : (vectorStore io insn).body = some stmts) : stmts.Pairwise insn.Orders := by
  unfold vectorStore at accepted
  split at accepted
  · cases accepted
    exact access_ordered (single_ordered insn _ false)
  · cases accepted

end Lift

namespace Flow

theorem lift_ordered {flow : Flow} {table : Option JumpTable} {io : Bool} {insn : Instruction}
    (access : insn.AccessesMemory) {stmts : List Stmt}
    (accepted : (flow.lift table io insn).body = some stmts) : stmts.Pairwise insn.Orders := by
  rcases access with group | group | group | group | group | group
  all_goals simp only [lift, group] at accepted
  · exact Lift.integerLoad_ordered accepted
  · exact Lift.integerStore_ordered accepted
  · exact Lift.floatLoad_ordered accepted
  · exact Lift.floatStore_ordered accepted
  · exact Lift.vectorLoad_ordered accepted
  · exact Lift.vectorStore_ordered accepted

theorem isOwn_of_accessesDevice {stmt : Stmt} (device : stmt.accessesDevice) : IsOwn stmt := by
  cases stmt with
  | act action =>
      rintro wanted checked rfl
      cases device
  | _ => cases device

theorem emitInstruction_ordered {flow : Flow} {next : Option Instruction} {state : Knowledge}
    {insn : Instruction} (access : insn.AccessesMemory) {front back : List Stmt} {stmt : Stmt}
    (split : (flow.emitInstruction next state insn).1.stmts = front ++ stmt :: back)
    (device : stmt.accessesDevice) {number : Nat} :
    ∀ other ∈ front, .gpr number ∈ other.assigned →
      other.IsForeign ∨ insn.opcode = .lmw ∧ other.accessesDevice := by
  obtain ⟨inner, rest, rfl, body⟩ := emitInstruction_split split (isOwn_of_accessesDevice device)
  refine List.forall_mem_append.mpr ⟨fun other before changed => ?_, fun other before changed => ?_⟩
  · exact Or.inl (preamble_spares other before number changed)
  · right
    rw [emitBody] at body
    split at body
    next stmts accepted =>
      have ordered : (inner ++ stmt :: rest).Pairwise insn.Orders :=
        body ▸ lift_ordered access accepted
      exact (List.pairwise_append.mp ordered).2.2 other before stmt List.mem_cons_self device
        number changed
    next =>
      -- Without code for the instruction there is only the call that stands for it.
      have single : [Stmt.act (unimplementedCall insn)] = inner ++ stmt :: rest := body
      have member : stmt ∈ [Stmt.act (unimplementedCall insn)] := by
        rw [single]
        exact List.mem_append_right inner List.mem_cons_self
      obtain rfl := List.mem_singleton.mp member
      cases device

end Flow

/-! ## Emitted functions -/

namespace Instruction.LoadsPage

variable {page : Instruction} {register : Nat} {load : Stmt}

theorem assigned (loads : page.LoadsPage register load) : .gpr register ∈ load.assigned := by
  rw [loads.code]
  exact List.mem_cons_self

theorem not_foreign (loads : page.LoadsPage register load) : ¬ load.IsForeign := by
  rw [loads.code]
  intro same
  cases same

theorem not_device (loads : page.LoadsPage register load) : load.accessesDevice = false := by
  rw [loads.code]
  rfl

end Instruction.LoadsPage

namespace Program

/-- Whether a register is tracked as a base where an instruction stands. -/
def Tracks (program : Program) (graph : Graph) (node : FunctionNode) (insn : Instruction)
    (register : Nat) : Prop :=
  ∃ instructions block before after, program.instructionsOf node = .ok instructions ∧
    block ∈ (program.flowOf graph node instructions).layout.blocks ∧
    block.instructions = before ++ insn :: after ∧
    (((program.flowOf graph node instructions).knowledge (nextIn instructions) {}
      before).ioBases.base? register).isSome

/-- Whether the last statement that changes a register loads the address of a page of device
registers. -/
def HoldsPage (program : Program) (graph : Graph) (node : FunctionNode) (register : Nat)
    (front : List Stmt) : Prop :=
  ∃ page earlier load since, front = earlier ++ load :: since ∧
    program.Emits graph node page earlier load ∧ page.LoadsPage register load ∧
    ∀ stmt ∈ since, .gpr register ∉ stmt.assigned

theorem holdsPage_iff {program : Program} {graph : Graph} {node : FunctionNode}
    {insn page : Instruction} {register : Nat} {earlier since : List Stmt} {load : Stmt}
    (emits : program.Emits graph node page earlier load) (loads : page.LoadsPage register load)
    (changes : ∀ stmt ∈ since, .gpr register ∈ stmt.assigned →
      stmt.IsForeign ∨ insn.opcode = .lmw ∧ stmt.accessesDevice) :
    program.HoldsPage graph node register (earlier ++ load :: since) ↔
      ∀ stmt ∈ since, .gpr register ∉ stmt.assigned := by
  constructor
  · rintro ⟨other, front, last, rest, same, _, lastLoads, unchanged⟩
    rw [List.append_cons] at same
    rcases split_append same with ⟨inner, _, rfl⟩ | ⟨between, _, rfl⟩
    · -- A later load would be among the changes.
      rcases changes last (by simp) lastLoads.assigned with foreign | ⟨_, device⟩
      · exact absurd foreign lastLoads.not_foreign
      · rw [lastLoads.not_device] at device
        cases device
    · exact fun stmt among => unchanged stmt (List.mem_append_right _ among)
  · exact fun unchanged => ⟨page, earlier, load, since, rfl, emits, loads, unchanged⟩

/-- In front of an access to a device through a tracked base register there is the load of a page
address into that register. Since then only hooks, calls that save the context and earlier words of
the access itself may have changed it, and the load is the last change if and only if none of them
did. -/
theorem Emits.base_loaded {program : Program} {graph : Graph} {node : FunctionNode}
    {insn : Instruction} {front : List Stmt} {stmt : Stmt}
    (emits : program.Emits graph node insn front stmt) (device : stmt.accessesDevice)
    (access : insn.AccessesMemory) (tracked : program.Tracks graph node insn insn.ra) :
    ∃ page earlier load since, front = earlier ++ load :: since ∧
      program.Emits graph node page earlier load ∧ page.LoadsPage insn.ra load ∧
      (∀ other ∈ since, .gpr insn.ra ∈ other.assigned →
        other.IsForeign ∨ insn.opcode = .lmw ∧ other.accessesDevice) ∧
      (program.HoldsPage graph node insn.ra front ↔
        ∀ other ∈ since, .gpr insn.ra ∉ other.assigned) := by
  obtain ⟨instructions, block, before, after, inner, rest, decoded, inBlock, here, rfl, split⟩ :=
    emits.inside (Flow.isOwn_of_accessesDevice device)
  obtain ⟨_, other, before', after', decoded', inOther, there, known⟩ := tracked
  cases decoded.symm.trans decoded'
  obtain rfl := Layout.position_unique (blocks_listed decoded) inBlock inOther here there
  have members : before ⊆ instructions := by
    intro earlier among
    apply Flow.mem_of_mem_block rfl inBlock
    rw [here]
    exact List.mem_append_left _ among
  -- Nothing is tracked where the arm is entered.
  have nothing : Knowledge.Traces {} instructions [] := fun _ known => by cases known
  have traces := (program.flowOf graph node instructions).emitInstructions_traces
    (nextIn instructions) (Image.instructions_listed decoded) members nothing
  obtain ⟨page, among, earlier, load, since, code, origin, loads, unchanged⟩ := traces insn.ra known
  rw [List.nil_append] at code
  rw [code, List.append_assoc, List.cons_append] at emits ⊢
  have loaded := emits.earlier decoded among origin
  have changes : ∀ other ∈ since ++ inner, .gpr insn.ra ∈ other.assigned →
      other.IsForeign ∨ insn.opcode = .lmw ∧ other.accessesDevice := by
    refine List.forall_mem_append.mpr ⟨fun other later changed => ?_, ?_⟩
    · exact Or.inl (unchanged other later changed)
    · exact Flow.emitInstruction_ordered access split device
  exact ⟨page, earlier, load, since ++ inner, rfl, loaded, loads, changes,
    holdsPage_iff loaded loads changes⟩

end Program

/-! A hook in front of an access, which takes a copy of its base register. -/

def patchedProgram : Program where
  image := Image.ofCode 0x1000 #[0x3C, 0x60, 0x7F, 0xC8, 0x80, 0x83, 0x00, 0x00,
    0x4E, 0x80, 0x00, 0x20]
  config := { hooks := [{ address := 0x1004, name := "patch", registers := ["r3"] }] }

def patchedNode : FunctionNode :=
  { address := 0x1000, size := 12, authority := .discovered, blocks := [⟨0x1000, 0x100C⟩] }

def patchedLoad : Instruction := Instruction.decode 0x1004 0x80830000

def patchedHook : Stmt :=
  .hook { name := "patch", captures := [(0, .gpr 3)], conditional := false, exits := [] }

/-- The code up to the access. -/
def patchedFront : List Stmt :=
  [.comment "0x00001000: lis r3, 0x7FC8",
    .act (.assign (.gpr 3) (.doubleword 0x7FC80000)),
    .comment "0x00001004: lwz r4, 0x0(r3)",
    patchedHook,
    .act (Lift.nameAddress patchedLoad)]

def patchedAccess : Stmt :=
  .act (.assign (.gpr 4) (.cast (.invoke (.load true (.number .u32)) [.ea]) .u64))

/-- The base register is taken for that of a device although the hook may have changed it. -/
theorem patchedProgram_base_loaded :
    patchedProgram.Emits { nodes := [patchedNode] } patchedNode patchedLoad patchedFront
        patchedAccess ∧
      patchedAccess.accessesDevice ∧ patchedLoad.AccessesMemory ∧ patchedLoad.ra = 3 ∧
      patchedProgram.Tracks { nodes := [patchedNode] } patchedNode patchedLoad 3 ∧
      patchedHook ∈ patchedFront ∧ .gpr 3 ∈ patchedHook.assigned ∧
      ¬ patchedProgram.HoldsPage { nodes := [patchedNode] } patchedNode 3 patchedFront := by
  have decoded : patchedProgram.instructionsOf patchedNode =
      .ok [Instruction.decode 0x1000 0x3C607FC8, patchedLoad,
        Instruction.decode 0x1008 0x4E800020] := rfl
  have emits : patchedProgram.Emits { nodes := [patchedNode] } patchedNode patchedLoad patchedFront
      patchedAccess := by
    refine ⟨_, _,
      { label := 0x1000
        body := patchedFront ++ patchedAccess :: [.comment "0x00001008: blr", .transfer .ret] }, _,
      decoded, by simp, rfl, ?_, rfl, by decide +kernel⟩
    decide +kernel
  have device : patchedAccess.accessesDevice := rfl
  have access : patchedLoad.AccessesMemory := Or.inl (by decide +kernel)
  have tracked : patchedProgram.Tracks { nodes := [patchedNode] } patchedNode patchedLoad
      patchedLoad.ra := by
    refine ⟨_, ⟨0x1000, [Instruction.decode 0x1000 0x3C607FC8, patchedLoad,
        Instruction.decode 0x1008 0x4E800020]⟩,
      [Instruction.decode 0x1000 0x3C607FC8], _, decoded, ?_, rfl, ?_⟩
    · decide +kernel
    · decide +kernel
  have base : patchedLoad.ra = 3 := by decide +kernel
  have captured : .gpr 3 ∈ patchedHook.assigned := List.mem_cons_self
  obtain ⟨page, earlier, load, since, split, _, loads, _, holds⟩ :=
    emits.base_loaded device access tracked
  rw [base] at tracked loads holds
  refine ⟨emits, device, access, base, tracked, by simp [patchedFront], captured, fun kept => ?_⟩
  have behind : patchedHook ∈ since := by
    -- Only the second statement is such a load.
    rcases earlier with _ | ⟨_, _ | ⟨_, _ | ⟨_, _ | ⟨_, _ | ⟨_, tail⟩⟩⟩⟩⟩
    all_goals simp [patchedFront, patchedHook, Lift.nameAddress, loads.code] at split
    simp [← split.2.2, patchedHook]
  exact holds.mp kept patchedHook behind captured

end PowerLift
