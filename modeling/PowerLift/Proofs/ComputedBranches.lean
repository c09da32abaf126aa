import Mathlib
import PowerLift.Proofs.Contributions

/-!
How computed branches are resolved. A table of a function has code targets only, and one that was
recognised holds the words stored for it. For every computed branch in a block the configuration
decides first: its table, if that has code labels only, or else its calls. What it leaves open is
recognised or recorded as unresolved.
-/

namespace PowerLift

/-! ## Recognised tables -/

/-- The targets of a table are the words stored for it. -/
def JumpTable.ReadFrom (table : JumpTable) (image : Image) : Prop :=
  ∃ base, table.base = some base ∧ 1 ≤ table.targets.length ∧ table.targets.length ≤ 4096 ∧
    ∀ index < table.targets.length, base.toNat + 4 * index < 2 ^ 32 ∧
      image.read? (base + UInt32.ofNat (4 * index)) = table.targets[index]?

namespace TableIdiom

theorem entries?_eq_some {image : Image} {base : UInt32} {count : Nat} (few : count ≤ maxCases)
    {targets : List UInt32} (found : entries? image base count = some targets) :
    targets.length = count ∧ ∀ index < count, base.toNat + 4 * index < 2 ^ 32 ∧
      image.read? (base + UInt32.ofNat (4 * index)) = targets[index]? := by
  induction count generalizing targets with
  | zero =>
      cases found
      exact ⟨rfl, fun _ below => absurd below (Nat.not_lt_zero _)⟩
  | succ count ih =>
      simp only [entries?, List.range_succ, List.mapM_append, List.mapM_cons, List.mapM_nil,
        Option.bind_eq_bind, Option.bind_eq_some_iff] at found
      obtain ⟨front, early, _, ⟨target, ⟨address, fits, read⟩, _, nothing, single⟩, joined⟩ := found
      cases nothing
      cases single
      cases joined
      obtain ⟨length, stored⟩ := ih (by omega) early
      refine ⟨by simp [length], ?_⟩
      intro index below
      by_cases former : index < count
      · rw [List.getElem?_append_left (by omega)]
        exact stored index former
      · obtain rfl : index = count := by omega
        unfold checkedAdd at fits
        split at fits
        next room =>
          cases fits
          rw [UInt32.toNat_ofNat'] at room
          rw [read, List.getElem?_append_right (by omega), length, Nat.sub_self]
          refine ⟨?_, rfl⟩
          change index + 1 ≤ 4096 at few
          change _ < 2 ^ 32 at room
          omega
        next => cases fits

theorem entries?_of_stored {image : Image} {base : UInt32} {targets : List UInt32}
    (stored : ∀ index < targets.length, base.toNat + 4 * index < 2 ^ 32 ∧
      image.read? (base + UInt32.ofNat (4 * index)) = targets[index]?) :
    entries? image base targets.length = some targets := by
  induction targets using List.reverseRecOn with
  | nil => rfl
  | append_singleton front last ih =>
      have early : entries? image base front.length = some front := by
        apply ih
        intro index below
        have here := stored index (by simp; omega)
        rwa [List.getElem?_append_left below] at here
      obtain ⟨room, read⟩ := stored front.length (by simp)
      have fits : checkedAdd base (UInt32.ofNat (4 * front.length)) =
          some (base + UInt32.ofNat (4 * front.length)) := by
        rw [checkedAdd, UInt32.toNat_ofNat', if_pos]
        change _ < 2 ^ 32
        omega
      rw [List.getElem?_concat_length] at read
      unfold entries? at early ⊢
      rw [List.length_append, List.length_singleton, List.range_succ, List.mapM_append, early]
      simp only [List.mapM_cons, fits, Option.bind_eq_bind, Option.bind_some, read]
      rfl

theorem recognize?_readFrom {image : Image} {window : List Instruction} {table : JumpTable}
    (found : recognize? image window = some table) :
    table.ReadFrom image ∧ table.isValid image.isExecutable := by
  unfold recognize? at found
  cases order : window.reverse with
  | nil => simp [order] at found
  | cons branch body =>
      simp only [order] at found
      split at found
      next =>
        simp only [Option.bind_eq_bind, Option.bind_eq_some_iff] at found
        obtain ⟨⟨base, register, count⟩, _, found⟩ := found
        split at found
        next => cases found
        next bounded =>
          simp only [not_or, Nat.not_lt] at bounded
          simp only [Option.bind_eq_some_iff] at found
          obtain ⟨targets, read, found⟩ := found
          split at found
          next valid =>
            cases found
            obtain ⟨length, stored⟩ := entries?_eq_some bounded.2 read
            refine ⟨⟨base, rfl, ?_, ?_, ?_⟩, valid⟩
            · change 1 ≤ targets.length
              omega
            · rw [← length] at bounded
              exact bounded.2
            · rw [length]
              exact stored
          next => cases found
      next => cases found

end TableIdiom

/-! ## Accepted tables -/

/-- The table that the configuration gives for a branch, as a function records it. -/
def JumpTable.ofSwitch (site : UInt32) (entry : SwitchTable) : JumpTable :=
  { address := site, base := none, register := entry.register, targets := entry.labels
    source := .configured }

theorem JumpTable.isValid_iff {table : JumpTable} {isExecutable : UInt32 → Bool} :
    table.isValid isExecutable ↔
      ∀ target ∈ table.targets, aligned target ∧ isExecutable target := by
  unfold isValid
  rw [List.all_eq_true]
  refine forall₂_congr fun target _ => ?_
  unfold targetFault?
  cases aligned target with
  | false => simp
  | true => cases isExecutable target <;> simp

namespace Program

theorem isValid_iff {program : Program} {table : JumpTable} :
    table.isValid program.image.isExecutable ↔
      ∀ target ∈ table.targets, program.isCodeAddress target := by
  simp only [JumpTable.isValid_iff, isCodeAddress, Bool.and_eq_true]

/-- The configuration gives no table for a branch, or one with a label that is no code. -/
def Refuses (program : Program) (site : UInt32) : Prop :=
  ∀ entry ∈ program.config.switchTableAt site, ∃ label ∈ entry.labels,
    ¬ program.isCodeAddress label

theorem configuredTable?_cases (program : Program) (site : UInt32) :
    (∃ entry, program.config.switchTableAt site = some entry ∧
      (∀ label ∈ entry.labels, program.isCodeAddress label) ∧
      program.configuredTable? site = some (JumpTable.ofSwitch site entry)) ∨
    program.Refuses site ∧ program.configuredTable? site = none := by
  unfold configuredTable? Refuses
  cases first : program.config.switchTableAt site with
  | none => exact Or.inr ⟨fun _ given => absurd given (Option.not_mem_none _), rfl⟩
  | some entry =>
      simp only [Option.bind_eq_bind, Option.bind_some]
      change _ ∨ _ ∧ (if (JumpTable.ofSwitch site entry).isValid program.image.isExecutable
        then some (JumpTable.ofSwitch site entry) else none) = none
      by_cases code : ∀ label ∈ entry.labels, program.isCodeAddress label
      · refine Or.inl ⟨entry, rfl, code, ?_⟩
        exact if_pos (isValid_iff.mpr code)
      · refine Or.inr ⟨?_, if_neg fun valid => code (isValid_iff.mp valid)⟩
        intro other given
        cases given
        simpa using code

theorem acceptedTable?_code {program : Program} {window : Window} {insn : Instruction}
    {table : JumpTable} (accepted : program.acceptedTable? window insn = some table) :
    (∀ target ∈ table.targets, program.isCodeAddress target) ∧
      (table.source = .recognized → table.ReadFrom program.image) := by
  unfold acceptedTable? at accepted
  rcases program.configuredTable?_cases insn.address with
    ⟨entry, _, code, given⟩ | ⟨_, missing⟩
  · rw [given, Option.some_or] at accepted
    cases accepted
    exact ⟨code, fun recognized => by cases recognized⟩
  · rw [missing, Option.none_or] at accepted
    split at accepted
    · cases accepted
    · unfold recognizedTable? at accepted
      split at accepted
      · obtain ⟨read, valid⟩ := TableIdiom.recognize?_readFrom accepted
        exact ⟨isValid_iff.mp valid, fun _ => read⟩
      · cases accepted

theorem indirectStep_tables (program : Program) (window : Window) (insn : Instruction) :
    (program.indirectStep window insn).jumpTables =
      (program.acceptedTable? window insn).toList := by
  unfold indirectStep acceptedTable?
  cases program.configuredTable? insn.address with
  | some table => rfl
  | none =>
      by_cases hinted : program.config.isIndirectCall insn.address
      · simp [hinted]
      · cases program.recognizedTable? window insn with
        | some table => simp [hinted, tableStep]
        | none => simp [hinted]

/-- A computed branch contributes what is found out about its targets. -/
theorem among_indirectStep {program : Program} {window : Window} {extent site : UInt32}
    {insn : Instruction} {calls : List Call} {tables : List JumpTable} {jumps : List UInt32}
    (found : program.instruction? site = some insn) (computed : insn.transfer = .indirectJump)
    (among : (program.step window extent insn).Among calls tables jumps) :
    (program.indirectStep window insn).Among calls tables jumps := by
  obtain ⟨word, _, _, decoded, _⟩ := instruction?_eq_some.mp found
  obtain ⟨noTrap, noCall, noReturn⟩ : insn.group ≠ .trap ∧ insn.opcode ≠ .sc ∧
      insn.opcode ≠ .rfid := by
    rw [decoded] at computed ⊢
    exact Instruction.plain_of_transfer (by simp [computed])
  obtain ⟨ownCalls, ownTables, ownJumps⟩ := among
  simp only [step, ownStep, if_neg noTrap, if_neg noCall, if_neg noReturn,
    Instruction.effects_transfer, computed] at ownCalls ownTables ownJumps
  exact ⟨ownCalls, ownTables, ownJumps⟩

end Program

/-! ## Branches of a function -/

namespace FunctionNode

/-- How a function records a computed branch. The configuration comes first. -/
inductive Resolves (node : FunctionNode) (program : Program) (site : UInt32) : Prop
  | configured (entry : SwitchTable) (first : program.config.switchTableAt site = some entry)
      (code : ∀ label ∈ entry.labels, program.isCodeAddress label)
      (table : node.jumpTableAt? site = some (JumpTable.ofSwitch site entry))
  | call (refused : program.Refuses site) (hinted : program.config.isIndirectCall site)
      (free : node.jumpTableAt? site = none)
      (recorded : Call.unresolved site true ∈ node.calls)
  | recognized (refused : program.Refuses site)
      (plain : program.config.isIndirectCall site = false) (table : JumpTable)
      (found : node.jumpTableAt? site = some table) (source : table.source = .recognized)
  | unresolved (refused : program.Refuses site)
      (plain : program.config.isIndirectCall site = false)
      (free : node.jumpTableAt? site = none) (listed : site ∈ node.unresolvedJumps)

variable {node : FunctionNode} {program : Program} {window : Window} {site : UInt32}
  {insn : Instruction}

/-- Tables at one address are the one that is accepted there. -/
theorem Reflects.jumpTableAt?_eq (reflects : node.Reflects program window)
    (found : program.instruction? site = some insn)
    (recorded : ∀ table, program.acceptedTable? window insn = some table →
      table ∈ node.jumpTables ∧ table.address = site) :
    node.jumpTableAt? site = program.acceptedTable? window insn := by
  cases lookup : node.jumpTableAt? site with
  | some table =>
      have here : table.address = site := by simpa using List.find?_some lookup
      obtain ⟨other, otherFound, accepted⟩ :=
        reflects.table table (List.mem_of_find?_eq_some lookup)
      rw [here, found] at otherFound
      cases otherFound
      exact accepted.symm
  | none =>
      cases accepted : program.acceptedTable? window insn with
      | none => rfl
      | some table =>
          obtain ⟨member, here⟩ := recorded table accepted
          have missed := List.find?_eq_none.mp lookup table member
          simp [here] at missed

theorem Reflects.resolves (reflects : node.Reflects program window)
    (entryWord : aligned window.entry) (siteWord : aligned site)
    (found : program.instruction? site = some insn)
    (among : (program.indirectStep window insn).Among node.calls node.jumpTables
      node.unresolvedJumps) : node.Resolves program site := by
  have here : insn.address = site := Program.instruction?_address found
  have lookup : node.jumpTableAt? site = program.acceptedTable? window insn := by
    apply reflects.jumpTableAt?_eq found
    intro table accepted
    refine ⟨among.jumpTables ?_,
      (Program.acceptedTable?_address entryWord siteWord found accepted).1⟩
    rw [Program.indirectStep_tables, accepted]
    exact List.mem_singleton_self table
  obtain ⟨calls, _, jumps⟩ := among
  unfold Program.acceptedTable? at lookup
  unfold Program.indirectStep at calls jumps
  rw [here] at lookup calls jumps
  rcases program.configuredTable?_cases site with ⟨entry, first, code, given⟩ | ⟨refused, missing⟩
  · rw [given, Option.some_or] at lookup
    exact .configured entry first code lookup
  · rw [missing, Option.none_or] at lookup
    simp only [missing] at calls jumps
    cases hint : program.config.isIndirectCall site with
    | true =>
        rw [hint, if_pos rfl] at lookup calls
        exact .call refused hint lookup (calls List.mem_cons_self)
    | false =>
        rw [hint, if_neg Bool.false_ne_true] at lookup jumps
        cases recognized : program.recognizedTable? window insn with
        | some table =>
            rw [recognized] at lookup
            refine .recognized refused hint table lookup ?_
            unfold Program.recognizedTable? at recognized
            split at recognized
            · obtain ⟨_, _, _, _, _, _, _, source⟩ := TableIdiom.recognize?_dispatch recognized
              exact source
            · cases recognized
        | none =>
            rw [recognized] at lookup jumps
            exact .unresolved refused hint lookup (jumps List.mem_cons_self)

end FunctionNode

namespace Discovery

/-- Every target of a table is code, and a recognised table is the one that the image stores. Every
computed branch in a block without a return address is resolved in the order of the sources. -/
theorem run_resolves (program : Program) (hints : List UInt32) (tables : List VTable) :
    let graph := (((seed program).addEntries program hints).addVTables program tables).run program
    ∀ node ∈ graph.nodes,
      (∀ table ∈ node.jumpTables,
        (∀ target ∈ table.targets, aligned target ∧ program.image.isExecutable target) ∧
          (table.source = .recognized → table.ReadFrom program.image)) ∧
      ∀ block ∈ node.blocks, ∀ site, aligned site → block.contains site →
        ∃ word, program.image.read? site = some word ∧
          ((Instruction.decode site word).opcode = .bctr ∨
              (Instruction.decode site word).opcode = .bcctr ∧
                (Instruction.decode site word).lk = false →
            node.Resolves program site) := by
  intro graph node member
  obtain ⟨limit, reflects⟩ := run_reflects member
  constructor
  · intro table recorded
    obtain ⟨insn, _, accepted⟩ := reflects.table table recorded
    obtain ⟨code, read⟩ := Program.acceptedTable?_code accepted
    refine ⟨?_, read⟩
    intro target among
    simpa [Program.isCodeAddress] using code target among
  · intro block recorded site siteWord inside
    obtain ⟨insn, extent, found, among⟩ := reflects.word block recorded site siteWord inside
    obtain ⟨word, read, _, rfl, _⟩ := Program.instruction?_eq_some.mp found
    refine ⟨word, read, ?_⟩
    intro branch
    have computed : (Instruction.decode site word).transfer = .indirectJump := by
      unfold Instruction.transfer
      rcases branch with plain | ⟨conditional, unlinked⟩
      · rw [plain]
      · simp [conditional, unlinked]
    exact reflects.resolves (reflects.entry (List.ne_nil_of_mem recorded)) siteWord found
      (Program.among_indirectStep found computed among)

/-! A function with four computed branches. The first goes through a stored table to the second and
the third, and the third has a configured table with the fourth as its label. -/

def switchedProgram : Program where
  image := Image.ofCode 0x10000 #[0x28, 0x03, 0x00, 0x01, 0x3C, 0x80, 0x00, 0x01,
    0x38, 0x84, 0x00, 0x1C, 0x54, 0x65, 0x10, 0x3A, 0x7C, 0x04, 0x28, 0x2E, 0x7C, 0x09, 0x03, 0xA6,
    0x4E, 0x80, 0x04, 0x20, 0x00, 0x01, 0x00, 0x24, 0x00, 0x01, 0x00, 0x28, 0x4E, 0x80, 0x04, 0x20,
    0x4E, 0x80, 0x04, 0x20, 0x4E, 0x80, 0x04, 0x20]
  config := { switchTables := [{ address := 0x10028, register := 5, labels := [0x1002C] }]
              indirectCalls := [0x10024] }

def switchedFunction : FunctionNode :=
  { address := 0x10000, size := 48, authority := .discovered
    blocks := [{ start := 0x10000, stop := 0x1001C }, { start := 0x10024, stop := 0x10028 },
      { start := 0x10028, stop := 0x1002C }, { start := 0x1002C, stop := 0x10030 }]
    calls := [Call.unresolved 0x10024 true]
    jumpTables :=
      [{ address := 0x10018, base := some 0x1001C, register := 3, targets := [0x10024, 0x10028]
         source := .recognized },
       { address := 0x10028, base := none, register := 5, targets := [0x1002C]
         source := .configured }]
    unresolvedJumps := [0x1002C] }

theorem switchedProgram_run :
    (seed switchedProgram).run switchedProgram = { nodes := [switchedFunction] } := by
  have scanned : switchedProgram.scan 0x10000 0x10030 =
      { limit := 0x10030, blocks := switchedFunction.blocks, calls := switchedFunction.calls
        jumpTables := switchedFunction.jumpTables
        unresolvedJumps := switchedFunction.unresolvedJumps } :=
    scan_of_explored (by decide) (by decide +kernel) (by decide)
  rw [run_single rfl rfl scanned]
  · decide
  · exact List.forall_mem_nil _
  · rfl

/-- One branch of each kind. -/
theorem switchedProgram_resolves :
    (∀ table ∈ switchedFunction.jumpTables, table.source = .recognized →
      table.ReadFrom switchedProgram.image) ∧
    ∀ site ∈ [0x10018, 0x10024, 0x10028, 0x1002C],
      switchedFunction.Resolves switchedProgram site := by
  have graph : run switchedProgram (((seed switchedProgram).addEntries switchedProgram
      []).addVTables switchedProgram []) = { nodes := [switchedFunction] } := switchedProgram_run
  have resolves := run_resolves switchedProgram [] []
  rw [graph] at resolves
  obtain ⟨stored, branches⟩ := resolves switchedFunction List.mem_cons_self
  refine ⟨fun table member => (stored table member).2, ?_⟩
  have computed : ∀ block ∈ switchedFunction.blocks, ∀ site, aligned site → block.contains site →
      switchedProgram.image.read? site = some 0x4E800420 ∧
        (Instruction.decode site 0x4E800420).opcode = .bctr →
      switchedFunction.Resolves switchedProgram site := by
    intro block among site word inside ⟨read, opcode⟩
    obtain ⟨other, otherRead, resolved⟩ := branches block among site word inside
    cases read.symm.trans otherRead
    exact resolved (Or.inl opcode)
  simp only [List.forall_mem_cons, List.not_mem_nil, false_implies, implies_true, and_true]
  refine ⟨?_, ?_, ?_, ?_⟩
  · exact computed { start := 0x10000, stop := 0x1001C } (by decide) _ rfl rfl (by decide +kernel)
  · exact computed { start := 0x10024, stop := 0x10028 } (by decide) _ rfl rfl (by decide +kernel)
  · exact computed { start := 0x10028, stop := 0x1002C } (by decide) _ rfl rfl (by decide +kernel)
  · exact computed { start := 0x1002C, stop := 0x10030 } (by decide) _ rfl rfl (by decide +kernel)

end Discovery

end PowerLift
