import Mathlib
import PowerLift.Proofs.Assembly

/-!
Where direct branches of a discovered function land: at one of its blocks, at another function, or
inside of the declared range of another. Only a branch far into the declared range of its own
function can miss, since the scan takes it for a tail call and the range admits no entry.
-/

namespace PowerLift

namespace FunctionOverride

/-- A declared range, of no chunk, with an address after its start. -/
def Encloses (owner : FunctionOverride) (address : UInt32) : Prop :=
  owner.isChunk = false ∧ ∃ size, owner.extent = some size ∧ owner.address < address ∧
    address < owner.address + size

end FunctionOverride

namespace Instruction

/-- A branch to a fixed address that leaves no return address. -/
def isDirectBranch (insn : Instruction) : Bool :=
  insn.opcode == .b || insn.opcode == .bc

theorem transfer_of_isDirectBranch {insn : Instruction} (branch : insn.isDirectBranch) :
    insn.transfer = .jump ∨ insn.transfer = .conditional := by
  simp only [isDirectBranch, Bool.or_eq_true, beq_iff_eq] at branch
  rcases branch with opcode | opcode
  · exact Or.inl (by rw [transfer, opcode])
  · rw [transfer, opcode]
    simp only
    split
    · exact Or.inl rfl
    · exact Or.inr rfl

end Instruction

namespace Program

/-- A direct branch goes on at its target if that is local, and else is a tail call. -/
theorem step_directBranch (program : Program) (window : Window) {address word : UInt32}
    (extent : UInt32) {target : UInt32}
    (branch : (Instruction.decode address word).isDirectBranch)
    (goes : (Instruction.decode address word).target = some target) :
    if program.isLocal window (max extent (address + 4)) target then
      target ∈ (program.step window extent (Instruction.decode address word)).successors
    else
      Call.tail address target ∈
        (program.step window extent (Instruction.decode address word)).calls := by
  have transfer := Instruction.transfer_of_isDirectBranch branch
  have transfers : (Instruction.decode address word).transfer ≠ .none := by
    rcases transfer with jump | conditional
    · simp [jump]
    · simp [conditional]
  obtain ⟨noTrap, noCall, noReturn⟩ := Instruction.plain_of_transfer transfers
  have here : (Instruction.decode address word).address = address := rfl
  rw [← Instruction.effects_transfer] at transfer
  simp only [step, ownStep, here, if_neg noTrap, if_neg noCall, if_neg noReturn]
  rcases transfer with jump | conditional
  · simp only [jump, goes]
    split <;> simp [callStep]
  · simp only [conditional, goes]
    split <;> simp [callStep]

/-- A target in the window that is not local is further from the entry than the threshold. -/
theorem threshold_lt_of_not_local {program : Program} {window : Window} {reached target : UInt32}
    (inside : window.contains target) (after : window.entry ≤ reached)
    (far : program.isLocal window reached target = false) :
    program.config.analysis.largeFunctionThreshold.toNat <
      target.toNat - window.entry.toNat := by
  simp only [isLocal, inside, Bool.true_and, Bool.or_eq_false_iff, decide_eq_false_iff_not,
    UInt32.not_le, UInt32.not_lt] at far
  obtain ⟨beyond, large⟩ := far
  have order := UInt32.le_iff_toNat_le.mp after
  have limit := reached.toNat_lt
  rw [UInt32.le_iff_toNat_le, toNat_sub order] at large
  rw [UInt32.lt_iff_toNat_lt, toNat_saturatingAdd] at beyond
  omega

end Program

namespace Discovery

/-- A branch lands at a block of its function, at a function, or inside of the declared range of
another function. -/
def Lands (program : Program) (graph : Graph) (node : FunctionNode) (target : UInt32) : Prop :=
  (∃ block ∈ node.blocks, block.start = target) ∨
    (∃ other ∈ graph.nodes, other.address = target) ∨
    ∃ owner ∈ program.config.functions, owner.address ≠ node.address ∧ owner.Encloses target

/-- A branch leaves its function by a tail call to where no function can begin: its target lies in
the declared range of the function itself, past its section or past the threshold for large
functions. -/
structure Stranded (program : Program) (node : FunctionNode) (site target : UInt32) : Prop where
  own : ∃ owner ∈ program.config.functions, owner.address = node.address ∧ owner.Encloses target
  alone : ∀ owner ∈ program.config.functions, owner.Encloses target →
    owner.address = node.address
  undeclared : ¬ program.config.Declares target
  unbegun : ∀ block ∈ node.blocks, block.start ≠ target
  tail : Call.tail site target ∈ node.calls
  far : (∃ sect, program.image.sectionAt? node.address = some sect ∧ sect.stop ≤ target) ∨
    program.config.analysis.largeFunctionThreshold.toNat < target.toNat - node.address.toNat

section

variable {program : Program} {state : Discovery}

/-- An entry with code, or one that is declared, is a function of the graph. -/
theorem exists_node_of_usable (final : state.Final program)
    (valid : program.config.validate.valid) (bounded : ∀ window, program.Bounded window)
    {address : UInt32} (member : address ∈ state.entries) (usable : program.Usable address) :
    ∃ node ∈ (state.toGraph program).nodes, node.address = address := by
  apply exists_toGraph_node final valid member
  by_cases declares : program.config.Declares address
  · exact Or.inl declares
  · right
    have free := extentAt_of_undeclared declares
    have nonempty := final.lt_limitOf valid member (by simp [free])
    obtain ⟨block, among, _⟩ :=
      Program.scan_begins nonempty (bounded _) (final.aligned valid member) usable
    exact List.ne_nil_of_mem among

theorem Stranded.not_lands (final : state.Final program) (valid : program.config.validate.valid)
    {node : FunctionNode} {site target : UInt32} (stranded : Stranded program node site target) :
    ¬ Lands program (state.toGraph program) node target := by
  rintro (⟨block, among, start⟩ | ⟨other, among, rfl⟩ | ⟨owner, among, elsewhere, encloses⟩)
  · exact stranded.unbegun block among start
  · -- A function that begins at the target was declared there or admitted, and the range of the
    -- branching function admits nothing inside of it.
    obtain ⟨entry, _⟩ := toGraph_node final valid among
    rcases final.origin _ entry with declares | admitted
    · exact stranded.undeclared declares
    · obtain ⟨owner, inConfig, _, whole, size, extent, after, inside⟩ := stranded.own
      obtain ⟨inner, innerMember, same, _⟩ :=
        admits_inside inConfig whole extent after inside admitted
      exact stranded.undeclared ⟨inner, innerMember, same⟩
  · exact elsewhere (stranded.alone owner among encloses)

/-- How far a tail call into the declared range of the function itself goes. -/
theorem own_range_far (final : state.Final program) (valid : program.config.validate.valid)
    {entry : UInt32} (member : entry ∈ state.entries) {owner : FunctionOverride}
    (inConfig : owner ∈ program.config.functions) (here : owner.address = entry) {target : UInt32}
    (encloses : owner.Encloses target) {reached : UInt32} (after : entry ≤ reached)
    (left : program.isLocal { entry, limit := state.limitOf program entry } reached target =
      false) :
    (∃ sect, program.image.sectionAt? entry = some sect ∧ sect.stop ≤ target) ∨
      program.config.analysis.largeFunctionThreshold.toNat < target.toNat - entry.toNat := by
  subst here
  obtain ⟨_, size, extent, beyond, inside⟩ := encloses
  obtain ⟨sect, found, _⟩ := sectionAt?_of_isExecutable (final.coherent.executable _ member)
  by_cases ends : sect.stop ≤ target
  · exact Or.inl ⟨sect, found, ends⟩
  · right
    refine Program.threshold_lt_of_not_local ?_ after left
    have limit : target < state.limitOf program owner.address := by
      simp only [limitOf, found, Config.extentAt_function valid inConfig, extent]
      exact below_min (lt_saturatingAdd inside) (UInt32.not_le.mp ends)
    exact Window.contains_iff.mpr
      ⟨Nat.le_of_lt (UInt32.lt_iff_toNat_lt.mp beyond), UInt32.lt_iff_toNat_lt.mp limit⟩

/-- A direct branch to code either begins a block of its function or leaves it by a tail call. -/
theorem branch_begins_or_leaves (bounded : ∀ window, program.Bounded window)
    {entry site word target : UInt32} (siteWord : aligned site)
    (covered : (lastScan program state entry).covers site)
    (read : program.image.read? site = some word)
    (branch : (Instruction.decode site word).isDirectBranch)
    (goes : (Instruction.decode site word).target = some target) (targetWord : aligned target)
    (usable : program.Usable target) :
    (∃ block ∈ (lastScan program state entry).blocks, block.start = target) ∨
      Call.tail site target ∈ (lastScan program state entry).calls ∧
        ∃ reached, entry ≤ reached ∧
          program.isLocal { entry, limit := state.limitOf program entry } reached target =
            false := by
  have nonempty : entry < state.limitOf program entry := by
    by_contra empty
    rw [lastScan, Program.scan, if_pos (UInt32.not_lt.mp empty)] at covered
    simp [Scan.covers] at covered
  obtain ⟨insn, extent, found, siteInside, calls, begins⟩ :=
    Program.scan_follows nonempty (bounded _) siteWord covered
  obtain ⟨stored, storedRead, _, rfl, _⟩ := Program.instruction?_eq_some.mp found
  cases storedRead.symm.trans read
  have step := program.step_directBranch { entry, limit := state.limitOf program entry } extent
    branch goes
  split at step
  next stays =>
    have inside : Window.contains { entry, limit := state.limitOf program entry } target := by
      simp only [Program.isLocal, Bool.and_eq_true] at stays
      exact stays.1
    exact Or.inl (begins target step inside targetWord usable)
  next leaves =>
    refine Or.inr ⟨calls step, _, ?_, by simpa using leaves⟩
    have next := toNat_add_four (bounded _ site siteWord siteInside ⟨_, found⟩)
    have above := (Window.contains_iff.mp siteInside).1
    rw [UInt32.le_iff_toNat_le, toNat_max]
    simp only at above
    omega

end

/-- Direct branches to code land, but for those that strand in the declared range of their own
function. -/
theorem run_lands_iff {program : Program} (valid : program.config.validate.valid)
    (unread : program.image.read? lastWord = none) (hints : List UInt32) (tables : List VTable) :
    let graph :=
      (((seed program).addEntries program hints).addVTables program tables).run program
    ∀ node ∈ graph.nodes, ∀ block ∈ node.blocks, ∀ site word target, aligned site →
      block.contains site → program.image.read? site = some word →
      (Instruction.decode site word).isDirectBranch →
      (Instruction.decode site word).target = some target → aligned target →
      program.image.isExecutable target → program.Usable target →
        (Lands program graph node target ↔ ¬ Stranded program node site target) := by
  obtain ⟨state, final, same⟩ := run_final program hints tables
  rw [same]
  intro graph node member block among site word target siteWord inside read branch goes targetWord
    executable usable
  have bounded := bounded_of_unread unread
  refine ⟨fun lands stranded => stranded.not_lands final valid lands, ?_⟩
  intro sound
  by_contra misses
  simp only [Lands, not_or, not_exists, not_and] at misses
  obtain ⟨unbegun, absent, unclaimed⟩ := misses
  have noEntry : target ∉ state.entries := by
    intro known
    obtain ⟨other, otherMember, here⟩ := exists_node_of_usable final valid bounded known usable
    exact absent other otherMember here
  have blocks := toGraph_blocks final valid bounded member
  obtain ⟨entry, _⟩ := toGraph_node final valid member
  rw [blocks] at among
  have covered := Scan.covers_iff.mpr ⟨block, among, inside⟩
  rcases branch_begins_or_leaves bounded siteWord covered read branch goes targetWord usable with
    ⟨begun, begunMember, start⟩ | ⟨call, reached, after, left⟩
  · exact unbegun begun (blocks ▸ begunMember) start
  · -- A tail call makes an entry of its target, unless a declared range holds it.
    have scanned := final.settled.cached ▸ List.mem_map_of_mem entry
    rcases final.settled.called _ scanned _ call target rfl targetWord executable with
      known | ⟨owner, inConfig, encloses⟩
    · exact noEntry known
    · have own : owner.address = node.address := by
        by_contra elsewhere
        exact unclaimed owner inConfig elsewhere encloses
      refine sound ⟨⟨owner, inConfig, own, encloses⟩, ?_, ?_, unbegun,
        toGraph_calls final valid member call,
        own_range_far final valid entry inConfig own encloses after left⟩
      · intro other otherMember otherEncloses
        by_contra elsewhere
        exact unclaimed other otherMember elsewhere otherEncloses
      · intro declares
        exact noEntry (final.declared target declares executable)

/-! A declared function of four words that jumps over its second one. With a threshold of zero no
function is small. -/

def strandedProgram : Program where
  image := Image.ofCode 0x1000 #[0x48, 0x00, 0x00, 0x08, 0x60, 0x00, 0x00, 0x00,
    0x4E, 0x80, 0x00, 0x20, 0x60, 0x00, 0x00, 0x00]
  config :=
    { functions := [{ address := 0x1000, key := "0x1000", size := some 16 }]
      analysis := { maxJumpExtension := 0, largeFunctionThreshold := 0 } }

def strandedScan : Scan :=
  { limit := 0x1010
    blocks := [{ start := 0x1000, stop := 0x1004 }]
    calls := [Call.tail 0x1000 0x1008]
    newEntries := [0x1008] }

def strandedNode : FunctionNode :=
  { address := 0x1000, size := 16, authority := .configured, blocks := strandedScan.blocks,
    calls := strandedScan.calls }

theorem strandedProgram_scan : strandedProgram.scan 0x1000 0x1010 = strandedScan := by
  have explored :
      (Exploration.run strandedProgram { entry := 0x1000, limit := 0x1010 }
        (Program.scanFuel { entry := 0x1000, limit := 0x1010 })
        (Exploration.start { entry := 0x1000, limit := 0x1010 })).scan = strandedScan ∧
      (Exploration.run strandedProgram { entry := 0x1000, limit := 0x1010 }
        (Program.scanFuel { entry := 0x1000, limit := 0x1010 })
        (Exploration.start { entry := 0x1000, limit := 0x1010 })).splits = [] := by
    decide +kernel
  rw [Exploration.scan_eq_result (by decide), Exploration.result, explored.1, explored.2]
  simp [strandedScan, Scan.splitBlocks, Scan.cutAt]

theorem strandedProgram_discover :
    strandedProgram.discover [] = { nodes := [strandedNode] } := by
  change (seed strandedProgram).run strandedProgram = _
  rw [run_single rfl rfl strandedProgram_scan (List.forall_mem_singleton.mpr rfl)]
  · decide
  · rfl

theorem strandedProgram_valid : strandedProgram.config.validate.valid := by
  have ranges := Config.ranges_of_sorted (show (Config.firstPerAddress
    strandedProgram.config.functions).Pairwise _ by decide)
  rw [Config.validate, Report.valid, Config.errors, ranges]
  decide

theorem strandedNode_stranded : Stranded strandedProgram strandedNode 0x1000 0x1008 where
  own := ⟨_, List.mem_singleton_self _, rfl, rfl, 16, rfl, by decide, by decide⟩
  alone := by
    intro owner member _
    obtain rfl := List.mem_singleton.mp member
    rfl
  undeclared := by
    rintro ⟨entry, member, here⟩
    obtain rfl := List.mem_singleton.mp member
    exact absurd here (by decide)
  unbegun := by decide
  tail := List.mem_singleton_self _
  far := Or.inr (by decide)

/-- The jump misses: no block and no function begins at its target. -/
theorem strandedProgram_misses :
    strandedProgram.config.validate.valid ∧ strandedProgram.image.read? lastWord = none ∧
      strandedProgram.discover [] = { nodes := [strandedNode] } ∧
      ¬ Lands strandedProgram (strandedProgram.discover []) strandedNode 0x1008 := by
  have unread : strandedProgram.image.read? lastWord = none := by decide
  have usable : strandedProgram.Usable 0x1008 := by
    apply Option.isSome_iff_exists.mp
    decide +kernel
  have member : strandedNode ∈ (strandedProgram.discover []).nodes := by
    rw [strandedProgram_discover]
    exact List.mem_singleton_self _
  refine ⟨strandedProgram_valid, unread, strandedProgram_discover, ?_⟩
  intro lands
  exact (run_lands_iff strandedProgram_valid unread [] [] strandedNode member
    { start := 0x1000, stop := 0x1004 } (List.mem_singleton_self _) 0x1000 0x48000008 0x1008
    (by decide) (by decide) (by decide) (by decide +kernel) (by decide +kernel) (by decide)
    (by decide) usable).mp lands strandedNode_stranded

end Discovery

end PowerLift
