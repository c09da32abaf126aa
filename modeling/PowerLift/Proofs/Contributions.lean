import Mathlib
import PowerLift.Proofs.BlockCover
import PowerLift.Proofs.Extents
import PowerLift.Proofs.Recorded

/-!
What instructions contribute to the function that they belong to. All that the instruction at a
covered word contributes is recorded, and every recorded table is that of the branch at its
address. Nothing is assumed about the image: a walk is counted in words, also where it passes the
top of the address space.
-/

namespace PowerLift

/-- All that a step contributes is recorded. -/
structure Step.Among (step : Step) (calls : List Call) (jumpTables : List JumpTable)
    (unresolvedJumps : List UInt32) : Prop where
  calls : step.calls ⊆ calls
  jumpTables : step.jumpTables ⊆ jumpTables
  unresolvedJumps : step.unresolvedJumps ⊆ unresolvedJumps

theorem Step.Among.mono {step : Step} {calls moreCalls : List Call}
    {tables moreTables : List JumpTable} {jumps moreJumps : List UInt32}
    (among : step.Among calls tables jumps) (callsSubset : calls ⊆ moreCalls)
    (tablesSubset : tables ⊆ moreTables) (jumpsSubset : jumps ⊆ moreJumps) :
    step.Among moreCalls moreTables moreJumps :=
  ⟨List.Subset.trans among.calls callsSubset, List.Subset.trans among.jumpTables tablesSubset,
    List.Subset.trans among.unresolvedJumps jumpsSubset⟩

/-! ## Walks -/

namespace Program

theorem walk_contributes (program : Program) (window : Window) (scan : Scan) (extent : UInt32)
    (fuel : Nat) (address : UInt32) :
    ∃ count, (program.walk window scan extent fuel address).1 =
        address + UInt32.ofNat (4 * count) ∧
      ∀ index < count, ∃ insn,
        program.instruction? (address + UInt32.ofNat (4 * index)) = some insn ∧
          (program.step window extent insn).Among
            (program.walk window scan extent fuel address).2.calls
            (program.walk window scan extent fuel address).2.jumpTables
            (program.walk window scan extent fuel address).2.unresolvedJumps := by
  have here : ∀ address : UInt32, address + UInt32.ofNat (4 * 0) = address := by simp
  induction fuel generalizing address with
  | zero => exact ⟨0, (here address).symm, fun _ below => absurd below (Nat.not_lt_zero _)⟩
  | succ fuel ih =>
      rw [walk]
      split
      · exact ⟨0, (here address).symm, fun _ below => absurd below (Nat.not_lt_zero _)⟩
      · split
        · exact ⟨0, (here address).symm, fun _ below => absurd below (Nat.not_lt_zero _)⟩
        next insn found =>
          simp only
          split
          · refine ⟨1, rfl, ?_⟩
            intro index below
            obtain rfl : index = 0 := by omega
            rw [here]
            exact ⟨insn, found, fun _ => id, fun _ => id, fun _ => id⟩
          · obtain ⟨count, finish, rest⟩ := ih (address + 4)
            refine ⟨count + 1, by rw [Image.add_words_succ]; exact finish, ?_⟩
            intro index below
            cases index with
            | zero =>
                rw [here]
                exact ⟨insn, found, List.subset_append_left _ _, List.subset_append_left _ _,
                  List.subset_append_left _ _⟩
            | succ index =>
                rw [Image.add_words_succ]
                obtain ⟨other, otherFound, among⟩ := rest index (by omega)
                exact ⟨other, otherFound, among.mono (List.subset_append_right _ _)
                  (List.subset_append_right _ _) (List.subset_append_right _ _)⟩

/-- A table that is accepted for the branch at some word. -/
def Accepts (program : Program) (window : Window) (table : JumpTable) : Prop :=
  ∃ site insn, aligned site ∧ program.instruction? site = some insn ∧
    program.acceptedTable? window insn = some table

theorem walk_accepts (program : Program) (window : Window) (scan : Scan) (extent : UInt32)
    (fuel : Nat) {address : UInt32} (word : aligned address) :
    ∀ table ∈ (program.walk window scan extent fuel address).2.jumpTables,
      program.Accepts window table := by
  induction fuel generalizing address with
  | zero => exact fun _ none => absurd none List.not_mem_nil
  | succ fuel ih =>
      rw [walk]
      split
      · exact fun _ none => absurd none List.not_mem_nil
      · split
        · exact fun _ none => absurd none List.not_mem_nil
        next insn found =>
          have own : ∀ table ∈ (program.step window extent insn).jumpTables,
              program.Accepts window table := by
            intro table member
            exact ⟨address, insn, word, found, ownStep_jumpTables member⟩
          simp only
          split
          · exact own
          · exact List.forall_mem_append.mpr ⟨own, ih (aligned_add_four word)⟩

end Program

/-! ## Scans -/

namespace Exploration

/-- The instruction at every covered word has contributed, and every table comes from one. -/
structure Contributed (state : Exploration) (program : Program) (window : Window) : Prop where
  word : ∀ address, aligned address → state.scan.covers address →
    ∃ insn extent, program.instruction? address = some insn ∧
      (program.step window extent insn).Among state.scan.calls state.scan.jumpTables
        state.scan.unresolvedJumps
  table : ∀ table ∈ state.scan.jumpTables, program.Accepts window table

theorem contributed_start (program : Program) (window : Window) :
    (start window).Contributed program window where
  word := fun _ _ covered => by cases covered
  table := fun _ none => absurd none List.not_mem_nil

/-- The words of a block are among those that its walk passed. -/
theorem exists_walked {start finish address : UInt32} {count : Nat} (word : aligned address)
    (startWord : aligned start) (walked : finish = start + UInt32.ofNat (4 * count))
    (inside : Span.contains { start, stop := finish } address) :
    ∃ index < count, start + UInt32.ofNat (4 * index) = address := by
  obtain ⟨above, below⟩ := Span.contains_iff.mp inside
  have number := aligned_iff.mp word
  have startNumber := aligned_iff.mp startWord
  have distance : finish.toNat ≤ start.toNat + 4 * count := by
    rw [walked, UInt32.toNat_add, UInt32.toNat_ofNat']
    omega
  simp only at above below
  refine ⟨(address.toNat - start.toNat) / 4, by omega, UInt32.toNat_inj.mp ?_⟩
  have limit := address.toNat_lt
  rw [UInt32.toNat_add, UInt32.toNat_ofNat']
  omega

theorem Contributed.record {state : Exploration} {program : Program} {window : Window}
    {start finish : UInt32} {step : Step} (contributed : state.Contributed program window)
    (walked : walkFrom program window state start = (finish, step)) (startWord : aligned start) :
    (state.record window start finish step).Contributed program window where
  word := by
    intro address word covered
    obtain ⟨block, member, inside⟩ := Scan.covers_iff.mp covered
    rcases mem_record_blocks member with old | ⟨order, rfl⟩
    · obtain ⟨insn, extent, found, among⟩ :=
        contributed.word address word (Scan.covers_iff.mpr ⟨block, old, inside⟩)
      exact ⟨insn, extent, found, among.mono (List.subset_append_left _ _)
        (List.subset_append_left _ _) (List.subset_append_left _ _)⟩
    · obtain ⟨count, stops, contributes⟩ := program.walk_contributes window state.scan state.extent
        (window.wordCount + 1) start
      rw [show program.walk window _ _ _ _ = _ from walked] at stops contributes
      obtain ⟨index, below, rfl⟩ := exists_walked word startWord stops inside
      obtain ⟨insn, found, among⟩ := contributes index below
      exact ⟨insn, state.extent, found, among.mono (List.subset_append_right _ _)
        (List.subset_append_right _ _) (List.subset_append_right _ _)⟩
  table := by
    have accepts := program.walk_accepts window state.scan state.extent (window.wordCount + 1)
      startWord
    rw [show program.walk window _ _ _ _ = _ from walked] at accepts
    exact List.forall_mem_append.mpr ⟨contributed.table, accepts⟩

theorem Contributed.visit {state : Exploration} {pending : List UInt32} {program : Program}
    {window : Window} (contributed : state.Contributed program window) (start : UInt32) :
    (visit program window { state with pending } start).Contributed program window := by
  have dropped : Contributed { state with pending } program window :=
    ⟨contributed.word, contributed.table⟩
  rcases visit_cases program window { state with pending } start with
    ⟨equation, _⟩ | ⟨equation, _⟩ | ⟨finish, step, walked, equation, _, startWord, _⟩
  · rw [equation]
    exact dropped
  · rw [equation]
    exact ⟨dropped.word, dropped.table⟩
  · rw [equation]
    exact dropped.record walked startWord

end Exploration

namespace Program

theorem scan_contributed (program : Program) {entry limit : UInt32} (nonempty : entry < limit) :
    ∃ state : Exploration, state.Contributed program { entry, limit } ∧
      state.Tidy program { entry, limit } ∧ program.scan entry limit = state.result := by
  refine ⟨_, ?_, (Exploration.tidy_start program nonempty).run _,
    Exploration.scan_eq_result nonempty⟩
  apply Exploration.run_keeps fun state => state.Contributed program { entry, limit }
  · intro state start pending _ contributed
    exact contributed.visit start
  · exact Exploration.contributed_start program _

theorem scan_contributes {program : Program} {entry limit address : UInt32}
    (word : aligned address) (covered : (program.scan entry limit).covers address) :
    ∃ insn extent, program.instruction? address = some insn ∧
      (program.step { entry, limit } extent insn).Among (program.scan entry limit).calls
        (program.scan entry limit).jumpTables (program.scan entry limit).unresolvedJumps := by
  by_cases nonempty : entry < limit
  · obtain ⟨state, contributed, tidy, same⟩ := program.scan_contributed nonempty
    rw [same] at covered ⊢
    exact contributed.word address word ((tidy.result_covers address).mp covered)
  · rw [scan, if_pos (UInt32.not_lt.mp nonempty)] at covered
    cases covered

/-- A table of a scan is the one that is accepted for the branch at its address. -/
theorem scan_accepts {program : Program} {entry limit : UInt32} {table : JumpTable}
    (member : table ∈ (program.scan entry limit).jumpTables) :
    ∃ insn, program.instruction? table.address = some insn ∧
      program.acceptedTable? { entry, limit } insn = some table := by
  have entryWord : aligned entry := by
    by_contra odd
    rw [program.scan_of_misaligned odd] at member
    cases member
  by_cases nonempty : entry < limit
  · obtain ⟨state, contributed, _, same⟩ := program.scan_contributed nonempty
    rw [same] at member
    obtain ⟨site, insn, siteWord, found, accepted⟩ := contributed.table table member
    rw [(acceptedTable?_address entryWord siteWord found accepted).1]
    exact ⟨insn, found, accepted⟩
  · rw [scan, if_pos (UInt32.not_lt.mp nonempty)] at member
    cases member

theorem scan_tables_unique {program : Program} {entry limit : UInt32} {table other : JumpTable}
    (member : table ∈ (program.scan entry limit).jumpTables)
    (otherMember : other ∈ (program.scan entry limit).jumpTables)
    (same : other.address = table.address) : other = table := by
  obtain ⟨insn, found, accepted⟩ := scan_accepts member
  obtain ⟨otherInsn, otherFound, otherAccepted⟩ := scan_accepts otherMember
  rw [same, found] at otherFound
  cases otherFound
  exact Option.some.inj (otherAccepted.symm.trans accepted)

end Program

/-! ## Functions -/

namespace FunctionNode

theorem foldl_addBlock_covered {blocks : List Span} {node : FunctionNode} {address : UInt32}
    (placed : Placed node.blocks) (apart : Apart node.blocks)
    (inside : address ∈ Span.covered (blocks.foldl addBlock node).blocks) :
    address ∈ Span.covered node.blocks ∨ address ∈ Span.covered blocks := by
  induction blocks generalizing node with
  | nil => exact Or.inl inside
  | cons first rest ih =>
      rw [Span.mem_covered_cons]
      rcases ih (placed.addBlock first) (apart.insertBlock placed first) inside with before | later
      · have among := covered_insertBlock_subset placed apart first before
        rcases Span.mem_covered_cons.mp among with own | old
        · exact Or.inr (Or.inl own)
        · exact Or.inl old
      · exact Or.inr (Or.inr later)

theorem absorb_contains {scan : Scan} {node : FunctionNode} (empty : node.blocks = [])
    {block : Span} {address : UInt32} (member : block ∈ (absorb scan node).blocks)
    (inside : block.contains address) : scan.covers address := by
  rw [absorb_frame (·.blocks) (fun _ _ => rfl) (fun _ _ => rfl) (fun _ _ => rfl)] at member
  have placed : Placed node.blocks := by
    rw [empty]
    exact ⟨.nil, fun _ none => absurd none List.not_mem_nil⟩
  have apart : Apart node.blocks := by
    rw [empty]
    exact .nil
  rcases foldl_addBlock_covered placed apart ⟨block, member, inside⟩ with old | added
  · rw [empty] at old
    exact absurd old Span.mem_covered_nil
  · exact Scan.covers_iff.mpr added

theorem mem_of_mem_insert {table other : JumpTable} {tables : List JumpTable}
    (member : other ∈ table.insert tables) : other = table ∨ other ∈ tables := by
  induction tables with
  | nil => exact Or.inl (List.mem_singleton.mp member)
  | cons head rest ih =>
      simp only [JumpTable.insert] at member
      split at member
      · exact List.mem_cons.mp member
      · split at member
        · exact (List.mem_cons.mp member).imp_right (List.mem_cons_of_mem _)
        · rcases List.mem_cons.mp member with rfl | later
          · exact Or.inr List.mem_cons_self
          · exact (ih later).imp_right (List.mem_cons_of_mem _)

theorem mem_of_mem_foldl_addJumpTable {items : List JumpTable} {node : FunctionNode}
    {table : JumpTable} (member : table ∈ (items.foldl addJumpTable node).jumpTables) :
    table ∈ node.jumpTables ∨ table ∈ items := by
  induction items generalizing node with
  | nil => exact Or.inl member
  | cons first rest ih =>
      rcases ih member with former | later
      · rcases mem_of_mem_insert former with rfl | old
        · exact Or.inr List.mem_cons_self
        · exact Or.inl old
      · exact Or.inr (List.mem_cons_of_mem _ later)

theorem absorb_jumpTables_subset {scan : Scan} {node : FunctionNode}
    (empty : node.jumpTables = []) : (absorb scan node).jumpTables ⊆ scan.jumpTables := by
  intro table member
  have same : (absorb scan node).jumpTables = (scan.jumpTables.foldl addJumpTable
      (scan.calls.foldl addCall (scan.blocks.foldl addBlock node))).jumpTables :=
    foldl_addUnresolvedJump (·.jumpTables) (fun _ _ => rfl) _ _
  rw [same] at member
  rcases mem_of_mem_foldl_addJumpTable member with former | found
  · rw [foldl_addCall (·.jumpTables) (fun _ _ => rfl),
      foldl_field (·.jumpTables) addBlock (fun _ _ => rfl), empty] at former
    cases former
  · exact found

theorem mem_foldl_addUnresolvedJump {sites : List UInt32} {node : FunctionNode} {site : UInt32}
    (member : site ∈ node.unresolvedJumps ∨ site ∈ sites) :
    site ∈ (sites.foldl addUnresolvedJump node).unresolvedJumps := by
  induction sites generalizing node with
  | nil => exact member.resolve_right List.not_mem_nil
  | cons first rest ih =>
      have added : first ∈ (node.addUnresolvedJump first).unresolvedJumps ∧
          node.unresolvedJumps ⊆ (node.addUnresolvedJump first).unresolvedJumps := by
        unfold addUnresolvedJump
        split
        next known => exact ⟨by simpa using known, List.Subset.refl _⟩
        next => exact ⟨List.mem_append_right _ List.mem_cons_self, List.subset_append_left _ _⟩
      apply ih
      rcases member with old | new
      · exact Or.inl (added.2 old)
      · rcases List.mem_cons.mp new with rfl | later
        · exact Or.inl added.1
        · exact Or.inr later

/-- What a function records is what its instructions contribute. -/
structure Reflects (node : FunctionNode) (program : Program) (window : Window) : Prop where
  entry : node.blocks ≠ [] → aligned window.entry
  word : ∀ block ∈ node.blocks, ∀ address, aligned address → block.contains address →
    ∃ insn extent, program.instruction? address = some insn ∧
      (program.step window extent insn).Among node.calls node.jumpTables node.unresolvedJumps
  table : ∀ table ∈ node.jumpTables, ∃ insn, program.instruction? table.address = some insn ∧
    program.acceptedTable? window insn = some table

theorem Blank.reflects {blank : FunctionNode} (isBlank : blank.Blank) (program : Program)
    (entry limit : UInt32) :
    (absorb (program.scan entry limit) blank).Reflects program { entry, limit } where
  entry := by
    intro found
    by_contra odd
    rw [program.scan_of_misaligned odd] at found
    exact found isBlank.blocks
  word := by
    intro block member address word inside
    have covered := absorb_contains isBlank.blocks member inside
    obtain ⟨insn, extent, found, among⟩ := Program.scan_contributes word covered
    refine ⟨insn, extent, found, among.mono (absorb_calls _ _) ?_ ?_⟩
    · intro table recorded
      exact absorb_jumpTables recorded
        (fun other otherRecorded => Program.scan_tables_unique recorded otherRecorded) _
    · exact fun site recorded => mem_foldl_addUnresolvedJump (Or.inr recorded)
  table := by
    intro table member
    exact Program.scan_accepts (absorb_jumpTables_subset isBlank.jumpTables member)

end FunctionNode

theorem Discovery.run_reflects {program : Program} {hints : List UInt32} {tables : List VTable}
    {node : FunctionNode}
    (member : node ∈ ((((seed program).addEntries program hints).addVTables program tables).run
      program).nodes) :
    ∃ limit, node.Reflects program { entry := node.address, limit } := by
  obtain ⟨limit, blank, isBlank, same⟩ := run_absorbs member
  have reflects := isBlank.reflects program node.address limit
  have content : node.bare.Reflects program { entry := node.address, limit } := by
    rw [same]
    exact ⟨reflects.entry, reflects.word, reflects.table⟩
  exact ⟨limit, content.entry, content.word, content.table⟩

end PowerLift
