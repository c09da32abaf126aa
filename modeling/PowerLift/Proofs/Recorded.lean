import Mathlib
import PowerLift.Proofs.Scanned

/-!
What a discovered function records agrees with the instructions that it comes from. A call with a
target is that of the branch at its site, and a block goes straight: control enters it at any
word, and leaves it only at its end.
-/

namespace PowerLift

/-! ## Calls -/

namespace Program

/-- The target of a call is that of the instruction at its site. -/
def Records (program : Program) (call : Call) : Prop :=
  ∀ target, call.target = some target →
    ∃ insn, program.instruction? call.site = some insn ∧ insn.target = some target

theorem indirectStep_calls {program : Program} {window : Window} {insn : Instruction} {call : Call}
    (member : call ∈ (program.indirectStep window insn).calls) : call.target = none := by
  unfold indirectStep at member
  split at member
  · cases member
  · split at member
    · rw [List.mem_singleton.mp member]
      rfl
    · split at member <;> cases member

theorem ownStep_calls {program : Program} {window : Window} {reached : UInt32}
    {insn : Instruction} {call : Call}
    (member : call ∈ (program.ownStep window reached insn).calls) {target : UInt32}
    (known : call.target = some target) :
    call.site = insn.address ∧ insn.target = some target := by
  simp only [ownStep] at member
  split at member
  · cases member
  · split at member
    · cases member
    · split at member
      · cases member
      · cases transfer : insn.effects.transfer with
        | none | ret =>
            rw [transfer] at member
            cases member
        | indirectCall =>
            rw [transfer] at member
            rw [List.mem_singleton.mp member] at known
            cases known
        | call | jump | conditional =>
            simp only [transfer] at member
            split at member
            next branch =>
              split at member
              · cases member
              · rw [List.mem_singleton.mp member] at known ⊢
                exact ⟨rfl, branch.trans known⟩
            next => cases member
        | indirectJump =>
            rw [transfer] at member
            rw [indirectStep_calls member] at known
            cases known

theorem walk_calls (program : Program) (window : Window) (scan : Scan) (extent : UInt32)
    (fuel : Nat) (address : UInt32) :
    ∀ call ∈ (program.walk window scan extent fuel address).2.calls, program.Records call := by
  induction fuel generalizing address with
  | zero => exact fun _ none => absurd none List.not_mem_nil
  | succ fuel ih =>
      rw [walk]
      split
      · exact fun _ none => absurd none List.not_mem_nil
      · split
        · exact fun _ none => absurd none List.not_mem_nil
        next insn found =>
          have own : ∀ call ∈ (program.step window extent insn).calls, program.Records call := by
            intro call member target known
            obtain ⟨site, branch⟩ := ownStep_calls member known
            rw [site, instruction?_address found]
            exact ⟨insn, found, branch⟩
          simp only
          split
          · exact own
          · exact List.forall_mem_append.mpr ⟨own, ih (address + 4)⟩

theorem scan_calls {program : Program} {entry limit : UInt32} {call : Call}
    (member : call ∈ (program.scan entry limit).calls) : program.Records call := by
  by_cases nonempty : entry < limit
  · rw [Exploration.scan_eq_result nonempty] at member
    refine Exploration.run_keeps
      (fun state => ∀ call ∈ state.scan.calls, program.Records call) ?_ (scanFuel _) ?_ call member
    · intro state start pending _ recorded
      rcases Exploration.visit_cases program { entry, limit } { state with pending } start with
        ⟨equation, _⟩ | ⟨equation, _⟩ | ⟨finish, step, walked, equation, _⟩
      · rw [equation]
        exact recorded
      · rw [equation]
        exact recorded
      · rw [equation]
        have walk := walk_calls program { entry, limit } state.scan state.extent
          (Window.wordCount { entry, limit } + 1) start
        rw [show program.walk _ _ _ _ _ = (finish, step) from walked] at walk
        exact List.forall_mem_append.mpr ⟨recorded, walk⟩
    · exact fun _ none => absurd none List.not_mem_nil
  · rw [scan, if_pos (UInt32.not_lt.mp nonempty)] at member
    cases member

/-! ## Blocks -/

/-- Every word of a block is an instruction, and none but the last ends it. -/
def Straight (program : Program) (block : Span) : Prop :=
  aligned block.start ∧ ∀ address, aligned address → block.contains address →
    ∃ insn, program.instruction? address = some insn ∧
      (insn.endsBlock → block.stop.toNat ≤ address.toNat + 4)

theorem scan_straight {program : Program} {entry limit : UInt32}
    (bounded : program.Bounded { entry, limit }) {block : Span}
    (member : block ∈ (program.scan entry limit).blocks) : program.Straight block := by
  refine ⟨scan_start_aligned member, ?_⟩
  intro address word inside
  by_cases nonempty : entry < limit
  · obtain ⟨state, followed, tidy, _, same⟩ := scan_followed nonempty bounded
    rw [same] at member
    obtain ⟨whole, among, piece⟩ := Scan.mem_splitBlocks.mp member
    have isBlock := followed.block whole among
    obtain ⟨above, _, within, _⟩ := Scan.mem_cutAt (Scan.cuts_splitsIn tidy.splitsSorted whole)
      isBlock.nonempty piece
    obtain ⟨after, before⟩ := Span.contains_iff.mp inside
    obtain ⟨_, insn, found, ends⟩ := isBlock.word address word
      (Span.contains_iff.mpr ⟨by omega, by omega⟩)
    refine ⟨insn, found, ?_⟩
    intro closing
    have := ends closing
    omega
  · rw [scan, if_pos (UInt32.not_lt.mp nonempty)] at member
    cases member

end Program

/-! ## Functions of the graph -/

namespace FunctionNode

theorem mem_of_mem_foldl_addCall {calls : List Call} {node : FunctionNode} {call : Call}
    (member : call ∈ (calls.foldl addCall node).calls) : call ∈ node.calls ∨ call ∈ calls := by
  induction calls generalizing node with
  | nil => exact Or.inl member
  | cons first rest ih =>
      rcases ih member with former | later
      · unfold addCall at former
        split at former
        · exact Or.inl former
        · rcases List.mem_append.mp former with old | new
          · exact Or.inl old
          · rw [List.mem_singleton.mp new]
            exact Or.inr List.mem_cons_self
      · exact Or.inr (List.mem_cons_of_mem _ later)

theorem absorb_calls_subset {scan : Scan} {node : FunctionNode} (empty : node.calls = []) :
    (absorb scan node).calls ⊆ scan.calls := by
  intro call member
  have same : (absorb scan node).calls =
      (scan.calls.foldl addCall (scan.blocks.foldl addBlock node)).calls :=
    (foldl_addUnresolvedJump (·.calls) (fun _ _ => rfl) _ _).trans
      (foldl_addJumpTable (·.calls) (fun _ _ => rfl) _ _)
  rw [same] at member
  rcases mem_of_mem_foldl_addCall member with former | found
  · rw [foldl_field (·.calls) addBlock (fun _ _ => rfl), empty] at former
    cases former
  · exact found

end FunctionNode

namespace Discovery

variable {program : Program} {hints : List UInt32} {tables : List VTable} {node : FunctionNode}

theorem run_records
    (member : node ∈ ((((seed program).addEntries program hints).addVTables program tables).run
      program).nodes) {call : Call} (recorded : call ∈ node.calls) : program.Records call := by
  obtain ⟨limit, blank, isBlank, same⟩ := run_absorbs member
  have content := congrArg FunctionNode.calls same
  have calls : node.calls = (FunctionNode.absorb (program.scan node.address limit) blank).calls :=
    content
  rw [calls] at recorded
  exact Program.scan_calls (FunctionNode.absorb_calls_subset isBlank.calls recorded)

theorem run_straight (unread : program.image.read? lastWord = none)
    (member : node ∈ ((((seed program).addEntries program hints).addVTables program tables).run
      program).nodes) {block : Span} (recorded : block ∈ node.blocks) : program.Straight block := by
  obtain ⟨limit, blank, isBlank, same⟩ := run_absorbs member
  have bounded := bounded_of_unread unread { entry := node.address, limit }
  have content := congrArg FunctionNode.blocks same
  have blocks : node.blocks = (program.scan node.address limit).blocks :=
    content.trans (FunctionNode.absorb_blocks isBlank.blocks
      (fun block found => UInt32.lt_iff_toNat_lt.mpr (Program.scan_block found).2)
      (Program.scan_ordered bounded))
  rw [blocks] at recorded
  exact Program.scan_straight bounded recorded

end Discovery

end PowerLift
