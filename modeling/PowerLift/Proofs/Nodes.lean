import Mathlib
import PowerLift.Proofs.EntryBlock
import PowerLift.Proofs.FixedPoint

/-!
The blocks of functions in the graph of a discovery: none is before its function, and if there are
any then one begins the function.
-/

namespace PowerLift

/-! ## Placing a block -/

namespace FunctionNode

/-- Blocks by start that all hold something. -/
structure Placed (blocks : List Span) : Prop where
  sorted : AddressSet.Sorted (blocks.map (·.start))
  nonempty : ∀ block ∈ blocks, block.start < block.stop

theorem cutLast_starts (address : UInt32) (blocks : List Span) :
    (cutLast address blocks).1.map (·.start) = blocks.map (·.start) := by
  induction blocks with
  | nil => rfl
  | cons block rest ih =>
      cases rest with
      | nil =>
          simp only [cutLast]
          split <;> rfl
      | cons next rest => exact congrArg (block.start :: ·) ih

theorem cutLast_nonempty {address : UInt32} {blocks : List Span}
    (nonempty : ∀ block ∈ blocks, block.start < block.stop)
    (before : ∀ block ∈ blocks, block.start < address) :
    ∀ block ∈ (cutLast address blocks).1, block.start < block.stop := by
  induction blocks with
  | nil => exact nonempty
  | cons block rest ih =>
      cases rest with
      | nil =>
          intro other member
          simp only [cutLast] at member
          split at member
          · obtain rfl := List.mem_singleton.mp member
            exact before block List.mem_cons_self
          · exact nonempty other member
      | cons next rest =>
          intro other member
          rcases List.mem_cons.mp member with rfl | later
          · exact nonempty other List.mem_cons_self
          · exact ih (fun block among => nonempty block (List.mem_cons_of_mem _ among))
              (fun block among => before block (List.mem_cons_of_mem _ among)) other later

theorem placeBlock_starts (block : Span) (before after : List Span) :
    (placeBlock block before after).map (·.start) =
      before.map (·.start) ++ block.start :: after.map (·.start) := by
  simp only [placeBlock, List.map_append, List.map_cons, cutLast_starts]

theorem exists_place (block : Span) (blocks : List Span) :
    ∃ before after, blocks = before ++ after ∧
      blocks.takeWhile (·.start < block.start) = before ∧
      blocks.dropWhile (·.start < block.start) = after ∧
      (∀ other ∈ before, other.start < block.start) ∧
      ∀ next rest, after = next :: rest → block.start ≤ next.start := by
  refine ⟨_, _, List.takeWhile_append_dropWhile.symm, rfl, rfl, ?_, ?_⟩
  · intro other member
    simpa using List.mem_takeWhile_imp member
  · intro next rest same
    have first := List.head?_dropWhile_not (fun other : Span => other.start < block.start) blocks
    rw [same] at first
    simpa using first

theorem insertBlock_starts {block : Span} (nonempty : block.start < block.stop)
    (blocks : List Span) :
    (insertBlock block blocks).map (·.start) =
      AddressSet.insert block.start (blocks.map (·.start)) := by
  have holds : block.isEmpty = false := by simpa [Span.isEmpty] using nonempty
  obtain ⟨before, after, same, taken, dropped, below, above⟩ := exists_place block blocks
  have belowStarts : ∀ other ∈ before.map (·.start), other < block.start := by
    intro other member
    obtain ⟨span, among, rfl⟩ := List.mem_map.mp member
    exact below span among
  rw [insertBlock, holds, if_neg Bool.false_ne_true, taken, dropped, same, List.map_append,
    AddressSet.insert_append _ belowStarts]
  cases after with
  | nil => exact placeBlock_starts block before []
  | cons next rest =>
      simp only
      split
      next here => simp [AddressSet.insert, here]
      next there =>
        have beyond := UInt32.lt_of_le_of_ne (above next rest rfl) (Ne.symm there)
        rw [placeBlock_starts, List.map_cons, AddressSet.insert, if_pos beyond]

theorem firstStart_gt {start stop : UInt32} {after : List Span} (nonempty : start < stop)
    (above : ∀ other ∈ after, start < other.start) : start < firstStart after := by
  cases after with
  | nil =>
      have top := stop.toNat_lt
      rw [UInt32.lt_iff_toNat_lt] at nonempty ⊢
      change start.toNat < 4294967295
      omega
  | cons next rest => exact above next List.mem_cons_self

theorem placeBlock_nonempty {block : Span} {before after : List Span}
    (nonempty : block.start < block.stop)
    (beforeNonempty : ∀ other ∈ before, other.start < other.stop)
    (afterNonempty : ∀ other ∈ after, other.start < other.stop)
    (below : ∀ other ∈ before, other.start < block.start)
    (above : ∀ other ∈ after, block.start < other.start) :
    ∀ other ∈ placeBlock block before after, other.start < other.stop := by
  intro other member
  rcases List.mem_append.mp member with cut | later
  · exact cutLast_nonempty beforeNonempty below other cut
  · rcases List.mem_cons.mp later with rfl | among
    · exact below_min (below_max nonempty _) (firstStart_gt nonempty above)
    · exact afterNonempty other among

theorem Placed.insertBlock {blocks : List Span} (placed : Placed blocks) {block : Span}
    (nonempty : block.start < block.stop) : Placed (insertBlock block blocks) := by
  have holds : block.isEmpty = false := by simpa [Span.isEmpty] using nonempty
  refine ⟨insertBlock_starts nonempty blocks ▸ placed.sorted.insert, ?_⟩
  obtain ⟨before, after, same, taken, dropped, below, above⟩ := exists_place block blocks
  have ordered := List.pairwise_map.mp placed.sorted
  rw [same] at ordered
  obtain ⟨_, afterOrdered, _⟩ := List.pairwise_append.mp ordered
  have beforeNonempty : ∀ other ∈ before, other.start < other.stop := fun other member =>
    placed.nonempty other (same ▸ List.mem_append_left _ member)
  have afterNonempty : ∀ other ∈ after, other.start < other.stop := fun other member =>
    placed.nonempty other (same ▸ List.mem_append_right _ member)
  rw [FunctionNode.insertBlock, holds, if_neg Bool.false_ne_true, taken, dropped]
  cases after with
  | nil =>
      exact placeBlock_nonempty nonempty beforeNonempty afterNonempty below
        (fun _ member => absurd member List.not_mem_nil)
  | cons next rest =>
      obtain ⟨nextBelow, _⟩ := List.pairwise_cons.mp afterOrdered
      have nextNonempty := afterNonempty next List.mem_cons_self
      simp only
      split
      next here =>
        -- A block that grows still ends where the next one starts.
        intro other member
        rcases List.mem_append.mp member with earlier | later
        · exact beforeNonempty other earlier
        · rcases List.mem_cons.mp later with rfl | among
          · exact below_min (below_max nextNonempty _) (firstStart_gt nextNonempty nextBelow)
          · exact afterNonempty other (List.mem_cons_of_mem _ among)
      next there =>
        have beyond := UInt32.lt_of_le_of_ne (above next rest rfl) (Ne.symm there)
        refine placeBlock_nonempty nonempty beforeNonempty afterNonempty below ?_
        intro other member
        rcases List.mem_cons.mp member with rfl | among
        · exact beyond
        · exact UInt32.lt_trans beyond (nextBelow other among)

/-! ## Functions -/

/-- The blocks of a function lie at or after its address, and if there are any then one of them
starts there. -/
structure Anchored (node : FunctionNode) : Prop where
  placed : Placed node.blocks
  above : ∀ block ∈ node.blocks, node.address ≤ block.start
  entry : node.blocks ≠ [] → ∃ block ∈ node.blocks, block.start = node.address

theorem anchored_of_empty {node : FunctionNode} (empty : node.blocks = []) : node.Anchored where
  placed := by
    rw [empty]
    exact ⟨.nil, fun _ member => absurd member List.not_mem_nil⟩
  above := by simp [empty]
  entry := fun found => absurd empty found

theorem Anchored.of_eq {node changed : FunctionNode} (anchored : node.Anchored)
    (address : changed.address = node.address) (blocks : changed.blocks = node.blocks) :
    changed.Anchored where
  placed := blocks ▸ anchored.placed
  above := by
    rw [address, blocks]
    exact anchored.above
  entry := by
    rw [address, blocks]
    exact anchored.entry

theorem addBlocks_placed {blocks : List Span}
    (nonempty : ∀ block ∈ blocks, block.start < block.stop) {node : FunctionNode}
    (placed : Placed node.blocks) :
    Placed (blocks.foldl addBlock node).blocks ∧
      (blocks.foldl addBlock node).blocks.map (·.start) =
        AddressSet.insertAll (blocks.map (·.start)) (node.blocks.map (·.start)) := by
  induction blocks generalizing node with
  | nil => exact ⟨placed, rfl⟩
  | cons block rest ih =>
      have first := nonempty block List.mem_cons_self
      obtain ⟨restPlaced, starts⟩ := ih
        (fun other member => nonempty other (List.mem_cons_of_mem _ member))
        (show Placed (node.addBlock block).blocks from placed.insertBlock first)
      refine ⟨restPlaced, starts.trans ?_⟩
      rw [addBlock, insertBlock_starts first]
      rfl

end FunctionNode

/-! ## The graph of a discovery -/

namespace Graph

/-- All functions have their blocks in place. -/
def Anchored (graph : Graph) : Prop :=
  ∀ node ∈ graph.nodes, node.Anchored

theorem takeOver_anchored {node : FunctionNode} (anchored : node.Anchored) (size : UInt32)
    (authority : Authority) : (takeOver node size authority).Anchored := by
  unfold takeOver
  split
  · exact anchored.of_eq rfl rfl
  · exact anchored

/-- What holds of a new function, and is kept where configuration takes over, holds of all functions
after one is added. -/
theorem insertNode_forall {property : FunctionNode → Prop} {address size : UInt32}
    {authority : Authority} (fresh : property { address, size, authority })
    (taken : ∀ node, property node → property (takeOver node size authority))
    {nodes : List FunctionNode} (holds : ∀ node ∈ nodes, property node) :
    ∀ node ∈ insertNode address size authority nodes, property node := by
  induction nodes with
  | nil => exact List.forall_mem_singleton.mpr fresh
  | cons head rest ih =>
      obtain ⟨headHolds, restHolds⟩ := List.forall_mem_cons.mp holds
      simp only [insertNode]
      split
      · exact List.forall_mem_cons.mpr ⟨fresh, holds⟩
      · split
        · exact List.forall_mem_cons.mpr ⟨taken head headHolds, restHolds⟩
        · exact List.forall_mem_cons.mpr ⟨headHolds, ih restHolds⟩

theorem Anchored.addFunction {graph : Graph} (anchored : graph.Anchored)
    (address size : UInt32) (authority : Authority) :
    (graph.addFunction address size authority).Anchored :=
  insertNode_forall (FunctionNode.anchored_of_empty rfl)
    (fun _ former => takeOver_anchored former size authority) anchored

theorem Anchored.adjust {graph : Graph} (anchored : graph.Anchored) {address : UInt32}
    {change : FunctionNode → FunctionNode}
    (keeps : ∀ node, node.Anchored → node.address = address → (change node).Anchored) :
    (graph.adjust address change).Anchored := by
  intro node member
  obtain ⟨former, among, rfl⟩ := List.mem_map.mp member
  split
  next here => exact keeps former (anchored former among) here
  next => exact anchored former among

end Graph

namespace Discovery

theorem addBlocks_anchored (program : Program) {entry : UInt32} (limit : UInt32)
    {node : FunctionNode} (anchored : node.Anchored) (here : node.address = entry) :
    ((program.scan entry limit).blocks.foldl FunctionNode.addBlock node).Anchored := by
  have nonempty : ∀ block ∈ (program.scan entry limit).blocks, block.start < block.stop :=
    fun block member => UInt32.lt_iff_toNat_lt.mpr (Program.scan_block member).2
  obtain ⟨placed, starts⟩ := FunctionNode.addBlocks_placed nonempty anchored.placed
  have address : ((program.scan entry limit).blocks.foldl FunctionNode.addBlock node).address =
      entry := (Graph.foldl_stays Graph.addBlock_stays _ node).trans here
  refine ⟨placed, ?_, ?_⟩
  · intro block member
    have start := List.mem_map_of_mem (f := (·.start)) member
    rw [starts, AddressSet.mem_insertAll] at start
    rw [address]
    rcases start with scanned | former
    · obtain ⟨other, among, same⟩ := List.mem_map.mp scanned
      have inside := (Window.contains_iff.mp (Program.scan_block among).1).1
      rw [← same]
      exact UInt32.le_iff_toNat_le.mpr inside
    · obtain ⟨other, among, same⟩ := List.mem_map.mp former
      rw [← same, ← here]
      exact anchored.above other among
  · intro found
    rw [address]
    have begins : entry ∈ ((program.scan entry limit).blocks.foldl FunctionNode.addBlock
        node).blocks.map (·.start) := by
      by_cases none : (program.scan entry limit).blocks = []
      · rw [none] at found ⊢
        obtain ⟨block, among, same⟩ := anchored.entry found
        exact List.mem_map.mpr ⟨block, among, same.trans here⟩
      · rw [starts, AddressSet.mem_insertAll]
        obtain ⟨block, among, same⟩ := Program.scan_entry none
        exact Or.inl (List.mem_map.mpr ⟨block, among, same⟩)
    exact List.mem_map.mp begins

theorem addScan_anchored {graph : Graph} (anchored : graph.Anchored) (program : Program)
    (entry limit : UInt32) : (addScan graph entry (program.scan entry limit)).Anchored := by
  rw [addScan_eq]
  split
  · exact anchored
  · refine (anchored.addFunction entry 0 .discovered).adjust ?_
    intro node nodeAnchored here
    refine (addBlocks_anchored program limit nodeAnchored here).of_eq ?_ ?_
    · exact FunctionNode.absorb_frame (·.address) (fun _ _ => rfl) (fun _ _ => rfl)
        (fun _ _ => rfl) _ node
    · exact FunctionNode.absorb_frame (·.blocks) (fun _ _ => rfl) (fun _ _ => rfl)
        (fun _ _ => rfl) _ node

theorem addDeclared_anchored {graph : Graph} (anchored : graph.Anchored) (state : Discovery)
    (entry : FunctionOverride) : (state.addDeclared graph entry).Anchored := by
  unfold addDeclared
  split
  · split
    · exact anchored.addFunction _ _ _
    · exact anchored.addFunction _ _ _
  · exact anchored

theorem attach_anchored {graph : Graph} (anchored : graph.Anchored)
    (entry : FunctionOverride) : (attach graph entry).Anchored := by
  unfold attach
  split
  · split
    · exact anchored.adjust fun _ nodeAnchored _ => nodeAnchored.of_eq rfl rfl
    · exact anchored
  · exact anchored

theorem toGraph_anchored {program : Program} {state : Discovery}
    (scanned : ∀ pair ∈ state.scans, ∃ limit, pair.2 = program.scan pair.1 limit) :
    (state.toGraph program).Anchored := by
  have declared : (program.config.functions.foldl state.addDeclared Graph.empty).Anchored :=
    List.foldlRecOn _ _ (fun _ member => absurd member List.not_mem_nil)
      fun _ anchored entry _ => addDeclared_anchored anchored state entry
  have built : (state.scans.foldl (fun graph pair => addScan graph pair.1 pair.2)
      (program.config.functions.foldl state.addDeclared Graph.empty)).Anchored := by
    refine List.foldlRecOn _ _ declared ?_
    intro graph anchored pair member
    obtain ⟨limit, same⟩ := scanned pair member
    rw [same]
    exact addScan_anchored anchored program pair.1 limit
  have attached := List.foldlRecOn program.config.functions attach
    (motive := Graph.Anchored) built fun _ anchored entry _ => attach_anchored anchored entry
  refine List.foldlRecOn _ _ attached ?_
  intro graph anchored named _
  exact anchored.adjust fun _ nodeAnchored _ => nodeAnchored.of_eq rfl rfl

theorem run_anchored {program : Program} {state : Discovery} (coherent : state.Coherent program) :
    (state.run program).Anchored := by
  have settled := (coherent.rounds_rounds (roundFuel program) (by omega)).result_settled coherent
  refine toGraph_anchored ?_
  intro pair member
  rw [settled.cached] at member
  obtain ⟨entry, _, rfl⟩ := List.mem_map.mp member
  exact ⟨_, rfl⟩

end Discovery

end PowerLift
