import Mathlib
import PowerLift.Proofs.Assembly

/-!
Changes of a graph, one after another from the empty graph. Functions keep their blocks in order and
apart, record everything once, and only the function that a change names is touched by it. A
function whose extent is configured stays so, and keeps its size until it is given another.
-/

namespace PowerLift

namespace FunctionNode

/-! ## Blocks -/

/-- No block reaches into a later one. -/
def Apart (blocks : List Span) : Prop :=
  blocks.Pairwise fun first second => first.stop ≤ second.start

theorem firstStart_le {blocks : List Span} (sorted : AddressSet.Sorted (blocks.map (·.start)))
    {block : Span} (member : block ∈ blocks) : firstStart blocks ≤ block.start := by
  cases blocks with
  | nil => cases member
  | cons next rest =>
      rcases List.mem_cons.mp member with rfl | later
      · exact UInt32.le_refl _
      · exact UInt32.le_of_lt ((List.pairwise_cons.mp sorted).1 _ (List.mem_map_of_mem later))

theorem cutLast_apart {address : UInt32} {blocks : List Span} (apart : Apart blocks)
    (before : ∀ block ∈ blocks, block.start < address) :
    Apart (cutLast address blocks).1 ∧
      ∀ block ∈ (cutLast address blocks).1, block.stop ≤ address := by
  induction blocks with
  | nil => exact ⟨.nil, fun _ member => absurd member List.not_mem_nil⟩
  | cons block rest ih =>
      cases rest with
      | nil =>
          simp only [cutLast]
          split
          next => exact ⟨List.pairwise_singleton _ _, by simp⟩
          next short =>
            refine ⟨List.pairwise_singleton _ _, ?_⟩
            intro other member
            obtain rfl := List.mem_singleton.mp member
            exact UInt32.not_lt.mp short
      | cons next rest =>
          obtain ⟨bound, restApart⟩ := List.pairwise_cons.mp apart
          obtain ⟨_, restBefore⟩ := List.forall_mem_cons.mp before
          obtain ⟨cutApart, cutBefore⟩ := ih restApart restBefore
          change Apart (block :: (cutLast address (next :: rest)).1) ∧
            ∀ other ∈ block :: (cutLast address (next :: rest)).1, other.stop ≤ address
          constructor
          · refine List.pairwise_cons.mpr ⟨?_, cutApart⟩
            intro other member
            -- The cut moves no start, so the block still ends before all of them.
            have start := List.mem_map_of_mem (f := (·.start)) member
            rw [cutLast_starts] at start
            obtain ⟨former, among, same⟩ := List.mem_map.mp start
            rw [← same]
            exact bound former among
          · refine List.forall_mem_cons.mpr ⟨?_, cutBefore⟩
            exact UInt32.le_trans (bound next List.mem_cons_self)
              (UInt32.le_of_lt (restBefore next List.mem_cons_self))

theorem placeBlock_apart {block : Span} {before after : List Span} (beforeApart : Apart before)
    (afterApart : Apart after) (below : ∀ other ∈ before, other.start < block.start)
    (above : ∀ other ∈ after, block.start < other.start)
    (sorted : AddressSet.Sorted (after.map (·.start))) :
    Apart (placeBlock block before after) := by
  obtain ⟨cutApart, cutBefore⟩ := cutLast_apart beforeApart below
  refine List.pairwise_append.mpr ⟨cutApart, List.pairwise_cons.mpr ⟨?_, afterApart⟩, ?_⟩
  · intro other member
    have limit := firstStart_le sorted member
    rw [UInt32.le_iff_toNat_le] at limit ⊢
    rw [toNat_min]
    omega
  · intro first cut second member
    have stops := cutBefore first cut
    rcases List.mem_cons.mp member with rfl | later
    · exact stops
    · exact UInt32.le_trans stops (UInt32.le_of_lt (above second later))

theorem Apart.insertBlock {blocks : List Span} (apart : Apart blocks) (placed : Placed blocks)
    (block : Span) : Apart (insertBlock block blocks) := by
  unfold FunctionNode.insertBlock
  split
  · exact apart
  · obtain ⟨before, after, same, taken, dropped, below, above⟩ := exists_place block blocks
    have sorted := placed.sorted
    rw [same] at apart
    rw [same, List.map_append] at sorted
    obtain ⟨beforeApart, afterApart, between⟩ := List.pairwise_append.mp apart
    obtain ⟨_, afterSorted, _⟩ := List.pairwise_append.mp sorted
    rw [taken, dropped]
    cases after with
    | nil =>
        exact placeBlock_apart beforeApart afterApart below
          (fun _ member => absurd member List.not_mem_nil) afterSorted
    | cons next rest =>
        obtain ⟨bound, restApart⟩ := List.pairwise_cons.mp afterApart
        obtain ⟨nextBelow, restSorted⟩ := List.pairwise_cons.mp afterSorted
        simp only
        split
        next here =>
          refine List.pairwise_append.mpr ⟨beforeApart, List.pairwise_cons.mpr ⟨?_, restApart⟩, ?_⟩
          · intro other member
            have limit := firstStart_le restSorted member
            rw [UInt32.le_iff_toNat_le] at limit ⊢
            rw [toNat_min]
            omega
          · intro first early second member
            rcases List.mem_cons.mp member with rfl | later
            · exact between first early next List.mem_cons_self
            · exact between first early second (List.mem_cons_of_mem _ later)
        next there =>
          have beyond := UInt32.lt_of_le_of_ne (above next rest rfl) (Ne.symm there)
          refine placeBlock_apart beforeApart afterApart below ?_ afterSorted
          refine List.forall_mem_cons.mpr ⟨beyond, ?_⟩
          intro other member
          exact UInt32.lt_trans beyond (nextBelow _ (List.mem_map_of_mem member))

/-! ## Well-formed functions -/

theorem insert_addresses (table : JumpTable) (tables : List JumpTable) :
    (table.insert tables).map (·.address) =
      AddressSet.insert table.address (tables.map (·.address)) := by
  induction tables with
  | nil => rfl
  | cons head rest ih =>
      simp only [JumpTable.insert, List.map_cons, AddressSet.insert]
      split
      · rfl
      · split
        next same => rw [List.map_cons, same]
        next => rw [List.map_cons, ih]

/-- Blocks are by start, none of them empty and none reaching into another. Calls and computed
branches are recorded once, and jump tables are by address, one for each at most. -/
structure WellFormed (node : FunctionNode) : Prop where
  placed : Placed node.blocks
  apart : Apart node.blocks
  calls : node.calls.Nodup
  unresolvedJumps : node.unresolvedJumps.Nodup
  tables : AddressSet.Sorted (node.jumpTables.map (·.address))

theorem WellFormed.jumpTableAt? {node : FunctionNode} (wellFormed : node.WellFormed)
    {table : JumpTable} (member : table ∈ node.jumpTables) :
    node.jumpTableAt? table.address = some table := by
  unfold FunctionNode.jumpTableAt?
  cases found : node.jumpTables.find? (·.address == table.address) with
  | none =>
      have missed := List.find?_eq_none.mp found table member
      simp at missed
  | some other =>
      have same : other.address = table.address := by simpa using List.find?_some found
      rw [List.inj_on_of_nodup_map wellFormed.tables.nodup (List.mem_of_find?_eq_some found) member
        same]

theorem wellFormed_fresh (address size : UInt32) (authority : Authority) :
    WellFormed { address, size, authority } where
  placed := ⟨.nil, fun _ member => absurd member List.not_mem_nil⟩
  apart := .nil
  calls := .nil
  unresolvedJumps := .nil
  tables := .nil

theorem Placed.addBlock {node : FunctionNode} (placed : Placed node.blocks) (block : Span) :
    Placed (node.addBlock block).blocks := by
  change Placed (FunctionNode.insertBlock block node.blocks)
  by_cases nonempty : block.start < block.stop
  · exact placed.insertBlock nonempty
  · have empty : block.isEmpty := by simpa [Span.isEmpty] using nonempty
    rw [FunctionNode.insertBlock, if_pos empty]
    exact placed

theorem WellFormed.addBlock {node : FunctionNode} (wellFormed : node.WellFormed) (block : Span) :
    (node.addBlock block).WellFormed where
  placed := wellFormed.placed.addBlock block
  apart := wellFormed.apart.insertBlock wellFormed.placed block
  calls := wellFormed.calls
  unresolvedJumps := wellFormed.unresolvedJumps
  tables := wellFormed.tables

theorem WellFormed.addCall {node : FunctionNode} (wellFormed : node.WellFormed) (call : Call) :
    (node.addCall call).WellFormed := by
  unfold FunctionNode.addCall
  split
  · exact wellFormed
  next absent =>
    refine ⟨wellFormed.placed, wellFormed.apart, ?_, wellFormed.unresolvedJumps, wellFormed.tables⟩
    exact wellFormed.calls.append (List.nodup_singleton call) (by simpa using absent)

theorem WellFormed.addUnresolvedJump {node : FunctionNode} (wellFormed : node.WellFormed)
    (site : UInt32) : (node.addUnresolvedJump site).WellFormed := by
  unfold FunctionNode.addUnresolvedJump
  split
  · exact wellFormed
  next absent =>
    refine ⟨wellFormed.placed, wellFormed.apart, wellFormed.calls, ?_, wellFormed.tables⟩
    exact wellFormed.unresolvedJumps.append (List.nodup_singleton site) (by simpa using absent)

theorem WellFormed.addJumpTable {node : FunctionNode} (wellFormed : node.WellFormed)
    (table : JumpTable) : (node.addJumpTable table).WellFormed := by
  refine ⟨wellFormed.placed, wellFormed.apart, wellFormed.calls, wellFormed.unresolvedJumps, ?_⟩
  change AddressSet.Sorted ((table.insert node.jumpTables).map (·.address))
  rw [insert_addresses]
  exact wellFormed.tables.insert

theorem WellFormed.takeOver {node : FunctionNode} (wellFormed : node.WellFormed) (size : UInt32)
    (authority : Authority) : (Graph.takeOver node size authority).WellFormed := by
  unfold Graph.takeOver
  split
  · exact ⟨wellFormed.placed, wellFormed.apart, wellFormed.calls, wellFormed.unresolvedJumps,
      wellFormed.tables⟩
  · exact wellFormed

end FunctionNode

/-! ## Changes -/

/-- A change of the function at an address. -/
inductive Change where
  | addFunction (address size : UInt32) (authority : Authority)
  | addBlock (address : UInt32) (block : Span)
  | setName (address : UInt32) (name : String)
  | setSize (address size : UInt32)
  | setParent (address parent : UInt32)
  | addUnresolvedJump (address site : UInt32)
  | addCall (address : UInt32) (call : Call)
  | addJumpTable (address : UInt32) (table : JumpTable)

namespace Change

/-- The function that is named. -/
def address : Change → UInt32
  | addFunction address _ _ | addBlock address _ | setName address _ | setSize address _
  | setParent address _ | addUnresolvedJump address _ | addCall address _
  | addJumpTable address _ => address

def adds : Change → Bool
  | addFunction _ _ _ => true
  | _ => false

def apply (graph : Graph) : Change → Except Error Graph
  | addFunction address size authority => .ok (graph.addFunction address size authority)
  | addBlock address block => graph.addBlock address block
  | setName address name => graph.setName address name
  | setSize address size => graph.setSize address size
  | setParent address parent => graph.setParent address parent
  | addUnresolvedJump address site => graph.addUnresolvedJump address site
  | addCall address call => graph.addCall address call
  | addJumpTable address table => graph.addJumpTable address table

/-- The graph after a change, and the error if there is one. An error leaves the graph as it is. -/
def perform (graph : Graph) (change : Change) : Graph × Option Error :=
  match change.apply graph with
  | .ok after => (after, none)
  | .error error => (graph, some error)

/-- The graph after changes one after another. -/
def performAll (graph : Graph) (changes : List Change) : Graph :=
  changes.foldl (fun graph change => (change.perform graph).1) graph

/-- What becomes of a function that exists. -/
def edit : Change → FunctionNode → FunctionNode
  | addFunction _ size authority, node => Graph.takeOver node size authority
  | addBlock _ block, node => node.addBlock block
  | setName _ name, node => { node with name := some name }
  | setSize _ size, node => { node with size }
  | setParent _ parent, node => { node with parent := some parent }
  | addUnresolvedJump _ site, node => node.addUnresolvedJump site
  | addCall _ call, node => node.addCall call
  | addJumpTable _ table, node => node.addJumpTable table

theorem edit_stays (change : Change) : Graph.Stays change.edit := by
  cases change with
  | addFunction _ size authority => exact fun node => Graph.takeOver_address node size authority
  | addUnresolvedJump _ site => exact Graph.addUnresolvedJump_stays site
  | addCall _ call => exact Graph.addCall_stays call
  | addBlock | setName | setSize | setParent | addJumpTable => exact fun _ => rfl

theorem edit_wellFormed (change : Change) {node : FunctionNode} (wellFormed : node.WellFormed) :
    (change.edit node).WellFormed := by
  cases change with
  | addFunction _ size authority => exact wellFormed.takeOver size authority
  | addBlock _ block => exact wellFormed.addBlock block
  | addUnresolvedJump _ site => exact wellFormed.addUnresolvedJump site
  | addCall _ call => exact wellFormed.addCall call
  | addJumpTable _ table => exact wellFormed.addJumpTable table
  | setName | setSize | setParent =>
      exact ⟨wellFormed.placed, wellFormed.apart, wellFormed.calls, wellFormed.unresolvedJumps,
        wellFormed.tables⟩

/-- Only a new size changes the extent of a function once that is configured. -/
theorem edit_configured (change : Change) {node : FunctionNode}
    (configured : node.authority = .configured) :
    (change.edit node).authority = .configured ∧
      ((∀ size, change ≠ .setSize change.address size) → (change.edit node).size = node.size) := by
  cases change with
  | addFunction _ size authority => simp [edit, Graph.takeOver, configured]
  | addBlock _ block => simp [edit, FunctionNode.addBlock, configured]
  | setSize address size => exact ⟨configured, fun other => absurd rfl (other size)⟩
  | addUnresolvedJump _ site =>
      rw [edit, FunctionNode.addUnresolvedJump_eq]
      exact ⟨configured, fun _ => rfl⟩
  | addCall _ call =>
      rw [edit, FunctionNode.addCall_eq]
      exact ⟨configured, fun _ => rfl⟩
  | setName | setParent | addJumpTable => exact ⟨configured, fun _ => rfl⟩

/-- All that a change can do: add a function, edit the one that it names, or fail. -/
theorem perform_cases (change : Change) (graph : Graph) :
    (∃ size authority, change = .addFunction change.address size authority ∧
        change.perform graph = (graph.addFunction change.address size authority, none)) ∨
      (change.adds = false ∧ (graph.function? change.address).isSome ∧
        change.perform graph = (graph.adjust change.address change.edit, none)) ∨
      (change.adds = false ∧ graph.function? change.address = none ∧
        change.perform graph = (graph, some (.unknownFunction change.address))) := by
  have modified : change.adds = false →
      change.apply graph = graph.modify change.address change.edit := by
    intro plain
    cases change with
    | addFunction => cases plain
    | addBlock | setName | setSize | setParent | addUnresolvedJump | addCall | addJumpTable => rfl
  cases plain : change.adds with
  | true =>
      left
      cases change with
      | addFunction address size authority => exact ⟨size, authority, rfl, rfl⟩
      | addBlock | setName | setSize | setParent | addUnresolvedJump | addCall | addJumpTable =>
          cases plain
  | false =>
      right
      unfold perform
      rw [modified plain]
      by_cases found : (graph.function? change.address).isSome
      · left
        rw [Graph.modify_eq_ok found]
        exact ⟨rfl, found, rfl⟩
      · right
        rw [Graph.modify, if_neg found]
        exact ⟨rfl, by simpa using found, rfl⟩

end Change

/-! ## What a change keeps -/

/-- Functions by address, each found under its own, and all of them well-formed. -/
structure Graph.WellFormed (graph : Graph) : Prop where
  ordered : graph.Ordered
  nodes : ∀ node ∈ graph.nodes, node.WellFormed

namespace Change

theorem perform_wellFormed {graph : Graph} (wellFormed : graph.WellFormed) (change : Change) :
    (change.perform graph).1.WellFormed := by
  rcases perform_cases change graph with ⟨size, authority, _, same⟩ | ⟨_, _, same⟩ | ⟨_, _, same⟩
  · rw [same]
    refine ⟨wellFormed.ordered.addFunction _ _ _, ?_⟩
    exact Graph.insertNode_forall (FunctionNode.wellFormed_fresh _ _ _)
      (fun node former => former.takeOver size authority) wellFormed.nodes
  · rw [same]
    refine ⟨wellFormed.ordered.adjust _ change.edit_stays, ?_⟩
    intro node member
    obtain ⟨former, among, rfl⟩ := List.mem_map.mp member
    split
    · exact change.edit_wellFormed (wellFormed.nodes former among)
    · exact wellFormed.nodes former among
  · rw [same]
    exact wellFormed

/-- The function that a change names is edited if it exists, and no other is touched. -/
theorem perform_function? {graph : Graph} (ordered : graph.Ordered) (change : Change) :
    (∀ other, other ≠ change.address →
        (change.perform graph).1.function? other = graph.function? other) ∧
      ∀ node, graph.function? change.address = some node →
        (change.perform graph).1.function? change.address = some (change.edit node) := by
  rcases perform_cases change graph with ⟨size, authority, added, same⟩ | ⟨_, _, same⟩ |
    ⟨_, missing, same⟩
  · rw [same]
    constructor
    · intro other apart
      rw [ordered.function?_addFunction, if_neg apart]
    · intro node found
      have edited : change.edit node = Graph.takeOver node size authority := by rw [added]; rfl
      rw [ordered.function?_addFunction, if_pos rfl, found, edited]
      rfl
  · rw [same]
    constructor
    · intro other apart
      rw [Graph.function?_adjust_eq _ _ change.edit_stays, if_neg apart]
    · intro node found
      rw [Graph.function?_adjust_eq _ _ change.edit_stays, if_pos rfl, found]
      rfl
  · rw [same]
    refine ⟨fun _ _ => rfl, ?_⟩
    intro node found
    rw [missing] at found
    cases found

theorem perform_configured {graph : Graph} (ordered : graph.Ordered) (change : Change)
    {address : UInt32} {node : FunctionNode} (found : graph.function? address = some node)
    (configured : node.authority = .configured) :
    ∃ after, (change.perform graph).1.function? address = some after ∧
      after.authority = .configured ∧
      ((∀ size, change ≠ .setSize address size) → after.size = node.size) := by
  obtain ⟨others, named⟩ := perform_function? ordered change
  by_cases here : address = change.address
  · subst here
    obtain ⟨stays, keeps⟩ := change.edit_configured configured
    exact ⟨change.edit node, named node found, stays, keeps⟩
  · exact ⟨node, (others address here).trans found, configured, fun _ => rfl⟩

/-! ## Runs -/

theorem performAll_wellFormed {graph : Graph} (wellFormed : graph.WellFormed)
    (changes : List Change) : (performAll graph changes).WellFormed := by
  induction changes generalizing graph with
  | nil => exact wellFormed
  | cons change rest ih => exact ih (perform_wellFormed wellFormed change)

theorem performAll_empty_wellFormed (changes : List Change) :
    (performAll .empty changes).WellFormed :=
  performAll_wellFormed ⟨Graph.ordered_empty, fun _ member => absurd member List.not_mem_nil⟩
    changes

theorem performAll_configured {graph : Graph} (wellFormed : graph.WellFormed)
    (changes : List Change) {address : UInt32} {node : FunctionNode}
    (found : graph.function? address = some node) (configured : node.authority = .configured) :
    ∃ final, (performAll graph changes).function? address = some final ∧
      final.authority = .configured ∧
      ((∀ size, .setSize address size ∉ changes) → final.size = node.size) := by
  induction changes generalizing graph node with
  | nil => exact ⟨node, found, configured, fun _ => rfl⟩
  | cons change rest ih =>
      obtain ⟨after, afterFound, stays, keeps⟩ :=
        perform_configured wellFormed.ordered change found configured
      obtain ⟨final, finalFound, finalStays, finalKeeps⟩ :=
        ih (perform_wellFormed wellFormed change) afterFound stays
      refine ⟨final, finalFound, finalStays, ?_⟩
      intro unsized
      simp only [List.mem_cons, not_or] at unsized
      rw [finalKeeps fun size => (unsized size).2, keeps fun size => Ne.symm (unsized size).1]

/-- What holds of a graph after any changes of the empty one. -/
theorem performAll_sound (changes : List Change) :
    let graph := performAll .empty changes
    (∀ node ∈ graph.nodes, graph.function? node.address = some node ∧ node.WellFormed ∧
        ∀ table ∈ node.jumpTables, node.jumpTableAt? table.address = some table) ∧
      (∀ change : Change,
        ((change.perform graph).2 = none ∨
          (change.perform graph).2 = some (.unknownFunction change.address)) ∧
        ((change.perform graph).2 ≠ none ↔
          change.adds = false ∧ graph.function? change.address = none) ∧
        ((change.perform graph).2 ≠ none → (change.perform graph).1 = graph) ∧
        ∀ other, other ≠ change.address →
          (change.perform graph).1.function? other = graph.function? other) ∧
      (∀ address node, graph.function? address = some node → node.authority = .configured →
        ∀ later, ∃ final, (performAll graph later).function? address = some final ∧
          final.authority = .configured ∧
          ((∀ size, .setSize address size ∉ later) → final.size = node.size)) ∧
      ∀ address size authority, (graph.function? address).isSome →
        (graph.addFunction address size authority).nodes.map (·.address) =
          graph.nodes.map (·.address) := by
  intro graph
  have start : Graph.empty.WellFormed :=
    ⟨Graph.ordered_empty, fun _ member => absurd member List.not_mem_nil⟩
  have wellFormed : graph.WellFormed := performAll_wellFormed start changes
  refine ⟨?_, ?_, ?_, ?_⟩
  · intro node member
    have formed := wellFormed.nodes node member
    exact ⟨wellFormed.ordered.function?_of_mem member, formed, fun _ among =>
      formed.jumpTableAt? among⟩
  · intro change
    refine ⟨?_, ?_, ?_, (perform_function? wellFormed.ordered change).1⟩ <;>
      rcases perform_cases change graph with ⟨size, authority, added, same⟩ | ⟨plain, found, same⟩ |
        ⟨plain, missing, same⟩ <;> rw [same]
    · exact Or.inl rfl
    · exact Or.inl rfl
    · exact Or.inr rfl
    · refine iff_of_false (fun failed => failed rfl) ?_
      rintro ⟨plain, _⟩
      rw [added] at plain
      cases plain
    · refine iff_of_false (fun failed => failed rfl) ?_
      rintro ⟨_, missing⟩
      rw [missing] at found
      cases found
    · exact iff_of_true (by simp) ⟨plain, missing⟩
    · exact fun failed => absurd rfl failed
    · exact fun failed => absurd rfl failed
    · exact fun _ => rfl
  · intro address node found configured later
    exact performAll_configured wellFormed later found configured
  · intro address size authority found
    obtain ⟨node, member, here⟩ := Graph.function?_isSome.mp found
    change (Graph.insertNode address size authority graph.nodes).map (·.address) = _
    rw [Graph.insertNode_addresses]
    exact AddressSet.insert_of_mem wellFormed.ordered (List.mem_map.mpr ⟨node, member, here⟩)

/-- A second block that starts inside of the first splits it. The configured size stays whatever is
added later. -/
theorem performAll_sound_split :
    let graph := performAll .empty
      [.addFunction 0x1000 0 .discovered, .addBlock 0x1000 ⟨0x1000, 0x1020⟩,
        .addBlock 0x1000 ⟨0x1010, 0x1018⟩, .addFunction 0x1000 0x80 .configured]
    let later := [addBlock 0x1000 ⟨0x1018, 0x2000⟩, .addFunction 0x1000 4 .configured,
      .setSize 0x2000 4]
    (graph.function? 0x1000).map (·.blocks) = some [⟨0x1000, 0x1010⟩, ⟨0x1010, 0x1020⟩] ∧
      ∃ final, (performAll graph later).function? 0x1000 = some final ∧
        final.authority = .configured ∧ final.size = 0x80 := by
  intro graph later
  refine ⟨by decide, ?_⟩
  obtain ⟨final, found, configured, keeps⟩ := (performAll_sound _).2.2.1 0x1000
    { address := 0x1000, size := 0x80, authority := .configured
      blocks := [⟨0x1000, 0x1010⟩, ⟨0x1010, 0x1020⟩] } (show graph.function? 0x1000 = _ by decide)
    rfl later
  refine ⟨final, found, configured, keeps ?_⟩
  simp [later]

end Change

end PowerLift
