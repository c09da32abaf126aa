import Mathlib
import PowerLift.Proofs.Following
import PowerLift.Proofs.Nodes
import PowerLift.Proofs.Origins

/-!
The graph of a discovery as a map from addresses. Every entry becomes at most one function, which
is what the configuration declares there together with what the scan of the entry found.
-/

namespace PowerLift

namespace Graph

/-- Functions by address, one at each. -/
def Ordered (graph : Graph) : Prop :=
  AddressSet.Sorted (graph.nodes.map (·.address))

theorem ordered_empty : empty.Ordered :=
  AddressSet.sorted_nil

theorem of_function? {graph : Graph} {address : UInt32} {node : FunctionNode}
    (found : graph.function? address = some node) :
    node ∈ graph.nodes ∧ node.address = address :=
  ⟨List.mem_of_find?_eq_some found, by simpa using List.find?_some found⟩

theorem Ordered.function?_of_mem {graph : Graph} (ordered : graph.Ordered) {node : FunctionNode}
    (member : node ∈ graph.nodes) : graph.function? node.address = some node := by
  cases found : graph.function? node.address with
  | none =>
      have missed := List.find?_eq_none.mp found node member
      simp at missed
  | some other =>
      obtain ⟨otherMember, same⟩ := of_function? found
      rw [List.inj_on_of_nodup_map ordered.nodup otherMember member same]

theorem insertNode_addresses (address size : UInt32) (authority : Authority)
    (nodes : List FunctionNode) :
    (insertNode address size authority nodes).map (·.address) =
      AddressSet.insert address (nodes.map (·.address)) := by
  induction nodes with
  | nil => rfl
  | cons node rest ih =>
      simp only [insertNode, List.map_cons, AddressSet.insert]
      split
      · rfl
      · split
        · rw [List.map_cons, takeOver_address]
        · rw [List.map_cons, ih]

theorem Ordered.addFunction {graph : Graph} (ordered : graph.Ordered) (address size : UInt32)
    (authority : Authority) : (graph.addFunction address size authority).Ordered := by
  unfold Ordered Graph.addFunction
  rw [insertNode_addresses]
  exact ordered.insert

theorem adjust_addresses (graph : Graph) (address : UInt32)
    {change : FunctionNode → FunctionNode} (stays : Stays change) :
    (graph.adjust address change).nodes.map (·.address) = graph.nodes.map (·.address) := by
  simp only [adjust, List.map_map]
  refine List.map_congr_left ?_
  intro node _
  simp only [Function.comp_apply]
  split
  · exact stays node
  · rfl

theorem Ordered.adjust {graph : Graph} (ordered : graph.Ordered) (address : UInt32)
    {change : FunctionNode → FunctionNode} (stays : Stays change) :
    (graph.adjust address change).Ordered := by
  unfold Ordered
  rw [adjust_addresses graph address stays]
  exact ordered

/-- The function at an address after one is added there. -/
def settle (address size : UInt32) (authority : Authority) : Option FunctionNode → FunctionNode
  | none => { address, size, authority }
  | some node => takeOver node size authority

theorem find?_insertNode (address size : UInt32) (authority : Authority)
    {nodes : List FunctionNode} (sorted : AddressSet.Sorted (nodes.map (·.address)))
    (other : UInt32) :
    (insertNode address size authority nodes).find? (·.address == other) =
      if other = address then
        some (settle address size authority (nodes.find? (·.address == address)))
      else nodes.find? (·.address == other) := by
  induction nodes with
  | nil =>
      by_cases here : other = address
      · simp [insertNode, here, settle]
      · simp [insertNode, here, Ne.symm here]
  | cons node rest ih =>
      obtain ⟨above, restSorted⟩ := List.pairwise_cons.mp sorted
      simp only [insertNode]
      split
      next before =>
        -- The list is ordered, so no function after this place has the address.
        have missing : (node :: rest).find? (·.address == address) = none := by
          rw [List.find?_eq_none]
          intro later member
          rcases List.mem_cons.mp member with rfl | among
          · simpa using (UInt32.ne_of_lt before).symm
          · have beyond := UInt32.lt_trans before (above _ (List.mem_map_of_mem among))
            simpa using (UInt32.ne_of_lt beyond).symm
        rw [missing]
        by_cases here : other = address
        · simp [here, settle]
        · rw [if_neg here, List.find?_cons_of_neg (by simpa using Ne.symm here)]
      next notBefore =>
        split
        next same =>
          by_cases here : other = address
          · simp [here, same, settle, takeOver_address]
          · have apart : node.address ≠ other := same ▸ Ne.symm here
            rw [if_neg here, List.find?_cons_of_neg (by simpa [takeOver_address] using apart),
              List.find?_cons_of_neg (by simpa using apart)]
        next different =>
          by_cases first : node.address = other
          · have elsewhere : other ≠ address := first ▸ Ne.symm different
            simp [first, elsewhere]
          · rw [List.find?_cons_of_neg (by simpa using first), ih restSorted,
              List.find?_cons_of_neg (by simpa using Ne.symm different),
              List.find?_cons_of_neg (by simpa using first)]

theorem Ordered.function?_addFunction {graph : Graph} (ordered : graph.Ordered)
    (address size : UInt32) (authority : Authority) (other : UInt32) :
    (graph.addFunction address size authority).function? other =
      if other = address then some (settle address size authority (graph.function? address))
      else graph.function? other :=
  find?_insertNode address size authority ordered other

theorem function?_adjust_eq (graph : Graph) (address : UInt32)
    {change : FunctionNode → FunctionNode} (stays : Stays change) (other : UInt32) :
    (graph.adjust address change).function? other =
      if other = address then (graph.function? address).map change
      else graph.function? other := by
  have same : ((fun node : FunctionNode => node.address == other) ∘ fun node =>
      if node.address = address then change node else node) = (·.address == other) := by
    funext node
    simp only [Function.comp_apply]
    split
    · rw [stays node]
    · rfl
  simp only [adjust, function?, List.find?_map, same]
  by_cases here : other = address
  · rw [if_pos here, here]
    cases found : graph.nodes.find? (·.address == address) with
    | none => rfl
    | some node =>
        have placed : node.address = address := by simpa using List.find?_some found
        simp [placed]
  · rw [if_neg here]
    cases found : graph.nodes.find? (·.address == other) with
    | none => rfl
    | some node =>
        have placed : node.address = other := by simpa using List.find?_some found
        simp [placed, here]

end Graph

namespace FunctionNode

/-- All of a function but its name and its parent, which are given last. -/
def bare (node : FunctionNode) : FunctionNode :=
  { node with name := none, parent := none }

/-! ## What a scan adds -/

theorem absorb_parent (scan : Scan) (node : FunctionNode) :
    (absorb scan node).parent = node.parent :=
  (absorb_frame (·.parent) (fun _ _ => rfl) (fun _ _ => rfl) (fun _ _ => rfl) scan node).trans
    (foldl_field (·.parent) addBlock (fun _ _ => rfl) scan.blocks node)

theorem absorb_size_of_configured (scan : Scan) {node : FunctionNode}
    (configured : node.authority = .configured) : (absorb scan node).size = node.size := by
  have kept : ∀ (blocks : List Span) (node : FunctionNode), node.authority = .configured →
      (blocks.foldl addBlock node).size = node.size := by
    intro blocks
    induction blocks with
    | nil => exact fun _ _ => rfl
    | cons block rest ih =>
        intro node configured
        have size : (node.addBlock block).size = node.size := by
          simp [addBlock, configured]
        exact (ih (node.addBlock block) configured).trans size
  exact (absorb_frame (·.size) (fun _ _ => rfl) (fun _ _ => rfl) (fun _ _ => rfl) scan node).trans
    (kept scan.blocks node configured)

theorem addBlock_stop_le {node : FunctionNode} {block : Span} {next : UInt32}
    (discovered : node.authority = .discovered) (reached : node.stop ≤ next)
    (short : block.stop ≤ next) : (node.addBlock block).stop ≤ next := by
  by_cases further : block.stop > node.stop
  · have size : (node.addBlock block).size = block.stop - node.address :=
      if_pos ⟨discovered, further⟩
    have grown : (node.addBlock block).stop = block.stop := by
      rw [stop, size, UInt32.add_comm]
      exact UInt32.sub_add_cancel _ _
    rw [grown]
    exact short
  · have size : (node.addBlock block).size = node.size := if_neg fun grows => further grows.2
    rw [stop, size]
    exact reached

theorem absorb_stop_le {scan : Scan} {node : FunctionNode} {next : UInt32}
    (discovered : node.authority = .discovered) (reached : node.stop ≤ next)
    (short : ∀ block ∈ scan.blocks, block.stop ≤ next) : (absorb scan node).stop ≤ next := by
  have kept : ∀ (blocks : List Span) (node : FunctionNode), node.authority = .discovered →
      node.stop ≤ next → (∀ block ∈ blocks, block.stop ≤ next) →
        (blocks.foldl addBlock node).stop ≤ next := by
    intro blocks
    induction blocks with
    | nil => exact fun _ _ reached _ => reached
    | cons block rest ih =>
        intro node discovered reached short
        obtain ⟨first, others⟩ := List.forall_mem_cons.mp short
        exact ih (node.addBlock block) discovered (addBlock_stop_le discovered reached first) others
  rw [absorb_frame (·.stop) (fun _ _ => rfl) (fun _ _ => rfl) (fun _ _ => rfl)]
  exact kept scan.blocks node discovered reached short

theorem cutLast_eq_self {address : UInt32} {blocks : List Span}
    (before : ∀ block ∈ blocks, block.stop ≤ address) : cutLast address blocks = (blocks, none) := by
  induction blocks with
  | nil => rfl
  | cons block rest ih =>
      obtain ⟨first, others⟩ := List.forall_mem_cons.mp before
      cases rest with
      | nil => rw [cutLast, if_neg (UInt32.not_lt.mpr first)]
      | cons next rest =>
          rw [cutLast, ih others]
          exact List.cons_ne_nil _ _

theorem insertBlock_append {block : Span} {blocks : List Span}
    (nonempty : block.start < block.stop)
    (before : ∀ other ∈ blocks, other.start < other.stop ∧ other.stop ≤ block.start) :
    insertBlock block blocks = blocks ++ [block] := by
  have starts : ∀ other ∈ blocks, decide (other.start < block.start) = true := by
    intro other member
    obtain ⟨order, free⟩ := before other member
    exact decide_eq_true (UInt32.lt_of_lt_of_le order free)
  have holds : block.isEmpty = false := by simpa [Span.isEmpty] using nonempty
  have top : min (max block.stop 0) 4294967295 = block.stop := by
    apply UInt32.toNat_inj.mp
    have limit := block.stop.toNat_lt
    rw [toNat_min, toNat_max]
    change min (max block.stop.toNat 0) 4294967295 = _
    omega
  rw [insertBlock, holds, if_neg Bool.false_ne_true, List.takeWhile_eq_self_iff.mpr starts,
    List.dropWhile_eq_nil_iff.mpr starts]
  simp only [placeBlock, cutLast_eq_self fun other member => (before other member).2,
    Option.getD_none, firstStart, top]

/-- Blocks that come in order stay as they are. -/
theorem foldl_addBlock_blocks {blocks : List Span} {node : FunctionNode}
    (nonempty : ∀ block ∈ node.blocks ++ blocks, block.start < block.stop)
    (ordered : (node.blocks ++ blocks).Pairwise fun first second => first.stop ≤ second.start) :
    (blocks.foldl addBlock node).blocks = node.blocks ++ blocks := by
  induction blocks generalizing node with
  | nil => simp
  | cons block rest ih =>
      have before : ∀ other ∈ node.blocks, other.start < other.stop ∧ other.stop ≤ block.start := by
        intro other member
        refine ⟨nonempty other (List.mem_append_left _ member), ?_⟩
        exact (List.pairwise_append.mp ordered).2.2 other member block List.mem_cons_self
      have first := nonempty block (List.mem_append_right _ List.mem_cons_self)
      have added : (node.addBlock block).blocks = node.blocks ++ [block] :=
        insertBlock_append first before
      have joined : (node.addBlock block).blocks ++ rest = node.blocks ++ block :: rest := by
        rw [added, List.append_assoc]
        rfl
      rw [← joined] at nonempty ordered ⊢
      exact ih nonempty ordered

theorem absorb_blocks {scan : Scan} {node : FunctionNode} (empty : node.blocks = [])
    (nonempty : ∀ block ∈ scan.blocks, block.start < block.stop)
    (ordered : scan.blocks.Pairwise fun first second => first.stop ≤ second.start) :
    (absorb scan node).blocks = scan.blocks := by
  rw [absorb_frame (·.blocks) (fun _ _ => rfl) (fun _ _ => rfl) (fun _ _ => rfl),
    foldl_addBlock_blocks (by simpa [empty] using nonempty) (by simpa [empty] using ordered),
    empty, List.nil_append]

theorem mem_foldl_addCall {calls : List Call} {node : FunctionNode} {call : Call}
    (member : call ∈ node.calls ∨ call ∈ calls) : call ∈ (calls.foldl addCall node).calls := by
  induction calls generalizing node with
  | nil => exact member.resolve_right List.not_mem_nil
  | cons first rest ih =>
      apply ih
      rcases member with old | new
      · left
        unfold addCall
        split
        · exact old
        · exact List.mem_append_left _ old
      · rcases List.mem_cons.mp new with rfl | later
        · left
          unfold addCall
          split
          next known => simpa using known
          next => exact List.mem_append_right _ List.mem_cons_self
        · exact Or.inr later

theorem absorb_calls (scan : Scan) (node : FunctionNode) :
    scan.calls ⊆ (absorb scan node).calls := by
  intro call member
  have kept := (foldl_addUnresolvedJump (·.calls) (fun _ _ => rfl) scan.unresolvedJumps _).trans
    (foldl_addJumpTable (·.calls) (fun _ _ => rfl) scan.jumpTables
      (scan.calls.foldl addCall (scan.blocks.foldl addBlock node)))
  change call ∈ (scan.unresolvedJumps.foldl addUnresolvedJump (scan.jumpTables.foldl addJumpTable
    (scan.calls.foldl addCall (scan.blocks.foldl addBlock node)))).calls
  rw [kept]
  exact mem_foldl_addCall (Or.inr member)

theorem mem_insert_of_mem {table other : JumpTable} {tables : List JumpTable}
    (member : other ∈ tables) (apart : table.address = other.address → table = other) :
    other ∈ table.insert tables := by
  induction tables with
  | nil => cases member
  | cons head rest ih =>
      simp only [JumpTable.insert]
      split
      · exact List.mem_cons_of_mem _ member
      · split
        next same =>
          rcases List.mem_cons.mp member with rfl | later
          · rw [apart same]
            exact List.mem_cons_self
          · exact List.mem_cons_of_mem _ later
        next =>
          rcases List.mem_cons.mp member with rfl | later
          · exact List.mem_cons_self
          · exact List.mem_cons_of_mem _ (ih later)

theorem mem_insert_self (table : JumpTable) (tables : List JumpTable) :
    table ∈ table.insert tables := by
  induction tables with
  | nil => exact List.mem_cons_self
  | cons head rest ih =>
      simp only [JumpTable.insert]
      split
      · exact List.mem_cons_self
      · split
        · exact List.mem_cons_self
        · exact List.mem_cons_of_mem _ ih

theorem mem_foldl_addJumpTable {items : List JumpTable} {node : FunctionNode} {table : JumpTable}
    (unique : ∀ other ∈ items, other.address = table.address → other = table)
    (member : table ∈ node.jumpTables ∨ table ∈ items) :
    table ∈ (items.foldl addJumpTable node).jumpTables := by
  induction items generalizing node with
  | nil => exact member.resolve_right List.not_mem_nil
  | cons first rest ih =>
      obtain ⟨firstUnique, restUnique⟩ := List.forall_mem_cons.mp unique
      apply ih restUnique
      rcases member with old | new
      · exact Or.inl (mem_insert_of_mem old firstUnique)
      · rcases List.mem_cons.mp new with rfl | later
        · exact Or.inl (mem_insert_self _ _)
        · exact Or.inr later

/-- No table is lost, unless another one of the same branch takes its place. -/
theorem absorb_jumpTables {scan : Scan} {table : JumpTable} (member : table ∈ scan.jumpTables)
    (unique : ∀ other ∈ scan.jumpTables, other.address = table.address → other = table)
    (node : FunctionNode) : table ∈ (absorb scan node).jumpTables := by
  have kept := foldl_addUnresolvedJump (·.jumpTables) (fun _ _ => rfl) scan.unresolvedJumps
    (scan.jumpTables.foldl addJumpTable
      (scan.calls.foldl addCall (scan.blocks.foldl addBlock node)))
  change table ∈ (scan.unresolvedJumps.foldl addUnresolvedJump
    (scan.jumpTables.foldl addJumpTable
      (scan.calls.foldl addCall (scan.blocks.foldl addBlock node)))).jumpTables
  rw [kept]
  exact mem_foldl_addJumpTable unique (Or.inr member)

end FunctionNode

namespace Discovery

/-! ## Declared functions -/

/-- The function that the configuration declares at an address, if it does. -/
def declaredAt (config : Config) (address : UInt32) : FunctionNode :=
  match config.extentAt address with
  | some size => { address, size, authority := .configured }
  | none => { address, size := 0, authority := .discovered }

theorem declaredAt_of_extent {config : Config} {address size : UInt32}
    (extent : config.extentAt address = some size) :
    declaredAt config address = { address, size, authority := .configured } := by
  rw [declaredAt, extent]

theorem declaredAt_of_free {config : Config} {address : UInt32}
    (free : config.extentAt address = none) :
    declaredAt config address = { address, size := 0, authority := .discovered } := by
  rw [declaredAt, free]

theorem extentAt_of_undeclared {config : Config} {address : UInt32}
    (undeclared : ¬ config.Declares address) : config.extentAt address = none := by
  cases extent : config.extentAt address with
  | none => rfl
  | some size =>
      obtain ⟨entry, member, same, _⟩ := Config.exists_of_extentAt extent
      exact absurd ⟨entry, member, same⟩ undeclared

theorem settle_declaredAt {config : Config} {address : UInt32} {former : Option FunctionNode}
    (known : ∀ node, former = some node → node = declaredAt config address) :
    Graph.settle address (declaredAt config address).size (declaredAt config address).authority
      former = declaredAt config address := by
  cases former with
  | none =>
      cases extent : config.extentAt address with
      | none => rw [declaredAt_of_free extent]; rfl
      | some size => rw [declaredAt_of_extent extent]; rfl
  | some node =>
      obtain rfl := known node rfl
      rw [Graph.settle, Graph.takeOver]
      split
      next both =>
        obtain ⟨configured, discovered⟩ := both
        rw [configured] at discovered
        cases discovered
      next => rfl

theorem addDeclared_eq {program : Program} (valid : program.config.validate.valid)
    {entry : FunctionOverride} (member : entry ∈ program.config.functions) (state : Discovery)
    (graph : Graph) :
    state.addDeclared graph entry =
      if entry.address ∈ state.entries then
        graph.addFunction entry.address (declaredAt program.config entry.address).size
          (declaredAt program.config entry.address).authority
      else graph := by
  have extent := Config.extentAt_function valid member
  simp only [addDeclared, List.contains_iff_mem]
  split
  · cases size : entry.extent with
    | none => rw [declaredAt_of_free (extent.trans size)]
    | some size => rw [declaredAt_of_extent (extent.trans ‹_›)]
  · rfl

/-- A graph of declared functions only. -/
structure Declared (graph : Graph) (config : Config) : Prop where
  ordered : graph.Ordered
  same : ∀ address node, graph.function? address = some node → node = declaredAt config address

theorem Declared.addDeclared {program : Program} (valid : program.config.validate.valid)
    {entry : FunctionOverride} (member : entry ∈ program.config.functions) (state : Discovery)
    {graph : Graph} (declared : Declared graph program.config) :
    Declared (state.addDeclared graph entry) program.config ∧
      ∀ address, ((state.addDeclared graph entry).function? address).isSome ↔
        (graph.function? address).isSome ∨
          address ∈ state.entries ∧ entry.address = address := by
  rw [addDeclared_eq valid member]
  split
  next known =>
    have lookup := declared.ordered.function?_addFunction entry.address
      (declaredAt program.config entry.address).size
      (declaredAt program.config entry.address).authority
    rw [settle_declaredAt (declared.same entry.address)] at lookup
    refine ⟨⟨declared.ordered.addFunction _ _ _, ?_⟩, ?_⟩
    · intro address node found
      rw [lookup] at found
      split at found
      next here =>
        cases found
        rw [here]
      next => exact declared.same address node found
    · intro address
      rw [lookup]
      by_cases here : address = entry.address
      · simp [here, known]
      · simp [here, Ne.symm here]
  next unknown =>
    refine ⟨declared, ?_⟩
    intro address
    constructor
    · exact Or.inl
    · rintro (found | ⟨among, rfl⟩)
      · exact found
      · exact absurd among unknown

theorem Declared.foldl {program : Program} (valid : program.config.validate.valid)
    (state : Discovery) {functions : List FunctionOverride}
    (among : functions ⊆ program.config.functions) {graph : Graph}
    (declared : Declared graph program.config) :
    Declared (functions.foldl state.addDeclared graph) program.config ∧
      ∀ address, ((functions.foldl state.addDeclared graph).function? address).isSome ↔
        (graph.function? address).isSome ∨
          address ∈ state.entries ∧ ∃ entry ∈ functions, entry.address = address := by
  induction functions generalizing graph with
  | nil => exact ⟨declared, fun address => by simp⟩
  | cons entry rest ih =>
      obtain ⟨here, others⟩ := List.cons_subset.mp among
      obtain ⟨added, present⟩ := declared.addDeclared valid here state
      obtain ⟨result, later⟩ := ih others added
      refine ⟨result, ?_⟩
      intro address
      rw [List.foldl_cons, later, present]
      simp only [List.mem_cons, exists_eq_or_imp, and_or_left, or_assoc]

/-! ## Scanned functions -/

/-- The function at an entry after it was scanned. -/
def scanned? (entry : UInt32) (scan : Scan) : Option FunctionNode → Option FunctionNode
  | none =>
    if scan.blocks.isEmpty then none
    else some (FunctionNode.absorb scan { address := entry, size := 0, authority := .discovered })
  | some node => some (FunctionNode.absorb scan node)

theorem ordered_addScan {graph : Graph} (ordered : graph.Ordered) (entry : UInt32) (scan : Scan) :
    (addScan graph entry scan).Ordered := by
  rw [addScan_eq]
  split
  · exact ordered
  · exact (ordered.addFunction _ _ _).adjust entry (FunctionNode.absorb_address scan)

theorem function?_addScan {graph : Graph} (ordered : graph.Ordered) (entry : UInt32) (scan : Scan)
    (other : UInt32) :
    (addScan graph entry scan).function? other =
      if other = entry then scanned? entry scan (graph.function? entry)
      else graph.function? other := by
  rw [addScan_eq]
  split
  next left =>
    simp only [Bool.and_eq_true, Option.isNone_iff_eq_none] at left
    obtain ⟨empty, missing⟩ := left
    by_cases here : other = entry
    · rw [if_pos here, here, missing, scanned?, if_pos empty]
    · rw [if_neg here]
  next kept =>
    rw [Graph.function?_adjust_eq _ _ (FunctionNode.absorb_address scan),
      ordered.function?_addFunction, ordered.function?_addFunction]
    by_cases here : other = entry
    · rw [if_pos here, if_pos here, if_pos rfl]
      cases found : graph.function? entry with
      | none =>
          have filled : ¬ scan.blocks.isEmpty := by
            intro empty
            exact kept (by simp [empty, found])
          rw [scanned?, if_neg filled]
          rfl
      | some node => simp [scanned?, Graph.settle, Graph.takeOver]
    · rw [if_neg here, if_neg here, if_neg here]

theorem foldl_addScan (scanOf : UInt32 → Scan) {entries : List UInt32} (distinct : entries.Nodup)
    {graph : Graph} (ordered : graph.Ordered) :
    (entries.foldl (fun graph entry => addScan graph entry (scanOf entry)) graph).Ordered ∧
      ∀ address, (entries.foldl (fun graph entry => addScan graph entry (scanOf entry))
          graph).function? address =
        if address ∈ entries then scanned? address (scanOf address) (graph.function? address)
        else graph.function? address := by
  induction entries generalizing graph with
  | nil => exact ⟨ordered, fun address => by simp⟩
  | cons entry rest ih =>
      obtain ⟨fresh, restDistinct⟩ := List.nodup_cons.mp distinct
      obtain ⟨resultOrdered, lookup⟩ :=
        ih restDistinct (ordered_addScan ordered entry (scanOf entry))
      refine ⟨resultOrdered, ?_⟩
      intro address
      rw [List.foldl_cons, lookup, function?_addScan ordered]
      by_cases here : address = entry
      · -- The entries after this one do not touch it again.
        rw [here, if_neg fresh, if_pos rfl, if_pos List.mem_cons_self]
      · simp [here]

/-! ## Names and parents -/

/-- A graph with the functions of another, up to names and parents. -/
structure Dresses (former graph : Graph) : Prop where
  ordered : graph.Ordered
  same : ∀ address,
    (graph.function? address).map FunctionNode.bare =
      (former.function? address).map FunctionNode.bare

theorem Dresses.adjust {former graph : Graph} (dresses : Dresses former graph) (address : UInt32)
    {change : FunctionNode → FunctionNode} (keeps : ∀ node, (change node).bare = node.bare) :
    Dresses former (graph.adjust address change) := by
  have stays : Graph.Stays change := fun node =>
    show (change node).bare.address = node.bare.address from congrArg _ (keeps node)
  refine ⟨dresses.ordered.adjust address stays, ?_⟩
  intro other
  rw [← dresses.same other, Graph.function?_adjust_eq graph address stays]
  split
  next here =>
    rw [here, Option.map_map]
    congr 1
    funext node
    exact keeps node
  next => rfl

theorem Dresses.attach {former graph : Graph} (dresses : Dresses former graph)
    (entry : FunctionOverride) : Dresses former (attach graph entry) := by
  unfold Discovery.attach
  split
  · split
    · exact dresses.adjust entry.address fun _ => rfl
    · exact dresses
  · exact dresses

/-- Only functions that the configuration makes chunks have a parent. -/
def Owned (graph : Graph) (config : Config) : Prop :=
  ∀ node ∈ graph.nodes, node.isChunk → config.DeclaresChunk node.address

theorem Owned.attach {graph : Graph} {config : Config} (owned : Owned graph config)
    {entry : FunctionOverride} (member : entry ∈ config.functions) :
    Owned (attach graph entry) config := by
  unfold Discovery.attach
  cases declared : entry.parent with
  | none => exact owned
  | some parent =>
      simp only
      split
      · intro node among
        obtain ⟨former, formerMember, rfl⟩ := List.mem_map.mp among
        split
        next here =>
          intro _
          exact ⟨entry, member, here.symm, by rw [FunctionOverride.isChunk, declared]; rfl⟩
        next => exact owned former formerMember
      · exact owned

theorem Owned.adjustName {graph : Graph} {config : Config} (owned : Owned graph config)
    (address : UInt32) (name : String) :
    Owned (graph.adjust address fun node => { node with name := some name }) config := by
  intro node among
  obtain ⟨former, formerMember, rfl⟩ := List.mem_map.mp among
  split
  · exact owned former formerMember
  · exact owned former formerMember

/-! ## The whole graph -/

/-- The scan of an entry in its last form. -/
def lastScan (program : Program) (state : Discovery) (entry : UInt32) : Scan :=
  program.scan entry (state.limitOf program entry)

/-- The functions before names and parents are given. -/
def scannedGraph (program : Program) (state : Discovery) : Graph :=
  state.entries.foldl (fun graph entry => addScan graph entry (lastScan program state entry))
    (program.config.functions.foldl state.addDeclared Graph.empty)

section

variable {program : Program} {state : Discovery}

theorem toGraph_eq (final : state.Final program) :
    state.toGraph program = state.names.foldl (fun graph named =>
        graph.adjust named.1 fun node => { node with name := some named.2 })
      (program.config.functions.foldl attach (scannedGraph program state)) := by
  simp only [toGraph, scannedGraph, final.settled.cached, List.foldl_map]
  rfl

theorem scannedGraph_function? (final : state.Final program)
    (valid : program.config.validate.valid) :
    (scannedGraph program state).Ordered ∧
      (∀ address node, (scannedGraph program state).function? address = some node →
        address ∈ state.entries ∧
          node = FunctionNode.absorb (lastScan program state address)
            (declaredAt program.config address)) ∧
      ∀ address, address ∈ state.entries →
        (program.config.Declares address ∨ (lastScan program state address).blocks ≠ []) →
          ((scannedGraph program state).function? address).isSome := by
  have start : Declared Graph.empty program.config :=
    ⟨Graph.ordered_empty, fun _ _ found => by cases found⟩
  obtain ⟨declared, present⟩ := start.foldl valid state (List.Subset.refl _)
  obtain ⟨ordered, lookup⟩ : (scannedGraph program state).Ordered ∧
      ∀ address, (scannedGraph program state).function? address =
        if address ∈ state.entries then
          scanned? address (lastScan program state address)
            ((program.config.functions.foldl state.addDeclared Graph.empty).function? address)
        else (program.config.functions.foldl state.addDeclared Graph.empty).function? address :=
    foldl_addScan (lastScan program state) final.coherent.entriesSorted.nodup declared.ordered
  have known : ∀ address,
      ((program.config.functions.foldl state.addDeclared Graph.empty).function? address).isSome ↔
        address ∈ state.entries ∧ program.config.Declares address := by
    intro address
    rw [present]
    simp [Graph.empty, Graph.function?, Config.Declares]
  refine ⟨ordered, ?_, ?_⟩
  · intro address node found
    rw [lookup] at found
    split at found
    next among =>
      refine ⟨among, ?_⟩
      cases former : (program.config.functions.foldl state.addDeclared
          Graph.empty).function? address with
      | none =>
          -- Nothing is declared here, which reads as a function of no size.
          have undeclared : ¬ program.config.Declares address := by
            intro declares
            have here := (known address).mpr ⟨among, declares⟩
            simp [former] at here
          rw [former, scanned?] at found
          split at found
          · cases found
          · cases found
            rw [declaredAt_of_free (extentAt_of_undeclared undeclared)]
      | some declaredNode =>
          rw [former] at found
          cases found
          rw [declared.same address declaredNode former]
    next absent =>
      have here := (known address).mp (by rw [found]; rfl)
      exact absurd here.1 absent
  · intro address among kept
    rw [lookup, if_pos among]
    cases former : (program.config.functions.foldl state.addDeclared
        Graph.empty).function? address with
    | some declaredNode => rfl
    | none =>
        rcases kept with declares | filled
        · have here := (known address).mpr ⟨among, declares⟩
          simp [former] at here
        · rw [scanned?, if_neg (by simpa using filled)]
          rfl

theorem scannedGraph_owned (final : state.Final program) (valid : program.config.validate.valid) :
    Owned (scannedGraph program state) program.config := by
  obtain ⟨ordered, content, _⟩ := scannedGraph_function? final valid
  intro node member chunk
  obtain ⟨_, same⟩ := content _ _ (ordered.function?_of_mem member)
  rw [same, FunctionNode.isChunk, FunctionNode.absorb_parent] at chunk
  unfold declaredAt at chunk
  split at chunk <;> cases chunk

theorem toGraph_dresses (final : state.Final program) (valid : program.config.validate.valid) :
    Dresses (scannedGraph program state) (state.toGraph program) ∧
      Owned (state.toGraph program) program.config := by
  rw [toGraph_eq final]
  constructor
  · have attached := List.foldlRecOn program.config.functions attach
      (motive := Dresses (scannedGraph program state))
      ⟨(scannedGraph_function? final valid).1, fun _ => rfl⟩
      fun _ dresses entry _ => dresses.attach entry
    refine List.foldlRecOn _ _ attached ?_
    intro graph dresses named _
    exact dresses.adjust named.1 fun _ => rfl
  · have attached := List.foldlRecOn program.config.functions attach
      (motive := fun graph => Owned graph program.config) (scannedGraph_owned final valid)
      fun _ owned entry member => owned.attach member
    refine List.foldlRecOn (motive := fun graph => Owned graph program.config) _ _ attached ?_
    intro graph owned named _
    exact owned.adjustName named.1 named.2

theorem toGraph_ordered (final : state.Final program) (valid : program.config.validate.valid) :
    (state.toGraph program).Ordered :=
  (toGraph_dresses final valid).1.ordered

/-- A function of the graph is what is declared at its entry and what the scan found there. -/
theorem toGraph_node (final : state.Final program) (valid : program.config.validate.valid)
    {node : FunctionNode} (member : node ∈ (state.toGraph program).nodes) :
    node.address ∈ state.entries ∧
      node.bare = (FunctionNode.absorb (lastScan program state node.address)
        (declaredAt program.config node.address)).bare := by
  obtain ⟨dresses, _⟩ := toGraph_dresses final valid
  have same := dresses.same node.address
  rw [dresses.ordered.function?_of_mem member, Option.map_some] at same
  obtain ⟨former, found, equal⟩ := Option.map_eq_some_iff.mp same.symm
  obtain ⟨among, content⟩ := (scannedGraph_function? final valid).2.1 _ _ found
  exact ⟨among, by rw [← equal, content]⟩

theorem exists_toGraph_node (final : state.Final program) (valid : program.config.validate.valid)
    {address : UInt32} (among : address ∈ state.entries)
    (kept : program.config.Declares address ∨ (lastScan program state address).blocks ≠ []) :
    ∃ node ∈ (state.toGraph program).nodes, node.address = address := by
  obtain ⟨dresses, _⟩ := toGraph_dresses final valid
  have present := (scannedGraph_function? final valid).2.2 address among kept
  rw [← Option.isSome_map, ← dresses.same, Option.isSome_map] at present
  exact Graph.function?_isSome.mp present

/-! ## The functions of the graph -/

theorem toGraph_declaresChunk (final : state.Final program)
    (valid : program.config.validate.valid) {node : FunctionNode}
    (member : node ∈ (state.toGraph program).nodes) (chunk : node.isChunk) :
    program.config.DeclaresChunk node.address :=
  (toGraph_dresses final valid).2 node member chunk

theorem toGraph_size (final : state.Final program) (valid : program.config.validate.valid)
    {node : FunctionNode} (member : node ∈ (state.toGraph program).nodes) {size : UInt32}
    (extent : program.config.extentAt node.address = some size) : node.size = size := by
  obtain ⟨_, content⟩ := toGraph_node final valid member
  rw [declaredAt_of_extent extent] at content
  change node.bare.size = size
  rw [content]
  exact FunctionNode.absorb_size_of_configured _ rfl

theorem toGraph_stop_le (final : state.Final program) (valid : program.config.validate.valid)
    {node : FunctionNode} (member : node ∈ (state.toGraph program).nodes)
    (free : program.config.extentAt node.address = none) {next : UInt32} (word : aligned next)
    (above : node.address ≤ next) (limit : state.limitOf program node.address ≤ next) :
    node.stop ≤ next := by
  obtain ⟨_, content⟩ := toGraph_node final valid member
  rw [declaredAt_of_free free] at content
  change node.bare.stop ≤ next
  rw [content]
  refine FunctionNode.absorb_stop_le rfl ?_ ?_
  · rw [FunctionNode.stop, UInt32.add_zero]
    exact above
  · intro block among
    exact Program.scan_stop_le word limit among

theorem toGraph_blocks (final : state.Final program) (valid : program.config.validate.valid)
    (bounded : ∀ window, program.Bounded window) {node : FunctionNode}
    (member : node ∈ (state.toGraph program).nodes) :
    node.blocks = (lastScan program state node.address).blocks := by
  obtain ⟨_, content⟩ := toGraph_node final valid member
  change node.bare.blocks = _
  rw [content]
  apply FunctionNode.absorb_blocks
  · unfold declaredAt
    split <;> rfl
  · intro block among
    exact UInt32.lt_iff_toNat_lt.mpr (Program.scan_block among).2
  · exact Program.scan_ordered (bounded _)

theorem toGraph_calls (final : state.Final program) (valid : program.config.validate.valid)
    {node : FunctionNode} (member : node ∈ (state.toGraph program).nodes) :
    (lastScan program state node.address).calls ⊆ node.calls := by
  obtain ⟨_, content⟩ := toGraph_node final valid member
  change _ ⊆ node.bare.calls
  rw [content]
  exact FunctionNode.absorb_calls _ _

theorem toGraph_jumpTables (final : state.Final program) (valid : program.config.validate.valid)
    {node : FunctionNode} (member : node ∈ (state.toGraph program).nodes) {table : JumpTable}
    (found : table ∈ (lastScan program state node.address).jumpTables)
    (unique : ∀ other ∈ (lastScan program state node.address).jumpTables,
      other.address = table.address → other = table) : table ∈ node.jumpTables := by
  obtain ⟨_, content⟩ := toGraph_node final valid member
  change table ∈ node.bare.jumpTables
  rw [content]
  exact FunctionNode.absorb_jumpTables found unique _

end

end Discovery

end PowerLift
