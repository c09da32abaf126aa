import Mathlib
import PowerLift.Discovery.Basic

/-!
Building the graph of a discovery never fails: every operation names a function that exists.
-/

namespace PowerLift

@[simp] theorem ok_bind {α β : Type} (value : α) (next : α → Except Error β) :
    (Except.ok value >>= next) = next value := rfl

namespace FunctionNode

theorem foldl_field {α β : Type} (field : FunctionNode → β)
    (change : FunctionNode → α → FunctionNode)
    (keeps : ∀ node item, field (change node item) = field node) (items : List α)
    (node : FunctionNode) : field (items.foldl change node) = field node := by
  induction items generalizing node with
  | nil => rfl
  | cons item rest ih => exact (ih (change node item)).trans (keeps node item)

end FunctionNode

namespace Graph

/-! ## Changes to functions that exist -/

theorem function?_isSome {graph : Graph} {address : UInt32} :
    (graph.function? address).isSome ↔ ∃ node ∈ graph.nodes, node.address = address := by
  simp [function?]

theorem takeOver_address (node : FunctionNode) (size : UInt32) (authority : Authority) :
    (takeOver node size authority).address = node.address := by
  unfold takeOver
  split <;> rfl

theorem exists_insertNode (address size : UInt32) (authority : Authority)
    (nodes : List FunctionNode) :
    ∃ node ∈ insertNode address size authority nodes, node.address = address := by
  induction nodes with
  | nil => exact ⟨_, List.mem_singleton.mpr rfl, rfl⟩
  | cons node rest ih =>
      simp only [insertNode]
      split
      · exact ⟨_, List.mem_cons_self, rfl⟩
      · split
        next same =>
          exact ⟨_, List.mem_cons_self, (takeOver_address node size authority).trans same.symm⟩
        next =>
          obtain ⟨found, member, same⟩ := ih
          exact ⟨found, List.mem_cons_of_mem _ member, same⟩

theorem function?_addFunction (graph : Graph) (address size : UInt32) (authority : Authority) :
    ((graph.addFunction address size authority).function? address).isSome :=
  function?_isSome.mpr (exists_insertNode address size authority graph.nodes)

/-- A change of a function that leaves it where it is. -/
def Stays (change : FunctionNode → FunctionNode) : Prop :=
  ∀ node, (change node).address = node.address

theorem function?_adjust (address : UInt32) {graph : Graph} {other : UInt32}
    {change : FunctionNode → FunctionNode} (stays : Stays change)
    (found : (graph.function? other).isSome) :
    ((graph.adjust address change).function? other).isSome := by
  obtain ⟨node, member, same⟩ := function?_isSome.mp found
  refine function?_isSome.mpr ⟨_, List.mem_map_of_mem member, ?_⟩
  split
  · exact (stays node).trans same
  · exact same

theorem adjust_adjust {address : UInt32} {first : FunctionNode → FunctionNode}
    (stays : Stays first) (graph : Graph) (second : FunctionNode → FunctionNode) :
    (graph.adjust address first).adjust address second =
      graph.adjust address fun node => second (first node) := by
  simp only [adjust, List.map_map, mk.injEq]
  refine List.map_congr_left ?_
  intro node _
  simp only [Function.comp_apply]
  by_cases here : node.address = address
  · simp [here, stays node]
  · simp [here]

theorem adjust_eq_self {graph : Graph} {address : UInt32}
    {change : FunctionNode → FunctionNode}
    (fixed : ∀ node ∈ graph.nodes, node.address = address → change node = node) :
    graph.adjust address change = graph := by
  have unchanged : (graph.nodes.map fun node =>
      if node.address = address then change node else node) = graph.nodes.map id := by
    refine List.map_congr_left ?_
    intro node member
    split
    next here => exact fixed node member here
    next => rfl
  rw [adjust, unchanged, List.map_id]

theorem adjust_of_missing {graph : Graph} {address : UInt32}
    (missing : (graph.function? address).isNone) (change : FunctionNode → FunctionNode) :
    graph.adjust address change = graph := by
  refine adjust_eq_self ?_
  intro node member same
  have found := function?_isSome.mpr ⟨node, member, same⟩
  rw [Option.isNone_iff_eq_none.mp missing] at found
  cases found

theorem modify_eq_ok {graph : Graph} {address : UInt32}
    (found : (graph.function? address).isSome) (change : FunctionNode → FunctionNode) :
    graph.modify address change = .ok (graph.adjust address change) := by
  rw [modify, if_pos found]

/-- Changes of one function after another are one change of it. -/
theorem foldlM_modify {α : Type} {address : UInt32} {change : FunctionNode → α → FunctionNode}
    (stays : ∀ item, Stays fun node => change node item) {graph : Graph}
    (found : (graph.function? address).isSome) (items : List α) :
    items.foldlM (fun graph item => graph.modify address fun node => change node item) graph =
      .ok (graph.adjust address fun node => items.foldl change node) := by
  induction items generalizing graph with
  | nil => exact congrArg Except.ok (adjust_eq_self fun _ _ _ => rfl).symm
  | cons item rest ih =>
      rw [List.foldlM_cons, modify_eq_ok found, ok_bind]
      rw [ih (function?_adjust address (stays item) found), adjust_adjust (stays item)]
      rfl

theorem addBlock_stays (block : Span) : Stays fun node => node.addBlock block :=
  fun _ => rfl

theorem addCall_stays (call : Call) : Stays fun node => node.addCall call := by
  intro node
  simp only [FunctionNode.addCall]
  split <;> rfl

theorem addJumpTable_stays (table : JumpTable) : Stays fun node => node.addJumpTable table :=
  fun _ => rfl

theorem addUnresolvedJump_stays (site : UInt32) :
    Stays fun node => node.addUnresolvedJump site := by
  intro node
  simp only [FunctionNode.addUnresolvedJump]
  split <;> rfl

theorem foldl_stays {α : Type} {change : FunctionNode → α → FunctionNode}
    (stays : ∀ item, Stays fun node => change node item) (items : List α) :
    Stays fun node => items.foldl change node :=
  FunctionNode.foldl_field (·.address) change (fun node item => stays item node) items

end Graph

/-! ## What a scan adds to a function -/

namespace FunctionNode

/-- A function with what a scan found. -/
def absorb (scan : Scan) (node : FunctionNode) : FunctionNode :=
  let node := scan.blocks.foldl FunctionNode.addBlock node
  let node := scan.calls.foldl FunctionNode.addCall node
  let node := scan.jumpTables.foldl FunctionNode.addJumpTable node
  scan.unresolvedJumps.foldl FunctionNode.addUnresolvedJump node

theorem addCall_eq (node : FunctionNode) (call : Call) :
    node.addCall call = { node with calls := (node.addCall call).calls } := by
  unfold addCall
  split <;> rfl

theorem addUnresolvedJump_eq (node : FunctionNode) (site : UInt32) :
    node.addUnresolvedJump site =
      { node with unresolvedJumps := (node.addUnresolvedJump site).unresolvedJumps } := by
  unfold addUnresolvedJump
  split <;> rfl

theorem foldl_addUnresolvedJump {β : Type} (field : FunctionNode → β)
    (jumps : ∀ node sites, field { node with unresolvedJumps := sites } = field node)
    (sites : List UInt32) (node : FunctionNode) :
    field (sites.foldl addUnresolvedJump node) = field node := by
  apply foldl_field field
  intro node site
  exact (congrArg field (addUnresolvedJump_eq node site)).trans (jumps node _)

theorem foldl_addJumpTable {β : Type} (field : FunctionNode → β)
    (tables : ∀ node jumpTables, field { node with jumpTables := jumpTables } = field node)
    (items : List JumpTable) (node : FunctionNode) :
    field (items.foldl addJumpTable node) = field node := by
  apply foldl_field field
  intro node table
  exact tables node _

theorem foldl_addCall {β : Type} (field : FunctionNode → β)
    (calls : ∀ node calls, field { node with calls := calls } = field node)
    (items : List Call) (node : FunctionNode) :
    field (items.foldl addCall node) = field node := by
  apply foldl_field field
  intro node call
  exact (congrArg field (addCall_eq node call)).trans (calls node _)

/-- Calls, tables and unresolved jumps change no field but their own. -/
theorem absorb_frame {β : Type} (field : FunctionNode → β)
    (calls : ∀ node calls, field { node with calls := calls } = field node)
    (tables : ∀ node jumpTables, field { node with jumpTables := jumpTables } = field node)
    (jumps : ∀ node sites, field { node with unresolvedJumps := sites } = field node)
    (scan : Scan) (node : FunctionNode) :
    field (absorb scan node) = field (scan.blocks.foldl addBlock node) :=
  (foldl_addUnresolvedJump field jumps _ _).trans
    ((foldl_addJumpTable field tables _ _).trans (foldl_addCall field calls _ _))

theorem absorb_address (scan : Scan) (node : FunctionNode) :
    (absorb scan node).address = node.address :=
  (absorb_frame (·.address) (fun _ _ => rfl) (fun _ _ => rfl) (fun _ _ => rfl) scan node).trans
    (foldl_field (·.address) addBlock (fun _ _ => rfl) scan.blocks node)

end FunctionNode

namespace Discovery

theorem addScan_eq (graph : Graph) (entry : UInt32) (scan : Scan) :
    addScan graph entry scan =
      if scan.blocks.isEmpty && (graph.function? entry).isNone then graph
      else (graph.addFunction entry 0 .discovered).adjust entry (FunctionNode.absorb scan) := rfl

/-! ## The graph, by operations that may fail -/

/-- Adds a scanned function and all that its scan found, one by one. -/
def buildScan (graph : Graph) (entry : UInt32) (scan : Scan) : Except Error Graph :=
  if scan.blocks.isEmpty && (graph.function? entry).isNone then .ok graph
  else do
    let graph := graph.addFunction entry 0 .discovered
    let graph ← scan.blocks.foldlM (fun graph block => graph.addBlock entry block) graph
    let graph ← scan.calls.foldlM (fun graph call => graph.addCall entry call) graph
    let graph ← scan.jumpTables.foldlM (fun graph table => graph.addJumpTable entry table) graph
    scan.unresolvedJumps.foldlM (fun graph site => graph.addUnresolvedJump entry site) graph

/-- Makes a chunk of a function if it and its configured parent exist. -/
def buildParent (graph : Graph) (entry : FunctionOverride) : Except Error Graph :=
  if (graph.function? entry.address).isNone then .ok graph
  else
    match entry.parent with
    | some parent =>
      if (graph.function? parent).isSome then graph.setParent entry.address parent else .ok graph
    | none => .ok graph

/-- Names a function if it exists. -/
def buildName (graph : Graph) (named : UInt32 × String) : Except Error Graph :=
  if (graph.function? named.1).isSome then graph.setName named.1 named.2 else .ok graph

def build (program : Program) (state : Discovery) : Except Error Graph := do
  let graph := program.config.functions.foldl state.addDeclared Graph.empty
  let graph ← state.scans.foldlM (fun graph scanned => buildScan graph scanned.1 scanned.2) graph
  let graph ← program.config.functions.foldlM buildParent graph
  state.names.foldlM buildName graph

theorem buildScan_eq_ok (graph : Graph) (entry : UInt32) (scan : Scan) :
    buildScan graph entry scan = .ok (addScan graph entry scan) := by
  unfold buildScan addScan
  split
  next => rfl
  next =>
    have found := graph.function?_addFunction entry 0 .discovered
    have blocksStay := Graph.foldl_stays Graph.addBlock_stays scan.blocks
    have callsStay := Graph.foldl_stays Graph.addCall_stays scan.calls
    have tablesStay := Graph.foldl_stays Graph.addJumpTable_stays scan.jumpTables
    have blocksFound := Graph.function?_adjust entry blocksStay found
    have callsFound := Graph.function?_adjust entry callsStay blocksFound
    have tablesFound := Graph.function?_adjust entry tablesStay callsFound
    simp only [Graph.addBlock, Graph.addCall, Graph.addJumpTable, Graph.addUnresolvedJump]
    rw [Graph.foldlM_modify Graph.addBlock_stays found, ok_bind,
      Graph.foldlM_modify Graph.addCall_stays blocksFound, ok_bind,
      Graph.foldlM_modify Graph.addJumpTable_stays callsFound, ok_bind,
      Graph.foldlM_modify Graph.addUnresolvedJump_stays tablesFound,
      Graph.adjust_adjust tablesStay, Graph.adjust_adjust callsStay,
      Graph.adjust_adjust blocksStay]

theorem buildParent_eq_ok (graph : Graph) (entry : FunctionOverride) :
    buildParent graph entry = .ok (attach graph entry) := by
  unfold buildParent attach
  cases entry.parent with
  | none => split <;> rfl
  | some parent =>
      simp only
      split
      next missing =>
        split
        · rw [Graph.adjust_of_missing missing]
        · rfl
      next present =>
        split
        · exact Graph.modify_eq_ok (Option.isSome_iff_ne_none.mpr (by simpa using present)) _
        · rfl

theorem buildName_eq_ok (graph : Graph) (address : UInt32) (name : String) :
    buildName graph (address, name) =
      .ok (graph.adjust address fun node => { node with name := some name }) := by
  unfold buildName
  split
  next found => exact Graph.modify_eq_ok found _
  next missing => rw [Graph.adjust_of_missing (by simpa using missing)]

theorem foldlM_ok {α β : Type} {step : β → α → Except Error β} {next : β → α → β}
    (steps : ∀ acc item, step acc item = .ok (next acc item)) (items : List α) (acc : β) :
    items.foldlM step acc = .ok (items.foldl next acc) := by
  induction items generalizing acc with
  | nil => rfl
  | cons item rest ih =>
      rw [List.foldlM_cons, steps, ok_bind]
      exact ih (next acc item)

theorem build_eq_ok (program : Program) (state : Discovery) :
    state.build program = .ok (state.toGraph program) := by
  dsimp only [build, toGraph]
  rw [foldlM_ok fun graph (scanned : UInt32 × Scan) => buildScan_eq_ok graph scanned.1 scanned.2,
    ok_bind, foldlM_ok buildParent_eq_ok, ok_bind,
    foldlM_ok fun graph (named : UInt32 × String) => buildName_eq_ok graph named.1 named.2]

end Discovery

end PowerLift
