import Mathlib
import PowerLift.Proofs.Assembly

/-!
Discovered functions under any configuration. Also where the configuration gives no consistent
extents, the graph has at most one function for an address, and each function holds nothing but
what one scan of its entry found.
-/

namespace PowerLift

/-- A function without content. -/
structure FunctionNode.Blank (node : FunctionNode) : Prop where
  blocks : node.blocks = []
  calls : node.calls = []
  jumpTables : node.jumpTables = []
  unresolvedJumps : node.unresolvedJumps = []
  name : node.name = none
  /-- Only the configuration gives an extent before there are blocks. -/
  size : node.authority = .discovered → node.size = 0

theorem FunctionNode.blank_fresh {address size : UInt32} {authority : Authority}
    (undecided : authority = .discovered → size = 0) :
    Blank { address, size, authority } :=
  ⟨rfl, rfl, rfl, rfl, rfl, undecided⟩

theorem Graph.settle_blank {address size : UInt32} {authority : Authority}
    (undecided : authority = .discovered → size = 0) {former : Option FunctionNode}
    (blank : ∀ node ∈ former, node.Blank) : (settle address size authority former).Blank := by
  cases former with
  | none => exact FunctionNode.blank_fresh undecided
  | some node =>
      have isBlank := blank node rfl
      change (takeOver node size authority).Blank
      unfold takeOver
      split
      · exact ⟨isBlank.blocks, isBlank.calls, isBlank.jumpTables, isBlank.unresolvedJumps,
          isBlank.name, fun discovered => by cases discovered⟩
      · exact isBlank

namespace Discovery

/-! ## Functions before they are scanned -/

/-- A graph of functions without content, all at entries. -/
structure Announces (state : Discovery) (graph : Graph) : Prop where
  ordered : graph.Ordered
  blank : ∀ address, ∀ node ∈ graph.function? address, address ∈ state.entries ∧ node.Blank

theorem announces_empty (state : Discovery) : state.Announces Graph.empty :=
  ⟨Graph.ordered_empty, fun _ _ found => by cases found⟩

theorem Announces.addFunction {state : Discovery} {graph : Graph}
    (announces : state.Announces graph) {address : UInt32} (known : address ∈ state.entries)
    {size : UInt32} {authority : Authority} (undecided : authority = .discovered → size = 0) :
    state.Announces (graph.addFunction address size authority) where
  ordered := announces.ordered.addFunction address size authority
  blank := by
    intro other node found
    rw [announces.ordered.function?_addFunction] at found
    split at found
    next here =>
      cases found
      rw [here]
      exact ⟨known, Graph.settle_blank undecided fun former formerFound =>
        (announces.blank address former formerFound).2⟩
    next => exact announces.blank other node found

theorem Announces.addDeclared {state : Discovery} {graph : Graph}
    (announces : state.Announces graph) (entry : FunctionOverride) :
    state.Announces (state.addDeclared graph entry) := by
  unfold Discovery.addDeclared
  split
  next known =>
    split
    · exact announces.addFunction (by simpa using known) fun discovered => by cases discovered
    · exact announces.addFunction (by simpa using known) fun _ => rfl
  next => exact announces

theorem announces_declared (program : Program) (state : Discovery) :
    state.Announces (program.config.functions.foldl state.addDeclared Graph.empty) :=
  List.foldlRecOn _ _ (announces_empty state) fun _ announces entry _ =>
    announces.addDeclared entry

/-! ## Functions after they are scanned -/

section

variable {program : Program} {state : Discovery}

theorem scannedGraph_absorbs (final : state.Final program) :
    (scannedGraph program state).Ordered ∧
      ∀ address, ∀ node ∈ (scannedGraph program state).function? address,
        address ∈ state.entries ∧ ∃ blank : FunctionNode, blank.Blank ∧
          node = FunctionNode.absorb (lastScan program state address) blank := by
  have announces := announces_declared program state
  obtain ⟨ordered, lookup⟩ := foldl_addScan (lastScan program state)
    final.coherent.entriesSorted.nodup announces.ordered
  refine ⟨ordered, ?_⟩
  intro address node found
  rw [scannedGraph, lookup] at found
  split at found
  next among =>
    refine ⟨among, ?_⟩
    cases former : (program.config.functions.foldl state.addDeclared
        Graph.empty).function? address with
    | none =>
        rw [former, scanned?] at found
        split at found
        · cases found
        · cases found
          exact ⟨_, FunctionNode.blank_fresh fun _ => rfl, rfl⟩
    | some declared =>
        rw [former] at found
        cases found
        exact ⟨declared, (announces.blank address declared former).2, rfl⟩
  next absent => exact absurd (announces.blank address node found).1 absent

theorem toGraph_dresses_scanned (final : state.Final program) :
    Dresses (scannedGraph program state) (state.toGraph program) := by
  rw [toGraph_eq final]
  have attached := List.foldlRecOn program.config.functions attach
    (motive := Dresses (scannedGraph program state))
    ⟨(scannedGraph_absorbs final).1, fun _ => rfl⟩
    fun _ dresses entry _ => dresses.attach entry
  refine List.foldlRecOn _ _ attached ?_
  intro graph dresses named _
  exact dresses.adjust named.1 fun _ => rfl

theorem toGraph_absorbs (final : state.Final program) {node : FunctionNode}
    (member : node ∈ (state.toGraph program).nodes) :
    node.address ∈ state.entries ∧ ∃ blank : FunctionNode, blank.Blank ∧
      node.bare = (FunctionNode.absorb (lastScan program state node.address) blank).bare := by
  have dresses := toGraph_dresses_scanned final
  have same := dresses.same node.address
  rw [dresses.ordered.function?_of_mem member, Option.map_some] at same
  obtain ⟨former, found, equal⟩ := Option.map_eq_some_iff.mp same.symm
  obtain ⟨among, blank, isBlank, content⟩ := (scannedGraph_absorbs final).2 _ _ found
  exact ⟨among, blank, isBlank, by rw [← equal, content]⟩

end

theorem run_ordered (program : Program) (hints : List UInt32) (tables : List VTable) :
    ((((seed program).addEntries program hints).addVTables program tables).run
      program).Ordered := by
  obtain ⟨final, isFinal, same⟩ := run_final program hints tables
  rw [same]
  exact (toGraph_dresses_scanned isFinal).ordered

theorem run_absorbs {program : Program} {hints : List UInt32} {tables : List VTable}
    {node : FunctionNode}
    (member : node ∈ ((((seed program).addEntries program hints).addVTables program tables).run
      program).nodes) :
    ∃ limit, ∃ blank : FunctionNode, blank.Blank ∧
      node.bare = (FunctionNode.absorb (program.scan node.address limit) blank).bare := by
  obtain ⟨final, isFinal, same⟩ := run_final program hints tables
  rw [same] at member
  exact ⟨final.limitOf program node.address, (toGraph_absorbs isFinal member).2⟩

/-! ## Programs whose entries are all known from the start -/

/-- The scan of an entry, from an exploration that cuts no block. -/
theorem scan_of_explored {program : Program} {entry limit : UInt32} {scan : Scan}
    (nonempty : entry < limit)
    (explored :
      (Exploration.run program { entry, limit } (Program.scanFuel { entry, limit })
        (Exploration.start { entry, limit })).scan = scan ∧
      (Exploration.run program { entry, limit } (Program.scanFuel { entry, limit })
        (Exploration.start { entry, limit })).splits = [])
    (sorted : scan.blocks.Pairwise fun first second => first.start ≤ second.start) :
    program.scan entry limit = scan := by
  have same : scan.blocks.mergeSort (fun first second => first.start ≤ second.start) =
      scan.blocks :=
    List.mergeSort_of_pairwise (sorted.imp fun before => decide_eq_true before)
  rw [Exploration.scan_eq_result nonempty, Exploration.result, explored.1, explored.2,
    Scan.splitBlocks, same]
  simp [Scan.cutAt]

theorem addEntries_of_known {program : Program} {addresses : List UInt32} {state : Discovery}
    (known : ∀ address ∈ addresses, state.addEntry program address = state) :
    state.addEntries program addresses = state := by
  induction addresses with
  | nil => rfl
  | cons address rest ih =>
      obtain ⟨first, others⟩ := List.forall_mem_cons.mp known
      change (state.addEntry program address).addEntries program rest = state
      rw [first]
      exact ih others

/-- The discovery of functions that call each other only. -/
theorem run_of_scans {program : Program} {entries boundaries : List UInt32}
    {names : List (UInt32 × String)} {scans : List (UInt32 × Scan)}
    (scanned : (entries.map fun entry =>
      (entry, program.scan entry (limitOf program { entries, boundaries, names } entry))) = scans)
    (known : ∀ target ∈ scans.flatMap (·.2.newEntries),
      addEntry program { entries, boundaries, names, scans } target =
        { entries, boundaries, names, scans })
    (swept : sweep program { entries, boundaries, names, scans } =
      ({ entries, boundaries, names, scans }, 0)) :
    run program { entries, boundaries, names } =
      toGraph program { entries, boundaries, names, scans } := by
  have passed : pass program { entries, boundaries, names } =
      { entries, boundaries, names, scans } := by
    simp only [pass, rescan, List.lookup_nil, scanned]
    exact addEntries_of_known known
  rw [run_eq_of_pass]
  · rw [passed]
  · rw [passed]
  · rw [passed]
    exact swept

theorem run_of_known {program : Program} {entries boundaries : List UInt32}
    {names : List (UInt32 × String)} {scans : List (UInt32 × Scan)}
    (seeded : seed program = { entries, boundaries, names })
    (scanned : (entries.map fun entry =>
      (entry, program.scan entry (limitOf program { entries, boundaries, names } entry))) = scans)
    (known : ∀ target ∈ scans.flatMap (·.2.newEntries),
      addEntry program { entries, boundaries, names, scans } target =
        { entries, boundaries, names, scans })
    (swept : sweep program { entries, boundaries, names, scans } =
      ({ entries, boundaries, names, scans }, 0)) :
    (seed program).run program = toGraph program { entries, boundaries, names, scans } := by
  rw [seeded]
  exact run_of_scans scanned known swept

end Discovery

end PowerLift
