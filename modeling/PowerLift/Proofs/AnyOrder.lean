import Mathlib
import PowerLift.Proofs.Scanned

/-!
Discovery in any order. Scans and names are kept in no particular order, and hints come in any.
Whatever order they are gone through in, and be it another one each time, the graph is the same.
-/

namespace PowerLift

theorem AddressSet.insert_comm (first second : UInt32) (set : List UInt32) :
    insert first (insert second set) = insert second (insert first set) := by
  induction set with
  | nil => grind [insert]
  | cons head rest ih => grind [insert]

namespace Graph

theorem Ordered.ext {first second : Graph} (firstOrdered : first.Ordered)
    (secondOrdered : second.Ordered)
    (same : ∀ address, first.function? address = second.function? address) : first = second := by
  have members : ∀ node, node ∈ first.nodes ↔ node ∈ second.nodes := by
    intro node
    constructor
    · intro member
      exact (of_function? ((same _).symm.trans (firstOrdered.function?_of_mem member))).1
    · intro member
      exact (of_function? ((same _).trans (secondOrdered.function?_of_mem member))).1
  have perm : first.nodes.Perm second.nodes :=
    (List.perm_ext_iff_of_nodup (List.Nodup.of_map _ firstOrdered.nodup)
      (List.Nodup.of_map _ secondOrdered.nodup)).mpr members
  have nodes : first.nodes = second.nodes := by
    refine perm.eq_of_pairwise ?_ (List.pairwise_map.mp firstOrdered)
      (List.pairwise_map.mp secondOrdered)
    intro one other _ _ below above
    exact absurd (UInt32.lt_trans below above) (UInt32.lt_irrefl _)
  cases first
  cases second
  exact congrArg Graph.mk nodes

/-- Steps that commute at different addresses may be made in any order. -/
theorem Ordered.foldl_perm {α : Type} (step : Graph → UInt32 × α → Graph)
    (keeps : ∀ {graph : Graph} (item), graph.Ordered → (step graph item).Ordered)
    (swaps : ∀ {graph : Graph} {first second}, graph.Ordered → first.1 ≠ second.1 →
      step (step graph first) second = step (step graph second) first)
    {first second : List (UInt32 × α)} (order : first.Perm second)
    (distinct : (first.map (·.1)).Nodup) {graph : Graph} (ordered : graph.Ordered) :
    first.foldl step graph = second.foldl step graph := by
  induction order generalizing graph with
  | nil => rfl
  | cons item _ ih => exact ih (List.nodup_cons.mp distinct).2 (keeps item ordered)
  | swap one other rest =>
      have differ : other.1 ≠ one.1 := by
        intro same
        apply (List.nodup_cons.mp distinct).1
        exact List.mem_cons.mpr (Or.inl same)
      simp only [List.foldl_cons]
      rw [swaps ordered differ]
  | trans head _ ihHead ihRest =>
      exact (ihHead distinct ordered).trans
        (ihRest ((head.map _).nodup_iff.mp distinct) ordered)

theorem adjust_comm (graph : Graph) {first second : UInt32} (apart : first ≠ second)
    {change other : FunctionNode → FunctionNode} (stays : Stays change) (others : Stays other) :
    (graph.adjust first change).adjust second other =
      (graph.adjust second other).adjust first change := by
  simp only [adjust, List.map_map]
  congr 1
  apply List.map_congr_left
  intro node _
  simp only [Function.comp_apply]
  by_cases here : node.address = first
  · have elsewhere : node.address ≠ second := here ▸ apart
    rw [if_pos here, if_neg elsewhere, if_pos here, if_neg (by rw [stays]; exact elsewhere)]
  · rw [if_neg here]
    by_cases there : node.address = second
    · rw [if_pos there, if_neg (by rw [others]; exact here)]
    · rw [if_neg there, if_neg here]

end Graph

namespace Discovery

/-! ## Hints -/

inductive Hint where
  | entry (address : UInt32)
  | vtable (table : VTable)

/-- Takes a hint to where functions begin. -/
def take (program : Program) (state : Discovery) : Hint → Discovery
  | .entry address => state.addEntry program address
  | .vtable table => state.addVTables program [table]

def takeAll (program : Program) (hints : List Hint) (state : Discovery) : Discovery :=
  hints.foldl (take program) state

theorem addEntry_comm (program : Program) (state : Discovery) (first second : UInt32) :
    (state.addEntry program first).addEntry program second =
      (state.addEntry program second).addEntry program first := by
  unfold addEntry
  by_cases admitted : admits program first
  · by_cases other : admits program second
    · simp only [admitted, other, if_true]
      rw [AddressSet.insert_comm second first]
      congr 1
      split
      · rfl
      · split
        · rfl
        · exact AddressSet.insert_comm _ _ _
    · simp [admitted, other]
  · simp [admitted]

theorem addEntries_perm (program : Program) {first second : List UInt32}
    (order : first.Perm second) (state : Discovery) :
    state.addEntries program first = state.addEntries program second :=
  order.foldl_eq' (fun one _ other _ former => addEntry_comm program former one other) state

def Hint.addresses : Hint → List UInt32
  | .entry address => [address]
  | .vtable table => table.slots

theorem takeAll_eq (program : Program) (hints : List Hint) (state : Discovery) :
    state.takeAll program hints = state.addEntries program (hints.flatMap Hint.addresses) := by
  induction hints generalizing state with
  | nil => rfl
  | cons hint rest ih =>
      rw [List.flatMap_cons, addEntries, List.foldl_append]
      refine (ih _).trans ?_
      cases hint with
      | entry address => rfl
      | vtable table =>
          simp only [take, addVTables, List.flatMap_singleton]
          rfl

theorem takeAll_perm (program : Program) {first second : List Hint} (order : first.Perm second)
    (state : Discovery) : state.takeAll program first = state.takeAll program second := by
  rw [takeAll_eq, takeAll_eq]
  exact addEntries_perm program (order.flatMap_right _) state

/-! ## Other orders of scans and names -/

/-- The same knowledge, with scans and names in another order. -/
structure Reordered (first second : Discovery) : Prop where
  entries : first.entries = second.entries
  boundaries : first.boundaries = second.boundaries
  names : first.names.Perm second.names
  scans : first.scans.Perm second.scans

namespace Reordered

variable {program : Program} {first second third : Discovery}

theorem refl (state : Discovery) : state.Reordered state :=
  ⟨rfl, rfl, .refl _, .refl _⟩

theorem symm (order : first.Reordered second) : second.Reordered first :=
  ⟨order.entries.symm, order.boundaries.symm, order.names.symm, order.scans.symm⟩

theorem trans (order : first.Reordered second) (onward : second.Reordered third) :
    first.Reordered third :=
  ⟨order.entries.trans onward.entries, order.boundaries.trans onward.boundaries,
    order.names.trans onward.names, order.scans.trans onward.scans⟩

theorem coherent (order : first.Reordered second) (coherent : first.Coherent program) :
    second.Coherent program where
  entriesSorted := order.entries ▸ coherent.entriesSorted
  boundariesSorted := order.boundaries ▸ coherent.boundariesSorted
  boundary := order.entries ▸ order.boundaries ▸ coherent.boundary
  executable := order.entries ▸ coherent.executable
  known := order.entries ▸ order.boundaries ▸ coherent.known
  cached := fun entry scan member => coherent.cached entry scan (order.scans.mem_iff.mpr member)

theorem addEntry (order : first.Reordered second) (address : UInt32) :
    (first.addEntry program address).Reordered (second.addEntry program address) := by
  unfold Discovery.addEntry
  split
  · exact ⟨by simp only [order.entries], by simp only [order.boundaries], order.names, order.scans⟩
  · exact order

theorem addEntries (order : first.Reordered second) (addresses : List UInt32) :
    (first.addEntries program addresses).Reordered (second.addEntries program addresses) := by
  induction addresses generalizing first second with
  | nil => exact order
  | cons address rest ih => exact ih (order.addEntry address)

theorem limitOf (order : first.Reordered second) (entry : UInt32) :
    first.limitOf program entry = second.limitOf program entry := by
  unfold Discovery.limitOf
  rw [order.boundaries]

/-! ## Passes -/

/-- A pass makes all scans anew, or finds them as they would be made. -/
theorem pass (order : first.Reordered second) (coherent : first.Coherent program) :
    (first.pass program).Reordered (second.pass program) := by
  have fresh : first.freshScans program = second.freshScans program := by
    unfold freshScans
    rw [order.entries]
    exact List.map_congr_left fun entry _ => by rw [order.limitOf]
  rw [coherent.pass_eq, (order.coherent coherent).pass_eq, fresh]
  apply addEntries
  exact ⟨order.entries, order.boundaries, order.names, .refl _⟩

theorem passes {firstResult secondResult : Discovery} (order : first.Reordered second)
    (coherent : first.Coherent program) (passes : Passes program first firstResult)
    (others : Passes program second secondResult) : firstResult.Reordered secondResult := by
  induction passes generalizing second with
  | done same =>
      have onward := order.pass coherent
      cases others with
      | done _ => exact onward
      | again grown _ =>
          rw [← onward.entries, ← order.entries] at grown
          exact absurd same grown
  | again grown _ ih =>
      have onward := order.pass coherent
      cases others with
      | done same =>
          rw [← onward.entries, ← order.entries] at same
          exact absurd same grown
      | again _ others => exact ih onward coherent.pass others

/-! ## Sweeps -/

theorem isCovered (order : first.Reordered second) (config : Config) (sect : Section) :
    Discovery.isCovered (first.coveredWords config sect) =
      Discovery.isCovered (second.coveredWords config sect) := by
  funext index
  exact (order.scans.flatMap_right _).any_eq

end Reordered

section

variable {first second : List WordRun}

theorem isData_congr (same : isCovered first = isCovered second) (config : Config)
    (sect : Section) : isData config sect first = isData config sect second := by
  funext index
  unfold isData
  rw [same]

theorem dataRun_congr (same : isCovered first = isCovered second) (config : Config)
    (sect : Section) (fuel index : Nat) :
    dataRun config sect first fuel index = dataRun config sect second fuel index := by
  induction fuel generalizing index with
  | zero => rfl
  | succ fuel ih => rw [dataRun, dataRun, isData_congr same, ih]

theorem skip?_congr (same : isCovered first = isCovered second) (config : Config)
    (sect : Section) (index : Nat) (word : UInt32) :
    skip? config sect first index word = skip? config sect second index word := by
  unfold skip?
  rw [isData_congr same, dataRun_congr same]

theorem isCovered_append_congr (same : isCovered first = isCovered second)
    (added : List WordRun) : isCovered (first ++ added) = isCovered (second ++ added) := by
  funext index
  have here := congrFun same index
  simp only [isCovered, List.any_append] at here ⊢
  rw [here]

end

namespace Reordered

variable {program : Program} {first second : Discovery}

theorem sweepFrom (order : first.Reordered second) {firstCovered secondCovered : List WordRun}
    (same : Discovery.isCovered firstCovered = Discovery.isCovered secondCovered)
    (program : Program) (sect : Section) (fuel index found : Nat) :
    let one := Discovery.sweepFrom program sect fuel index firstCovered first found
    let other := Discovery.sweepFrom program sect fuel index secondCovered second found
    one.1.Reordered other.1 ∧ one.2 = other.2 := by
  induction fuel generalizing first second firstCovered secondCovered index found with
  | zero => exact ⟨order, rfl⟩
  | succ fuel ih =>
      simp only [Discovery.sweepFrom]
      rw [same]
      by_cases done : readableWords sect ≤ index
      · simp only [if_pos done]
        exact ⟨order, trivial⟩
      simp only [if_neg done]
      by_cases taken : Discovery.isCovered secondCovered index
      · simp only [if_pos taken]
        exact ih order same _ _
      simp only [if_neg taken]
      cases sect.read? (wordAddress sect index) with
      | none => exact ⟨order, rfl⟩
      | some word =>
          simp only [skip?_congr same]
          cases skip? program.config sect secondCovered index word with
          | some count => exact ih order same _ _
          | none =>
              simp only [order.entries]
              split
              · exact ih order same _ _
              · have added : (first.addEntry program (wordAddress sect index)).Reordered
                    (second.addEntry program (wordAddress sect index)) := order.addEntry _
                rw [added.limitOf]
                apply ih
                · exact ⟨added.entries, added.boundaries, added.names, added.scans.append_right _⟩
                · exact isCovered_append_congr same _

end Reordered

/-- Sweeps of sections one after another. Each has the scans in an order of its own. -/
inductive ShuffledSweeps (program : Program) :
    List Section → Discovery × Nat → Discovery × Nat → Prop
  | nil (acc : Discovery × Nat) : ShuffledSweeps program [] acc acc
  | cons {sect : Section} {rest : List Section} {state listed : Discovery} {found : Nat}
      {result : Discovery × Nat} (order : state.Reordered listed)
      (others : ShuffledSweeps program rest (sweepSection program (listed, found) sect) result) :
      ShuffledSweeps program (sect :: rest) (state, found) result

theorem ShuffledSweeps.reordered {program : Program} {sections : List Section}
    {acc result : Discovery × Nat} (sweeps : ShuffledSweeps program sections acc result)
    {other : Discovery} (order : acc.1.Reordered other) :
    let straight := sections.foldl (sweepSection program) (other, acc.2)
    result.1.Reordered straight.1 ∧ result.2 = straight.2 := by
  induction sweeps generalizing other with
  | nil => exact ⟨order, rfl⟩
  | @cons sect rest state listed found result shuffle _ ih =>
      have listedOrder := shuffle.symm.trans order
      obtain ⟨swept, count⟩ := listedOrder.sweepFrom
        (listedOrder.isCovered program.config sect) program sect (readableWords sect + 1) 0 found
      obtain ⟨onward, total⟩ := ih swept
      refine ⟨?_, ?_⟩
      · simpa [sweepSection, count] using onward
      · simpa [sweepSection, count] using total

theorem shuffledSweeps_foldl (program : Program) (sections : List Section)
    (acc : Discovery × Nat) :
    ShuffledSweeps program sections acc (sections.foldl (sweepSection program) acc) := by
  induction sections generalizing acc with
  | nil => exact .nil acc
  | cons sect rest ih => exact .cons (.refl acc.1) (ih _)

/-! ## Rounds -/

/-- Rounds of passes and sweeps until a sweep finds nothing. -/
inductive ShuffledRounds (program : Program) : Discovery → Discovery → Prop
  | done {state middle after : Discovery} (passes : Passes program state middle)
      (swept : ShuffledSweeps program program.image.executableSections (middle, 0) (after, 0)) :
      ShuffledRounds program state after
  | again {state middle after result : Discovery} {found : Nat}
      (passes : Passes program state middle)
      (swept : ShuffledSweeps program program.image.executableSections (middle, 0) (after, found))
      (some : found ≠ 0) (onward : ShuffledRounds program after result) :
      ShuffledRounds program state result

theorem Rounds.shuffled {program : Program} {state result : Discovery}
    (rounds : Rounds program state result) : ShuffledRounds program state result := by
  induction rounds with
  | @done state middle after passes swept =>
      exact .done passes (swept ▸ shuffledSweeps_foldl program _ (middle, 0))
  | @again state middle after result found passes swept some _ ih =>
      exact .again passes (swept ▸ shuffledSweeps_foldl program _ (middle, 0)) some ih

/-- Both find the same in each round, so they end after the same number of rounds. -/
theorem ShuffledRounds.reordered {program : Program} {state result : Discovery}
    (shuffled : ShuffledRounds program state result) (coherent : state.Coherent program)
    {other otherResult : Discovery} (order : state.Reordered other)
    (rounds : Rounds program other otherResult) : result.Reordered otherResult := by
  induction shuffled generalizing other with
  | @done state middle after passes swept =>
      cases rounds with
      | done others otherSwept =>
          have onward := (swept.reordered (order.passes coherent passes others)).1
          rwa [← sweep, otherSwept] at onward
      | again others otherSwept some _ =>
          have count := (swept.reordered (order.passes coherent passes others)).2
          rw [← sweep, otherSwept] at count
          exact absurd count.symm some
  | @again state middle after result found passes swept some _ ih =>
      cases rounds with
      | done others otherSwept =>
          have count := (swept.reordered (order.passes coherent passes others)).2
          rw [← sweep, otherSwept] at count
          exact absurd count some
      | @again _ otherMiddle otherAfter _ _ others otherSwept _ onward =>
          have middleOrder := order.passes coherent passes others
          have afterOrder := (swept.reordered middleOrder).1
          have otherCoherent := (sweep_sweepsAll program otherMiddle).coherent
            (middleOrder.coherent (passes.settled coherent).1)
          rw [← sweep, otherSwept] at afterOrder
          rw [otherSwept] at otherCoherent
          exact ih (afterOrder.symm.coherent otherCoherent) afterOrder onward

/-! ## Names -/

/-- No address has two names. -/
def NamedOnce (state : Discovery) : Prop :=
  (state.names.map (·.1)).Nodup

section

variable {program : Program} {state result : Discovery}

theorem NamedOnce.setName (named : state.NamedOnce) (address : UInt32) (name : String) :
    (state.setName address name).NamedOnce := by
  have others : ((state.names.filter (·.1 != address)).map (·.1)).Nodup :=
    List.Nodup.sublist (List.filter_sublist.map _) named
  refine List.nodup_cons.mpr ⟨?_, others⟩
  simp

@[simp] theorem addEntry_names (program : Program) (state : Discovery) (address : UInt32) :
    (state.addEntry program address).names = state.names := by
  unfold addEntry
  split <;> rfl

@[simp] theorem addEntries_names (program : Program) (addresses : List UInt32)
    (state : Discovery) : (state.addEntries program addresses).names = state.names := by
  induction addresses generalizing state with
  | nil => rfl
  | cons address rest ih => exact (ih _).trans (addEntry_names program state address)

theorem NamedOnce.addConfigured (named : state.NamedOnce) (entry : FunctionOverride) :
    (addConfigured program state entry).NamedOnce := by
  unfold Discovery.addConfigured
  split
  · simp only
    split
    · exact NamedOnce.setName named _ _
    · exact named
  · exact named

theorem NamedOnce.addSymbol (named : state.NamedOnce) (symbol : Symbol) :
    (addSymbol program state symbol).NamedOnce := by
  have added : (state.addEntry program symbol.address).NamedOnce := by
    rw [NamedOnce, addEntry_names]
    exact named
  unfold Discovery.addSymbol
  split
  · simp only
    split
    · exact added
    · exact added.setName _ _
  · exact named

theorem seed_namedOnce (program : Program) : (seed program).NamedOnce := by
  have configured : (program.config.functions.foldl (addConfigured program) {}).NamedOnce :=
    List.foldlRecOn _ _ List.nodup_nil fun _ named entry _ => named.addConfigured entry
  have entered : ((program.config.functions.foldl (addConfigured program) {}).addEntry program
      program.image.entry).NamedOnce := by
    rw [NamedOnce, addEntry_names]
    exact configured
  have symbols := List.foldlRecOn program.image.symbols (addSymbol program) entered
    fun _ named symbol _ => named.addSymbol symbol
  rw [NamedOnce, seed, addEntries_names]
  exact symbols

theorem Passes.names (passes : Passes program state result) : result.names = state.names := by
  induction passes with
  | done => exact addEntries_names _ _ _
  | again _ _ ih => exact ih.trans (addEntries_names _ _ _)

theorem Sweeps.names {sect : Section} {index found : Nat} {covered : List WordRun}
    {result : Discovery × Nat} (sweeps : Sweeps program sect index covered state found result) :
    result.1.names = state.names := by
  induction sweeps with
  | past | unreadable => rfl
  | taken _ _ _ ih | skip _ _ _ _ _ ih | refused _ _ _ _ _ _ ih => exact ih
  | found _ _ _ _ _ _ _ ih => exact ih.trans (addEntry_names _ _ _)

theorem SweepsAll.names {sections : List Section} {acc result : Discovery × Nat}
    (sweeps : SweepsAll program sections acc result) : result.1.names = acc.1.names := by
  induction sweeps with
  | nil => rfl
  | cons first _ ih => exact ih.trans first.names

theorem Rounds.names (rounds : Rounds program state result) : result.names = state.names := by
  induction rounds with
  | @done state middle after passes swept =>
      have sweeps := (sweep_sweepsAll program middle).names
      rw [swept] at sweeps
      exact sweeps.trans passes.names
  | @again state middle after result found passes swept _ _ ih =>
      have sweeps := (sweep_sweepsAll program middle).names
      rw [swept] at sweeps
      exact ih.trans (sweeps.trans passes.names)

end

/-! ## The graph -/

theorem addScan_comm {graph : Graph} (ordered : graph.Ordered) {first second : UInt32}
    (apart : first ≠ second) (scan other : Scan) :
    addScan (addScan graph first scan) second other =
      addScan (addScan graph second other) first scan := by
  have firstOrdered := ordered_addScan ordered first scan
  have secondOrdered := ordered_addScan ordered second other
  apply Graph.Ordered.ext (ordered_addScan firstOrdered _ _) (ordered_addScan secondOrdered _ _)
  intro address
  rw [function?_addScan firstOrdered, function?_addScan ordered, function?_addScan ordered,
    function?_addScan secondOrdered, function?_addScan ordered, function?_addScan ordered]
  by_cases here : address = first
  · rw [if_neg (here ▸ apart), if_pos here, if_pos here, if_neg apart]
  · by_cases there : address = second
    · rw [if_pos there, if_neg apart.symm, if_neg here, if_pos there]
    · rw [if_neg there, if_neg here, if_neg here, if_neg there]

def rename (graph : Graph) (named : UInt32 × String) : Graph :=
  graph.adjust named.1 fun node => { node with name := some named.2 }

theorem toGraph_stages (program : Program) (state : Discovery) :
    state.toGraph program =
      state.names.foldl rename (program.config.functions.foldl attach
        (state.scans.foldl (fun graph scanned => addScan graph scanned.1 scanned.2)
          (program.config.functions.foldl state.addDeclared Graph.empty))) :=
  rfl

theorem Reordered.toGraph {program : Program} {first second : Discovery}
    (order : first.Reordered second) (scannedOnce : (first.scans.map (·.1)).Nodup)
    (namedOnce : first.NamedOnce) : first.toGraph program = second.toGraph program := by
  have declared : first.addDeclared = second.addDeclared := by
    funext graph entry
    rw [addDeclared, addDeclared, order.entries]
  have ordered := (announces_declared program second).ordered
  have scanned := Graph.Ordered.foldl_perm (fun graph scanned => addScan graph scanned.1 scanned.2)
    (fun _ ordered => ordered_addScan ordered _ _)
    (fun ordered apart => addScan_comm ordered apart _ _) order.scans scannedOnce ordered
  have scannedOrdered := List.foldlRecOn second.scans
    (fun graph scanned => addScan graph scanned.1 scanned.2) ordered
    fun _ ordered scanned _ => ordered_addScan ordered scanned.1 scanned.2
  have attachedOrdered := List.foldlRecOn program.config.functions attach scannedOrdered
    fun graph ordered entry _ =>
      (show Dresses graph graph from ⟨ordered, fun _ => rfl⟩).attach entry |>.ordered
  have named := Graph.Ordered.foldl_perm rename (fun _ ordered => ordered.adjust _ fun _ => rfl)
    (fun _ apart => Graph.adjust_comm _ apart (fun _ => rfl) fun _ => rfl)
    order.names namedOnce attachedOrdered
  rw [toGraph_stages, toGraph_stages, declared, scanned, named]

/-! ## Runs -/

/-- A run to its end, in which scans and names are gone through in some order each time. -/
def RunsTo (program : Program) (state : Discovery) (graph : Graph) : Prop :=
  ∃ final listed : Discovery, ShuffledRounds program state final ∧ final.Reordered listed ∧
    listed.toGraph program = graph

theorem Coherent.runsTo_iff {program : Program} {state : Discovery}
    (coherent : state.Coherent program) (namedOnce : state.NamedOnce) {graph : Graph} :
    RunsTo program state graph ↔ graph = state.run program := by
  have rounds := coherent.rounds_rounds (roundFuel program) (by omega)
  constructor
  · rintro ⟨final, listed, shuffled, order, rfl⟩
    have settled := rounds.result_settled coherent
    have ending := (order.symm.trans (shuffled.reordered coherent (.refl state) rounds)).symm
    refine (ending.toGraph ?_ ?_).symm
    · have keys : (state.rounds program (roundFuel program)).scans.map (·.1) =
          (state.rounds program (roundFuel program)).entries := by
        rw [settled.cached, List.map_map]
        exact List.map_id _
      rw [keys]
      exact (rounds.settled coherent).1.entriesSorted.nodup
    · rw [NamedOnce, rounds.names]
      exact namedOnce
  · rintro rfl
    exact ⟨_, _, rounds.shuffled, .refl _, rfl⟩

/-- Discovery does not depend on order. Hints may be given in any, and scans and names gone through
in any, another one in each sweep of a section: there is a run, and all runs have the graph of the
run that goes through everything as it was added. -/
theorem runsTo_takeAll_iff {program : Program} {first second : List Hint}
    (same : first.Perm second) {graph : Graph} :
    RunsTo program ((seed program).takeAll program first) graph ↔
      graph = ((seed program).takeAll program second).run program := by
  rw [takeAll_perm program same]
  apply Coherent.runsTo_iff
  · rw [takeAll_eq]
    exact (seed_coherent program).addEntries _
  · rw [NamedOnce, takeAll_eq, addEntries_names]
    exact seed_namedOnce program

/-! Two returns, and two hints to the second. -/

def twinProgram : Program where
  image := Image.ofCode 0x1000 #[0x4E, 0x80, 0x00, 0x20, 0x4E, 0x80, 0x00, 0x20]
  config := {}

def twinHints : List Hint :=
  [.entry 0x1004,
    .vtable { address := 0, locator := 0, className := "", slots := [0x1004, 0x1002] }]

def twinNodes : List FunctionNode :=
  [{ address := 0x1000, size := 4, authority := .discovered, blocks := [⟨0x1000, 0x1004⟩] },
    { address := 0x1004, size := 4, authority := .discovered, blocks := [⟨0x1004, 0x1008⟩] }]

theorem twinProgram_run :
    ((seed twinProgram).takeAll twinProgram twinHints).run twinProgram =
      { nodes := twinNodes } := by
  have taken : (seed twinProgram).takeAll twinProgram twinHints =
      { entries := [0x1000, 0x1004], boundaries := [0x1000, 0x1004] } := rfl
  have first : twinProgram.scan 0x1000 0x1004 =
      { limit := 0x1004, blocks := [⟨0x1000, 0x1004⟩] } :=
    scan_of_explored (by decide) (by decide +kernel) (List.pairwise_singleton _ _)
  have second : twinProgram.scan 0x1004 0x1008 =
      { limit := 0x1008, blocks := [⟨0x1004, 0x1008⟩] } :=
    scan_of_explored (by decide) (by decide +kernel) (List.pairwise_singleton _ _)
  have scanned : ([0x1000, 0x1004].map fun entry => (entry, twinProgram.scan entry
      (limitOf twinProgram { entries := [0x1000, 0x1004], boundaries := [0x1000, 0x1004] }
        entry))) =
      [(0x1000, { limit := 0x1004, blocks := [⟨0x1000, 0x1004⟩] }),
        (0x1004, { limit := 0x1008, blocks := [⟨0x1004, 0x1008⟩] })] := by
    change [(_, twinProgram.scan 0x1000 0x1004), (_, twinProgram.scan 0x1004 0x1008)] = _
    rw [first, second]
  rw [taken, run_of_scans scanned]
  · decide
  · exact fun _ member => absurd member List.not_mem_nil
  · rfl

theorem twinProgram_runsTo_iff :
    twinHints.reverse.Perm twinHints ∧
      ∀ graph, RunsTo twinProgram ((seed twinProgram).takeAll twinProgram twinHints.reverse) graph ↔
        graph = { nodes := twinNodes } := by
  refine ⟨List.reverse_perm _, ?_⟩
  intro graph
  rw [← twinProgram_run]
  exact runsTo_takeAll_iff (List.reverse_perm _)

end Discovery

end PowerLift
