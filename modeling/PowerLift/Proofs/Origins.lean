import Mathlib
import PowerLift.Proofs.FixedPoint
import PowerLift.Proofs.Validity

/-!
Where the entries of a discovery come from. The configuration declares them or they were admitted
later, and none is ever lost.
-/

namespace PowerLift.Discovery

/-- A state that has all entries of another, and besides them only such as were admitted. -/
structure Extends (program : Program) (before after : Discovery) : Prop where
  kept : before.entries ⊆ after.entries
  admitted : ∀ address ∈ after.entries, address ∈ before.entries ∨ admits program address

variable {program : Program} {state middle result : Discovery}

theorem Extends.refl (program : Program) (state : Discovery) : Extends program state state :=
  ⟨List.Subset.refl _, fun _ member => Or.inl member⟩

theorem Extends.trans (first : Extends program state middle)
    (second : Extends program middle result) : Extends program state result where
  kept := List.Subset.trans first.kept second.kept
  admitted := by
    intro address member
    rcases second.admitted address member with known | admitted
    · exact first.admitted address known
    · exact Or.inr admitted

theorem extends_addEntry (program : Program) (state : Discovery) (address : UInt32) :
    Extends program state (state.addEntry program address) where
  kept := fun _ member => mem_addEntry.mpr (Or.inl member)
  admitted := by
    intro other member
    rcases mem_addEntry.mp member with known | ⟨rfl, admitted⟩
    · exact Or.inl known
    · exact Or.inr admitted

theorem extends_addEntries (program : Program) (addresses : List UInt32) (state : Discovery) :
    Extends program state (state.addEntries program addresses) := by
  induction addresses generalizing state with
  | nil => exact Extends.refl program state
  | cons address rest ih => exact (extends_addEntry program state address).trans (ih _)

theorem extends_pass (program : Program) (state : Discovery) :
    Extends program state (state.pass program) := by
  have added := extends_addEntries program
    ((state.entries.map fun entry => (entry, state.rescan program entry)).flatMap (·.2.newEntries))
    { state with scans := state.entries.map fun entry => (entry, state.rescan program entry) }
  exact ⟨added.kept, added.admitted⟩

theorem extends_establish (program : Program) (state : Discovery) (address : UInt32) :
    Extends program state (state.establish program address) := by
  have added := extends_addEntry program state address
  exact ⟨added.kept, added.admitted⟩

theorem Passes.extends (passes : Passes program state result) :
    Extends program state result := by
  induction passes with
  | done => exact extends_pass program _
  | again _ _ ih => exact (extends_pass program _).trans ih

theorem Sweeps.extends {sect : Section} {index found : Nat} {covered : List WordRun}
    {result : Discovery × Nat} (sweeps : Sweeps program sect index covered state found result) :
    Extends program state result.1 := by
  induction sweeps with
  | past | unreadable => exact Extends.refl program _
  | taken _ _ _ ih | skip _ _ _ _ _ ih | refused _ _ _ _ _ _ ih => exact ih
  | found _ _ _ _ _ _ _ ih => exact (extends_establish program _ _).trans ih

theorem SweepsAll.extends {sections : List Section} {acc result : Discovery × Nat}
    (sweeps : SweepsAll program sections acc result) : Extends program acc.1 result.1 := by
  induction sweeps with
  | nil => exact Extends.refl program _
  | cons first _ ih => exact first.extends.trans ih

theorem Rounds.extends (rounds : Rounds program state result) :
    Extends program state result := by
  induction rounds with
  | @done state middle after passes swept =>
      have sweeps := (sweep_sweepsAll program middle).extends
      rw [swept] at sweeps
      exact passes.extends.trans sweeps
  | @again state middle after result found passes swept _ _ ih =>
      have sweeps := (sweep_sweepsAll program middle).extends
      rw [swept] at sweeps
      exact (passes.extends.trans sweeps).trans ih

theorem extends_addSymbol (program : Program) (state : Discovery) (symbol : Symbol) :
    Extends program state (addSymbol program state symbol) := by
  unfold addSymbol
  split
  · have added := extends_addEntry program state symbol.address
    simp only
    split
    · exact added
    · exact ⟨added.kept, added.admitted⟩
  · exact Extends.refl program state

theorem extends_seed (program : Program) :
    Extends program (program.config.functions.foldl (addConfigured program) {})
      (seed program) := by
  have named : ∀ (symbols : List Symbol) (state : Discovery),
      Extends program state (symbols.foldl (addSymbol program) state) := by
    intro symbols
    induction symbols with
    | nil => exact Extends.refl program
    | cons symbol rest ih =>
        exact fun state => (extends_addSymbol program state symbol).trans (ih _)
  exact ((extends_addEntry program _ _).trans (named _ _)).trans (extends_addEntries program _ _)

/-- An admitted entry inside of a declared range is declared itself, with an extent. -/
theorem admits_inside {outer : FunctionOverride} (member : outer ∈ program.config.functions)
    (whole : outer.isChunk = false) {size address : UInt32} (extent : outer.extent = some size)
    (after : outer.address < address) (inside : address < outer.address + size)
    (admitted : admits program address) :
    ∃ inner ∈ program.config.functions, inner.address = address ∧ inner.extent ≠ none := by
  simp only [admits, Bool.and_eq_true] at admitted
  cases found : configuredOwner? program.config address with
  | none =>
      have missed := List.find?_eq_none.mp found outer member
      simp [whole, extent, UInt32.le_of_lt after, inside] at missed
  | some owner =>
      rw [found] at admitted
      have covers := List.find?_some found
      refine ⟨owner, List.mem_of_find?_eq_some found, by simpa using admitted.2, ?_⟩
      intro unsized
      simp [unsized] at covers

/-! ## The end of a discovery -/

/-- All that holds of the last state: nothing is left to find, and its entries are those declared
and those admitted. -/
structure Final (state : Discovery) (program : Program) : Prop where
  coherent : state.Coherent program
  settled : state.Settled program
  origin : ∀ address ∈ state.entries,
    program.config.Declares address ∨ admits program address
  declared : ∀ address, program.config.Declares address → program.image.isExecutable address →
    address ∈ state.entries

theorem final_rounds (program : Program) (hints : List UInt32) (tables : List VTable) :
    Final ((((seed program).addEntries program hints).addVTables program tables).rounds program
      (roundFuel program)) program := by
  have coherent : Coherent
      (((seed program).addEntries program hints).addVTables program tables) program :=
    ((seed_coherent program).addEntries hints).addEntries _
  have rounds := coherent.rounds_rounds (roundFuel program) (by omega)
  have configured := configured_functions program
  have extended := (((extends_seed program).trans (extends_addEntries program hints _)).trans
    (extends_addEntries program _ _)).trans rounds.extends
  refine ⟨(rounds.settled coherent).1, rounds.result_settled coherent, ?_, ?_⟩
  · intro address member
    rcases extended.admitted address member with first | admitted
    · exact Or.inl ((configured.mem_entries address).mp first).2
    · exact Or.inr admitted
  · intro address declared executable
    exact extended.kept ((configured.mem_entries address).mpr ⟨executable, declared⟩)

theorem run_final (program : Program) (hints : List UInt32) (tables : List VTable) :
    ∃ final : Discovery, final.Final program ∧
      (((seed program).addEntries program hints).addVTables program tables).run program =
        final.toGraph program :=
  ⟨_, final_rounds program hints tables, rfl⟩

namespace Final

theorem aligned (final : state.Final program) (valid : program.config.validate.valid)
    {address : UInt32} (member : address ∈ state.entries) : aligned address := by
  rcases final.origin address member with ⟨entry, inConfig, rfl⟩ | admitted
  · exact Config.aligned_function valid inConfig
  · exact aligned_of_admits admitted

/-- An entry that no declaration makes a chunk bounds the functions before it. -/
theorem boundary (final : state.Final program) {address : UInt32}
    (member : address ∈ state.entries) (whole : ¬ program.config.DeclaresChunk address) :
    address ∈ state.boundaries := by
  rcases final.coherent.known address member with bounds | chunk
  · exact bounds
  · unfold isConfiguredChunk at chunk
    cases found : program.config.functionAt address with
    | none => simp [found] at chunk
    | some entry =>
        rw [found] at chunk
        exact absurd ⟨entry, List.mem_of_find?_eq_some found, by simpa using List.find?_some found,
          chunk⟩ whole

/-- A function may extend over something, unless it is declared to be empty. -/
theorem lt_limitOf (final : state.Final program) (valid : program.config.validate.valid)
    {entry : UInt32} (member : entry ∈ state.entries)
    (sized : program.config.extentAt entry ≠ some 0) : entry < state.limitOf program entry := by
  obtain ⟨sect, found, contains⟩ :=
    sectionAt?_of_isExecutable (final.coherent.executable entry member)
  have inside : entry < sect.stop := by
    simp only [Section.contains, Bool.and_eq_true, decide_eq_true_eq] at contains
    exact contains.2
  have number := aligned_iff.mp (final.aligned valid member)
  simp only [limitOf, found]
  cases extent : program.config.extentAt entry with
  | some size =>
      refine below_min ?_ inside
      have positive : size.toNat ≠ 0 := by
        intro zero
        exact sized (extent.trans (congrArg some (UInt32.toNat_inj.mp zero)))
      -- An aligned address is not the last one, where the sum would be cut off.
      have limit := entry.toNat_lt
      rw [UInt32.lt_iff_toNat_lt, toNat_saturatingAdd]
      omega
  | none =>
      cases next : AddressSet.next? entry state.boundaries with
      | none => exact inside
      | some boundary =>
          obtain ⟨_, beyond, _⟩ := AddressSet.next?_eq_some final.coherent.boundariesSorted next
          exact below_min inside beyond

end Final

end PowerLift.Discovery
