import Mathlib
import PowerLift.Proofs.GraphBuild
import PowerLift.Proofs.Sweep

/-!
Passes and sweeps to a fixed point. Every pass and every sweep that does not end the loop finds an
entry, and there are no more entries than executable addresses.
-/

namespace PowerLift.Discovery

/-! ## Passes -/

theorem Coherent.rescan_eq {state : Discovery} {program : Program}
    (coherent : state.Coherent program) (entry : UInt32) :
    state.rescan program entry = program.scan entry (state.limitOf program entry) := by
  unfold rescan
  cases found : state.scans.lookup entry with
  | none => rfl
  | some scan =>
      simp only
      split
      next current =>
        obtain ⟨before, after, split, _⟩ := List.lookup_eq_some_iff.mp found
        rw [← current]
        exact coherent.cached entry scan (by simp [split])
      next => rfl

/-- The scans of all entries with the boundaries as they are. -/
def freshScans (program : Program) (state : Discovery) : List (UInt32 × Scan) :=
  state.entries.map fun entry => (entry, program.scan entry (state.limitOf program entry))

theorem Coherent.pass_eq {state : Discovery} {program : Program}
    (coherent : state.Coherent program) :
    state.pass program = Discovery.addEntries program
      ((state.freshScans program).flatMap (·.2.newEntries))
      { state with scans := state.freshScans program } := by
  have same : (state.entries.map fun entry => (entry, state.rescan program entry)) =
      state.freshScans program :=
    List.map_congr_left fun entry _ => by rw [coherent.rescan_eq]
  rw [Discovery.pass, same]

theorem Coherent.withScans {state : Discovery} {program : Program}
    (coherent : state.Coherent program) :
    Coherent { state with scans := state.freshScans program } program := by
  refine ⟨coherent.entriesSorted, coherent.boundariesSorted, coherent.boundary,
    coherent.executable, coherent.known, ?_⟩
  intro entry scan member
  obtain ⟨_, _, same⟩ := List.mem_map.mp member
  cases same
  rw [Program.scan_limit]

theorem Coherent.pass {state : Discovery} {program : Program}
    (coherent : state.Coherent program) : (state.pass program).Coherent program := by
  rw [coherent.pass_eq]
  exact coherent.withScans.addEntries _

theorem Coherent.length_le_pass {state : Discovery} {program : Program}
    (coherent : state.Coherent program) :
    state.entries.length ≤ (state.pass program).entries.length := by
  rw [coherent.pass_eq]
  exact coherent.withScans.length_le_addEntries _

/-- Scans are up to date, and what they call is among the entries. -/
structure Current (state : Discovery) (program : Program) : Prop where
  scans : state.scans = state.freshScans program
  called : ∀ entry ∈ state.entries,
    ∀ target ∈ (program.scan entry (state.limitOf program entry)).newEntries,
      admits program target → target ∈ state.entries

theorem Coherent.pass_current {state : Discovery} {program : Program}
    (coherent : state.Coherent program)
    (same : (state.pass program).entries.length = state.entries.length) :
    (state.pass program).Current program := by
  rw [coherent.pass_eq] at same ⊢
  obtain ⟨unchanged, old⟩ := coherent.withScans.addEntries_of_length same
  rw [unchanged]
  refine ⟨rfl, ?_⟩
  intro entry member target called admitted
  refine old target ?_ admitted
  exact List.mem_flatMap.mpr ⟨_, List.mem_map_of_mem member, called⟩

/-- Passes without a bound on their number. -/
inductive Passes (program : Program) : Discovery → Discovery → Prop
  | done {state : Discovery}
      (same : (state.pass program).entries.length = state.entries.length) :
      Passes program state (state.pass program)
  | again {state result : Discovery}
      (grown : (state.pass program).entries.length ≠ state.entries.length)
      (onward : Passes program (state.pass program) result) : Passes program state result

theorem Passes.settled {program : Program} {state result : Discovery}
    (passes : Passes program state result) (coherent : state.Coherent program) :
    result.Coherent program ∧ result.Current program ∧
      state.entries.length ≤ result.entries.length := by
  induction passes with
  | done same => exact ⟨coherent.pass, coherent.pass_current same, coherent.length_le_pass⟩
  | again _ _ ih =>
      obtain ⟨resultCoherent, current, grown⟩ := ih coherent.pass
      exact ⟨resultCoherent, current, coherent.length_le_pass.trans grown⟩

/-! ## Counting entries -/

/-- The number of addresses in sections. -/
def addressCount (sections : List Section) : Nat :=
  sections.foldr (fun sect rest => sect.size.toNat + rest) 0

theorem length_le_addressCount {sections : List Section} {set : List UInt32}
    (sorted : AddressSet.Sorted set)
    (inside : ∀ address ∈ set, ∃ sect ∈ sections, sect.contains address) :
    set.length ≤ addressCount sections := by
  induction sections generalizing set with
  | nil =>
      have empty : set = [] := by
        rw [List.eq_nil_iff_forall_not_mem]
        intro address member
        obtain ⟨_, impossible, _⟩ := inside address member
        cases impossible
      simp [empty]
  | cons sect rest ih =>
      have here : (set.filter sect.contains).length ≤ sect.stop.toNat - sect.address.toNat := by
        refine AddressSet.length_le_of_between (sorted.filter _) ?_
        intro address member
        have holds := (List.mem_filter.mp member).2
        simp only [Section.contains, Bool.and_eq_true, decide_eq_true_eq] at holds
        exact ⟨UInt32.le_iff_toNat_le.mp holds.1, UInt32.lt_iff_toNat_lt.mp holds.2⟩
      have size : sect.stop.toNat ≤ sect.address.toNat + sect.size.toNat := by
        rw [Section.stop, UInt32.toNat_add]
        exact Nat.mod_le _ _
      have others : (set.filter fun address => !sect.contains address).length ≤
          addressCount rest := by
        refine ih (sorted.filter _) ?_
        intro address member
        obtain ⟨old, outside⟩ := List.mem_filter.mp member
        obtain ⟨other, otherMember, holds⟩ := inside address old
        rcases List.mem_cons.mp otherMember with rfl | later
        · simp [holds] at outside
        · exact ⟨other, later, holds⟩
      have split : set.length = _ := List.length_eq_length_filter_add sect.contains
      have total : addressCount (sect :: rest) = sect.size.toNat + addressCount rest := rfl
      omega

theorem sectionAt?_of_isExecutable {image : Image} {address : UInt32}
    (executable : image.isExecutable address) :
    ∃ sect, image.sectionAt? address = some sect ∧ sect.contains address := by
  unfold Image.isExecutable at executable
  cases found : image.sectionAt? address with
  | none => simp [found] at executable
  | some sect => exact ⟨sect, rfl, by simpa using List.find?_some found⟩

theorem exists_section_of_isExecutable {image : Image} {address : UInt32}
    (executable : image.isExecutable address) : ∃ sect ∈ image.sections, sect.contains address := by
  obtain ⟨sect, found, inside⟩ := sectionAt?_of_isExecutable executable
  exact ⟨sect, List.mem_of_find?_eq_some found, inside⟩

theorem Coherent.length_lt_roundFuel {state : Discovery} {program : Program}
    (coherent : state.Coherent program) : state.entries.length < roundFuel program := by
  have bound := length_le_addressCount coherent.entriesSorted fun address member =>
    exists_section_of_isExecutable (coherent.executable address member)
  have fuel : roundFuel program =
      addressCount program.image.sections + program.config.functions.length + 1 := rfl
  omega

theorem Coherent.passes_passes {state : Discovery} {program : Program}
    (coherent : state.Coherent program) (fuel : Nat)
    (enough : roundFuel program ≤ state.entries.length + fuel) :
    Passes program state (state.passes program fuel) := by
  induction fuel generalizing state with
  | zero =>
      have := coherent.length_lt_roundFuel
      omega
  | succ fuel ih =>
      rw [passes]
      split
      next same => exact .done same
      next grown =>
        have le := coherent.length_le_pass
        exact .again grown (ih coherent.pass (by omega))

/-! ## Rounds -/

/-- Rounds of passes and a sweep, without a bound on their number. -/
inductive Rounds (program : Program) : Discovery → Discovery → Prop
  | done {state middle after : Discovery} (passes : Passes program state middle)
      (swept : sweep program middle = (after, 0)) : Rounds program state after
  | again {state middle after result : Discovery} {found : Nat}
      (passes : Passes program state middle) (swept : sweep program middle = (after, found))
      (some : found ≠ 0) (onward : Rounds program after result) : Rounds program state result

theorem Coherent.rounds_rounds {state : Discovery} {program : Program}
    (coherent : state.Coherent program) (fuel : Nat)
    (enough : roundFuel program ≤ state.entries.length + fuel) :
    Rounds program state (state.rounds program fuel) := by
  induction fuel generalizing state with
  | zero =>
      have := coherent.length_lt_roundFuel
      omega
  | succ fuel ih =>
      have passes := coherent.passes_passes (roundFuel program) (by omega)
      obtain ⟨middleCoherent, _, grown⟩ := passes.settled coherent
      have sweeps := sweep_sweepsAll program (state.passes program (roundFuel program))
      rw [rounds]
      cases swept : sweep program (state.passes program (roundFuel program)) with
      | mk after found =>
          rw [swept] at sweeps
          simp only
          split
          next nothing =>
            subst nothing
            exact .done passes swept
          next some =>
            -- The sweep found entries, and the fuel counts those that are left to find.
            have length := sweeps.length
            simp only at length
            exact .again passes swept some (ih (sweeps.coherent middleCoherent) (by omega))

theorem Rounds.settled {program : Program} {state result : Discovery}
    (rounds : Rounds program state result) (coherent : state.Coherent program) :
    result.Coherent program ∧ result.Current program ∧ sweep program result = (result, 0) := by
  induction rounds with
  | @done state middle after passes swept =>
      obtain ⟨middleCoherent, current, _⟩ := passes.settled coherent
      have same : after = middle := by
        have unchanged := (sweep_sweepsAll program middle).unchanged.2
        rw [swept] at unchanged
        exact unchanged rfl
      subst same
      exact ⟨middleCoherent, current, swept⟩
  | @again state middle after result found passes swept _ _ ih =>
      have sweeps := sweep_sweepsAll program middle
      rw [swept] at sweeps
      exact ih (sweeps.coherent (passes.settled coherent).1)

/-- A first pass and a sweep that find nothing new end the discovery. -/
theorem run_eq_of_pass {program : Program} {state : Discovery}
    (same : (state.pass program).entries.length = state.entries.length)
    (swept : sweep program (state.pass program) = (state.pass program, 0)) :
    state.run program = (state.pass program).toGraph program := by
  obtain ⟨rest, fuel⟩ : ∃ rest, roundFuel program = rest + 1 := ⟨_, rfl⟩
  have passes : state.passes program (roundFuel program) = state.pass program := by
    rw [fuel, Discovery.passes]
    exact if_pos same
  rw [run, fuel, rounds, passes, swept]
  rfl

theorem addEntries_refused {program : Program} {addresses : List UInt32}
    (refused : ∀ address ∈ addresses, admits program address = false) (state : Discovery) :
    state.addEntries program addresses = state := by
  induction addresses with
  | nil => rfl
  | cons address rest ih =>
      obtain ⟨first, others⟩ := List.forall_mem_cons.mp refused
      change (state.addEntry program address).addEntries program rest = state
      rw [addEntry, if_neg (by simp [first])]
      exact ih others

/-- The discovery of a program with one entry that leads to no other. -/
theorem run_single {program : Program} {entry limit : UInt32} {scan : Scan}
    (seeded : seed program = { entries := [entry], boundaries := [entry] })
    (limited : limitOf program { entries := [entry], boundaries := [entry] } entry = limit)
    (scanned : program.scan entry limit = scan)
    (refused : ∀ target ∈ scan.newEntries, admits program target = false)
    (swept : sweep program
        { entries := [entry], boundaries := [entry], scans := [(entry, scan)] } =
      ({ entries := [entry], boundaries := [entry], scans := [(entry, scan)] }, 0)) :
    (seed program).run program = toGraph program
      { entries := [entry], boundaries := [entry], scans := [(entry, scan)] } := by
  have passed : (seed program).pass program =
      { entries := [entry], boundaries := [entry], scans := [(entry, scan)] } := by
    rw [seeded]
    simp only [pass, rescan, limited, scanned, List.map_cons, List.map_nil, List.lookup_nil,
      List.flatMap_cons, List.flatMap_nil, List.append_nil]
    exact addEntries_refused refused _
  rw [run_eq_of_pass]
  · rw [passed]
  · rw [passed, seeded]
  · rw [passed]
    exact swept

/-! ## The fixed point -/

/-- An address lies inside of the range that the configuration gives for a function. -/
def Claimed (config : Config) (address : UInt32) : Prop :=
  ∃ owner ∈ config.functions, owner.isChunk = false ∧ ∃ size, owner.extent = some size ∧
    owner.address < address ∧ address < owner.address + size

theorem admits_or_claimed {program : Program} {address : UInt32}
    (code : program.isCodeAddress address) :
    admits program address ∨ Claimed program.config address := by
  unfold admits
  rw [code, Bool.true_and]
  cases found : configuredOwner? program.config address with
  | none => exact Or.inl rfl
  | some owner =>
      by_cases here : owner.address = address
      · exact Or.inl (by simpa using here)
      · have member := List.mem_of_find?_eq_some found
        have covers := List.find?_some found
        simp only [Bool.and_eq_true, Bool.not_eq_true'] at covers
        cases extent : owner.extent with
        | none => simp [extent] at covers
        | some size =>
            simp only [extent, Bool.and_eq_true, decide_eq_true_eq] at covers
            exact Or.inr ⟨owner, member, covers.1, size, extent,
              UInt32.lt_of_le_of_ne covers.2.1 here, covers.2.2⟩

theorem Coherent.limitOf_le {state : Discovery} {program : Program}
    (coherent : state.Coherent program) {entry next : UInt32}
    (free : program.config.extentAt entry = none) (boundary : next ∈ state.boundaries)
    (above : entry < next) : (state.limitOf program entry).toNat ≤ next.toNat := by
  unfold limitOf
  simp only [free]
  cases found : AddressSet.next? entry state.boundaries with
  | none => exact absurd above (AddressSet.next?_eq_none found boundary)
  | some least =>
      obtain ⟨_, _, lowest⟩ := AddressSet.next?_eq_some coherent.boundariesSorted found
      have le := UInt32.le_iff_toNat_le.mp (lowest next boundary above)
      simp only [toNat_min]
      omega

/-- A discovery that has found all that there is. -/
structure Settled (state : Discovery) (program : Program) : Prop where
  boundary : ∀ address ∈ state.boundaries, address ∈ state.entries
  executable : ∀ address ∈ state.entries, program.image.isExecutable address
  /-- There is one scan for every entry, made with the boundaries as they are. -/
  cached : state.scans = state.entries.map fun entry =>
    (entry, program.scan entry (state.limitOf program entry))
  /-- What is called and is code is an entry, unless a configured function contains it. -/
  called : ∀ scanned ∈ state.scans, ∀ call ∈ scanned.2.calls, ∀ target,
    call.target = some target → aligned target → program.image.isExecutable target →
      target ∈ state.entries ∨ Claimed program.config target
  swept : sweep program state = (state, 0)
  /-- Blocks begin before the next function, unless the configuration says where theirs ends. -/
  separate : ∀ scanned ∈ state.scans, program.config.extentAt scanned.1 = none →
    ∀ block ∈ scanned.2.blocks, ∀ next ∈ state.entries,
      isConfiguredChunk program.config next = false → scanned.1 < next → block.start < next

theorem Rounds.result_settled {program : Program} {state result : Discovery}
    (rounds : Rounds program state result) (coherent : state.Coherent program) :
    result.Settled program := by
  obtain ⟨resultCoherent, current, swept⟩ := rounds.settled coherent
  have fresh : ∀ scanned ∈ result.scans, scanned.1 ∈ result.entries ∧
      scanned.2 = program.scan scanned.1 (result.limitOf program scanned.1) := by
    intro scanned member
    rw [current.scans] at member
    obtain ⟨entry, entryMember, rfl⟩ := List.mem_map.mp member
    exact ⟨entryMember, rfl⟩
  refine ⟨resultCoherent.boundary, resultCoherent.executable, current.scans, ?_, swept, ?_⟩
  · intro scanned member call callMember target called word executable
    obtain ⟨entryMember, scan⟩ := fresh scanned member
    have code : program.isCodeAddress target := by
      simp [Program.isCodeAddress, word, executable]
    rw [scan] at callMember
    have recorded := program.scan_recorded _ _ call callMember target called code
    exact (admits_or_claimed code).imp_left (current.called _ entryMember target recorded)
  · intro scanned member free block blockMember next nextMember noChunk above
    obtain ⟨_, scan⟩ := fresh scanned member
    have boundary : next ∈ result.boundaries :=
      (resultCoherent.known next nextMember).resolve_right (by simp [noChunk])
    rw [scan] at blockMember
    have inside := (Window.contains_iff.mp (Program.scan_block blockMember).1).2
    have limit := resultCoherent.limitOf_le free boundary above
    simp only at inside
    exact UInt32.lt_iff_toNat_lt.mpr (by omega)

theorem bounded_of_unread {program : Program}
    (unread : program.image.read? lastWord = none) (window : Window) :
    program.Bounded window := by
  intro address word _ usable
  by_contra wraps
  obtain ⟨insn, found⟩ := usable
  obtain ⟨raw, read, _⟩ := Program.instruction?_eq_some.mp found
  rw [eq_lastWord word wraps, unread] at read
  cases read

end PowerLift.Discovery
