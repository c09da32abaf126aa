import Mathlib
import PowerLift.Discovery.Basic
import PowerLift.Proofs.Blocks

/-!
What holds of the entries, boundaries and scans in every state of a discovery, from the entries
that image and configuration give on.
-/

namespace PowerLift.Discovery

/-- Entries are code, and all but chunks bound the functions before them. Scans were made for the
limit that they name. -/
structure Coherent (state : Discovery) (program : Program) : Prop where
  entriesSorted : AddressSet.Sorted state.entries
  boundariesSorted : AddressSet.Sorted state.boundaries
  boundary : ∀ address ∈ state.boundaries, address ∈ state.entries
  executable : ∀ address ∈ state.entries, program.image.isExecutable address
  known : ∀ address ∈ state.entries,
    address ∈ state.boundaries ∨ isConfiguredChunk program.config address
  cached : ∀ entry scan, (entry, scan) ∈ state.scans → scan = program.scan entry scan.limit

/-! ## Adding entries -/

theorem executable_of_admits {program : Program} {address : UInt32}
    (admitted : admits program address) : program.image.isExecutable address := by
  simp only [admits, Program.isCodeAddress, Bool.and_eq_true] at admitted
  exact admitted.1.2

theorem mem_addEntry {program : Program} {state : Discovery} {address other : UInt32} :
    other ∈ (state.addEntry program address).entries ↔
      other ∈ state.entries ∨ other = address ∧ admits program address := by
  unfold addEntry
  split
  next admitted => simp [admitted, or_comm]
  next refused => simp [refused]

theorem length_addEntry {program : Program} {state : Discovery} {address : UInt32}
    (admitted : admits program address) (fresh : address ∉ state.entries) :
    (state.addEntry program address).entries.length = state.entries.length + 1 := by
  rw [addEntry, if_pos admitted]
  exact AddressSet.length_insert fresh

theorem Coherent.addEntry {state : Discovery} {program : Program}
    (coherent : state.Coherent program) (address : UInt32) :
    (state.addEntry program address).Coherent program := by
  unfold Discovery.addEntry
  split
  next admitted =>
    refine ⟨coherent.entriesSorted.insert, ?_, ?_, ?_, ?_, coherent.cached⟩
    · split
      · exact coherent.boundariesSorted
      · exact coherent.boundariesSorted.insert
    · intro other member
      apply AddressSet.mem_insert.mpr
      split at member
      · exact Or.inr (coherent.boundary other member)
      · exact (AddressSet.mem_insert.mp member).imp_right (coherent.boundary other)
    · intro other member
      rcases AddressSet.mem_insert.mp member with rfl | old
      · exact executable_of_admits admitted
      · exact coherent.executable other old
    · intro other member
      rcases AddressSet.mem_insert.mp member with rfl | old
      · split
        next chunk => exact Or.inr chunk
        next => exact Or.inl (AddressSet.mem_insert.mpr (Or.inl rfl))
      · refine (coherent.known other old).imp_left ?_
        intro bounds
        split
        · exact bounds
        · exact AddressSet.mem_insert.mpr (Or.inr bounds)
  next => exact coherent

theorem Coherent.addEntry_of_mem {state : Discovery} {program : Program}
    (coherent : state.Coherent program) {address : UInt32} (member : address ∈ state.entries) :
    state.addEntry program address = state := by
  unfold Discovery.addEntry
  split
  next =>
    rw [AddressSet.insert_of_mem coherent.entriesSorted member]
    split
    next => rfl
    next noChunk =>
      have bounds := (coherent.known address member).resolve_right noChunk
      rw [AddressSet.insert_of_mem coherent.boundariesSorted bounds]
  next => rfl

theorem Coherent.addEntries {state : Discovery} {program : Program}
    (coherent : state.Coherent program) (addresses : List UInt32) :
    (state.addEntries program addresses).Coherent program := by
  induction addresses generalizing state with
  | nil => exact coherent
  | cons address rest ih => exact ih (coherent.addEntry address)

theorem Coherent.length_le_addEntry {state : Discovery} {program : Program}
    (coherent : state.Coherent program) (address : UInt32) :
    state.entries.length ≤ (state.addEntry program address).entries.length := by
  by_cases member : address ∈ state.entries
  · rw [coherent.addEntry_of_mem member]
  · by_cases admitted : admits program address
    · rw [length_addEntry admitted member]
      omega
    · rw [Discovery.addEntry, if_neg admitted]

theorem Coherent.length_le_addEntries {state : Discovery} {program : Program}
    (coherent : state.Coherent program) (addresses : List UInt32) :
    state.entries.length ≤ (state.addEntries program addresses).entries.length := by
  induction addresses generalizing state with
  | nil => exact Nat.le_refl _
  | cons address rest ih =>
      exact (coherent.length_le_addEntry address).trans (ih (coherent.addEntry address))

/-- If the number of entries stays the same, all that could be added was there before. -/
theorem Coherent.addEntries_of_length {state : Discovery} {program : Program}
    (coherent : state.Coherent program) {addresses : List UInt32}
    (same : (state.addEntries program addresses).entries.length = state.entries.length) :
    state.addEntries program addresses = state ∧
      ∀ address ∈ addresses, admits program address → address ∈ state.entries := by
  induction addresses generalizing state with
  | nil => exact ⟨rfl, fun _ member => absurd member List.not_mem_nil⟩
  | cons address rest ih =>
      have first := coherent.length_le_addEntry address
      have others := (coherent.addEntry address).length_le_addEntries rest
      change ((state.addEntry program address).addEntries program rest).entries.length = _ at same
      have old : admits program address → address ∈ state.entries := by
        intro admitted
        by_contra fresh
        have := length_addEntry admitted fresh
        omega
      have unchanged : state.addEntry program address = state := by
        by_cases admitted : admits program address
        · exact coherent.addEntry_of_mem (old admitted)
        · rw [Discovery.addEntry, if_neg admitted]
      obtain ⟨restUnchanged, restOld⟩ := ih coherent (by rw [unchanged] at same; exact same)
      refine ⟨?_, ?_⟩
      · change (state.addEntry program address).addEntries program rest = state
        rw [unchanged, restUnchanged]
      · intro other member
        rcases List.mem_cons.mp member with rfl | later
        · exact old
        · exact restOld other later

/-! ## The first entries -/

theorem Coherent.setName {state : Discovery} {program : Program}
    (coherent : state.Coherent program) (address : UInt32) (name : String) :
    (state.setName address name).Coherent program :=
  ⟨coherent.entriesSorted, coherent.boundariesSorted, coherent.boundary, coherent.executable,
    coherent.known, coherent.cached⟩

theorem addConfigured_fields (program : Program) (state : Discovery) (entry : FunctionOverride) :
    (addConfigured program state entry).entries =
        (if program.image.isExecutable entry.address then
          AddressSet.insert entry.address state.entries else state.entries) ∧
      (addConfigured program state entry).boundaries =
        (if program.image.isExecutable entry.address ∧ entry.isChunk = false then
          AddressSet.insert entry.address state.boundaries else state.boundaries) ∧
      (addConfigured program state entry).scans = state.scans := by
  unfold addConfigured
  by_cases executable : program.image.isExecutable entry.address
  · cases chunk : entry.isChunk with
    | true => cases entry.name <;> simp [executable, setName]
    | false => cases entry.name <;> simp [executable, setName]
  · simp [executable]

/-- The configured functions that are code become entries, and boundaries unless they are
chunks. -/
structure Configured (state : Discovery) (program : Program)
    (functions : List FunctionOverride) : Prop where
  entriesSorted : AddressSet.Sorted state.entries
  boundariesSorted : AddressSet.Sorted state.boundaries
  mem_entries : ∀ address, address ∈ state.entries ↔
    program.image.isExecutable address ∧ ∃ entry ∈ functions, entry.address = address
  mem_boundaries : ∀ address, address ∈ state.boundaries ↔
    program.image.isExecutable address ∧
      ∃ entry ∈ functions, entry.address = address ∧ entry.isChunk = false
  scans : state.scans = []

theorem Configured.addConfigured {state : Discovery} {program : Program}
    {functions : List FunctionOverride} (configured : state.Configured program functions)
    (entry : FunctionOverride) :
    (addConfigured program state entry).Configured program (functions ++ [entry]) := by
  obtain ⟨entries, boundaries, scans⟩ := addConfigured_fields program state entry
  constructor
  · rw [entries]
    exact configured.entriesSorted.insert_if
  · rw [boundaries]
    exact configured.boundariesSorted.insert_if
  · intro address
    rw [entries, AddressSet.mem_insert_if, configured.mem_entries]
    simp only [List.mem_append, List.mem_singleton, or_and_right, exists_or, exists_eq_left]
    constructor
    · rintro (⟨code, earlier⟩ | ⟨code, rfl⟩)
      · exact ⟨code, Or.inl earlier⟩
      · exact ⟨code, Or.inr rfl⟩
    · rintro ⟨code, earlier | rfl⟩
      · exact Or.inl ⟨code, earlier⟩
      · exact Or.inr ⟨code, rfl⟩
  · intro address
    rw [boundaries, AddressSet.mem_insert_if, configured.mem_boundaries]
    simp only [List.mem_append, List.mem_singleton, or_and_right, exists_or, exists_eq_left]
    constructor
    · rintro (⟨code, earlier⟩ | ⟨⟨code, noChunk⟩, rfl⟩)
      · exact ⟨code, Or.inl earlier⟩
      · exact ⟨code, Or.inr ⟨rfl, noChunk⟩⟩
    · rintro ⟨code, earlier | ⟨rfl, noChunk⟩⟩
      · exact Or.inl ⟨code, earlier⟩
      · exact Or.inr ⟨⟨code, noChunk⟩, rfl⟩
  · rw [scans, configured.scans]

theorem configured_foldl {program : Program} {state : Discovery}
    {done : List FunctionOverride} (configured : state.Configured program done)
    (functions : List FunctionOverride) :
    (functions.foldl (Discovery.addConfigured program) state).Configured program
      (done ++ functions) := by
  induction functions generalizing state done with
  | nil => simpa using configured
  | cons entry rest ih => simpa using ih (configured.addConfigured entry)

theorem configured_functions (program : Program) :
    (program.config.functions.foldl (Discovery.addConfigured program) {}).Configured program
      program.config.functions := by
  have empty : Configured {} program [] := by
    constructor <;> simp
  exact configured_foldl empty program.config.functions

/-- The first override at an address decides whether there is a chunk. If it is none, then it made
the address a boundary. -/
theorem Configured.coherent {state : Discovery} {program : Program}
    (configured : state.Configured program program.config.functions) :
    state.Coherent program := by
  refine ⟨configured.entriesSorted, configured.boundariesSorted, ?_, ?_, ?_, ?_⟩
  · intro address member
    obtain ⟨code, entry, inConfig, same, _⟩ := (configured.mem_boundaries address).mp member
    exact (configured.mem_entries address).mpr ⟨code, entry, inConfig, same⟩
  · intro address member
    exact ((configured.mem_entries address).mp member).1
  · intro address member
    obtain ⟨code, entry, inConfig, same⟩ := (configured.mem_entries address).mp member
    rw [configured.mem_boundaries]
    unfold isConfiguredChunk
    cases found : program.config.functionAt address with
    | none =>
        have missed := List.find?_eq_none.mp found entry inConfig
        simp [same] at missed
    | some first =>
        have firstMember := List.mem_of_find?_eq_some found
        have firstAddress : first.address = address := by simpa using List.find?_some found
        cases chunk : first.isChunk with
        | true => exact Or.inr chunk
        | false => exact Or.inl ⟨code, first, firstMember, firstAddress, chunk⟩
  · intro entry scan member
    rw [configured.scans] at member
    cases member

theorem Coherent.addSymbol {state : Discovery} {program : Program}
    (coherent : state.Coherent program) (symbol : Symbol) :
    (addSymbol program state symbol).Coherent program := by
  unfold Discovery.addSymbol
  split
  · have added := coherent.addEntry symbol.address
    simp only
    split
    · exact added
    · exact added.setName _ _
  · exact coherent

theorem seed_coherent (program : Program) : (seed program).Coherent program := by
  have configured := configured_functions program
  have entered := configured.coherent.addEntry program.image.entry
  have named : ∀ (symbols : List Symbol) (state : Discovery), state.Coherent program →
      (symbols.foldl (Discovery.addSymbol program) state).Coherent program := by
    intro symbols
    induction symbols with
    | nil => exact fun _ coherent => coherent
    | cons symbol rest ih => exact fun _ coherent => ih _ (coherent.addSymbol symbol)
  exact (named program.image.symbols _ entered).addEntries _

end PowerLift.Discovery
