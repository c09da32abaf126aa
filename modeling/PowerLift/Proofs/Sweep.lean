import Mathlib
import PowerLift.Proofs.Entries

/-!
The sweep for code that no function covers: it comes to an end, keeps what holds of every
discovery, and counts the entries that it adds.
-/

namespace PowerLift.Discovery

/-! ## One function found -/

/-- What the sweep does with an address that may begin a function. -/
def establish (program : Program) (state : Discovery) (address : UInt32) : Discovery :=
  let added := state.addEntry program address
  { added with
    scans := added.scans ++ [(address, program.scan address (added.limitOf program address))] }

/-- Where the sweep goes on after it. -/
def establishedStop (program : Program) (state : Discovery) (address : UInt32) : UInt32 :=
  let added := state.addEntry program address
  max ((program.scan address (added.limitOf program address)).extent address) (address + 4)

theorem Coherent.establish {state : Discovery} {program : Program}
    (coherent : state.Coherent program) (address : UInt32) :
    (state.establish program address).Coherent program := by
  have added := coherent.addEntry address
  refine ⟨added.entriesSorted, added.boundariesSorted, added.boundary, added.executable,
    added.known, ?_⟩
  intro entry scan member
  rcases List.mem_append.mp member with old | new
  · exact added.cached entry scan old
  · cases List.mem_singleton.mp new
    rw [Program.scan_limit]

theorem le_extent (program : Program) (entry limit : UInt32) :
    entry.toNat ≤ ((program.scan entry limit).extent entry).toNat := by
  unfold Scan.extent
  cases found : ((program.scan entry limit).blocks.map (·.stop)).max? with
  | none => exact Nat.le_refl _
  | some stop =>
      obtain ⟨block, member, rfl⟩ := List.mem_map.mp (List.max?_mem found)
      obtain ⟨inside, order⟩ := Program.scan_block member
      have above := (Window.contains_iff.mp inside).1
      simp only [Option.getD_some] at above ⊢
      omega

theorem le_establishedStop (program : Program) (state : Discovery) (address : UInt32) :
    address.toNat ≤ (establishedStop program state address).toNat ∧
      (address + 4).toNat ≤ (establishedStop program state address).toNat := by
  have extent := le_extent program address
    ((state.addEntry program address).limitOf program address)
  simp only [establishedStop, toNat_max]
  omega

/-! ## The way through a section -/

theorem toNat_wordAddress {sect : Section} {index : Nat} (before : index < readableWords sect)
    (above : sect.address.toNat ≤ (wordAddress sect index).toNat) :
    (wordAddress sect index).toNat = sect.address.toNat + 4 * index := by
  have size := sect.size.toNat_lt
  have start := sect.address.toNat_lt
  have below : index < sect.size.toNat / 4 := by
    unfold readableWords at before
    omega
  simp only [wordAddress, UInt32.toNat_add, UInt32.toNat_ofNat'] at above ⊢
  omega

theorem dataRun_pos {config : Config} {sect : Section} {covered : List WordRun}
    {fuel index : Nat} (positive : 0 < fuel) (data : isData config sect covered index) :
    0 < dataRun config sect covered fuel index := by
  obtain ⟨fuel, rfl⟩ := Nat.exists_eq_succ_of_ne_zero (Nat.ne_of_gt positive)
  simp [dataRun, data]

theorem skip?_pos {config : Config} {sect : Section} {covered : List WordRun} {index count : Nat}
    {word : UInt32} (before : index < readableWords sect)
    (skipped : skip? config sect covered index word = some count) : 0 < count := by
  unfold skip? at skipped
  split at skipped
  · cases skipped
    exact Nat.one_pos
  · split at skipped
    · cases skipped
      omega
    · split at skipped
      next data =>
        cases skipped
        exact dataRun_pos (by omega) data
      next => cases skipped

theorem contains_of_read? {sect : Section} {address word : UInt32}
    (found : sect.read? address = some word) : sect.contains address := by
  unfold Section.read? at found
  split at found
  · assumption
  · cases found

/-- The sweep of a section from an index on, without a bound on its length. -/
inductive Sweeps (program : Program) (sect : Section) :
    Nat → List WordRun → Discovery → Nat → Discovery × Nat → Prop
  | past {index found : Nat} {covered : List WordRun} {state : Discovery}
      (done : readableWords sect ≤ index) :
      Sweeps program sect index covered state found (state, found)
  | unreadable {index found : Nat} {covered : List WordRun} {state : Discovery}
      (before : index < readableWords sect) (free : isCovered covered index = false)
      (missing : sect.read? (wordAddress sect index) = none) :
      Sweeps program sect index covered state found (state, found)
  | taken {index found : Nat} {covered : List WordRun} {state : Discovery}
      {result : Discovery × Nat} (before : index < readableWords sect)
      (taken : isCovered covered index)
      (onward : Sweeps program sect (index + 1) covered state found result) :
      Sweeps program sect index covered state found result
  | skip {index found count : Nat} {covered : List WordRun} {state : Discovery} {word : UInt32}
      {result : Discovery × Nat} (before : index < readableWords sect)
      (free : isCovered covered index = false)
      (read : sect.read? (wordAddress sect index) = some word)
      (skipped : skip? program.config sect covered index word = some count)
      (onward : Sweeps program sect (index + count) covered state found result) :
      Sweeps program sect index covered state found result
  | refused {index found : Nat} {covered : List WordRun} {state : Discovery} {word : UInt32}
      {result : Discovery × Nat} (before : index < readableWords sect)
      (free : isCovered covered index = false)
      (read : sect.read? (wordAddress sect index) = some word)
      (code : skip? program.config sect covered index word = none)
      (refused : wordAddress sect index ∈ state.entries ∨
        admits program (wordAddress sect index) = false)
      (onward : Sweeps program sect (index + 1) covered state found result) :
      Sweeps program sect index covered state found result
  | found {index found : Nat} {covered : List WordRun} {state : Discovery} {word : UInt32}
      {result : Discovery × Nat} (before : index < readableWords sect)
      (free : isCovered covered index = false)
      (read : sect.read? (wordAddress sect index) = some word)
      (code : skip? program.config sect covered index word = none)
      (fresh : wordAddress sect index ∉ state.entries)
      (admitted : admits program (wordAddress sect index))
      (onward : Sweeps program sect
        ((establishedStop program state (wordAddress sect index) - sect.address).toNat / 4)
        (covered ++ WordRun.ofSpan sect
          { start := wordAddress sect index,
            stop := establishedStop program state (wordAddress sect index) })
        (state.establish program (wordAddress sect index)) (found + 1) result) :
      Sweeps program sect index covered state found result

/-! ## Termination -/

/-- The last word that has an address. Nothing comes after it. -/
def lastWord : UInt32 := 0xFFFFFFFC

theorem eq_lastWord {address : UInt32} (word : aligned address)
    (wraps : ¬ address.toNat + 4 < UInt32.size) : address = lastWord := by
  have number := aligned_iff.mp word
  have limit := address.toNat_lt
  apply UInt32.toNat_inj.mp
  change address.toNat = 4294967292
  change ¬ address.toNat + 4 < 4294967296 at wraps
  omega

/-- Bounds the number of words that a sweep has still to look at. Only the last word of all may be
looked at twice. -/
def unswept (sect : Section) (index : Nat) (state : Discovery) : Nat :=
  (readableWords sect - index) + if lastWord ∈ state.entries then 0 else 1

theorem unswept_step {sect : Section} {index next : Nat} (before : index < readableWords sect)
    (after : index < next) (state : Discovery) :
    unswept sect next state < unswept sect index state := by
  unfold unswept
  omega

/-- A function that is found is not looked at again, unless it is the last word of all. -/
theorem established_index (program : Program) (state : Discovery) {sect : Section} {index : Nat}
    {word : UInt32} (before : index < readableWords sect)
    (read : sect.read? (wordAddress sect index) = some word) (wordAligned : aligned
      (wordAddress sect index)) :
    index ≤ (establishedStop program state (wordAddress sect index) - sect.address).toNat / 4 ∧
      (wordAddress sect index ≠ lastWord →
        index < (establishedStop program state (wordAddress sect index) -
          sect.address).toNat / 4) := by
  have above : sect.address.toNat ≤ (wordAddress sect index).toNat := by
    have inside := contains_of_read? read
    simp only [Section.contains, Bool.and_eq_true, decide_eq_true_eq] at inside
    exact UInt32.le_iff_toNat_le.mp inside.1
  have place := toNat_wordAddress before above
  obtain ⟨reached, passed⟩ := le_establishedStop program state (wordAddress sect index)
  have distance : (establishedStop program state (wordAddress sect index) -
      sect.address).toNat = (establishedStop program state (wordAddress sect index)).toNat -
        sect.address.toNat := toNat_sub (by omega)
  refine ⟨by omega, ?_⟩
  intro notLast
  have number := aligned_iff.mp wordAligned
  have different : (wordAddress sect index).toNat ≠ 4294967292 :=
    fun same => notLast (UInt32.toNat_inj.mp same)
  have limit := (wordAddress sect index).toNat_lt
  rw [toNat_add_four (by change _ < 4294967296; omega)] at passed
  omega

theorem aligned_of_admits {program : Program} {address : UInt32}
    (admitted : admits program address) : aligned address := by
  simp only [admits, Program.isCodeAddress, Bool.and_eq_true] at admitted
  exact admitted.1.1

theorem unswept_establish {program : Program} {sect : Section} {index : Nat} {state : Discovery}
    {word : UInt32} (before : index < readableWords sect)
    (read : sect.read? (wordAddress sect index) = some word)
    (fresh : wordAddress sect index ∉ state.entries)
    (admitted : admits program (wordAddress sect index)) :
    unswept sect
        ((establishedStop program state (wordAddress sect index) - sect.address).toNat / 4)
        (state.establish program (wordAddress sect index)) <
      unswept sect index state := by
  obtain ⟨reached, passed⟩ :=
    established_index program state before read (aligned_of_admits admitted)
  have members : lastWord ∈ (state.establish program (wordAddress sect index)).entries ↔
      lastWord ∈ state.entries ∨ lastWord = wordAddress sect index := by
    change lastWord ∈ (state.addEntry program (wordAddress sect index)).entries ↔ _
    rw [mem_addEntry]
    simp [admitted]
  unfold unswept
  by_cases last : wordAddress sect index = lastWord
  · rw [last] at fresh
    rw [if_pos (members.mpr (Or.inr last.symm)), if_neg fresh]
    omega
  · have further := passed last
    simp only [members, Ne.symm last, or_false]
    omega

theorem sweepFrom_sweeps (program : Program) (sect : Section) (fuel index : Nat)
    (covered : List WordRun) (state : Discovery) (found : Nat)
    (enough : unswept sect index state ≤ fuel) :
    Sweeps program sect index covered state found
      (sweepFrom program sect fuel index covered state found) := by
  induction fuel generalizing index covered state found with
  | zero =>
      refine .past ?_
      unfold unswept at enough
      omega
  | succ fuel ih =>
      rw [sweepFrom]
      split
      next done => exact .past done
      next remaining =>
        have before : index < readableWords sect := Nat.not_le.mp remaining
        have step : ∀ next, index < next → unswept sect next state ≤ fuel := fun next after =>
          Nat.le_of_lt_succ (Nat.lt_of_lt_of_le (unswept_step before after state) enough)
        split
        next taken => exact .taken before taken (ih _ _ _ _ (step _ (Nat.lt_succ_self _)))
        next free =>
          have free : isCovered covered index = false := by simpa using free
          simp only
          split
          next missing => exact .unreadable before free missing
          next word read =>
            split
            next count skipped =>
              have positive := skip?_pos before skipped
              exact .skip before free read skipped (ih _ _ _ _ (step _ (by omega)))
            next code =>
              split
              next refused =>
                refine .refused before free read code ?_ (ih _ _ _ _ (step _ (Nat.lt_succ_self _)))
                simpa using refused
              next accepted =>
                simp only [Bool.or_eq_true, List.contains_iff_mem, Bool.not_eq_true', not_or,
                  Bool.not_eq_false] at accepted
                have less := unswept_establish before read accepted.1 accepted.2
                exact .found before free read code accepted.1 accepted.2
                  (ih _ _ _ _ (Nat.le_of_lt_succ (Nat.lt_of_lt_of_le less enough)))

/-! ## What a sweep keeps -/

theorem Sweeps.coherent {program : Program} {sect : Section} {index found : Nat}
    {covered : List WordRun} {state : Discovery} {result : Discovery × Nat}
    (sweeps : Sweeps program sect index covered state found result)
    (coherent : state.Coherent program) : result.1.Coherent program := by
  induction sweeps with
  | past | unreadable => exact coherent
  | taken _ _ _ ih | skip _ _ _ _ _ ih | refused _ _ _ _ _ _ ih => exact ih coherent
  | found _ _ _ _ _ _ _ ih => exact ih (coherent.establish _)

theorem Sweeps.length {program : Program} {sect : Section} {index found : Nat}
    {covered : List WordRun} {state : Discovery} {result : Discovery × Nat}
    (sweeps : Sweeps program sect index covered state found result) :
    result.1.entries.length + found = state.entries.length + result.2 := by
  induction sweeps with
  | past | unreadable => rfl
  | taken _ _ _ ih | skip _ _ _ _ _ ih | refused _ _ _ _ _ _ ih => exact ih
  | found _ _ _ _ fresh admitted _ ih =>
      have added := length_addEntry admitted fresh
      simp only [establish] at ih
      omega

theorem Sweeps.unchanged {program : Program} {sect : Section} {index found : Nat}
    {covered : List WordRun} {state : Discovery} {result : Discovery × Nat}
    (sweeps : Sweeps program sect index covered state found result) :
    found ≤ result.2 ∧ (result.2 = found → result.1 = state) := by
  induction sweeps with
  | past | unreadable => exact ⟨Nat.le_refl _, fun _ => rfl⟩
  | taken _ _ _ ih | skip _ _ _ _ _ ih | refused _ _ _ _ _ _ ih => exact ih
  | found _ _ _ _ _ _ _ ih =>
      refine ⟨by omega, ?_⟩
      intro same
      omega

/-! ## All sections -/

/-- The sweeps of sections one after another. -/
inductive SweepsAll (program : Program) :
    List Section → Discovery × Nat → Discovery × Nat → Prop
  | nil (acc : Discovery × Nat) : SweepsAll program [] acc acc
  | cons {sect : Section} {rest : List Section} {acc middle result : Discovery × Nat}
      (first : Sweeps program sect 0 (acc.1.coveredWords program.config sect) acc.1 acc.2 middle)
      (others : SweepsAll program rest middle result) :
      SweepsAll program (sect :: rest) acc result

theorem foldl_sweepSection (program : Program) (sections : List Section) (acc : Discovery × Nat) :
    SweepsAll program sections acc (sections.foldl (sweepSection program) acc) := by
  induction sections generalizing acc with
  | nil => exact .nil acc
  | cons sect rest ih =>
      have fuel : unswept sect 0 acc.1 ≤ readableWords sect + 1 := by
        unfold unswept
        split <;> omega
      exact .cons (sweepFrom_sweeps program sect _ 0 _ acc.1 acc.2 fuel) (ih _)

theorem sweep_sweepsAll (program : Program) (state : Discovery) :
    SweepsAll program program.image.executableSections (state, 0) (sweep program state) :=
  foldl_sweepSection program _ _

theorem SweepsAll.coherent {program : Program} {sections : List Section}
    {acc result : Discovery × Nat} (sweeps : SweepsAll program sections acc result)
    (coherent : acc.1.Coherent program) : result.1.Coherent program := by
  induction sweeps with
  | nil => exact coherent
  | cons first _ ih => exact ih (first.coherent coherent)

theorem SweepsAll.length {program : Program} {sections : List Section}
    {acc result : Discovery × Nat} (sweeps : SweepsAll program sections acc result) :
    result.1.entries.length + acc.2 = acc.1.entries.length + result.2 := by
  induction sweeps with
  | nil => rfl
  | cons first _ ih =>
      have := first.length
      omega

theorem SweepsAll.unchanged {program : Program} {sections : List Section}
    {acc result : Discovery × Nat} (sweeps : SweepsAll program sections acc result) :
    acc.2 ≤ result.2 ∧ (result.2 = acc.2 → result.1 = acc.1) := by
  induction sweeps with
  | nil => exact ⟨Nat.le_refl _, fun _ => rfl⟩
  | cons first _ ih =>
      obtain ⟨le, same⟩ := first.unchanged
      refine ⟨le.trans ih.1, ?_⟩
      intro equal
      rw [ih.2 (by omega), same (by omega)]

end PowerLift.Discovery
