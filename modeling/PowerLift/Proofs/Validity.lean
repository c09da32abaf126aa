import Mathlib
import PowerLift.Proofs.AddressSet
import PowerLift.Proofs.Alignment

/-!
What a valid configuration promises about its functions: they begin at words, declarations of one
address agree on the extent, and declared ranges do not overlap.
-/

namespace PowerLift

theorem lt_saturatingAdd {address offset other : UInt32} (inside : other < address + offset) :
    other < saturatingAdd address offset := by
  rw [UInt32.lt_iff_toNat_lt, UInt32.toNat_add] at inside
  rw [UInt32.lt_iff_toNat_lt, toNat_saturatingAdd]
  omega

namespace Config

/-! ## Faults of single functions -/

theorem functionFaults_eq_nil {config : Config} (valid : config.validate.valid)
    {before after : List FunctionOverride} {entry : FunctionOverride}
    (split : config.functions = before ++ entry :: after) : functionFaults before entry = [] := by
  have none := errors_eq_nil valid
  simp only [errors, List.append_eq_nil_iff] at none
  apply List.eq_nil_iff_forall_not_mem.mpr
  intro fault member
  have reported : fault ∈ flatMapBefore functionFaults [] config.functions :=
    mem_flatMapBefore.mpr ⟨before, entry, after, split, member⟩
  rw [none.1.1.1.1.1.1.1] at reported
  cases reported

theorem aligned_function {config : Config} (valid : config.validate.valid)
    {entry : FunctionOverride} (member : entry ∈ config.functions) : aligned entry.address :=
  aligned_of_mentions valid (.function member)

/-- The first declaration of an address has the extent that all others have. -/
theorem functionAt_eq_some {config : Config} (valid : config.validate.valid)
    {entry : FunctionOverride} (member : entry ∈ config.functions) :
    ∃ first ∈ config.functions, config.functionAt entry.address = some first ∧
      first.address = entry.address ∧ first.extent = entry.extent := by
  obtain ⟨before, after, split⟩ := List.append_of_mem member
  have none := functionFaults_eq_nil valid split
  simp only [functionFaults, List.append_eq_nil_iff] at none
  have agrees := none.2
  unfold conflicts earlier? at agrees
  cases found : before.find? (·.address == entry.address) with
  | none =>
      refine ⟨entry, member, ?_, rfl, rfl⟩
      simp [functionAt, split, List.find?_append, found]
  | some first =>
      rw [found] at agrees
      have same : first.address = entry.address := by simpa using List.find?_some found
      refine ⟨first, ?_, ?_, same, by simpa using agrees⟩
      · rw [split]
        exact List.mem_append_left _ (List.mem_of_find?_eq_some found)
      · simp [functionAt, split, List.find?_append, found]

theorem extentAt_function {config : Config} (valid : config.validate.valid)
    {entry : FunctionOverride} (member : entry ∈ config.functions) :
    config.extentAt entry.address = entry.extent := by
  obtain ⟨first, _, found, _, extent⟩ := functionAt_eq_some valid member
  rw [extentAt, found, ← extent]
  rfl

/-- An address that some declaration is about. -/
def Declares (config : Config) (address : UInt32) : Prop :=
  ∃ entry ∈ config.functions, entry.address = address

theorem exists_of_extentAt {config : Config} {address size : UInt32}
    (declared : config.extentAt address = some size) :
    ∃ entry ∈ config.functions, entry.address = address ∧ entry.extent = some size := by
  obtain ⟨entry, found, extent⟩ := Option.bind_eq_some_iff.mp declared
  exact ⟨entry, List.mem_of_find?_eq_some found, by simpa using List.find?_some found, extent⟩

/-! ## Overlaps -/

/-- An address that some declaration makes a chunk. -/
def DeclaresChunk (config : Config) (address : UInt32) : Prop :=
  ∃ entry ∈ config.functions, entry.address = address ∧ entry.isChunk

/-- A declared extent is that of the range that its address takes up. -/
theorem exists_occupies {config : Config} (valid : config.validate.valid)
    {entry : FunctionOverride} (member : entry ∈ config.functions) {size : UInt32}
    (extent : entry.extent = some size) (whole : ¬ config.DeclaresChunk entry.address) :
    ∃ first, config.Occupies first (saturatingAdd entry.address size) ∧
      first.address = entry.address := by
  obtain ⟨first, firstMember, found, same, firstExtent⟩ := functionAt_eq_some valid member
  have noChunk : first.isChunk = false := by
    by_contra chunk
    exact whole ⟨first, firstMember, same, by simpa using chunk⟩
  exact ⟨first, ⟨same ▸ found, noChunk, size, firstExtent.trans extent, by rw [same]⟩, same⟩

/-- The declared range of a function holds no other function that has one. -/
theorem range_free {config : Config} (valid : config.validate.valid)
    {outer inner : FunctionOverride} (outerMember : outer ∈ config.functions)
    (innerMember : inner ∈ config.functions) {size : UInt32} (extent : outer.extent = some size)
    (innerSized : inner.extent ≠ none) (outerWhole : ¬ config.DeclaresChunk outer.address)
    (innerWhole : ¬ config.DeclaresChunk inner.address) (before : outer.address < inner.address) :
    saturatingAdd outer.address size ≤ inner.address := by
  obtain ⟨innerSize, innerExtent⟩ := Option.ne_none_iff_exists'.mp innerSized
  obtain ⟨first, occupies, same⟩ := exists_occupies valid outerMember extent outerWhole
  obtain ⟨second, secondOccupies, secondSame⟩ :=
    exists_occupies valid innerMember innerExtent innerWhole
  by_contra reaches
  rw [← same, ← secondSame] at before
  rw [← secondSame] at reaches
  have reported := mem_overlapping_errors.mpr
    ⟨_, secondOccupies, first, _, occupies, before, UInt32.not_le.mp reaches⟩
  rw [show config.validate.errors = [] from errors_eq_nil valid] at reported
  cases reported

end Config

end PowerLift
