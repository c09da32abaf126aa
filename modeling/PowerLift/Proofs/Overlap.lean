import Mathlib
import PowerLift.Proofs.OverlapPairs

/-!
When functions of a discovery overlap. With a valid configuration there are two ways: a function is
declared without an extent inside of the declared range of another, or a declared chunk stands
alone because the graph has no such parent.
-/

namespace PowerLift

namespace Graph

/-- Nothing is reported just if every function that is no chunk ends before the next one. -/
theorem Ordered.overlaps_eq_nil_iff {graph : Graph} (ordered : graph.Ordered) :
    graph.overlaps = [] ↔
      ∀ first ∈ graph.nodes, ∀ second ∈ graph.nodes, first.isChunk = false →
        second.isChunk = false → first.address < second.address →
          first.stop ≤ second.address := by
  rw [ordered.overlaps_eq, List.eq_nil_iff_forall_not_mem]
  constructor
  · intro none first firstMember second secondMember firstWhole secondWhole before
    by_contra reaches
    exact none _ (mem_overlapPairs.mpr ⟨first, firstMember, second, secondMember, firstWhole,
      secondWhole, rfl, before, UInt32.not_le.mp reaches⟩)
  · intro apart pair member
    obtain ⟨first, firstMember, second, secondMember, firstWhole, secondWhole, _, before,
      reaches⟩ := mem_overlapPairs.mp member
    exact UInt32.not_le.mpr reaches
      (apart first firstMember second secondMember firstWhole secondWhole before)

end Graph

namespace Discovery

/-- Two declared functions, no chunks, of which the second has no extent and begins inside of the
declared range of the first. -/
structure Nested (program : Program) (outer inner : FunctionOverride) : Prop where
  outerCode : program.image.isExecutable outer.address
  innerCode : program.image.isExecutable inner.address
  outerWhole : ¬ program.config.DeclaresChunk outer.address
  innerWhole : ¬ program.config.DeclaresChunk inner.address
  unsized : inner.extent = none
  after : outer.address < inner.address
  inside : ∃ size, outer.extent = some size ∧ inner.address < outer.address + size

/-- A declared chunk that has become a function of its own. -/
def Orphan (config : Config) (node : FunctionNode) : Prop :=
  node.isChunk = false ∧ config.DeclaresChunk node.address

section

variable {program : Program} {state : Discovery}

/-- A function with a declared extent ends before the next one, unless that is nested in it. -/
theorem declared_stop_le (final : state.Final program) (valid : program.config.validate.valid)
    (apart : ∀ outer ∈ program.config.functions, ∀ inner ∈ program.config.functions,
      ¬ Nested program outer inner)
    {address next size : UInt32} (member : address ∈ state.entries)
    (nextMember : next ∈ state.entries) (whole : ¬ program.config.DeclaresChunk address)
    (nextWhole : ¬ program.config.DeclaresChunk next)
    (extent : program.config.extentAt address = some size) (after : address < next) :
    address + size ≤ next := by
  obtain ⟨outer, outerMember, rfl, outerExtent⟩ := Config.exists_of_extentAt extent
  have outerChunk : outer.isChunk = false := by
    by_contra chunk
    exact whole ⟨outer, outerMember, rfl, by simpa using chunk⟩
  by_contra reaches
  have inside := UInt32.not_le.mp reaches
  have sized : ∀ inner ∈ program.config.functions, inner.address = next →
      inner.extent ≠ none → False := by
    rintro inner innerMember rfl innerSized
    have free := Config.range_free valid outerMember innerMember outerExtent innerSized whole
      nextWhole after
    exact UInt32.not_le.mpr (lt_saturatingAdd inside) free
  -- The next entry is declared or was admitted, and inside of the range that takes an extent.
  rcases final.origin next nextMember with ⟨inner, innerMember, rfl⟩ | admitted
  · cases innerExtent : inner.extent with
    | none =>
        exact apart outer outerMember inner innerMember
          ⟨final.coherent.executable _ member, final.coherent.executable _ nextMember, whole,
            nextWhole, innerExtent, after, size, outerExtent, inside⟩
    | some _ => exact sized inner innerMember rfl (by simp [innerExtent])
  · obtain ⟨inner, innerMember, same, innerSized⟩ :=
      admits_inside outerMember outerChunk outerExtent after inside admitted
    exact sized inner innerMember same innerSized

theorem Nested.overlaps (final : state.Final program) (valid : program.config.validate.valid)
    {outer inner : FunctionOverride} (outerMember : outer ∈ program.config.functions)
    (innerMember : inner ∈ program.config.functions) (nested : Nested program outer inner) :
    (state.toGraph program).overlaps ≠ [] := by
  have declares : program.config.Declares outer.address := ⟨outer, outerMember, rfl⟩
  have innerDeclares : program.config.Declares inner.address := ⟨inner, innerMember, rfl⟩
  obtain ⟨first, firstMember, firstAddress⟩ := exists_toGraph_node final valid
    (final.declared _ declares nested.outerCode) (Or.inl declares)
  obtain ⟨second, secondMember, secondAddress⟩ := exists_toGraph_node final valid
    (final.declared _ innerDeclares nested.innerCode) (Or.inl innerDeclares)
  have firstWhole : first.isChunk = false := by
    by_contra chunk
    exact nested.outerWhole (firstAddress ▸
      toGraph_declaresChunk final valid firstMember (by simpa using chunk))
  have secondWhole : second.isChunk = false := by
    by_contra chunk
    exact nested.innerWhole (secondAddress ▸
      toGraph_declaresChunk final valid secondMember (by simpa using chunk))
  obtain ⟨size, extent, inside⟩ := nested.inside
  have firstSize : first.size = size := by
    apply toGraph_size final valid firstMember
    rw [firstAddress, Config.extentAt_function valid outerMember, extent]
  intro none
  have apart := (toGraph_ordered final valid).overlaps_eq_nil_iff.mp none first firstMember second
    secondMember firstWhole secondWhole (by rw [firstAddress, secondAddress]; exact nested.after)
  rw [FunctionNode.stop, firstAddress, firstSize, secondAddress] at apart
  exact UInt32.not_le.mpr inside apart

end

/-- With a valid configuration, functions overlap just where one is declared inside of another
without an extent, or where a chunk without its parent is one of the two. -/
theorem run_overlaps_iff {program : Program} (valid : program.config.validate.valid)
    (hints : List UInt32) (tables : List VTable) :
    let graph :=
      (((seed program).addEntries program hints).addVTables program tables).run program
    graph.overlaps = [] ↔
      (∀ outer ∈ program.config.functions, ∀ inner ∈ program.config.functions,
        ¬ Nested program outer inner) ∧
      ∀ first ∈ graph.nodes, ∀ second ∈ graph.nodes, first.isChunk = false →
        second.isChunk = false → Orphan program.config first ∨ Orphan program.config second →
          first.address < second.address → first.stop ≤ second.address := by
  obtain ⟨state, final, same⟩ := run_final program hints tables
  rw [same]
  intro graph
  have ordered : graph.Ordered := toGraph_ordered final valid
  constructor
  · intro none
    refine ⟨?_, ?_⟩
    · intro outer outerMember inner innerMember nested
      exact nested.overlaps final valid outerMember innerMember none
    · intro first firstMember second secondMember firstWhole secondWhole _ before
      exact ordered.overlaps_eq_nil_iff.mp none first firstMember second secondMember firstWhole
        secondWhole before
  · rintro ⟨apart, orphans⟩
    rw [ordered.overlaps_eq_nil_iff]
    intro first firstMember second secondMember firstWhole secondWhole before
    by_cases orphan : Orphan program.config first ∨ Orphan program.config second
    · exact orphans first firstMember second secondMember firstWhole secondWhole orphan before
    · simp only [Orphan, firstWhole, secondWhole, true_and, not_or] at orphan
      obtain ⟨firstOwn, secondOwn⟩ := orphan
      obtain ⟨firstEntry, _⟩ := toGraph_node final valid firstMember
      obtain ⟨secondEntry, _⟩ := toGraph_node final valid secondMember
      -- A declared extent is the configuration's matter; all others end at the next boundary.
      cases extent : program.config.extentAt first.address with
      | some size =>
          rw [FunctionNode.stop, toGraph_size final valid firstMember extent]
          exact declared_stop_le final valid apart firstEntry secondEntry firstOwn secondOwn extent
            before
      | none =>
          have limit := final.coherent.limitOf_le extent
            (final.boundary secondEntry secondOwn) before
          exact toGraph_stop_le final valid firstMember extent (final.aligned valid secondEntry)
            (UInt32.le_of_lt before) (UInt32.le_iff_toNat_le.mpr limit)

/-! Four words, of which the second half is declared once more and without an extent. -/

def nestedProgram : Program where
  image := Image.ofCode 0x1000 #[0x60, 0x00, 0x00, 0x00, 0x60, 0x00, 0x00, 0x00,
    0x60, 0x00, 0x00, 0x00, 0x4E, 0x80, 0x00, 0x20]
  config :=
    { functions := [{ address := 0x1000, key := "0x1000", size := some 16 },
        { address := 0x1008, key := "0x1008" }] }

theorem nestedProgram_valid : nestedProgram.config.validate.valid := by
  have ranges := Config.ranges_of_sorted (show (Config.firstPerAddress
    nestedProgram.config.functions).Pairwise _ by decide)
  rw [Config.validate, Report.valid, Config.errors, ranges]
  decide

/-- The configuration is valid, and the functions that it declares overlap. -/
theorem nestedProgram_overlaps :
    nestedProgram.config.validate.valid ∧ (nestedProgram.discover []).overlaps ≠ [] := by
  refine ⟨nestedProgram_valid, ?_⟩
  intro none
  obtain ⟨apart, _⟩ := (run_overlaps_iff nestedProgram_valid [] []).mp none
  have whole : ∀ address, ¬ nestedProgram.config.DeclaresChunk address := by
    rintro address ⟨entry, member, _, chunk⟩
    simp only [nestedProgram, List.mem_cons, List.not_mem_nil, or_false] at member
    rcases member with rfl | rfl <;> cases chunk
  exact apart { address := 0x1000, key := "0x1000", size := some 16 } (by simp [nestedProgram])
    { address := 0x1008, key := "0x1008" } (by simp [nestedProgram])
    ⟨by decide, by decide, whole _, whole _, rfl, by decide, 16, rfl, by decide⟩

end Discovery

end PowerLift
