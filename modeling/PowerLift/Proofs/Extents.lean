import Mathlib
import PowerLift.Proofs.Coverage
import PowerLift.Proofs.Runs
import PowerLift.Proofs.Scanned

/-!
The range of a discovered function can be read. It ends with a block, the last word of a block was
read, and what a section stores comes before what it does not. So a function has code unless the
configuration gives it an extent that is not mapped.
-/

namespace PowerLift

/-! ## Where scanned blocks end -/

namespace Exploration

/-- Every block ends at or before the end of a word in the window that was read. -/
def Rests (program : Program) (window : Window) (block : Span) : Prop :=
  ∃ last : UInt32, aligned last ∧ window.contains last ∧ (program.image.read? last).isSome ∧
    block.stop.toNat ≤ last.toNat + 4

theorem visit_rests {program : Program} {window : Window} {state : Exploration} (start : UInt32)
    (rests : ∀ block ∈ state.scan.blocks, Rests program window block) :
    ∀ block ∈ (visit program window state start).scan.blocks, Rests program window block := by
  rcases visit_cases program window state start with
    ⟨equation, _⟩ | ⟨equation, _⟩ | ⟨finish, step, walked, equation, inside, startWord, _⟩
  · rwa [equation]
  · rwa [equation]
  · rw [equation]
    intro block member
    rcases mem_record_blocks member with old | ⟨order, rfl⟩
    · exact rests block old
    · obtain ⟨stopWord, stop⟩ := program.walk_stop window state.scan state.extent
        (window.wordCount + 1) startWord
      rw [show program.walk window _ _ _ _ = _ from walked] at stopWord stop
      rcases stop with nowhere | ⟨before, insn, found⟩
      · exact absurd (nowhere ▸ order) (UInt32.lt_irrefl _)
      · have number : finish.toNat % 4 = 0 := aligned_iff.mp stopWord
        have startNumber := aligned_iff.mp startWord
        have started := UInt32.lt_iff_toNat_lt.mp order
        have above := (Window.contains_iff.mp inside).1
        have last : (finish - 4).toNat = finish.toNat - 4 := toNat_sub (by change 4 ≤ _; omega)
        obtain ⟨word, read, _⟩ := Program.instruction?_eq_some.mp found
        refine ⟨finish - 4, aligned_iff.mpr (by omega), Window.contains_iff.mpr ⟨by omega, ?_⟩,
          Option.isSome_iff_exists.mpr ⟨word, read⟩, ?_⟩
        · exact UInt32.lt_iff_toNat_lt.mp before
        · change finish.toNat ≤ _
          omega

end Exploration

theorem Program.scan_rests {program : Program} {entry limit : UInt32} {block : Span}
    (member : block ∈ (program.scan entry limit).blocks) :
    Exploration.Rests program { entry, limit } block := by
  obtain ⟨state, rests, whole, among, within, _⟩ := scan_piece
    (fun state => ∀ block ∈ state.scan.blocks, Exploration.Rests program { entry, limit } block)
    (fun _ none => absurd none List.not_mem_nil)
    (fun _ start _ _ rests => Exploration.visit_rests start rests) member
  obtain ⟨last, word, inside, read, ends⟩ := rests whole among
  have := UInt32.le_iff_toNat_le.mp within
  exact ⟨last, word, inside, read, by omega⟩

/-- No code is found from an address between two words. -/
theorem Program.scan_of_misaligned (program : Program) {entry : UInt32} (odd : ¬ aligned entry)
    (limit : UInt32) : program.scan entry limit = { limit } := by
  by_cases nonempty : entry < limit
  · have explored : ∀ fuel, (Exploration.run program { entry, limit } fuel
        (Exploration.start { entry, limit })).scan = { limit } ∧
      (Exploration.run program { entry, limit } fuel
        (Exploration.start { entry, limit })).splits = [] := by
      intro fuel
      cases fuel with
      | zero => exact ⟨rfl, rfl⟩
      | succ fuel =>
          -- The entry is all there is to look at, and it is dropped.
          have skipped : Exploration.visit program { entry, limit }
              { Exploration.start { entry, limit } with pending := [] } entry =
                { Exploration.start { entry, limit } with pending := [] } := by
            simp [Exploration.visit, odd]
          simp only [Exploration.run, Exploration.start] at skipped ⊢
          rw [skipped]
          cases fuel with
          | zero => exact ⟨rfl, rfl⟩
          | succ fuel => exact ⟨rfl, rfl⟩
    exact Discovery.scan_of_explored nonempty (explored _) List.Pairwise.nil
  · rw [scan, if_pos (UInt32.not_lt.mp nonempty)]

/-! ## What a section stores -/

/-- Before a word that can be read, all of the section can be read. -/
theorem Section.read?_before {sect : Section} {address last : UInt32}
    (read : (sect.read? last).isSome) (above : sect.address.toNat ≤ address.toNat)
    (before : address.toNat ≤ last.toNat) : (sect.read? address).isSome := by
  unfold read? at read ⊢
  split at read
  next inside =>
    simp only [contains, Bool.and_eq_true, decide_eq_true_eq, UInt32.le_iff_toNat_le,
      UInt32.lt_iff_toNat_lt] at inside
    have here : sect.contains address := by
      simp only [contains, Bool.and_eq_true, decide_eq_true_eq, UInt32.le_iff_toNat_le,
        UInt32.lt_iff_toNat_lt]
      omega
    rw [if_pos here]
    rw [wordAt?_isSome] at read ⊢
    have lastOffset : sect.offset last = last.toNat - sect.address.toNat := toNat_sub inside.1
    have offset : sect.offset address = address.toNat - sect.address.toNat := toNat_sub above
    omega
  next => cases read

/-- Between an address and a later word of its section that can be read, the image can be read. -/
theorem Image.read?_between {image : Image}
    (apart : image.sections.Pairwise fun first second =>
      ∀ address, first.contains address → ¬ second.contains address)
    {sect : Section} {entry address last : UInt32} (found : image.sectionAt? entry = some sect)
    (below : last.toNat < sect.stop.toNat) (read : (image.read? last).isSome)
    (above : entry.toNat ≤ address.toNat) (before : address.toNat ≤ last.toNat) :
    (image.read? address).isSome := by
  have member := List.mem_of_find?_eq_some found
  have inside : sect.contains entry := by simpa using List.find?_some found
  simp only [Section.contains, Bool.and_eq_true, decide_eq_true_eq, UInt32.le_iff_toNat_le,
    UInt32.lt_iff_toNat_lt] at inside
  have within : ∀ other : UInt32, entry.toNat ≤ other.toNat → other.toNat ≤ last.toNat →
      image.sectionAt? other = some sect := by
    intro other after early
    apply sectionAt?_eq_of_apart apart member
    simp only [Section.contains, Bool.and_eq_true, decide_eq_true_eq, UInt32.le_iff_toNat_le,
      UInt32.lt_iff_toNat_lt]
    omega
  unfold read? at read ⊢
  rw [within last (by omega) (Nat.le_refl _)] at read
  rw [within address above before]
  exact Section.read?_before read (by omega) before

/-! ## Functions -/

namespace FunctionNode

theorem foldl_addBlock_stop {blocks : List Span} {node : FunctionNode}
    (discovered : node.authority = .discovered) :
    (blocks.foldl addBlock node).stop = node.stop ∨
      ∃ block ∈ blocks, (blocks.foldl addBlock node).stop = block.stop := by
  induction blocks generalizing node with
  | nil => exact Or.inl rfl
  | cons block rest ih =>
      rcases @ih (node.addBlock block) discovered with same | ⟨other, member, same⟩
      · by_cases further : block.stop > node.stop
        · have size : (node.addBlock block).size = block.stop - node.address :=
            if_pos ⟨discovered, further⟩
          have grown : (node.addBlock block).stop = block.stop := by
            rw [stop, size, UInt32.add_comm]
            exact UInt32.sub_add_cancel _ _
          exact Or.inr ⟨block, List.mem_cons_self, same.trans grown⟩
        · have size : (node.addBlock block).size = node.size := if_neg fun grows => further grows.2
          have kept : (node.addBlock block).stop = node.stop := by
            rw [stop, size]
            rfl
          exact Or.inl (same.trans kept)
      · exact Or.inr ⟨other, List.mem_cons_of_mem _ member, same⟩

theorem absorb_authority (scan : Scan) (node : FunctionNode) :
    (absorb scan node).authority = node.authority :=
  (absorb_frame (·.authority) (fun _ _ => rfl) (fun _ _ => rfl) (fun _ _ => rfl) scan node).trans
    (foldl_field (·.authority) addBlock (fun _ _ => rfl) scan.blocks node)

theorem absorb_stop {scan : Scan} {node : FunctionNode}
    (discovered : node.authority = .discovered) :
    (absorb scan node).stop = node.stop ∨
      ∃ block ∈ scan.blocks, (absorb scan node).stop = block.stop := by
  rw [absorb_frame (·.stop) (fun _ _ => rfl) (fun _ _ => rfl) (fun _ _ => rfl) scan node]
  exact foldl_addBlock_stop discovered

end FunctionNode

namespace Discovery

variable {program : Program} {state : Discovery}

theorem limitOf_le_stop {entry : UInt32} {sect : Section}
    (found : program.image.sectionAt? entry = some sect) :
    (state.limitOf program entry).toNat ≤ sect.stop.toNat := by
  unfold limitOf
  simp only [found]
  split
  · rw [toNat_min]
    omega
  · split
    · rw [toNat_min]
      omega
    · exact Nat.le_refl _

/-- As far as the blocks of its scan reach, a function is mapped. -/
theorem absorb_mapped (settled : state.Settled program)
    (apart : program.image.sections.Pairwise fun first second =>
      ∀ address, first.contains address → ¬ second.contains address)
    (node : FunctionNode) (among : node.address ∈ state.entries)
    (discovered : node.authority = .discovered) (unsized : node.size = 0) :
    program.image.Mapped node.address
      (FunctionNode.absorb (lastScan program state node.address) node).stop := by
  obtain ⟨sect, found, _⟩ := sectionAt?_of_isExecutable (settled.executable _ among)
  apply Image.mapped_iff.mpr
  intro address above below phase
  rcases @FunctionNode.absorb_stop (lastScan program state node.address) node discovered with
    empty | ⟨block, scanned, same⟩
  · rw [empty, FunctionNode.stop, unsized, UInt32.add_zero] at below
    omega
  · have word : aligned node.address := by
      by_contra odd
      rw [lastScan, program.scan_of_misaligned odd] at scanned
      cases scanned
    obtain ⟨last, lastWord, inside, read, ends⟩ := Program.scan_rests scanned
    have number := aligned_iff.mp word
    have lastNumber := aligned_iff.mp lastWord
    have before := (Window.contains_iff.mp inside).2
    have limit : (state.limitOf program node.address).toNat ≤ sect.stop.toNat :=
      limitOf_le_stop found
    rw [same] at below
    simp only at before
    exact Image.read?_between apart found (by omega) read above (by omega)

/-- The range of a function is mapped, if its configured extent is. -/
theorem toGraph_mapped (final : state.Final program) (valid : program.config.validate.valid)
    (apart : program.image.sections.Pairwise fun first second =>
      ∀ address, first.contains address → ¬ second.contains address)
    (mapped : ∀ entry ∈ program.config.functions, ∀ size ∈ entry.extent,
      program.image.Mapped entry.address (entry.address + size))
    {node : FunctionNode} (member : node ∈ (state.toGraph program).nodes) :
    program.image.Mapped node.address node.stop := by
  cases extent : program.config.extentAt node.address with
  | some size =>
      obtain ⟨entry, among, same, declared⟩ := Config.exists_of_extentAt extent
      rw [FunctionNode.stop, toGraph_size final valid member extent, ← same]
      exact mapped entry among size declared
  | none =>
      obtain ⟨among, content⟩ := toGraph_node final valid member
      rw [declaredAt_of_free extent] at content
      have stops := congrArg FunctionNode.stop content
      have stop : node.stop = (FunctionNode.absorb (lastScan program state node.address)
        { address := node.address, size := 0, authority := .discovered }).stop := stops
      rw [stop]
      exact absorb_mapped final.settled apart
        { address := node.address, size := 0, authority := .discovered } among rfl rfl

/-- The range of a function that was not given one is mapped, whatever the configuration says. -/
theorem toGraph_mapped_of_discovered (final : state.Final program)
    (apart : program.image.sections.Pairwise fun first second =>
      ∀ address, first.contains address → ¬ second.contains address)
    {node : FunctionNode} (member : node ∈ (state.toGraph program).nodes)
    (discovered : node.authority = .discovered) :
    program.image.Mapped node.address node.stop := by
  obtain ⟨among, blank, isBlank, content⟩ := toGraph_absorbs final member
  have stop := congrArg FunctionNode.stop content
  have address : node.address = blank.address :=
    (congrArg FunctionNode.address content).trans (FunctionNode.absorb_address _ blank)
  have undecided : blank.authority = .discovered := by
    rw [← discovered, ← FunctionNode.absorb_authority (lastScan program state node.address) blank]
    exact (congrArg FunctionNode.authority content).symm
  change node.stop = (FunctionNode.absorb _ blank).stop at stop
  rw [stop, address]
  exact absorb_mapped final.settled apart blank (address ▸ among) undecided
    (isBlank.size undecided)

end Discovery

end PowerLift
