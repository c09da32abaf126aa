import Mathlib
import PowerLift.Proofs.Assembly
import PowerLift.Proofs.StoredBytes
import PowerLift.Proofs.TableIndex

/-!
No word that reads as code is left out. In the end each one lies in a block, touches a
recognised table, or lies in a declared range, since the last sweep went by all others.
-/

namespace PowerLift

/-! ## Sections of words -/

/-- Sections of whole words that have no address in common and end before the last one. -/
structure Image.Regular (image : Image) : Prop where
  apart : image.sections.Pairwise fun first second =>
    ∀ address, first.contains address → ¬ second.contains address
  addressWord : ∀ sect ∈ image.sections, aligned sect.address
  sizeWord : ∀ sect ∈ image.sections, aligned sect.size
  ends : ∀ sect ∈ image.sections, sect.address.toNat + sect.size.toNat < 4294967296

/-- Of sections that have no address in common, the one that contains an address is found. -/
theorem Image.sectionAt?_eq_of_apart {image : Image}
    (apart : image.sections.Pairwise fun first second =>
      ∀ address, first.contains address → ¬ second.contains address)
    {sect : Section} (member : sect ∈ image.sections) {address : UInt32}
    (inside : sect.contains address) : image.sectionAt? address = some sect := by
  refine sectionAt?_eq_of_only member inside fun other otherMember otherInside => ?_
  by_contra different
  have symmetric : Std.Symm fun (one other : Section) =>
      ∀ address, one.contains address → ¬ other.contains address :=
    ⟨fun _ _ apart address other one => apart address one other⟩
  exact apart.forall otherMember member different address otherInside inside

namespace Image.Regular

variable {image : Image} {sect : Section} {address : UInt32}

theorem sectionAt?_eq (regular : image.Regular) (member : sect ∈ image.sections)
    (inside : sect.contains address) : image.sectionAt? address = some sect :=
  sectionAt?_eq_of_apart regular.apart member inside

theorem unread (regular : image.Regular) : image.read? Discovery.lastWord = none := by
  unfold Image.read?
  cases found : image.sectionAt? Discovery.lastWord with
  | none => rfl
  | some sect =>
      have member := List.mem_of_find?_eq_some found
      have inside : sect.contains Discovery.lastWord := by simpa using List.find?_some found
      have ends := regular.ends sect member
      have start := aligned_iff.mp (regular.addressWord sect member)
      have size := aligned_iff.mp (regular.sizeWord sect member)
      have bounds := (Section.contains_iff ends).mp inside
      change _ ∧ 4294967292 < _ at bounds
      omega

end Image.Regular

namespace Discovery

theorem toNat_wordAddress_of_ends {sect : Section}
    (ends : sect.address.toNat + sect.size.toNat < 4294967296) {index : Nat}
    (before : index < readableWords sect) :
    (wordAddress sect index).toNat = sect.address.toNat + 4 * index := by
  have within : index < sect.size.toNat / 4 := by
    unfold readableWords at before
    omega
  rw [wordAddress, UInt32.toNat_add, UInt32.toNat_ofNat']
  omega

theorem read?_wordAddress {sect : Section}
    (ends : sect.address.toNat + sect.size.toNat < 4294967296) {index : Nat}
    (before : index < readableWords sect) :
    ∃ word, sect.read? (wordAddress sect index) = some word := by
  have place := toNat_wordAddress_of_ends ends before
  unfold readableWords at before
  have inside : sect.contains (wordAddress sect index) :=
    (Section.contains_iff ends).mpr (by omega)
  have offset : sect.offset (wordAddress sect index) = 4 * index := by
    rw [Section.offset, toNat_sub (by omega)]
    omega
  apply Option.isSome_iff_exists.mp
  rw [Section.read?, if_pos inside, offset, Section.wordAt?_isSome]
  omega

/-- A stored word of a section has an index. -/
theorem exists_index {sect : Section}
    (ends : sect.address.toNat + sect.size.toNat < 4294967296) (start : aligned sect.address)
    (size : aligned sect.size) {address word : UInt32} (whole : aligned address)
    (read : sect.read? address = some word) :
    ∃ index, index < readableWords sect ∧ wordAddress sect index = address := by
  have inside := contains_of_read? read
  have bounds := (Section.contains_iff ends).mp inside
  have offset : sect.offset address = address.toNat - sect.address.toNat :=
    toNat_sub bounds.1
  have stored : sect.offset address + 3 < sect.data.size := by
    rw [Section.read?, if_pos inside] at read
    exact Section.wordAt?_isSome.mp (Option.isSome_iff_exists.mpr ⟨word, read⟩)
  have startNumber := aligned_iff.mp start
  have sizeNumber := aligned_iff.mp size
  have number := aligned_iff.mp whole
  have before : (address.toNat - sect.address.toNat) / 4 < readableWords sect := by
    unfold readableWords
    omega
  refine ⟨_, before, UInt32.toNat_inj.mp ?_⟩
  rw [toNat_wordAddress_of_ends ends before]
  omega

/-- A word that is counted as covered by a range shares a byte with it. -/
theorem WordRun.ofSpan_touches {sect : Section}
    (ends : sect.address.toNat + sect.size.toNat < 4294967296) {span : Span} {run : WordRun}
    (member : run ∈ WordRun.ofSpan sect span) {index : Nat} (inside : run.contains index)
    (before : index < readableWords sect) :
    span.start.toNat < (wordAddress sect index).toNat + 4 ∧
      (wordAddress sect index).toNat < span.stop.toNat := by
  have place := toNat_wordAddress_of_ends ends before
  have stop := Section.toNat_stop ends
  simp only [ofSpan] at member
  split at member
  next nonempty =>
    obtain rfl := List.mem_singleton.mp member
    simp only [contains, Bool.and_eq_true, decide_eq_true_eq] at inside
    rw [UInt32.lt_iff_toNat_lt] at nonempty
    -- The first word is the one that holds the start; the words are counted from the start itself.
    rw [toNat_sub (by rw [toNat_max]; omega), toNat_sub (by omega)] at inside
    rw [toNat_max, toNat_min] at nonempty inside
    omega
  next => cases member

/-! ## A sweep that finds nothing -/

theorem simplifiedOpcode_ne_unknown {insn : Instruction} (known : insn.opcode ≠ .unknown) :
    insn.simplifiedOpcode ≠ .unknown := by
  unfold Instruction.simplifiedOpcode
  split
  all_goals first
    | exact known
    | split <;> first | decide | (split <;> decide)

/-- A word that reads as code and not as padding or data. -/
structure CodeLike (config : Config) (address word : UInt32) : Prop where
  code : likelyData word = false
  operation : (Instruction.decode address word).opcode ≠ .nop
  unmarked : config.dataPattern word = none

theorem CodeLike.usable {program : Program} {address word : UInt32}
    (codeLike : CodeLike program.config address word)
    (read : program.image.read? address = some word) : program.Usable address := by
  have code := codeLike.code
  simp only [likelyData, Bool.or_eq_false_iff, beq_eq_false_iff_ne] at code
  have known : (Instruction.decode address word).opcode ≠ .unknown :=
    simplifiedOpcode_ne_unknown code.2
  exact ⟨_, Program.instruction?_eq_some.mpr
    ⟨word, read, codeLike.unmarked, rfl, beq_eq_false_iff_ne.mpr known⟩⟩

theorem dataRun_isData {config : Config} {sect : Section} {covered : List WordRun}
    {fuel index other : Nat} (reached : index ≤ other)
    (before : other < index + dataRun config sect covered fuel index) :
    isData config sect covered other := by
  induction fuel generalizing index with
  | zero =>
      rw [dataRun] at before
      omega
  | succ fuel ih =>
      rw [dataRun] at before
      split at before
      next data =>
        rcases Nat.eq_or_lt_of_le reached with rfl | after
        · exact data
        · exact ih (show index + 1 ≤ other from after) (by omega)
      next => omega

/-- No word that reads as code is skipped, if no pattern is longer than a word. -/
theorem skip?_not_codeLike {config : Config}
    (short : ∀ pattern ∈ config.dataPatterns, pattern.size ≤ 4) {sect : Section}
    {covered : List WordRun} {index count : Nat} {word : UInt32}
    (read : sect.read? (wordAddress sect index) = some word)
    (skipped : skip? config sect covered index word = some count) {other : Nat}
    {otherWord : UInt32} (reached : index ≤ other) (before : other < index + count)
    (otherRead : sect.read? (wordAddress sect other) = some otherWord) :
    ¬ CodeLike config (wordAddress sect other) otherWord := by
  intro codeLike
  have single : count = 1 → otherWord = word ∧ other = index := by
    rintro rfl
    obtain rfl : other = index := by omega
    exact ⟨Option.some.inj (otherRead.symm.trans read), rfl⟩
  unfold skip? at skipped
  split at skipped
  next padding =>
    obtain ⟨rfl, rfl⟩ := single (Option.some.inj skipped).symm
    rcases padding with rfl | nop
    · exact absurd codeLike.code (by decide)
    · exact codeLike.operation nop
  next =>
    cases marked : config.dataPattern word with
    | some pattern =>
        rw [marked] at skipped
        have size := UInt32.le_iff_toNat_le.mp (short pattern (List.mem_of_find?_eq_some marked))
        change pattern.size.toNat ≤ 4 at size
        obtain ⟨rfl, rfl⟩ := single (by have := Option.some.inj skipped; omega)
        have unmarked := codeLike.unmarked
        rw [marked] at unmarked
        cases unmarked
    | none =>
        simp only [marked] at skipped
        split at skipped
        next =>
          cases skipped
          have data := dataRun_isData reached before
          simp [isData, otherRead, codeLike.code, codeLike.unmarked] at data
        next => cases skipped

/-- A sweep that finds nothing has gone by every word that reads as code for a reason. -/
theorem Sweeps.complete {program : Program}
    (short : ∀ pattern ∈ program.config.dataPatterns, pattern.size ≤ 4) {sect : Section}
    (ends : sect.address.toNat + sect.size.toNat < 4294967296) {index found : Nat}
    {covered : List WordRun} {state : Discovery} {result : Discovery × Nat}
    (sweeps : Sweeps program sect index covered state found result) (nothing : result.2 = found)
    {other : Nat} (reached : index ≤ other) (before : other < readableWords sect) {word : UInt32}
    (read : sect.read? (wordAddress sect other) = some word)
    (codeLike : CodeLike program.config (wordAddress sect other) word) :
    isCovered covered other ∨ wordAddress sect other ∈ state.entries ∨
      admits program (wordAddress sect other) = false := by
  -- Along the sweep: state and covered words stay what they are until something is found.
  induction sweeps with
  | past done => omega
  | @unreadable index _ _ _ inside _ missing =>
      obtain ⟨stored, found⟩ := read?_wordAddress ends inside
      rw [missing] at found
      cases found
  | taken _ taken _ ih =>
      rcases Nat.eq_or_lt_of_le reached with rfl | after
      · exact Or.inl taken
      · exact ih nothing after
  | @skip index _ count _ _ _ _ _ _ indexRead skipped _ ih =>
      by_cases within : other < index + count
      · exact absurd codeLike (skip?_not_codeLike short indexRead skipped reached within read)
      · exact ih nothing (Nat.not_lt.mp within)
  | refused _ _ _ _ refused _ ih =>
      rcases Nat.eq_or_lt_of_le reached with rfl | after
      · exact Or.inr refused
      · exact ih nothing after
  | found _ _ _ _ _ _ onward _ =>
      have grown := onward.unchanged.1
      omega

theorem SweepsAll.each {program : Program} {sections : List Section}
    {acc result : Discovery × Nat} (sweeps : SweepsAll program sections acc result)
    (nothing : result.2 = acc.2) {sect : Section} (member : sect ∈ sections) :
    Sweeps program sect 0 (acc.1.coveredWords program.config sect) acc.1 acc.2 acc := by
  induction sweeps with
  | nil => cases member
  | @cons first rest acc middle result sweep others ih =>
      have grown := sweep.unchanged
      have later := others.unchanged
      have same : middle = acc := Prod.ext (grown.2 (by omega)) (by omega)
      subst same
      rcases List.mem_cons.mp member with rfl | among
      · exact sweep
      · exact ih nothing among

end Discovery

/-! ## Tables of branches -/

namespace JumpTable

/-- An address in the stored words of a table. -/
def Stores (table : JumpTable) (address : UInt32) : Prop :=
  ∃ base, table.base = some base ∧ base.toNat ≤ address.toNat ∧
    address.toNat < base.toNat + 4 * table.targets.length

/-- A word at an address that shares a byte with the stored words of a table. -/
def Touches (table : JumpTable) (address : UInt32) : Prop :=
  ∃ base, table.base = some base ∧ base.toNat < address.toNat + 4 ∧
    address.toNat < base.toNat + 4 * table.targets.length

end JumpTable

namespace Program

theorem searched_eq {program : Program} {window : Window} {site word : UInt32}
    (entryWord : aligned window.entry) (siteWord : aligned site)
    (read : program.image.read? site = some word) :
    ∃ before, program.searched window site = before ++ [Instruction.decode site word] := by
  have reach : (UInt32.ofNat (4 * TableIdiom.searchWindow)).toNat = 128 := rfl
  have entryNumber := aligned_iff.mp entryWord
  have siteNumber := aligned_iff.mp siteWord
  obtain ⟨start, startEq, startNumber⟩ : ∃ start : UInt32,
      max (if site < UInt32.ofNat (4 * TableIdiom.searchWindow) then 0
        else site - UInt32.ofNat (4 * TableIdiom.searchWindow)) window.entry = start ∧
      start.toNat % 4 = 0 := by
    refine ⟨_, rfl, ?_⟩
    rw [toNat_max]
    split
    · have zero : (0 : UInt32).toNat = 0 := rfl
      omega
    next far =>
      have room := UInt32.le_iff_toNat_le.mp (UInt32.not_lt.mp far)
      rw [toNat_sub room]
      omega
  have last : start + UInt32.ofNat (4 * ((site - start).toNat / 4)) = site := by
    -- Distances between words are multiples of four, also around the top of the address space.
    apply UInt32.toNat_inj.mp
    have limit := site.toNat_lt
    have startLimit := start.toNat_lt
    rw [UInt32.toNat_add, UInt32.toNat_ofNat', UInt32.toNat_sub]
    omega
  simp only [searched, startEq, List.range_succ, List.filterMap_append]
  refine ⟨_, congrArg _ ?_⟩
  simp only [List.filterMap_cons, List.filterMap_nil, last, read, Option.map_some]

/-- An accepted table belongs to its branch. One that is stored was recognised. -/
theorem acceptedTable?_address {program : Program} {window : Window} {site : UInt32}
    {insn : Instruction} {table : JumpTable} (entryWord : aligned window.entry)
    (siteWord : aligned site) (found : program.instruction? site = some insn)
    (accepted : program.acceptedTable? window insn = some table) :
    table.address = site ∧ (table.base ≠ none → table.source = .recognized) := by
  obtain ⟨word, read, _, rfl, _⟩ := instruction?_eq_some.mp found
  rw [acceptedTable?, Option.or_eq_some_iff] at accepted
  rcases accepted with configured | ⟨_, recognized⟩
  · obtain ⟨entry, _, validated⟩ := Option.bind_eq_some_iff.mp configured
    simp only at validated
    split at validated
    · cases validated
      exact ⟨rfl, fun stored => absurd rfl stored⟩
    · cases validated
  · split at recognized
    · cases recognized
    · unfold recognizedTable? at recognized
      split at recognized
      · obtain ⟨before, order⟩ := searched_eq entryWord siteWord read
        change TableIdiom.recognize? _ (program.searched window site) = _ at recognized
        obtain ⟨branch, body, _, _, reversed, _, address, source⟩ :=
          TableIdiom.recognize?_dispatch recognized
        rw [order, List.reverse_append] at reversed
        cases reversed
        exact ⟨address, fun _ => source⟩
      · cases recognized

end Program

namespace FunctionOverride

/-- An address in a declared range. -/
def Covers (owner : FunctionOverride) (address : UInt32) : Prop :=
  ∃ size, owner.extent = some size ∧ owner.address.toNat ≤ address.toNat ∧
    address.toNat < owner.address.toNat + size.toNat

end FunctionOverride

namespace Discovery

/-- A word lies in a block of a function, stands in the given relation to a recognised table of a
function, or lies in a declared range. -/
def Accounted (program : Program) (graph : Graph) (relates : JumpTable → UInt32 → Prop)
    (address : UInt32) : Prop :=
  (∃ node ∈ graph.nodes, ∃ block ∈ node.blocks, block.contains address) ∨
    (∃ node ∈ graph.nodes, ∃ table ∈ node.jumpTables,
      table.source = .recognized ∧ relates table address) ∨
    ∃ owner ∈ program.config.functions, owner.Covers address

section

variable {program : Program} {state : Discovery}

/-- The tables of a scan come from different branches, and so does each one in the graph. -/
theorem lastScan_tables (final : state.Final program) (valid : program.config.validate.valid)
    (bounded : ∀ window, program.Bounded window) {entry : UInt32}
    (member : entry ∈ state.entries) {table : JumpTable}
    (found : table ∈ (lastScan program state entry).jumpTables) :
    (lastScan program state entry).blocks ≠ [] ∧
      (table.base ≠ none → table.source = .recognized) ∧
      ∀ other ∈ (lastScan program state entry).jumpTables, other.address = table.address →
        other = table := by
  have origin : ∀ other ∈ (lastScan program state entry).jumpTables, ∃ insn,
      (lastScan program state entry).covers other.address ∧
      program.instruction? other.address = some insn ∧
      program.acceptedTable? { entry, limit := state.limitOf program entry } insn = some other ∧
      (other.base ≠ none → other.source = .recognized) := by
    intro other among
    obtain ⟨site, insn, siteWord, covered, decoded, accepted⟩ :=
      Program.scan_table (bounded _) among
    obtain ⟨address, source⟩ := Program.acceptedTable?_address (final.aligned valid member)
      siteWord decoded accepted
    rw [address]
    exact ⟨insn, covered, decoded, accepted, source⟩
  obtain ⟨insn, covered, decoded, accepted, source⟩ := origin table found
  obtain ⟨block, blockMember, _⟩ := Scan.covers_iff.mp covered
  refine ⟨List.ne_nil_of_mem blockMember, source, ?_⟩
  intro other among same
  obtain ⟨otherInsn, _, otherDecoded, otherAccepted, _⟩ := origin other among
  rw [same, decoded] at otherDecoded
  cases otherDecoded
  exact Option.some.inj (otherAccepted.symm.trans accepted)

/-- A covered word is accounted for by what covers it. -/
theorem accounted_of_covered (final : state.Final program)
    (valid : program.config.validate.valid) (bounded : ∀ window, program.Bounded window)
    {sect : Section} (ends : sect.address.toNat + sect.size.toNat < 4294967296) {index : Nat}
    (before : index < readableWords sect) (whole : aligned (wordAddress sect index))
    (covered : isCovered (state.coveredWords program.config sect) index) :
    Accounted program (state.toGraph program) JumpTable.Touches (wordAddress sect index) := by
  obtain ⟨run, runMember, inside⟩ := List.any_eq_true.mp covered
  obtain ⟨scanned, scannedMember, fromFootprint⟩ := List.mem_flatMap.mp runMember
  obtain ⟨span, spanMember, fromSpan⟩ := List.mem_flatMap.mp fromFootprint
  rw [final.settled.cached] at scannedMember
  obtain ⟨entry, entryMember, rfl⟩ := List.mem_map.mp scannedMember
  have touches := WordRun.ofSpan_touches ends fromSpan inside before
  have number := aligned_iff.mp whole
  have startNumber := aligned_iff.mp (final.aligned valid entryMember)
  simp only [footprint, List.mem_append] at spanMember
  rcases spanMember with (block | table) | declared
  · -- Blocks begin at words, so a word that shares a byte with one lies in it.
    have blockMember : span ∈ (lastScan program state entry).blocks := block
    obtain ⟨node, nodeMember, rfl⟩ :=
      exists_toGraph_node final valid entryMember (Or.inr (List.ne_nil_of_mem blockMember))
    refine Or.inl ⟨node, nodeMember, span, ?_, ?_⟩
    · rw [toGraph_blocks final valid bounded nodeMember]
      exact blockMember
    · have spanNumber := aligned_iff.mp (Program.scan_start_aligned blockMember)
      exact Span.contains_iff.mpr ⟨by omega, touches.2⟩
  · obtain ⟨stored, storedMember, spanOf⟩ := List.mem_filterMap.mp table
    obtain ⟨base, baseOf, rfl⟩ := Option.map_eq_some_iff.mp spanOf
    obtain ⟨filled, source, unique⟩ :=
      lastScan_tables final valid bounded entryMember storedMember
    obtain ⟨node, nodeMember, rfl⟩ := exists_toGraph_node final valid entryMember (Or.inr filled)
    refine Or.inr (Or.inl ⟨node, nodeMember, stored,
      toGraph_jumpTables final valid nodeMember storedMember unique,
      source (by simp [baseOf]), base, baseOf, touches.1, ?_⟩)
    -- The end of the table may pass the last address, and then is less than counted here.
    have beyond := touches.2
    simp only [UInt32.toNat_add, UInt32.toNat_ofNat'] at beyond
    omega
  · obtain ⟨size, extent, rfl⟩ := Option.map_eq_some_iff.mp (Option.mem_toList.mp declared)
    obtain ⟨owner, ownerMember, rfl, ownerExtent⟩ := Config.exists_of_extentAt extent
    refine Or.inr (Or.inr ⟨owner, ownerMember, size, ownerExtent, ?_⟩)
    simp only [toNat_saturatingAdd] at touches
    omega

/-- An entry that reads as code begins a block. -/
theorem accounted_of_entry (final : state.Final program) (valid : program.config.validate.valid)
    (bounded : ∀ window, program.Bounded window)
    (sized : ∀ entry ∈ program.config.functions, entry.extent ≠ some 0) {address : UInt32}
    (member : address ∈ state.entries) (usable : program.Usable address)
    (relates : JumpTable → UInt32 → Prop) :
    Accounted program (state.toGraph program) relates address := by
  have filled : program.config.extentAt address ≠ some 0 := by
    intro empty
    obtain ⟨entry, inConfig, _, extent⟩ := Config.exists_of_extentAt empty
    exact sized entry inConfig extent
  obtain ⟨block, blockMember, start⟩ := Program.scan_begins
    (final.lt_limitOf valid member filled) (bounded _) (final.aligned valid member) usable
  obtain ⟨node, nodeMember, here⟩ :=
    exists_toGraph_node final valid member (Or.inr (List.ne_nil_of_mem blockMember))
  refine Or.inl ⟨node, nodeMember, block, ?_, ?_⟩
  · rw [toGraph_blocks final valid bounded nodeMember, here]
    exact blockMember
  · have order := (Program.scan_block blockMember).2
    rw [start] at order
    exact Span.contains_iff.mpr ⟨by rw [start], order⟩

theorem accounted_of_claimed {graph : Graph} {address : UInt32}
    (claimed : Claimed program.config address) (relates : JumpTable → UInt32 → Prop) :
    Accounted program graph relates address := by
  obtain ⟨owner, inConfig, _, size, extent, after, inside⟩ := claimed
  refine Or.inr (Or.inr ⟨owner, inConfig, size, extent, ?_⟩)
  have order := UInt32.lt_iff_toNat_lt.mp after
  have below := UInt32.lt_iff_toNat_lt.mp inside
  rw [UInt32.toNat_add] at below
  omega

end

/-- Every word of an executable section that reads as code lies in a block, shares a byte with a
recognised table, or lies in a declared range. -/
theorem run_accounts {program : Program} (valid : program.config.validate.valid)
    (regular : program.image.Regular)
    (sized : ∀ entry ∈ program.config.functions, entry.extent ≠ some 0)
    (short : ∀ pattern ∈ program.config.dataPatterns, pattern.size ≤ 4)
    (hints : List UInt32) (tables : List VTable) :
    let graph :=
      (((seed program).addEntries program hints).addVTables program tables).run program
    ∀ sect ∈ program.image.executableSections, ∀ address word, sect.contains address →
      aligned address → program.image.read? address = some word →
      CodeLike program.config address word →
        Accounted program graph JumpTable.Touches address := by
  obtain ⟨state, final, same⟩ := run_final program hints tables
  rw [same]
  intro graph sect member address word inside whole read codeLike
  obtain ⟨inImage, executable⟩ := List.mem_filter.mp member
  have bounded := bounded_of_unread regular.unread
  have ends := regular.ends sect inImage
  have place := regular.sectionAt?_eq inImage inside
  have usable := codeLike.usable read
  have stored : sect.read? address = some word := by
    rw [Image.read?, place] at read
    exact read
  obtain ⟨index, before, rfl⟩ := exists_index ends (regular.addressWord sect inImage)
    (regular.sizeWord sect inImage) whole stored
  have sweeps := sweep_sweepsAll program state
  rw [final.settled.swept] at sweeps
  rcases (sweeps.each rfl member).complete short ends rfl (Nat.zero_le _) before stored
    codeLike with covered | entry | refused
  · exact accounted_of_covered final valid bounded ends before whole covered
  · exact accounted_of_entry final valid bounded sized entry usable _
  · have code : program.isCodeAddress (wordAddress sect index) := by
      simp [Program.isCodeAddress, whole, Image.isExecutable, place, executable]
    rcases admits_or_claimed code with admitted | claimed
    · rw [refused] at admitted
      cases admitted
    · exact accounted_of_claimed claimed _

/-! A branch through a table of one case that begins in the middle of a word. The sweep counts that
whole word as part of the table, so the instruction in it is never found. -/

def misalignedTable : Program where
  image := Image.ofCode 0x10000 #[0x28, 0x03, 0x00, 0x00, 0x3C, 0x80, 0x00, 0x01,
    0x38, 0x84, 0x00, 0x22, 0x54, 0x65, 0x10, 0x3A, 0x7C, 0xC4, 0x28, 0x2E, 0x7C, 0xC9, 0x03, 0xA6,
    0x4E, 0x80, 0x04, 0x20, 0x00, 0x00, 0x00, 0x00, 0x38, 0x60, 0x00, 0x01, 0x00, 0x00, 0x00, 0x00]
  config := {}

def misalignedScan : Scan :=
  { limit := 0x10028
    blocks := [{ start := 0x10000, stop := 0x1001C }]
    jumpTables := [{ address := 0x10018, base := some 0x10022, register := 3,
                     targets := [0x10000], source := .recognized }] }

def misalignedNode : FunctionNode :=
  { address := 0x10000, size := 28, authority := .discovered, blocks := misalignedScan.blocks,
    jumpTables := misalignedScan.jumpTables }

theorem misalignedTable_scan : misalignedTable.scan 0x10000 0x10028 = misalignedScan := by
  have explored :
      (Exploration.run misalignedTable { entry := 0x10000, limit := 0x10028 }
        (Program.scanFuel { entry := 0x10000, limit := 0x10028 })
        (Exploration.start { entry := 0x10000, limit := 0x10028 })).scan = misalignedScan ∧
      (Exploration.run misalignedTable { entry := 0x10000, limit := 0x10028 }
        (Program.scanFuel { entry := 0x10000, limit := 0x10028 })
        (Exploration.start { entry := 0x10000, limit := 0x10028 })).splits = [0x10000] := by
    decide +kernel
  rw [Exploration.scan_eq_result (by decide), Exploration.result, explored.1, explored.2]
  simp [misalignedScan, Scan.splitBlocks, Scan.cutAt]

theorem misalignedTable_discover :
    misalignedTable.discover [] = { nodes := [misalignedNode] } := by
  change (seed misalignedTable).run misalignedTable = _
  rw [run_single rfl rfl misalignedTable_scan (List.forall_mem_nil _)]
  · decide
  · rfl

theorem misalignedTable_valid : misalignedTable.config.validate.valid := by
  have ranges := Config.ranges_of_sorted (show (Config.firstPerAddress
    misalignedTable.config.functions).Pairwise _ by decide)
  rw [Config.validate, Report.valid, Config.errors, ranges]
  decide

theorem misalignedTable_regular : misalignedTable.image.Regular where
  apart := List.pairwise_singleton _ _
  addressWord := by decide
  sizeWord := by decide
  ends := by decide

theorem misalignedTable_codeLike :
    CodeLike misalignedTable.config 0x10020 0x38600001 :=
  ⟨by decide +kernel, by decide +kernel, rfl⟩

/-- The word is accounted for only because it touches the table. -/
theorem misalignedTable_accounts :
    misalignedTable.image.read? 0x10020 = some 0x38600001 ∧
      Accounted misalignedTable (misalignedTable.discover []) JumpTable.Touches 0x10020 := by
  have read : misalignedTable.image.read? 0x10020 = some 0x38600001 := by decide
  refine ⟨read, ?_⟩
  exact run_accounts misalignedTable_valid misalignedTable_regular (by decide) (by decide) [] []
    _ (List.mem_singleton_self _) 0x10020 0x38600001 (by decide) (by decide) read
    misalignedTable_codeLike

/-- It does not lie in the stored words of the table, nor in anything else. -/
theorem misalignedTable_omits :
    misalignedTable.config.validate.valid ∧ misalignedTable.image.Regular ∧
      misalignedTable.image.isExecutable 0x10020 ∧ aligned 0x10020 ∧
      misalignedTable.image.read? 0x10020 = some 0x38600001 ∧
      CodeLike misalignedTable.config 0x10020 0x38600001 ∧
      ¬ Accounted misalignedTable (misalignedTable.discover []) JumpTable.Stores 0x10020 := by
  refine ⟨misalignedTable_valid, misalignedTable_regular, by decide, by decide, by decide,
    misalignedTable_codeLike, ?_⟩
  rw [misalignedTable_discover]
  rintro (⟨node, member, block, among, inside⟩ |
    ⟨node, member, table, among, _, base, stored, above, _⟩ | ⟨owner, inConfig, _⟩)
  · obtain rfl := List.mem_singleton.mp member
    obtain rfl := List.mem_singleton.mp among
    exact absurd inside (by decide)
  · obtain rfl := List.mem_singleton.mp member
    obtain rfl := List.mem_singleton.mp among
    cases stored
    exact absurd above (by decide)
  · cases inConfig

end Discovery

end PowerLift
