import Mathlib
import PowerLift.Discovery.Marks
import PowerLift.Proofs.Extents

/-!
Which marks a discovery uses. Those of a scan are in their table unless control goes on past the
last word of all, and those of a sweep unless something that is taken up reaches into a word that
the end of a section cuts off.
-/

namespace PowerLift

namespace MarkUse

/-- The table has every mark that is used. -/
def InRange (use : MarkUse) : Prop :=
  ∀ index, use.first ≤ index → index < use.first + use.count → index < use.table.size

theorem inRange_iff {use : MarkUse} : use.inRange ↔ use.InRange := by
  simp only [inRange, Bool.or_eq_true, beq_iff_eq, decide_eq_true_eq]
  constructor
  · rintro (none | fits) index after before <;> omega
  · intro each
    by_cases none : use.count = 0
    · exact Or.inl none
    · have last := each (use.first + use.count - 1) (by omega) (by omega)
      exact Or.inr (by omega)

end MarkUse

/-! ## Scans -/

theorem Window.mark_inRange {window : Window} {address : UInt32}
    (inside : window.contains address) : (window.mark address).InRange := by
  obtain ⟨above, below⟩ := contains_iff.mp inside
  intro index _ before
  simp only [mark] at before
  simp only [mark, MarkTable.size, wordCount]
  rw [toNat_sub above] at before
  rw [toNat_sub (by omega)]
  omega

namespace Program

/-- Where control goes on after an instruction of the window, there is a next address. -/
def Continues (program : Program) (window : Window) : Prop :=
  ∀ address insn, aligned address → window.contains address →
    program.instruction? address = some insn → insn.endsBlock = false →
      address.toNat + 4 < UInt32.size

variable {program : Program} {window : Window} {use : MarkUse}

theorem mem_walkMarks (continues : program.Continues window) (scan : Scan) (extent : UInt32)
    (fuel : Nat) (address : UInt32) (word : aligned address)
    (above : window.entry.toNat ≤ address.toNat)
    (member : use ∈ program.walkMarks window scan extent fuel address) :
    ∃ seen, window.contains seen ∧ use = window.mark seen := by
  induction fuel generalizing address with
  | zero => cases member
  | succ fuel ih =>
      rw [walkMarks] at member
      split at member
      next => cases member
      next before =>
        have inside : window.contains address :=
          Window.contains_iff.mpr ⟨above, UInt32.lt_iff_toNat_lt.mp (UInt32.not_le.mp before)⟩
        rcases List.mem_cons.mp member with rfl | later
        · exact ⟨address, inside, rfl⟩
        · split at later
          next => cases later
          next =>
            split at later
            next => cases later
            next insn found =>
              rw [step_stops] at later
              split at later
              next => cases later
              next ends =>
                have next := toNat_add_four
                  (continues address insn word inside found (by simpa using ends))
                exact ih (address + 4) (aligned_next word next) (by omega) later

end Program

namespace Exploration

variable {program : Program} {window : Window} {use : MarkUse}

theorem mem_visitMarks (continues : program.Continues window) {state : Exploration}
    {start : UInt32} (member : use ∈ visitMarks program window state start) :
    ∃ seen, window.contains seen ∧ use = window.mark seen := by
  rw [visitMarks] at member
  split at member
  next => cases member
  next looked =>
    simp only [Bool.or_eq_true, Bool.not_eq_true', not_or, Bool.not_eq_false] at looked
    rcases List.mem_cons.mp member with rfl | later
    · exact ⟨start, looked.1, rfl⟩
    · split at later
      next => cases later
      next =>
        exact Program.mem_walkMarks continues _ _ _ start looked.2
          (Window.contains_iff.mp looked.1).1 later

theorem mem_runMarks (continues : program.Continues window) {fuel : Nat} {state : Exploration}
    (member : use ∈ runMarks program window fuel state) :
    ∃ seen, window.contains seen ∧ use = window.mark seen := by
  induction fuel generalizing state with
  | zero => cases member
  | succ fuel ih =>
      rw [runMarks] at member
      split at member
      next => cases member
      next =>
        rcases List.mem_append.mp member with first | later
        · exact mem_visitMarks continues first
        · exact ih later

end Exploration

/-- The words that a scan marks are those of its window. -/
theorem Program.mem_scanMarks {program : Program} {entry limit : UInt32} {use : MarkUse}
    (continues : program.Continues { entry, limit })
    (member : use ∈ program.scanMarks entry limit) :
    ∃ seen, Window.contains { entry, limit } seen ∧ use = Window.mark { entry, limit } seen := by
  rw [scanMarks] at member
  split at member
  · cases member
  · exact Exploration.mem_runMarks continues member

namespace Image

/-- The last word of all is an instruction after which control goes on. -/
def RunsOut (image : Image) : Prop :=
  ∃ word, image.read? Discovery.lastWord = some word ∧
    (Instruction.decode Discovery.lastWord word).isUnknown = false ∧
    (Instruction.decode Discovery.lastWord word).endsBlock = false

/-- Executable sections end with a whole word, and before the last word of all. -/
def WholeWords (image : Image) : Prop :=
  ∀ sect ∈ image.executableSections,
    sect.size.toNat % 4 = 0 ∧ sect.stop.toNat ≤ Discovery.lastWord.toNat

/-- No section that stores at most its size reaches past the last word. -/
theorem not_runsOut_of_stored {image : Image}
    (stored : ∀ sect ∈ image.sections, sect.data.size ≤ sect.size.toNat) :
    ¬ image.RunsOut := by
  rintro ⟨word, read, _⟩
  obtain ⟨sect, found, read⟩ := Option.bind_eq_some_iff.mp read
  obtain ⟨inside, place⟩ := Section.read?_eq_some.mp read
  have ends := Section.ends_of_contains inside
  have fits := stored sect (List.mem_of_find?_eq_some found)
  have whole := Section.wordAt?_lt place
  rw [Section.offset_eq inside] at whole
  have number : Discovery.lastWord.toNat = 4294967292 := rfl
  omega

end Image

theorem Program.continues_of_not_runsOut {program : Program} (ends : ¬ program.image.RunsOut)
    (window : Window) : program.Continues window := by
  intro address insn word _ found goesOn
  by_contra wraps
  obtain rfl := Discovery.eq_lastWord word wraps
  obtain ⟨raw, read, _, rfl, known⟩ := instruction?_eq_some.mp found
  exact ends ⟨raw, read, known, goesOn⟩

theorem Program.continues_of_limit (program : Program) {window : Window}
    (limited : window.limit.toNat ≤ Discovery.lastWord.toNat) : program.Continues window := by
  intro address insn _ inside _ _
  have before := (Window.contains_iff.mp inside).2
  change window.limit.toNat ≤ 4294967292 at limited
  change address.toNat + 4 < 4294967296
  omega

namespace Discovery

variable {program : Program} {state : Discovery} {sect : Section} {use : MarkUse}

/-! ## Sections -/

theorem lookMarks_inRange (sect : Section) (index : Nat) : (lookMarks sect index).InRange := by
  intro other after before
  simp only [lookMarks, MarkTable.size] at after before ⊢
  omega

theorem spanMarks_table {span : Span} (member : use ∈ spanMarks sect span) :
    use.table = .taken sect := by
  simp only [spanMarks] at member
  split at member
  · rw [List.mem_singleton.mp member]
  · cases member

/-- Where the end of a section cuts no word off, every range can be marked. -/
theorem spanMarks_inRange (whole : sect.size.toNat % 4 = 0)
    (ends : sect.stop.toNat ≤ lastWord.toNat) {span : Span} (member : use ∈ spanMarks sect span) :
    use.InRange := by
  simp only [spanMarks] at member
  split at member
  next nonempty =>
    obtain rfl := List.mem_singleton.mp member
    rw [UInt32.lt_iff_toNat_lt, toNat_max, toNat_min] at nonempty
    change sect.stop.toNat ≤ 4294967292 at ends
    have inside : sect.address.toNat + sect.size.toNat < 4294967296 := by
      by_contra wraps
      have stop : sect.stop.toNat = (sect.address.toNat + sect.size.toNat) % 4294967296 :=
        UInt32.toNat_add _ _
      have size := sect.size.toNat_lt
      have start := sect.address.toNat_lt
      omega
    have stop := Section.toNat_stop inside
    intro index _ before
    simp only [MarkTable.size] at before ⊢
    rw [toNat_sub (by rw [toNat_max]; omega), toNat_sub (by rw [toNat_max, toNat_min]; omega),
      toNat_max, toNat_min] at before
    change index < _ + if 4294967296 ≤ _ then _ else _ at before
    split at before <;> omega
  next => cases member

/-! ## The uses of a run -/

/-- Where a use of marks comes from. -/
inductive Uses (program : Program) : MarkUse → Prop
  /-- The scan of a function, which ends with its section. -/
  | scan {use : MarkUse} {entry limit : UInt32} {sect : Section}
      (found : program.image.sectionAt? entry = some sect) (executable : sect.executable)
      (limited : limit.toNat ≤ sect.stop.toNat) (member : use ∈ program.scanMarks entry limit) :
      Uses program use
  /-- A range that is taken up. -/
  | span {use : MarkUse} {sect : Section} (executable : sect ∈ program.image.executableSections)
      (span : Span) (member : use ∈ spanMarks sect span) : Uses program use
  /-- A word that the sweep comes to. -/
  | look {sect : Section} (executable : sect ∈ program.image.executableSections) (index : Nat) :
      Uses program (lookMarks sect index)

theorem uses_scan {entry : UInt32} (executable : program.image.isExecutable entry)
    (member : use ∈ program.scanMarks entry (state.limitOf program entry)) :
    Uses program use := by
  obtain ⟨sect, found, _⟩ := sectionAt?_of_isExecutable executable
  rw [Image.isExecutable, found] at executable
  exact .scan found executable (limitOf_le_stop found) member

theorem uses_passMarks (coherent : state.Coherent program)
    (member : use ∈ state.passMarks program) : Uses program use := by
  obtain ⟨entry, among, member⟩ := List.mem_flatMap.mp member
  have executable := coherent.executable entry among
  simp only [rescanMarks] at member
  split at member
  next =>
    split at member
    next => cases member
    next => exact uses_scan executable member
  next => exact uses_scan executable member

theorem uses_passesMarks (coherent : state.Coherent program) {fuel : Nat}
    (member : use ∈ state.passesMarks program fuel) : Uses program use := by
  induction fuel generalizing state with
  | zero => cases member
  | succ fuel ih =>
      simp only [passesMarks] at member
      rcases List.mem_append.mp member with first | later
      · exact uses_passMarks coherent first
      · split at later
        next => cases later
        next => exact ih coherent.pass later

theorem uses_coverMarks (executable : sect ∈ program.image.executableSections)
    (member : use ∈ state.coverMarks program.config sect) : Uses program use := by
  obtain ⟨_, _, member⟩ := List.mem_flatMap.mp member
  obtain ⟨span, _, member⟩ := List.mem_flatMap.mp member
  exact .span executable span member

theorem uses_sweepFromMarks (executable : sect ∈ program.image.executableSections)
    {fuel index : Nat} {covered : List WordRun}
    (member : use ∈ sweepFromMarks program sect fuel index covered state) :
    Uses program use := by
  induction fuel generalizing index covered state with
  | zero => cases member
  | succ fuel ih =>
      simp only [sweepFromMarks] at member
      rcases List.mem_cons.mp member with rfl | later
      · exact .look executable index
      · split at later
        next => cases later
        next =>
          split at later
          next => exact ih later
          next =>
            split at later
            next => cases later
            next =>
              split at later
              next => exact ih later
              next =>
                split at later
                next => exact ih later
                next accepted =>
                  simp only [Bool.or_eq_true, Bool.not_eq_true', not_or, Bool.not_eq_false]
                    at accepted
                  rcases List.mem_append.mp later with here | onward
                  · rcases List.mem_append.mp here with scanned | marked
                    · exact uses_scan (executable_of_admits accepted.2) scanned
                    · exact .span executable _ marked
                  · exact ih onward

theorem uses_sweepMarks {sections : List Section}
    (executable : ∀ sect ∈ sections, sect ∈ program.image.executableSections)
    {acc : Discovery × Nat} (member : use ∈ sweepMarks program sections acc) :
    Uses program use := by
  induction sections generalizing acc with
  | nil => cases member
  | cons sect rest ih =>
      obtain ⟨here, others⟩ := List.forall_mem_cons.mp executable
      rw [sweepMarks, List.mem_append, List.mem_append] at member
      rcases member with (covered | looked) | later
      · exact uses_coverMarks here covered
      · exact uses_sweepFromMarks here looked
      · exact ih others later

theorem uses_roundsMarks (coherent : state.Coherent program) {fuel : Nat}
    (member : use ∈ state.roundsMarks program fuel) : Uses program use := by
  induction fuel generalizing state with
  | zero => cases member
  | succ fuel ih =>
      have passes := coherent.passes_passes (roundFuel program) (by omega)
      have passed := (passes.settled coherent).1
      simp only [roundsMarks, List.mem_append] at member
      rcases member with (first | swept) | later
      · exact uses_passesMarks coherent first
      · exact uses_sweepMarks (fun _ among => among) swept
      · split at later
        next => cases later
        next => exact ih ((sweep_sweepsAll program _).coherent passed) later

theorem Uses.seen_inRange (uses : Uses program use) (ends : ¬ program.image.RunsOut)
    {window : Window} (seen : use.table = .seen window) : use.InRange := by
  cases uses with
  | scan _ _ _ member =>
      obtain ⟨address, inside, rfl⟩ :=
        Program.mem_scanMarks (Program.continues_of_not_runsOut ends _) member
      exact Window.mark_inRange inside
  | span _ span member =>
      rw [spanMarks_table member] at seen
      cases seen
  | look => cases seen

theorem Uses.inRange (uses : Uses program use) (whole : program.image.WholeWords) :
    use.InRange := by
  cases uses with
  | @scan _ _ _ sect found executable limited member =>
      have among : sect ∈ program.image.executableSections :=
        List.mem_filter.mpr ⟨List.mem_of_find?_eq_some found, executable⟩
      have ends := limited.trans (whole sect among).2
      obtain ⟨address, inside, rfl⟩ :=
        Program.mem_scanMarks (Program.continues_of_limit program ends) member
      exact Window.mark_inRange inside
  | span executable span member =>
      exact spanMarks_inRange (whole _ executable).1 (whole _ executable).2 member
  | look => exact lookMarks_inRange _ _

/-! ## Where a discovery begins -/

/-- All that is known before the first pass. -/
def hinted (program : Program) (hints : List UInt32) (tables : List VTable) : Discovery :=
  ((seed program).addEntries program hints).addVTables program tables

theorem hinted_coherent (program : Program) (hints : List UInt32) (tables : List VTable) :
    (hinted program hints tables).Coherent program :=
  ((seed_coherent program).addEntries hints).addEntries _

theorem mem_hinted_of_declares {hints : List UInt32} {tables : List VTable} {address : UInt32}
    (declared : program.config.Declares address)
    (executable : program.image.isExecutable address) :
    address ∈ (hinted program hints tables).entries := by
  have configured := configured_functions program
  have extended := ((extends_seed program).trans (extends_addEntries program hints _)).trans
    (extends_addEntries program (tables.flatMap (·.slots)) _)
  exact extended.kept ((configured.mem_entries address).mpr ⟨executable, declared⟩)

theorem mem_hinted_of_hint {hints : List UInt32} {tables : List VTable} {address : UInt32}
    (hint : address ∈ hints) (admitted : admits program address) :
    address ∈ (hinted program hints tables).entries := by
  obtain ⟨before, after, rfl⟩ := List.append_of_mem hint
  refine (extends_addEntries program _ _).kept ?_
  rw [addEntries, List.foldl_append, List.foldl_cons]
  refine (extends_addEntries program after _).kept ?_
  exact mem_addEntry.mpr (Or.inr ⟨rfl, admitted⟩)

theorem addEntries_scans (program : Program) (addresses : List UInt32) (state : Discovery) :
    (state.addEntries program addresses).scans = state.scans := by
  induction addresses generalizing state with
  | nil => rfl
  | cons address rest ih =>
      refine (ih _).trans ?_
      unfold addEntry
      split <;> rfl

theorem hinted_scans (program : Program) (hints : List UInt32) (tables : List VTable) :
    (hinted program hints tables).scans = [] := by
  have named : ∀ (symbols : List Symbol) (state : Discovery),
      (symbols.foldl (addSymbol program) state).scans = state.scans := by
    intro symbols
    induction symbols with
    | nil => exact fun _ => rfl
    | cons symbol rest ih =>
        intro state
        refine (ih _).trans ?_
        unfold addSymbol addEntry
        split
        · simp only
          split <;> rfl
        · rfl
  rw [hinted, addVTables, addEntries_scans, addEntries_scans, seed, addEntries_scans, named]
  exact (addEntries_scans program [program.image.entry] _).trans
    (configured_functions program).scans

/-! ## Past the last word -/

theorem mark_zero_not_inRange {limit : UInt32} (beyond : lastWord < limit) :
    ¬ (Window.mark { entry := lastWord, limit } 0).InRange := by
  intro inRange
  have index : (Window.mark { entry := lastWord, limit } 0).first = 1 := by
    change (0 - lastWord).toNat / 4 = 1
    decide
  have last := inRange 1 (by omega) (by rw [index]; exact Nat.lt_succ_self 1)
  rw [UInt32.lt_iff_toNat_lt] at beyond
  simp only [Window.mark, MarkTable.size, Window.wordCount] at last
  rw [toNat_sub (by omega)] at last
  change 4294967292 < limit.toNat at beyond
  change 1 < (limit.toNat - 4294967292 + 3) / 4 at last
  have top := limit.toNat_lt
  omega

/-- A scan begins with the walk from its entry. -/
theorem walkMarks_subset_scanMarks {entry limit : UInt32} (nonempty : entry < limit)
    (word : aligned entry) :
    program.walkMarks { entry, limit } { limit } entry
      (Window.wordCount { entry, limit } + 1) entry ⊆ program.scanMarks entry limit := by
  have inside : Window.contains { entry, limit } entry :=
    Window.contains_iff.mpr ⟨Nat.le_refl _, UInt32.lt_iff_toNat_lt.mp nonempty⟩
  have fuel : Program.scanFuel { entry, limit } ≠ 0 := by
    unfold Program.scanFuel
    positivity
  obtain ⟨rest, fuel⟩ := Nat.exists_eq_succ_of_ne_zero fuel
  intro use member
  rw [Program.scanMarks, if_neg (UInt32.not_le.mpr nonempty)]
  simp only [fuel, Exploration.runMarks]
  refine List.mem_append_left _ ?_
  rw [Exploration.visitMarks, if_neg (by simp [inside, word]), if_neg (by simp [Scan.covers])]
  exact List.mem_cons_of_mem _ member

/-- After the last word of all a scan goes on with the first. -/
theorem mark_zero_mem_scanMarks {limit : UInt32} {insn : Instruction}
    (beyond : lastWord < limit) (found : program.instruction? lastWord = some insn)
    (goesOn : insn.endsBlock = false) :
    Window.mark { entry := lastWord, limit } 0 ∈ program.scanMarks lastWord limit := by
  have number : lastWord.toNat < limit.toNat := UInt32.lt_iff_toNat_lt.mp beyond
  have positive : ¬ limit ≤ 0 :=
    UInt32.not_le.mpr (UInt32.lt_iff_toNat_lt.mpr (Nat.zero_lt_of_lt number))
  have words : Window.wordCount { entry := lastWord, limit } ≠ 0 := by
    rw [Window.wordCount, toNat_sub (Nat.le_of_lt number)]
    omega
  obtain ⟨rest, words⟩ := Nat.exists_eq_succ_of_ne_zero words
  have next : lastWord + 4 = 0 := by decide
  refine walkMarks_subset_scanMarks beyond (by decide) ?_
  rw [words, Program.walkMarks, if_neg (UInt32.not_le.mpr beyond), if_neg (by simp [Scan.covers]),
    found]
  simp only [Program.step_stops, goesOn, Bool.false_eq_true, if_false, next]
  rw [Program.walkMarks, if_neg positive]
  exact List.mem_cons_of_mem _ List.mem_cons_self

theorem passMarks_subset_runMarks (program : Program) (state : Discovery) :
    state.passMarks program ⊆ state.runMarks program := by
  intro use member
  obtain ⟨rest, fuel⟩ : ∃ rest, roundFuel program = rest + 1 := ⟨_, rfl⟩
  rw [runMarks, fuel, roundsMarks, fuel, passesMarks]
  exact List.mem_append_left _ (List.mem_append_left _ (List.mem_append_left _ member))

theorem Coherent.lt_limitOf (coherent : state.Coherent program) {entry : UInt32}
    (free : program.config.extentAt entry = none)
    (executable : program.image.isExecutable entry) : entry < state.limitOf program entry := by
  obtain ⟨sect, place, inside⟩ := sectionAt?_of_isExecutable executable
  have ends := Section.ends_of_contains inside
  have before := ((Section.contains_iff ends).mp inside).2
  rw [← Section.toNat_stop ends] at before
  rw [UInt32.lt_iff_toNat_lt, limitOf]
  simp only [place, free]
  split
  next next follows =>
    have after := (AddressSet.next?_eq_some coherent.boundariesSorted follows).2.1
    rw [UInt32.lt_iff_toNat_lt] at after
    rw [toNat_min]
    omega
  next => exact before

/-- A hint at the last word of all, if control goes on there, leads past the words of a scan. -/
theorem exists_seen_not_inRange {image : Image} (runsOut : image.RunsOut)
    (executable : image.isExecutable lastWord) {hints : List UInt32} (hint : lastWord ∈ hints)
    (tables : List VTable) :
    ∃ window, ∃ use ∈ (hinted { image, config := {} } hints tables).runMarks
      { image, config := {} }, use.table = .seen window ∧ ¬ use.InRange := by
  obtain ⟨word, read, known, goesOn⟩ := runsOut
  have found : Program.instruction? { image, config := {} } lastWord =
      some (Instruction.decode lastWord word) :=
    Program.instruction?_eq_some.mpr ⟨word, read, rfl, rfl, known⟩
  have admitted : admits { image, config := {} } lastWord := by
    simp only [admits, Program.isCodeAddress, executable, Bool.and_true]
    rfl
  have beyond := (hinted_coherent { image, config := {} } hints tables).lt_limitOf rfl executable
  refine ⟨_, _, passMarks_subset_runMarks _ _ (List.mem_flatMap.mpr
    ⟨lastWord, mem_hinted_of_hint hint admitted, ?_⟩), rfl, mark_zero_not_inRange beyond⟩
  rw [rescanMarks, hinted_scans]
  exact mark_zero_mem_scanMarks beyond found goesOn

/-! ## Words that are cut off -/

theorem Sweeps.scans_subset {index found : Nat} {covered : List WordRun} {result : Discovery × Nat}
    (sweeps : Sweeps program sect index covered state found result) :
    state.scans ⊆ result.1.scans := by
  induction sweeps with
  | past | unreadable => exact List.Subset.refl _
  | taken _ _ _ ih | skip _ _ _ _ _ ih | refused _ _ _ _ _ _ ih => exact ih
  | @found index _ _ state _ _ _ _ _ _ _ _ _ ih =>
      intro scanned member
      refine ih (List.mem_append_left _ ?_)
      rw [show (state.addEntry program (wordAddress sect index)).scans = state.scans from
        addEntries_scans program [_] state]
      exact member

/-- What a scan takes up is marked in every section. -/
theorem mem_sweepMarks {sections : List Section} (among : sect ∈ sections)
    {acc : Discovery × Nat} {entry : UInt32} {scan : Scan} (known : (entry, scan) ∈ acc.1.scans)
    {span : Span} (takes : span ∈ footprint program.config entry scan)
    (member : use ∈ spanMarks sect span) : use ∈ sweepMarks program sections acc := by
  induction sections generalizing acc with
  | nil => cases among
  | cons first rest ih =>
      rw [sweepMarks, List.mem_append, List.mem_append]
      rcases List.mem_cons.mp among with rfl | later
      · exact Or.inl (Or.inl (List.mem_flatMap.mpr
          ⟨_, known, List.mem_flatMap.mpr ⟨span, takes, member⟩⟩))
      · have swept := foldl_sweepSection program [first] acc
        refine Or.inr (ih later ?_)
        cases swept with
        | cons sweeps others =>
            cases others
            exact sweeps.scans_subset known

/-- The range that the configuration gives for an entry is marked in every executable section. -/
theorem configured_mem_runMarks (coherent : state.Coherent program) {entry size : UInt32}
    (among : entry ∈ state.entries) (extent : program.config.extentAt entry = some size)
    (executable : sect ∈ program.image.executableSections)
    (member : use ∈ spanMarks sect { start := entry, stop := saturatingAdd entry size }) :
    use ∈ state.runMarks program := by
  obtain ⟨rest, fuel⟩ : ∃ rest, roundFuel program = rest + 1 := ⟨_, rfl⟩
  have passes := coherent.passes_passes (roundFuel program) (by omega)
  have current := (passes.settled coherent).2.1
  obtain ⟨scan, known⟩ :
      ∃ scan, (entry, scan) ∈ (state.passes program (roundFuel program)).scans := by
    rw [current.scans]
    exact ⟨_, List.mem_map_of_mem (passes.extends.kept among)⟩
  rw [runMarks, fuel, roundsMarks]
  refine List.mem_append_left _ (List.mem_append_right _ ?_)
  refine mem_sweepMarks executable known ?_ member
  simp [footprint, extent]

/-- The word at an address of the section has no mark, or is the last of all, so that marking it
goes on with one that is not there. -/
def Unmarked (sect : Section) (address : UInt32) : Prop :=
  sect.contains address ∧
    (sect.size.toNat / 4 ≤ sect.offset address / 4 ∨ address = lastWord)

theorem Unmarked.exists_not_inRange {address stop : UInt32} (unmarked : Unmarked sect address)
    (after : address < stop) :
    ∃ use ∈ spanMarks sect { start := address, stop }, ¬ use.InRange := by
  obtain ⟨inside, past⟩ := unmarked
  have ends := Section.ends_of_contains inside
  have bounds := (Section.contains_iff ends).mp inside
  have last := Section.toNat_stop ends
  have start : max address sect.address = address := by
    apply UInt32.toNat_inj.mp
    rw [toNat_max]
    omega
  rw [UInt32.lt_iff_toNat_lt] at after
  rw [Section.offset_eq inside] at past
  simp only [spanMarks, start]
  rw [if_pos (by rw [UInt32.lt_iff_toNat_lt, toNat_min]; omega)]
  refine ⟨_, List.mem_singleton_self _, ?_⟩
  intro inRange
  simp only [MarkUse.InRange, MarkTable.size] at inRange
  rw [toNat_sub bounds.1, toNat_sub (by rw [toNat_min]; omega), toNat_min] at inRange
  change ∀ index, _ → index < _ + (if 4294967296 ≤ _ then _ else _) → _ at inRange
  rcases past with none | rfl
  · have first := inRange ((address.toNat - sect.address.toNat) / 4) (Nat.le_refl _)
      (by split <;> omega)
    omega
  · have number : lastWord.toNat = 4294967292 := rfl
    have second := inRange ((lastWord.toNat - sect.address.toNat) / 4 + 1) (Nat.le_succ _)
      (by rw [if_pos (by omega)]; omega)
    omega

end Discovery

namespace Config

/-- One function that begins at an address. -/
def declaring (address size : UInt32) : Config :=
  { functions := [{ address, key := addressText address, size := some size }] }

theorem declaring_valid {address : UInt32} (word : aligned address) (size : UInt32) :
    (declaring address size).validate.valid := by
  have ranges := ranges_of_sorted (show
    (firstPerAddress (declaring address size).functions).Pairwise _ from
      List.pairwise_singleton _ _)
  rw [validate, Report.valid, errors, ranges]
  simp [declaring, flatMapBefore, functionFaults, checkAligned, word, extentFaults, conflicts,
    earlier?, firstPerAddress, FunctionOverride.isChunk, FunctionOverride.extent, overlapsFrom]

end Config

namespace Discovery

variable {program : Program} {state : Discovery}

/-! ## The discovery of a program -/

theorem run?_eq_ok (inRange : ∀ use ∈ state.runMarks program, use.InRange) :
    state.run? program = .ok (state.run program) := by
  have none : (state.runMarks program).find? (!·.inRange) = none := by
    simpa [List.find?_eq_none, MarkUse.inRange_iff] using inRange
  rw [run?, none]

theorem exists_run?_eq_error {use : MarkUse} (member : use ∈ state.runMarks program)
    (outside : ¬ use.InRange) :
    ∃ first, state.run? program = .error first ∧ ¬ first.InRange := by
  cases found : (state.runMarks program).find? (!·.inRange) with
  | none =>
      have holds := List.find?_eq_none.mp found use member
      simp only [Bool.not_eq_true', Bool.not_eq_false, MarkUse.inRange_iff] at holds
      exact absurd holds outside
  | some first =>
      have holds := List.find?_some found
      refine ⟨first, by rw [run?, found], ?_⟩
      intro inRange
      simp [MarkUse.inRange_iff.mpr inRange] at holds

/-- A function at a code address without a mark ends the discovery. -/
theorem Unmarked.exists_run?_eq_error {image : Image} {sect : Section} {address : UInt32}
    (among : sect ∈ image.executableSections) (unmarked : Unmarked sect address)
    (executable : image.isExecutable address) (hints : List UInt32) (tables : List VTable) :
    ∃ use, (hinted { image, config := .declaring address 4 } hints tables).run?
      { image, config := .declaring address 4 } = .error use ∧ ¬ use.InRange := by
  have extent : Config.extentAt (.declaring address 4) address = some 4 := by
    simp [Config.declaring, Config.extentAt, Config.functionAt, FunctionOverride.extent]
  have after : address < saturatingAdd address 4 := by
    have ends := Section.ends_of_contains unmarked.1
    have bounds := (Section.contains_iff ends).mp unmarked.1
    rw [UInt32.lt_iff_toNat_lt, toNat_saturatingAdd]
    change address.toNat < min (address.toNat + 4) 4294967295
    omega
  have entry : address ∈
      (hinted { image, config := .declaring address 4 } hints tables).entries :=
    mem_hinted_of_declares ⟨_, List.mem_cons_self, rfl⟩ executable
  obtain ⟨use, member, outside⟩ := unmarked.exists_not_inRange after
  exact Discovery.exists_run?_eq_error
    (configured_mem_runMarks (hinted_coherent _ hints tables) entry extent among member) outside

/-- Whatever is configured and hinted, a discovery has all marks that its scans use unless control
goes on past the last word of all, and all others where executable sections consist of whole words.
Otherwise a hint or a valid configuration leads to a mark that is not there. -/
theorem run_marks (image : Image) :
    ((∀ sect ∈ image.sections, sect.data.size ≤ sect.size.toNat) → ¬ image.RunsOut) ∧
    (¬ image.RunsOut → ∀ config hints tables,
      ∀ use ∈ (hinted { image, config } hints tables).runMarks { image, config },
        ∀ window, use.table = .seen window → use.InRange) ∧
    (image.RunsOut → image.isExecutable lastWord → ∀ hints tables, lastWord ∈ hints →
      ∃ window, ∃ use ∈ (hinted { image, config := {} } hints tables).runMarks
        { image, config := {} }, use.table = .seen window ∧ ¬ use.InRange) ∧
    (image.WholeWords → ∀ config hints tables,
      (∀ use ∈ (hinted { image, config } hints tables).runMarks { image, config },
        use.InRange) ∧
      (hinted { image, config } hints tables).run? { image, config } =
        .ok ((hinted { image, config } hints tables).run { image, config })) ∧
    (∀ sect ∈ image.executableSections, ∀ address, Unmarked sect address →
      aligned address → image.isExecutable address →
        ∃ config : Config, config.validate.valid ∧ ∀ hints tables, ∃ use,
          (hinted { image, config } hints tables).run? { image, config } = .error use ∧
            ¬ use.InRange) := by
  refine ⟨Image.not_runsOut_of_stored, ?_, ?_, ?_, ?_⟩
  · intro ends config hints tables use member window seen
    exact (uses_roundsMarks (hinted_coherent _ hints tables) member).seen_inRange ends seen
  · intro runsOut executable hints tables hint
    exact exists_seen_not_inRange runsOut executable hint tables
  · intro whole config hints tables
    have inRange : ∀ use ∈ (hinted { image, config } hints tables).runMarks { image, config },
        use.InRange := fun use member =>
      (uses_roundsMarks (hinted_coherent _ hints tables) member).inRange whole
    exact ⟨inRange, run?_eq_ok inRange⟩
  · intro sect among address unmarked word executable
    exact ⟨.declaring address 4, Config.declaring_valid word 4, fun hints tables =>
      unmarked.exists_run?_eq_error among executable hints tables⟩

/-! A section of one and a half words. -/

def cutImage : Image :=
  .ofCode 0x1000 #[0x4E, 0x80, 0x00, 0x20, 0x00, 0x00]

/-- A function in the half word ends the discovery, and where it is whole nothing does. -/
theorem cutImage_marks :
    (∃ config : Config, config.validate.valid ∧ ∀ hints tables, ∃ use,
      (hinted { image := cutImage, config } hints tables).run? { image := cutImage, config } =
        .error use ∧ ¬ use.InRange) ∧
    ∀ config hints tables, ∀ use ∈
      (hinted { image := .ofCode 0x1000 #[0x4E, 0x80, 0x00, 0x20], config } hints tables).runMarks
        { image := .ofCode 0x1000 #[0x4E, 0x80, 0x00, 0x20], config }, use.InRange := by
  refine ⟨(run_marks cutImage).2.2.2.2 _ List.mem_cons_self 0x1004 ?_ ?_ ?_, ?_⟩
  · exact ⟨by decide, Or.inl (by decide)⟩
  · decide
  · decide
  · intro config hints tables
    refine ((run_marks _).2.2.2.1 ?_ config hints tables).1
    refine List.forall_mem_singleton.mpr ?_
    decide

end Discovery

end PowerLift
