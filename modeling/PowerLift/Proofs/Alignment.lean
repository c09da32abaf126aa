import Mathlib
import PowerLift.Proofs.DeclaredOverlaps

/-!
Alignment of the addresses in a configuration. A configuration is rejected for every misaligned
address but one kind: nothing looks at the end of a function. So what a valid configuration holds is
aligned just if the ends of its functions are.
-/

namespace PowerLift

namespace Config

theorem errors_eq_nil {config : Config} (valid : config.validate.valid) : config.errors = [] :=
  List.isEmpty_iff.mp valid

theorem mem_flatMapBefore {α β : Type} {f : List α → α → List β} {before items : List α} {b : β} :
    b ∈ flatMapBefore f before items ↔
      ∃ first item rest, items = first ++ item :: rest ∧ b ∈ f (before ++ first) item := by
  induction items generalizing before with
  | nil => simp [flatMapBefore]
  | cons head tail ih =>
      rw [flatMapBefore, List.mem_append, ih]
      constructor
      · rintro (here | ⟨first, item, rest, split, later⟩)
        · exact ⟨[], head, tail, rfl, by simpa using here⟩
        · exact ⟨head :: first, item, rest, by rw [split]; rfl, by simpa using later⟩
      · rintro ⟨first, item, rest, split, member⟩
        cases first with
        | nil =>
            obtain ⟨rfl, rfl⟩ := List.cons.inj split
            exact Or.inl (by simpa using member)
        | cons other first =>
            obtain ⟨rfl, rfl⟩ := List.cons.inj split
            exact Or.inr ⟨first, item, rest, rfl, by simpa using member⟩

/-! ## Single checks -/

section

variable {subject : Subject} {address : UInt32}

theorem misaligned_mem_checkAligned {given : Subject} {word : UInt32} :
    .misaligned subject address ∈ checkAligned given word ↔
      subject = given ∧ address = word ∧ ¬ aligned address := by
  unfold checkAligned
  split
  next straight =>
    simp only [List.not_mem_nil, false_iff]
    rintro ⟨_, rfl, skewed⟩
    exact skewed straight
  next skewed =>
    simp only [List.mem_singleton, Fault.misaligned.injEq]
    constructor
    · rintro ⟨rfl, rfl⟩
      exact ⟨rfl, rfl, skewed⟩
    · rintro ⟨rfl, rfl, _⟩
      exact ⟨rfl, rfl⟩

theorem misaligned_mem_flatMap {given : Subject} {words : List UInt32} :
    .misaligned subject address ∈ words.flatMap (checkAligned given) ↔
      subject = given ∧ address ∈ words ∧ ¬ aligned address := by
  simp only [List.mem_flatMap, misaligned_mem_checkAligned]
  constructor
  · rintro ⟨word, member, same, rfl, skewed⟩
    exact ⟨same, member, skewed⟩
  · rintro ⟨same, member, skewed⟩
    exact ⟨address, member, same, rfl, skewed⟩

theorem misaligned_not_mem_extentFaults (entry : FunctionOverride) :
    .misaligned subject address ∉ extentFaults entry := by
  unfold extentFaults
  split
  · simp
  · split <;> simp
  · simp

theorem misaligned_not_mem_conflicts (before : List FunctionOverride) (entry : FunctionOverride) :
    .misaligned subject address ∉ conflicts before entry := by
  unfold conflicts
  split
  · split <;> simp
  · simp

theorem misaligned_not_mem_overlapsFrom (furthest : Option (FunctionOverride × UInt32))
    (ranges : List (FunctionOverride × UInt32)) :
    .misaligned subject address ∉ overlapsFrom furthest ranges := by
  intro member
  rw [← overlaps_overlapsFrom] at member
  cases (List.mem_filter.mp member).2

theorem misaligned_mem_functionFaults {before : List FunctionOverride} {entry : FunctionOverride} :
    .misaligned subject address ∈ functionFaults before entry ↔
      (subject = .function ∧ address = entry.address ∨
        subject = .parent ∧ entry.parent = some address) ∧ ¬ aligned address := by
  simp only [functionFaults, List.mem_append, misaligned_mem_checkAligned, misaligned_mem_flatMap,
    misaligned_not_mem_extentFaults, misaligned_not_mem_conflicts, or_false, Option.mem_toList]
  tauto

theorem misaligned_mem_switchFaults {table : SwitchTable} :
    .misaligned subject address ∈ switchFaults table ↔
      (subject = .switchTable ∧ address = table.address ∨
        subject = .switchLabel ∧ address ∈ table.labels) ∧ ¬ aligned address := by
  have labels : .misaligned subject address ∉
      (if table.labels.isEmpty then [Fault.noLabels table.address] else []) := by
    split <;> simp
  have register : .misaligned subject address ∉ (if table.register > 31 then
      [Fault.switchRegister table.address table.register] else []) := by
    split <;> simp
  simp only [switchFaults, List.mem_append, misaligned_mem_checkAligned, misaligned_mem_flatMap,
    labels, register, or_false]
  tauto

theorem misaligned_mem_hookFaults {hook : Hook} :
    .misaligned subject address ∈ hookFaults hook ↔
      (subject = .hook ∧ address = hook.address ∨
        subject = .hookTarget ∧ address ∈ hook.jumpTargets) ∧ ¬ aligned address := by
  have behaviours : .misaligned subject address ∉
      (if hook.behaviourCount > 1 then [Fault.manyBehaviours hook] else []) := by
    split <;> simp
  have registers (names : List String) :
      .misaligned subject address ∉ names.map (Fault.unknownRegister hook) := by
    simp
  simp only [hookFaults, List.mem_append, misaligned_mem_checkAligned, misaligned_mem_flatMap,
    behaviours, registers, or_false]
  tauto

end

/-! ## Whole configurations -/

/-- The addresses that are looked at, with what each belongs to. -/
inductive Mentions (config : Config) : Subject → UInt32 → Prop where
  | function {entry : FunctionOverride} (member : entry ∈ config.functions) :
      Mentions config .function entry.address
  | parent {entry : FunctionOverride} {address : UInt32} (member : entry ∈ config.functions)
      (given : entry.parent = some address) : Mentions config .parent address
  | indirectCall {address : UInt32} (member : address ∈ config.indirectCalls) :
      Mentions config .indirectCall address
  | exceptionHandler {address : UInt32} (member : address ∈ config.analysis.exceptionHandlers) :
      Mentions config .exceptionHandler address
  | setjmp {address : UInt32} (given : config.setjmp = some address) :
      Mentions config .setjmp address
  | longjmp {address : UInt32} (given : config.longjmp = some address) :
      Mentions config .longjmp address
  | switchTable {table : SwitchTable} (member : table ∈ config.switchTables) :
      Mentions config .switchTable table.address
  | switchLabel {table : SwitchTable} {address : UInt32} (member : table ∈ config.switchTables)
      (label : address ∈ table.labels) : Mentions config .switchLabel address
  | hook {hook : Hook} (member : hook ∈ config.hooks) : Mentions config .hook hook.address
  | hookTarget {hook : Hook} {address : UInt32} (member : hook ∈ config.hooks)
      (target : hook.jump = some address ∨ hook.jumpOnTrue = some address ∨
        hook.jumpOnFalse = some address) : Mentions config .hookTarget address

theorem misaligned_mem_functions {config : Config} {subject : Subject} {address : UInt32} :
    .misaligned subject address ∈ flatMapBefore functionFaults [] config.functions ↔
      ∃ entry ∈ config.functions, (subject = .function ∧ address = entry.address ∨
        subject = .parent ∧ entry.parent = some address) ∧ ¬ aligned address := by
  simp only [mem_flatMapBefore, misaligned_mem_functionFaults]
  constructor
  · rintro ⟨first, entry, rest, split, found⟩
    exact ⟨entry, by simp [split], found⟩
  · rintro ⟨entry, member, found⟩
    obtain ⟨first, rest, split⟩ := List.append_of_mem member
    exact ⟨first, entry, rest, split, found⟩

/-- Whatever is looked at and not aligned is reported, and nothing else is. -/
theorem misaligned_mem_errors {config : Config} {subject : Subject} {address : UInt32} :
    .misaligned subject address ∈ config.validate.errors ↔
      config.Mentions subject address ∧ ¬ aligned address := by
  have targets {hook : Hook} : address ∈ hook.jumpTargets ↔ hook.jump = some address ∨
      hook.jumpOnTrue = some address ∨ hook.jumpOnFalse = some address := by
    simp [Hook.jumpTargets, eq_comm]
  simp only [validate, errors, List.mem_append, misaligned_mem_functions,
    misaligned_not_mem_overlapsFrom, or_false, misaligned_mem_flatMap, Option.mem_toList]
  simp only [List.mem_flatMap, misaligned_mem_switchFaults, misaligned_mem_hookFaults, targets]
  constructor
  · rintro ((((((⟨entry, member, ⟨rfl, rfl⟩ | ⟨rfl, given⟩, skewed⟩ | ⟨rfl, member, skewed⟩) |
      ⟨rfl, member, skewed⟩) | ⟨rfl, given, skewed⟩) | ⟨rfl, given, skewed⟩) |
      ⟨table, member, ⟨rfl, rfl⟩ | ⟨rfl, label⟩, skewed⟩) |
      ⟨hook, member, ⟨rfl, rfl⟩ | ⟨rfl, target⟩, skewed⟩)
    · exact ⟨.function member, skewed⟩
    · exact ⟨.parent member given, skewed⟩
    · exact ⟨.indirectCall member, skewed⟩
    · exact ⟨.exceptionHandler member, skewed⟩
    · exact ⟨.setjmp given, skewed⟩
    · exact ⟨.longjmp given, skewed⟩
    · exact ⟨.switchTable member, skewed⟩
    · exact ⟨.switchLabel member label, skewed⟩
    · exact ⟨.hook member, skewed⟩
    · exact ⟨.hookTarget member target, skewed⟩
  · rintro ⟨mentions, skewed⟩
    cases mentions with
    | function member => simpa [skewed] using ⟨_, member, rfl⟩
    | parent member given => simpa [skewed] using ⟨_, member, given⟩
    | indirectCall member => simpa [skewed] using member
    | exceptionHandler member => simpa [skewed] using member
    | setjmp given => simpa [skewed] using given
    | longjmp given => simpa [skewed] using given
    | switchTable member => simpa [skewed] using ⟨_, member, rfl⟩
    | switchLabel member label => simpa [skewed] using ⟨_, member, label⟩
    | hook member => simpa [skewed] using ⟨_, member, rfl⟩
    | hookTarget member target => simpa [skewed] using ⟨_, member, target⟩

/-! ## Valid configurations -/

theorem aligned_of_mentions {config : Config} (valid : config.validate.valid) {subject : Subject}
    {address : UInt32} (mentions : config.Mentions subject address) : aligned address := by
  by_contra skewed
  have reported := misaligned_mem_errors.mpr ⟨mentions, skewed⟩
  rw [show config.validate.errors = [] from errors_eq_nil valid] at reported
  cases reported

/-- Every address of a configuration: those that are looked at, and the ends of functions. -/
def Holds (config : Config) (address : UInt32) : Prop :=
  (∃ subject, config.Mentions subject address) ∨
    ∃ entry ∈ config.functions, entry.stop = some address

/-- In a valid configuration all that is looked at is aligned. So all addresses are just if the ends
of functions are, which nothing looks at. -/
theorem valid_aligned_iff {config : Config} (valid : config.validate.valid) :
    (∀ subject address, config.Mentions subject address → aligned address) ∧
      ((∀ address, config.Holds address → aligned address) ↔
        ∀ entry ∈ config.functions, ∀ stop, entry.stop = some stop → aligned stop) := by
  refine ⟨fun _ _ => aligned_of_mentions valid, ?_⟩
  constructor
  · intro all entry member stop given
    exact all stop (Or.inr ⟨entry, member, given⟩)
  · intro ends address holds
    rcases holds with ⟨subject, mentions⟩ | ⟨entry, member, given⟩
    · exact aligned_of_mentions valid mentions
    · exact ends entry member address given

/-! A function that ends in the middle of a word. -/

def skewedConfig : Config :=
  { functions := [{ address := 0x1000, key := "0x1000", stop := some 0x1002 }] }

theorem skewedConfig_valid : skewedConfig.validate.valid := by
  have ranges := ranges_of_sorted (show (firstPerAddress skewedConfig.functions).Pairwise _ by
    decide)
  rw [validate, Report.valid, errors, ranges]
  decide

theorem skewedConfig_misaligned :
    skewedConfig.validate.valid ∧ ¬ ∀ address, skewedConfig.Holds address → aligned address := by
  refine ⟨skewedConfig_valid, ?_⟩
  intro all
  have stop := (valid_aligned_iff skewedConfig_valid).2.mp all _ List.mem_cons_self _ rfl
  exact absurd stop (by decide)

end Config

end PowerLift
