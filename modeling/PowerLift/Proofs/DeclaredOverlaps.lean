import Mathlib
import PowerLift.Config.Report

/-!
The overlaps for which a configuration is rejected. Going through the declared ranges with the one
that reaches furthest so far reports the same functions as comparing every range with every other.
-/

namespace PowerLift

namespace Fault

/-- The function that is reported to overlap an earlier one. -/
def overlapping? : Fault → Option FunctionOverride
  | overlap entry _ => some entry
  | _ => none

def isOverlap (fault : Fault) : Bool :=
  fault.overlapping?.isSome

theorem filterMap_overlapping (faults : List Fault) :
    (faults.filter isOverlap).filterMap overlapping? = faults.filterMap overlapping? := by
  rw [List.filterMap_filter]
  congr 1
  funext fault
  cases fault <;> rfl

end Fault

namespace Config

/-! ## First declarations -/

def keepFirst (kept : List FunctionOverride) (entry : FunctionOverride) : List FunctionOverride :=
  if kept.any (·.address == entry.address) then kept else entry :: kept

theorem firstPerAddress_eq (entries : List FunctionOverride) :
    firstPerAddress entries = (entries.foldl keepFirst []).reverse := rfl

theorem keepFirst_cases (kept : List FunctionOverride) (entry : FunctionOverride) :
    (keepFirst kept entry = kept ∧ ∃ other ∈ kept, other.address = entry.address) ∨
      keepFirst kept entry = entry :: kept ∧ ∀ other ∈ kept, other.address ≠ entry.address := by
  unfold keepFirst
  split
  next known => exact Or.inl ⟨rfl, by simpa using known⟩
  next absent => exact Or.inr ⟨rfl, by simpa using absent⟩

theorem mem_foldl_keepFirst {entries kept : List FunctionOverride} {entry : FunctionOverride} :
    entry ∈ entries.foldl keepFirst kept ↔
      entry ∈ kept ∨ (∀ other ∈ kept, other.address ≠ entry.address) ∧
        entries.find? (·.address == entry.address) = some entry := by
  induction entries generalizing kept with
  | nil => simp
  | cons head tail ih =>
      rw [List.foldl_cons, ih]
      by_cases same : head.address = entry.address
      · rw [List.find?_cons_of_pos (by simpa using same), Option.some.injEq]
        rcases keepFirst_cases kept head with ⟨step, other, member, known⟩ | ⟨step, free⟩
        · have taken : ¬ ∀ other ∈ kept, other.address ≠ entry.address := fun free =>
            free other member (known.trans same)
          simp [step, taken]
        · rw [same] at free
          have taken : ¬ ∀ other ∈ head :: kept, other.address ≠ entry.address := fun all =>
            all head List.mem_cons_self same
          rw [step, and_iff_right free, or_iff_left fun both => taken both.1, List.mem_cons,
            or_comm, eq_comm]
      · rw [List.find?_cons_of_neg (by simpa using same)]
        rcases keepFirst_cases kept head with ⟨step, _⟩ | ⟨step, _⟩
        · rw [step]
        · have different : entry ≠ head := by
            rintro rfl
            exact same rfl
          simp [step, same, different]

theorem mem_firstPerAddress {entries : List FunctionOverride} {entry : FunctionOverride} :
    entry ∈ firstPerAddress entries ↔
      entries.find? (·.address == entry.address) = some entry := by
  rw [firstPerAddress_eq, List.mem_reverse, mem_foldl_keepFirst]
  simp

theorem foldl_keepFirst_distinct {entries kept : List FunctionOverride}
    (distinct : kept.Pairwise fun first second => first.address ≠ second.address) :
    (entries.foldl keepFirst kept).Pairwise fun first second =>
      first.address ≠ second.address := by
  induction entries generalizing kept with
  | nil => exact distinct
  | cons head tail ih =>
      apply ih
      rcases keepFirst_cases kept head with ⟨step, _⟩ | ⟨step, free⟩
      · rw [step]
        exact distinct
      · rw [step]
        exact List.pairwise_cons.mpr ⟨fun other member => (free other member).symm, distinct⟩

theorem firstPerAddress_distinct (entries : List FunctionOverride) :
    (firstPerAddress entries).Pairwise fun first second => first.address ≠ second.address := by
  rw [firstPerAddress_eq, List.pairwise_reverse]
  exact (foldl_keepFirst_distinct .nil).imp Ne.symm

/-! ## Declared ranges -/

/-- A declaration that takes up the addresses before an end: the first of its address, no chunk, and
with an extent. -/
structure Occupies (config : Config) (entry : FunctionOverride) (stop : UInt32) : Prop where
  first : config.functionAt entry.address = some entry
  whole : entry.isChunk = false
  ends : ∃ size, entry.extent = some size ∧ saturatingAdd entry.address size = stop

def rangeOf? (entry : FunctionOverride) : Option (FunctionOverride × UInt32) :=
  if entry.isChunk then none
  else entry.extent.map fun extent => (entry, saturatingAdd entry.address extent)

theorem ranges_eq (config : Config) :
    config.ranges = ((firstPerAddress config.functions).mergeSort
      fun a b => a.address ≤ b.address).filterMap rangeOf? := rfl

/-- Functions that come by address need no sorting. -/
theorem ranges_of_sorted {config : Config}
    (sorted : (firstPerAddress config.functions).Pairwise fun a b => a.address ≤ b.address) :
    config.ranges = (firstPerAddress config.functions).filterMap fun entry =>
      if entry.isChunk then none
      else entry.extent.map fun extent => (entry, saturatingAdd entry.address extent) := by
  rw [ranges, List.mergeSort_of_pairwise (by simpa using sorted)]

theorem rangeOf?_eq_some {entry : FunctionOverride} {range : FunctionOverride × UInt32} :
    rangeOf? entry = some range ↔
      entry = range.1 ∧ entry.isChunk = false ∧
        ∃ size, entry.extent = some size ∧ saturatingAdd entry.address size = range.2 := by
  unfold rangeOf?
  split
  next chunk => simp [chunk]
  next whole =>
    simp only [Option.map_eq_some_iff, Prod.ext_iff]
    constructor
    · rintro ⟨size, extent, same, stop⟩
      exact ⟨same, by simpa using whole, size, extent, stop⟩
    · rintro ⟨same, _, size, extent, stop⟩
      exact ⟨size, extent, same, stop⟩

theorem mem_ranges {config : Config} {range : FunctionOverride × UInt32} :
    range ∈ config.ranges ↔ config.Occupies range.1 range.2 := by
  simp only [ranges_eq, List.mem_filterMap, List.mem_mergeSort, mem_firstPerAddress,
    rangeOf?_eq_some]
  constructor
  · rintro ⟨_, found, rfl, whole, ends⟩
    exact ⟨found, whole, ends⟩
  · rintro ⟨found, whole, ends⟩
    exact ⟨range.1, found, rfl, whole, ends⟩

/-- By address, one at each. -/
def Ascending (ranges : List (FunctionOverride × UInt32)) : Prop :=
  ranges.Pairwise fun first second => first.1.address < second.1.address

theorem ranges_ascending (config : Config) : Ascending config.ranges := by
  have sorted : ((firstPerAddress config.functions).mergeSort
      fun a b => a.address ≤ b.address).Pairwise fun first second =>
        first.address ≤ second.address := by
    refine (List.pairwise_mergeSort ?_ ?_ _).imp of_decide_eq_true
    · intro first second third before after
      exact decide_eq_true (UInt32.le_trans (of_decide_eq_true before) (of_decide_eq_true after))
    · intro first second
      simpa using UInt32.le_total first.address second.address
  have distinct := (List.mergeSort_perm (firstPerAddress config.functions)
    fun a b => a.address ≤ b.address).symm.pairwise (firstPerAddress_distinct config.functions)
      fun different => Ne.symm different
  refine List.pairwise_filterMap.mpr ((sorted.and distinct).imp ?_)
  intro first second before range given other otherGiven
  rw [← (rangeOf?_eq_some.mp given).1, ← (rangeOf?_eq_some.mp otherGiven).1]
  exact UInt32.lt_of_le_of_ne before.1 before.2

/-! ## One pass -/

/-- One of the ranges that ends as late as any of them. -/
structure Furthest (ranges : List (FunctionOverride × UInt32))
    (furthest : FunctionOverride × UInt32) : Prop where
  member : furthest ∈ ranges
  bound : ∀ range ∈ ranges, range.2 ≤ furthest.2

theorem furthest_singleton (range : FunctionOverride × UInt32) : Furthest [range] range where
  member := List.mem_cons_self
  bound other member := by
    obtain rfl := List.mem_singleton.mp member
    exact UInt32.le_refl _

theorem Furthest.step {before : List (FunctionOverride × UInt32)}
    {furthest : FunctionOverride × UInt32} (reach : Furthest before furthest)
    (range : FunctionOverride × UInt32) :
    Furthest (before ++ [range]) (if range.2 > furthest.2 then range else furthest) := by
  split
  next further =>
    refine ⟨List.mem_append_right _ List.mem_cons_self, List.forall_mem_append.mpr ⟨?_, ?_⟩⟩
    · intro other early
      exact UInt32.le_trans (reach.bound other early) (UInt32.le_of_lt further)
    · rw [List.forall_mem_singleton]
      exact UInt32.le_refl _
  next short =>
    refine ⟨List.mem_append_left _ reach.member, List.forall_mem_append.mpr ⟨reach.bound, ?_⟩⟩
    rw [List.forall_mem_singleton]
    exact UInt32.not_lt.mp short

/-- Whether one range begins before another and ends after that begins. -/
def ReachesInto (first second : FunctionOverride × UInt32) : Prop :=
  first.1.address < second.1.address ∧ second.1.address < first.2

instance decidableReachesInto (first second : FunctionOverride × UInt32) :
    Decidable (ReachesInto first second) :=
  inferInstanceAs (Decidable (_ ∧ _))

section

variable {before rest : List (FunctionOverride × UInt32)}
  {furthest range : FunctionOverride × UInt32}

/-- Of ranges by address, only those before one begin before it. -/
theorem mem_before {other : FunctionOverride × UInt32}
    (ordered : Ascending (before ++ range :: rest))
    (member : other ∈ before ++ range :: rest) (begins : other.1.address < range.1.address) :
    other ∈ before := by
  obtain ⟨_, restOrdered, _⟩ := List.pairwise_append.mp ordered
  obtain ⟨above, _⟩ := List.pairwise_cons.mp restOrdered
  rcases List.mem_append.mp member with early | late
  · exact early
  · rcases List.mem_cons.mp late with rfl | after
    · exact absurd begins (UInt32.lt_irrefl _)
    · exact absurd begins (UInt32.lt_asymm (above other after))

theorem Furthest.begins (reach : Furthest before furthest)
    (ordered : Ascending (before ++ range :: rest)) :
    furthest.1.address < range.1.address :=
  (List.pairwise_append.mp ordered).2.2 furthest reach.member range List.mem_cons_self

/-- If any range reaches into one, then the furthest of those before it does. -/
theorem Furthest.reachesInto_iff (reach : Furthest before furthest)
    (ordered : Ascending (before ++ range :: rest)) :
    (∃ other ∈ before ++ range :: rest, ReachesInto other range) ↔
      range.1.address < furthest.2 := by
  constructor
  · rintro ⟨other, member, begins, reaches⟩
    exact UInt32.lt_of_lt_of_le reaches (reach.bound other (mem_before ordered member begins))
  · intro reaches
    exact ⟨furthest, List.mem_append_left _ reach.member, reach.begins ordered, reaches⟩

theorem overlapping_overlapsFrom (reach : Furthest before furthest)
    (ordered : Ascending (before ++ rest)) :
    (overlapsFrom (some furthest) rest).filterMap Fault.overlapping? =
      (rest.filter fun range => ∃ other ∈ before ++ rest, ReachesInto other range).map (·.1) := by
  induction rest generalizing before furthest with
  | nil => rfl
  | cons range rest ih =>
      -- The range moves to those before, and all of them together stay the same.
      have onward : before ++ range :: rest = before ++ [range] ++ rest := by simp
      have later := ih (reach.step range) (onward ▸ ordered)
      have here := reach.reachesInto_iff ordered
      rw [overlapsFrom, List.filterMap_append, later, ← onward]
      by_cases reaches : range.1.address < furthest.2
      · rw [if_pos reaches, List.filter_cons_of_pos (by exact decide_eq_true (here.mpr reaches))]
        rfl
      · rw [if_neg reaches, List.filter_cons_of_neg (by simpa using mt here.mp reaches)]
        rfl

/-- A reported range is compared with one that reaches into it, and furthest of those before. -/
theorem of_mem_overlapsFrom (reach : Furthest before furthest)
    (ordered : Ascending (before ++ rest))
    {entry other : FunctionOverride}
    (member : .overlap entry other ∈ overlapsFrom (some furthest) rest) :
    ∃ one ∈ before ++ rest, ∃ second ∈ rest, one.1 = other ∧ second.1 = entry ∧
      ReachesInto one second ∧
        ∀ third ∈ before ++ rest, third.1.address < entry.address → third.2 ≤ one.2 := by
  induction rest generalizing before furthest with
  | nil => cases member
  | cons range rest ih =>
      have onward : before ++ range :: rest = before ++ [range] ++ rest := by simp
      rw [overlapsFrom] at member
      rcases List.mem_append.mp member with here | later
      · split at here
        next reaches =>
          cases List.mem_singleton.mp here
          refine ⟨furthest, List.mem_append_left _ reach.member, range, List.mem_cons_self, rfl,
            rfl, ⟨reach.begins ordered, reaches⟩, ?_⟩
          intro third thirdMember begins
          exact reach.bound third (mem_before ordered thirdMember begins)
        next => cases here
      · obtain ⟨one, oneMember, second, secondMember, found⟩ :=
          ih (reach.step range) (onward ▸ ordered) later
        rw [onward]
        exact ⟨one, oneMember, second, List.mem_cons_of_mem _ secondMember, found⟩

end

/-! ## All faults -/

@[simp] theorem overlaps_checkAligned (subject : Subject) (address : UInt32) :
    (checkAligned subject address).filter Fault.isOverlap = [] := by
  unfold checkAligned
  split <;> rfl

@[simp] theorem overlaps_functionFaults (before : List FunctionOverride)
    (entry : FunctionOverride) :
    (functionFaults before entry).filter Fault.isOverlap = [] := by
  have extent : (extentFaults entry).filter Fault.isOverlap = [] := by
    unfold extentFaults
    split
    · rfl
    · split <;> rfl
    · rfl
  have conflict : (conflicts before entry).filter Fault.isOverlap = [] := by
    unfold conflicts
    split
    · split <;> rfl
    · rfl
  simp [functionFaults, List.filter_flatMap, extent, conflict]

@[simp] theorem overlaps_flatMapBefore (before entries : List FunctionOverride) :
    (flatMapBefore functionFaults before entries).filter Fault.isOverlap = [] := by
  induction entries generalizing before with
  | nil => rfl
  | cons entry rest ih => simp [flatMapBefore, ih]

@[simp] theorem overlaps_switchFaults (table : SwitchTable) :
    (switchFaults table).filter Fault.isOverlap = [] := by
  have labels : (if table.labels.isEmpty then [Fault.noLabels table.address] else []).filter
      Fault.isOverlap = [] := by
    split <;> rfl
  have register : (if table.register > 31 then
      [Fault.switchRegister table.address table.register] else []).filter Fault.isOverlap = [] := by
    split <;> rfl
  simp only [switchFaults, List.filter_append, List.filter_flatMap, overlaps_checkAligned, labels,
    register]
  simp

@[simp] theorem overlaps_hookFaults (hook : Hook) :
    (hookFaults hook).filter Fault.isOverlap = [] := by
  have behaviours : (if hook.behaviourCount > 1 then [Fault.manyBehaviours hook] else []).filter
      Fault.isOverlap = [] := by
    split <;> rfl
  have registers (names : List String) :
      (names.map (Fault.unknownRegister hook)).filter Fault.isOverlap = [] := by
    simp [Fault.isOverlap, Fault.overlapping?]
  simp only [hookFaults, List.filter_append, List.filter_flatMap, overlaps_checkAligned,
    behaviours, registers]
  simp

theorem overlaps_overlapsFrom (furthest : Option (FunctionOverride × UInt32))
    (ranges : List (FunctionOverride × UInt32)) :
    (overlapsFrom furthest ranges).filter Fault.isOverlap = overlapsFrom furthest ranges := by
  induction ranges generalizing furthest with
  | nil => cases furthest <;> rfl
  | cons range rest ih =>
      cases furthest with
      | none => exact ih (some range)
      | some furthest =>
          rw [overlapsFrom, List.filter_append, ih]
          congr 1
          split <;> rfl

/-- Only the comparison of ranges reports overlaps. -/
theorem overlaps_errors (config : Config) :
    config.validate.errors.filter Fault.isOverlap = overlapsFrom none config.ranges := by
  simp [validate, errors, List.filter_flatMap, overlaps_overlapsFrom]

/-- The functions reported to overlap an earlier one, by address. -/
theorem overlapping_errors (config : Config) :
    config.validate.errors.filterMap Fault.overlapping? =
      (config.ranges.filter fun range =>
        ∃ other ∈ config.ranges, ReachesInto other range).map (·.1) := by
  rw [← Fault.filterMap_overlapping, overlaps_errors]
  have ordered := config.ranges_ascending
  cases all : config.ranges with
  | nil => rfl
  | cons range rest =>
      rw [all] at ordered
      have first : ¬ ∃ other ∈ range :: rest, ReachesInto other range := by
        rintro ⟨other, member, begins, _⟩
        have none : other ∈ [] := mem_before ordered member begins
        cases none
      rw [overlapsFrom, overlapping_overlapsFrom (furthest_singleton range) ordered,
        List.filter_cons_of_neg (by simpa using first)]
      rfl

theorem mem_overlapping_errors {config : Config} {entry : FunctionOverride} :
    entry ∈ config.validate.errors.filterMap Fault.overlapping? ↔
      ∃ stop, config.Occupies entry stop ∧ ∃ other otherStop, config.Occupies other otherStop ∧
        other.address < entry.address ∧ entry.address < otherStop := by
  rw [overlapping_errors, List.mem_map]
  constructor
  · rintro ⟨range, member, rfl⟩
    obtain ⟨among, reached⟩ := List.mem_filter.mp member
    obtain ⟨other, otherAmong, reaches⟩ := of_decide_eq_true reached
    exact ⟨range.2, mem_ranges.mp among, other.1, other.2, mem_ranges.mp otherAmong, reaches⟩
  · rintro ⟨stop, occupies, other, otherStop, otherOccupies, reaches⟩
    refine ⟨(entry, stop), List.mem_filter.mpr ⟨mem_ranges.mpr occupies, decide_eq_true ?_⟩, rfl⟩
    exact ⟨(other, otherStop), mem_ranges.mpr otherOccupies, reaches⟩

/-- The other function of a report reaches into the one reported, and none before that further. -/
theorem of_overlap_mem_errors {config : Config} {entry other : FunctionOverride}
    (member : .overlap entry other ∈ config.validate.errors) :
    ∃ stop, config.Occupies other stop ∧ other.address < entry.address ∧ entry.address < stop ∧
      ∀ third thirdStop, config.Occupies third thirdStop → third.address < entry.address →
        thirdStop ≤ stop := by
  have among : .overlap entry other ∈ config.validate.errors.filter Fault.isOverlap :=
    List.mem_filter.mpr ⟨member, rfl⟩
  rw [overlaps_errors] at among
  have ordered := config.ranges_ascending
  have occupies (range : FunctionOverride × UInt32) :
      range ∈ config.ranges ↔ config.Occupies range.1 range.2 := mem_ranges
  cases all : config.ranges with
  | nil =>
      rw [all] at among
      cases among
  | cons range rest =>
      rw [all] at among ordered occupies
      obtain ⟨one, oneMember, second, _, rfl, rfl, reaches, furthest⟩ :=
        of_mem_overlapsFrom (furthest_singleton range) ordered among
      refine ⟨one.2, (occupies one).mp oneMember, reaches.1, reaches.2, ?_⟩
      intro third thirdStop thirdOccupies begins
      exact furthest (third, thirdStop) ((occupies _).mpr thirdOccupies) begins

/-- A function is reported just if a declared range that begins before it reaches into its own. The
reports come by address, one for each such function, and the other function that each names reaches
furthest of those before. -/
theorem validate_overlaps_exact (config : Config) :
    let reported := config.validate.errors.filterMap Fault.overlapping?
    (∀ entry, entry ∈ reported ↔
        ∃ stop, config.Occupies entry stop ∧ ∃ other otherStop, config.Occupies other otherStop ∧
          other.address < entry.address ∧ entry.address < otherStop) ∧
      (reported.Pairwise fun first second => first.address < second.address) ∧
      ∀ entry other, .overlap entry other ∈ config.validate.errors →
        ∃ stop, config.Occupies other stop ∧ other.address < entry.address ∧
          entry.address < stop ∧ ∀ third thirdStop, config.Occupies third thirdStop →
            third.address < entry.address → thirdStop ≤ stop := by
  intro reported
  refine ⟨fun entry => mem_overlapping_errors, ?_, fun _ _ => of_overlap_mem_errors⟩
  rw [show reported = _ from overlapping_errors config]
  exact List.pairwise_map.mpr (config.ranges_ascending.filter _)

/-! A long function with a short one inside, and a third past the short one. -/

def longFunction : FunctionOverride :=
  { address := 0x1000, key := "0x1000", size := some 0x40 }

def shortFunction : FunctionOverride :=
  { address := 0x1010, key := "0x1010", size := some 4 }

def thirdFunction : FunctionOverride :=
  { address := 0x1020, key := "0x1020", stop := some 0x1030 }

def coveredConfig : Config :=
  { functions := [longFunction, shortFunction, thirdFunction] }

/-- The third function is reported against the long one, not against the one right before it. -/
theorem validate_reports_long_function :
    .overlap thirdFunction longFunction ∈ coveredConfig.validate.errors := by
  obtain ⟨listed, _, furthest⟩ := validate_overlaps_exact coveredConfig
  have long : coveredConfig.Occupies longFunction 0x1040 := ⟨rfl, rfl, 0x40, rfl, rfl⟩
  have reported := (listed thirdFunction).mpr ⟨0x1030, ⟨rfl, rfl, 0x10, rfl, rfl⟩, longFunction,
    0x1040, long, by decide, by decide⟩
  obtain ⟨fault, member, about⟩ := List.mem_filterMap.mp reported
  cases fault with
  | overlap entry other =>
      obtain rfl := Option.some.inj about
      obtain ⟨stop, occupies, begins, _, bound⟩ := furthest _ other member
      have reach := bound longFunction 0x1040 long (by decide)
      have among : other ∈ [longFunction, shortFunction, thirdFunction] :=
        List.mem_of_find?_eq_some occupies.first
      rcases List.mem_cons.mp among with rfl | inner
      · exact member
      · rcases List.mem_cons.mp inner with rfl | last
        · obtain ⟨size, extent, rfl⟩ := occupies.ends
          cases extent
          exact absurd reach (by decide)
        · obtain rfl := List.mem_singleton.mp last
          exact absurd begins (by decide)
  | _ => cases about

end Config

end PowerLift
