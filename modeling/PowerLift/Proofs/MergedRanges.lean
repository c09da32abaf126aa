import Mathlib
import PowerLift.Proofs.BlockCover
import PowerLift.Proofs.Runs

/-!
Joining ranges that overlap. It changes neither which addresses the ranges cover nor which are
strictly inside of one, and these two sets determine ranges that are apart from each other. So the
order of the ranges does not matter, joining again changes nothing, and two ranges that only touch
are joined just if a third one has the place where they touch inside of it.
-/

namespace PowerLift.Span

variable {spans merged : List Span} {first second span : Span} {address : UInt32}

/-- The addresses strictly inside of a span. -/
def crossed (spans : List Span) : Set UInt32 :=
  {address | ∃ span ∈ spans, span.start < address ∧ address < span.stop}

/-- Two spans with a common address, if neither is empty. -/
def Overlaps (first second : Span) : Prop :=
  first.start < second.stop ∧ second.start < first.stop

/-! ## Joining -/

theorem covered_mergeOverlapping (spans : List Span) :
    covered (mergeOverlapping spans) = covered spans :=
  Set.ext fun _ => contains_mergeOverlapping

/-- Where two spans only touch, joining leaves a border. -/
theorem crossed_mergeOverlapping (spans : List Span) :
    crossed (mergeOverlapping spans) = crossed spans := by
  ext address
  constructor
  · rintro ⟨merged, member, above, below⟩
    rw [UInt32.lt_iff_toNat_lt] at above below
    obtain ⟨span, among, start, stop⟩ :=
      mergeOverlapping_around member (by omega : address.toNat ≤ address.toNat - 1 + 1)
        (by omega) below
    exact ⟨span, among, UInt32.lt_iff_toNat_lt.mpr (by omega), UInt32.lt_iff_toNat_lt.mpr stop⟩
  · rintro ⟨span, member, above, below⟩
    obtain ⟨merged, among, within⟩ := mergeOverlapping_within member
    exact ⟨merged, among, UInt32.lt_of_le_of_lt within.1 above,
      UInt32.lt_of_lt_of_le below within.2⟩

theorem mergeFrom_nonempty (nonempty : ∀ span ∈ first :: spans, span.start < span.stop) :
    ∀ span ∈ mergeFrom first spans, span.start < span.stop := by
  induction spans generalizing first with
  | nil => exact nonempty
  | cons span rest ih =>
      obtain ⟨own, others⟩ := List.forall_mem_cons.mp nonempty
      simp only [mergeFrom]
      split
      · refine ih (List.forall_mem_cons.mpr ⟨?_, fun other member =>
          others other (List.mem_cons_of_mem _ member)⟩)
        exact below_max own span.stop
      · exact List.forall_mem_cons.mpr ⟨own, ih others⟩

/-! ## Separate ranges -/

/-- Spans by start, none of them empty and none reaching into another. -/
structure Separate (spans : List Span) : Prop where
  nonempty : ∀ span ∈ spans, span.start < span.stop
  apart : spans.Pairwise fun first second => first.stop ≤ second.start

theorem separate_mergeOverlapping (nonempty : ∀ span ∈ spans, span.start < span.stop) :
    Separate (mergeOverlapping spans) := by
  refine ⟨?_, (mergeOverlapping_ordered spans).imp UInt32.le_iff_toNat_le.mpr⟩
  unfold mergeOverlapping
  split
  · exact List.forall_mem_nil _
  next first rest same =>
    apply mergeFrom_nonempty
    rw [← same]
    exact fun span member => nonempty span (List.mem_mergeSort.mp member)

theorem Separate.ascends (separate : Separate spans) : Search.Ascends Span.start spans := by
  refine separate.apart.imp_of_mem ?_
  intro first second member _ order
  exact UInt32.lt_of_lt_of_le (separate.nonempty first member) order

theorem Separate.apart_of_ne (separate : Separate spans) (firstIn : first ∈ spans)
    (secondIn : second ∈ spans) (differ : first ≠ second) : first.Apart second := by
  have apart : spans.Pairwise Span.Apart :=
    separate.apart.imp fun order => Or.inl (UInt32.le_iff_toNat_le.mp order)
  exact apart.forall firstIn secondIn differ

theorem Separate.eq_of_overlaps (separate : Separate spans) (firstIn : first ∈ spans)
    (secondIn : second ∈ spans) (overlaps : first.Overlaps second) : first = second := by
  by_contra differ
  have apart := separate.apart_of_ne firstIn secondIn differ
  simp only [Apart, Overlaps, UInt32.lt_iff_toNat_lt] at apart overlaps
  omega

theorem Separate.start_not_crossed (separate : Separate spans) (member : span ∈ spans) :
    span.start ∉ crossed spans := by
  rintro ⟨other, among, above, below⟩
  have nonempty := separate.nonempty span member
  have differ : span ≠ other := by
    rintro rfl
    exact UInt32.lt_irrefl _ above
  have apart := separate.apart_of_ne member among differ
  simp only [Apart, UInt32.lt_iff_toNat_lt] at apart above below nonempty
  omega

theorem Separate.stop_not_crossed (separate : Separate spans) (member : span ∈ spans) :
    span.stop ∉ crossed spans := by
  rintro ⟨other, among, above, below⟩
  have nonempty := separate.nonempty span member
  have differ : span ≠ other := by
    rintro rfl
    exact UInt32.lt_irrefl _ below
  have apart := separate.apart_of_ne member among differ
  simp only [Apart, UInt32.lt_iff_toNat_lt] at apart above below nonempty
  omega

/-- A separate span goes from a covered address that nothing crosses to the next address that
nothing crosses. -/
theorem Separate.mem_iff (separate : Separate spans) :
    span ∈ spans ↔ span.start < span.stop ∧ span.start ∈ covered spans ∧
      span.start ∉ crossed spans ∧ span.stop ∉ crossed spans ∧
      ∀ address, span.start < address → address < span.stop → address ∈ crossed spans := by
  constructor
  · intro member
    have nonempty := separate.nonempty span member
    exact ⟨nonempty, ⟨span, member, by simp [contains, nonempty]⟩,
      separate.start_not_crossed member, separate.stop_not_crossed member,
      fun address above below => ⟨span, member, above, below⟩⟩
  · rintro ⟨nonempty, ⟨other, among, inside⟩, free, ends, between⟩
    simp only [contains, Bool.and_eq_true, decide_eq_true_eq] at inside
    have start : other.start = span.start := by
      by_contra differ
      exact free ⟨other, among, UInt32.lt_of_le_of_ne inside.1 differ, inside.2⟩
    have stop : other.stop = span.stop := by
      apply UInt32.le_antisymm
      · refine UInt32.not_lt.mp fun longer => ends ⟨other, among, ?_, longer⟩
        rw [start]
        exact nonempty
      · exact UInt32.not_lt.mp fun shorter =>
          separate.stop_not_crossed among (between _ inside.2 shorter)
    obtain rfl : other = span := by
      cases other
      cases span
      simp_all
    exact among

/-- What is covered and what is crossed determine separate spans. -/
theorem Separate.ext (separate : Separate spans) (other : Separate merged)
    (covers : covered merged = covered spans) (crosses : crossed merged = crossed spans) :
    merged = spans := by
  have members : ∀ span, span ∈ merged ↔ span ∈ spans := by
    intro span
    rw [other.mem_iff, separate.mem_iff, covers, crosses]
  have distinct {spans : List Span} (separate : Separate spans) : spans.Nodup :=
    separate.ascends.imp fun less same => UInt32.ne_of_lt less (congrArg _ same)
  have perm := (List.perm_ext_iff_of_nodup (distinct other) (distinct separate)).mpr members
  refine perm.eq_of_pairwise ?_ other.ascends separate.ascends
  intro first second _ _ less greater
  exact absurd greater (UInt32.lt_asymm less)

/-! ## What joining gives -/

/-- A list of ranges is the result of joining: the ranges are not empty, come by start, do not
overlap and cover the same addresses. Each span is in one of them, and two spans that touch are in
one just if a third span overlaps both. -/
structure Joins (spans merged : List Span) : Prop where
  nonempty : ∀ range ∈ merged, range.start < range.stop
  sorted : merged.Pairwise fun first second => first.start < second.start
  disjoint : merged.Pairwise fun first second => ¬ first.Overlaps second
  covers : covered merged = covered spans
  whole : ∀ span ∈ spans, ∃ range ∈ merged, span.Within range
  touching : ∀ first ∈ spans, ∀ second ∈ spans, first.stop = second.start →
    ((∃ range ∈ merged, first.Within range ∧ second.Within range) ↔
      ∃ third ∈ spans, third.Overlaps first ∧ third.Overlaps second)

theorem Joins.separate (joins : Joins spans merged) : Separate merged := by
  refine ⟨joins.nonempty, (joins.sorted.and joins.disjoint).imp_of_mem ?_⟩
  rintro first second firstIn secondIn ⟨less, apart⟩
  refine UInt32.not_lt.mp fun reaches => apart ⟨?_, reaches⟩
  exact UInt32.lt_trans less (joins.nonempty second secondIn)

theorem mergeOverlapping_joins (nonempty : ∀ span ∈ spans, span.start < span.stop) :
    Joins spans (mergeOverlapping spans) := by
  have separate := separate_mergeOverlapping nonempty
  have crosses := crossed_mergeOverlapping spans
  refine ⟨separate.nonempty, separate.ascends, ?_, covered_mergeOverlapping spans,
    fun span => mergeOverlapping_within, ?_⟩
  · refine separate.apart.imp ?_
    intro first second order overlaps
    exact UInt32.not_lt.mpr order overlaps.2
  · intro first firstIn second secondIn touch
    have firstOrder := nonempty first firstIn
    have secondOrder := nonempty second secondIn
    constructor
    · rintro ⟨range, among, ⟨early, _⟩, ⟨_, late⟩⟩
      have inside : second.start ∈ crossed (mergeOverlapping spans) :=
        ⟨range, among, touch ▸ UInt32.lt_of_le_of_lt early firstOrder,
          UInt32.lt_of_lt_of_le secondOrder late⟩
      rw [crosses] at inside
      obtain ⟨third, member, above, below⟩ := inside
      exact ⟨third, member, ⟨touch ▸ above, UInt32.lt_trans (touch ▸ firstOrder) below⟩,
        UInt32.lt_trans above secondOrder, below⟩
    · rintro ⟨third, member, ⟨above, _⟩, ⟨_, below⟩⟩
      have inside : second.start ∈ crossed spans := ⟨third, member, touch ▸ above, below⟩
      rw [← crosses] at inside
      obtain ⟨range, among, early, late⟩ := inside
      obtain ⟨firstRange, firstAmong, firstWithin⟩ := mergeOverlapping_within firstIn
      obtain ⟨secondRange, secondAmong, secondWithin⟩ := mergeOverlapping_within secondIn
      -- Both spans are in the range that has the place where they touch inside of it.
      obtain rfl : firstRange = range := separate.eq_of_overlaps firstAmong among
        ⟨UInt32.lt_of_le_of_lt firstWithin.1 (UInt32.lt_trans (touch ▸ firstOrder) late),
          UInt32.lt_of_lt_of_le (touch ▸ early) firstWithin.2⟩
      obtain rfl : secondRange = firstRange := separate.eq_of_overlaps secondAmong among
        ⟨UInt32.lt_of_le_of_lt secondWithin.1 late,
          UInt32.lt_trans early (UInt32.lt_of_lt_of_le secondOrder secondWithin.2)⟩
      exact ⟨secondRange, among, firstWithin, secondWithin⟩

theorem Joins.crosses (joins : Joins spans merged) : crossed merged = crossed spans := by
  have separate := joins.separate
  ext address
  constructor
  · rintro ⟨range, among, above, below⟩
    have order := UInt32.lt_iff_toNat_lt.mp above
    have one : (1 : UInt32).toNat = 1 := rfl
    have before : (address - 1).toNat = address.toNat - 1 := toNat_sub (by omega)
    have here : address ∈ covered spans := by
      rw [← joins.covers]
      exact ⟨range, among, by simp [contains, UInt32.le_of_lt above, below]⟩
    have earlier : address - 1 ∈ covered spans := by
      rw [← joins.covers]
      refine ⟨range, among, contains_iff.mpr ?_⟩
      rw [UInt32.lt_iff_toNat_lt] at below
      omega
    obtain ⟨second, secondIn, inSecond⟩ := here
    obtain ⟨first, firstIn, inFirst⟩ := earlier
    rw [contains_iff] at inSecond inFirst
    by_cases inside : second.start < address
    · exact ⟨second, secondIn, inside, UInt32.lt_iff_toNat_lt.mpr inSecond.2⟩
    by_cases longer : address < first.stop
    · exact ⟨first, firstIn, UInt32.lt_iff_toNat_lt.mpr (by omega), longer⟩
    -- One span ends where the other starts, and both are in the range.
    rw [UInt32.lt_iff_toNat_lt] at inside longer
    have start : second.start = address := UInt32.toNat_inj.mp (by omega)
    have stop : first.stop = address := UInt32.toNat_inj.mp (by omega)
    obtain ⟨firstRange, firstAmong, firstWithin⟩ := joins.whole first firstIn
    obtain ⟨secondRange, secondAmong, secondWithin⟩ := joins.whole second secondIn
    have firstStart : first.start < range.stop :=
      UInt32.lt_trans (UInt32.lt_iff_toNat_lt.mpr (by omega)) below
    obtain rfl : firstRange = range := separate.eq_of_overlaps firstAmong among
      ⟨UInt32.lt_of_le_of_lt firstWithin.1 firstStart,
        UInt32.lt_of_lt_of_le (stop ▸ above) firstWithin.2⟩
    have secondStop : firstRange.start < second.stop :=
      UInt32.lt_trans above (UInt32.lt_iff_toNat_lt.mpr inSecond.2)
    obtain rfl : secondRange = firstRange := separate.eq_of_overlaps secondAmong among
      ⟨UInt32.lt_of_le_of_lt secondWithin.1 (start ▸ below),
        UInt32.lt_of_lt_of_le secondStop secondWithin.2⟩
    obtain ⟨third, member, ⟨early, _⟩, ⟨_, late⟩⟩ :=
      (joins.touching first firstIn second secondIn (stop.trans start.symm)).mp
        ⟨secondRange, among, firstWithin, secondWithin⟩
    exact ⟨third, member, stop ▸ early, start ▸ late⟩
  · rintro ⟨span, member, above, below⟩
    obtain ⟨range, among, within⟩ := joins.whole span member
    exact ⟨range, among, UInt32.lt_of_le_of_lt within.1 above,
      UInt32.lt_of_lt_of_le below within.2⟩

/-- Joining spans gives the one list of ranges that is a result of joining them. It does not depend
on their order, and joining the ranges again changes nothing. -/
theorem mergeOverlapping_exact (spans : List Span)
    (nonempty : ∀ span ∈ spans, span.start < span.stop) :
    Joins spans (mergeOverlapping spans) ∧
      (∀ merged, Joins spans merged → merged = mergeOverlapping spans) ∧
      (∀ others : List Span, others.Perm spans →
        mergeOverlapping others = mergeOverlapping spans) ∧
      mergeOverlapping (mergeOverlapping spans) = mergeOverlapping spans := by
  have separate := separate_mergeOverlapping nonempty
  refine ⟨mergeOverlapping_joins nonempty, ?_, ?_, ?_⟩
  · intro merged joins
    refine separate.ext joins.separate ?_ ?_
    · rw [joins.covers, covered_mergeOverlapping]
    · rw [joins.crosses, crossed_mergeOverlapping]
  · intro others perm
    refine separate.ext (separate_mergeOverlapping fun span member =>
      nonempty span (perm.mem_iff.mp member)) ?_ ?_
    · rw [covered_mergeOverlapping, covered_mergeOverlapping]
      simp only [covered, perm.mem_iff]
    · rw [crossed_mergeOverlapping, crossed_mergeOverlapping]
      simp only [crossed, perm.mem_iff]
  · exact separate.ext (separate_mergeOverlapping separate.nonempty) (covered_mergeOverlapping _)
      (crossed_mergeOverlapping _)

/-! Two spans that touch and, further on, two that touch inside of a third. -/

def touchingSpans : List Span :=
  [{ start := 0x1020, stop := 0x1028 }, { start := 0x1000, stop := 0x1008 },
    { start := 0x1028, stop := 0x1030 }, { start := 0x1008, stop := 0x1010 },
    { start := 0x1024, stop := 0x102C }]

theorem mergeOverlapping_touchingSpans :
    (∀ span ∈ touchingSpans, span.start < span.stop) ∧
      mergeOverlapping touchingSpans =
        [{ start := 0x1000, stop := 0x1008 }, { start := 0x1008, stop := 0x1010 },
          { start := 0x1020, stop := 0x1030 }] := by
  have nonempty : ∀ span ∈ touchingSpans, span.start < span.stop := by decide
  refine ⟨nonempty, ?_⟩
  have perm : touchingSpans.Perm
      [{ start := 0x1000, stop := 0x1008 }, { start := 0x1008, stop := 0x1010 },
        { start := 0x1020, stop := 0x1028 }, { start := 0x1024, stop := 0x102C },
        { start := 0x1028, stop := 0x1030 }] := by decide
  rw [← (mergeOverlapping_exact touchingSpans nonempty).2.2.1 _ perm.symm, mergeOverlapping,
    List.mergeSort_of_pairwise (by decide)]
  decide

end PowerLift.Span
