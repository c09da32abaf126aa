import Mathlib
import PowerLift.Search

/-!
Searches by halves find what a search of all items finds. Wherever a search ends, the item there has
the property and the next one has not. Where the items with the property come first, there is one
such place only.
-/

namespace PowerLift.Search

variable {α : Type} {holds : α → Bool} {items : List α}

/-! ## Where a search ends -/

/-- A place in a range at which the property ends: the item there has it or is the first of the
range, the item after it lacks it or is out of the range. -/
structure Border (holds : α → Bool) (items : List α) (base size place : Nat) : Prop where
  above : base ≤ place
  below : place < base + size
  here : place = base ∨ items[place]?.any holds
  next : place + 1 = base + size ∨ ¬ items[place + 1]?.any holds

/-- Whatever the order of the items is, a search ends at such a place. -/
theorem narrow_border (holds : α → Bool) (items : List α) (base : Nat) {size : Nat}
    (nonempty : 0 < size) :
    Border holds items base size (narrow holds items base size) := by
  fun_induction narrow holds items base size with
  | case1 base size single => exact ⟨by omega, by omega, Or.inl rfl, Or.inl (by omega)⟩
  | case2 base size many middle ih =>
      obtain ⟨above, below, here, next⟩ := ih (by omega)
      have same : base + size / 2 + (size - size / 2) = base + size := by omega
      rw [same] at below next
      refine ⟨by omega, below, Or.inr ?_, next⟩
      rcases here with start | found
      · rw [start]
        exact middle
      · exact found
  | case3 base size many middle ih =>
      obtain ⟨above, below, here, next⟩ := ih (by omega)
      refine ⟨above, by omega, here, Or.inr ?_⟩
      rcases next with atEnd | beyond
      · -- What is left ends at the middle or, if the size is odd, right after it.
        obtain before | same : narrow holds items base (size - size / 2) + 1 = base + size / 2 ∨
          narrow holds items base (size - size / 2) = base + size / 2 := by omega
        · rw [before]
          exact middle
        · rcases here with start | found
          · omega
          · rw [same] at found
            exact absurd found middle
      · exact beyond

/-! ## Items in order -/

/-- The items with the property come first. -/
def Divided (holds : α → Bool) (items : List α) : Prop :=
  items.Pairwise fun first second => holds second → holds first

theorem Divided.any_of_le (divided : Divided holds items) {low high : Nat} (order : low ≤ high)
    (has : items[high]?.any holds) : items[low]?.any holds := by
  rcases Nat.eq_or_lt_of_le order with rfl | before
  · exact has
  · obtain ⟨second, found, holdsSecond⟩ := (Option.any_eq_true _ _).mp has
    obtain ⟨bound, rfl⟩ := List.getElem?_eq_some_iff.mp found
    rw [List.getElem?_eq_getElem (by omega : low < items.length), Option.any_some]
    exact List.pairwise_iff_getElem.mp divided low high (by omega) bound before holdsSecond

/-- Items by key, no key twice. -/
def Ascends (key : α → UInt32) (items : List α) : Prop :=
  items.Pairwise fun first second => key first < key second

/-- Of items by key, those up to a key come first. -/
theorem Ascends.divided_le {key : α → UInt32} (ascends : Ascends key items) (wanted : UInt32) :
    Divided (key · ≤ wanted) items := by
  refine ascends.imp ?_
  intro first second less has
  exact decide_eq_true (UInt32.le_of_lt (UInt32.lt_of_lt_of_le less (of_decide_eq_true has)))

theorem Ascends.divided_lt {key : α → UInt32} (ascends : Ascends key items) (wanted : UInt32) :
    Divided (key · < wanted) items := by
  refine ascends.imp ?_
  intro first second less has
  exact decide_eq_true (UInt32.lt_trans less (of_decide_eq_true has))

/-! ## Places -/

/-- The items before the place that is found are those with the property. -/
theorem lt_partitionPoint_iff (divided : Divided holds items) {place : Nat} :
    place < partitionPoint holds items ↔ items[place]?.any holds := by
  rcases Nat.eq_zero_or_pos items.length with empty | nonempty
  · obtain rfl := List.eq_nil_of_length_eq_zero empty
    simp [partitionPoint, narrow]
  · have border := narrow_border holds items 0 nonempty
    rw [partitionPoint]
    split
    next has =>
      refine ⟨fun before => divided.any_of_le (by omega) has, fun found => ?_⟩
      by_contra behind
      rcases border.next with atEnd | without
      · rw [List.getElem?_eq_none (by omega)] at found
        cases found
      · exact without (divided.any_of_le (by omega) found)
    next without =>
      have start := border.here.resolve_right without
      refine ⟨fun before => by omega, fun found => ?_⟩
      exact absurd (divided.any_of_le (by omega) found) without

theorem partitionPoint_eq_findIdx (divided : Divided holds items) :
    partitionPoint holds items = items.findIdx fun item => !holds item := by
  have same : ∀ place, place < partitionPoint holds items ↔
      place < items.findIdx fun item => !holds item := by
    intro place
    rw [lt_partitionPoint_iff divided, List.lt_findIdx_iff]
    constructor
    · intro has
      obtain ⟨item, here, _⟩ := (Option.any_eq_true _ _).mp has
      obtain ⟨bound, _⟩ := List.getElem?_eq_some_iff.mp here
      refine ⟨bound, fun earlier before => ?_⟩
      have held := divided.any_of_le before has
      rw [List.getElem?_eq_getElem (by omega : earlier < items.length), Option.any_some] at held
      rw [held, Bool.not_true]
    · rintro ⟨bound, held⟩
      rw [List.getElem?_eq_getElem bound, Option.any_some]
      simpa using held place (Nat.le_refl _)
  exact Nat.le_antisymm (Nat.le_of_not_lt fun less => Nat.lt_irrefl _ ((same _).mp less))
    (Nat.le_of_not_lt fun less => Nat.lt_irrefl _ ((same _).mpr less))

theorem take_partitionPoint (divided : Divided holds items) :
    items.take (partitionPoint holds items) = items.takeWhile holds := by
  rw [partitionPoint_eq_findIdx divided, List.takeWhile_eq_take_findIdx_not]

theorem drop_partitionPoint (divided : Divided holds items) :
    items.drop (partitionPoint holds items) = items.dropWhile holds := by
  rw [partitionPoint_eq_findIdx divided, List.dropWhile_eq_drop_findIdx_not]

/-- An item that is found has the key, whatever the order of the items is. -/
theorem getElem?_of_placeOf? {key : α → UInt32} {wanted : UInt32} {place : Nat}
    (found : placeOf? key items wanted = some place) :
    ∃ item, items[place]? = some item ∧ key item = wanted := by
  simp only [placeOf?] at found
  split at found
  next has =>
    cases found
    obtain ⟨item, here, same⟩ := (Option.any_eq_true _ _).mp has
    exact ⟨item, here, eq_of_beq same⟩
  next => cases found

/-- A search for the key of an item ends at the item. -/
theorem narrow_eq {key : α → UInt32} (ascends : Ascends key items) {item : α} {place : Nat}
    (here : items[place]? = some item) :
    narrow (key · ≤ key item) items 0 items.length = place := by
  obtain ⟨bound, rfl⟩ := List.getElem?_eq_some_iff.mp here
  have border := narrow_border (key · ≤ key items[place]) items 0 (Nat.zero_lt_of_lt bound)
  have divided := ascends.divided_le (key items[place])
  have holdsHere : items[place]?.any (key · ≤ key items[place]) := by
    rw [here, Option.any_some]
    exact decide_eq_true (UInt32.le_refl _)
  rcases Nat.lt_trichotomy (narrow (key · ≤ key items[place]) items 0 items.length) place with
    before | same | behind
  · -- The next item has the property, since the one that is looked for has it.
    rcases border.next with atEnd | without
    · omega
    · exact absurd (divided.any_of_le before holdsHere) without
  · exact same
  · -- The item there has a key above that one.
    have found := border.here.resolve_left (by omega)
    obtain ⟨other, there, le⟩ := (Option.any_eq_true _ _).mp found
    obtain ⟨inside, rfl⟩ := List.getElem?_eq_some_iff.mp there
    have less := List.pairwise_iff_getElem.mp ascends _ _ bound inside behind
    exact absurd less (UInt32.not_lt.mpr (of_decide_eq_true le))

theorem placeOf?_eq_some_iff {key : α → UInt32} (ascends : Ascends key items) {wanted : UInt32}
    {place : Nat} :
    placeOf? key items wanted = some place ↔
      ∃ item, items[place]? = some item ∧ key item = wanted := by
  refine ⟨getElem?_of_placeOf?, ?_⟩
  rintro ⟨item, here, rfl⟩
  have found : items[place]?.any (key · == key item) := by
    rw [here, Option.any_some]
    exact beq_self_eq_true _
  simp only [placeOf?, narrow_eq ascends here, if_pos found]

theorem placeOf?_isSome_iff {key : α → UInt32} (ascends : Ascends key items) {wanted : UInt32} :
    (placeOf? key items wanted).isSome ↔ ∃ item ∈ items, key item = wanted := by
  rw [Option.isSome_iff_exists]
  simp only [placeOf?_eq_some_iff ascends]
  constructor
  · rintro ⟨place, item, here, same⟩
    exact ⟨item, List.mem_of_getElem? here, same⟩
  · rintro ⟨item, member, same⟩
    obtain ⟨place, here⟩ := List.mem_iff_getElem?.mp member
    exact ⟨place, item, here, same⟩

end PowerLift.Search
