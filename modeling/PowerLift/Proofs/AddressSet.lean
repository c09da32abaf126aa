import Mathlib
import PowerLift.Discovery.AddressSet
import PowerLift.Word

/-!
Laws of address sets: membership, order and size.
-/

namespace PowerLift

theorem aligned_iff {address : UInt32} : aligned address ↔ address.toNat % 4 = 0 := by
  simp [aligned, ← UInt32.toNat_inj]

theorem toNat_add_four {address : UInt32} (room : address.toNat + 4 < UInt32.size) :
    (address + 4).toNat = address.toNat + 4 := by
  rw [UInt32.toNat_add]
  exact Nat.mod_eq_of_lt room

theorem aligned_next {address : UInt32} (word : aligned address)
    (next : (address + 4).toNat = address.toNat + 4) : aligned (address + 4) := by
  have := aligned_iff.mp word
  exact aligned_iff.mpr (by omega)

theorem toNat_max (first second : UInt32) :
    (max first second).toNat = max first.toNat second.toNat := by
  change (if first ≤ second then second else first).toNat = _
  split
  next le => rw [Nat.max_eq_right (UInt32.le_iff_toNat_le.mp le)]
  next notLe =>
    rw [Nat.max_eq_left (Nat.le_of_lt (UInt32.lt_iff_toNat_lt.mp (UInt32.not_le.mp notLe)))]

instance maxEqOrAddress : Std.MaxEqOr UInt32 where
  max_eq_or first second := by
    change (if first ≤ second then second else first) = first ∨
      (if first ≤ second then second else first) = second
    split
    · exact Or.inr rfl
    · exact Or.inl rfl

theorem toNat_min (first second : UInt32) :
    (min first second).toNat = min first.toNat second.toNat := by
  change (if first ≤ second then first else second).toNat = _
  split
  next le => rw [Nat.min_eq_left (UInt32.le_iff_toNat_le.mp le)]
  next notLe =>
    rw [Nat.min_eq_right (Nat.le_of_lt (UInt32.lt_iff_toNat_lt.mp (UInt32.not_le.mp notLe)))]

theorem below_min {first second third : UInt32} (below : first < second) (under : first < third) :
    first < min second third := by
  rw [UInt32.lt_iff_toNat_lt] at *
  rw [toNat_min]
  omega

theorem below_max {first second : UInt32} (below : first < second) (third : UInt32) :
    first < max second third := by
  rw [UInt32.lt_iff_toNat_lt] at *
  rw [toNat_max]
  omega

theorem toNat_saturatingAdd (address offset : UInt32) :
    (saturatingAdd address offset).toNat = min (address.toNat + offset.toNat) 4294967295 := by
  have size : UInt32.size = 4294967296 := rfl
  unfold saturatingAdd
  split
  next fits =>
    rw [UInt32.toNat_add]
    omega
  next overflows =>
    change 4294967295 = _
    omega

theorem toNat_sub {larger smaller : UInt32} (le : smaller.toNat ≤ larger.toNat) :
    (larger - smaller).toNat = larger.toNat - smaller.toNat :=
  UInt32.toNat_sub_of_le _ _ (UInt32.le_iff_toNat_le.mpr le)

namespace AddressSet

/-- In increasing order, so without repetition. -/
def Sorted (set : List UInt32) : Prop :=
  set.Pairwise (· < ·)

@[simp] theorem sorted_nil : Sorted [] :=
  List.Pairwise.nil

theorem Sorted.tail {head : UInt32} {rest : List UInt32} (sorted : Sorted (head :: rest)) :
    Sorted rest :=
  (List.pairwise_cons.mp sorted).2

@[simp] theorem mem_insert {address other : UInt32} {set : List UInt32} :
    other ∈ insert address set ↔ other = address ∨ other ∈ set := by
  induction set with
  | nil => simp [insert]
  | cons head rest ih =>
      simp only [insert]
      split
      · simp
      · split
        next same =>
          subst same
          simp
        next =>
          simp only [List.mem_cons, ih]
          constructor
          · rintro (here | found | there)
            · exact Or.inr (Or.inl here)
            · exact Or.inl found
            · exact Or.inr (Or.inr there)
          · rintro (found | here | there)
            · exact Or.inr (Or.inl found)
            · exact Or.inl here
            · exact Or.inr (Or.inr there)

theorem mem_insert_if {address other : UInt32} {set : List UInt32} {condition : Prop}
    [Decidable condition] :
    other ∈ (if condition then insert address set else set) ↔
      other ∈ set ∨ condition ∧ other = address := by
  split
  next holds => simp [holds, or_comm]
  next fails => simp [fails]

theorem Sorted.insert {address : UInt32} {set : List UInt32} (sorted : Sorted set) :
    Sorted (insert address set) := by
  induction set with
  | nil => simp [AddressSet.insert, Sorted]
  | cons head rest ih =>
      obtain ⟨above, restSorted⟩ := List.pairwise_cons.mp sorted
      simp only [AddressSet.insert]
      split
      next below =>
        refine List.pairwise_cons.mpr ⟨?_, sorted⟩
        intro other member
        rcases List.mem_cons.mp member with rfl | there
        · exact below
        · exact UInt32.lt_trans below (above other there)
      next notBelow =>
        split
        next => exact sorted
        next different =>
          refine List.pairwise_cons.mpr ⟨?_, ih restSorted⟩
          intro other member
          rcases mem_insert.mp member with rfl | there
          · exact UInt32.lt_of_le_of_ne (UInt32.not_lt.mp notBelow) (Ne.symm different)
          · exact above other there

theorem Sorted.insert_if {address : UInt32} {set : List UInt32} {condition : Prop}
    [Decidable condition] (sorted : Sorted set) :
    Sorted (if condition then AddressSet.insert address set else set) := by
  split
  · exact sorted.insert
  · exact sorted

theorem insert_append {address : UInt32} {before : List UInt32} (after : List UInt32)
    (below : ∀ other ∈ before, other < address) :
    insert address (before ++ after) = before ++ insert address after := by
  induction before with
  | nil => rfl
  | cons head rest ih =>
      have smaller := below head List.mem_cons_self
      rw [List.cons_append, insert, if_neg (UInt32.lt_asymm smaller),
        if_neg (UInt32.ne_of_lt smaller).symm,
        ih fun other member => below other (List.mem_cons_of_mem _ member)]
      rfl

theorem insert_of_mem {address : UInt32} {set : List UInt32} (sorted : Sorted set)
    (member : address ∈ set) : insert address set = set := by
  induction set with
  | nil => cases member
  | cons head rest ih =>
      obtain ⟨above, restSorted⟩ := List.pairwise_cons.mp sorted
      simp only [insert]
      rcases List.mem_cons.mp member with rfl | there
      · simp [UInt32.lt_irrefl]
      · have larger := above address there
        rw [if_neg (UInt32.lt_asymm larger), if_neg (UInt32.ne_of_lt larger).symm,
          ih restSorted there]

theorem length_insert {address : UInt32} {set : List UInt32} (absent : address ∉ set) :
    (insert address set).length = set.length + 1 := by
  induction set with
  | nil => rfl
  | cons head rest ih =>
      simp only [List.mem_cons, not_or] at absent
      simp only [insert]
      split
      · rfl
      · rw [if_neg absent.1, List.length_cons, List.length_cons, ih absent.2]

@[simp] theorem mem_insertAll {addresses set : List UInt32} {other : UInt32} :
    other ∈ insertAll addresses set ↔ other ∈ addresses ∨ other ∈ set := by
  induction addresses generalizing set with
  | nil => simp [insertAll]
  | cons address rest ih =>
      change other ∈ insertAll rest (insert address set) ↔ _
      rw [ih, mem_insert, List.mem_cons]
      tauto

theorem Sorted.insertAll {addresses set : List UInt32} (sorted : Sorted set) :
    Sorted (insertAll addresses set) := by
  induction addresses generalizing set with
  | nil => exact sorted
  | cons address rest ih => exact ih sorted.insert

theorem next?_eq_some {address next : UInt32} {set : List UInt32} (sorted : Sorted set)
    (found : next? address set = some next) :
    next ∈ set ∧ address < next ∧ ∀ other ∈ set, address < other → next ≤ other := by
  refine ⟨List.mem_of_find?_eq_some found, by simpa using List.find?_some found, ?_⟩
  intro other member above
  obtain ⟨_, before, after, rfl, skipped⟩ := List.find?_eq_some_iff_append.mp found
  rcases List.mem_append.mp member with early | late
  · have := skipped other early
    simp [above] at this
  · rcases List.mem_cons.mp late with rfl | there
    · exact UInt32.le_refl _
    · have order := (List.pairwise_append.mp sorted).2.1
      exact UInt32.le_of_lt ((List.pairwise_cons.mp order).1 other there)

theorem next?_eq_none {address : UInt32} {set : List UInt32}
    (missing : next? address set = none) {other : UInt32} (member : other ∈ set) :
    ¬ address < other := by
  simpa using List.find?_eq_none.mp missing other member

theorem Sorted.nodup {set : List UInt32} (sorted : Sorted set) : set.Nodup :=
  sorted.imp fun less => UInt32.ne_of_lt less

theorem length_le_of_between {set : List UInt32} {low high : Nat} (sorted : Sorted set)
    (between : ∀ address ∈ set, low ≤ address.toNat ∧ address.toNat < high) :
    set.length ≤ high - low := by
  have distinct : (set.map UInt32.toNat).Nodup :=
    sorted.nodup.map fun _ _ equal => UInt32.toNat_inj.mp equal
  have inside : set.map UInt32.toNat ⊆ List.range' low (high - low) := by
    intro value member
    obtain ⟨address, addressMember, rfl⟩ := List.mem_map.mp member
    have bounds := between address addressMember
    simp only [List.mem_range'_1]
    omega
  have count := (List.subperm_of_subset distinct inside).length_le
  simpa using count

end AddressSet

end PowerLift
