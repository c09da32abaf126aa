import Mathlib
import PowerLift.Image.LocatorSearch
import PowerLift.Proofs.VirtualTables

/-!
Where the search for object locators ends. A whole locator is taken to fit when its end, cut off at
the last address, does not lie behind the section. This holds at every cursor if the section itself
ends with the last address: there the search never comes to its end, and in all other sections it
does, before the cursor can leave the address space.
-/

namespace PowerLift

namespace VTable

/-- The search of a section stands at a cursor after a number of rounds. -/
inductive Stands (sect : Section) : Nat → UInt32 → Prop where
  | start : Stands sect 0 sect.address
  | round {rounds : Nat} {cursor : UInt32} (before : Stands sect rounds cursor)
      (fits : fitsLocator sect cursor) (inside : cursor.toNat + 4 < UInt32.size) :
      Stands sect (rounds + 1) (cursor + 4)

/-- After a number of rounds no locator fits any more. -/
def Exits (sect : Section) (rounds : Nat) : Prop :=
  ∃ cursor, Stands sect rounds cursor ∧ ¬ fitsLocator sect cursor

/-- In the round after these the cursor passes the last address. -/
def Overruns (sect : Section) (rounds : Nat) : Prop :=
  ∃ cursor, Stands sect rounds cursor ∧ fitsLocator sect cursor ∧
    UInt32.size ≤ cursor.toNat + 4

section

variable {image : Image} {sect : Section}

/-! ## Rounds -/

theorem fitsLocator_iff_stop {cursor : UInt32} :
    fitsLocator sect cursor ↔
      sect.stop = 0xFFFFFFFF ∨ cursor.toNat + 20 ≤ sect.stop.toNat := by
  have size : locatorSize.toNat = 20 := rfl
  have last : sect.stop = 0xFFFFFFFF ↔ sect.stop.toNat = 4294967295 := UInt32.toNat_inj.symm
  have bound := sect.stop.toNat_lt
  simp only [fitsLocator, decide_eq_true_eq, UInt32.le_iff_toNat_le, toNat_saturatingAdd, size,
    last]
  omega

theorem Stands.place {rounds : Nat} {cursor : UInt32} (stands : Stands sect rounds cursor) :
    cursor.toNat = sect.address.toNat + 4 * rounds := by
  induction stands with
  | start => rfl
  | round _ _ inside ih =>
      rw [toNat_add_four inside, ih]
      omega

/-- The search makes a round as long as a locator fits at each cursor before. -/
theorem exists_stands (rounds : Nat) (bound : sect.address.toNat + 4 * rounds < UInt32.size)
    (fits : ∀ cursor : UInt32, cursor.toNat + 4 ≤ sect.address.toNat + 4 * rounds →
      fitsLocator sect cursor) : ∃ cursor, Stands sect rounds cursor := by
  induction rounds with
  | zero => exact ⟨_, .start⟩
  | succ rounds ih =>
      obtain ⟨cursor, stands⟩ := ih (by omega) fun cursor before => fits cursor (by omega)
      have place := stands.place
      exact ⟨cursor + 4, stands.round (fits cursor (by omega)) (by omega)⟩

/-! ## Sections that end elsewhere -/

/-- A section that passes the last address ends before it begins. -/
theorem toNat_stop_le (sect : Section) :
    sect.stop.toNat ≤ sect.address.toNat + sect.size.toNat := by
  rw [Section.stop, UInt32.toNat_add]
  exact Nat.mod_le _ _

theorem exists_exits (elsewhere : sect.stop ≠ 0xFFFFFFFF) :
    ∃ rounds ≤ sect.size.toNat / 4, Exits sect rounds := by
  have bound := sect.stop.toNat_lt
  have size : UInt32.size = 4294967296 := rfl
  have before := toNat_stop_le sect
  by_cases none : sect.stop.toNat < sect.address.toNat + 20
  · refine ⟨0, by omega, sect.address, .start, ?_⟩
    rw [fitsLocator_iff_stop]
    rintro (last | fits)
    · exact elsewhere last
    · omega
  · -- One round for each place where a locator fits.
    have room : sect.address.toNat + 20 ≤ sect.stop.toNat := by omega
    have fits (cursor : UInt32) (early : cursor.toNat + 4 ≤ sect.address.toNat +
        4 * ((sect.stop.toNat - sect.address.toNat - 16) / 4)) : fitsLocator sect cursor :=
      fitsLocator_iff_stop.mpr (.inr (by omega))
    obtain ⟨cursor, stands⟩ := exists_stands _ (by omega) fits
    have place := stands.place
    refine ⟨_, by omega, cursor, stands, ?_⟩
    rw [fitsLocator_iff_stop]
    rintro (last | fits)
    · exact elsewhere last
    · omega

theorem not_overruns (elsewhere : sect.stop ≠ 0xFFFFFFFF) (rounds : Nat) :
    ¬ Overruns sect rounds := by
  rintro ⟨cursor, _, fits, past⟩
  have bound := sect.stop.toNat_lt
  have size : UInt32.size = 4294967296 := rfl
  rcases fitsLocator_iff_stop.mp fits with last | room
  · exact elsewhere last
  · omega

/-! ## Sections that end with the last address -/

theorem not_exits (last : sect.stop = 0xFFFFFFFF) (rounds : Nat) : ¬ Exits sect rounds := by
  rintro ⟨cursor, _, tight⟩
  exact tight (fitsLocator_iff_stop.mpr (.inl last))

theorem overruns_of_last (last : sect.stop = 0xFFFFFFFF) :
    Overruns sect (sect.size.toNat / 4) := by
  have whole : sect.address.toNat + sect.size.toNat = 4294967295 := by
    have number : sect.stop.toNat = 4294967295 := by rw [last]; rfl
    rw [Section.stop, UInt32.toNat_add] at number
    have start := sect.address.toNat_lt
    have size := sect.size.toNat_lt
    omega
  have size : UInt32.size = 4294967296 := rfl
  obtain ⟨cursor, stands⟩ := exists_stands (sect.size.toNat / 4) (by omega)
    fun _ _ => fitsLocator_iff_stop.mpr (.inl last)
  have place := stands.place
  exact ⟨cursor, stands, fitsLocator_iff_stop.mpr (.inl last), by omega⟩

/-! ## What the search finds -/

theorem locators?_of_stands (image : Image) {rounds : Nat} {cursor : UInt32}
    (stands : Stands sect rounds cursor) :
    ∃ found, locators? image sect = searchFrom image sect found cursor := by
  induction stands with
  | start => exact ⟨[], rfl⟩
  | round _ fits inside ih =>
      obtain ⟨found, same⟩ := ih
      rw [searchFrom, if_pos fits, dif_pos inside] at same
      exact ⟨_, same⟩

theorem searchFrom_eq_ok (elsewhere : sect.stop ≠ 0xFFFFFFFF) {fuel : Nat} {cursor : UInt32}
    (enough : UInt32.size ≤ cursor.toNat + 4 * fuel) (found : List (UInt32 × String)) :
    searchFrom image sect found cursor =
      .ok (found.reverse ++ locatorsFrom image sect fuel cursor) := by
  induction fuel generalizing cursor found with
  | zero =>
      have bound := cursor.toNat_lt
      have size : UInt32.size = 4294967296 := rfl
      omega
  | succ fuel ih =>
      rw [searchFrom, locatorsFrom]
      split
      next fits =>
        have inside : cursor.toNat + 4 < UInt32.size := by
          have bound := sect.stop.toNat_lt
          have size : UInt32.size = 4294967296 := rfl
          have room := (fitsLocator_iff_stop.mp fits).resolve_left elsewhere
          omega
        rw [dif_pos inside, ih (by rw [toNat_add_four inside]; omega), noteLocator]
        cases locatorName? image sect cursor with
        | none => rfl
        | some name => simp
      next => simp

/-- Further rounds past the stored bytes find nothing. -/
theorem locatorsFrom_eq_locators (elsewhere : sect.stop ≠ 0xFFFFFFFF) {fuel : Nat}
    (enough : UInt32.size ≤ sect.address.toNat + 4 * fuel) :
    locatorsFrom image sect fuel sect.address = locators image sect := by
  have size : UInt32.size = 4294967296 := rfl
  by_cases ends : sect.address.toNat + sect.size.toNat < 4294967295
  · have members : ∀ locator, locator ∈ locatorsFrom image sect fuel sect.address ↔
        locator ∈ locators image sect := by
      rintro ⟨locator, name⟩
      rw [mem_locators ends, mem_locatorsFrom ends, locatorName?_eq_some]
      constructor
      · rintro ⟨bounds, signature, descriptor⟩
        exact ⟨⟨(locator.toNat - sect.address.toNat) / 4, by omega⟩, by omega, signature,
          descriptor⟩
      · rintro ⟨⟨index, place⟩, room, signature, descriptor⟩
        exact ⟨by omega, signature, descriptor⟩
    have nodup {rounds : Nat} : (locatorsFrom image sect rounds sect.address).Nodup := by
      refine (locatorsFrom_sorted ends rounds sect.address).imp ?_
      rintro one other below rfl
      exact UInt32.lt_irrefl _ below
    refine ((List.perm_ext_iff_of_nodup nodup nodup).mpr members).eq_of_pairwise ?_
      (locatorsFrom_sorted ends _ _) (locatorsFrom_sorted ends _ _)
    intro one other _ _ below above
    exact absurd (UInt32.lt_trans below above) (UInt32.lt_irrefl _)
  · -- The section passes the last address, so it ends before it begins.
    have tight : ¬ fitsLocator sect sect.address := by
      have start := sect.address.toNat_lt
      have bound := sect.size.toNat_lt
      have number : sect.stop.toNat ≠ 4294967295 := fun same =>
        elsewhere (UInt32.toNat_inj.mp same)
      rw [fitsLocator_iff_stop]
      rintro (last | fits)
      · exact elsewhere last
      · rw [Section.stop, UInt32.toNat_add] at fits number
        omega
    have nothing (rounds : Nat) : locatorsFrom image sect rounds sect.address = [] := by
      cases rounds with
      | zero => rfl
      | succ rounds => rw [locatorsFrom, if_neg tight]
    rw [locators, nothing, nothing]

/-! ## The whole search -/

/-- The search of a section ends, after at most as many rounds as the section has words, if and only
if the section does not end with the last address. Then it gives the locators of the section, and
its tables. In a section that ends there it never ends: its cursor passes the last address. -/
theorem locators?_ends_iff (image : Image) (sect : Section) :
    (((∃ rounds ≤ sect.size.toNat / 4 + 1, Exits sect rounds) ∧
        ∀ rounds, ¬ Overruns sect rounds) ↔ sect.stop ≠ 0xFFFFFFFF) ∧
      (sect.stop ≠ 0xFFFFFFFF → locators? image sect = .ok (locators image sect) ∧
        scan? image sect = .ok (scan image sect)) ∧
      (sect.stop = 0xFFFFFFFF → (∀ rounds, ¬ Exits sect rounds) ∧
        Overruns sect (sect.size.toNat / 4) ∧
        ∃ cursor, Stands sect (sect.size.toNat / 4) cursor ∧
          locators? image sect = .error cursor) := by
  refine ⟨⟨?_, ?_⟩, ?_, ?_⟩
  · rintro ⟨⟨rounds, _, exits⟩, _⟩ last
    exact not_exits last rounds exits
  · intro elsewhere
    obtain ⟨rounds, few, exits⟩ := exists_exits elsewhere
    exact ⟨⟨rounds, by omega, exits⟩, not_overruns elsewhere⟩
  · intro elsewhere
    have enough : UInt32.size ≤ sect.address.toNat + 4 * UInt32.size := by omega
    have found : locators? image sect = .ok (locators image sect) := by
      rw [locators?, searchFrom_eq_ok elsewhere enough, List.reverse_nil, List.nil_append,
        locatorsFrom_eq_locators elsewhere enough]
    exact ⟨found, by rw [scan?, found]; rfl⟩
  · intro last
    obtain ⟨cursor, stands, fits, past⟩ := overruns_of_last last
    refine ⟨not_exits last, ⟨cursor, stands, fits, past⟩, cursor, stands, ?_⟩
    obtain ⟨found, same⟩ := locators?_of_stands image stands
    rw [same, searchFrom, if_pos fits, dif_neg (Nat.not_lt.mpr past)]

/-- A section without locators up to the last address, which does not belong to it. -/
def topSection : Section :=
  { name := ".rdata"
    address := 0xFFFFFFE0
    size := 31
    data := Array.replicate 31 1
    executable := false }

def topImage : Image :=
  { container := .flat, entry := 0, sections := [topSection] }

theorem topSection_overruns :
    topSection.stop = 0xFFFFFFFF ∧ (∀ rounds, ¬ Exits topSection rounds) ∧
      Overruns topSection 7 ∧ locators? topImage topSection = .error 0xFFFFFFFC := by
  have last : topSection.stop = 0xFFFFFFFF := by decide
  obtain ⟨endless, overruns, cursor, stands, failed⟩ :=
    (locators?_ends_iff topImage topSection).2.2 last
  have place : cursor = 0xFFFFFFFC := UInt32.toNat_inj.mp stands.place
  exact ⟨last, endless, overruns, place ▸ failed⟩

end

end VTable

end PowerLift
