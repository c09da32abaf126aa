import PowerLift.Image.VTable

/-!
The search for object locators, one word after the other. It goes on while a whole locator seems to
fit before the end of the section, and fails where its cursor would pass the last address.
-/

namespace PowerLift

namespace VTable

/-- What is found, the last first, when a search goes over a word. -/
def noteLocator (image : Image) (sect : Section) (found : List (UInt32 × String))
    (cursor : UInt32) : List (UInt32 × String) :=
  match locatorName? image sect cursor with
  | some name => (cursor, name) :: found
  | none => found

/-- Searches from the cursor on, after what was found before it. A search that fails gives the
cursor that it cannot move on from. -/
def searchFrom (image : Image) (sect : Section) (found : List (UInt32 × String))
    (cursor : UInt32) : Except UInt32 (List (UInt32 × String)) :=
  if fitsLocator sect cursor then
    if inside : cursor.toNat + 4 < UInt32.size then
      searchFrom image sect (noteLocator image sect found cursor) (cursor + 4)
    else .error cursor
  else .ok found.reverse
termination_by UInt32.size - cursor.toNat
decreasing_by
  have next : (cursor + 4).toNat = cursor.toNat + 4 := by
    rw [UInt32.toNat_add]
    exact Nat.mod_eq_of_lt inside
  omega

/-- The locators of a section, if the search for them comes to its end. -/
def locators? (image : Image) (sect : Section) : Except UInt32 (List (UInt32 × String)) :=
  searchFrom image sect [] sect.address

def scan? (image : Image) (sect : Section) : Except UInt32 (List VTable) :=
  (locators? image sect).map (List.filterMap (ofLocator? image sect))

/-- The virtual tables in all data sections, up to the first search that fails. -/
def scanImage? (image : Image) : Except UInt32 (List VTable) :=
  (image.dataSections.mapM (scan? image)).map List.flatten

end VTable

end PowerLift
