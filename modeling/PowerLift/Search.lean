/-!
Searches by halves. They look at a few items only, so what they answer holds of the others if the
items come in order.
-/

namespace PowerLift.Search

variable {α : Type}

/-- Halves the items that are left, `size` of them from `base` on, until there is one. It is the
last with the property, if any has it and those that have it come first. -/
def narrow (holds : α → Bool) (items : List α) (base size : Nat) : Nat :=
  if size ≤ 1 then base
  else if items[base + size / 2]?.any holds then
    narrow holds items (base + size / 2) (size - size / 2)
  else narrow holds items base (size - size / 2)
termination_by size

/-- The place of the first item without the property, if those that have it come first. -/
def partitionPoint (holds : α → Bool) (items : List α) : Nat :=
  let last := narrow holds items 0 items.length
  if items[last]?.any holds then last + 1 else last

/-- The place of the item with the given key, if the items come by key. -/
def placeOf? (key : α → UInt32) (items : List α) (wanted : UInt32) : Option Nat :=
  let last := narrow (key · ≤ wanted) items 0 items.length
  if items[last]?.any (key · == wanted) then some last else none

end PowerLift.Search
