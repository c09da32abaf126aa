/-!
Rotate masks. Bits are numbered from the most significant one, and a mask whose first bit comes
after its last one wraps around.
-/

namespace PowerLift

/-- The 32-bit mask with ones from bit `first` through bit `last`. -/
def rotateMask32 (first last : Nat) : UInt32 :=
  let upper := (0xFFFFFFFF : UInt32) >>> UInt32.ofNat (first % 32)
  let lower := (0xFFFFFFFF : UInt32) <<< UInt32.ofNat (31 - last % 32)
  if first ≤ last then upper &&& lower else upper ||| lower

/-- The 64-bit mask with ones from bit `first` through bit `last`. -/
def rotateMask64 (first last : Nat) : UInt64 :=
  let upper := (0xFFFFFFFFFFFFFFFF : UInt64) >>> UInt64.ofNat (first % 64)
  let lower := (0xFFFFFFFFFFFFFFFF : UInt64) <<< UInt64.ofNat (63 - last % 64)
  if first ≤ last then upper &&& lower else upper ||| lower

end PowerLift
