/-!
Finite sets of addresses, as lists in increasing order.
-/

namespace PowerLift.AddressSet

def insert (address : UInt32) : List UInt32 → List UInt32
  | [] => [address]
  | head :: rest =>
    if address < head then address :: head :: rest
    else if address = head then head :: rest
    else head :: insert address rest

def insertAll (addresses : List UInt32) (set : List UInt32) : List UInt32 :=
  addresses.foldl (fun set address => insert address set) set

/-- The least member above an address. -/
def next? (address : UInt32) (set : List UInt32) : Option UInt32 :=
  set.find? (address < ·)

end PowerLift.AddressSet
