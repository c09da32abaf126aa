import PowerLift.Word

/-!
Sections of an image: a range of addresses with the bytes stored for it. A section may be larger
than its bytes; addresses past them are mapped and cannot be read.
-/

namespace PowerLift

/-- The word that four bytes store, most significant byte first. -/
def wordOfBytes (a b c d : UInt8) : UInt32 :=
  UInt32.ofNat (((a.toNat * 256 + b.toNat) * 256 + c.toNat) * 256 + d.toNat)

/-- The word at an offset into stored bytes. -/
def wordAt? (data : Array UInt8) (offset : Nat) : Option UInt32 := do
  let a ← data[offset]?
  let b ← data[offset + 1]?
  let c ← data[offset + 2]?
  let d ← data[offset + 3]?
  return wordOfBytes a b c d

/-- The bytes from an offset on, if that many are stored. -/
def bytesAt? (data : Array UInt8) (offset count : Nat) : Option (Array UInt8) :=
  if offset + count ≤ data.size then some (data.extract offset (offset + count)) else none

structure Section where
  name : String
  address : UInt32
  size : UInt32
  data : Array UInt8
  executable : Bool
deriving DecidableEq, Inhabited

namespace Section

/-- One past the last address. A section that reaches the top of the address space ends at zero. -/
def stop (sect : Section) : UInt32 :=
  sect.address + sect.size

def contains (sect : Section) (address : UInt32) : Bool :=
  sect.address ≤ address && address < sect.stop

/-- Where the byte of an address is stored. -/
def offset (sect : Section) (address : UInt32) : Nat :=
  (address - sect.address).toNat

/-- The bytes from an address in the section on, if that many are stored. -/
def bytes? (sect : Section) (address : UInt32) (count : Nat) : Option (Array UInt8) :=
  if sect.contains address then bytesAt? sect.data (sect.offset address) count else none

/-- The word at an address in the section, if all of it is stored. -/
def read? (sect : Section) (address : UInt32) : Option UInt32 :=
  if sect.contains address then wordAt? sect.data (sect.offset address) else none

/-- The stored words in order, with their addresses. -/
def words (sect : Section) : List (UInt32 × UInt32) :=
  (List.range (sect.data.size / 4)).filterMap fun index =>
    (wordAt? sect.data (4 * index)).map fun word =>
      (sect.address + UInt32.ofNat (4 * index), word)

end Section

end PowerLift
