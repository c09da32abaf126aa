/-!
Machine words: bit fields of a 32-bit word, wrapping and saturating address arithmetic, and the
hexadecimal text of numbers.
-/

namespace PowerLift

/-- The `width` bits of `word` whose least significant one is bit `low`, as a number. -/
def bits (word : UInt32) (low width : Nat) : Nat :=
  word.toNat >>> low % (1 <<< width)

/-- Whether bit `index` of `word` is set. -/
def bit (word : UInt32) (index : Nat) : Bool :=
  bits word index 1 == 1

/-- A number of `width` bits, read in two's complement. -/
def signExtend (value width : Nat) : Int :=
  if 2 * value < 1 <<< width then value else value - (1 <<< width : Nat)

/-- The least address above `address` by `offset` bytes, at most the last address. -/
def saturatingAdd (address offset : UInt32) : UInt32 :=
  if address.toNat + offset.toNat < UInt32.size then address + offset else 0xFFFFFFFF

/-- The sum of two addresses, if it is an address. -/
def checkedAdd (address offset : UInt32) : Option UInt32 :=
  if address.toNat + offset.toNat < UInt32.size then some (address + offset) else none

/-- Words are stored and fetched at multiples of four. -/
def aligned (address : UInt32) : Bool :=
  address % 4 == 0

/-- The digits of a number in base sixteen, capital letters, no leading zeros. -/
def hex (value : Nat) : String :=
  String.ofList ((Nat.toDigits 16 value).map Char.toUpper)

/-- The digits of a number in base sixteen, at least `width` of them. -/
def paddedHex (width value : Nat) : String :=
  let digits := hex value
  String.ofList (List.replicate (width - digits.length) '0') ++ digits

/-- An address as messages and emitted code write it. -/
def addressText (address : UInt32) : String :=
  "0x" ++ paddedHex 8 address.toNat

end PowerLift
