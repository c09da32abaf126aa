/-!
Numbers written in digits.
-/

namespace PowerLift.Text

/-- The value of a digit in bases up to sixteen. -/
def digitValue? (base : Nat) (c : Char) : Option Nat :=
  let value? :=
    if '0' ≤ c && c ≤ '9' then some (c.toNat - '0'.toNat)
    else if 'a' ≤ c && c ≤ 'f' then some (c.toNat - 'a'.toNat + 10)
    else if 'A' ≤ c && c ≤ 'F' then some (c.toNat - 'A'.toNat + 10)
    else none
  value?.filter (· < base)

/-- The number that the digits write after those already read. -/
def digitsValue? (base : Nat) : Nat → List Char → Option Nat
  | read, [] => some read
  | read, c :: rest => do
    let digit ← digitValue? base c
    digitsValue? base (base * read + digit) rest

/-- The number that one or more digits write, with an optional plus sign, if it is below `limit`. -/
def unsigned? (base limit : Nat) (chars : List Char) : Option Nat :=
  let digits :=
    match chars with
    | '+' :: rest => rest
    | _ => chars
  if digits.isEmpty then none else (digitsValue? base 0 digits).filter (· < limit)

end PowerLift.Text
