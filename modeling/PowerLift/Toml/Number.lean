import PowerLift.Toml.Lexeme
import PowerLift.Toml.Value

/-!
Numbers and dates of a TOML document. Only integers keep their value. A number with a fraction or
an exponent is refused when it rounds to infinity, and a date when it is not in the calendar.
-/

namespace PowerLift.Toml

/-- Digits with single underscores between them, without the underscores. -/
def digitRun? (base : Nat) : Nat → List Char → Option (List Char × List Char)
  | 0, _ => none
  | _, [] => none
  | fuel + 1, c :: rest =>
    if (Text.digitValue? base c).isNone then none
    else
      match rest with
      | '_' :: rest => do
        let (digits, rest) ← digitRun? base fuel rest
        return (c :: digits, rest)
      | next :: _ =>
        if (Text.digitValue? base next).isNone then some ([c], rest)
        else do
          let (digits, rest) ← digitRun? base fuel rest
          return (c :: digits, rest)
      | [] => some ([c], [])

def digits? (base : Nat) (chars : List Char) : Option (List Char × List Char) :=
  digitRun? base (chars.length + 1) chars

/-- Whether a number is negative, and what follows its sign. -/
def sign : List Char → Bool × List Char
  | '+' :: rest => (false, rest)
  | '-' :: rest => (true, rest)
  | chars => (false, chars)

def signed (negative : Bool) (magnitude : Nat) : Int :=
  if negative then -magnitude else magnitude

/-! ## Integers -/

/-- Integers have 64 bits. -/
def integer? (value : Int) : Option Value :=
  if -0x8000000000000000 ≤ value ∧ value < 0x8000000000000000 then some (.integer value) else none

/-- An integer in another base, after the mark of the base. -/
def radixInteger? (base : Nat) (chars : List Char) : Option (Value × List Char) := do
  let (digits, rest) ← digits? base chars
  let magnitude ← Text.digitsValue? base 0 digits
  let value ← integer? magnitude
  return (value, rest)

/-! ## Decimal numbers -/

/-- The whole part of a decimal number. A leading zero stands alone. -/
def whole? (chars : List Char) : Option (List Char × List Char) :=
  match chars with
  | '0' :: rest => some (['0'], rest)
  | _ => digits? 10 chars

/-- The digits after the point, if there is a point. -/
def fraction? (chars : List Char) : Option (Option (List Char) × List Char) :=
  match chars with
  | '.' :: rest => do
    let (digits, rest) ← digits? 10 rest
    return (some digits, rest)
  | _ => some (none, chars)

/-- The exponent, if there is one. -/
def exponent? (chars : List Char) : Option (Option Int × List Char) :=
  if startsWith ['e', 'E'] chars then do
    let (negative, rest) := sign (chars.drop 1)
    let (digits, rest) ← digits? 10 rest
    let magnitude ← Text.digitsValue? 10 0 digits
    return (some (signed negative magnitude), rest)
  else some (none, chars)

/-- Half a unit past the greatest finite number of double precision. -/
def overflowBound : Nat := 1 <<< 1024 - 1 <<< 970

/-- Whether `digits` times ten to the power `scale` rounds to infinity. -/
def overflows (digits : List Char) (scale : Int) : Bool :=
  let significant := digits.dropWhile (· == '0')
  let magnitude := significant.length + scale
  if significant.isEmpty || magnitude < 300 then false
  else if magnitude > 320 then true
  else
    let value := (Text.digitsValue? 10 0 significant).getD 0
    if scale < 0 then overflowBound * Nat.pow 10 scale.natAbs ≤ value
    else overflowBound ≤ value * Nat.pow 10 scale.natAbs

/-- A decimal number after its sign. -/
def decimal? (negative : Bool) (chars : List Char) : Option (Value × List Char) := do
  let (whole, rest) ← whole? chars
  let (fraction, rest) ← fraction? rest
  let (exponent, rest) ← exponent? rest
  if fraction.isNone && exponent.isNone then
    let magnitude ← Text.digitsValue? 10 0 whole
    let value ← integer? (signed negative magnitude)
    return (value, rest)
  else
    let decimals := fraction.getD []
    let scale := exponent.getD 0 - decimals.length
    if !negative && overflows (whole ++ decimals) scale then none
    else return (.float, rest)

/-! ## Dates and times -/

/-- A number of exactly `count` digits between two bounds. -/
def fixedDigits? (count low high : Nat) (chars : List Char) : Option (Nat × List Char) := do
  let digits := chars.take count
  if digits.length == count then
    let value ← Text.digitsValue? 10 0 digits
    if low ≤ value && value ≤ high then return (value, chars.drop count) else none
  else none

def expect? (c : Char) : List Char → Option (List Char)
  | head :: rest => if head == c then some rest else none
  | [] => none

def isLeapYear (year : Nat) : Bool :=
  year % 4 == 0 && (year % 100 != 0 || year % 400 == 0)

def monthLength (year month : Nat) : Nat :=
  if month == 2 then (if isLeapYear year then 29 else 28)
  else if month ∈ [4, 6, 9, 11] then 30
  else 31

def date? (chars : List Char) : Option (List Char) := do
  let (year, rest) ← fixedDigits? 4 0 9999 chars
  let rest ← expect? '-' rest
  let (month, rest) ← fixedDigits? 2 1 12 rest
  let rest ← expect? '-' rest
  let (_, rest) ← fixedDigits? 2 1 (monthLength year month) rest
  return rest

/-- A time of day. A minute may have a leap second. -/
def time? (chars : List Char) : Option (List Char) := do
  let (_, rest) ← fixedDigits? 2 0 23 chars
  let rest ← expect? ':' rest
  let (_, rest) ← fixedDigits? 2 0 59 rest
  let rest ← expect? ':' rest
  let (_, rest) ← fixedDigits? 2 0 60 rest
  match rest with
  | '.' :: fraction =>
    let tail := fraction.dropWhile Char.isDigit
    if tail.length < fraction.length then return tail else none
  | _ => return rest

/-- The distance of a local time from universal time. -/
def offset? (chars : List Char) : Option (List Char) := do
  match chars with
  | 'Z' :: rest => return rest
  | 'z' :: rest => return rest
  | '+' :: rest | '-' :: rest =>
    let (_, rest) ← fixedDigits? 2 0 23 rest
    let rest ← expect? ':' rest
    let (_, rest) ← fixedDigits? 2 0 59 rest
    return rest
  | _ => none

/-- A date, a time, or both with an optional offset. -/
def datetime? (chars : List Char) : Option (List Char) :=
  match date? chars with
  | none => time? chars
  | some rest =>
    if startsWith ['T', 't', ' '] rest then
      match time? (rest.drop 1) with
      | some later => some ((offset? later).getD later)
      | none => some rest
    else some rest

/-! ## All of them -/

/-- A word at the start of the characters left. -/
def word? (word : String) (chars : List Char) : Option (List Char) :=
  if word.toList.isPrefixOf chars then some (chars.drop word.length) else none

/-- Infinity, or the value that is no number. -/
def special? (chars : List Char) : Option (List Char) :=
  (word? "inf" chars).or (word? "nan" chars)

/-- A number or a date. -/
def number? (chars : List Char) : Option (Value × List Char) :=
  match datetime? chars with
  | some rest => some (.datetime, rest)
  | none =>
    match chars with
    | '0' :: 'x' :: rest => radixInteger? 16 rest
    | '0' :: 'o' :: rest => radixInteger? 8 rest
    | '0' :: 'b' :: rest => radixInteger? 2 rest
    | _ =>
      let (negative, rest) := sign chars
      match special? rest with
      | some rest => some (.float, rest)
      | none => decimal? negative rest

end PowerLift.Toml
