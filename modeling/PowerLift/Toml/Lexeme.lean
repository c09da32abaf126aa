import PowerLift.Text.Digits

/-!
Blanks, comments, strings and keys of a TOML document. Each reader takes the characters left and
gives what it read with the characters after it.
-/

namespace PowerLift.Toml

def skipBlank (chars : List Char) : List Char :=
  chars.dropWhile fun c => c == ' ' || c == '\t'

/-- Whether one of the given characters comes next. -/
def startsWith (expected : List Char) : List Char → Bool
  | c :: _ => expected.contains c
  | [] => false

def newline? : List Char → Option (List Char)
  | '\n' :: rest => some rest
  | '\r' :: '\n' :: rest => some rest
  | _ => none

/-- Characters that may stand in a comment or a string on one line. -/
def isPrintable (c : Char) : Bool :=
  c == '\t' || (' ' ≤ c && c != '\x7f')

/-- The rest after an optional comment. -/
def skipComment : List Char → List Char
  | '#' :: rest => rest.dropWhile isPrintable
  | chars => chars

/-- The next line, if nothing but blanks and a comment is left on this one. -/
def lineEnd? (chars : List Char) : Option (List Char) :=
  match skipComment (skipBlank chars) with
  | [] => some []
  | rest => newline? rest

/-- The rest after blanks and line ends. -/
def skipLines : Nat → List Char → List Char
  | 0, chars => chars
  | fuel + 1, chars =>
    match newline? (skipBlank chars) with
    | some rest => skipLines fuel rest
    | none => skipBlank chars

/-- The rest after blanks, comments and line ends, as between the items of an array. A comment
there ends with its line. -/
def skipSpace? : Nat → List Char → Option (List Char)
  | 0, _ => none
  | fuel + 1, chars =>
    let next := skipBlank chars
    if startsWith ['#', '\n', '\r'] next then do
      let rest ← newline? (skipComment next)
      skipSpace? fuel rest
    else some next

/-! ## Strings -/

/-- The character with the given number, if there is one. -/
def scalar? (code : Nat) : Option Char :=
  if code.isValidChar then some (Char.ofNat code) else none

/-- The character that `count` hexadecimal digits name. -/
def hexEscape? (count : Nat) (chars : List Char) : Option (Char × List Char) := do
  let digits := chars.take count
  if digits.length == count then
    let code ← Text.digitsValue? 16 0 digits
    let c ← scalar? code
    return (c, chars.drop count)
  else none

/-- The character that an escape names, after its backslash. -/
def escape? : List Char → Option (Char × List Char)
  | 'b' :: rest => some ('\x08', rest)
  | 't' :: rest => some ('\t', rest)
  | 'n' :: rest => some ('\n', rest)
  | 'f' :: rest => some ('\x0c', rest)
  | 'r' :: rest => some ('\r', rest)
  | '"' :: rest => some ('"', rest)
  | '\\' :: rest => some ('\\', rest)
  | 'u' :: rest => hexEscape? 4 rest
  | 'U' :: rest => hexEscape? 8 rest
  | _ => none

/-- The body of a string in double quotes, up to the closing one. -/
def basicBody : Nat → List Char → Option (List Char × List Char)
  | 0, _ => none
  | _, [] => none
  | _, '"' :: rest => some ([], rest)
  | fuel + 1, '\\' :: rest => do
    let (c, rest) ← escape? rest
    let (body, rest) ← basicBody fuel rest
    return (c :: body, rest)
  | fuel + 1, c :: rest =>
    if isPrintable c then do
      let (body, rest) ← basicBody fuel rest
      return (c :: body, rest)
    else none

/-- The body of a string in single quotes. -/
def literalBody (chars : List Char) : Option (List Char × List Char) :=
  let body := chars.takeWhile fun c => isPrintable c && c != '\''
  match chars.drop body.length with
  | '\'' :: rest => some (body, rest)
  | _ => none

/-- A run of quotes ends a multi-line string if there are at least three. Up to two more belong to
its text. Gives the number of quotes that are text, and what follows the string. -/
def closingQuotes? (quote : Char) (chars : List Char) : Option (Nat × List Char) :=
  let run := min 5 (chars.takeWhile (· == quote)).length
  if run < 3 then none else some (run - 3, chars.drop run)

/-- The rest after a backslash that ends a line, if this is one: it takes all white space up to the
next character with it. -/
def continuedLine? (chars : List Char) : Option (List Char) := do
  let rest ← newline? (skipBlank chars)
  return skipLines (rest.length + 1) rest

/-- The body of a multi-line string in double quotes. -/
def basicLines : Nat → List Char → Option (List Char × List Char)
  | 0, _ => none
  | _, [] => none
  | fuel + 1, '"' :: rest =>
    match closingQuotes? '"' ('"' :: rest) with
    | some (count, rest) => some (List.replicate count '"', rest)
    | none => do
      let (body, rest) ← basicLines fuel rest
      return ('"' :: body, rest)
  | fuel + 1, '\\' :: rest =>
    match continuedLine? rest with
    | some rest => basicLines fuel rest
    | none => do
      let (c, rest) ← escape? rest
      let (body, rest) ← basicLines fuel rest
      return (c :: body, rest)
  | fuel + 1, c :: rest =>
    match newline? (c :: rest) with
    | some rest => do
      let (body, rest) ← basicLines fuel rest
      return ('\n' :: body, rest)
    | none =>
      if isPrintable c then do
        let (body, rest) ← basicLines fuel rest
        return (c :: body, rest)
      else none

/-- The body of a multi-line string in single quotes. -/
def literalLines : Nat → List Char → Option (List Char × List Char)
  | 0, _ => none
  | _, [] => none
  | fuel + 1, '\'' :: rest =>
    match closingQuotes? '\'' ('\'' :: rest) with
    | some (count, rest) => some (List.replicate count '\'', rest)
    | none => do
      let (body, rest) ← literalLines fuel rest
      return ('\'' :: body, rest)
  | fuel + 1, c :: rest =>
    match newline? (c :: rest) with
    | some rest => do
      let (body, rest) ← literalLines fuel rest
      return ('\n' :: body, rest)
    | none =>
      if isPrintable c then do
        let (body, rest) ← literalLines fuel rest
        return (c :: body, rest)
      else none

/-- The first line end after the opening quotes is not part of the text. -/
def skipFirstNewline (chars : List Char) : List Char :=
  (newline? chars).getD chars

/-- A string of one of the four kinds. -/
def string? (chars : List Char) : Option (String × List Char) := do
  let fuel := chars.length + 1
  let (body, rest) ←
    match chars with
    | '"' :: '"' :: '"' :: rest => basicLines fuel (skipFirstNewline rest)
    | '\'' :: '\'' :: '\'' :: rest => literalLines fuel (skipFirstNewline rest)
    | '"' :: rest => basicBody fuel rest
    | '\'' :: rest => literalBody rest
    | _ => none
  return (String.ofList body, rest)

/-! ## Keys -/

def isBareKeyChar (c : Char) : Bool :=
  c.isAlphanum || c == '_' || c == '-'

def simpleKey? (chars : List Char) : Option (String × List Char) :=
  match chars with
  | '"' :: rest => do
    let (body, rest) ← basicBody (chars.length + 1) rest
    return (String.ofList body, rest)
  | '\'' :: rest => do
    let (body, rest) ← literalBody rest
    return (String.ofList body, rest)
  | _ =>
    let name := chars.takeWhile isBareKeyChar
    if name.isEmpty then none else some (String.ofList name, chars.drop name.length)

/-- The parts of a dotted key, blanks around them left out. -/
def keyParts? : Nat → List Char → Option (List String × List Char)
  | 0, _ => none
  | fuel + 1, chars => do
    let (name, rest) ← simpleKey? (skipBlank chars)
    match skipBlank rest with
    | '.' :: rest => do
      let (names, rest) ← keyParts? fuel rest
      return (name :: names, rest)
    | rest => return ([name], rest)

/-- How deep values and keys may nest. -/
def nestingLimit : Nat := 80

/-- A dotted key: the path and the last name. -/
def key? (chars : List Char) : Option ((List String × String) × List Char) := do
  let (names, rest) ← keyParts? (chars.length + 1) chars
  let last ← names.getLast?
  if names.length < nestingLimit then return ((names.dropLast, last), rest) else none

end PowerLift.Toml
