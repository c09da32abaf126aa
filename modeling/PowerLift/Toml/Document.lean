import PowerLift.Toml.Number

/-!
TOML documents: values, key and value pairs, table headers, and the tables that they build up.
-/

namespace PowerLift.Toml

/-! ## Values -/

mutual

/-- A value inside `depth` arrays and inline tables. -/
def value? : Nat → Nat → List Char → Option (Value × List Char)
  | 0, _, _ => none
  | fuel + 1, depth, chars =>
    match chars with
    | '"' :: _ | '\'' :: _ => do
      let (text, rest) ← string? chars
      return (.string text, rest)
    | '[' :: rest =>
      if depth + 1 < nestingLimit then do
        let rest ← skipSpace? (rest.length + 1) rest
        let (items, rest) ← items? fuel (depth + 1) rest
        return (.array items, rest)
      else none
    | '\x7b' :: rest =>
      if depth + 1 < nestingLimit then do
        let (entries, rest) ← pairs? fuel (depth + 1) true [] (skipBlank rest)
        return (.table .inline entries, rest)
      else none
    | 't' :: _ => do
      let rest ← word? "true" chars
      return (.boolean true, rest)
    | 'f' :: _ => do
      let rest ← word? "false" chars
      return (.boolean false, rest)
    | _ => number? chars

/-- The items of an array up to its end. -/
def items? : Nat → Nat → List Char → Option (List Value × List Char)
  | 0, _, _ => none
  | _, _, ']' :: rest => some ([], rest)
  | fuel + 1, depth, chars => do
    let (item, rest) ← value? fuel depth chars
    let rest ← skipSpace? (rest.length + 1) rest
    match rest with
    | ']' :: rest => return ([item], rest)
    | ',' :: rest =>
      let rest ← skipSpace? (rest.length + 1) rest
      let (items, rest) ← items? fuel depth rest
      return (item :: items, rest)
    | _ => none

/-- The pairs of an inline table up to its end. It may end at once only where it begins. -/
def pairs? : Nat → Nat → Bool → Entries → List Char → Option (Entries × List Char)
  | 0, _, _, _, _ => none
  | _, _, true, entries, '\x7d' :: rest => some (entries, rest)
  | fuel + 1, depth, _, entries, chars => do
    let ((path, key), rest) ← key? chars
    let rest ← expect? '=' rest
    let (value, rest) ← value? fuel depth (skipBlank rest)
    let entries ← entries.insertPath path key value
    match skipBlank rest with
    | '\x7d' :: rest => return (entries, rest)
    | ',' :: rest => pairs? fuel depth false entries rest
    | _ => none

end

/-! ## Tables -/

/-- The table that the pairs of the next lines belong to. It joins the document when the next
header opens, or at the end. -/
structure Current where
  path : List String
  name : String
  isElement : Bool
  entries : Entries

/-- The tables read so far. Without a current table, pairs belong to the document itself. -/
structure State where
  entries : Entries := []
  current : Option Current := none

namespace State

/-- Puts the current table in its place. -/
def close (state : State) : Option Entries :=
  match state.current with
  | none => some state.entries
  | some current => do
    let place (parent : Entries) : Option (Unit × Entries) :=
      match current.isElement, parent.lookup current.name with
      | true, some (.tables items) =>
        some ((), parent.replace current.name (.tables (items ++ [current.entries])))
      | false, none => some ((), parent ++ [(current.name, .table .header current.entries)])
      | _, _ => none
    let (_, entries) ← state.entries.modifyAt place current.path
    return entries

/-- Opens the table of a header. A table that so far was only implied keeps what it has. -/
def openTable (state : State) (path : List String) (name : String) : Option State := do
  let entries ← state.close
  let take (parent : Entries) : Option (Entries × Entries) :=
    match parent.lookup name with
    | none => some ([], parent)
    | some (.table .implied inner) => some (inner, parent.erase name)
    | some _ => none
  let (inner, entries) ← entries.modifyAt take path
  return { entries, current := some { path, name, isElement := false, entries := inner } }

/-- Opens a further table of an array of tables. -/
def openElement (state : State) (path : List String) (name : String) : Option State := do
  let entries ← state.close
  let reserve (parent : Entries) : Option (Unit × Entries) :=
    match parent.lookup name with
    | none => some ((), parent ++ [(name, .tables [])])
    | some (.tables _) => some ((), parent)
    | some _ => none
  let (_, entries) ← entries.modifyAt reserve path
  return { entries, current := some { path, name, isElement := true, entries := [] } }

def insert (state : State) (path : List String) (key : String) (value : Value) : Option State := do
  match state.current with
  | none =>
    let entries ← state.entries.insertPath path key value
    return { state with entries }
  | some current =>
    let entries ← current.entries.insertPath path key value
    return { state with current := some { current with entries } }

end State

/-! ## Lines -/

/-- Reads what begins a line, after blanks, and all lines that it takes. -/
def line? (state : State) (chars : List Char) : Option (State × List Char) := do
  match chars with
  | '[' :: '[' :: rest =>
    let ((path, name), rest) ← key? rest
    let rest ← expect? ']' rest
    let rest ← expect? ']' rest
    let rest ← lineEnd? rest
    let state ← state.openElement path name
    return (state, rest)
  | '[' :: rest =>
    let ((path, name), rest) ← key? rest
    let rest ← expect? ']' rest
    let rest ← lineEnd? rest
    let state ← state.openTable path name
    return (state, rest)
  | '#' :: _ | '\n' :: _ | '\r' :: _ =>
    let rest ← lineEnd? chars
    return (state, rest)
  | _ =>
    let ((path, name), rest) ← key? chars
    let rest ← expect? '=' rest
    let (value, rest) ← value? (rest.length + 1) 0 (skipBlank rest)
    let rest ← lineEnd? rest
    let state ← state.insert path name value
    return (state, rest)

/-- Every line takes at least one character, so the number of characters bounds the lines. -/
def lines? : Nat → State → List Char → Option State
  | 0, _, _ => none
  | fuel + 1, state, chars =>
    match skipBlank chars with
    | [] => some state
    | rest => do
      let (state, rest) ← line? state rest
      lines? fuel state rest

/-- The entries of a document, unless it is malformed. A byte order mark at its start counts for
nothing. -/
def parse? (text : String) : Option Entries := do
  let chars :=
    match text.toList with
    | '\uFEFF' :: rest => rest
    | chars => chars
  let state ← lines? (chars.length + 1) {} chars
  state.close

end PowerLift.Toml
