/-!
Values of a TOML document. Tables keep their keys in order of first appearance, and remember how
they came about, because that decides what may still be added to them.
-/

namespace PowerLift.Toml

inductive Origin where
  /-- Opened by its own header. -/
  | header
  /-- Implied by the header of a table inside it. -/
  | implied
  /-- Implied by a dotted key. -/
  | dotted
  /-- Written in braces. -/
  | inline
deriving DecidableEq

/-- Of numbers with a fraction and of dates only the kind is kept. -/
inductive Value where
  | string (text : String)
  | integer (value : Int)
  | boolean (value : Bool)
  | float
  | datetime
  | array (items : List Value)
  | table (origin : Origin) (entries : List (String × Value))
  | tables (items : List (List (String × Value)))
deriving Inhabited

abbrev Entries := List (String × Value)

namespace Entries

def replace (entries : Entries) (key : String) (value : Value) : Entries :=
  entries.map fun entry => if entry.1 == key then (key, value) else entry

def erase (entries : Entries) (key : String) : Entries :=
  entries.filter (·.1 != key)

def insertNew (entries : Entries) (key : String) (value : Value) : Option Entries :=
  if (entries.lookup key).isSome then none else some (entries ++ [(key, value)])

/-- Adds a key and its value below a dotted path. The tables on the way must be open to dotted
keys, and the last one must itself have been made by a dotted key unless the path is empty.
`dotted` says whether these entries belong to such a table and `direct` whether the whole path is
empty. -/
def insertAt (direct dotted : Bool) :
    List String → String → Value → Entries → Option Entries
  | [], key, value, entries =>
    if dotted == direct then none else entries.insertNew key value
  | step :: path, key, value, entries =>
    match entries.lookup step with
    | none => do
      let inner ← insertAt direct true path key value []
      return entries ++ [(step, .table .dotted inner)]
    | some (.table .implied inner) => do
      let inner ← insertAt direct false path key value inner
      return entries.replace step (.table .implied inner)
    | some (.table .dotted inner) => do
      let inner ← insertAt direct true path key value inner
      return entries.replace step (.table .dotted inner)
    | some (.tables items) =>
      match items.reverse with
      | last :: earlier => do
        let last ← insertAt direct false path key value last
        return entries.replace step (.tables (last :: earlier).reverse)
      | [] => none
    | some _ => none

/-- Adds a pair whose key is a dotted path. -/
def insertPath (entries : Entries) (path : List String) (key : String) (value : Value) :
    Option Entries :=
  insertAt path.isEmpty false path key value entries

/-- Works on the table that a header path leads to: through tables, and through the last table of
an array of tables. Tables that are missing on the way are implied. -/
def modifyAt (work : Entries → Option (α × Entries)) :
    List String → Entries → Option (α × Entries)
  | [], entries => work entries
  | step :: path, entries =>
    match entries.lookup step with
    | none => do
      let (result, inner) ← modifyAt work path []
      return (result, entries ++ [(step, .table .implied inner)])
    | some (.table .inline _) => none
    | some (.table origin inner) => do
      let (result, inner) ← modifyAt work path inner
      return (result, entries.replace step (.table origin inner))
    | some (.tables items) =>
      match items.reverse with
      | last :: earlier => do
        let (result, last) ← modifyAt work path last
        return (result, entries.replace step (.tables (last :: earlier).reverse))
      | [] => none
    | some _ => none

end Entries

end PowerLift.Toml
