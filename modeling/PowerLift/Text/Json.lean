import PowerLift.Word

/-!
JSON text, laid out one item to a line with two blanks for each level.
-/

namespace PowerLift.Text

inductive Json where
  | null
  | boolean (value : Bool)
  | number (value : Nat)
  | string (text : String)
  | array (items : List Json)
  | object (fields : List (String × Json))

namespace Json

/-- Quotes, backslashes and control characters are written as escapes. -/
def escape (c : Char) : String :=
  match c with
  | '"' => "\\\""
  | '\\' => "\\\\"
  | '\x08' => "\\b"
  | '\t' => "\\t"
  | '\n' => "\\n"
  | '\x0c' => "\\f"
  | '\r' => "\\r"
  | _ => if c.toNat < 0x20 then "\\u" ++ (paddedHex 4 c.toNat).toLower else c.toString

def quote (text : String) : String :=
  "\"" ++ String.join (text.toList.map escape) ++ "\""

def newline (level : Nat) : String :=
  "\n" ++ String.ofList (List.replicate (2 * level) ' ')

mutual

/-- The text of a value that stands at a level of indentation. -/
def render (level : Nat) : Json → String
  | null => "null"
  | boolean value => if value then "true" else "false"
  | number value => toString value
  | string text => quote text
  | array [] => "[]"
  | array (item :: items) =>
    "[" ++ newline (level + 1) ++ render (level + 1) item ++ renderItems (level + 1) items ++
      newline level ++ "]"
  | object [] => "\x7b\x7d"
  | object (field :: fields) =>
    "\x7b" ++ newline (level + 1) ++ renderField (level + 1) field ++
      renderFields (level + 1) fields ++ newline level ++ "\x7d"

/-- The items after the first. -/
def renderItems (level : Nat) : List Json → String
  | [] => ""
  | item :: items => "," ++ newline level ++ render level item ++ renderItems level items

def renderField (level : Nat) : String × Json → String
  | (key, value) => quote key ++ ": " ++ render level value

/-- The fields after the first. -/
def renderFields (level : Nat) : List (String × Json) → String
  | [] => ""
  | field :: fields =>
    "," ++ newline level ++ renderField level field ++ renderFields level fields

end

end Json

end PowerLift.Text
