/-!
Names of functions as identifiers of the emitted code.
-/

namespace PowerLift

/-- Every character that may not stand in an identifier becomes an underscore, and a digit at the
start gets one before it. -/
def functionSymbol (name : String) : String :=
  let chars := name.toList.map fun c => if c.isAlphanum || c == '_' then c else '_'
  match chars with
  | [] => "_"
  | first :: _ => String.ofList (if first.isDigit then '_' :: chars else chars)

end PowerLift
