/-!
Text stored as bytes.
-/

namespace PowerLift.Text

/-- The text that the bytes encode, if they are valid UTF-8. -/
def ofUtf8? (bytes : List UInt8) : Option String :=
  String.fromUTF8? ⟨bytes.toArray⟩

end PowerLift.Text
