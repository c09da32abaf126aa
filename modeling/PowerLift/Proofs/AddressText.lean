import Mathlib
import PowerLift.Word

/-!
Addresses can be read back from their text. All addresses have texts of one length, so a line that
begins with the text of an address does not begin with that of another.
-/

namespace PowerLift

/-! ## Reading digits -/

/-- The value of a digit in base sixteen, capital letters. -/
def hexDigit (digit : Char) : Nat :=
  if digit.isDigit then digit.toNat - 48 else digit.toNat - 55

/-- The number that digits stand for. -/
def readHex (digits : List Char) : Nat :=
  digits.foldl (fun value digit => 16 * value + hexDigit digit) 0

theorem hexDigit_digitChar : ∀ digit < 16, hexDigit digit.digitChar.toUpper = digit := by
  decide

theorem readHex_append_singleton (digits : List Char) (digit : Char) :
    readHex (digits ++ [digit]) = 16 * readHex digits + hexDigit digit := by
  simp [readHex]

theorem readHex_toDigits (value : Nat) :
    readHex ((Nat.toDigits 16 value).map Char.toUpper) = value := by
  induction value using Nat.strongRecOn with
  | ind value ih =>
      by_cases small : value < 16
      · rw [Nat.toDigits_of_lt_base small, List.map_singleton, ← List.nil_append [_],
          readHex_append_singleton, hexDigit_digitChar value small]
        simp [readHex]
      · rw [Nat.toDigits_of_base_le (by decide) (by omega), List.map_append, List.map_singleton,
          readHex_append_singleton, ih (value / 16) (by omega),
          hexDigit_digitChar _ (Nat.mod_lt _ (by decide))]
        omega

theorem readHex_replicate_append (count : Nat) (digits : List Char) :
    readHex (List.replicate count '0' ++ digits) = readHex digits := by
  induction count with
  | zero => rfl
  | succ count ih => exact ih

theorem readHex_paddedHex (width value : Nat) : readHex (paddedHex width value).toList = value := by
  simp only [paddedHex, hex, String.toList_append, String.toList_ofList]
  rw [readHex_replicate_append, readHex_toDigits]

/-! ## Texts of addresses -/

theorem length_addressText (address : UInt32) : (addressText address).toList.length = 10 := by
  have short : (Nat.toDigits 16 address.toNat).length ≤ 8 :=
    Nat.toDigits_length 16 address.toNat 8 (by decide) address.toNat_lt
  simp only [addressText, paddedHex, hex, String.toList_append, String.toList_ofList,
    String.length_ofList, List.length_append, List.length_replicate, List.length_map]
  change 2 + _ = 10
  omega

theorem addressText_injective {first second : UInt32}
    (same : addressText first = addressText second) : first = second := by
  have digits : ∀ address, readHex ((addressText address).toList.drop 2) = address.toNat := by
    intro address
    rw [addressText, String.toList_append]
    exact readHex_paddedHex 8 address.toNat
  apply UInt32.toNat_inj.mp
  rw [← digits first, ← digits second, same]

/-- A text begins with one address at most. -/
theorem address_eq_of_append {first second : UInt32} {rest other : String}
    (same : addressText first ++ rest = addressText second ++ other) : first = second := by
  have lists := congrArg String.toList same
  rw [String.toList_append, String.toList_append] at lists
  have start := (List.append_inj lists
    ((length_addressText first).trans (length_addressText second).symm)).1
  exact addressText_injective (String.toList_inj.mp start)

end PowerLift
