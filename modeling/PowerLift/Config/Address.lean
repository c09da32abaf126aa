import PowerLift.Isa.Register
import PowerLift.Text.Blank
import PowerLift.Text.Digits

/-!
The text forms of addresses and registers in a configuration.
-/

namespace PowerLift

/-- Addresses are decimal, or hexadecimal after `0x`. White space around them and underscores
anywhere count for nothing. -/
def parseAddress (text : String) : Option UInt32 :=
  let plain := (Text.trim text.toList).filter (· != '_')
  let value? :=
    match plain with
    | '0' :: 'x' :: digits => Text.unsigned? 16 UInt32.size digits
    | '0' :: 'X' :: digits => Text.unsigned? 16 UInt32.size digits
    | digits => Text.unsigned? 10 UInt32.size digits
  value?.map UInt32.ofNat

/-- The number of a register, below the number of registers of its kind. -/
def registerNumber? (count : Nat) (digits : List Char) : Option Nat :=
  Text.unsigned? 10 count digits

/-- The registers that a hook may capture: `r3`, `f1`, `v127`, `cr6`, `ctr`, `xer`, `reserved` and
`fpscr`, in letters of either case. -/
def parseRegister (text : String) : Option Register :=
  let lower := (Text.trim text.toList).map Char.toLower
  if lower == "ctr".toList then some .ctr
  else if lower == "xer".toList then some .xer
  else if lower == "reserved".toList then some .reserved
  else if lower == "fpscr".toList then some .fpscr
  else
    match lower with
    | 'c' :: 'r' :: digits => (registerNumber? 8 digits).map .cr
    | 'r' :: digits => (registerNumber? 32 digits).map .gpr
    | 'f' :: digits => (registerNumber? 32 digits).map .fpr
    | 'v' :: digits => (registerNumber? 128 digits).map .vr
    | _ => none

end PowerLift
