import PowerLift.Code.Allocation

/-!
The locals of a function as bits. A class has one bit for each of its registers, and asking for a
register that lives in a local sets the bit of its number. There may be no such bit: then asking
fails.
-/

namespace PowerLift

structure UseBits where
  gpr : Vector Bool 32 := .replicate 32 false
  fpr : Vector Bool 32 := .replicate 32 false
  vr : Vector Bool 128 := .replicate 128 false
  cr : Vector Bool 8 := .replicate 8 false
  ctr : Bool := false
  xer : Bool := false
  reserved : Bool := false

namespace UseBits

/-- Sets the bit at an index. -/
def setBit? {count : Nat} (bits : Vector Bool count) (index : Nat) : Option (Vector Bool count) :=
  if inside : index < count then some (bits.set index true inside) else none

/-- Whether the bit at an index is there and set. -/
def bitAt {count : Nat} (bits : Vector Bool count) (index : Nat) : Bool :=
  bits[index]?.getD false

/-- Sets the bit of a register. -/
def mark? (bits : UseBits) : Register → Option UseBits
  | .gpr number => (setBit? bits.gpr number).map fun gpr => { bits with gpr }
  | .fpr number => (setBit? bits.fpr number).map fun fpr => { bits with fpr }
  | .vr number => (setBit? bits.vr number).map fun vr => { bits with vr }
  | .cr field => (setBit? bits.cr field).map fun cr => { bits with cr }
  | .ctr => some { bits with ctr := true }
  | .xer => some { bits with xer := true }
  | .reserved => some { bits with reserved := true }
  | _ => some bits

def isMarked (bits : UseBits) : Register → Bool
  | .gpr number => bitAt bits.gpr number
  | .fpr number => bitAt bits.fpr number
  | .vr number => bitAt bits.vr number
  | .cr field => bitAt bits.cr field
  | .ctr => bits.ctr
  | .xer => bits.xer
  | .reserved => bits.reserved
  | _ => false

/-- Asks for a register. Those in the context have no bits. -/
def request? (policy : LocalPolicy) (bits : UseBits) (register : Register) : Option UseBits :=
  if policy.isLocal register then bits.mark? register else some bits

def requestAll? (policy : LocalPolicy) (bits : UseBits) (registers : List Register) :
    Option UseBits :=
  registers.foldlM (request? policy) bits

/-- The registers whose bits are set, by class and number. -/
def declared (bits : UseBits) : List Register :=
  Register.promotable.filter bits.isMarked

end UseBits

end PowerLift
