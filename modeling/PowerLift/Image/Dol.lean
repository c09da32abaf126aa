import PowerLift.Image.Basic
import PowerLift.Image.Fault

/-!
DOL files: a header of fixed size with three columns of words (offsets, addresses and sizes of
eighteen slots), the zeroed memory and the entry point, followed by the contents of the slots.
-/

namespace PowerLift.Dol

def slotCount : Nat := 18

structure Slot where
  index : Nat
  offset : UInt32
  address : UInt32
  size : UInt32
deriving DecidableEq

namespace Slot

/-- A slot without contents is not used. -/
def isUsed (slot : Slot) : Bool :=
  slot.offset != 0 && slot.size != 0

def isText (slot : Slot) : Bool :=
  slot.index < dolTextSlots

def name (slot : Slot) : String :=
  if slot.isText then s!".text{slot.index}" else s!".data{slot.index - dolTextSlots}"

/-- The section that a slot describes, unless it reaches past the end of the file. -/
def load (data : Array UInt8) (slot : Slot) : Except ContainerFault Section :=
  match bytesAt? data slot.offset.toNat slot.size.toNat with
  | some bytes =>
    .ok { name := slot.name, address := slot.address, size := slot.size, data := bytes,
          executable := slot.isText }
  | none => .error (.slotBeyondFile slot.index slot.offset slot.size)

end Slot

/-- A word of the header. -/
def headerWord (data : Array UInt8) (offset : Nat) : UInt32 :=
  (wordAt? data offset).getD 0

def slot (data : Array UInt8) (index : Nat) : Slot :=
  { index
    offset := headerWord data (4 * index)
    address := headerWord data (4 * (slotCount + index))
    size := headerWord data (4 * (2 * slotCount + index)) }

def slots (data : Array UInt8) : List Slot :=
  (List.range slotCount).map (slot data)

def parse (data : Array UInt8) : Except ContainerFault Image :=
  if data.size < dolHeaderSize then .error (.tooSmall data.size)
  else do
    let sections ← ((slots data).filter Slot.isUsed).mapM (Slot.load data)
    return {
      container := .dol (headerWord data 0xD8) (headerWord data 0xDC)
      entry := headerWord data 0xE0
      sections }

end PowerLift.Dol
