import PowerLift.Lift.Basic

/-!
Loads, stores, reservations and cache instructions. Accesses to devices go through accessors of
their own.
-/

namespace PowerLift.Lift

/-- How a loaded number is widened. -/
inductive Extension where
  | zero
  | sign
  | reversed
deriving DecidableEq

/-- The shape of an integer access. -/
structure Access where
  type : NumType
  extension : Extension := .zero
  /-- Whether the base register takes the address. -/
  update : Bool := false
deriving DecidableEq

/-- The signed type of a width. -/
def signedType : NumType → NumType
  | .u8 => .i8
  | .u16 => .i16
  | .u32 => .i32
  | _ => .i64

def loadAccess? : Opcode → Option Access
  | .lbz | .lbzx => some { type := .u8 }
  | .lbzu | .lbzux => some { type := .u8, update := true }
  | .lhz | .lhzx => some { type := .u16 }
  | .lhzu | .lhzux => some { type := .u16, update := true }
  | .lha | .lhax => some { type := .u16, extension := .sign }
  | .lhau | .lhaux => some { type := .u16, extension := .sign, update := true }
  | .lwz | .lwzx => some { type := .u32 }
  | .lwzu | .lwzux => some { type := .u32, update := true }
  | .lwa | .lwax => some { type := .u32, extension := .sign }
  | .lwaux => some { type := .u32, extension := .sign, update := true }
  | .ld | .ldx => some { type := .u64 }
  | .ldu => some { type := .u64, update := true }
  | .lhbrx => some { type := .u16, extension := .reversed }
  | .lwbrx => some { type := .u32, extension := .reversed }
  | _ => none

def storeAccess? : Opcode → Option Access
  | .stb | .stbx => some { type := .u8 }
  | .stbu | .stbux => some { type := .u8, update := true }
  | .sth | .sthx => some { type := .u16 }
  | .sthu | .sthux => some { type := .u16, update := true }
  | .stw | .stwx => some { type := .u32 }
  | .stwu | .stwux => some { type := .u32, update := true }
  | .std | .stdx => some { type := .u64 }
  | .stdu | .stdux => some { type := .u64, update := true }
  | .sthbrx => some { type := .u16, extension := .reversed }
  | .stwbrx => some { type := .u32, extension := .reversed }
  | _ => none

/-! ## Addresses -/

/-- The address of an access: base and index, or base and displacement. Register zero as base
stands for no base. -/
def effectiveAddress (insn : Instruction) : Expr :=
  if insn.format = .x ∨ insn.format = .vx128_1 then
    let index := Expr.cast (.gpr insn.rb) .u32
    if insn.ra = 0 then index
    else .send (.paren (.cast (.gpr insn.ra) .u32)) .wrappingAdd [index]
  else
    let offset := UInt32.ofInt (if insn.format = .ds then insn.ds else insn.simm)
    if insn.ra = 0 then .lit (.typedHex 8 offset.toNat .u32)
    else .send (.paren (.cast (.gpr insn.ra) .u32)) .wrappingAdd [.hex offset.toNat]

def nameAddress (insn : Instruction) : Action :=
  .declare "ea" .u32 (effectiveAddress insn)

/-- Puts the address into the base register. -/
def updateBase (insn : Instruction) (update : Bool) : List Action :=
  if update then [.assign (.gpr insn.ra) (.cast .ea .u64)] else []

/-- The word at a number of words past the address. -/
def addressOf (index : Nat) : Expr :=
  .send .ea .wrappingAdd [.decimal (4 * index : Nat)]

/-! ## Integers -/

/-- Loads a number and keeps it as the reservation. -/
def loadReserved (io : Bool) (insn : Instruction) (type : NumType) : Lifted :=
  .ofActions [] [
    nameAddress insn,
    .assign (.reg .reserved) (.cast (.invoke (.load io (.number type)) [.ea]) .u64),
    .assign (.gpr insn.rd) (.reg .reserved)]

def loadedValue (io : Bool) (access : Access) : Expr :=
  let value := Expr.invoke (.load io (.number access.type)) [.ea]
  match access.extension with
  | .zero => .cast value .u64
  | .sign => .cast (.cast (.cast value (signedType access.type)) .i64) .u64
  | .reversed => .cast (.send value .swapBytes []) .u64

def integerLoad (io : Bool) (insn : Instruction) : Lifted :=
  match insn.opcode with
  | .lwarx => loadReserved io insn .u32
  | .ldarx => loadReserved io insn .u64
  | .lmw =>
    .ofActions [] (nameAddress insn :: (List.range (32 - insn.rd)).map fun index =>
      .assign (.gpr (insn.rd + index))
        (.cast (.invoke (.load io (.number .u32)) [addressOf index]) .u64))
  | opcode =>
    match loadAccess? opcode with
    | some access =>
      .ofActions [] ([nameAddress insn, .assign (.gpr insn.rd) (loadedValue io access)] ++
        updateBase insn access.update)
    | none => .missing []

/-- Stores a number if the reservation still holds. -/
def storeConditional (insn : Instruction) (type : NumType) : Lifted :=
  let exchange := Expr.invoke (.compareExchange type)
    [.ea, .cast (.reg .reserved) type, .cast (.gpr insn.rs) type]
  .ofActions [] [
    nameAddress insn,
    .perform (.send (.cr 0) .storeConditional [exchange, .unary .borrow .xer])]

def storedValue (insn : Instruction) (access : Access) : Expr :=
  let value := Expr.cast (.gpr insn.rs) access.type
  match access.extension with
  | .reversed => .send (.paren value) .swapBytes []
  | _ => value

def integerStore (io : Bool) (insn : Instruction) : Lifted :=
  match insn.opcode with
  | .stwcxRc => storeConditional insn .u32
  | .stdcxRc => storeConditional insn .u64
  | .stmw =>
    .ofActions [] (nameAddress insn :: (List.range (32 - insn.rs)).map fun index =>
      .perform (.invoke (.store io (.number .u32))
        [addressOf index, .cast (.gpr (insn.rs + index)) .u32]))
  | opcode =>
    match storeAccess? opcode with
    | some access =>
      .ofActions [] ([
        nameAddress insn,
        .perform (.invoke (.store io (.number access.type)) [.ea, storedValue insn access])] ++
        updateBase insn access.update)
    | none => .missing []

/-! ## Floating point -/

def loadSingle (io : Bool) : Expr :=
  .cast (.invoke (.fromBits .f32) [.invoke (.load io (.number .u32)) [.ea]]) .f64

def loadDouble (io : Bool) : Expr :=
  .invoke (.fromBits .f64) [.invoke (.load io (.number .u64)) [.ea]]

def floatLoad (io : Bool) (insn : Instruction) : Lifted :=
  let load (value : Expr) (update : Bool) : Lifted :=
    .ofActions [] ([nameAddress insn, .assign (.fpr insn.rd) value] ++ updateBase insn update)
  match insn.opcode with
  | .lfs | .lfsx => load (loadSingle io) false
  | .lfsu | .lfsux => load (loadSingle io) true
  | .lfd | .lfdx => load (loadDouble io) false
  | .lfdu | .lfdux => load (loadDouble io) true
  | _ => .missing []

def floatStore (io : Bool) (insn : Instruction) : Lifted :=
  let fs := Expr.fpr insn.rs
  let store (type : NumType) (value : Expr) (update : Bool) : Lifted :=
    .ofActions [] ([nameAddress insn,
      .perform (.invoke (.store io (.number type)) [.ea, value])] ++ updateBase insn update)
  let single := Expr.send (.paren (.cast fs .f32)) .toBits []
  let double := Expr.send fs .toBits []
  match insn.opcode with
  | .stfs | .stfsx => store .u32 single false
  | .stfsu | .stfsux => store .u32 single true
  | .stfd | .stfdx => store .u64 double false
  | .stfdu | .stfdux => store .u64 double true
  | .stfiwx => store .u32 (.cast double .u32) false
  | _ => .missing []

/-! ## Vectors -/

/-- The vector register of an access. -/
def vectorOperand (insn : Instruction) : Nat :=
  if insn.format = .vx128_1 then insn.vd128 else insn.rd

/-- The address with its low bits cleared. -/
def roundedAddress (bits : Expr) : Expr :=
  .binary .and .ea (.unary .complement bits)

def vectorLoadValue (io : Bool) (opcode : Opcode) : Option Expr :=
  match opcode with
  -- Loads of single elements fill in the rest of the vector too.
  | .lvx | .lvxl | .lvx128 | .lvxl128 | .lvebx | .lvehx | .lvewx | .lvewx128 =>
    some (.invoke (.load io .vector) [roundedAddress (.hex 0xF)])
  | .lvsl | .lvsl128 => some (.invoke (.vector "lvsl") [.ea])
  | .lvsr | .lvsr128 => some (.invoke (.vector "lvsr") [.ea])
  | .lvlx | .lvlxl | .lvlx128 | .lvlxl128 => some (.invoke (.load io .vectorLeft) [.ea])
  | .lvrx | .lvrxl | .lvrx128 | .lvrxl128 => some (.invoke (.load io .vectorRight) [.ea])
  | _ => none

def vectorLoad (io : Bool) (insn : Instruction) : Lifted :=
  match vectorLoadValue io insn.opcode with
  | some value => .ofActions [] [nameAddress insn, .assign (.vr (vectorOperand insn)) value]
  | none => .missing []

/-- What a vector store writes, where, and which part of the register. -/
def vectorStoreShape (opcode : Opcode) (source : Expr) : Option (Datum × Expr × Expr) :=
  let element (type : NumType) : Expr := .send source (.elementAt type) [.ea]
  match opcode with
  | .stvx | .stvxl | .stvx128 | .stvxl128 => some (.vector, roundedAddress (.hex 0xF), source)
  | .stvebx => some (.number .u8, .ea, element .u8)
  | .stvehx => some (.number .u16, roundedAddress (.decimal 1), element .u16)
  | .stvewx | .stvewx128 => some (.number .u32, roundedAddress (.decimal 3), element .u32)
  | .stvlx | .stvlxl | .stvlx128 | .stvlxl128 => some (.vectorLeft, .ea, source)
  | .stvrx | .stvrxl | .stvrx128 | .stvrxl128 => some (.vectorRight, .ea, source)
  | _ => none

def vectorStore (io : Bool) (insn : Instruction) : Lifted :=
  match vectorStoreShape insn.opcode (.vr (vectorOperand insn)) with
  | some (datum, address, value) =>
    .ofActions [] [nameAddress insn, .perform (.invoke (.store io datum) [address, value])]
  | none => .missing []

/-! ## Caches -/

/-- Only clearing a cache line has an effect. -/
def cache (insn : Instruction) : Lifted :=
  match insn.opcode with
  | .dcbz =>
    .ofActions [] [nameAddress insn,
      .perform (.invoke .zeroBlock [roundedAddress (.decimal 31), .decimal 32])]
  | .dcbf | .dcbst | .dcbt | .dcbtst | .dcbi | .icbi => {}
  | _ => .missing []

end PowerLift.Lift
