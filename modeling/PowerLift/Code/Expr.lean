import PowerLift.Code.Place
import PowerLift.Word

/-!
Expressions of the emitted code. Registers stand in them by themselves; where they live is decided
when the text is written.
-/

namespace PowerLift

/-- Types that values are cast to. -/
inductive NumType where
  | i8 | i16 | i32 | i64 | i128 | u8 | u16 | u32 | u64 | u128 | f32 | f64
deriving DecidableEq

namespace NumType

def name : NumType → String
  | i8 => "i8"
  | i16 => "i16"
  | i32 => "i32"
  | i64 => "i64"
  | i128 => "i128"
  | u8 => "u8"
  | u16 => "u16"
  | u32 => "u32"
  | u64 => "u64"
  | u128 => "u128"
  | f32 => "f32"
  | f64 => "f64"

end NumType

inductive Literal where
  | decimal (value : Int)
  /-- At least `width` digits in base sixteen. -/
  | hex (width value : Nat)
  /-- The same with the type after it. -/
  | typedHex (width value : Nat) (type : NumType)
  /-- The mask of the low word. -/
  | lowWord
  /-- The greatest doubleword. -/
  | allOnes
  | boolean (value : Bool)
  /-- A whole number in floating point. -/
  | float (whole : Nat)
  | quoted (text : String)
deriving DecidableEq

namespace Literal

def text : Literal → String
  | decimal value => toString value
  | hex width value => "0x" ++ paddedHex width value
  | typedHex width value type => "0x" ++ paddedHex width value ++ type.name
  | lowWord => "0xFFFF_FFFF"
  | allOnes => "u64::MAX"
  | boolean value => if value then "true" else "false"
  | float whole => s!"{whole}.0"
  | quoted text => "\"" ++ text ++ "\""

end Literal

inductive UnaryOp where
  | complement
  | negate
  | borrow
  | borrowMut
deriving DecidableEq

namespace UnaryOp

def symbol : UnaryOp → String
  | complement => "!"
  | negate => "-"
  | borrow => "&"
  | borrowMut => "&mut "

end UnaryOp

inductive BinaryOp where
  | add | sub | mul | div
  | and | or | xor | shl | shr
  | eq | ne | lt | gt | le | ge
  | both | either
deriving DecidableEq

namespace BinaryOp

def symbol : BinaryOp → String
  | add => "+"
  | sub => "-"
  | mul => "*"
  | div => "/"
  | and => "&"
  | or => "|"
  | xor => "^"
  | shl => "<<"
  | shr => ">>"
  | eq => "=="
  | ne => "!="
  | lt => "<"
  | gt => ">"
  | le => "<="
  | ge => ">="
  | both => "&&"
  | either => "||"

end BinaryOp

/-- Parts of a value. -/
inductive Member where
  /-- The carry of the fixed-point exception register. -/
  | carry
  | bit (bit : ConditionBit)
  /-- Whether an operation that tells so overflowed. -/
  | overflowed
deriving DecidableEq

namespace Member

def name : Member → String
  | carry => "ca"
  | bit which => which.name
  | overflowed => "1"

end Member

/-- Operations on a value. -/
inductive Method where
  | wrappingAdd | wrappingSub | wrappingMul | wrappingNeg | wrappingDiv
  | checkedDiv | unwrapOr | overflowingAdd
  | rotateLeft | leadingZeros | swapBytes
  | toBits | sqrt | mulAdd | abs
  /-- Compare two values of a type and put the outcome into a condition field. -/
  | compare (type : NumType)
  | compareVector | compareVectorBounds
  | storeConditional
  | setBits
  /-- The whole of the floating-point status, or a field of it. -/
  | load | field
  | storeMasked | setField | setBit
  /-- Turn flushing of denormals on or off, either way or only if the mode is another. -/
  | flushMode (on checked : Bool)
  | lane32
  | elementAt (type : NumType)
  /-- A vector operation. -/
  | vector (name : String)
deriving DecidableEq

namespace Method

def name : Method → String
  | wrappingAdd => "wrapping_add"
  | wrappingSub => "wrapping_sub"
  | wrappingMul => "wrapping_mul"
  | wrappingNeg => "wrapping_neg"
  | wrappingDiv => "wrapping_div"
  | checkedDiv => "checked_div"
  | unwrapOr => "unwrap_or"
  | overflowingAdd => "overflowing_add"
  | rotateLeft => "rotate_left"
  | leadingZeros => "leading_zeros"
  | swapBytes => "swap_bytes"
  | toBits => "to_bits"
  | sqrt => "sqrt"
  | mulAdd => "mul_add"
  | abs => "abs"
  | compare type => "compare_" ++ type.name
  | compareVector => "compare_vector"
  | compareVectorBounds => "compare_vector_bounds"
  | storeConditional => "store_conditional"
  | setBits => "set_bits"
  | load => "load"
  | field => "field"
  | storeMasked => "store_masked"
  | setField => "set_field"
  | setBit => "set_bit"
  | flushMode on checked =>
    (if on then "enable_flush_mode" else "disable_flush_mode") ++
      (if checked then "" else "_unconditional")
  | lane32 => "u32_lane"
  | elementAt type => type.name ++ "_at"
  | vector name => name

/-- Whether the operation changes the value that it is called on. -/
def mutates : Method → Bool
  | compare _ | compareVector | compareVectorBounds | storeConditional | setBits | storeMasked
  | setField | setBit | flushMode _ _ => true
  | _ => false

end Method

/-- What a memory access moves. -/
inductive Datum where
  | number (type : NumType)
  | vector
  | vectorLeft
  | vectorRight
deriving DecidableEq

namespace Datum

def name : Datum → String
  | number type => type.name
  | vector => "v128"
  | vectorLeft => "v128_left"
  | vectorRight => "v128_right"

end Datum

/-- Functions that the emitted code calls. -/
inductive Routine where
  /-- The emitted function of that name. -/
  | guest (symbol : String)
  /-- Host code of that name. -/
  | host (name : String)
  /-- Whatever function is at an address. -/
  | dispatch
  | trap | syscall | setjmp | longjmp | timeBase | unimplemented | fence
  | addCarrying | addExtended
  | shiftWord | shiftDoubleword
  | toWord | toWordTruncating | toDoubleword | toDoublewordTruncating
  | fromBits (type : NumType)
  /-- Memory accesses, either ordinary or of a device. -/
  | load (io : Bool) (datum : Datum)
  | store (io : Bool) (datum : Datum)
  | compareExchange (type : NumType)
  | zeroBlock
  /-- Makes a vector. -/
  | vector (name : String)
deriving DecidableEq

namespace Routine

def accessName (io : Bool) (operation : String) (datum : Datum) : String :=
  (if io then "mem.mmio_" else "mem.") ++ operation ++ "_" ++ datum.name

def name : Routine → String
  | guest symbol => symbol
  | host name => name
  | dispatch => "ppc_call"
  | trap => "ppc_trap"
  | syscall => "ppc_syscall"
  | setjmp => "ppc_setjmp"
  | longjmp => "ppc_longjmp"
  | timeBase => "ppc_time_base"
  | unimplemented => "ppc_unimplemented"
  | fence => "std::sync::atomic::fence"
  | addCarrying => "ppc_addc"
  | addExtended => "ppc_adde"
  | shiftWord => "ppc_sraw"
  | shiftDoubleword => "ppc_srad"
  | toWord => "ppc_fctiw"
  | toWordTruncating => "ppc_fctiwz"
  | toDoubleword => "ppc_fctid"
  | toDoublewordTruncating => "ppc_fctidz"
  | fromBits type => type.name ++ "::from_bits"
  | load io datum => accessName io "load" datum
  | store io datum => accessName io "store" datum
  | compareExchange type => "mem.compare_exchange_" ++ type.name
  | zeroBlock => "mem.zero_block"
  | vector name => "Vector128::" ++ name

end Routine

/-- Lists of arguments are expressions too: `nothing`, one expression, or `comma`. -/
inductive Expr where
  | reg (register : Register)
  | var (name : String)
  | lit (literal : Literal)
  | paren (inner : Expr)
  | cast (inner : Expr) (type : NumType)
  | unary (op : UnaryOp) (inner : Expr)
  | binary (op : BinaryOp) (left right : Expr)
  | member (inner : Expr) (part : Member)
  | method (receiver : Expr) (name : Method) (arguments : Expr)
  | call (routine : Routine) (arguments : Expr)
  | choice (condition yes no : Expr)
  | nothing
  | comma (first rest : Expr)
deriving DecidableEq

namespace Expr

/-- The text of an expression. -/
def text (policy : LocalPolicy) : Expr → String
  | reg register => policy.place register
  | var name => name
  | lit literal => literal.text
  | paren inner => "(" ++ inner.text policy ++ ")"
  | cast inner type => inner.text policy ++ " as " ++ type.name
  | unary op inner => op.symbol ++ inner.text policy
  | binary op left right => left.text policy ++ " " ++ op.symbol ++ " " ++ right.text policy
  | member inner part => inner.text policy ++ "." ++ part.name
  | method receiver name arguments =>
    receiver.text policy ++ "." ++ name.name ++ "(" ++ arguments.text policy ++ ")"
  | call routine arguments => routine.name ++ "(" ++ arguments.text policy ++ ")"
  | choice condition yes no =>
    "if " ++ condition.text policy ++ " \x7b " ++ yes.text policy ++ " \x7d else \x7b " ++
      no.text policy ++ " \x7d"
  | nothing => ""
  | comma first rest => first.text policy ++ ", " ++ rest.text policy

/-- The registers that occur in an expression. -/
def registers : Expr → List Register
  | reg register => [register]
  | var _ | lit _ | nothing => []
  | paren inner | cast inner _ | unary _ inner | member inner _ => inner.registers
  | binary _ left right => left.registers ++ right.registers
  | method receiver _ arguments => receiver.registers ++ arguments.registers
  | call _ arguments => arguments.registers
  | choice condition yes no => condition.registers ++ yes.registers ++ no.registers
  | comma first rest => first.registers ++ rest.registers

/-! ## Short forms -/

def list : List Expr → Expr
  | [] => nothing
  | [single] => single
  | first :: rest => comma first (list rest)

/-- What is collected from the two sides of a comma is collected from the members of a list. -/
theorem collect_list {α : Type} {collect : Expr → List α} (none : collect nothing = [])
    (both : ∀ first rest, collect (comma first rest) = collect first ++ collect rest)
    (arguments : List Expr) : collect (list arguments) = arguments.flatMap collect := by
  fun_induction list arguments with
  | case1 => exact none
  | case2 single => simp
  | case3 first rest _ ih => rw [both, ih, List.flatMap_cons]

def gpr (number : Nat) : Expr := reg (.gpr number)
def fpr (number : Nat) : Expr := reg (.fpr number)
def vr (number : Nat) : Expr := reg (.vr number)
def cr (field : Nat) : Expr := reg (.cr field)
def ctr : Expr := reg .ctr
def xer : Expr := reg .xer
def lr : Expr := reg .lr
def fpscr : Expr := reg .fpscr

/-- A condition bit, counted over all fields. -/
def crBit (index : Nat) : Expr :=
  member (cr (index / 4)) (.bit (conditionBit index))

def carry : Expr := member xer .carry

/-- The context, the memory, the address of an access, and an address to call. -/
def context : Expr := var "ctx"
def memory : Expr := var "mem"
def ea : Expr := var "ea"
def target : Expr := var "target"

def decimal (value : Int) : Expr := lit (.decimal value)
def hex (value : Nat) : Expr := lit (.hex 1 value)
def wordHex (address : UInt32) : Expr := lit (.hex 8 address.toNat)
def doubleword (value : UInt64) : Expr := lit (.typedHex 1 value.toNat .u64)

def send (receiver : Expr) (name : Method) (arguments : List Expr) : Expr :=
  method receiver name (list arguments)

def invoke (routine : Routine) (arguments : List Expr) : Expr :=
  call routine (list arguments)

/-- A call that hands over the context and the memory. -/
def invokeGuest (routine : Routine) (arguments : List Expr) : Expr :=
  call routine (list (context :: memory :: arguments))

/-- Several conditions joined, if there is one. -/
def joined (op : BinaryOp) : List Expr → Option Expr
  | [] => none
  | first :: rest => some (rest.foldl (binary op) first)

end Expr

end PowerLift
