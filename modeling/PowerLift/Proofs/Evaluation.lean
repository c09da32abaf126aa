import Mathlib
import PowerLift.Code.Stmt

/-!
What emitted code means where it computes with integers. A number has a type, and a literal takes
the type of what it stands beside. An expression is given by its tree; its text is read as that tree
if every operand binds as tightly as its place demands, which the second half makes precise.
-/

namespace PowerLift

/-! ## Values -/

/-- Sign and width of an integer type. -/
def NumType.integer? : NumType → Option (Bool × Nat)
  | i8 => some (true, 8)
  | i16 => some (true, 16)
  | i32 => some (true, 32)
  | i64 => some (true, 64)
  | i128 => some (true, 128)
  | u8 => some (false, 8)
  | u16 => some (false, 16)
  | u32 => some (false, 32)
  | u64 => some (false, 64)
  | u128 => some (false, 128)
  | f32 | f64 => none

/-- A number of a signed or an unsigned type, a number whose type is open, or a truth value. -/
inductive Value where
  | number (signed : Bool) {width : Nat} (bits : BitVec width)
  | literal (value : Int)
  | truth (value : Bool)

/-- Two operands of one type. -/
structure Operands where
  signed : Bool
  width : Nat
  left : BitVec width
  right : BitVec width

namespace Value

abbrev u32 (bits : BitVec 32) : Value := number false bits
abbrev u64 (bits : BitVec 64) : Value := number false bits
abbrev i64 (bits : BitVec 64) : Value := number true bits

/-- The number that bits stand for. -/
def read (signed : Bool) {width : Nat} (bits : BitVec width) : Int :=
  if signed then bits.toInt else bits.toNat

/-- The bits of a value of the given type. A literal has to be a number of the type. -/
def as? (signed : Bool) (width : Nat) : Value → Option (BitVec width)
  | @number sign length bits =>
    if same : sign = signed ∧ length = width then some (bits.cast same.2) else none
  | literal value =>
    let bits := BitVec.ofInt width value
    if read signed bits = value then some bits else none
  | truth _ => none

def truth? : Value → Option Bool
  | truth value => some value
  | _ => none

/-- Widening repeats the sign of a signed number; narrowing drops the high bits. -/
def cast? (type : NumType) (value : Value) : Option Value := do
  let (target, width) ← type.integer?
  match value with
  | number signed bits =>
    return number target (if signed then bits.signExtend width else bits.setWidth width)
  | literal _ => return number target (← value.as? target width)
  | truth _ => none

/-- A number of bits to shift by, of whatever type. -/
def count? : Value → Option Nat
  | number signed bits => if 0 ≤ read signed bits then some (read signed bits).toNat else none
  | literal value => if 0 ≤ value then some value.toNat else none
  | truth _ => none

/-- No number may be shifted by its width. To the right, a signed number keeps its sign. -/
def shift? (toLeft : Bool) (value count : Value) : Option Value := do
  match value with
  | @number signed width bits =>
    let amount ← count.count?
    if amount < width then
      return number signed
        (if toLeft then bits <<< amount
          else if signed then bits.sshiftRight amount else bits >>> amount)
    else none
  | _ => none

/-- Turns a number to the left by a count of unsigned words. -/
def rotateLeft? (value count : Value) : Option Value := do
  match value with
  | number signed bits => return number signed (bits.rotateLeft (← count.as? false 32).toNat)
  | _ => none

/-- Operands have one type, which a literal takes from the other. -/
def operands? (left right : Value) : Option Operands :=
  match left, right with
  | @number signed width bits, other => (other.as? signed width).map (⟨signed, width, bits, ·⟩)
  | other, @number signed width bits => (other.as? signed width).map (⟨signed, width, ·, bits⟩)
  | _, _ => none

theorem read_inj {signed : Bool} {width : Nat} {left right : BitVec width} :
    read signed left = read signed right ↔ left = right := by
  cases signed with
  | false => simp [read, BitVec.toNat_inj]
  | true => simp [read, BitVec.toInt_inj]

theorem count?_unsigned {width : Nat} (bits : BitVec width) :
    (number false bits).count? = some bits.toNat := by
  simp [count?, read]

theorem count?_literal (amount : Nat) : (literal amount).count? = some amount := by
  simp [count?]

end Value

def Operands.compute? (op : BinaryOp) (operands : Operands) : Option Value :=
  let left := Value.read operands.signed operands.left
  let right := Value.read operands.signed operands.right
  match op with
  | .and => some (.number operands.signed (operands.left &&& operands.right))
  | .or => some (.number operands.signed (operands.left ||| operands.right))
  | .xor => some (.number operands.signed (operands.left ^^^ operands.right))
  | .eq => some (.truth (left = right))
  | .ne => some (.truth (left ≠ right))
  | .lt => some (.truth (left < right))
  | .gt => some (.truth (right < left))
  | .le => some (.truth (left ≤ right))
  | .ge => some (.truth (right ≤ left))
  | _ => none

def BinaryOp.compute? (op : BinaryOp) (left right : Value) : Option Value :=
  match op with
  | .shl => left.shift? true right
  | .shr => left.shift? false right
  | _ => (left.operands? right).bind (·.compute? op)

def Literal.value? : Literal → Option Value
  | decimal value => some (.literal value)
  | hex _ value => some (.literal value)
  | typedHex _ value type => (Value.literal value).cast? type
  | lowWord => some (.literal 0xFFFFFFFF)
  | allOnes => some (.u64 (BitVec.allOnes 64))
  | boolean value => some (.truth value)
  | float _ | quoted _ => none

/-! ## Expressions -/

namespace Expr

/-- The value of an expression over general registers. What is not about integers has none here. -/
def eval (registers : Nat → BitVec 64) : Expr → Option Value
  | reg (.gpr number) => some (.u64 (registers number))
  | lit literal => literal.value?
  | paren inner => inner.eval registers
  | cast inner type => do (← inner.eval registers).cast? type
  | binary .both left right => do
    if ← (← left.eval registers).truth? then
      return .truth (← (← right.eval registers).truth?)
    else return .truth false
  | binary op left right => do op.compute? (← left.eval registers) (← right.eval registers)
  | method receiver .rotateLeft count => do
    (← receiver.eval registers).rotateLeft? (← count.eval registers)
  | choice condition yes no => do
    if ← (← condition.eval registers).truth? then yes.eval registers else no.eval registers
  | _ => none

/-- The value of an expression where a type is expected. -/
def evalAs (registers : Nat → BitVec 64) (signed : Bool) (width : Nat) (expr : Expr) :
    Option (BitVec width) := do
  (← expr.eval registers).as? signed width

section

variable {registers : Nat → BitVec 64} {left right inner : Expr} {signed : Bool} {width : Nat}
  {a b bits : BitVec width} {value : Value} {amount : Nat}

attribute [local simp] eval

theorem evalAs_eq_some_iff :
    inner.evalAs registers signed width = some bits ↔
      ∃ value, inner.eval registers = some value ∧ value.as? signed width = some bits := by
  simp [evalAs, Option.bind_eq_some_iff]

theorem evalAs_number (known : inner.eval registers = some (.number signed bits)) :
    inner.evalAs registers signed width = some bits := by
  simp [evalAs, known, Value.as?]

theorem evalAs_literal {number : Nat} (known : inner.eval registers = some (.literal number))
    (fits : number < 2 ^ width) :
    inner.evalAs registers false width = some (BitVec.ofNat width number) := by
  have same : (BitVec.ofNat width number).toNat = number := by
    rw [BitVec.toNat_ofNat, Nat.mod_eq_of_lt fits]
  refine evalAs_eq_some_iff.mpr ⟨.literal number, known, ?_⟩
  rw [Value.as?, BitVec.ofInt_natCast]
  exact if_pos (congrArg Nat.cast same)

theorem eval_cast {type : NumType} {target : Bool} {length : Nat}
    (known : inner.eval registers = some (.number signed bits))
    (shape : type.integer? = some (target, length)) :
    (cast inner type).eval registers =
      some (.number target (if signed then bits.signExtend length else bits.setWidth length)) := by
  simp [known, Value.cast?, shape]

/-- Bitwise operations and comparisons of operands of one type. -/
theorem eval_binary {op : BinaryOp} (plain : op ∉ [BinaryOp.both, .shl, .shr])
    (first : left.eval registers = some (.number signed a))
    (second : right.evalAs registers signed width = some b) :
    (binary op left right).eval registers = Operands.compute? op ⟨signed, width, a, b⟩ := by
  obtain ⟨value, known, typed⟩ := evalAs_eq_some_iff.mp second
  simp only [List.mem_cons, List.not_mem_nil, or_false, not_or] at plain
  obtain ⟨notBoth, notShl, notShr⟩ := plain
  have operands : (Value.number signed a).operands? value = some ⟨signed, width, a, b⟩ := by
    simp [Value.operands?, typed]
  rw [eval, first, known]
  · change BinaryOp.compute? op _ value = _
    rw [BinaryOp.compute?, operands]
    · rfl
    · exact notShl
    · exact notShr
  · exact notBoth

theorem eval_shl (first : left.eval registers = some (.number signed a))
    (second : right.eval registers = some value) (count : value.count? = some amount)
    (fits : amount < width) :
    (binary .shl left right).eval registers = some (.number signed (a <<< amount)) := by
  simp [first, second, BinaryOp.compute?, Value.shift?, count, fits]

theorem eval_shr (first : left.eval registers = some (.number signed a))
    (second : right.eval registers = some value) (count : value.count? = some amount)
    (fits : amount < width) :
    (binary .shr left right).eval registers =
      some (.number signed (if signed then a.sshiftRight amount else a >>> amount)) := by
  simp [first, second, BinaryOp.compute?, Value.shift?, count, fits]

theorem eval_both {first second : Bool} (leftKnown : left.eval registers = some (.truth first))
    (rightKnown : right.eval registers = some (.truth second)) :
    (binary .both left right).eval registers = some (.truth (first && second)) := by
  cases first <;> simp [leftKnown, rightKnown, Value.truth?]

theorem eval_rotateLeft {turns : BitVec 32} (known : left.eval registers = some (.number signed a))
    (count : right.evalAs registers false 32 = some turns) :
    (method left .rotateLeft right).eval registers =
      some (.number signed (a.rotateLeft turns.toNat)) := by
  obtain ⟨value, counted, typed⟩ := evalAs_eq_some_iff.mp count
  simp [known, counted, Value.rotateLeft?, typed]

theorem evalAs_choice {condition : Expr} {taken : Bool}
    (known : condition.eval registers = some (.truth taken))
    (yes : left.evalAs registers signed width = some a)
    (no : right.evalAs registers signed width = some b) :
    (choice condition left right).evalAs registers signed width =
      some (if taken then a else b) := by
  cases taken <;> simp_all [evalAs, Value.truth?]

end

end Expr

/-! ## Actions -/

/-- The registers that integer instructions change: the general ones, and the carry. -/
structure IntegerState where
  general : Nat → BitVec 64
  carry : Bool

/-- The registers after an assignment of one of them. -/
def Action.run? (state : IntegerState) : Action → Option IntegerState
  | .assign (.reg (.gpr number)) value => do
    let bits ← value.evalAs state.general false 64
    return { state with general := Function.update state.general number bits }
  | .assign (.member (.reg .xer) .carry) value => do
    return { state with carry := ← (← value.eval state.general).truth? }
  | _ => none

/-! ## Texts -/

/-- How tightly an operator binds its operands. -/
def BinaryOp.level : BinaryOp → Nat
  | either => 1
  | both => 2
  | eq | ne | lt | gt | le | ge => 3
  | or => 4
  | xor => 5
  | and => 6
  | shl | shr => 7
  | add | sub => 8
  | mul | div => 9

def BinaryOp.isComparison (op : BinaryOp) : Bool :=
  op.level = 3

namespace Expr

/-- Whether the text ends in the name of a type, after which `<` would begin arguments of it. -/
def endsInType : Expr → Bool
  | cast _ _ => true
  | unary _ inner | binary _ _ inner => inner.endsInType
  | _ => false

/-- The grammar of expressions: a text is read as a tree at a level, 12 for what needs no
parentheses anywhere, 10 for casts, and that of their operator for binary expressions. Operators
group to the left, and comparisons do not group at all. -/
inductive Reads (policy : LocalPolicy) : Nat → String → Expr → Prop
  | weaken {level : Nat} {text : String} {expr : Expr} :
      Reads policy (level + 1) text expr → Reads policy level text expr
  | reg (register : Register) : Reads policy 12 (policy.place register) (reg register)
  | unsigned (value : Nat) : Reads policy 12 (toString (value : Int)) (lit (.decimal value))
  | hex (width value : Nat) :
      Reads policy 12 ("0x" ++ paddedHex width value) (lit (.hex width value))
  | typedHex (width value : Nat) (type : NumType) :
      Reads policy 12 ("0x" ++ paddedHex width value ++ type.name)
        (lit (.typedHex width value type))
  | lowWord : Reads policy 12 "0xFFFF_FFFF" (lit .lowWord)
  | paren {text : String} {inner : Expr} :
      Reads policy 0 text inner → Reads policy 12 ("(" ++ text ++ ")") (paren inner)
  | cast {text : String} {inner : Expr} (type : NumType) :
      Reads policy 10 text inner → Reads policy 10 (text ++ " as " ++ type.name) (cast inner type)
  | binary {op : BinaryOp} {first second : String} {left right : Expr} :
      Reads policy (if op.isComparison then op.level + 1 else op.level) first left →
      Reads policy (op.level + 1) second right →
      ((op = .lt ∨ op = .shl) → left.endsInType = false) →
      Reads policy op.level (first ++ " " ++ op.symbol ++ " " ++ second) (binary op left right)
  | method {first second : String} {receiver argument : Expr} (name : Method) :
      Reads policy 12 first receiver → Reads policy 0 second argument →
      Reads policy 12 (first ++ "." ++ name.name ++ "(" ++ second ++ ")")
        (method receiver name argument)
  | choice {test first second : String} {condition yes no : Expr} :
      Reads policy 1 test condition → Reads policy 0 first yes → Reads policy 0 second no →
      Reads policy 0
        ("if " ++ test ++ " \x7b " ++ first ++ " \x7d else \x7b " ++ second ++ " \x7d")
        (choice condition yes no)

/-- The level at which the text of an expression is read as the expression. -/
def level? : Expr → Option Nat
  | reg _ => some 12
  | lit (.decimal value) => if 0 ≤ value then some 12 else none
  | lit (.hex _ _) | lit (.typedHex _ _ _) | lit .lowWord => some 12
  | paren inner => do
    let _ ← inner.level?
    return 12
  | cast inner _ => do
    guard (10 ≤ (← inner.level?))
    return 10
  | binary op left right => do
    guard ((if op.isComparison then op.level + 1 else op.level) ≤ (← left.level?))
    guard (op.level + 1 ≤ (← right.level?))
    guard (op = .lt ∨ op = .shl → left.endsInType = false)
    return op.level
  | method receiver _ argument => do
    guard (12 ≤ (← receiver.level?))
    let _ ← argument.level?
    return 12
  | choice condition yes no => do
    guard (1 ≤ (← condition.level?))
    let _ ← yes.level?
    let _ ← no.level?
    return 0
  | _ => none

theorem Reads.mono {policy : LocalPolicy} {level lower : Nat} {text : String} {expr : Expr}
    (reads : Reads policy level text expr) (below : lower ≤ level) :
    Reads policy lower text expr := by
  induction below using Nat.decreasingInduction with
  | self => exact reads
  | of_succ _ _ ih => exact .weaken ih

theorem reads_of_level {policy : LocalPolicy} {expr : Expr} {level : Nat}
    (found : expr.level? = some level) : Reads policy level (expr.text policy) expr := by
  induction expr generalizing level with
  | reg register =>
      cases found
      exact .reg register
  | lit literal =>
      cases literal with
      | decimal value =>
          obtain ⟨nonneg, rfl⟩ : 0 ≤ value ∧ 12 = level := by simpa [level?] using found
          obtain ⟨number, rfl⟩ := Int.eq_ofNat_of_zero_le nonneg
          exact .unsigned number
      | hex width value => cases found; exact .hex width value
      | typedHex width value type => cases found; exact .typedHex width value type
      | lowWord => cases found; exact .lowWord
      | _ => cases found
  | paren inner ih =>
      obtain ⟨own, known, rfl⟩ : ∃ own, inner.level? = some own ∧ 12 = level := by
        simpa [level?, Option.bind_eq_some_iff] using found
      exact .paren ((ih known).mono (Nat.zero_le own))
  | cast inner type ih =>
      obtain ⟨own, known, tight, rfl⟩ : ∃ own, inner.level? = some own ∧ 10 ≤ own ∧ 10 = level := by
        simpa [level?, Option.bind_eq_some_iff, guard] using found
      exact .cast type ((ih known).mono tight)
  | binary op left right leftIh rightIh =>
      obtain ⟨first, leftKnown, leftTight, second, rightKnown, rightTight, plain, rfl⟩ :
          ∃ first, left.level? = some first ∧
            (if op.isComparison then op.level + 1 else op.level) ≤ first ∧
            ∃ second, right.level? = some second ∧ op.level + 1 ≤ second ∧
            (op = .lt ∨ op = .shl → left.endsInType = false) ∧ op.level = level := by
        simpa [level?, Option.bind_eq_some_iff, guard] using found
      exact .binary ((leftIh leftKnown).mono leftTight) ((rightIh rightKnown).mono rightTight) plain
  | method receiver name argument receiverIh argumentIh =>
      obtain ⟨own, known, tight, ⟨inside, argumentKnown⟩, rfl⟩ :
          ∃ own, receiver.level? = some own ∧ 12 ≤ own ∧
            (∃ inside, argument.level? = some inside) ∧ 12 = level := by
        simpa [level?, Option.bind_eq_some_iff, guard] using found
      exact .method name ((receiverIh known).mono tight)
        ((argumentIh argumentKnown).mono (Nat.zero_le inside))
  | choice condition yes no conditionIh yesIh noIh =>
      obtain ⟨own, known, tight, ⟨first, yesKnown⟩, ⟨second, noKnown⟩, rfl⟩ :
          ∃ own, condition.level? = some own ∧ 1 ≤ own ∧ (∃ first, yes.level? = some first) ∧
            (∃ second, no.level? = some second) ∧ 0 = level := by
        simpa [level?, Option.bind_eq_some_iff, guard, Nat.one_le_iff_ne_zero] using found
      exact .choice ((conditionIh known).mono tight) ((yesIh yesKnown).mono (Nat.zero_le first))
        ((noIh noKnown).mono (Nat.zero_le second))
  | _ => cases found

end Expr

end PowerLift
