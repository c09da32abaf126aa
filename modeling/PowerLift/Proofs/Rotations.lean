import Mathlib
import PowerLift.Proofs.Architecture
import PowerLift.Proofs.Implemented

/-!
Rotations and shifts keep their meaning. Every part that their code is built from has the value that
the architecture gives it, so the assignments of an instruction change the registers as the
architecture says.
-/

namespace PowerLift

open Machine

namespace Lift

variable {registers : Nat → BitVec 64} {value old count : Expr} {bits before amount : BitVec 64}

/-! ## Literals and counts -/

theorem eval_doubleword (number : UInt64) :
    (Expr.doubleword number).eval registers = some (.u64 number.toBitVec) := by
  have typed : (Value.literal number.toNat).as? false 64 = some number.toBitVec := by
    rw [Value.as?, BitVec.ofInt_natCast]
    simp [Value.read]
  change (Value.literal number.toNat).cast? .u64 = _
  simp [Value.cast?, NumType.integer?, typed]

theorem evalAs_hex {number width : Nat} (fits : number < 2 ^ width) :
    (Expr.hex number).evalAs registers false width = some (BitVec.ofNat width number) :=
  Expr.evalAs_literal rfl fits

theorem evalAs_zero (signed : Bool) (width : Nat) :
    (Expr.decimal 0).evalAs registers signed width = some 0 := by
  cases signed <;>
    simp [Expr.evalAs, Expr.decimal, Expr.eval, Literal.value?, Value.as?, Value.read]

theorem pow_sub_one_lt {size width : Nat} (small : size ≤ width) : 2 ^ size - 1 < 2 ^ width := by
  have grows : 2 ^ size ≤ 2 ^ width := Nat.pow_le_pow_right (by decide) small
  have positive : 0 < 2 ^ size := by positivity
  omega

/-- The last bits of a register are what is left under a mask of ones. -/
theorem toNat_low (bits : BitVec 64) {size : Nat} (small : size ≤ 64) :
    (bits &&& BitVec.ofNat 64 (2 ^ size - 1)).toNat = (slice bits (64 - size) 63).toNat := by
  have width : 63 + 1 - (64 - size) = size := by omega
  rw [BitVec.toNat_and, BitVec.toNat_ofNat, Nat.mod_eq_of_lt (pow_sub_one_lt small),
    Nat.and_two_pow_sub_one_eq_mod, slice, BitVec.extractLsb'_toNat, width, Nat.shiftRight_zero]

theorem slice_last_lt (bits : BitVec 64) {size : Nat} (small : size ≤ 64) :
    (slice bits (64 - size) 63).toNat < 2 ^ size := by
  have width : 63 + 1 - (64 - size) = size := by omega
  exact (BitVec.isLt _).trans_eq (congrArg (2 ^ ·) width)

theorem eval_maskedCount (size : Nat) (small : size ≤ 64)
    (counted : count.eval registers = some (.u64 amount)) :
    (maskedCount count (2 ^ size - 1)).eval registers =
      some (.u64 (amount &&& BitVec.ofNat 64 (2 ^ size - 1))) :=
  Expr.eval_binary (by decide) counted (evalAs_hex (pow_sub_one_lt small))

/-- The expression is a count of a rotation, with the given value. -/
def Counts (registers : Nat → BitVec 64) (count : Expr) (turns : Nat) : Prop :=
  ∃ amount : BitVec 32, count.evalAs registers false 32 = some amount ∧ amount.toNat = turns

theorem counts_decimal {turns : Nat} (fits : turns < 64) :
    Counts registers (.decimal turns) turns := by
  refine ⟨_, Expr.evalAs_literal rfl (fits.trans (by decide)), ?_⟩
  rw [BitVec.toNat_ofNat, Nat.mod_eq_of_lt (fits.trans (by decide))]

theorem counts_countIn (size : Nat) (small : size ≤ 32)
    (counted : count.eval registers = some (.u64 amount)) :
    Counts registers (countIn count (2 ^ size - 1)) (slice amount (64 - size) 63).toNat := by
  have low := eval_maskedCount size (by omega) counted
  refine ⟨_, Expr.evalAs_number (Expr.eval_cast low rfl), ?_⟩
  have fits : 2 ^ size ≤ 2 ^ 32 := Nat.pow_le_pow_right (by decide) small
  change BitVec.toNat (BitVec.setWidth 32 _) = _
  rw [BitVec.toNat_setWidth, toNat_low amount (by omega)]
  exact Nat.mod_eq_of_lt ((slice_last_lt amount (by omega)).trans_le fits)

/-! ## Turned values and masks -/

theorem eval_doubledWord (known : value.eval registers = some (.u64 bits)) :
    (doubledWord value).eval registers =
      some (.u64 (slice bits 32 63 ++ slice bits 32 63)) := by
  have lowWord : (Expr.lit .lowWord).evalAs registers false 64 = some 0xFFFFFFFF#64 :=
    Expr.evalAs_literal rfl (by decide)
  have low : (Expr.paren (.binary .and value (.lit .lowWord))).eval registers =
      some (.u64 (bits &&& 0xFFFFFFFF#64)) :=
    Expr.eval_binary (by decide) known lowWord
  have high : (Expr.paren (.binary .shl value (.decimal 32))).eval registers =
      some (.u64 (bits <<< 32)) :=
    Expr.eval_shl known rfl rfl (by decide)
  rw [← repeated_eq]
  exact Expr.eval_binary (by decide) low (Expr.evalAs_number high)

theorem eval_rotated {turns : Nat} (known : value.eval registers = some (.u64 bits))
    (counts : Counts registers count turns) :
    (rotated value count).eval registers = some (.u64 (rotl64 bits turns)) := by
  obtain ⟨amount, counted, rfl⟩ := counts
  rw [rotl64_eq]
  exact Expr.eval_rotateLeft known counted

theorem eval_rotatedWord {turns : Nat} (known : value.eval registers = some (.u64 bits))
    (counts : Counts registers count turns) :
    (rotated (doubledWord value) count).eval registers =
      some (.u64 (rotl32 (slice bits 32 63) turns)) :=
  eval_rotated (eval_doubledWord known) counts

section

variable {first last : Nat} (firstFits : first < 64) (lastFits : last < 64)
include firstFits lastFits

theorem evalAs_masked (known : value.eval registers = some (.u64 bits)) :
    (masked value (rotateMask64 first last)).evalAs registers false 64 =
      some (bits &&& mask first last) := by
  rw [← mask_eq firstFits lastFits]
  exact Expr.evalAs_number
    (Expr.eval_binary (by decide) known (Expr.evalAs_number (eval_doubleword _)))

theorem evalAs_inserted (known : value.eval registers = some (.u64 bits))
    (around : old.eval registers = some (.u64 before)) :
    (inserted value old (rotateMask64 first last)).evalAs registers false 64 =
      some (bits &&& mask first last ||| before &&& ~~~mask first last) := by
  rw [← mask_eq firstFits lastFits]
  have inside : (masked value (rotateMask64 first last)).paren.eval registers =
      some (.u64 (bits &&& (rotateMask64 first last).toBitVec)) :=
    Expr.eval_binary (by decide) known (Expr.evalAs_number (eval_doubleword _))
  have outside : (masked old (~~~rotateMask64 first last)).paren.eval registers =
      some (.u64 (before &&& ~~~(rotateMask64 first last).toBitVec)) :=
    Expr.eval_binary (by decide) around (Expr.evalAs_number (eval_doubleword _))
  exact Expr.evalAs_number
    (Expr.eval_binary (by decide) inside (Expr.evalAs_number outside))

end

/-! ## Logical shifts -/

theorem eval_ne_zero {width : Nat} {number : BitVec width}
    (known : value.eval registers = some (.number false number)) :
    (Expr.binary .ne value (.decimal 0)).eval registers = some (.truth (number ≠ 0)) := by
  rw [Expr.eval_binary (by decide) known (evalAs_zero false width)]
  simp [Operands.compute?, Value.read_inj]

theorem and_power_ne_zero (bits : BitVec 64) {size : Nat} (small : size < 64) :
    decide (bits &&& BitVec.ofNat 64 (2 ^ size) ≠ 0) = bits.getMsbD (63 - size) := by
  have power : BitVec.ofNat 64 (2 ^ size) = BitVec.twoPow 64 size :=
    BitVec.eq_of_toNat_eq (by rw [BitVec.toNat_ofNat, BitVec.toNat_twoPow])
  have set : BitVec.twoPow 64 size ≠ 0 := by
    intro zero
    have bit := congrArg (BitVec.getLsbD · size) zero
    simp [small] at bit
  have place : bits.getMsbD (63 - size) = bits.getLsbD size := by
    rw [BitVec.getMsbD_eq_getLsbD, decide_eq_true (by omega), Bool.true_and]
    congr 1
    omega
  rw [power, BitVec.and_twoPow, place]
  cases bits.getLsbD size with
  | false => simp
  | true => simpa using set

/-- The bit in front of the count says that everything is shifted out. -/
theorem evalAs_unlessShiftedOut (size : Nat) (small : size < 64)
    (counted : count.eval registers = some (.u64 amount))
    (otherwise : value.evalAs registers false 64 = some bits) :
    (unlessShiftedOut count (2 ^ size) value).evalAs registers false 64 =
      some (if amount.getMsbD (63 - size) then 0 else bits) := by
  have power : 2 ^ size < 2 ^ 64 := Nat.pow_lt_pow_right (by decide) small
  have tested : (Expr.binary .and count (.hex (2 ^ size))).eval registers =
      some (.u64 (amount &&& BitVec.ofNat 64 (2 ^ size))) :=
    Expr.eval_binary (by decide) counted (evalAs_hex power)
  have condition := eval_ne_zero tested
  rw [and_power_ne_zero amount small] at condition
  exact Expr.evalAs_choice condition (evalAs_zero false 64) otherwise

theorem eval_narrowed {type : NumType} {signed : Bool} {width : Nat}
    (known : value.eval registers = some (.u64 bits))
    (shape : type.integer? = some (signed, width)) :
    (Expr.paren (.cast value type)).eval registers =
      some (.number signed (bits.setWidth width)) :=
  Expr.eval_cast known shape

section

variable {width : Nat} {number : BitVec width} (size : Nat) (wide : 2 ^ size = width)
  (small : size ≤ 64) (known : value.eval registers = some (.number false number))
  (counted : count.eval registers = some (.u64 amount))
include wide small known counted

theorem eval_shlMasked :
    (Expr.binary .shl value (maskedCount count (2 ^ size - 1))).eval registers =
      some (.number false (number <<< (slice amount (64 - size) 63).toNat)) := by
  have below : (slice amount (64 - size) 63).toNat < width := wide ▸ slice_last_lt amount small
  rw [← toNat_low amount small] at below ⊢
  exact Expr.eval_shl known (eval_maskedCount size small counted) (Value.count?_unsigned _) below

theorem eval_shrMasked :
    (Expr.binary .shr value (maskedCount count (2 ^ size - 1))).eval registers =
      some (.number false (number >>> (slice amount (64 - size) 63).toNat)) := by
  have below : (slice amount (64 - size) 63).toNat < width := wide ▸ slice_last_lt amount small
  rw [← toNat_low amount small] at below ⊢
  exact Expr.eval_shr known (eval_maskedCount size small counted) (Value.count?_unsigned _) below

end

theorem mask_unless (shiftedOut : Bool) (turned mask : BitVec 64) :
    (if shiftedOut then 0 else turned &&& mask) = turned &&& if shiftedOut then 0 else mask := by
  cases shiftedOut <;> simp

section

variable (known : value.eval registers = some (.u64 bits))
  (counted : count.eval registers = some (.u64 amount))
include known counted

theorem evalAs_slw :
    (unlessShiftedOut count 0x20 (shiftedWord .shl value count)).evalAs registers false 64 =
      some (rotl32 (slice bits 32 63) (slice amount 59 63).toNat &&&
        if amount.getMsbD 58 then 0 else mask 32 (63 - (slice amount 59 63).toNat)) := by
  have small : (slice amount 59 63).toNat < 32 := BitVec.isLt _
  have word : (Expr.paren (.cast value .u32)).eval registers = some (.u32 (bits.setWidth 32)) :=
    eval_narrowed known rfl
  have shifted := eval_shlMasked 5 rfl (by decide) word counted
  rw [← mask_unless, ← shiftLeft_word _ small]
  exact evalAs_unlessShiftedOut 5 (by decide) counted
    (Expr.evalAs_number (Expr.eval_cast shifted rfl))

theorem evalAs_srw :
    (unlessShiftedOut count 0x20 (shiftedWord .shr value count)).evalAs registers false 64 =
      some (rotl32 (slice bits 32 63) (64 - (slice amount 59 63).toNat) &&&
        if amount.getMsbD 58 then 0 else mask ((slice amount 59 63).toNat + 32) 63) := by
  have small : (slice amount 59 63).toNat < 32 := BitVec.isLt _
  have word : (Expr.paren (.cast value .u32)).eval registers = some (.u32 (bits.setWidth 32)) :=
    eval_narrowed known rfl
  have shifted := eval_shrMasked 5 rfl (by decide) word counted
  rw [← mask_unless, ← shiftRight_word _ small]
  exact evalAs_unlessShiftedOut 5 (by decide) counted
    (Expr.evalAs_number (Expr.eval_cast shifted rfl))

theorem evalAs_sld :
    (unlessShiftedOut count 0x40 (.binary .shl value (maskedCount count 0x3F))).evalAs
        registers false 64 =
      some (rotl64 bits (slice amount 58 63).toNat &&&
        if amount.getMsbD 57 then 0 else mask 0 (63 - (slice amount 58 63).toNat)) := by
  have small : (slice amount 58 63).toNat < 64 := BitVec.isLt _
  have shifted := eval_shlMasked 6 rfl (by decide) known counted
  rw [← mask_unless, ← shiftLeft_doubleword _ small]
  exact evalAs_unlessShiftedOut 6 (by decide) counted (Expr.evalAs_number shifted)

theorem evalAs_srd :
    (unlessShiftedOut count 0x40 (.binary .shr value (maskedCount count 0x3F))).evalAs
        registers false 64 =
      some (rotl64 bits (64 - (slice amount 58 63).toNat) &&&
        if amount.getMsbD 57 then 0 else mask (slice amount 58 63).toNat 63) := by
  have small : (slice amount 58 63).toNat < 64 := BitVec.isLt _
  have shifted := eval_shrMasked 6 rfl (by decide) known counted
  rw [← mask_unless, ← shiftRight_doubleword _ small]
  exact evalAs_unlessShiftedOut 6 (by decide) counted (Expr.evalAs_number shifted)

end

/-! ## Arithmetic shifts -/

theorem eval_shrSigned {type : NumType} {width turns : Nat}
    (shape : type.integer? = some (true, width)) (fits : turns < width)
    (known : value.eval registers = some (.u64 bits)) :
    (Expr.paren (.binary .shr (.paren (.cast value type)) (.decimal turns))).eval registers =
      some (.number true ((bits.setWidth width).sshiftRight turns)) :=
  Expr.eval_shr (eval_narrowed known shape) rfl (Value.count?_literal turns) fits

/-- A change of the sign alone keeps the bits. -/
theorem evalAs_unsigned (known : value.eval registers = some (.i64 bits)) :
    (Expr.cast value .u64).evalAs registers false 64 = some bits := by
  have cast := Expr.eval_cast known (rfl : NumType.u64.integer? = some (false, 64))
  rw [if_pos rfl, BitVec.signExtend_eq] at cast
  exact Expr.evalAs_number cast

theorem eval_negative {width : Nat} {number : BitVec width}
    (known : value.eval registers = some (.number true number)) :
    (Expr.binary .lt value (.decimal 0)).eval registers = some (.truth number.msb) := by
  rw [Expr.eval_binary (by decide) known (evalAs_zero true width), BitVec.msb_eq_toInt]
  simp [Operands.compute?, Value.read]

theorem eval_carryOut {type : NumType} {low lost : Expr} {width length : Nat}
    {tested mask : BitVec length} (shape : type.integer? = some (true, width))
    (known : value.eval registers = some (.u64 bits))
    (lowKnown : low.eval registers = some (.number false tested))
    (lostKnown : lost.evalAs registers false length = some mask) :
    (carryOut value type low lost).eval registers =
      some (.truth ((bits.setWidth width).msb && (tested &&& mask ≠ 0 : Bool))) := by
  have overlap : (Expr.binary .and low lost).eval registers =
      some (.number false (tested &&& mask)) :=
    Expr.eval_binary (by decide) lowKnown lostKnown
  exact Expr.eval_both (eval_negative (eval_narrowed known shape)) (eval_ne_zero overlap)

theorem toBitVec_lostMask (turns : Nat) :
    (lostMask turns).toBitVec = BitVec.ofNat 64 (2 ^ turns - 1) := by
  rw [lostMask, UInt64.toBitVec_ofNat', Nat.one_shiftLeft]

theorem toNat_lostMask {turns : Nat} (small : turns ≤ 64) :
    (lostMask turns).toNat = 2 ^ turns - 1 := by
  rw [lostMask, UInt64.toNat_ofNat', Nat.one_shiftLeft, Nat.mod_eq_of_lt (pow_sub_one_lt small)]

section

variable {turns : Nat} (known : value.eval registers = some (.u64 bits))
include known

theorem evalAs_srawi (small : turns < 32) :
    (castTwice (.paren (.binary .shr (.paren (.cast value .i32)) (.decimal turns))) .i64
        .u64).evalAs registers false 64 =
      some (rotl32 (slice bits 32 63) (64 - turns) &&& mask (turns + 32) 63 |||
        BitVec.fill 64 (bits.getMsbD 32) &&& ~~~mask (turns + 32) 63) := by
  rw [← sshiftRight_word _ small]
  exact evalAs_unsigned (Expr.eval_cast (eval_shrSigned rfl small known) rfl)

theorem evalAs_sradi (small : turns < 64) :
    (Expr.cast (.paren (.binary .shr (.paren (.cast value .i64)) (.decimal turns)))
        .u64).evalAs registers false 64 =
      some (rotl64 bits (64 - turns) &&& mask turns 63 |||
        BitVec.fill 64 (bits.getMsbD 0) &&& ~~~mask turns 63) := by
  have shifted := eval_shrSigned (rfl : NumType.i64.integer? = some (true, 64)) small known
  rw [BitVec.setWidth_eq] at shifted
  rw [← sshiftRight_doubleword _ small]
  exact evalAs_unsigned shifted

theorem eval_srawi_carry (small : turns < 32) :
    (carryOut value .i32 (.paren (.cast value .u32)) (.hex (lostMask turns).toNat)).eval registers =
      some (.truth (bits.getMsbD 32 &&
        (slice (rotl32 (slice bits 32 63) (64 - turns) &&& ~~~mask (turns + 32) 63) 32 63 ≠ 0 :
          Bool))) := by
  have fits : 2 ^ turns - 1 < 2 ^ 32 := pow_sub_one_lt small.le
  rw [toNat_lostMask (by omega), ← msb_word]
  simp only [ne_eq, ← lost_word _ small]
  exact eval_carryOut rfl known (eval_narrowed known rfl) (evalAs_hex fits)

theorem eval_sradi_carry (small : turns < 64) :
    (carryOut value .i64 value (.doubleword (lostMask turns))).eval registers =
      some (.truth (bits.getMsbD 0 &&
        (rotl64 bits (64 - turns) &&& ~~~mask turns 63 ≠ 0 : Bool))) := by
  have lost : (Expr.doubleword (lostMask turns)).evalAs registers false 64 =
      some (BitVec.ofNat 64 (2 ^ turns - 1)) := by
    rw [← toBitVec_lostMask]
    exact Expr.evalAs_number (eval_doubleword _)
  simp only [ne_eq, ← lost_doubleword _ small]
  exact eval_carryOut rfl known known lost

end

/-! ## Assignments -/

variable {state : IntegerState}

theorem run_gpr (number : Nat) (known : value.evalAs state.general false 64 = some bits) :
    (Action.assign (.gpr number) value).run? state =
      some { state with general := Function.update state.general number bits } := by
  simp [Action.run?, Expr.gpr, known]

theorem run_carry {carry : Bool} (known : value.eval state.general = some (.truth carry)) :
    (Action.assign .carry value).run? state = some { state with carry } := by
  simp [Action.run?, Expr.carry, Expr.xer, known, Value.truth?]

/-- Assignments whose texts are read as they are meant, and which change the registers as the
architecture says. -/
structure Performs (insn : Instruction) (actions : List Action) : Prop where
  reads : ∀ action ∈ actions, ∃ place value, action = .assign place value ∧
    ∀ policy, Expr.Reads policy 0 (value.text policy) value
  runs : ∀ state, ∃ after, execute? insn.opcode insn.fields state = some after ∧
    actions.foldlM Action.run? state = some after

theorem reads_assign (place : Expr) (grouped : value.level?.isSome) :
    ∃ place' value', Action.assign place value = .assign place' value' ∧
      ∀ policy, Expr.Reads policy 0 (value'.text policy) value' := by
  obtain ⟨level, found⟩ := Option.isSome_iff_exists.mp grouped
  exact ⟨place, value, rfl, fun policy => (Expr.reads_of_level found).mono (Nat.zero_le level)⟩

theorem performs_set {insn : Instruction} (grouped : value.level?.isSome)
    (exact : ∀ state : IntegerState, ∃ bits, value.evalAs state.general false 64 = some bits ∧
      execute? insn.opcode insn.fields state =
        some { state with general := Function.update state.general insn.ra bits }) :
    Performs insn [.assign (.gpr insn.ra) value] where
  reads action member := by
    obtain rfl := List.mem_singleton.mp member
    exact reads_assign _ grouped
  runs state := by
    obtain ⟨bits, known, executed⟩ := exact state
    refine ⟨_, executed, ?_⟩
    simp [run_gpr insn.ra known]

/-- The carry is assigned first, since the destination may be the source. -/
theorem performs_setCarry {insn : Instruction} {carried : Expr} (grouped : value.level?.isSome)
    (carryGrouped : carried.level?.isSome)
    (exact : ∀ state : IntegerState, ∃ bits carry,
      value.evalAs state.general false 64 = some bits ∧
      carried.eval state.general = some (.truth carry) ∧
      execute? insn.opcode insn.fields state =
        some { general := Function.update state.general insn.ra bits, carry }) :
    Performs insn [.assign .carry carried, .assign (.gpr insn.ra) value] where
  reads action member := by
    rcases List.mem_pair.mp member with rfl | rfl
    · exact reads_assign _ carryGrouped
    · exact reads_assign _ grouped
  runs state := by
    obtain ⟨bits, carry, known, carryKnown, executed⟩ := exact state
    refine ⟨_, executed, ?_⟩
    have second : (Action.assign (.gpr insn.ra) value).run? { state with carry } = _ :=
      run_gpr insn.ra known
    simp [run_carry carryKnown, second]

/-! ## Instructions -/

def rotations : List Opcode :=
  [.rlwinm, .rlwnm, .rlwimi, .rldicl, .rldicr, .rldic, .rldimi, .rldcl, .rldcr]

def shifts : List Opcode :=
  [.slw, .srw, .sld, .srd, .srawi, .sradi]

theorem rotation_performs {insn : Instruction} (turns : insn.opcode ∈ rotations) :
    ∃ value, rotation insn = some value ∧ Performs insn [.assign (.gpr insn.ra) value] := by
  have mb := insn.mb_lt
  have me := insn.me_lt
  have mb64 := insn.mb64_lt
  have sh : ∀ {registers}, Counts registers (.decimal insn.sh) insn.sh :=
    counts_decimal (insn.sh_lt.trans (by decide))
  have sh64 : ∀ {registers}, Counts registers (.decimal insn.sh64) insn.sh64 :=
    counts_decimal insn.sh64_lt
  simp only [rotations, List.mem_cons, List.not_mem_nil, or_false] at turns
  rcases turns with op | op | op | op | op | op | op | op | op <;> simp only [rotation, op]
  · refine ⟨_, rfl, performs_set rfl fun state => ⟨_, evalAs_masked (by omega) (by omega)
      (eval_rotatedWord rfl sh), ?_⟩⟩
    simp only [op, execute?, Instruction.fields]
  · refine ⟨_, rfl, performs_set rfl fun state => ⟨_, evalAs_masked (by omega) (by omega)
      (eval_rotatedWord rfl (counts_countIn 5 (by decide) rfl)), ?_⟩⟩
    simp only [op, execute?, Instruction.fields]
  · refine ⟨_, rfl, performs_set rfl fun state => ⟨_, evalAs_inserted (by omega) (by omega)
      (eval_rotatedWord rfl sh) rfl, ?_⟩⟩
    simp only [op, execute?, Instruction.fields]
  · refine ⟨_, rfl, performs_set rfl fun state => ⟨_, evalAs_masked mb64 (by decide)
      (eval_rotated rfl sh64), ?_⟩⟩
    simp only [op, execute?, Instruction.fields]
  · refine ⟨_, rfl, performs_set rfl fun state => ⟨_, evalAs_masked (by decide) mb64
      (eval_rotated rfl sh64), ?_⟩⟩
    simp only [op, execute?, Instruction.fields]
  · refine ⟨_, rfl, performs_set rfl fun state => ⟨_, evalAs_masked mb64 (by omega)
      (eval_rotated rfl sh64), ?_⟩⟩
    simp only [op, execute?, Instruction.fields]
  · refine ⟨_, rfl, performs_set rfl fun state => ⟨_, evalAs_inserted mb64 (by omega)
      (eval_rotated rfl sh64) rfl, ?_⟩⟩
    simp only [op, execute?, Instruction.fields]
  · refine ⟨_, rfl, performs_set rfl fun state => ⟨_, evalAs_masked mb64 (by decide)
      (eval_rotated rfl (counts_countIn 6 (by decide) rfl)), ?_⟩⟩
    simp only [op, execute?, Instruction.fields]
  · refine ⟨_, rfl, performs_set rfl fun state => ⟨_, evalAs_masked (by decide) mb64
      (eval_rotated rfl (counts_countIn 6 (by decide) rfl)), ?_⟩⟩
    simp only [op, execute?, Instruction.fields]

theorem shift_performs {insn : Instruction} (shifted : insn.opcode ∈ shifts) :
    ∃ actions, shiftActions insn = some actions ∧ Performs insn actions := by
  simp only [shifts, List.mem_cons, List.not_mem_nil, or_false] at shifted
  rcases shifted with op | op | op | op | op | op <;> simp only [shiftActions, op]
  · refine ⟨_, rfl, performs_set rfl fun state => ⟨_, evalAs_slw rfl rfl, ?_⟩⟩
    rw [op]
    rfl
  · refine ⟨_, rfl, performs_set rfl fun state => ⟨_, evalAs_srw rfl rfl, ?_⟩⟩
    rw [op]
    rfl
  · refine ⟨_, rfl, performs_set rfl fun state => ⟨_, evalAs_sld rfl rfl, ?_⟩⟩
    rw [op]
    rfl
  · refine ⟨_, rfl, performs_set rfl fun state => ⟨_, evalAs_srd rfl rfl, ?_⟩⟩
    rw [op]
    rfl
  · refine ⟨_, rfl, performs_setCarry rfl rfl fun state =>
      ⟨_, _, evalAs_srawi rfl insn.sh_lt, eval_srawi_carry rfl insn.sh_lt, ?_⟩⟩
    rw [op]
    rfl
  · refine ⟨_, rfl, performs_setCarry rfl rfl fun state =>
      ⟨_, _, evalAs_sradi rfl insn.sh64_lt, eval_sradi_carry rfl insn.sh64_lt, ?_⟩⟩
    rw [op]
    rfl

end Lift

namespace Instruction

/-- The groups of rotations and shifts. -/
theorem group_of_turn (address word : UInt32) :
    ((decode address word).opcode ∈ Lift.rotations → (decode address word).group = .intRotate) ∧
      ((decode address word).opcode ∈ Lift.shifts → (decode address word).group = .intShift) :=
  decode_ind (motive := fun group _ opcode => (opcode ∈ Lift.rotations → group = .intRotate) ∧
      (opcode ∈ Lift.shifts → group = .intShift))
    (by decide +kernel) (by decide) address word

end Instruction

namespace Flow

/-- The code of a rotation or shift is made of assignments, with the record of the result behind
them if the word asks for it. Each right-hand side is read as it is meant, and from all values of
the registers the assignments give those that the architecture gives, the carry included. -/
theorem lift_rotation_exact (flow : Flow) (table : Option JumpTable) (io : Bool)
    (address word : UInt32)
    (turns : (Instruction.decode address word).opcode ∈ Lift.rotations ++ Lift.shifts) :
    let insn := Instruction.decode address word
    ∃ actions,
      (flow.lift table io insn).body = some
        ((if insn.records then actions ++ [Lift.record (.gpr insn.ra)] else actions).map .act) ∧
      (∀ action ∈ actions, ∃ place value, action = .assign place value ∧
        ∀ policy, Expr.Reads policy 0 (value.text policy) value) ∧
      ∀ state, ∃ after, execute? insn.opcode (Fields.ofWord word.toBitVec) state = some after ∧
        actions.foldlM Action.run? state = some after := by
  intro insn
  have fields : insn.fields = Fields.ofWord word.toBitVec := insn.fields_eq
  rw [← fields]
  rcases List.mem_append.mp turns with rotation | shift
  · have group : insn.group = .intRotate := (Instruction.group_of_turn address word).1 rotation
    change insn.opcode ∈ Lift.rotations at rotation
    obtain ⟨value, found, performs⟩ := Lift.rotation_performs rotation
    refine ⟨_, ?_, performs.reads, performs.runs⟩
    simp only [Flow.lift, group, Lift.rotate, found]
    rfl
  · have group : insn.group = .intShift := (Instruction.group_of_turn address word).2 shift
    change insn.opcode ∈ Lift.shifts at shift
    obtain ⟨actions, found, performs⟩ := Lift.shift_performs shift
    refine ⟨_, ?_, performs.reads, performs.runs⟩
    simp only [Flow.lift, group, Lift.shift, found]
    rfl

/-! The low word turned by 8, under a mask from bit 24 around to bit 7. -/

def turningWord : Instruction :=
  Instruction.decode 0x82000000 0x5464460E

def turnedState : IntegerState where
  general := fun _ => 0x123456789ABCDEF0
  carry := false

/-- Both copies of the word show, with a gap inside the low one. -/
theorem lift_rotation_wraps :
    turningWord.opcode = .rlwinm ∧ ∃ (actions : List Action) (after : IntegerState),
      (Lift.blankFlow.lift none false turningWord).body = some (actions.map .act) ∧
      actions.foldlM Action.run? turnedState = some after ∧
      after.general 4 = 0xBCDEF09ABC00009A := by
  have opcode : turningWord.opcode = .rlwinm := by decide +kernel
  have plain : turningWord.records = false := by decide +kernel
  obtain ⟨actions, body, _, runs⟩ := lift_rotation_exact Lift.blankFlow none false 0x82000000
    0x5464460E (by decide +kernel)
  obtain ⟨after, executed, ran⟩ := runs turnedState
  refine ⟨opcode, actions, after, ?_, ran, ?_⟩
  · refine body.trans ?_
    change some ((if turningWord.records then _ else actions).map Stmt.act) = _
    rw [plain]
    rfl
  · have result : (execute? .rlwinm (Fields.ofWord 0x5464460E) turnedState).map (·.general 4) =
        some 0xBCDEF09ABC00009A := by decide +kernel
    change execute? turningWord.opcode (Fields.ofWord 0x5464460E) turnedState = _ at executed
    rw [opcode] at executed
    rw [executed] at result
    exact Option.some.inj result

end Flow

end PowerLift
