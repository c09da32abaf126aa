import Mathlib
import PowerLift.Isa.Instruction
import PowerLift.Isa.Mask
import PowerLift.Proofs.Evaluation

/-!
What the architecture says about rotations and shifts. Bits are numbered from the most significant
one. A rotation turns a doubleword, or a word that is repeated in both halves, and a mask selects
what becomes of it; shifts are rotations whose mask leaves out what comes around. The emitted code
computes the same by other means, which is shown here bit by bit.
-/

namespace PowerLift

namespace Machine

/-! ## Bits, rotations and masks -/

/-- The bits `first` through `last`. -/
def slice {width : Nat} (bits : BitVec width) (first last : Nat) : BitVec (last + 1 - first) :=
  bits.extractLsb' (width - 1 - last) (last + 1 - first)

def rotl64 (bits : BitVec 64) (count : Nat) : BitVec 64 :=
  BitVec.ofFnBE fun index => bits.getMsbD ((index + count) % 64)

def rotl32 (bits : BitVec 32) (count : Nat) : BitVec 64 :=
  rotl64 (bits ++ bits) count

/-- Ones from bit `first` through bit `last`, around the end if `last` comes first. -/
def mask (first last : Nat) : BitVec 64 :=
  BitVec.ofFnBE fun index =>
    if first ≤ last then first ≤ index ∧ index ≤ last else first ≤ index ∨ index ≤ last

theorem getMsbD_rotl64 (bits : BitVec 64) (count : Nat) {index : Nat} (below : index < 64) :
    (rotl64 bits count).getMsbD index = bits.getMsbD ((index + count) % 64) := by
  simp [rotl64, BitVec.getMsbD_ofFnBE, below]

theorem getMsbD_mask (first last : Nat) {index : Nat} (below : index < 64) :
    (mask first last).getMsbD index =
      if first ≤ last then decide (first ≤ index) && decide (index ≤ last)
      else decide (first ≤ index) || decide (index ≤ last) := by
  simp only [mask, BitVec.getMsbD_ofFnBE, below]
  split <;> simp_all

theorem slice_low (bits : BitVec 64) : (slice bits 32 63 : BitVec 32) = bits.setWidth 32 := by
  refine BitVec.eq_of_getLsbD_eq fun index below => ?_
  simp [slice, below]

/-- The bits of a repeated word come again after 32. -/
theorem getMsbD_repeated (bits : BitVec 64) {index : Nat} (below : index < 64) :
    (bits.setWidth 32 ++ bits.setWidth 32).getMsbD index = bits.getMsbD (index % 32 + 32) := by
  rw [BitVec.getMsbD_append, BitVec.getMsbD_setWidth, BitVec.getMsbD_setWidth]
  grind

theorem getMsbD_rotl32 (bits : BitVec 64) (count : Nat) {index : Nat} (below : index < 64) :
    (rotl32 (slice bits 32 63) count).getMsbD index =
      bits.getMsbD ((index + count) % 32 + 32) := by
  rw [rotl32, getMsbD_rotl64 _ _ below, slice_low, getMsbD_repeated bits (by omega),
    Nat.mod_mod_of_dvd _ (by norm_num)]

theorem rotl64_eq (bits : BitVec 64) (count : Nat) :
    rotl64 bits count = bits.rotateLeft count := by
  refine BitVec.eq_of_getMsbD_eq fun index below => ?_
  rw [getMsbD_rotl64 _ _ below, BitVec.getMsbD_rotateLeft]
  grind

theorem mask_eq {first last : Nat} (firstFits : first < 64) (lastFits : last < 64) :
    (rotateMask64 first last).toBitVec = mask first last := by
  have ones : (0xFFFFFFFFFFFFFFFF : UInt64).toBitVec = BitVec.allOnes 64 := rfl
  have amount {count : Nat} (fits : count < 64) :
      ((UInt64.ofNat count).toBitVec % 64).toNat = count := by
    simp
    omega
  have upper : (0xFFFFFFFFFFFFFFFF >>> UInt64.ofNat (first % 64) : UInt64).toBitVec =
      BitVec.allOnes 64 >>> first := by
    rw [UInt64.toBitVec_shiftRight, ones, Nat.mod_eq_of_lt firstFits, BitVec.ushiftRight_eq',
      amount firstFits]
  have lower : (0xFFFFFFFFFFFFFFFF <<< UInt64.ofNat (63 - last % 64) : UInt64).toBitVec =
      BitVec.allOnes 64 <<< (63 - last) := by
    rw [UInt64.toBitVec_shiftLeft, ones, Nat.mod_eq_of_lt lastFits, BitVec.shiftLeft_eq',
      amount (by omega)]
  refine BitVec.eq_of_getMsbD_eq fun index below => ?_
  rw [getMsbD_mask _ _ below, rotateMask64]
  split
  · rw [UInt64.toBitVec_and, upper, lower]
    simp only [BitVec.getMsbD_and, BitVec.getMsbD_ushiftRight, BitVec.getMsbD_shiftLeft,
      BitVec.getMsbD_allOnes]
    grind
  · rw [UInt64.toBitVec_or, upper, lower]
    simp only [BitVec.getMsbD_or, BitVec.getMsbD_ushiftRight, BitVec.getMsbD_shiftLeft,
      BitVec.getMsbD_allOnes]
    grind

/-- The low word below itself is the word in both halves. -/
theorem repeated_eq (bits : BitVec 64) :
    bits &&& 0xFFFFFFFF#64 ||| bits <<< 32 = slice bits 32 63 ++ slice bits 32 63 := by
  have low : 0xFFFFFFFF#64 = mask 32 63 := by decide +kernel
  refine BitVec.eq_of_getMsbD_eq fun index below => ?_
  rw [slice_low, BitVec.getMsbD_or, BitVec.getMsbD_and, BitVec.getMsbD_shiftLeft,
    getMsbD_repeated _ below, low, getMsbD_mask _ _ below]
  grind

/-! ## Shifts as rotations -/

variable (bits : BitVec 64) {count : Nat}

theorem shiftLeft_word (small : count < 32) :
    (bits.setWidth 32 <<< count).setWidth 64 =
      rotl32 (slice bits 32 63) count &&& mask 32 (63 - count) := by
  refine BitVec.eq_of_getMsbD_eq fun index below => ?_
  simp only [BitVec.getMsbD_and, BitVec.getMsbD_setWidth, BitVec.getMsbD_shiftLeft,
    getMsbD_rotl32 _ _ below, getMsbD_mask _ _ below]
  grind

theorem shiftRight_word (small : count < 32) :
    (bits.setWidth 32 >>> count).setWidth 64 =
      rotl32 (slice bits 32 63) (64 - count) &&& mask (count + 32) 63 := by
  refine BitVec.eq_of_getMsbD_eq fun index below => ?_
  simp only [BitVec.getMsbD_and, BitVec.getMsbD_setWidth, BitVec.getMsbD_ushiftRight,
    getMsbD_rotl32 _ _ below, getMsbD_mask _ _ below]
  grind

theorem shiftLeft_doubleword (small : count < 64) :
    bits <<< count = rotl64 bits count &&& mask 0 (63 - count) := by
  refine BitVec.eq_of_getMsbD_eq fun index below => ?_
  simp only [BitVec.getMsbD_and, BitVec.getMsbD_shiftLeft, getMsbD_rotl64 _ _ below,
    getMsbD_mask _ _ below]
  grind

theorem shiftRight_doubleword (small : count < 64) :
    bits >>> count = rotl64 bits (64 - count) &&& mask count 63 := by
  refine BitVec.eq_of_getMsbD_eq fun index below => ?_
  simp only [BitVec.getMsbD_and, BitVec.getMsbD_ushiftRight, getMsbD_rotl64 _ _ below,
    getMsbD_mask _ _ below]
  grind

/-! Arithmetic shifts fill in the sign. -/

theorem getMsbD_fill (sign : Bool) {index : Nat} (below : index < 64) :
    (BitVec.fill 64 sign).getMsbD index = sign := by
  have ones : BitVec.fill 64 true = BitVec.allOnes 64 := rfl
  cases sign with
  | false => simp [BitVec.fill]
  | true => rw [ones, BitVec.getMsbD_allOnes, decide_eq_true below]

theorem msb_word : (bits.setWidth 32).msb = bits.getMsbD 32 := by
  simp [BitVec.msb, BitVec.getMsbD_setWidth]

theorem sshiftRight_word (small : count < 32) :
    ((bits.setWidth 32).sshiftRight count).signExtend 64 =
      rotl32 (slice bits 32 63) (64 - count) &&& mask (count + 32) 63 |||
        BitVec.fill 64 (bits.getMsbD 32) &&& ~~~mask (count + 32) 63 := by
  refine BitVec.eq_of_getMsbD_eq fun index below => ?_
  rw [BitVec.getMsbD_signExtend, BitVec.msb_sshiftRight, BitVec.getMsbD_sshiftRight, msb_word,
    BitVec.getMsbD_setWidth]
  simp only [BitVec.getMsbD_or, BitVec.getMsbD_and, BitVec.getMsbD_not, getMsbD_mask _ _ below,
    getMsbD_rotl32 _ _ below, getMsbD_fill _ below]
  grind

theorem sshiftRight_doubleword (small : count < 64) :
    bits.sshiftRight count =
      rotl64 bits (64 - count) &&& mask count 63 |||
        BitVec.fill 64 (bits.getMsbD 0) &&& ~~~mask count 63 := by
  refine BitVec.eq_of_getMsbD_eq fun index below => ?_
  rw [BitVec.getMsbD_sshiftRight, BitVec.msb]
  simp only [BitVec.getMsbD_or, BitVec.getMsbD_and, BitVec.getMsbD_not, getMsbD_mask _ _ below,
    getMsbD_rotl64 _ _ below, getMsbD_fill _ below]
  grind

/-! ## Lost bits -/

theorem eq_zero_iff {width : Nat} (bits : BitVec width) :
    bits = 0 ↔ ∀ index < width, bits.getMsbD index = false := by
  refine ⟨?_, fun clear => BitVec.eq_of_getMsbD_eq fun index below => ?_⟩
  · rintro rfl index _
    simp
  · rw [clear index below]
    simp

theorem getMsbD_low (count : Nat) {width index : Nat} (below : index < width) :
    (BitVec.ofNat width (2 ^ count - 1)).getMsbD index = decide (width ≤ index + count) := by
  rw [BitVec.getMsbD_eq_getLsbD, BitVec.getLsbD_ofNat, Nat.testBit_two_pow_sub_one]
  grind

/-- The bits that a shift to the right loses are those that a rotation brings to the front. -/
theorem lost_iff_front {width count : Nat} (small : count < width) (bitAt : Nat → Bool)
    {lost front : BitVec width}
    (atEnd : ∀ index < width, lost.getMsbD index = (bitAt index && decide (width ≤ index + count)))
    (turned : ∀ index < width, front.getMsbD index =
      (bitAt ((index + (width - count)) % width) && decide (index < count))) :
    lost = 0 ↔ front = 0 := by
  rw [eq_zero_iff, eq_zero_iff]
  constructor
  · intro clear index below
    rw [turned index below, Bool.and_eq_false_imp, decide_eq_false_iff_not]
    intro set ahead
    have place := Nat.mod_eq_of_lt (show index + (width - count) < width by omega)
    have last := clear (index + (width - count)) (by omega)
    rw [atEnd _ (by omega), ← place, set] at last
    simp at last
    omega
  · intro clear index below
    rw [atEnd index below, Bool.and_eq_false_imp, decide_eq_false_iff_not]
    intro set behind
    have place : (index + count - width + (width - count)) % width = index := by
      rw [Nat.mod_eq_of_lt (by omega)]
      omega
    have first := clear (index + count - width) (by omega)
    rw [turned _ (by omega), place, set] at first
    simp at first
    omega

theorem lost_word (small : count < 32) :
    bits.setWidth 32 &&& BitVec.ofNat 32 (2 ^ count - 1) = 0 ↔
      (slice (rotl32 (slice bits 32 63) (64 - count) &&& ~~~mask (count + 32) 63) 32 63 :
        BitVec 32) = 0 := by
  rw [slice_low (rotl32 _ _ &&& _)]
  refine lost_iff_front small (fun index => bits.getMsbD (index + 32)) ?_ ?_
  · intro index below
    rw [BitVec.getMsbD_and, BitVec.getMsbD_setWidth, getMsbD_low count below]
    grind
  · intro index below
    rw [BitVec.getMsbD_setWidth, BitVec.getMsbD_and, BitVec.getMsbD_not,
      getMsbD_mask _ _ (by omega), getMsbD_rotl32 _ _ (by omega)]
    grind

theorem lost_doubleword (small : count < 64) :
    bits &&& BitVec.ofNat 64 (2 ^ count - 1) = 0 ↔
      rotl64 bits (64 - count) &&& ~~~mask count 63 = 0 := by
  refine lost_iff_front small bits.getMsbD ?_ ?_
  · intro index below
    rw [BitVec.getMsbD_and, getMsbD_low count below]
  · intro index below
    rw [BitVec.getMsbD_and, BitVec.getMsbD_not, getMsbD_mask _ _ below, getMsbD_rotl64 _ _ below]
    grind

/-! ## Instructions -/

/-- The fields of a word that rotations and shifts name. -/
structure Fields where
  rs : Nat
  ra : Nat
  rb : Nat
  sh : Nat
  mb : Nat
  me : Nat
  /-- The count and the bound of six bits. -/
  wideSh : Nat
  bound : Nat

/-- Fields of six bits have their high bit apart from the others. -/
def Fields.ofWord (word : BitVec 32) : Fields where
  rs := (slice word 6 10).toNat
  ra := (slice word 11 15).toNat
  rb := (slice word 16 20).toNat
  sh := (slice word 16 20).toNat
  mb := (slice word 21 25).toNat
  me := (slice word 26 30).toNat
  wideSh := (slice word 30 30 ++ slice word 16 20).toNat
  bound := (slice word 26 26 ++ slice word 21 25).toNat

/-- What rotations, logical shifts and immediate arithmetic shifts do. -/
def execute? (opcode : Opcode) (fields : Fields) (state : IntegerState) : Option IntegerState :=
  let ⟨_, ra, _, sh, mb, me, wideSh, bound⟩ := fields
  let rs := state.general fields.rs
  let rb := state.general fields.rb
  let wordMask := mask (mb + 32) (me + 32)
  let set (value : BitVec 64) : Option IntegerState :=
    some { state with general := Function.update state.general ra value }
  let insert (turned mask : BitVec 64) : Option IntegerState :=
    set (turned &&& mask ||| state.general ra &&& ~~~mask)
  -- The sign stands in front of the mask; a negative number carries if bits came around to there.
  let setSigned (turned mask : BitVec 64) (sign lost : Bool) : Option IntegerState :=
    some {
      general := Function.update state.general ra
        (turned &&& mask ||| BitVec.fill 64 sign &&& ~~~mask)
      carry := sign && lost }
  match opcode with
  | .rlwinm => set (rotl32 (slice rs 32 63) sh &&& wordMask)
  | .rlwnm => set (rotl32 (slice rs 32 63) (slice rb 59 63).toNat &&& wordMask)
  | .rlwimi => insert (rotl32 (slice rs 32 63) sh) wordMask
  | .rldicl => set (rotl64 rs wideSh &&& mask bound 63)
  | .rldicr => set (rotl64 rs wideSh &&& mask 0 bound)
  | .rldic => set (rotl64 rs wideSh &&& mask bound (63 - wideSh))
  | .rldimi => insert (rotl64 rs wideSh) (mask bound (63 - wideSh))
  | .rldcl => set (rotl64 rs (slice rb 58 63).toNat &&& mask bound 63)
  | .rldcr => set (rotl64 rs (slice rb 58 63).toNat &&& mask 0 bound)
  | .slw =>
    let n := (slice rb 59 63).toNat
    set (rotl32 (slice rs 32 63) n &&& if rb.getMsbD 58 then 0 else mask 32 (63 - n))
  | .srw =>
    let n := (slice rb 59 63).toNat
    set (rotl32 (slice rs 32 63) (64 - n) &&& if rb.getMsbD 58 then 0 else mask (n + 32) 63)
  | .sld =>
    let n := (slice rb 58 63).toNat
    set (rotl64 rs n &&& if rb.getMsbD 57 then 0 else mask 0 (63 - n))
  | .srd =>
    let n := (slice rb 58 63).toNat
    set (rotl64 rs (64 - n) &&& if rb.getMsbD 57 then 0 else mask n 63)
  | .srawi =>
    let turned := rotl32 (slice rs 32 63) (64 - sh)
    let mask := mask (sh + 32) 63
    setSigned turned mask (rs.getMsbD 32) (slice (turned &&& ~~~mask) 32 63 ≠ 0)
  | .sradi =>
    let turned := rotl64 rs (64 - wideSh)
    let mask := mask wideSh 63
    setSigned turned mask (rs.getMsbD 0) (turned &&& ~~~mask ≠ 0)
  | _ => none

end Machine

/-! ## Fields of decoded words -/

namespace Instruction

open Machine

theorem toNat_slice (word : UInt32) (first last : Nat) :
    (slice word.toBitVec first last).toNat = bits word (31 - last) (last + 1 - first) := by
  simp [slice, bits, Nat.one_shiftLeft]

theorem toNat_slices (word : UInt32) (high first last : Nat) :
    (slice word.toBitVec high high ++ slice word.toBitVec first last).toNat =
      bits word (31 - last) (last + 1 - first) +
        bits word (31 - high) 1 <<< (last + 1 - first) := by
  have low : (slice word.toBitVec first last).toNat < 2 ^ (last + 1 - first) := BitVec.isLt _
  rw [BitVec.toNat_append, ← Nat.shiftLeft_add_eq_or_of_lt low, toNat_slice, toNat_slice,
    Nat.add_comm, Nat.add_sub_cancel_left]

variable (insn : Instruction)

/-- The fields as the instruction reads them. -/
def fields : Fields :=
  ⟨insn.rs, insn.ra, insn.rb, insn.sh, insn.mb, insn.me, insn.sh64, insn.mb64⟩

theorem sh64_eq :
    insn.sh64 = (slice insn.raw.toBitVec 30 30 ++ slice insn.raw.toBitVec 16 20).toNat := by
  rw [toNat_slices]
  simp [sh64, Field.sh64, Field.read]

theorem mb64_eq :
    insn.mb64 = (slice insn.raw.toBitVec 26 26 ++ slice insn.raw.toBitVec 21 25).toNat := by
  rw [toNat_slices]
  simp [mb64, Field.mb64, Field.read]

theorem fields_eq : insn.fields = Fields.ofWord insn.raw.toBitVec := by
  rw [fields, sh64_eq, mb64_eq]
  simp [Fields.ofWord, toNat_slice, rs, rd, ra, sh, rb, mb, rc, me, Field.rd, Field.ra, Field.rb,
    Field.rc, Field.me, Field.read]

theorem sh_lt : insn.sh < 32 := by
  have field : insn.sh = (Fields.ofWord insn.raw.toBitVec).sh := congrArg Fields.sh insn.fields_eq
  exact field ▸ BitVec.isLt _

theorem mb_lt : insn.mb < 32 := by
  have field : insn.mb = (Fields.ofWord insn.raw.toBitVec).mb := congrArg Fields.mb insn.fields_eq
  exact field ▸ BitVec.isLt _

theorem me_lt : insn.me < 32 := by
  have field : insn.me = (Fields.ofWord insn.raw.toBitVec).me := congrArg Fields.me insn.fields_eq
  exact field ▸ BitVec.isLt _

theorem sh64_lt : insn.sh64 < 64 :=
  insn.sh64_eq ▸ BitVec.isLt _

theorem mb64_lt : insn.mb64 < 64 :=
  insn.mb64_eq ▸ BitVec.isLt _

end Instruction

end PowerLift
