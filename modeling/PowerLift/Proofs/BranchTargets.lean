import Mathlib
import PowerLift.Proofs.AddressSet
import PowerLift.Proofs.Assembler
import PowerLift.Proofs.BranchForms

/-!
Targets of direct branches. The word of a branch has an opcode and a condition at its head, an
offset that counts words, the absolute bit and the link bit; decoding it gives the target that the
offset means, and the target of any branch gives the offset back.
-/

namespace PowerLift

/-- The word of a direct branch whose offset field has `width` bits: its head, the offset in bytes,
and whether it is absolute and linked. -/
def branchWord (width head : Nat) (offset : Int) (absolute link : Bool) : UInt32 :=
  UInt32.ofNat (head * 2 ^ (width + 2) + (offset % 2 ^ (width + 2)).toNat +
    2 * absolute.toNat + link.toNat)

/-- The offset field of a word with two zeros after it, extended by sign. -/
def branchOffset (width : Nat) (word : UInt32) : BitVec 32 :=
  (word.toBitVec.extractLsb' 2 width ++ 0#2).signExtend 32

/-! ## Fields of a branch -/

theorem toNat_emod_lt (value : Int) (width : Nat) : (value % 2 ^ width).toNat < 2 ^ width := by
  have positive : (0 : Int) < 2 ^ width := by positivity
  zify
  rw [Int.toNat_of_nonneg (Int.emod_nonneg value positive.ne')]
  exact Int.emod_lt_of_pos value positive

/-- An offset that counts words is cut off where its number of words is. -/
theorem emod_words {offset : Int} (words : offset % 4 = 0) (width : Nat) :
    offset % 2 ^ (width + 2) = 4 * (offset / 4 % 2 ^ width) := by
  have whole : offset = 4 * (offset / 4) := by omega
  have power : (2 : Int) ^ (width + 2) = 4 * 2 ^ width := by ring
  rw [power]
  conv_lhs => rw [whole]
  exact Int.mul_emod_mul_of_pos _ _ (by norm_num)

theorem flags_lt (absolute link : Bool) : 2 * absolute.toNat + link.toNat < 4 := by
  cases absolute <;> cases link <;> decide

section Word

variable {width head : Nat} {offset : Int} (absolute link : Bool)
  (fits : (head + 1) * 2 ^ (width + 2) ≤ 2 ^ 32) (words : offset % 4 = 0)

include fits words

/-- The offset counts words, which leaves the last two bits of the word to the flags. -/
theorem toNat_branchWord :
    (branchWord width head offset absolute link).toNat =
      4 * (head * 2 ^ width + (offset / 4 % 2 ^ width).toNat) +
        (2 * absolute.toNat + link.toNat) := by
  have small := toNat_emod_lt (offset / 4) width
  have flags := flags_lt absolute link
  have power : head * 2 ^ (width + 2) = 4 * (head * 2 ^ width) := by ring
  have room : (head + 1) * 2 ^ (width + 2) = 4 * (head * 2 ^ width) + 4 * 2 ^ width := by ring
  rw [room] at fits
  rw [branchWord, UInt32.toNat_ofNat', emod_words words, power, Nat.mod_eq_of_lt (by omega)]
  omega

theorem bits_offset :
    bits (branchWord width head offset absolute link) 2 width =
      (offset / 4 % 2 ^ width).toNat := by
  rw [bits, toNat_branchWord absolute link fits words, Nat.shiftRight_eq_div_pow, Nat.one_shiftLeft,
    show (2 : Nat) ^ 2 = 4 from rfl, Nat.mul_add_div (by norm_num),
    Nat.div_eq_of_lt (flags_lt absolute link), Nat.add_zero, Nat.add_comm,
    Nat.add_mul_mod_self_right, Nat.mod_eq_of_lt (toNat_emod_lt _ _)]

theorem bits_head (low count : Nat) :
    bits (branchWord width head offset absolute link) (width + 2 + low) count =
      head / 2 ^ low % 2 ^ count := by
  have small := toNat_emod_lt (offset / 4) width
  have flags := flags_lt absolute link
  have quotient : (branchWord width head offset absolute link).toNat / 2 ^ (width + 2) = head := by
    have split : 4 * (head * 2 ^ width + (offset / 4 % 2 ^ width).toNat) +
        (2 * absolute.toNat + link.toNat) = head * 2 ^ (width + 2) +
          (4 * (offset / 4 % 2 ^ width).toNat + (2 * absolute.toNat + link.toNat)) := by ring
    have power : 2 ^ (width + 2) = 4 * 2 ^ width := by ring
    rw [toNat_branchWord absolute link fits words, split, Nat.mul_comm,
      Nat.mul_add_div (by positivity), Nat.div_eq_of_lt (by omega), Nat.add_zero]
  rw [bits, Nat.shiftRight_add, Nat.shiftRight_eq_div_pow, Nat.shiftRight_eq_div_pow, quotient,
    Nat.one_shiftLeft]

theorem bit_absolute : bit (branchWord width head offset absolute link) 1 = absolute := by
  have word := toNat_branchWord absolute link fits words
  cases absolute <;> cases link <;>
    simp only [bit, bits, word, Bool.toNat_true, Bool.toNat_false, Nat.shiftRight_eq_div_pow,
      Nat.one_shiftLeft, Nat.pow_one, beq_eq_false_iff_ne, beq_iff_eq, ne_eq] <;> omega

theorem bit_link : bit (branchWord width head offset absolute link) 0 = link := by
  have word := toNat_branchWord absolute link fits words
  cases absolute <;> cases link <;>
    simp only [bit, bits, word, Bool.toNat_true, Bool.toNat_false, Nat.shiftRight_zero,
      Nat.one_shiftLeft, Nat.pow_one, beq_eq_false_iff_ne, beq_iff_eq, ne_eq] <;> omega

end Word

/-! ## Targets -/

theorem toNat_add_ofInt (address : UInt32) (offset : Int) :
    ((address + UInt32.ofInt offset).toNat : Int) = (address.toNat + offset) % 2 ^ 32 := by
  rw [UInt32.toNat_add, UInt32.ofInt, UInt32.toNat_ofNat']
  omega

/-- An absolute branch goes to its offset without a sign, any other to the address that its offset
leads to, around the end of the address space if need be. -/
theorem displaced_branchWord {width head : Nat} {offset : Int} (absolute link : Bool)
    (fits : (head + 1) * 2 ^ (width + 3) ≤ 2 ^ 32) (words : offset % 4 = 0)
    (lower : -2 ^ (width + 2) ≤ offset) (upper : offset < 2 ^ (width + 2)) (address : UInt32) :
    let word := branchWord (width + 1) head offset absolute link
    ((Instruction.displaced address word (bits word 2 (width + 1)) (width + 1)).toNat : Int) =
      if absolute then offset % 2 ^ (width + 3) else (address.toNat + offset) % 2 ^ 32 := by
  intro word
  have field : bits word 2 (width + 1) = (offset / 4 % 2 ^ (width + 1)).toNat :=
    bits_offset absolute link fits words
  have flag : bit word 1 = absolute := bit_absolute absolute link fits words
  have whole : 4 * (offset / 4) = offset := by omega
  have power : (2 : Int) ^ (width + 2) = 4 * 2 ^ width := by ring
  rw [Instruction.displaced, flag, field]
  cases absolute with
  | false =>
      have value : signExtend (offset / 4 % 2 ^ (width + 1)).toNat (width + 1) = offset / 4 :=
        signExtend_emod (by omega) (by omega)
      rw [if_neg Bool.false_ne_true, if_neg Bool.false_ne_true, value, whole, toNat_add_ofInt]
  | true =>
      have small := toNat_emod_lt (offset / 4) (width + 1)
      have nonneg : 0 ≤ offset / 4 % 2 ^ (width + 1) := Int.emod_nonneg _ (by positivity)
      have room : (head + 1) * 2 ^ (width + 3) =
          head * 2 ^ (width + 3) + 4 * 2 ^ (width + 1) := by ring
      rw [if_pos rfl, if_pos rfl, UInt32.toNat_ofNat', Nat.mod_eq_of_lt (by omega),
        emod_words words (width + 1)]
      omega

theorem toBitVec_ofInt (value : Int) : (UInt32.ofInt value).toBitVec = BitVec.ofInt 32 value := by
  apply BitVec.eq_of_toNat_eq
  rw [UInt32.toNat_toBitVec, UInt32.ofInt, UInt32.toNat_ofNat', BitVec.toNat_ofInt]
  omega

/-- The offset that decoding computes from a word is the one that its bits spell. -/
theorem ofInt_signExtend (width : Nat) (word : UInt32) :
    (UInt32.ofInt (4 * signExtend (bits word 2 (width + 1)) (width + 1))).toBitVec =
      branchOffset (width + 1) word := by
  have value : signExtend (bits word 2 (width + 1)) (width + 1) =
      (word.toBitVec.extractLsb' 2 (width + 1)).toInt := by
    rw [BitVec.toInt_eq_toNat_cond, BitVec.extractLsb'_toNat, signExtend, bits, Nat.one_shiftLeft]
    rfl
  rw [toBitVec_ofInt, value, branchOffset, BitVec.signExtend, BitVec.toInt_append]
  simp

/-- A relative branch goes to its offset from where it is, and to a word if it is at one. -/
theorem displaced_relative {width : Nat} {address word : UInt32} (relative : bit word 1 = false) :
    let target := Instruction.displaced address word (bits word 2 (width + 1)) (width + 1)
    (target - address).toBitVec = branchOffset (width + 1) word ∧
      (aligned address → aligned target) := by
  intro target
  have value : target =
      address + UInt32.ofInt (4 * signExtend (bits word 2 (width + 1)) (width + 1)) := by
    simp [target, Instruction.displaced, relative]
  constructor
  · rw [value, ← ofInt_signExtend]
    rw [UInt32.add_comm, UInt32.add_sub_cancel]
  · intro here
    rw [aligned_iff] at here ⊢
    have number := toNat_add_ofInt address (4 * signExtend (bits word 2 (width + 1)) (width + 1))
    rw [← value] at number
    omega

/-! ## Decoding -/

theorem Descriptor.lookup_of_primary {entry : Descriptor} (member : entry ∈ table)
    (plain : entry.extended = none) {word : UInt32}
    (primary : bits word 26 6 = entry.primary) : lookup word = entry := by
  have read : Field.primary.read word = entry.primary := by
    simpa [Field.primary, Field.read] using primary
  apply lookupWith_eq member _ fun _ probed => probed
  refine ⟨read.symm, ?_⟩
  intro field found
  rw [field?_eq_none plain] at found
  cases found

namespace Instruction

theorem branchTarget_long (address word : UInt32) :
    branchTarget address word .i = some (displaced address word (bits word 2 24) 24) := by
  simp [branchTarget, Field.longBranch, Field.read]

theorem branchTarget_short (address word : UInt32) :
    branchTarget address word .b = some (displaced address word (bits word 2 14) 14) := by
  simp [branchTarget, Field.shortBranch, Field.read]

theorem decode_long {offset : Int} (absolute link : Bool) (words : offset % 4 = 0)
    (address : UInt32) :
    let word := branchWord 24 18 offset absolute link
    (decode address word).opcode = (if link then .bl else .b) ∧
      (decode address word).target = some (displaced address word (bits word 2 24) 24) := by
  intro word
  have primary : bits word 26 6 = 18 := bits_head absolute link (by norm_num) words 0 6
  have flag : bit word 0 = link := bit_link absolute link (by norm_num) words
  have found : Descriptor.lookup word = ⟨.b, .i, .branch, 18, none⟩ :=
    Descriptor.lookup_of_primary (by decide +kernel) rfl primary
  constructor
  · simp [decode, decodeBase, found, simplifiedOpcode, lk, flag]
  · rw [← branchTarget_long]
    simp [decode, decodeBase, found]

theorem decode_short {bo bi : Nat} {offset : Int} (absolute link : Bool) (boFits : bo < 32)
    (biFits : bi < 32) (words : offset % 4 = 0) (address : UInt32) :
    let word := branchWord 14 (16 * 2 ^ 10 + bo * 2 ^ 5 + bi) offset absolute link
    (decode address word).opcode = (if link then .bcl else .bc) ∧
      (decode address word).bo = bo ∧ (decode address word).bi = bi ∧
      (decode address word).target = some (displaced address word (bits word 2 14) 14) := by
  intro word
  have fits : (16 * 2 ^ 10 + bo * 2 ^ 5 + bi + 1) * 2 ^ (14 + 2) ≤ 2 ^ 32 := by omega
  have head : ∀ low count, bits word (14 + 2 + low) count =
      (16 * 2 ^ 10 + bo * 2 ^ 5 + bi) / 2 ^ low % 2 ^ count :=
    bits_head absolute link fits words
  have primary : bits word 26 6 = 16 := (head 10 6).trans (by omega)
  have flag : bit word 0 = link := bit_link absolute link fits words
  have found : Descriptor.lookup word = ⟨.bc, .b, .branch, 16, none⟩ :=
    Descriptor.lookup_of_primary (by decide +kernel) rfl primary
  refine ⟨?_, ?_, ?_, ?_⟩
  · simp [decode, decodeBase, found, simplifiedOpcode, lk, flag]
  · simpa [Instruction.bo, rd, Field.rd, Field.read, decode, decodeBase] using
      (head 5 5).trans (by omega)
  · simpa [Instruction.bi, ra, Field.ra, Field.read, decode, decodeBase] using
      (head 0 5).trans (by omega)
  · rw [← branchTarget_short]
    simp [decode, decodeBase, found]

/-- Direct branches go exactly where their offset says. A word with an offset in range, counted in
words, decodes to the branch with that target, at every address and with every condition; and the
target of a relative branch is as far from it as the bits of its word say, at a word if the branch
is. -/
theorem decode_target_exact :
    (∀ (address : UInt32) (offset : Int) (absolute link : Bool), offset % 4 = 0 →
      -2 ^ 25 ≤ offset → offset < 2 ^ 25 →
      let insn := decode address (branchWord 24 18 offset absolute link)
      insn.opcode = (if link then .bl else .b) ∧
        ∃ target, insn.target = some target ∧
          (target.toNat : Int) =
            if absolute then offset % 2 ^ 26 else (address.toNat + offset) % 2 ^ 32) ∧
    (∀ (address : UInt32) (bo bi : Nat) (offset : Int) (absolute link : Bool), bo < 32 → bi < 32 →
      offset % 4 = 0 → -2 ^ 15 ≤ offset → offset < 2 ^ 15 →
      let insn := decode address
        (branchWord 14 (16 * 2 ^ 10 + bo * 2 ^ 5 + bi) offset absolute link)
      insn.opcode = (if link then .bcl else .bc) ∧ insn.bo = bo ∧ insn.bi = bi ∧
        ∃ target, insn.target = some target ∧
          (target.toNat : Int) =
            if absolute then offset % 2 ^ 16 else (address.toNat + offset) % 2 ^ 32) ∧
    ∀ address word target : UInt32, (decode address word).target = some target →
      (decode address word).aa = false →
      ((decode address word).format = .i ∧ (target - address).toBitVec = branchOffset 24 word ∨
        (decode address word).format = .b ∧ (target - address).toBitVec = branchOffset 14 word) ∧
        (aligned address → aligned target) := by
  refine ⟨?_, ?_, ?_⟩
  · intro address offset absolute link words lower upper insn
    obtain ⟨opcode, target⟩ := decode_long absolute link words address
    exact ⟨opcode, _, target,
      displaced_branchWord absolute link (by norm_num) words lower upper address⟩
  · intro address bo bi offset absolute link boFits biFits words lower upper insn
    obtain ⟨opcode, sameBo, sameBi, target⟩ :=
      decode_short absolute link boFits biFits words address
    exact ⟨opcode, sameBo, sameBi, _, target,
      displaced_branchWord absolute link (by omega) words lower upper address⟩
  · intro address word target found relative
    have direct : branchTarget address word (decode address word).format = some target := found
    rcases (target_isSome_iff address word).mp (by simp [found]) with format | format
    · rw [format, branchTarget_long] at direct
      obtain rfl := Option.some.inj direct
      obtain ⟨offset, word⟩ := displaced_relative relative
      exact ⟨Or.inl ⟨format, offset⟩, word⟩
    · rw [format, branchTarget_short] at direct
      obtain rfl := Option.some.inj direct
      obtain ⟨offset, word⟩ := displaced_relative relative
      exact ⟨Or.inr ⟨format, offset⟩, word⟩

/-- The longest branch back from an address near zero lands near the end of the address space. An
absolute branch under a condition reads its offset without a sign. The first target is as far from
the branch as its word says. -/
theorem decode_target_wraps :
    ((decode 0x1000 (branchWord 24 18 (-2 ^ 25) false true)).opcode = .bl ∧
      ∃ target, (decode 0x1000 (branchWord 24 18 (-2 ^ 25) false true)).target = some target ∧
        (target.toNat : Int) = 0xFE001000) ∧
    (∃ target,
      (decode 0x1000 (branchWord 14 (16 * 2 ^ 10 + 12 * 2 ^ 5 + 2) (-4) true false)).target =
        some target ∧ (target.toNat : Int) = 0xFFFC) ∧
    ((decode 0x1000 0x4A000001).format = .i ∧
      ((0xFE001000 : UInt32) - 0x1000).toBitVec = branchOffset 24 0x4A000001 ∨
      (decode 0x1000 0x4A000001).format = .b ∧
      ((0xFE001000 : UInt32) - 0x1000).toBitVec = branchOffset 14 0x4A000001) := by
  obtain ⟨long, short, back⟩ := decode_target_exact
  refine ⟨?_, ?_, ?_⟩
  · exact long 0x1000 (-2 ^ 25) false true (by norm_num) (by norm_num) (by norm_num)
  · exact (short 0x1000 12 2 (-4) true false (by norm_num) (by norm_num) (by norm_num) (by norm_num)
      (by norm_num)).2.2.2
  · exact (back 0x1000 0x4A000001 0xFE001000 (by decide +kernel) (by decide +kernel)).1

end Instruction

end PowerLift
