import Mathlib
import PowerLift.Isa.Instruction
import PowerLift.Proofs.Lookup

/-!
Assembling words. An encoding and values for the operands of its format make a word; decoding the
word finds the encoding again and shows every operand.
-/

namespace PowerLift

/-! ## Operands -/

/-- The parts into which the formats divide the bits of a word that are not opcode. -/
inductive Slot where
  | rd | ra | rb | rc | me
  | crfd | crfs | wideCompare
  | simm | uimm | ds
  | sh64 | mb64
  | spr | crm | fm | fpscrImmediate
  | recordBit | oe | lk | aa | li | bd
  | vsh | vsimm | vectorRecordBit
  | vd128 | va128 | vb128 | vc128 | vz128 | vperm128 | vectorRecordBit128
deriving DecidableEq

namespace Slot

def width : Slot → Nat
  | .wideCompare | .recordBit | .oe | .lk | .aa | .vectorRecordBit | .vectorRecordBit128 => 1
  | .vz128 => 2
  | .crfd | .crfs | .vc128 => 3
  | .fpscrImmediate | .vsh => 4
  | .rd | .ra | .rb | .rc | .me | .vsimm => 5
  | .sh64 | .mb64 => 6
  | .vd128 | .va128 | .vb128 => 7
  | .crm | .fm | .vperm128 => 8
  | .spr => 10
  | .bd => 14
  | .simm | .uimm | .ds => 16
  | .li => 24

def isSigned : Slot → Bool
  | .simm | .ds | .vsimm | .li | .bd => true
  | _ => false

/-- The values that an operand can have. A displacement of a doubleword access counts words. -/
def InRange (slot : Slot) (value : Int) : Prop :=
  (if slot.isSigned then -2 ^ (slot.width - 1) ≤ value ∧ value < 2 ^ (slot.width - 1)
    else 0 ≤ value ∧ value < 2 ^ slot.width) ∧
    (slot = .ds → value % 4 = 0)

instance (slot : Slot) (value : Int) : Decidable (slot.InRange value) :=
  inferInstanceAs (Decidable (_ ∧ _))

/-- A value in two's complement. -/
def code (slot : Slot) (value : Int) : Nat :=
  (value % 2 ^ slot.width).toNat

/-- The bits of a word that an operand with the given code sets. -/
def place : Slot → Nat → Nat
  | .rd, code => code <<< 21
  | .ra, code | .vsimm, code => code <<< 16
  | .rb, code => code <<< 11
  | .rc, code | .vsh, code | .vc128, code | .vz128, code | .vectorRecordBit128, code => code <<< 6
  | .me, code | .aa, code => code <<< 1
  | .crfd, code => code <<< 23
  | .crfs, code => code <<< 18
  | .wideCompare, code => code <<< 21
  | .simm, code | .uimm, code | .ds, code => code
  | .recordBit, code | .lk, code => code
  | .sh64, code => (code % 32) <<< 11 ||| (code / 32) <<< 1
  | .mb64, code => (code % 32) <<< 6 ||| (code / 32) <<< 5
  | .spr, code => (code % 32) <<< 16 ||| (code / 32) <<< 11
  | .crm, code | .fpscrImmediate, code => code <<< 12
  | .fm, code => code <<< 17
  | .oe, code | .vectorRecordBit, code => code <<< 10
  | .li, code | .bd, code => code <<< 2
  | .vd128, code => (code % 32) <<< 21 ||| (code / 32) <<< 2
  | .va128, code => (code % 32) <<< 16 ||| (code / 32 % 2) <<< 5 ||| (code / 64) <<< 10
  | .vb128, code => (code % 32) <<< 11 ||| code / 32
  | .vperm128, code => (code % 32) <<< 16 ||| (code / 32) <<< 6

/-- The accessors of an instruction give the value of an operand, all those that share its bits. The
offset of a branch shows in the target: relative to the branch, or absolute and without a sign. -/
def Shows (slot : Slot) (insn : Instruction) (value : Int) : Prop :=
  match slot with
  | .rd => insn.rd = value ∧ insn.rs = value ∧ insn.bo = value ∧ insn.trapCondition = value
  | .ra => insn.ra = value ∧ insn.bi = value ∧ insn.vuimm = value ∧ insn.vimm128 = value
  | .rb => insn.rb = value ∧ insn.sh = value
  | .rc => insn.rc = value ∧ insn.mb = value
  | .me => insn.me = value
  | .crfd => insn.crfd = value
  | .crfs => insn.crfs = value
  | .wideCompare => insn.wideCompare.toNat = value
  | .simm => insn.simm = value
  | .uimm => insn.uimm = value
  | .ds => insn.ds = value
  | .sh64 => insn.sh64 = value
  | .mb64 => insn.mb64 = value
  | .spr => insn.spr = value
  | .crm => insn.crm = value
  | .fm => insn.fm = value
  | .fpscrImmediate => insn.fpscrImmediate = value
  | .recordBit => insn.recordBit.toNat = value
  | .oe => insn.oe.toNat = value
  | .lk => insn.lk.toNat = value
  | .aa => insn.aa.toNat = value
  | .li => insn.target = some (if insn.aa then UInt32.ofNat (4 * (value % 2 ^ 24).toNat)
      else insn.address + UInt32.ofInt (4 * value))
  | .bd => insn.target = some (if insn.aa then UInt32.ofNat (4 * (value % 2 ^ 14).toNat)
      else insn.address + UInt32.ofInt (4 * value))
  | .vsh => insn.vsh = value ∧ insn.vsh128 = value
  | .vsimm => insn.vsimm = value
  | .vectorRecordBit | .vectorRecordBit128 => insn.vectorRecordBit.toNat = value
  | .vd128 => insn.vd128 = value
  | .va128 => insn.va128 = value
  | .vb128 => insn.vb128 = value
  | .vc128 => insn.vc128 = value
  | .vz128 => insn.vz128 = value
  | .vperm128 => insn.vperm128 = value

end Slot

namespace Format

/-- The ways in which operations of a format divide its operand bits. -/
def divisions : Format → List (List Slot)
  | .i => [[.li, .aa, .lk]]
  | .b => [[.rd, .ra, .bd, .aa, .lk]]
  | .d => [[.rd, .ra, .simm], [.rd, .ra, .uimm], [.crfd, .wideCompare, .ra, .simm],
      [.crfd, .wideCompare, .ra, .uimm]]
  | .ds => [[.rd, .ra, .ds]]
  | .x => [[.rd, .ra, .rb, .recordBit], [.crfd, .wideCompare, .ra, .rb, .recordBit],
      [.crfd, .crfs, .recordBit], [.crfd, .fpscrImmediate, .recordBit]]
  | .xl => [[.rd, .ra, .rb, .lk], [.crfd, .crfs]]
  | .xfx => [[.rd, .spr], [.rd, .crm]]
  | .xfl => [[.fm, .rb, .recordBit]]
  | .xs => [[.rd, .ra, .sh64, .recordBit]]
  | .xo => [[.rd, .ra, .rb, .oe, .recordBit]]
  | .a => [[.rd, .ra, .rb, .rc, .recordBit]]
  | .m => [[.rd, .ra, .rb, .rc, .me, .recordBit]]
  | .md => [[.rd, .ra, .sh64, .mb64, .recordBit]]
  | .mds => [[.rd, .ra, .rb, .mb64, .recordBit]]
  | .va => [[.rd, .ra, .rb, .rc], [.rd, .ra, .rb, .vsh]]
  | .vx => [[.rd, .ra, .rb], [.rd, .vsimm, .rb]]
  | .vxr => [[.rd, .ra, .rb, .vectorRecordBit]]
  | .vx128 => [[.vd128, .va128, .vb128]]
  | .vx128_1 => [[.vd128, .ra, .rb]]
  | .vx128_2 => [[.vd128, .va128, .vb128, .vc128]]
  | .vx128_3 => [[.vd128, .ra, .vb128], [.vd128, .vsimm, .vb128]]
  | .vx128_4 => [[.vd128, .ra, .vb128, .vz128]]
  | .vx128_5 => [[.vd128, .va128, .vb128, .vsh]]
  | .vx128_p => [[.vd128, .vperm128, .vb128]]
  | .vx128_r => [[.vd128, .va128, .vb128, .vectorRecordBit128]]
  | .sc | .unknown => [[]]

/-- How far above the end of the word the extended opcode of a format begins. The vector formats
with gaps in theirs count them. -/
def extendedShift : Format → Nat
  | .x | .xl | .xfx | .xfl | .xo | .a | .mds => 1
  | .xs | .md => 2
  | _ => 0

end Format

/-- The word of an operation with the given operands. -/
def Descriptor.assemble (entry : Descriptor) (slots : List Slot) (values : Slot → Int) : UInt32 :=
  UInt32.ofNat (slots.foldr (fun slot word => slot.place (slot.code (values slot)) ||| word)
    (entry.primary <<< 26 ||| entry.extended.getD 0 <<< entry.format.extendedShift))

/-! ## Words put together from fields -/

/-- Two slices have no bit of the word in common. -/
def Slice.Apart (first second : Slice) : Prop :=
  first.low + first.width ≤ second.low ∨ second.low + second.width ≤ first.low

instance (first second : Slice) : Decidable (first.Apart second) :=
  inferInstanceAs (Decidable (_ ∨ _))

def Slice.Covers (slice : Slice) (index : Nat) : Prop :=
  slice.low ≤ index ∧ index < slice.low + slice.width

namespace Field

/-- The bits of a value that the slices of a field take. -/
def places (field : Field) : Nat :=
  field.foldr (fun slice rest => ((1 <<< slice.width) - 1) <<< slice.place ||| rest) 0

/-- The value has no bit that the field would lose. -/
def Fits (field : Field) (value : Nat) : Prop :=
  value &&& field.places = value

instance (field : Field) (value : Nat) : Decidable (field.Fits value) :=
  inferInstanceAs (Decidable (_ = _))

/-- No bit of the word belongs to two of the slices. -/
def Separate (fields : List Field) : Prop :=
  fields.flatten.Pairwise Slice.Apart ∧
    ∀ slice ∈ fields.flatten, slice.low + slice.width ≤ 32

instance (fields : List Field) : Decidable (Separate fields) :=
  inferInstanceAs (Decidable (_ ∧ _))

/-- The word in which fields have the given values. -/
def join (parts : List (Field × Nat)) : Nat :=
  parts.foldr (fun part word => part.1.pattern part.2 ||| word) 0

theorem testBit_places (field : Field) (index : Nat) :
    field.places.testBit index ↔
      ∃ slice ∈ field, slice.place ≤ index ∧ index < slice.place + slice.width := by
  induction field with
  | nil => simp [places]
  | cons slice rest ih =>
      simp only [places, List.foldr_cons, Nat.testBit_or, Bool.or_eq_true,
        List.exists_mem_cons_iff] at ih ⊢
      rw [ih]
      apply or_congr_left
      simp only [Nat.one_shiftLeft, Nat.testBit_shiftLeft, Nat.testBit_two_pow_sub_one,
        Bool.and_eq_true, decide_eq_true_eq]
      omega

theorem testBit_pattern (field : Field) (value index : Nat) :
    (field.pattern value).testBit index ↔
      ∃ slice ∈ field, slice.Covers index ∧ value.testBit (slice.place + (index - slice.low)) := by
  induction field with
  | nil => simp [pattern]
  | cons slice rest ih =>
      simp only [pattern, List.foldr_cons, Nat.testBit_or, Bool.or_eq_true,
        List.exists_mem_cons_iff] at ih ⊢
      rw [ih]
      apply or_congr_left
      simp only [Nat.one_shiftLeft, Nat.testBit_shiftLeft, Nat.testBit_mod_two_pow,
        Nat.testBit_shiftRight, Bool.and_eq_true, decide_eq_true_eq, Slice.Covers]
      constructor
      · rintro ⟨above, below, set⟩
        exact ⟨⟨above, by omega⟩, set⟩
      · rintro ⟨⟨above, below⟩, set⟩
        exact ⟨above, by omega, set⟩

/-! The bits of a value whose field is whole, and of one whose field is cut. -/

theorem pattern_single (low : Nat) {width value : Nat} (bound : value < 2 ^ width) :
    pattern [⟨low, width, 0⟩] value = value <<< low := by
  simp [pattern, Nat.one_shiftLeft, Nat.mod_eq_of_lt bound]

theorem pattern_shifted {width place value : Nat} (bound : value < 2 ^ width) :
    pattern [⟨place, width, place⟩] (value <<< place) = value <<< place := by
  simp [pattern, Nat.one_shiftLeft, Nat.mod_eq_of_lt bound]

theorem pattern_halves (low high width more : Nat) {value : Nat}
    (bound : value < 2 ^ (width + more)) :
    pattern [⟨low, width, 0⟩, ⟨high, more, width⟩] value =
      (value % 2 ^ width) <<< low ||| (value / 2 ^ width) <<< high := by
  have upper : value / 2 ^ width < 2 ^ more := by
    rw [Nat.div_lt_iff_lt_mul (Nat.two_pow_pos width), Nat.mul_comm, ← Nat.pow_add]
    exact bound
  simp [pattern, Nat.one_shiftLeft, Nat.shiftRight_eq_div_pow, Nat.mod_eq_of_lt upper]

theorem pattern_thirds (low middle high width more most : Nat) {value : Nat}
    (bound : value < 2 ^ (width + more + most)) :
    pattern [⟨low, width, 0⟩, ⟨middle, more, width⟩, ⟨high, most, width + more⟩] value =
      (value % 2 ^ width) <<< low ||| (value / 2 ^ width % 2 ^ more) <<< middle |||
        (value / 2 ^ (width + more)) <<< high := by
  have upper : value / 2 ^ (width + more) < 2 ^ most := by
    rw [Nat.div_lt_iff_lt_mul (Nat.two_pow_pos _), Nat.mul_comm, ← Nat.pow_add]
    exact bound
  simp [pattern, Nat.one_shiftLeft, Nat.shiftRight_eq_div_pow, Nat.mod_eq_of_lt upper,
    Nat.or_assoc]

theorem testBit_read {field : Field} (ordered : field.Ordered) (word : UInt32) (index : Nat) :
    (field.read word).testBit index ↔
      ∃ slice ∈ field, (slice.place ≤ index ∧ index < slice.place + slice.width) ∧
        word.toNat.testBit (slice.low + (index - slice.place)) := by
  induction field with
  | nil => simp [read]
  | cons slice rest ih =>
      obtain ⟨above, restOrdered⟩ := List.pairwise_cons.mp ordered
      obtain ⟨quotient, restValue⟩ := dvd_read rest word (slice.place + slice.width) above
      have small : bits word slice.low slice.width <<< slice.place <
          2 ^ (slice.place + slice.width) := by
        rw [Nat.shiftLeft_eq, Nat.pow_add, Nat.mul_comm]
        exact Nat.mul_lt_mul_of_pos_left (bits_lt _ _ _) (Nat.two_pow_pos _)
      have joined : read (slice :: rest) word =
          read rest word ||| bits word slice.low slice.width <<< slice.place := by
        rw [restValue, ← Nat.two_pow_add_eq_or_of_lt small, ← restValue, Nat.add_comm]
        rfl
      rw [joined, Nat.testBit_or, Bool.or_eq_true, ih restOrdered, or_comm,
        List.exists_mem_cons_iff]
      apply or_congr_left
      simp only [bits, Nat.one_shiftLeft, Nat.testBit_shiftLeft, Nat.testBit_mod_two_pow,
        Nat.testBit_shiftRight, Bool.and_eq_true, decide_eq_true_eq]
      constructor
      · rintro ⟨lower, upper, set⟩
        exact ⟨⟨lower, by omega⟩, set⟩
      · rintro ⟨⟨lower, upper⟩, set⟩
        exact ⟨lower, by omega, set⟩

theorem testBit_join (parts : List (Field × Nat)) (index : Nat) :
    (join parts).testBit index ↔ ∃ part ∈ parts, (part.1.pattern part.2).testBit index := by
  induction parts with
  | nil => simp [join]
  | cons part rest ih =>
      simp only [join, List.foldr_cons, Nat.testBit_or, Bool.or_eq_true,
        List.exists_mem_cons_iff] at ih ⊢
      rw [ih]

theorem Separate.join_lt {parts : List (Field × Nat)}
    (separate : Separate (parts.map Prod.fst)) : join parts < UInt32.size := by
  change join parts < 2 ^ 32
  apply Nat.lt_pow_two_of_testBit
  intro index beyond
  by_contra set
  rw [Bool.not_eq_false, testBit_join] at set
  obtain ⟨part, member, set⟩ := set
  obtain ⟨slice, inside, covers, _⟩ := (testBit_pattern _ _ _).mp set
  have bound := separate.2 slice
    (List.mem_flatten.mpr ⟨part.1, List.mem_map_of_mem member, inside⟩)
  have := covers.2
  omega

/-- Each slice of each part, with the value that its field has. -/
def contents (parts : List (Field × Nat)) : List (Slice × Nat) :=
  parts.flatMap fun part => part.1.map fun slice => (slice, part.2)

theorem contents_slices (parts : List (Field × Nat)) :
    (contents parts).map Prod.fst = (parts.map Prod.fst).flatten := by
  induction parts with
  | nil => rfl
  | cons part rest ih =>
      rw [contents, List.flatMap_cons, List.map_append, List.map_cons, List.flatten_cons]
      congr 1
      simp [Function.comp_def]

theorem mem_contents {parts : List (Field × Nat)} {field : Field} {value : Nat} {slice : Slice}
    (member : (field, value) ∈ parts) (inside : slice ∈ field) :
    (slice, value) ∈ contents parts :=
  List.mem_flatMap.mpr ⟨_, member, List.mem_map_of_mem inside⟩

/-- A bit of the word belongs to one slice, so its part is known. -/
theorem Separate.unique {parts : List (Field × Nat)}
    (separate : Separate (parts.map Prod.fst)) {first second : Slice × Nat}
    (firstMember : first ∈ contents parts) (secondMember : second ∈ contents parts) {index : Nat}
    (firstCovers : first.1.Covers index) (secondCovers : second.1.Covers index) :
    first = second := by
  have pairwise : (contents parts).Pairwise fun first second => first.1.Apart second.1 := by
    apply List.pairwise_map.mp
    rw [contents_slices]
    exact separate.1
  by_contra different
  have symmetric : Std.Symm fun first second : Slice × Nat => first.1.Apart second.1 :=
    ⟨fun _ _ apart => apart.symm⟩
  have apart := pairwise.forall firstMember secondMember different
  unfold Slice.Apart at apart
  unfold Slice.Covers at firstCovers secondCovers
  omega

theorem Fits.exists_slice {field : Field} {value : Nat} (fits : field.Fits value) {index : Nat}
    (set : value.testBit index) :
    ∃ slice ∈ field, slice.place ≤ index ∧ index < slice.place + slice.width := by
  apply (testBit_places field index).mp
  rw [← fits, Nat.testBit_and, Bool.and_eq_true] at set
  exact set.2

theorem read_join {parts : List (Field × Nat)} (separate : Separate (parts.map Prod.fst))
    {field : Field} {value : Nat} (member : (field, value) ∈ parts) (ordered : field.Ordered)
    (fits : field.Fits value) :
    field.read (UInt32.ofNat (join parts)) = value := by
  have whole : (UInt32.ofNat (join parts)).toNat = join parts :=
    UInt32.toNat_ofNat_of_lt' separate.join_lt
  apply Nat.eq_of_testBit_eq
  intro index
  rw [Bool.eq_iff_iff, testBit_read ordered, whole]
  constructor
  · intro ⟨slice, inside, ⟨lower, upper⟩, set⟩
    obtain ⟨part, partMember, set⟩ := (testBit_join _ _).mp set
    obtain ⟨other, otherInside, covers, set⟩ := (testBit_pattern _ _ _).mp set
    -- The bit stands in the slice that it is read from, so no other part has set it.
    have here : slice.Covers (slice.low + (index - slice.place)) :=
      ⟨Nat.le_add_right _ _, by omega⟩
    have same := separate.unique (mem_contents partMember otherInside)
      (mem_contents member inside) covers here
    obtain ⟨rfl, valueSame⟩ := Prod.mk.inj same
    rw [valueSame, Nat.add_sub_cancel_left, Nat.add_sub_cancel' lower] at set
    exact set
  · intro set
    obtain ⟨slice, inside, lower, upper⟩ := fits.exists_slice set
    refine ⟨slice, inside, ⟨lower, upper⟩, (testBit_join _ _).mpr ⟨_, member, ?_⟩⟩
    refine (testBit_pattern _ _ _).mpr
      ⟨slice, inside, ⟨Nat.le_add_right _ _, by omega⟩, ?_⟩
    rwa [Nat.add_sub_cancel_left, Nat.add_sub_cancel' lower]

end Field

/-! ## Operands as fields -/

namespace Slot

def field : Slot → Field
  | .rd => .rd
  | .ra | .vsimm => .ra
  | .rb => .rb
  | .rc => .rc
  | .me => .me
  | .crfd => .crfd
  | .crfs => .crfs
  | .simm | .uimm => .immediate
  | .ds => .displacement
  | .sh64 => .sh64
  | .mb64 => .mb64
  | .spr => .spr
  | .crm => .crm
  | .fm => .fm
  | .fpscrImmediate => .fpscrImmediate
  | .li => .longBranch
  | .bd => .shortBranch
  | .vsh => .vectorShift
  | .vd128 => .vd128
  | .va128 => .va128
  | .vb128 => .vb128
  | .vc128 => .vc128
  | .vz128 => .vz128
  | .vperm128 => .vperm128
  | .recordBit | .lk => [⟨0, 1, 0⟩]
  | .aa => [⟨1, 1, 0⟩]
  | .vectorRecordBit128 => [⟨6, 1, 0⟩]
  | .oe | .vectorRecordBit => [⟨10, 1, 0⟩]
  | .wideCompare => [⟨21, 1, 0⟩]

theorem field_ordered (slot : Slot) : slot.field.Ordered := by
  cases slot <;> decide

theorem code_lt (slot : Slot) (value : Int) : slot.code value < 2 ^ slot.width := by
  have positive : (0 : Int) < 2 ^ slot.width := by positivity
  have bound := Int.emod_lt_of_pos value positive
  unfold code
  zify
  rw [Int.toNat_of_nonneg (Int.emod_nonneg _ positive.ne')]
  exact_mod_cast bound

theorem places_field (slot : Slot) (other : slot ≠ .ds) :
    slot.field.places = 2 ^ slot.width - 1 := by
  cases slot <;> first | rfl | exact absurd rfl other

/-- The code of a displacement ends in two zeros. -/
theorem exists_code_ds {value : Int} (inRange : InRange .ds value) :
    ∃ words < 2 ^ 14, code .ds value = words <<< 2 := by
  have whole := inRange.2 rfl
  have bound := code_lt .ds value
  refine ⟨code .ds value / 4, ?_, ?_⟩
  · simp only [width] at bound
    omega
  · rw [Nat.shiftLeft_eq]
    simp only [code, width]
    omega

theorem fits_code {slot : Slot} {value : Int} (inRange : slot.InRange value) :
    slot.field.Fits (slot.code value) := by
  by_cases displacement : slot = .ds
  · subst displacement
    obtain ⟨words, bound, same⟩ := exists_code_ds inRange
    change _ &&& (2 ^ 14 - 1) <<< 2 = _
    rw [same, ← Nat.shiftLeft_and_distrib, Nat.and_two_pow_sub_one_eq_mod,
      Nat.mod_eq_of_lt bound]
  · unfold Field.Fits
    rw [places_field slot displacement, Nat.and_two_pow_sub_one_eq_mod,
      Nat.mod_eq_of_lt (slot.code_lt value)]

theorem place_code {slot : Slot} {value : Int} (inRange : slot.InRange value) :
    slot.place (slot.code value) = slot.field.pattern (slot.code value) := by
  have bound := slot.code_lt value
  have words := @exists_code_ds value
  cases slot with
  | ds =>
      obtain ⟨words, small, same⟩ := words inRange
      rw [same]
      exact (Field.pattern_shifted small).symm
  | sh64 => exact (Field.pattern_halves 11 1 5 1 bound).symm
  | mb64 => exact (Field.pattern_halves 6 5 5 1 bound).symm
  | spr => exact (Field.pattern_halves 16 11 5 5 bound).symm
  | vd128 => exact (Field.pattern_halves 21 2 5 2 bound).symm
  | va128 => exact (Field.pattern_thirds 16 5 10 5 1 1 bound).symm
  | vb128 => exact (Field.pattern_halves 11 0 5 2 bound).symm
  | vperm128 => exact (Field.pattern_halves 16 6 5 3 bound).symm
  | simm | uimm | recordBit | lk => exact (Field.pattern_single 0 bound).symm
  | _ => exact (Field.pattern_single _ bound).symm

end Slot

/-! ## Assembled words -/

namespace Descriptor

/-- The opcodes and the operands, each with its field. -/
def parts (entry : Descriptor) (slots : List Slot) (values : Slot → Int) : List (Field × Nat) :=
  slots.map (fun slot => (slot.field, slot.code (values slot))) ++
    [(.primary, entry.primary), (entry.field?.getD [], entry.extended.getD 0)]

set_option maxRecDepth 4000 in
theorem table_opcodes :
    ∀ entry ∈ table,
      (Field.primary.Fits entry.primary ∧
        Field.primary.pattern entry.primary = entry.primary <<< 26) ∧
      (entry.field?.getD []).Fits (entry.extended.getD 0) ∧
        (entry.field?.getD []).pattern (entry.extended.getD 0) =
          entry.extended.getD 0 <<< entry.format.extendedShift := by
  decide +kernel

set_option maxRecDepth 4000 in
theorem table_separate :
    ∀ entry ∈ table, ∀ slots ∈ entry.format.divisions,
      Field.Separate (slots.map Slot.field ++ [.primary, entry.field?.getD []]) := by
  decide +kernel

theorem assemble_eq {entry : Descriptor} (member : entry ∈ table) {slots : List Slot}
    {values : Slot → Int} (inRange : ∀ slot ∈ slots, slot.InRange (values slot)) :
    entry.assemble slots values = UInt32.ofNat (Field.join (entry.parts slots values)) := by
  obtain ⟨⟨_, primary⟩, _, extended⟩ := table_opcodes entry member
  unfold assemble
  congr 1
  induction slots with
  | nil => simp [parts, Field.join, primary, extended]
  | cons slot rest ih =>
      obtain ⟨first, others⟩ := List.forall_mem_cons.mp inRange
      rw [List.foldr_cons, ih others, Slot.place_code first]
      rfl

theorem parts_separate {entry : Descriptor} (member : entry ∈ table) {slots : List Slot}
    (division : slots ∈ entry.format.divisions) (values : Slot → Int) :
    Field.Separate ((entry.parts slots values).map Prod.fst) := by
  have separate := table_separate entry member slots division
  simpa [parts, Function.comp_def] using separate

theorem field?_getD_ordered (entry : Descriptor) : (entry.field?.getD []).Ordered := by
  cases found : entry.field? with
  | none => exact .nil
  | some field =>
      unfold field? at found
      split at found
      · exact Format.extended?_ordered _ field found
      · cases found

theorem extended_of_field? {entry : Descriptor} {field : Field}
    (found : entry.field? = some field) : entry.extended = some (entry.extended.getD 0) := by
  unfold field? at found
  split at found
  next extended =>
    obtain ⟨value, same⟩ := Option.isSome_iff_exists.mp extended
    rw [same]
    rfl
  next => cases found

theorem lookup_assemble {entry : Descriptor} (member : entry ∈ table) {slots : List Slot}
    (division : slots ∈ entry.format.divisions) {values : Slot → Int}
    (inRange : ∀ slot ∈ slots, slot.InRange (values slot)) :
    lookup (entry.assemble slots values) = entry := by
  obtain ⟨⟨primary, _⟩, extended, _⟩ := table_opcodes entry member
  have separate := parts_separate member division values
  apply lookupWith_eq member _ fun _ probed => probed
  rw [assemble_eq member inRange]
  constructor
  · symm
    exact Field.read_join separate (by simp [parts]) (by decide) primary
  · intro field found
    have value : (entry.field?.getD []).read _ = entry.extended.getD 0 :=
      Field.read_join separate (by simp [parts]) entry.field?_getD_ordered extended
    rw [found, Option.getD_some] at value
    rw [value]
    exact extended_of_field? found

theorem read_assemble {entry : Descriptor} (member : entry ∈ table) {slots : List Slot}
    (division : slots ∈ entry.format.divisions) {values : Slot → Int}
    (inRange : ∀ slot ∈ slots, slot.InRange (values slot)) {slot : Slot} (among : slot ∈ slots) :
    slot.field.read (entry.assemble slots values) = slot.code (values slot) := by
  rw [assemble_eq member inRange]
  apply Field.read_join (parts_separate member division values)
  · exact List.mem_append_left _ (List.mem_map_of_mem among)
  · exact slot.field_ordered
  · exact Slot.fits_code (inRange slot among)

end Descriptor

/-! ## Accessors -/

theorem signExtend_emod {value : Int} {width : Nat} (lower : -2 ^ width ≤ value)
    (upper : value < 2 ^ width) :
    signExtend (value % 2 ^ (width + 1)).toNat (width + 1) = value := by
  have double : (2 : Int) ^ (width + 1) = 2 * 2 ^ width := by ring
  have bound : ((1 <<< (width + 1) : Nat) : Int) = 2 * 2 ^ width := by
    rw [Nat.one_shiftLeft, ← double]
    norm_cast
  unfold signExtend
  rw [double]
  by_cases negative : value < 0
  · -- The code of a negative number is above the half.
    have code : value % (2 * 2 ^ width) = value + 2 * 2 ^ width := by
      rw [← Int.add_emod_right, Int.emod_eq_of_lt (by omega) (by omega)]
    rw [code, if_neg (by omega), bound]
    omega
  · rw [Int.emod_eq_of_lt (by omega) (by omega), if_pos (by omega)]
    omega

namespace Slot

theorem code_of_unsigned {slot : Slot} {value : Int} (inRange : slot.InRange value)
    (unsigned : slot.isSigned = false) : (slot.code value : Int) = value := by
  have bounds := inRange.1
  rw [unsigned, if_neg Bool.false_ne_true] at bounds
  unfold code
  rw [Int.emod_eq_of_lt bounds.1 bounds.2, Int.toNat_of_nonneg bounds.1]

theorem signExtend_code {slot : Slot} {value : Int} (inRange : slot.InRange value)
    (signed : slot.isSigned) : signExtend (slot.code value) slot.width = value := by
  have bounds := inRange.1
  rw [if_pos signed] at bounds
  have positive : slot.width = slot.width - 1 + 1 := by
    cases slot <;> rfl
  unfold code
  rw [positive]
  exact signExtend_emod bounds.1 bounds.2

end Slot

theorem toNat_bit (word : UInt32) (index : Nat) :
    (bit word index).toNat = Field.read [⟨index, 1, 0⟩] word := by
  have bound := Field.bits_lt word index 1
  have value : Field.read [⟨index, 1, 0⟩] word = bits word index 1 := by
    simp [Field.read]
  rw [value, bit]
  generalize bits word index 1 = digit at bound ⊢
  interval_cases digit <;> rfl

namespace Slot

variable {slot : Slot} {insn : Instruction} {value : Int}

/-- Operands whose accessor depends on the format are those of one format. -/
theorem format_of_mem {format : Format} {slots : List Slot} (division : slots ∈ format.divisions) :
    (.li ∈ slots → format = .i) ∧ (.bd ∈ slots → format = .b) ∧
      (.vectorRecordBit ∈ slots → format = .vxr) ∧
      (.vectorRecordBit128 ∈ slots → format = .vx128_r) := by
  revert slots
  cases format <;> decide

theorem shows_of_read
    (decoded : insn.target = Instruction.branchTarget insn.address insn.raw insn.format)
    {slots : List Slot} (division : slots ∈ insn.format.divisions) (among : slot ∈ slots)
    (inRange : slot.InRange value) (read : slot.field.read insn.raw = slot.code value) :
    slot.Shows insn value := by
  have unsigned := code_of_unsigned inRange
  have signed := signExtend_code inRange
  rw [← read] at unsigned signed
  obtain ⟨long, short, vector, vector128⟩ := format_of_mem division
  cases slot with
  | simm | ds | vsimm => exact signed rfl
  | rd | ra => exact ⟨unsigned rfl, unsigned rfl, unsigned rfl, unsigned rfl⟩
  | rb | rc | vsh => exact ⟨unsigned rfl, unsigned rfl⟩
  | recordBit | oe | lk | aa | wideCompare =>
      rw [← unsigned rfl]
      exact congrArg Nat.cast (toNat_bit _ _)
  | li =>
      have offset : signExtend (Field.longBranch.read insn.raw) 24 = value := signed rfl
      have code : Field.longBranch.read insn.raw = (value % 2 ^ 24).toNat := read
      rw [Shows, decoded, long among, Instruction.branchTarget, Instruction.displaced, offset, code]
      rfl
  | bd =>
      have offset : signExtend (Field.shortBranch.read insn.raw) 14 = value := signed rfl
      have code : Field.shortBranch.read insn.raw = (value % 2 ^ 14).toNat := read
      rw [Shows, decoded, short among, Instruction.branchTarget, Instruction.displaced, offset,
        code]
      rfl
  | vectorRecordBit =>
      change (insn.vectorRecordBit.toNat : Int) = value
      rw [Instruction.vectorRecordBit, vector among, ← unsigned rfl]
      exact congrArg Nat.cast (toNat_bit _ _)
  | vectorRecordBit128 =>
      change (insn.vectorRecordBit.toNat : Int) = value
      rw [Instruction.vectorRecordBit, vector128 among, ← unsigned rfl]
      exact congrArg Nat.cast (toNat_bit _ _)
  | _ => exact unsigned rfl

end Slot

/-- Decoding undoes assembling: the word of an operation with operands in range is found in the
table as that operation, and every accessor of its format gives the value that was put in. -/
theorem Descriptor.decode_assemble {entry : Descriptor} (member : entry ∈ table)
    {slots : List Slot} (division : slots ∈ entry.format.divisions) {values : Slot → Int}
    (inRange : ∀ slot ∈ slots, slot.InRange (values slot)) (address : UInt32) :
    lookup (entry.assemble slots values) = entry ∧
      ∀ slot ∈ slots,
        slot.Shows (Instruction.decode address (entry.assemble slots values)) (values slot) := by
  have found := lookup_assemble member division inRange
  refine ⟨found, ?_⟩
  intro slot among
  have format : (Instruction.decode address (entry.assemble slots values)).format =
      entry.format := congrArg Descriptor.format found
  apply Slot.shows_of_read rfl (format ▸ division) among (inRange slot among)
  exact read_assemble member division inRange among

/-- A shift with registers from all four quarters of the vector unit. -/
theorem Descriptor.decode_assemble_vsldoi128 :
    let entry : Descriptor := ⟨.vsldoi128, .vx128_5, .vectorPermute, 4, some 16⟩
    let values : Slot → Int
      | .vd128 => 97
      | .va128 => 66
      | .vb128 => 127
      | .vsh => 11
      | _ => 0
    let word := entry.assemble [.vd128, .va128, .vb128, .vsh] values
    word = 0x1022FEDF ∧ lookup word = entry ∧
      ∀ slot ∈ [Slot.vd128, .va128, .vb128, .vsh],
        slot.Shows (Instruction.decode 0x82000000 word) (values slot) := by
  intro entry values word
  refine ⟨by decide +kernel, ?_⟩
  exact decode_assemble (by decide +kernel) (by decide) (by decide) 0x82000000

end PowerLift
