import Mathlib
import PowerLift.Config.Address
import PowerLift.Word

/-!
The texts that are addresses. A text is an address just if it spells a number that fits in a word:
white space around it and underscores apart, it is digits of base ten, or digits of base sixteen
after `0x`, with an optional plus sign before the digits. A number that does not fit is no address,
however it is written, and every way to write an address in either base gives it back.
-/

namespace PowerLift

namespace Text

/-! ## White space -/

/-- `core` is `chars` without the white space around it. -/
structure Trims (chars core : List Char) : Prop where
  around : ∃ front back, chars = front ++ core ++ back ∧
    (∀ c ∈ front, isBlank c) ∧ ∀ c ∈ back, isBlank c
  head : ∀ c ∈ core.head?, ¬ isBlank c
  last : ∀ c ∈ core.getLast?, ¬ isBlank c

theorem not_isBlank_of_head?_dropWhile {chars : List Char} {c : Char}
    (first : c ∈ (chars.dropWhile isBlank).head?) : ¬ isBlank c := by
  have stopped := List.head?_dropWhile_not isBlank chars
  rw [Option.mem_def.mp first] at stopped
  simpa using stopped

theorem dropWhile_isBlank_of_head? {chars : List Char} (solid : ∀ c ∈ chars.head?, ¬ isBlank c) :
    chars.dropWhile isBlank = chars := by
  cases chars with
  | nil => rfl
  | cons c rest => exact List.dropWhile_cons_of_neg (solid c rfl)

theorem trims_trim (chars : List Char) : Trims chars (trim chars) := by
  let inner := chars.dropWhile isBlank
  let back := (inner.reverse.takeWhile isBlank).reverse
  have ends : inner = trim chars ++ back := by
    rw [← List.reverse_inj, List.reverse_append, trim, List.reverse_reverse, List.reverse_reverse]
    exact List.takeWhile_append_dropWhile.symm
  refine ⟨⟨chars.takeWhile isBlank, back, ?_, ?_, ?_⟩, ?_, ?_⟩
  · rw [List.append_assoc, ← ends]
    exact List.takeWhile_append_dropWhile.symm
  · exact fun c mem => List.mem_takeWhile_imp mem
  · exact fun c mem => List.mem_takeWhile_imp (List.mem_reverse.mp mem)
  · intro c first
    have firstInner : c ∈ inner.head? := by
      rw [ends, List.head?_append, Option.mem_def.mp first]
      rfl
    exact not_isBlank_of_head?_dropWhile firstInner
  · intro c last
    rw [trim, List.getLast?_reverse] at last
    exact not_isBlank_of_head?_dropWhile last

theorem Trims.eq_trim {chars core : List Char} (trims : Trims chars core) : core = trim chars := by
  obtain ⟨⟨front, back, rfl, frontBlank, backBlank⟩, head, last⟩ := trims
  rw [trim, List.append_assoc, List.dropWhile_append_of_pos frontBlank]
  cases core with
  | nil => simp [List.dropWhile_eq_nil_iff.mpr backBlank]
  | cons c rest =>
      have starts : ∀ d ∈ (c :: rest ++ back).head?, ¬ isBlank d := head
      have ends : ∀ d ∈ (c :: rest).reverse.head?, ¬ isBlank d := by
        rwa [List.head?_reverse]
      rw [dropWhile_isBlank_of_head? starts, List.reverse_append,
        List.dropWhile_append_of_pos fun d mem => backBlank d (List.mem_reverse.mp mem),
        dropWhile_isBlank_of_head? ends, List.reverse_reverse]

theorem trims_iff {chars core : List Char} : Trims chars core ↔ core = trim chars :=
  ⟨Trims.eq_trim, fun same => same ▸ trims_trim chars⟩

theorem trim_eq_self {chars : List Char} (solid : ∀ c ∈ chars, ¬ isBlank c) :
    trim chars = chars := by
  refine (Trims.eq_trim ⟨⟨[], [], by simp, by simp, by simp⟩, ?_, ?_⟩).symm
  · exact fun c first => solid c (List.mem_of_mem_head? first)
  · exact fun c last => solid c (List.mem_of_mem_getLast? last)

/-! ## Digits -/

/-- `c` is the digit of a number below the base, in either case. -/
def IsDigit (base : Nat) (c : Char) (digit : Nat) : Prop :=
  digit < base ∧ (c = digit.digitChar ∨ c = digit.digitChar.toUpper)

theorem toNat_le_of_digitValue? {base digit : Nat} {c : Char}
    (value : digitValue? base c = some digit) : c.toNat ≤ 'f'.toNat := by
  obtain ⟨read, -⟩ := Option.filter_eq_some_iff.mp value
  have le_of {bound : Char} (le : c ≤ bound) : c.toNat ≤ bound.toNat := le
  split at read
  · rename_i range
    exact (le_of (of_decide_eq_true (Bool.and_eq_true_iff.mp range).2)).trans (by decide)
  split at read
  · rename_i range
    exact le_of (of_decide_eq_true (Bool.and_eq_true_iff.mp range).2)
  split at read
  · rename_i range
    exact (le_of (of_decide_eq_true (Bool.and_eq_true_iff.mp range).2)).trans (by decide)
  · cases read

theorem digitValue?_ofNat : ∀ base ≤ 16, ∀ code ≤ 'f'.toNat,
    ∀ digit ∈ digitValue? base (Char.ofNat code), digit < base ∧
      (Char.ofNat code = digit.digitChar ∨ Char.ofNat code = digit.digitChar.toUpper) := by
  decide +kernel

theorem digitValue?_digitChar : ∀ base ≤ 16, ∀ digit < base,
    digitValue? base digit.digitChar = some digit ∧
      digitValue? base digit.digitChar.toUpper = some digit := by
  decide

theorem digitValue?_eq_some_iff {base digit : Nat} {c : Char} (small : base ≤ 16) :
    digitValue? base c = some digit ↔ IsDigit base c digit := by
  constructor
  · intro value
    have below := toNat_le_of_digitValue? value
    rw [← Char.ofNat_toNat c] at value
    have found := digitValue?_ofNat base small c.toNat below digit value
    rwa [Char.ofNat_toNat] at found
  · rintro ⟨below, rfl | rfl⟩
    · exact (digitValue?_digitChar base small digit below).1
    · exact (digitValue?_digitChar base small digit below).2

theorem not_isBlank_digitChar : ∀ digit < 16,
    ¬ isBlank digit.digitChar ∧ ¬ isBlank digit.digitChar.toUpper := by
  decide

theorem IsDigit.not_isBlank {base digit : Nat} {c : Char} (small : base ≤ 16)
    (isDigit : IsDigit base c digit) : ¬ isBlank c := by
  obtain ⟨below, rfl | rfl⟩ := isDigit
  · exact (not_isBlank_digitChar digit (by omega)).1
  · exact (not_isBlank_digitChar digit (by omega)).2

/-! ## Numbers -/

/-- One or more digits that write a number, the most significant one first. -/
def Writes (base : Nat) (digits : List Char) (value : Nat) : Prop :=
  digits ≠ [] ∧ ∃ numbers, List.Forall₂ (IsDigit base) digits numbers ∧
    value = Nat.ofDigits base numbers.reverse

/-- The digits of a number, after a plus sign or not. -/
def WritesSigned (base : Nat) (chars : List Char) (value : Nat) : Prop :=
  Writes base chars value ∨ ∃ digits, chars = '+' :: digits ∧ Writes base digits value

theorem digitsValue?_eq_some_iff {base read value : Nat} {chars : List Char} (small : base ≤ 16) :
    digitsValue? base read chars = some value ↔
      ∃ numbers, List.Forall₂ (IsDigit base) chars numbers ∧
        value = Nat.ofDigits base numbers.reverse + base ^ chars.length * read := by
  -- The digits already read stand before the rest, so each later one moves them up by one place.
  induction chars generalizing read with
  | nil => simp [digitsValue?, eq_comm]
  | cons c rest ih =>
      have shift (digit : Nat) {numbers : List Nat}
          (digits : List.Forall₂ (IsDigit base) rest numbers) :
          Nat.ofDigits base numbers.reverse + base ^ rest.length * (base * read + digit) =
            Nat.ofDigits base (digit :: numbers).reverse + base ^ (c :: rest).length * read := by
        rw [List.reverse_cons, Nat.ofDigits_append, Nat.ofDigits_singleton, List.length_reverse,
          ← digits.length_eq, List.length_cons, pow_succ]
        ring
      simp only [digitsValue?, Option.bind_eq_bind, Option.bind_eq_some_iff, ih,
        digitValue?_eq_some_iff small]
      constructor
      · rintro ⟨digit, isDigit, numbers, digits, rfl⟩
        exact ⟨digit :: numbers, .cons isDigit digits, shift digit digits⟩
      · rintro ⟨_, all, rfl⟩
        obtain ⟨digit, numbers, isDigit, digits, rfl⟩ := List.forall₂_cons_left_iff.mp all
        exact ⟨digit, isDigit, numbers, digits, (shift digit digits).symm⟩

/-- Digits write the number that reading them gives. -/
theorem writes_iff {base value : Nat} {digits : List Char} (small : base ≤ 16) :
    Writes base digits value ↔ digits ≠ [] ∧ digitsValue? base 0 digits = some value := by
  simp [Writes, digitsValue?_eq_some_iff small]

theorem Writes.exists_isDigit {base value : Nat} {digits : List Char}
    (writes : Writes base digits value) {c : Char} (mem : c ∈ digits) :
    ∃ digit, IsDigit base c digit := by
  obtain ⟨-, numbers, each, -⟩ := writes
  clear value
  induction each with
  | nil => cases mem
  | cons isDigit _ ih =>
      obtain rfl | later := List.mem_cons.mp mem
      · exact ⟨_, isDigit⟩
      · exact ih later

theorem unsigned?_eq_some_iff {base limit value : Nat} {chars : List Char} (small : base ≤ 16) :
    unsigned? base limit chars = some value ↔ WritesSigned base chars value ∧ value < limit := by
  have digits_iff (digits : List Char) :
      (if digits.isEmpty then none else (digitsValue? base 0 digits).filter (· < limit)) =
        some value ↔ Writes base digits value ∧ value < limit := by
    rw [writes_iff small, Option.ite_none_left_eq_some, Option.filter_eq_some_iff,
      List.isEmpty_iff, decide_eq_true_eq, and_assoc]
  unfold unsigned?
  dsimp only
  split
  · rename_i digits
    have notDigits : ¬ Writes base ('+' :: digits) value := by
      intro writes
      obtain ⟨digit, isDigit⟩ := writes.exists_isDigit List.mem_cons_self
      have none := (digitValue?_eq_some_iff small).mpr isDigit
      cases none
    rw [digits_iff]
    simp [WritesSigned, notDigits]
  · rename_i plain
    have noPlus : ¬ ∃ digits, chars = '+' :: digits ∧ Writes base digits value := by
      rintro ⟨digits, signed, -⟩
      exact plain digits signed
    rw [digits_iff, WritesSigned, or_iff_left noPlus]

theorem WritesSigned.unique {base first second : Nat} {chars : List Char} (small : base ≤ 16)
    (one : WritesSigned base chars first) (other : WritesSigned base chars second) :
    first = second := by
  have readOne : unsigned? base (first + second + 1) chars = some first :=
    (unsigned?_eq_some_iff small).mpr ⟨one, by omega⟩
  have readOther : unsigned? base (first + second + 1) chars = some second :=
    (unsigned?_eq_some_iff small).mpr ⟨other, by omega⟩
  exact Option.some.inj (readOne.symm.trans readOther)

/-! ## Renderings of numbers -/

theorem Writes.append_digit {base value digit : Nat} {digits : List Char} {c : Char}
    (writes : Writes base digits value) (isDigit : IsDigit base c digit) :
    Writes base (digits ++ [c]) (base * value + digit) := by
  obtain ⟨-, numbers, each, rfl⟩ := writes
  refine ⟨by simp, numbers ++ [digit], List.rel_append each (.cons isDigit .nil), ?_⟩
  rw [List.reverse_append, List.reverse_singleton, List.singleton_append, Nat.ofDigits_cons,
    add_comm]

theorem Writes.pad {base value : Nat} {digits : List Char} (positive : 0 < base)
    (writes : Writes base digits value) (zeros : Nat) :
    Writes base (List.replicate zeros '0' ++ digits) value := by
  induction zeros with
  | zero => exact writes
  | succ zeros ih =>
      obtain ⟨-, numbers, each, same⟩ := ih
      have zero : IsDigit base '0' 0 := ⟨positive, .inl rfl⟩
      refine ⟨by simp [List.replicate_succ], 0 :: numbers, .cons zero each, ?_⟩
      rw [List.reverse_cons, Nat.ofDigits_append, Nat.ofDigits_singleton, mul_zero, add_zero, same]

theorem writes_map_toDigits {base : Nat} (base_gt : 1 < base) (style : Char → Char)
    (styled : ∀ digit < base, IsDigit base (style digit.digitChar) digit) (value : Nat) :
    Writes base ((Nat.toDigits base value).map style) value := by
  induction value using Nat.strongRecOn with
  | ind value ih =>
      by_cases small : value < base
      · rw [Nat.toDigits_of_lt_base small, List.map_singleton]
        exact ⟨by simp, [value], .cons (styled value small) .nil, by simp⟩
      · have shorter : value / base < value := Nat.div_lt_self (by omega) base_gt
        have last := styled (value % base) (Nat.mod_lt _ (by omega))
        rw [Nat.toDigits_of_base_le base_gt (by omega), List.map_append, List.map_singleton]
        have writes := (ih _ shorter).append_digit last
        rwa [Nat.div_add_mod] at writes

theorem writes_toDigits {base : Nat} (base_gt : 1 < base) (value : Nat) :
    Writes base (Nat.toDigits base value) value := by
  have writes := writes_map_toDigits base_gt id (fun digit below => ⟨below, .inl rfl⟩) value
  rwa [List.map_id] at writes

theorem writes_hex (value : Nat) : Writes 16 (hex value).toList value := by
  rw [hex, String.toList_ofList]
  exact writes_map_toDigits (by decide) _ (fun digit below => ⟨below, .inr rfl⟩) value

/-- Digits with underscores between them hold no white space. -/
theorem Writes.solid {base value : Nat} {chars : List Char} (small : base ≤ 16)
    (writes : Writes base (chars.filter (· != '_')) value) : ∀ c ∈ chars, ¬ isBlank c := by
  intro c mem
  by_cases underscore : c = '_'
  · rw [underscore]
    decide
  · have kept : c ∈ chars.filter (· != '_') := List.mem_filter.mpr ⟨mem, by simpa using underscore⟩
    obtain ⟨digit, isDigit⟩ := writes.exists_isDigit kept
    exact isDigit.not_isBlank small

end Text

open Text (Trims Writes WritesSigned unsigned?)

/-! ## Addresses -/

/-- Text without white space around it and without underscores spells a number: the digits of base
sixteen after their mark, or those of base ten. -/
def Spells (plain : List Char) (value : Nat) : Prop :=
  (∃ digits, (plain = '0' :: 'x' :: digits ∨ plain = '0' :: 'X' :: digits) ∧
    WritesSigned 16 digits value) ∨ WritesSigned 10 plain value

/-- White space around a text and underscores in it are no part of what it spells. -/
def SpellsAddress (text : String) (value : Nat) : Prop :=
  ∃ core, Trims text.toList core ∧ Spells (core.filter (· != '_')) value

theorem spells_marked {mark : Char} (isMark : mark = 'x' ∨ mark = 'X') {digits : List Char}
    {value : Nat} : Spells ('0' :: mark :: digits) value ↔ WritesSigned 16 digits value := by
  have notDecimal : ¬ WritesSigned 10 ('0' :: mark :: digits) value := by
    rintro (writes | ⟨_, signed, -⟩)
    · obtain ⟨digit, isDigit⟩ := writes.exists_isDigit (c := mark) (by simp)
      have value := (Text.digitValue?_eq_some_iff (by decide)).mpr isDigit
      obtain rfl | rfl := isMark <;> cases value
    · cases signed
  simp only [Spells, notDecimal, or_false]
  obtain rfl | rfl := isMark <;> simp

theorem spells_unmarked {plain : List Char} {value : Nat}
    (noLower : ∀ digits, plain ≠ '0' :: 'x' :: digits)
    (noUpper : ∀ digits, plain ≠ '0' :: 'X' :: digits) :
    Spells plain value ↔ WritesSigned 10 plain value := by
  simp [Spells, noLower, noUpper]

theorem spellsAddress_iff {text : String} {value : Nat} :
    SpellsAddress text value ↔ Spells ((Text.trim text.toList).filter (· != '_')) value := by
  simp [SpellsAddress, Text.trims_iff]

/-- One base and one row of characters decide what a text spells and what is read off it. -/
theorem exists_reading (text : String) : ∃ base ≤ 16, ∃ chars,
    parseAddress text = (unsigned? base UInt32.size chars).map UInt32.ofNat ∧
      ∀ value, SpellsAddress text value ↔ WritesSigned base chars value := by
  simp only [spellsAddress_iff, parseAddress]
  split
  · rename_i digits marked
    rw [marked]
    exact ⟨16, le_rfl, digits, rfl, fun _ => spells_marked (.inl rfl)⟩
  · rename_i digits marked
    rw [marked]
    exact ⟨16, le_rfl, digits, rfl, fun _ => spells_marked (.inr rfl)⟩
  · rename_i noLower noUpper
    exact ⟨10, by decide, _, rfl, fun _ => spells_unmarked noLower noUpper⟩

theorem parseAddress_eq_some_iff {text : String} {address : UInt32} :
    parseAddress text = some address ↔ SpellsAddress text address.toNat := by
  obtain ⟨base, small, chars, reads, spells⟩ := exists_reading text
  rw [reads, spells, Option.map_eq_some_iff]
  simp only [Text.unsigned?_eq_some_iff small]
  constructor
  · rintro ⟨value, ⟨writes, fits⟩, rfl⟩
    rwa [UInt32.toNat_ofNat_of_lt' fits]
  · intro writes
    exact ⟨address.toNat, ⟨writes, address.toNat_lt⟩, UInt32.ofNat_toNat⟩

theorem SpellsAddress.unique {text : String} {first second : Nat}
    (one : SpellsAddress text first) (other : SpellsAddress text second) : first = second := by
  obtain ⟨base, small, chars, -, spells⟩ := exists_reading text
  exact ((spells first).mp one).unique small ((spells second).mp other)

theorem parseAddress_eq_none_iff {text : String} :
    parseAddress text = none ↔ ∀ value, SpellsAddress text value → UInt32.size ≤ value := by
  rw [Option.eq_none_iff_forall_ne_some]
  constructor
  · intro never value spells
    by_contra fits
    apply never (UInt32.ofNat value)
    rw [parseAddress_eq_some_iff, UInt32.toNat_ofNat_of_lt' (by omega)]
    exact spells
  · intro large address read
    have tooLarge := large address.toNat (parseAddress_eq_some_iff.mp read)
    exact absurd address.toNat_lt_size tooLarge.not_gt

theorem parseAddress_of_solid {chars : List Char} {address : UInt32}
    (solid : ∀ c ∈ chars, ¬ Text.isBlank c)
    (spells : Spells (chars.filter (· != '_')) address.toNat) :
    parseAddress (String.ofList chars) = some address := by
  rw [parseAddress_eq_some_iff, spellsAddress_iff, String.toList_ofList, Text.trim_eq_self solid]
  exact spells

theorem parseAddress_decimal {chars : List Char} {address : UInt32}
    (writes : Writes 10 (chars.filter (· != '_')) address.toNat) :
    parseAddress (String.ofList chars) = some address :=
  parseAddress_of_solid (writes.solid (by decide)) (.inr (.inl writes))

theorem parseAddress_marked {mark : Char} (isMark : mark = 'x' ∨ mark = 'X') {chars : List Char}
    {address : UInt32} (writes : Writes 16 (chars.filter (· != '_')) address.toNat) :
    parseAddress (String.ofList ('0' :: mark :: chars)) = some address := by
  apply parseAddress_of_solid
  · rw [List.forall_mem_cons, List.forall_mem_cons]
    refine ⟨by decide, ?_, writes.solid le_rfl⟩
    obtain rfl | rfl := isMark <;> decide
  · have kept : ('0' :: mark :: chars).filter (· != '_') =
        '0' :: mark :: chars.filter (· != '_') := by
      obtain rfl | rfl := isMark <;> rfl
    rw [kept, spells_marked isMark]
    exact .inl writes

/-- An address is read off a text just if the text spells it. A text is refused just if every number
that it spells is too large, and no text spells two. The digits of an address, capital letters or
not, with leading zeros and with underscores anywhere between, are read as that address. -/
theorem parseAddress_exact :
    (∀ text address, parseAddress text = some address ↔ SpellsAddress text address.toNat) ∧
    (∀ text, parseAddress text = none ↔
      ∀ value, SpellsAddress text value → UInt32.size ≤ value) ∧
    (∀ text value, SpellsAddress text value → UInt32.size ≤ value → parseAddress text = none) ∧
    ∀ (address : UInt32) (zeros : Nat) (tail : List Char),
      (tail.filter (· != '_') =
          List.replicate zeros '0' ++ Nat.toDigits 16 address.toNat ∨
        tail.filter (· != '_') = List.replicate zeros '0' ++ (hex address.toNat).toList →
        ∀ mark ∈ ['x', 'X'], parseAddress (String.ofList ('0' :: mark :: tail)) = some address) ∧
      (tail.filter (· != '_') = List.replicate zeros '0' ++ (toString address.toNat).toList →
        parseAddress (String.ofList tail) = some address) := by
  refine ⟨fun _ _ => parseAddress_eq_some_iff, fun _ => parseAddress_eq_none_iff, ?_, ?_⟩
  · intro text value spells large
    rw [parseAddress_eq_none_iff]
    intro other spellsOther
    rwa [spellsOther.unique spells]
  intro address zeros tail
  constructor
  · intro digits mark isMark
    apply parseAddress_marked (by simpa using isMark)
    obtain lower | upper := digits
    · rw [lower]
      exact (Text.writes_toDigits (by decide) _).pad (by decide) zeros
    · rw [upper]
      exact (Text.writes_hex _).pad (by decide) zeros
  · intro digits
    apply parseAddress_decimal
    rw [digits, Nat.toString_eq_ofList_toDigits, String.toList_ofList]
    exact (Text.writes_toDigits (by decide) _).pad (by decide) zeros

/-- The text `0X0_1_0000_0000` spells the first number that is no address, and `0x8200_1_0e0` is
an address with underscores between its digits. -/
theorem parseAddress_underscores :
    SpellsAddress (String.ofList "0X0_1_0000_0000".toList) UInt32.size ∧
      parseAddress (String.ofList "0X0_1_0000_0000".toList) = none ∧
      parseAddress (String.ofList ('0' :: 'x' :: "8200_1_0e0".toList)) = some 0x820010E0 := by
  have spells : SpellsAddress (String.ofList "0X0_1_0000_0000".toList) UInt32.size := by
    rw [spellsAddress_iff, String.toList_ofList]
    have plain : (Text.trim "0X0_1_0000_0000".toList).filter (· != '_') =
        '0' :: 'X' :: "0100000000".toList := by
      decide +kernel
    rw [plain, spells_marked (.inr rfl)]
    exact .inl ((Text.writes_iff (by decide)).mpr (by decide +kernel))
  obtain ⟨-, -, refused, written⟩ := parseAddress_exact
  refine ⟨spells, refused _ _ spells le_rfl, ?_⟩
  exact (written 0x820010E0 0 "8200_1_0e0".toList).1 (.inl (by decide +kernel)) 'x' (by decide)

end PowerLift
