import Mathlib
import PowerLift.Isa.Descriptor

/-!
The encoding table is unambiguous: no word matches two descriptors. Whether a descriptor matches is
a comparison of some bits of the word with a pattern, so two descriptors exclude each other when
their patterns differ on the bits that both look at.
-/

namespace PowerLift

/-! ## Fields as bit patterns -/

namespace Field

/-- The bits of a word that a field looks at. -/
def mask (field : Field) : Nat :=
  field.foldr (fun slice rest => ((1 <<< slice.width) - 1) <<< slice.low ||| rest) 0

/-- These bits in a word where the field has the given value. -/
def pattern (field : Field) (value : Nat) : Nat :=
  field.foldr (fun slice rest =>
    (value >>> slice.place % (1 <<< slice.width)) <<< slice.low ||| rest) 0

/-- Each slice has places of its own in the value, above those of the slices before it. -/
def Ordered (field : Field) : Prop :=
  field.Pairwise fun first second => first.place + first.width ≤ second.place

instance (field : Field) : Decidable field.Ordered :=
  inferInstanceAs (Decidable (List.Pairwise _ _))

theorem dvd_read (field : Field) (word : UInt32) (bound : Nat)
    (above : ∀ slice ∈ field, bound ≤ slice.place) :
    2 ^ bound ∣ field.read word := by
  induction field with
  | nil => exact Nat.dvd_zero _
  | cons slice rest ih =>
      have first : 2 ^ bound ∣ bits word slice.low slice.width <<< slice.place := by
        rw [Nat.shiftLeft_eq]
        exact Nat.dvd_trans (Nat.pow_dvd_pow 2 (above slice (by simp)))
          (Nat.dvd_mul_left _ _)
      exact Nat.dvd_add first (ih fun other member => above other (by simp [member]))

theorem bits_lt (word : UInt32) (low width : Nat) : bits word low width < 2 ^ width := by
  unfold bits
  rw [Nat.one_shiftLeft]
  exact Nat.mod_lt _ (Nat.two_pow_pos width)

/-- The value of a field holds the bits of each slice at the slice's place. -/
theorem read_slice {field : Field} (ordered : field.Ordered) (word : UInt32) {slice : Slice}
    (member : slice ∈ field) :
    field.read word >>> slice.place % (1 <<< slice.width) = bits word slice.low slice.width := by
  induction field with
  | nil => cases member
  | cons head rest ih =>
      obtain ⟨above, restOrdered⟩ := List.pairwise_cons.mp ordered
      obtain ⟨quotient, restValue⟩ := dvd_read rest word (head.place + head.width) above
      have headBound := bits_lt word head.low head.width
      have value : read (head :: rest) word =
          bits word head.low head.width * 2 ^ head.place + read rest word := by
        simp [read, Nat.shiftLeft_eq]
      rw [value, Nat.shiftRight_eq_div_pow, Nat.one_shiftLeft]
      rcases List.mem_cons.mp member with rfl | restMember
      · -- The rest of the value begins above the places of this slice.
        rw [restValue, Nat.pow_add, Nat.mul_assoc, Nat.mul_comm, ← Nat.mul_add,
          Nat.mul_div_cancel_left _ (Nat.two_pow_pos _), Nat.add_mul_mod_self_left,
          Nat.mod_eq_of_lt headBound]
      · have below := above slice restMember
        have dropped :
            (bits word head.low head.width * 2 ^ head.place + read rest word) /
                2 ^ slice.place =
              read rest word / 2 ^ slice.place := by
          have small : bits word head.low head.width * 2 ^ head.place <
              2 ^ (head.place + head.width) := by
            rw [Nat.pow_add, Nat.mul_comm]
            exact Nat.mul_lt_mul_of_pos_left headBound (Nat.two_pow_pos _)
          obtain ⟨gap, gapEquation⟩ := Nat.exists_eq_add_of_le below
          rw [gapEquation, Nat.pow_add 2 _ gap, ← Nat.div_div_eq_div_mul,
            ← Nat.div_div_eq_div_mul, restValue,
            Nat.add_mul_div_left _ _ (Nat.two_pow_pos _), Nat.div_eq_of_lt small,
            Nat.zero_add, Nat.mul_div_cancel_left _ (Nat.two_pow_pos _)]
        rw [dropped]
        simpa only [Nat.shiftRight_eq_div_pow, Nat.one_shiftLeft] using
          ih restOrdered restMember

theorem and_slice_mask (word : UInt32) (low width : Nat) :
    word.toNat &&& ((1 <<< width) - 1) <<< low = bits word low width <<< low := by
  apply Nat.eq_of_testBit_eq
  intro index
  simp only [bits, Nat.one_shiftLeft, Nat.testBit_and, Nat.testBit_shiftLeft,
    Nat.testBit_two_pow_sub_one, Nat.testBit_mod_two_pow, Nat.testBit_shiftRight]
  by_cases inside : low ≤ index
  · rw [Nat.add_sub_cancel' inside]
    simp [inside, Bool.and_comm]
  · simp [inside]

theorem and_mask_eq_pattern {field : Field} (ordered : field.Ordered) (word : UInt32) :
    word.toNat &&& field.mask = field.pattern (field.read word) := by
  have slices : ∀ part : Field, (∀ slice ∈ part, slice ∈ field) →
      word.toNat &&& part.mask = part.pattern (field.read word) := by
    intro part inside
    induction part with
    | nil => exact Nat.and_zero _
    | cons slice rest ih =>
        have tail := ih fun other member => inside other (by simp [member])
        simp only [mask, pattern, List.foldr_cons] at tail ⊢
        rw [Nat.and_or_distrib_left, and_slice_mask,
          read_slice ordered word (inside slice (by simp)), tail]
  exact slices field fun _ member => member

end Field

theorem Format.extended?_ordered (format : Format) (field : Field)
    (extended : format.extended? = some field) : field.Ordered := by
  cases format <;> cases extended <;> decide

/-! ## Descriptors as bit patterns -/

namespace Descriptor

/-- The bits below the primary opcode that a descriptor looks at. -/
def mask (descriptor : Descriptor) : Nat :=
  (descriptor.field?.getD []).mask

def pattern (descriptor : Descriptor) : Nat :=
  (descriptor.field?.getD []).pattern (descriptor.extended.getD 0)

/-- Two descriptors ask for different bits where both look. -/
def Excludes (first second : Descriptor) : Prop :=
  first.pattern &&& second.mask ≠ second.pattern &&& first.mask

instance (first second : Descriptor) : Decidable (first.Excludes second) :=
  inferInstanceAs (Decidable (_ ≠ _))

theorem Matches.primary_eq {descriptor : Descriptor} {word : UInt32}
    (matched : descriptor.Matches word) :
    descriptor.primary = Field.primary.read word :=
  matched.1

theorem Matches.and_mask {descriptor : Descriptor} {word : UInt32}
    (matched : descriptor.Matches word) :
    word.toNat &&& descriptor.mask = descriptor.pattern := by
  unfold mask pattern
  cases fieldEquation : descriptor.field? with
  | none => exact Nat.and_zero _
  | some field =>
      have ordered : field.Ordered := by
        unfold field? at fieldEquation
        split at fieldEquation
        · exact Format.extended?_ordered _ field fieldEquation
        · cases fieldEquation
      have value : descriptor.extended = some (field.read word) :=
        matched.2 field fieldEquation
      simp only [Option.getD_some, value]
      exact Field.and_mask_eq_pattern ordered word

theorem Excludes.not_both {first second : Descriptor} (excludes : first.Excludes second)
    {word : UInt32} (firstMatched : first.Matches word) :
    ¬ second.Matches word := by
  intro secondMatched
  apply excludes
  rw [← firstMatched.and_mask, ← secondMatched.and_mask, Nat.and_assoc, Nat.and_assoc,
    Nat.and_comm first.mask]

/-! ## The table -/

set_option maxRecDepth 4000 in
theorem table_excludes :
    ∀ primary < 64, (table.filter fun entry => entry.primary == primary).Pairwise Excludes := by
  decide +kernel

theorem primary_lt (word : UInt32) : Field.primary.read word < 64 := by
  have bound := Field.bits_lt word 26 6
  simpa [Field.primary, Field.read] using bound

/-- The descriptors that match a word, in the order of the table. -/
def matching (word : UInt32) : List Descriptor :=
  table.filter fun entry => entry.Matches word

theorem mem_matching {entry : Descriptor} {word : UInt32} :
    entry ∈ matching word ↔ entry ∈ table ∧ entry.Matches word := by
  simp [matching]

theorem matching_length (word : UInt32) : (matching word).length ≤ 1 := by
  have samePrimary : (matching word).Sublist
      (table.filter fun entry => entry.primary == Field.primary.read word) := by
    apply List.monotone_filter_right
    intro entry matched
    simpa using (of_decide_eq_true matched).primary_eq
  have excludes := (table_excludes _ (primary_lt word)).sublist samePrimary
  cases listEquation : matching word with
  | nil => simp
  | cons first rest =>
      cases rest with
      | nil => simp
      | cons second others =>
          have firstMatched : first.Matches word :=
            (mem_matching.mp (by simp [listEquation])).2
          have secondMatched : second.Matches word :=
            (mem_matching.mp (by simp [listEquation])).2
          rw [listEquation] at excludes
          have pair := (List.pairwise_cons.mp excludes).1 second (by simp)
          exact absurd secondMatched (pair.not_both firstMatched)

theorem Matches.unique {first second : Descriptor} {word : UInt32}
    (firstMember : first ∈ table) (secondMember : second ∈ table)
    (firstMatched : first.Matches word) (secondMatched : second.Matches word) :
    first = second := by
  have firstIn := mem_matching.mpr ⟨firstMember, firstMatched⟩
  have secondIn := mem_matching.mpr ⟨secondMember, secondMatched⟩
  obtain ⟨only, single⟩ | empty := Nat.le_one_iff_eq_zero_or_eq_one.mp (matching_length word)
    |>.symm.imp List.length_eq_one_iff.mp List.length_eq_zero_iff.mp
  · rw [single, List.mem_singleton] at firstIn secondIn
    rw [firstIn, secondIn]
  · simp [empty] at firstIn

/-! ## The search -/

set_option maxRecDepth 4000 in
theorem table_probed :
    ∀ entry ∈ table, entry.extended.isSome →
      ∃ field ∈ probeOrder entry.primary, entry.field? = some field := by
  decide +kernel

theorem field?_eq_none {entry : Descriptor} (plain : entry.extended = none) :
    entry.field? = none := by
  simp [field?, plain]

theorem lookupWith_sound (order : Nat → List Field) (word : UInt32) :
    lookupWith order word = unknown ∨
      lookupWith order word ∈ table ∧ (lookupWith order word).Matches word := by
  dsimp only [lookupWith]
  split
  next entry found =>
    have properties := List.find?_some found
    simp only [Bool.and_eq_true, beq_iff_eq, Option.isNone_iff_eq_none] at properties
    refine Or.inr ⟨List.mem_of_find?_eq_some found, properties.1, ?_⟩
    intro field member
    rw [field?_eq_none properties.2] at member
    cases member
  next =>
    cases searched : List.findSome? _ (order (Field.primary.read word)) with
    | none => exact Or.inl rfl
    | some entry =>
        obtain ⟨field, _, found⟩ := List.exists_of_findSome?_eq_some searched
        have properties := List.find?_some found
        simp only [Bool.and_eq_true, beq_iff_eq] at properties
        simp only [Option.getD_some]
        refine Or.inr ⟨List.mem_of_find?_eq_some found, properties.1.1, ?_⟩
        intro other member
        rw [properties.2] at member
        cases member
        exact properties.1.2

theorem lookupWith_complete {order : Nat → List Field} {word : UInt32} {entry : Descriptor}
    (member : entry ∈ table) (matched : entry.Matches word)
    (tried : ∀ field ∈ probeOrder entry.primary, field ∈ order entry.primary) :
    lookupWith order word ∈ table := by
  dsimp only [lookupWith]
  split
  next found => exact List.mem_of_find?_eq_some found
  next missing =>
    have extended : entry.extended.isSome := by
      have notPlain := List.find?_eq_none.mp missing entry member
      simpa [matched.primary_eq, Option.isSome_iff_ne_none] using notPlain
    obtain ⟨field, probed, fieldEquation⟩ := table_probed entry member extended
    have value := matched.2 field fieldEquation
    cases searched : List.findSome? _ (order (Field.primary.read word)) with
    | none =>
        have notHere := List.findSome?_eq_none_iff.mp searched field
          (matched.primary_eq ▸ tried field probed)
        have notEntry := List.find?_eq_none.mp notHere entry member
        simp [matched.primary_eq, value, fieldEquation] at notEntry
    | some result =>
        obtain ⟨_, _, found⟩ := List.exists_of_findSome?_eq_some searched
        exact List.mem_of_find?_eq_some found

theorem unknown_not_mem : unknown ∉ table := by
  decide +kernel

/-- The search gives the descriptor that matches, whatever order the fields are tried in. -/
theorem lookupWith_eq {order : Nat → List Field} {word : UInt32} {entry : Descriptor}
    (member : entry ∈ table) (matched : entry.Matches word)
    (tried : ∀ field ∈ probeOrder entry.primary, field ∈ order entry.primary) :
    lookupWith order word = entry := by
  have found := lookupWith_complete member matched tried
  rcases lookupWith_sound order word with missed | ⟨_, foundMatches⟩
  · rw [missed] at found
    exact absurd found unknown_not_mem
  · exact Matches.unique found member foundMatches matched

theorem lookupWith_eq_unknown {order : Nat → List Field} {word : UInt32}
    (unmatched : ∀ entry ∈ table, ¬ entry.Matches word) :
    lookupWith order word = unknown := by
  rcases lookupWith_sound order word with missed | ⟨found, foundMatches⟩
  · exact missed
  · exact absurd foundMatches (unmatched _ found)

/-- A word that encodes an operation, with all operands zero. -/
def encoding (entry : Descriptor) : UInt32 :=
  UInt32.ofNat (Field.primary.write entry.primary +
    (entry.field?.getD []).write (entry.extended.getD 0))

set_option maxRecDepth 4000 in
theorem encoding_matches : ∀ entry ∈ table, entry.Matches entry.encoding := by
  decide +kernel

/-- The search is exact: no word matches two descriptors, the search gives the one that a word
matches or else `unknown`, it does so for every order of the probed fields, and it reaches every
descriptor of the table. -/
theorem lookup_exact :
    (∀ word,
      (matching word).length ≤ 1 ∧
      (∀ entry ∈ table, entry.Matches word → lookup word = entry) ∧
      (lookup word = unknown ↔ ∀ entry ∈ table, ¬ entry.Matches word) ∧
      ∀ order : Nat → List Field,
        (∀ primary, (order primary).Perm (probeOrder primary)) →
          lookupWith order word = lookup word) ∧
    ∀ entry ∈ table, ∃ word, entry.Matches word ∧ lookup word = entry := by
  have found : ∀ word, ∀ entry ∈ table, entry.Matches word → lookup word = entry :=
    fun word entry member matched => lookupWith_eq member matched fun _ probed => probed
  refine ⟨fun word => ⟨matching_length word, found word, ?_, ?_⟩, ?_⟩
  · constructor
    · intro missed entry member matched
      rw [found word entry member matched] at missed
      exact unknown_not_mem (missed ▸ member)
    · exact lookupWith_eq_unknown
  · intro order permuted
    by_cases someMatch : ∃ entry ∈ table, entry.Matches word
    · obtain ⟨entry, member, matched⟩ := someMatch
      rw [found word entry member matched]
      exact lookupWith_eq member matched fun field probed =>
        (permuted entry.primary).mem_iff.mpr probed
    · have unmatched : ∀ entry ∈ table, ¬ entry.Matches word :=
        fun entry member matched => someMatch ⟨entry, member, matched⟩
      rw [lookupWith_eq_unknown unmatched]
      exact (lookupWith_eq_unknown unmatched).symm
  · intro entry member
    exact ⟨entry.encoding, encoding_matches entry member,
      found _ entry member (encoding_matches entry member)⟩

end Descriptor

end PowerLift
