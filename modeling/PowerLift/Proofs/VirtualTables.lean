import Mathlib
import PowerLift.Image.VTable
import PowerLift.Proofs.StoredBytes

/-!
The search for virtual tables finds exactly those that a section holds: one for every object
locator that a pointer in the section leads to, behind the first such pointer that a slot follows,
with all slots up to the first word that is none.
-/

namespace PowerLift

theorem Text.ofUtf8?_eq_some {bytes : List UInt8} {text : String} :
    ofUtf8? bytes = some text ↔ text.toUTF8.data.toList = bytes := by
  unfold ofUtf8? String.fromUTF8?
  split
  next valid =>
    constructor
    · intro same
      obtain rfl := Option.some.inj same
      rfl
    · rintro rfl
      rfl
  next invalid =>
    refine iff_of_false (by simp) ?_
    rintro rfl
    exact invalid text.isValidUTF8

namespace VTable

/-! ## Names -/

/-- The bytes up to the first `@@`, or all of them if there is none. -/
structure UpToAts (bytes body : List UInt8) : Prop where
  noAts : ¬ [0x40, 0x40] <:+: body
  /-- A body that ends in `@` before `@@` would be cut one byte earlier. -/
  cut : bytes = body ∨
    ∃ rest, bytes = body ++ 0x40 :: 0x40 :: rest ∧ body.getLast? ≠ some 0x40

theorem beforeAts_cons {byte : UInt8} {rest : List UInt8}
    (other : byte = 0x40 → rest.head? ≠ some 0x40) :
    beforeAts (byte :: rest) = byte :: beforeAts rest := by
  rw [beforeAts]
  rintro tail rfl rfl
  exact other rfl rfl

theorem pair_infix_cons {first second byte : UInt8} {rest : List UInt8} :
    [first, second] <:+: byte :: rest ↔
      (first = byte ∧ rest.head? = some second) ∨ [first, second] <:+: rest := by
  have one : [second] <+: rest ↔ rest.head? = some second := by
    cases rest with
    | nil => simp
    | cons head tail => simp [eq_comm (a := second)]
  rw [List.infix_cons_iff, List.cons_prefix_cons, one]

/-- Both lists go on by the same byte, unless a pair begins with it. -/
theorem upToAts_cons {byte : UInt8} {rest body : List UInt8}
    (other : byte = 0x40 → rest.head? ≠ some 0x40) :
    UpToAts (byte :: rest) (byte :: body) ↔ UpToAts rest body := by
  constructor
  · rintro ⟨noAts, cut⟩
    refine ⟨fun inner => noAts (pair_infix_cons.mpr (Or.inr inner)), ?_⟩
    rcases cut with same | ⟨tail, same, last⟩
    · exact Or.inl (List.cons.inj same).2
    · refine Or.inr ⟨tail, (List.cons.inj same).2, ?_⟩
      cases body with
      | nil => simp
      | cons => simpa using last
  · rintro ⟨noAts, cut⟩
    have begins : body.head? = some 0x40 → rest.head? = some 0x40 := by
      intro head
      obtain ⟨tail, rfl⟩ := List.head?_eq_some_iff.mp head
      rcases cut with rfl | ⟨_, rfl, _⟩ <;> rfl
    refine ⟨?_, ?_⟩
    · intro inner
      rcases pair_infix_cons.mp inner with ⟨rfl, head⟩ | later
      · exact other rfl (begins head)
      · exact noAts later
    · rcases cut with rfl | ⟨tail, rfl, last⟩
      · exact Or.inl rfl
      · refine Or.inr ⟨tail, rfl, ?_⟩
        cases body with
        | nil =>
            intro only
            exact other (by simpa using only) rfl
        | cons => simpa using last

theorem upToAts_pair {tail body : List UInt8} :
    UpToAts (0x40 :: 0x40 :: tail) body ↔ body = [] := by
  constructor
  · rintro ⟨noAts, cut⟩
    match body with
    | [] => rfl
    | [byte] =>
        rcases cut with same | ⟨rest, same, last⟩
        · simp at same
        · obtain ⟨rfl, _⟩ := List.cons.inj same
          simp at last
    | first :: second :: rest =>
        have ats : 0x40 = first ∧ 0x40 = second := by
          rcases cut with same | ⟨_, same, _⟩
          · exact ⟨(List.cons.inj same).1, (List.cons.inj (List.cons.inj same).2).1⟩
          · exact ⟨(List.cons.inj same).1, (List.cons.inj (List.cons.inj same).2).1⟩
        exact absurd (pair_infix_cons.mpr (Or.inl ⟨ats.1, by simp [← ats.2]⟩)) noAts
  · rintro rfl
    exact ⟨by simp, Or.inr ⟨tail, rfl, by simp⟩⟩

theorem upToAts_iff {bytes body : List UInt8} : UpToAts bytes body ↔ body = beforeAts bytes := by
  induction bytes generalizing body with
  | nil =>
      constructor
      · rintro ⟨_, same | ⟨_, same, _⟩⟩
        · exact same.symm
        · simp at same
      · rintro rfl
        exact ⟨by simp [beforeAts], Or.inl rfl⟩
  | cons byte rest ih =>
      by_cases ats : byte = 0x40 ∧ rest.head? = some 0x40
      · obtain ⟨rfl, second⟩ := ats
        obtain ⟨tail, rfl⟩ := List.head?_eq_some_iff.mp second
        exact upToAts_pair
      · have other : byte = 0x40 → rest.head? ≠ some 0x40 := by simpa using ats
        rw [beforeAts_cons other]
        constructor
        · intro upTo
          obtain ⟨first, tail, rfl⟩ : ∃ first tail, body = first :: tail := by
            refine List.exists_cons_of_ne_nil ?_
            rintro rfl
            rcases upTo.cut with same | ⟨_, same, _⟩ <;> simp_all
          have same : first = byte := by
            rcases upTo.cut with same | ⟨_, same, _⟩ <;> simp_all
          subst same
          rw [ih.mp ((upToAts_cons other).mp upTo)]
        · rintro rfl
          exact (upToAts_cons other).mpr (ih.mpr rfl)

/-- What the stored bytes of a name spell. They count up to a zero byte and up to the longest
length, and the mark at their beginning and all that follows the first `@@` is left out. -/
structure Spells (bytes : List UInt8) (name : String) : Prop where
  nonempty : name ≠ ""
  text : ∃ mark ∈ [classMark, structMark], ∃ body,
    (bytes.take 512).takeWhile (· != 0) = mark ++ body ∧ UpToAts body name.toUTF8.data.toList

theorem demangle?_eq_some {mangled : List UInt8} {name : String} :
    demangle? mangled = some name ↔ name ≠ "" ∧ ∃ mark ∈ [classMark, structMark], ∃ body,
      mangled = mark ++ body ∧ UpToAts body name.toUTF8.data.toList := by
  have marked : (classMark.isPrefixOf mangled || structMark.isPrefixOf mangled) = true ↔
      ∃ mark ∈ [classMark, structMark], mark <+: mangled := by
    simp only [Bool.or_eq_true, List.isPrefixOf_iff_prefix, List.exists_mem_cons_iff,
      List.not_mem_nil, false_and, exists_false, or_false]
  have long : ∀ mark ∈ [classMark, structMark], mark.length = 4 := by decide
  unfold demangle?
  constructor
  · intro found
    split at found
    next begins =>
      obtain ⟨mark, member, body, rfl⟩ := marked.mp begins
      rw [← long mark member, List.drop_left] at found
      obtain ⟨text, spelled, same⟩ := Option.bind_eq_some_iff.mp found
      split at same
      · cases same
      next nonempty =>
        cases same
        refine ⟨by simpa using nonempty, mark, member, body, rfl, ?_⟩
        exact upToAts_iff.mpr (Text.ofUtf8?_eq_some.mp spelled)
    · cases found
  · rintro ⟨nonempty, mark, member, body, rfl, upTo⟩
    rw [if_pos (marked.mpr ⟨mark, member, List.prefix_append mark body⟩), ← long mark member,
      List.drop_left, Text.ofUtf8?_eq_some.mpr (upToAts_iff.mp upTo)]
    simp [nonempty]

/-- The name of the type that a descriptor is about: eight bytes behind its beginning, in the first
section that has this address. -/
structure Describes (image : Image) (descriptor : UInt32) (name : String) : Prop where
  room : descriptor.toNat + 8 < 4294967296
  spells : ∃ sect, image.sectionAt? (descriptor + 8) = some sect ∧
    Spells (sect.data.toList.drop (descriptor.toNat + 8 - sect.address.toNat)) name

theorem typeName?_eq_some {image : Image} {descriptor : UInt32} {name : String} :
    typeName? image descriptor = some name ↔ Describes image descriptor name := by
  have cut (sect : Section) (offset : Nat) :
      (sect.data.extract offset (offset + maxNameLength)).toList =
        (sect.data.toList.drop offset).take 512 := by
    rw [Array.toList_extract, List.extract_eq_take_drop, Nat.add_sub_cancel_left]
    rfl
  have place {sect : Section} (room : descriptor.toNat + 8 < 4294967296)
      (found : image.sectionAt? (descriptor + 8) = some sect) :
      sect.offset (descriptor + 8) = descriptor.toNat + 8 - sect.address.toNat := by
    rw [Section.offset_eq (by simpa using List.find?_some found), UInt32.toNat_add]
    congr 1
    exact Nat.mod_eq_of_lt room
  simp only [typeName?, checkedAdd, Option.bind_eq_bind, Option.bind_eq_some_iff, cut,
    demangle?_eq_some]
  constructor
  · rintro ⟨address, added, sect, found, nonempty, text⟩
    split at added
    next room =>
      obtain rfl := Option.some.inj added
      refine ⟨room, sect, found, nonempty, ?_⟩
      rwa [← place room found]
    · cases added
  · rintro ⟨room, sect, found, nonempty, text⟩
    refine ⟨descriptor + 8, if_pos room, sect, found, nonempty, ?_⟩
    rwa [place room found]

/-! ## Locators -/

/-- An object locator in a section: five words, of which the first is zero and the fourth points to
the descriptor of a type. -/
structure IsLocator (image : Image) (sect : Section) (locator : UInt32) (name : String) :
    Prop where
  place : ∃ index, locator.toNat = sect.address.toNat + 4 * index
  room : locator.toNat + 20 ≤ sect.address.toNat + sect.size.toNat
  signature : sect.read? locator = some 0
  descriptor : ∃ descriptor, sect.read? (locator + 12) = some descriptor ∧
    Describes image descriptor name

theorem locatorName?_eq_some {image : Image} {sect : Section} {locator : UInt32}
    {name : String} :
    locatorName? image sect locator = some name ↔ sect.read? locator = some 0 ∧
      ∃ descriptor, sect.read? (locator + 12) = some descriptor ∧
        Describes image descriptor name := by
  unfold locatorName?
  split
  next zero =>
    simp only [beq_iff_eq] at zero
    simp only [zero, true_and, Option.bind_eq_bind, Option.bind_eq_some_iff, typeName?_eq_some]
  next other =>
    simp only [beq_iff_eq] at other
    simp [other]

section

variable {image : Image} {sect : Section}
  (ends : sect.address.toNat + sect.size.toNat < 4294967295)
include ends

theorem fitsLocator_iff {cursor : UInt32} :
    fitsLocator sect cursor ↔ cursor.toNat + 20 ≤ sect.address.toNat + sect.size.toNat := by
  have size : locatorSize.toNat = 20 := rfl
  have stop : sect.stop.toNat = sect.address.toNat + sect.size.toNat :=
    Section.toNat_stop (by omega)
  simp only [fitsLocator, decide_eq_true_eq, UInt32.le_iff_toNat_le, toNat_saturatingAdd, size,
    stop]
  omega

theorem mem_locatorsFrom {fuel : Nat} {cursor locator : UInt32} {name : String} :
    (locator, name) ∈ locatorsFrom image sect fuel cursor ↔
      (cursor.toNat ≤ locator.toNat ∧ (locator.toNat - cursor.toNat) % 4 = 0 ∧
        locator.toNat < cursor.toNat + 4 * fuel ∧
        locator.toNat + 20 ≤ sect.address.toNat + sect.size.toNat) ∧
      locatorName? image sect locator = some name := by
  induction fuel generalizing cursor with
  | zero =>
      refine iff_of_false (by simp [locatorsFrom]) ?_
      omega
  | succ fuel ih =>
      rw [locatorsFrom]
      split
      next fits =>
        have room := (fitsLocator_iff ends).mp fits
        have next : (cursor + 4).toNat = cursor.toNat + 4 :=
          toNat_add_four (by change _ < 4294967296; omega)
        by_cases here : locator = cursor
        · subst here
          cases named : locatorName? image sect locator with
          | none => simp [ih, next]
          | some found =>
              have later : (locator, name) ∉ locatorsFrom image sect fuel (locator + 4) := by
                rw [ih]
                omega
              simp [later, eq_comm, room]
        · have apart : locator.toNat ≠ cursor.toNat := fun same =>
            here (UInt32.toNat_inj.mp same)
          have rest : (locator, name) ∈ locatorsFrom image sect fuel (cursor + 4) ↔ _ := ih
          cases named : locatorName? image sect cursor with
          | none =>
              simp only [rest, next]
              refine and_congr_left fun _ => ?_
              omega
          | some found =>
              simp only [List.mem_cons, Prod.mk.injEq, here, false_and, false_or, rest, next]
              refine and_congr_left fun _ => ?_
              omega
      next tight =>
        have short : ¬ cursor.toNat + 20 ≤ sect.address.toNat + sect.size.toNat :=
          fun fits => tight ((fitsLocator_iff ends).mpr fits)
        refine iff_of_false (by simp) ?_
        omega

theorem locatorsFrom_sorted (fuel : Nat) (cursor : UInt32) :
    (locatorsFrom image sect fuel cursor).Pairwise fun first second => first.1 < second.1 := by
  induction fuel generalizing cursor with
  | zero => exact .nil
  | succ fuel ih =>
      rw [locatorsFrom]
      split
      next fits =>
        have room := (fitsLocator_iff ends).mp fits
        have next : (cursor + 4).toNat = cursor.toNat + 4 :=
          toNat_add_four (by change _ < 4294967296; omega)
        cases locatorName? image sect cursor with
        | none => exact ih (cursor + 4)
        | some name =>
            refine List.pairwise_cons.mpr ⟨?_, ih (cursor + 4)⟩
            intro other member
            have bounds := ((mem_locatorsFrom ends).mp member).1
            change cursor < other.1
            exact UInt32.lt_iff_toNat_lt.mpr (by omega)
      next => exact .nil

theorem mem_locators {locator : UInt32} {name : String} :
    (locator, name) ∈ locators image sect ↔ IsLocator image sect locator name := by
  rw [locators, mem_locatorsFrom ends, locatorName?_eq_some]
  constructor
  · rintro ⟨bounds, signature, descriptor⟩
    refine ⟨⟨(locator.toNat - sect.address.toNat) / 4, by omega⟩, by omega, signature, descriptor⟩
  · rintro ⟨⟨index, place⟩, room, signature, descriptor⟩
    -- The signature is stored, which bounds the place of the locator.
    obtain ⟨inside, stored⟩ := Section.read?_eq_some.mp signature
    have offset := Section.offset_eq inside
    have within := Section.wordAt?_lt stored
    exact ⟨by omega, signature, descriptor⟩

end

/-! ## Slots -/

/-- A slot in a section: a word that points to aligned code. -/
structure SlotAt (image : Image) (sect : Section) (address value : UInt32) : Prop where
  read : sect.read? address = some value
  nonzero : value ≠ 0
  whole : value.toNat % 4 = 0
  code : image.isExecutable value

theorem slotAt_iff {image : Image} {sect : Section} {address value : UInt32} :
    SlotAt image sect address value ↔ sect.read? address = some value ∧ isSlot image value := by
  simp only [isSlot, Bool.and_eq_true, bne_iff_ne, aligned_iff]
  exact ⟨fun slot => ⟨slot.read, ⟨slot.nonzero, slot.whole⟩, slot.code⟩,
    fun holds => ⟨holds.1, holds.2.1.1, holds.2.1.2, holds.2.2⟩⟩

/-- A whole run of slots: nothing is left out, and no slot follows. -/
structure SlotRun (image : Image) (sect : Section) (start : UInt32) (slots : List UInt32) :
    Prop where
  each : ∀ index value, slots[index]? = some value →
    ∃ address : UInt32, address.toNat = start.toNat + 4 * index ∧
      SlotAt image sect address value
  stops : ∀ address value : UInt32, address.toNat = start.toNat + 4 * slots.length →
    ¬ SlotAt image sect address value

variable {image : Image} {sect : Section}

theorem slotRun_nil {start : UInt32} :
    SlotRun image sect start [] ↔ ∀ value, ¬ SlotAt image sect start value := by
  constructor
  · intro run value
    exact run.stops start value rfl
  · intro none
    refine ⟨by simp, fun address value same => ?_⟩
    obtain rfl : address = start := UInt32.toNat_inj.mp same
    exact none value

theorem slotRun_cons {start next value : UInt32} {rest : List UInt32}
    (here : SlotAt image sect start value) (step : next.toNat = start.toNat + 4) :
    SlotRun image sect start (value :: rest) ↔ SlotRun image sect next rest := by
  constructor
  · intro run
    refine ⟨?_, ?_⟩
    · intro index value found
      obtain ⟨address, same, slot⟩ := run.each (index + 1) value (by simpa using found)
      exact ⟨address, by omega, slot⟩
    · intro address value same
      exact run.stops address value (by rw [List.length_cons]; omega)
  · intro run
    refine ⟨?_, ?_⟩
    · intro index value found
      cases index with
      | zero =>
          obtain rfl := Option.some.inj found
          exact ⟨start, rfl, here⟩
      | succ index =>
          obtain ⟨address, same, slot⟩ := run.each index value (by simpa using found)
          exact ⟨address, by omega, slot⟩
    · intro address value same
      rw [List.length_cons] at same
      exact run.stops address value (by omega)

theorem slotRun_of_none {start : UInt32} {slots : List UInt32}
    (none : ∀ value, ¬ SlotAt image sect start value) :
    SlotRun image sect start slots ↔ slots = [] := by
  cases slots with
  | nil => simpa using slotRun_nil.mpr none
  | cons first rest =>
      refine iff_of_false (fun run => ?_) (by simp)
      obtain ⟨address, same, slot⟩ := run.each 0 first rfl
      obtain rfl : address = start := UInt32.toNat_inj.mp same
      exact none first slot

theorem slotRun_of_slot {start value : UInt32} {slots : List UInt32}
    (here : SlotAt image sect start value) :
    SlotRun image sect start slots ↔ ∃ rest, slots = value :: rest ∧
      SlotRun image sect start (value :: rest) := by
  cases slots with
  | nil =>
      refine iff_of_false (fun run => ?_) (by simp)
      exact run.stops start value rfl here
  | cons first rest =>
      constructor
      · intro run
        obtain ⟨address, same, slot⟩ := run.each 0 first rfl
        obtain rfl : address = start := UInt32.toNat_inj.mp same
        obtain rfl := Option.some.inj (slot.read.symm.trans here.read)
        exact ⟨rest, rfl, run⟩
      · rintro ⟨rest, same, run⟩
        rwa [same]

/-- After the last address there is no slot. -/
theorem slotRun_last {start value : UInt32} {rest : List UInt32}
    (here : SlotAt image sect start value) (last : 4294967296 ≤ start.toNat + 4) :
    SlotRun image sect start (value :: rest) ↔ rest = [] := by
  constructor
  · intro run
    cases rest with
    | nil => rfl
    | cons second rest =>
        obtain ⟨address, same, _⟩ := run.each 1 second rfl
        have := address.toNat_lt
        omega
  · rintro rfl
    refine ⟨?_, ?_⟩
    · intro index found member
      obtain ⟨rfl, rfl⟩ : index = 0 ∧ value = found := by
        cases index <;> simp_all
      exact ⟨start, rfl, here⟩
    · intro address value same
      have := address.toNat_lt
      simp only [List.length_singleton] at same
      omega

/-- The fuel is enough when it counts the words that are stored from the address on. -/
theorem slotRun_iff {fuel : Nat} {start : UInt32} {slots : List UInt32}
    (enough : sect.contains start → sect.data.size ≤ sect.offset start + 3 + 4 * fuel) :
    SlotRun image sect start slots ↔ slots = slotsFrom image sect fuel start := by
  induction fuel generalizing start slots with
  | zero =>
      refine slotRun_of_none fun value slot => ?_
      obtain ⟨inside, stored⟩ := Section.read?_eq_some.mp slot.read
      have := Section.wordAt?_lt stored
      have := enough inside
      omega
  | succ fuel ih =>
      rw [slotsFrom]
      split
      next value read =>
        split
        next points =>
          have here : SlotAt image sect start value := slotAt_iff.mpr ⟨read, points⟩
          have inside := (Section.read?_eq_some.mp read).1
          rw [slotRun_of_slot here]
          split
          next next step =>
            unfold checkedAdd at step
            split at step
            next room =>
              obtain rfl := Option.some.inj step
              have place : (start + 4).toNat = start.toNat + 4 := toNat_add_four room
              have further : sect.contains (start + 4) →
                  sect.data.size ≤ sect.offset (start + 4) + 3 + 4 * fuel := by
                intro nextInside
                have offset := Section.offset_eq inside
                have nextOffset := Section.offset_eq nextInside
                have bounds := (Section.contains_iff (Section.ends_of_contains inside)).mp inside
                have := enough inside
                omega
              simp only [slotRun_cons here place, ih further, exists_eq_right]
            · cases step
          next step =>
            unfold checkedAdd at step
            split at step
            · cases step
            next tight =>
              have last : 4294967296 ≤ start.toNat + 4 := Nat.not_lt.mp tight
              simp only [slotRun_last here last, exists_eq_right]
        next other =>
          refine slotRun_of_none fun found slot => ?_
          obtain rfl := Option.some.inj (read.symm.trans slot.read)
          exact other (slotAt_iff.mp slot).2
      next read =>
        refine slotRun_of_none fun value slot => ?_
        rw [slot.read] at read
        cases read

/-! ## Pointers to locators -/

/-- The stored word of an index points to the locator, and a slot follows it. -/
def PointsTo (image : Image) (sect : Section) (locator : UInt32) (index : Nat) : Prop :=
  wordAt? sect.data (4 * index) = some locator ∧
    ∃ value, SlotAt image sect (sect.address + UInt32.ofNat (4 * index) + 4) value

theorem isSlot_getD {address : UInt32} :
    ((sect.read? address).map (isSlot image)).getD false ↔ ∃ value,
      SlotAt image sect address value := by
  simp only [slotAt_iff]
  cases sect.read? address <;> simp

/-- Whether the stored word of an index points to the locator and a slot follows it. -/
def pointsTo (image : Image) (sect : Section) (locator : UInt32) (index : Nat) : Bool :=
  wordAt? sect.data (4 * index) == some locator &&
    ((sect.read? (sect.address + UInt32.ofNat (4 * index) + 4)).map (isSlot image)).getD false

theorem pointsTo_iff {locator : UInt32} {index : Nat} :
    pointsTo image sect locator index ↔ PointsTo image sect locator index := by
  simp only [pointsTo, Bool.and_eq_true, beq_iff_eq, isSlot_getD, PointsTo]

theorem start?_eq (image : Image) (sect : Section) (locator : UInt32) :
    start? image sect locator =
      ((List.range (sect.data.size / 4)).find? (pointsTo image sect locator)).map fun index =>
        sect.address + UInt32.ofNat (4 * index) + 4 := by
  have same : (fun index => Option.any
      (fun stored : UInt32 × UInt32 => decide ((stored.2 == locator) = true ∧
        ((fun start => ((sect.read? start).map (isSlot image)).getD false) ∘
          fun stored : UInt32 × UInt32 => stored.1 + 4) stored = true))
      ((wordAt? sect.data (4 * index)).map fun word =>
        (sect.address + UInt32.ofNat (4 * index), word))) = pointsTo image sect locator := by
    funext index
    unfold pointsTo
    apply Bool.eq_iff_iff.mpr
    cases wordAt? sect.data (4 * index) <;> simp
  rw [start?, Section.words, List.find?_map, List.find?_filter, List.find?_filterMap, same]
  cases found : (List.range (sect.data.size / 4)).find? (pointsTo image sect locator) with
  | none => rfl
  | some index =>
      have stored := (pointsTo_iff.mp (List.find?_some found)).1
      rw [Option.bind_some, stored]
      rfl

/-- The first of the pointers is the one with the least index. -/
theorem start?_eq_some {locator start : UInt32} :
    start? image sect locator = some start ↔ ∃ index, PointsTo image sect locator index ∧
      (∀ earlier < index, ¬ PointsTo image sect locator earlier) ∧
      start = sect.address + UInt32.ofNat (4 * index) + 4 := by
  simp only [start?_eq, Option.map_eq_some_iff, List.find?_range_eq_some, pointsTo_iff,
    List.mem_range, Bool.not_eq_true', ← Bool.not_eq_true]
  constructor
  · rintro ⟨index, ⟨points, _, first⟩, rfl⟩
    exact ⟨index, points, first, rfl⟩
  · rintro ⟨index, points, first, rfl⟩
    have stored := Section.wordAt?_lt points.1
    exact ⟨index, ⟨points, by omega, first⟩, rfl⟩

/-! ## Tables -/

/-- A virtual table that a section holds. -/
structure Holds (image : Image) (sect : Section) (table : VTable) : Prop where
  locator : IsLocator image sect table.locator table.className
  /-- It begins behind the first pointer to the locator that a slot follows. -/
  start : ∃ index, PointsTo image sect table.locator index ∧
    (∀ earlier < index, ¬ PointsTo image sect table.locator earlier) ∧
    table.address = sect.address + UInt32.ofNat (4 * index) + 4
  nonempty : table.slots ≠ []
  slots : SlotRun image sect table.address table.slots

theorem slotsAt_eq_iff {start : UInt32} {slots : List UInt32} :
    SlotRun image sect start slots ↔ slots = slotsAt image sect start :=
  slotRun_iff fun _ => by omega

theorem slotsAt_ne_nil {start value : UInt32} (slot : SlotAt image sect start value) :
    slotsAt image sect start ≠ [] := by
  intro empty
  have run : SlotRun image sect start [] := slotsAt_eq_iff.mpr empty.symm
  exact slotRun_nil.mp run value slot

theorem ofLocator?_eq_some {locator : UInt32} {name : String} {table : VTable} :
    ofLocator? image sect (locator, name) = some table ↔
      (locator = table.locator ∧ name = table.className) ∧
      start? image sect locator = some table.address ∧
      table.slots ≠ [] ∧ table.slots = slotsAt image sect table.address := by
  unfold ofLocator?
  simp only [Option.bind_eq_bind, Option.bind_eq_some_iff]
  constructor
  · rintro ⟨address, start, found⟩
    split at found
    · cases found
    next some =>
      obtain rfl := Option.some.inj found
      exact ⟨⟨rfl, rfl⟩, start, by simpa using some, rfl⟩
  · rintro ⟨⟨rfl, rfl⟩, start, some, slots⟩
    refine ⟨table.address, start, ?_⟩
    rw [← slots, if_neg (by simpa using some)]

theorem mem_scan (ends : sect.address.toNat + sect.size.toNat < 4294967295) {table : VTable} :
    table ∈ scan image sect ↔ Holds image sect table := by
  rw [scan, List.mem_filterMap]
  constructor
  · rintro ⟨⟨locator, name⟩, member, found⟩
    obtain ⟨⟨rfl, rfl⟩, start, some, slots⟩ := ofLocator?_eq_some.mp found
    exact ⟨(mem_locators ends).mp member, start?_eq_some.mp start, some,
      slotsAt_eq_iff.mpr slots⟩
  · rintro ⟨locator, start, some, slots⟩
    exact ⟨(table.locator, table.className), (mem_locators ends).mpr locator,
      ofLocator?_eq_some.mpr
        ⟨⟨rfl, rfl⟩, start?_eq_some.mpr start, some, slotsAt_eq_iff.mp slots⟩⟩

theorem scan_sorted (ends : sect.address.toNat + sect.size.toNat < 4294967295) :
    (scan image sect).Pairwise fun first second => first.locator < second.locator := by
  rw [scan, List.pairwise_filterMap]
  refine (locatorsFrom_sorted ends _ _).imp ?_
  rintro ⟨first, firstName⟩ ⟨second, secondName⟩ before firstTable firstFound secondTable
    secondFound
  obtain ⟨⟨rfl, _⟩, _⟩ := ofLocator?_eq_some.mp firstFound
  obtain ⟨⟨rfl, _⟩, _⟩ := ofLocator?_eq_some.mp secondFound
  exact before

/-- Every locator that is pointed to has a table. -/
theorem exists_holds {locator : UInt32} {name : String}
    (known : IsLocator image sect locator name)
    (pointed : ∃ index, PointsTo image sect locator index) :
    ∃ table, Holds image sect table ∧ table.locator = locator := by
  classical
  have first := Nat.find_spec pointed
  obtain ⟨value, slot⟩ := first.2
  refine ⟨⟨sect.address + UInt32.ofNat (4 * Nat.find pointed) + 4, locator, name,
    slotsAt image sect (sect.address + UInt32.ofNat (4 * Nat.find pointed) + 4)⟩,
    ⟨known, ?_, slotsAt_ne_nil slot, slotsAt_eq_iff.mpr rfl⟩, rfl⟩
  exact ⟨Nat.find pointed, first, fun earlier before => Nat.find_min pointed before, rfl⟩

/-- The search gives the tables that the section holds, by locator, one for every locator that is
pointed to and none for other addresses. -/
theorem scan_exact (image : Image) (sect : Section)
    (ends : sect.address.toNat + sect.size.toNat < 4294967295) :
    (scan image sect).Pairwise (fun first second => first.locator < second.locator) ∧
    (∀ table, table ∈ scan image sect ↔ Holds image sect table) ∧
    (∀ locator, (∃! table, table ∈ scan image sect ∧ table.locator = locator) ↔
      (∃ name, IsLocator image sect locator name) ∧
        ∃ index, PointsTo image sect locator index) := by
  refine ⟨scan_sorted ends, fun table => mem_scan ends, fun locator => ⟨?_, ?_⟩⟩
  · rintro ⟨table, ⟨member, rfl⟩, _⟩
    obtain ⟨known, ⟨index, points, _⟩, _⟩ := (mem_scan ends).mp member
    exact ⟨⟨_, known⟩, index, points⟩
  · rintro ⟨⟨name, known⟩, pointed⟩
    obtain ⟨table, holds, same⟩ := exists_holds known pointed
    refine ⟨table, ⟨(mem_scan ends).mpr holds, same⟩, ?_⟩
    rintro other ⟨member, otherSame⟩
    have distinct : ((scan image sect).map (·.locator)).Nodup :=
      List.pairwise_map.mpr ((scan_sorted ends).imp fun before => UInt32.ne_of_lt before)
    exact List.inj_on_of_nodup_map distinct member ((mem_scan ends).mpr holds)
      (otherSame.trans same.symm)

/-- Code with one instruction, and a section with a descriptor, its locator and two pointers to it,
of which only the second is followed by a slot. -/
def pairedPointers : Section :=
  { name := ".rdata"
    address := 0x2000
    size := 64
    data := #[0, 0, 0, 1, 0, 0, 0, 2, 0x2E, 0x3F, 0x41, 0x56, 0x46, 0x6F, 0x6F, 0x40,
      0x40, 0, 0, 0, 0, 0, 0, 0, 0, 0, 0, 0, 0, 0, 0, 0,
      0, 0, 0x20, 0, 0, 0, 0, 0, 0, 0, 0x20, 0x14, 0, 0, 0, 0,
      0, 0, 0x20, 0x14, 0, 0, 0x10, 0, 0, 0, 0x10, 2, 0, 0, 0, 0]
    executable := false }

def pairedImage : Image :=
  { container := .flat
    entry := 0x1000
    sections := [
      { name := ".text", address := 0x1000, size := 4, data := #[0x4E, 0x80, 0, 0x20],
        executable := true },
      pairedPointers] }

theorem scan_pairedPointers :
    scan pairedImage pairedPointers = [⟨0x2034, 0x2014, "Foo", [0x1000]⟩] ∧
      Holds pairedImage pairedPointers ⟨0x2034, 0x2014, "Foo", [0x1000]⟩ := by
  have found : scan pairedImage pairedPointers = [⟨0x2034, 0x2014, "Foo", [0x1000]⟩] := by
    decide +kernel
  refine ⟨found, ((scan_exact pairedImage pairedPointers (by decide)).2.1 _).mp ?_⟩
  rw [found]
  exact List.mem_singleton_self _

end VTable

end PowerLift
