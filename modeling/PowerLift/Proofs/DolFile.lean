import Mathlib
import PowerLift.Image.Dol
import PowerLift.Proofs.StoredBytes

/-!
Reading DOL files is exact: a file is refused only if it is too short or a used slot reaches past
its end, the first such slot is named, and else every used slot becomes a section with its bytes of
the file. A file put together from contents for the slots gives these contents back.
-/

namespace PowerLift

/-! ## Words in stored bytes -/

theorem wordAt?_congr {first second : Array UInt8} {offset other : Nat}
    (same : ∀ index < 4, first[offset + index]? = second[other + index]?) :
    wordAt? first offset = wordAt? second other := by
  have head := same 0 (by omega)
  simp only [Nat.add_zero] at head
  simp only [wordAt?, head, same 1 (by omega), same 2 (by omega), same 3 (by omega)]

theorem wordAt?_extract {data : Array UInt8} {start count offset : Nat}
    (within : start + count ≤ data.size) (whole : offset + 4 ≤ count) :
    wordAt? (data.extract start (start + count)) offset = wordAt? data (start + offset) := by
  refine wordAt?_congr fun index few => ?_
  rw [Array.getElem?_extract_of_lt (by omega), Nat.add_assoc, Array.getElem?_eq_getElem]

/-- The four bytes of a word, most significant byte first. -/
def bytesOfWord (word : UInt32) : List UInt8 :=
  [UInt8.ofNat (word.toNat / 16777216), UInt8.ofNat (word.toNat / 65536),
    UInt8.ofNat (word.toNat / 256), UInt8.ofNat word.toNat]

theorem wordAt?_bytesOfWord (word : UInt32) (rest : List UInt8) :
    wordAt? (bytesOfWord word ++ rest).toArray 0 = some word := by
  have limit := word.toNat_lt
  have joined : wordAt? (bytesOfWord word ++ rest).toArray 0 =
      some (wordOfBytes (UInt8.ofNat (word.toNat / 16777216)) (UInt8.ofNat (word.toNat / 65536))
        (UInt8.ofNat (word.toNat / 256)) (UInt8.ofNat word.toNat)) := rfl
  rw [joined, Option.some.injEq]
  apply UInt32.toNat_inj.mp
  simp only [wordOfBytes, UInt32.toNat_ofNat', UInt8.toNat_ofNat']
  omega

theorem wordAt?_append (first second : List UInt8) (offset : Nat) :
    wordAt? (first ++ second).toArray (first.length + offset) =
      wordAt? second.toArray offset := by
  refine wordAt?_congr fun index _ => ?_
  rw [List.getElem?_toArray, List.getElem?_toArray, List.getElem?_append_right (by omega)]
  congr 1
  omega

theorem wordAt?_words (words : List UInt32) (rest : List UInt8) {index : Nat}
    (before : index < words.length) :
    wordAt? (words.flatMap bytesOfWord ++ rest).toArray (4 * index) = words[index]? := by
  induction words generalizing index with
  | nil => cases before
  | cons word words ih =>
      rw [List.flatMap_cons, List.append_assoc]
      cases index with
      | zero => exact wordAt?_bytesOfWord word _
      | succ index =>
          have shifted := wordAt?_append (bytesOfWord word) (words.flatMap bytesOfWord ++ rest)
            (4 * index)
          rw [show 4 * (index + 1) = (bytesOfWord word).length + 4 * index by
            simp only [bytesOfWord, List.length_cons, List.length_nil]; omega, shifted,
            List.getElem?_cons_succ]
          exact ih (by simpa using before)

namespace Dol

/-! ## Slots -/

namespace Slot

/-- What the three columns of the header say about a slot. -/
structure Listed (data : Array UInt8) (slot : Slot) : Prop where
  before : slot.index < 18
  offset : wordAt? data (4 * slot.index) = some slot.offset
  address : wordAt? data (0x48 + 4 * slot.index) = some slot.address
  size : wordAt? data (0x90 + 4 * slot.index) = some slot.size

/-- A slot of the header that has contents. -/
structure Used (data : Array UInt8) (slot : Slot) : Prop where
  listed : slot.Listed data
  offset : slot.offset ≠ 0
  size : slot.size ≠ 0

def Fits (data : Array UInt8) (slot : Slot) : Prop :=
  slot.offset.toNat + slot.size.toNat ≤ data.size

instance decidableFits (data : Array UInt8) (slot : Slot) : Decidable (slot.Fits data) :=
  inferInstanceAs (Decidable (slot.offset.toNat + slot.size.toNat ≤ data.size))

/-- The section with the bytes of a slot. Its name counts text and data apart. -/
def stored (data : Array UInt8) (slot : Slot) : Section :=
  { name := if slot.index < 7 then s!".text{slot.index}" else s!".data{slot.index - 7}"
    address := slot.address
    size := slot.size
    data := data.extract slot.offset.toNat (slot.offset.toNat + slot.size.toNat)
    executable := slot.index < 7 }

theorem load_of_fits {data : Array UInt8} {slot : Slot} (fits : slot.Fits data) :
    slot.load data = .ok (slot.stored data) := by
  have text : slot.isText = decide (slot.index < 7) := rfl
  unfold Fits at fits
  rw [load, bytesAt?, if_pos fits]
  simp only [stored, name, text, decide_eq_true_eq]
  rfl

theorem load_of_beyond {data : Array UInt8} {slot : Slot} (beyond : ¬ slot.Fits data) :
    slot.load data = .error (.slotBeyondFile slot.index slot.offset slot.size) := by
  unfold Fits at beyond
  simp [load, bytesAt?, beyond]

theorem mapM_load_of_fits {data : Array UInt8} {slots : List Slot}
    (fit : ∀ slot ∈ slots, slot.Fits data) :
    slots.mapM (load data) = .ok (slots.map (stored data)) := by
  induction slots with
  | nil => rfl
  | cons slot rest ih =>
      obtain ⟨first, others⟩ := List.forall_mem_cons.mp fit
      rw [List.mapM_cons, load_of_fits first, ih others]
      rfl

/-- Loading ends at the first slot that does not fit. -/
theorem mapM_load_of_beyond {data : Array UInt8} {before after : List Slot} {slot : Slot}
    (fit : ∀ slot ∈ before, slot.Fits data) (beyond : ¬ slot.Fits data) :
    (before ++ slot :: after).mapM (load data) =
      .error (.slotBeyondFile slot.index slot.offset slot.size) := by
  induction before with
  | nil =>
      rw [List.nil_append, List.mapM_cons, load_of_beyond beyond]
      rfl
  | cons first rest ih =>
      obtain ⟨head, others⟩ := List.forall_mem_cons.mp fit
      rw [List.cons_append, List.mapM_cons, load_of_fits head, ih others]
      rfl

end Slot

/-! ## The header -/

section

variable {data : Array UInt8} (large : 0x100 ≤ data.size)
include large

theorem wordAt?_header {offset : Nat} (inside : offset + 4 ≤ 0x100) :
    wordAt? data offset = some (headerWord data offset) := by
  have stored : (wordAt? data offset).isSome := Section.wordAt?_isSome.mpr (by omega)
  obtain ⟨word, found⟩ := Option.isSome_iff_exists.mp stored
  rw [headerWord, found, Option.getD_some]

theorem slot_listed {index : Nat} (before : index < 18) : (slot data index).Listed data := by
  refine ⟨before, ?_, ?_, ?_⟩
  · exact wordAt?_header large (by simp only [slot]; omega)
  · have column : 0x48 + 4 * (slot data index).index = 4 * (slotCount + index) := by
      simp only [slot, slotCount]; omega
    rw [column]
    exact wordAt?_header large (by simp only [slotCount]; omega)
  · have column : 0x90 + 4 * (slot data index).index = 4 * (2 * slotCount + index) := by
      simp only [slot, slotCount]; omega
    rw [column]
    exact wordAt?_header large (by simp only [slotCount]; omega)

theorem Slot.Listed.eq_slot {listed : Slot} (holds : listed.Listed data) :
    listed = slot data listed.index := by
  have other := slot_listed large holds.before
  obtain ⟨index, offset, address, size⟩ := listed
  have sameOffset : some offset = some (slot data index).offset :=
    holds.offset.symm.trans other.offset
  have sameAddress : some address = some (slot data index).address :=
    holds.address.symm.trans other.address
  have sameSize : some size = some (slot data index).size := holds.size.symm.trans other.size
  rw [Option.some.inj sameOffset, Option.some.inj sameAddress, Option.some.inj sameSize]
  rfl

/-- The used slots in order. -/
def usedSlots (data : Array UInt8) : List Slot :=
  (slots data).filter Slot.isUsed

theorem mem_usedSlots {listed : Slot} : listed ∈ usedSlots data ↔ listed.Used data := by
  simp only [usedSlots, slots, List.mem_filter, List.mem_map, List.mem_range, Slot.isUsed,
    Bool.and_eq_true, bne_iff_ne]
  constructor
  · rintro ⟨⟨index, before, rfl⟩, offset, size⟩
    exact ⟨slot_listed large before, offset, size⟩
  · rintro ⟨holds, offset, size⟩
    exact ⟨⟨listed.index, holds.before, (holds.eq_slot large).symm⟩, offset, size⟩

end

theorem usedSlots_sorted (data : Array UInt8) :
    (usedSlots data).Pairwise fun first second => first.index < second.index := by
  apply List.Pairwise.filter
  rw [slots, List.pairwise_map]
  exact List.pairwise_lt_range

/-! ## Files -/

/-- The image in a file, if all its slots fit. -/
def loaded (data : Array UInt8) : Image :=
  { container := .dol (headerWord data 0xD8) (headerWord data 0xDC)
    entry := headerWord data 0xE0
    sections := (usedSlots data).map (Slot.stored data) }

theorem parse_of_fits {data : Array UInt8} (large : 0x100 ≤ data.size)
    (fit : ∀ slot ∈ usedSlots data, slot.Fits data) :
    parse data = .ok (loaded data) := by
  have loaded := Slot.mapM_load_of_fits fit
  unfold usedSlots at loaded
  rw [parse, if_neg (show ¬ data.size < dolHeaderSize from Nat.not_lt.mpr large), loaded]
  rfl

theorem parse_of_beyond {data : Array UInt8} (large : 0x100 ≤ data.size)
    {before after : List Slot} {slot : Slot}
    (split : usedSlots data = before ++ slot :: after)
    (fit : ∀ slot ∈ before, slot.Fits data) (beyond : ¬ slot.Fits data) :
    parse data = .error (.slotBeyondFile slot.index slot.offset slot.size) := by
  unfold usedSlots at split
  rw [parse, if_neg (show ¬ data.size < dolHeaderSize from Nat.not_lt.mpr large), split,
    Slot.mapM_load_of_beyond fit beyond]
  rfl

theorem parse_of_small {data : Array UInt8} (small : data.size < 0x100) :
    parse data = .error (.tooSmall data.size) := by
  rw [parse, if_pos (show data.size < dolHeaderSize from small)]

/-- A list of slots fits, or has a first one that does not. -/
theorem fit_or_first (data : Array UInt8) (slots : List Slot) :
    (∀ slot ∈ slots, slot.Fits data) ∨
      ∃ before slot after, slots = before ++ slot :: after ∧
        (∀ slot ∈ before, slot.Fits data) ∧ ¬ slot.Fits data := by
  cases found : slots.find? fun slot => !decide (slot.Fits data) with
  | none =>
      refine Or.inl fun slot member => ?_
      simpa using List.find?_eq_none.mp found slot member
  | some slot =>
      obtain ⟨beyond, before, after, split, fit⟩ := List.find?_eq_some_iff_append.mp found
      exact Or.inr ⟨before, slot, after, split, by simpa using fit, by simpa using beyond⟩

/-- The first used slot that reaches past the end of the file. -/
structure FirstBeyond (data : Array UInt8) (slot : Slot) : Prop where
  used : slot.Used data
  beyond : ¬ slot.Fits data
  first : ∀ other : Slot, other.Used data → ¬ other.Fits data → slot.index ≤ other.index

theorem firstBeyond_of_split {data : Array UInt8} (large : 0x100 ≤ data.size)
    {before after : List Slot} {slot : Slot}
    (split : usedSlots data = before ++ slot :: after)
    (fit : ∀ slot ∈ before, slot.Fits data) (beyond : ¬ slot.Fits data) :
    FirstBeyond data slot := by
  have sorted := usedSlots_sorted data
  rw [split, List.pairwise_append, List.pairwise_cons] at sorted
  refine ⟨(mem_usedSlots large).mp (by simp [split]), beyond, ?_⟩
  intro other used otherBeyond
  have member := (mem_usedSlots large).mpr used
  rw [split] at member
  rcases List.mem_append.mp member with earlier | rest
  · exact absurd (fit other earlier) otherBeyond
  · rcases List.mem_cons.mp rest with rfl | later
    · exact Nat.le_refl _
    · exact Nat.le_of_lt (sorted.2.1.1 other later)

/-- What an image says about the file that it was read from. -/
structure Loads (data : Array UInt8) (image : Image) : Prop where
  /-- The sections are the used slots, in order. -/
  sections : ∃ used : List Slot, used.Pairwise (fun first second => first.index < second.index) ∧
    (∀ slot, slot ∈ used ↔ slot.Used data) ∧ image.sections = used.map (Slot.stored data)
  container : ∃ bssAddress bssSize, image.container = .dol bssAddress bssSize ∧
    wordAt? data 0xD8 = some bssAddress ∧ wordAt? data 0xDC = some bssSize
  entry : wordAt? data 0xE0 = some image.entry
  symbols : image.symbols = []
  /-- A word in one section only is the word at the place in the file where its bytes are. -/
  reads : ∀ slot : Slot, slot.Used data → ∀ address, (slot.stored data).contains address →
    (∀ other ∈ image.sections, other.contains address → other = slot.stored data) →
    address.toNat + 4 ≤ slot.address.toNat + slot.size.toNat →
      ∃ word, wordAt? data (slot.offset.toNat + (address.toNat - slot.address.toNat)) =
        some word ∧ image.read? address = some word

theorem stored_read? {data : Array UInt8} {slot : Slot} (fits : slot.Fits data)
    {address : UInt32} (inside : (slot.stored data).contains address)
    (whole : address.toNat + 4 ≤ slot.address.toNat + slot.size.toNat) :
    ∃ word, wordAt? data (slot.offset.toNat + (address.toNat - slot.address.toNat)) =
      some word ∧ (slot.stored data).read? address = some word := by
  have ends := Section.ends_of_contains inside
  have bounds := (Section.contains_iff ends).mp inside
  have offset : (slot.stored data).offset address = address.toNat - slot.address.toNat :=
    Section.offset_eq inside
  simp only [Slot.stored] at bounds
  unfold Slot.Fits at fits
  have here : (wordAt? data
      (slot.offset.toNat + (address.toNat - slot.address.toNat))).isSome :=
    Section.wordAt?_isSome.mpr (by omega)
  obtain ⟨word, found⟩ := Option.isSome_iff_exists.mp here
  refine ⟨word, found, Section.read?_eq_some.mpr ⟨inside, ?_⟩⟩
  rw [offset, ← found]
  exact wordAt?_extract fits (by omega)

theorem loads_of_fits {data : Array UInt8} (large : 0x100 ≤ data.size)
    (fit : ∀ slot ∈ usedSlots data, slot.Fits data) :
    Loads data (loaded data) where
  sections := ⟨usedSlots data, usedSlots_sorted data, fun _ => mem_usedSlots large, rfl⟩
  container := ⟨_, _, rfl, wordAt?_header large (by omega), wordAt?_header large (by omega)⟩
  entry := wordAt?_header large (by omega)
  symbols := rfl
  reads := by
    intro slot used address inside only whole
    have member := (mem_usedSlots large).mpr used
    obtain ⟨word, found, read⟩ := stored_read? (fit slot member) inside whole
    refine ⟨word, found, ?_⟩
    rw [Image.read?, Image.sectionAt?_eq_of_only (List.mem_map_of_mem member) inside only]
    exact read

/-! ## Files from contents -/

/-- What a slot is to hold. A slot without bytes is not used. -/
structure Content where
  address : UInt32
  bytes : List UInt8

/-- The section that holds the content of a slot. -/
def Content.section? (index : Nat) (content : Content) : Option Section :=
  if content.bytes = [] then none
  else some
    { name := if index < 7 then s!".text{index}" else s!".data{index - 7}"
      address := content.address
      size := UInt32.ofNat content.bytes.length
      data := content.bytes.toArray
      executable := index < 7 }

/-- All that a file holds. -/
structure Contents where
  slots : List Content
  complete : slots.length = slotCount
  bssAddress : UInt32
  bssSize : UInt32
  entry : UInt32

namespace Contents

variable (contents : Contents)

def sections : List Section :=
  (List.range slotCount).filterMap fun index =>
    contents.slots[index]?.bind (Content.section? index)

def image : Image :=
  { container := .dol contents.bssAddress contents.bssSize
    entry := contents.entry
    sections := contents.sections }

/-- Where the bytes of a slot are: behind the header, and behind those of the slots before. -/
def offset (index : Nat) : Nat :=
  0x100 + ((contents.slots.map (·.bytes.length)).take index).sum

/-- The words of the header. The last ones are not used. -/
def header : List UInt32 :=
  (List.range slotCount).map (fun index => UInt32.ofNat (contents.offset index)) ++
    (contents.slots.map (·.address) ++
      (contents.slots.map (fun content => UInt32.ofNat content.bytes.length) ++
        (contents.bssAddress :: contents.bssSize :: contents.entry :: List.replicate 7 0)))

def file : Array UInt8 :=
  (contents.header.flatMap bytesOfWord ++ contents.slots.flatMap (·.bytes)).toArray

variable {contents}

theorem length_header : contents.header.length = 64 := by
  simp [header, contents.complete, slotCount]

theorem length_headerBytes : (contents.header.flatMap bytesOfWord).length = 0x100 := by
  have four : (fun word => (bytesOfWord word).length) = fun _ => 4 := rfl
  rw [List.length_flatMap, four, List.map_const', length_header]
  rfl

theorem size_file : contents.file.size =
    0x100 + (contents.slots.map (·.bytes.length)).sum := by
  rw [file, List.size_toArray, List.length_append, length_headerBytes, List.length_flatMap]

theorem headerWord_file {index : Nat} {word : UInt32}
    (found : contents.header[index]? = some word) :
    headerWord contents.file (4 * index) = word := by
  obtain ⟨before, _⟩ := List.getElem?_eq_some_iff.mp found
  rw [headerWord, file, wordAt?_words _ _ before, found, Option.getD_some]

theorem getElem?_column {column rest : List UInt32} {count index : Nat}
    (length : column.length = count) : (column ++ rest)[count + index]? = rest[index]? := by
  rw [List.getElem?_append_right (by omega), length, Nat.add_sub_cancel_left]

theorem slot_file {index : Nat} {content : Content}
    (found : contents.slots[index]? = some content) :
    slot contents.file index =
      { index, offset := UInt32.ofNat (contents.offset index), address := content.address,
        size := UInt32.ofNat content.bytes.length } := by
  obtain ⟨inside, _⟩ := List.getElem?_eq_some_iff.mp found
  have before : index < 18 := by rwa [contents.complete] at inside
  have offset : contents.header[index]? = some (UInt32.ofNat (contents.offset index)) := by
    rw [header, List.getElem?_append_left (by simpa [slotCount] using before)]
    simp [slotCount, before]
  have address : contents.header[slotCount + index]? = some content.address := by
    rw [header, getElem?_column (by simp), List.getElem?_append_left (by simpa using inside)]
    simp [found]
  have size : contents.header[2 * slotCount + index]? =
      some (UInt32.ofNat content.bytes.length) := by
    rw [header, show 2 * slotCount + index = slotCount + (slotCount + index) by omega,
      getElem?_column (by simp), getElem?_column (by simp [contents.complete]),
      List.getElem?_append_left (by simpa using inside)]
    simp [found]
  rw [slot, headerWord_file offset, headerWord_file address, headerWord_file size]

/-- A file is the header and the slots before, then the bytes of a slot, then those after it. -/
theorem file_split {index : Nat} {content : Content}
    (found : contents.slots[index]? = some content) :
    ∃ before after : List UInt8, contents.file = (before ++ content.bytes ++ after).toArray ∧
      before.length = contents.offset index := by
  obtain ⟨inside, same⟩ := List.getElem?_eq_some_iff.mp found
  have split : contents.slots =
      contents.slots.take index ++ content :: contents.slots.drop (index + 1) := by
    rw [← same, List.getElem_cons_drop, List.take_append_drop]
  refine ⟨contents.header.flatMap bytesOfWord ++ (contents.slots.take index).flatMap (·.bytes),
    (contents.slots.drop (index + 1)).flatMap (·.bytes), ?_, ?_⟩
  · have bytes : contents.slots.flatMap (·.bytes) =
        (contents.slots.take index).flatMap (·.bytes) ++ (content.bytes ++
          (contents.slots.drop (index + 1)).flatMap (·.bytes)) := by
      conv_lhs => rw [split]
      rw [List.flatMap_append, List.flatMap_cons]
    rw [file, bytes]
    simp only [List.append_assoc]
  · rw [List.length_append, length_headerBytes, List.length_flatMap, offset, List.map_take]

theorem offset_add_le {index : Nat} {content : Content}
    (found : contents.slots[index]? = some content) :
    contents.offset index + content.bytes.length ≤ contents.file.size := by
  obtain ⟨before, after, same, length⟩ := file_split found
  rw [same, ← length]
  simp only [List.size_toArray, List.length_append]
  omega

theorem extract_file {index : Nat} {content : Content}
    (found : contents.slots[index]? = some content) :
    contents.file.extract (contents.offset index)
      (contents.offset index + content.bytes.length) = content.bytes.toArray := by
  obtain ⟨before, after, same, length⟩ := file_split found
  apply Array.toList_inj.mp
  rw [same, ← length, Array.toList_extract, List.extract_eq_take_drop, List.append_assoc,
    List.drop_left', Nat.add_sub_cancel_left, List.take_left']
  · rfl
  · rfl

section

variable (small : contents.file.size ≤ 4294967296)
include small

/-- A slot is used if it has bytes, and then it fits and holds them. -/
theorem stored_file {index : Nat} {content : Content}
    (found : contents.slots[index]? = some content) :
    (if (slot contents.file index).isUsed
        then some ((slot contents.file index).stored contents.file) else none) =
      content.section? index ∧
    ((slot contents.file index).isUsed → (slot contents.file index).Fits contents.file) := by
  have within := offset_add_le found
  rw [slot_file found]
  by_cases empty : content.bytes = []
  · simp [Content.section?, Slot.isUsed, empty]
  · have length : content.bytes.length ≠ 0 := by simpa using empty
    have behind : 0x100 ≤ contents.offset index := Nat.le_add_right _ _
    have offset : (UInt32.ofNat (contents.offset index)).toNat = contents.offset index := by
      rw [UInt32.toNat_ofNat']
      omega
    have size : (UInt32.ofNat content.bytes.length).toNat = content.bytes.length := by
      rw [UInt32.toNat_ofNat']
      omega
    have used : UInt32.ofNat (contents.offset index) ≠ 0 ∧
        UInt32.ofNat content.bytes.length ≠ 0 := by
      simp only [ne_eq, ← UInt32.toNat_inj, offset, size, UInt32.toNat_zero]
      omega
    refine ⟨?_, fun _ => ?_⟩
    · rw [if_pos (by simp [Slot.isUsed, used]), Content.section?, if_neg empty, Slot.stored]
      simp only [offset, size, extract_file found]
    · simpa only [Slot.Fits, offset, size] using within

theorem usedSlots_file :
    (usedSlots contents.file).map (Slot.stored contents.file) = contents.sections ∧
      ∀ slot ∈ usedSlots contents.file, slot.Fits contents.file := by
  have known : ∀ index ∈ List.range slotCount,
      ∃ content, contents.slots[index]? = some content := by
    intro index member
    rw [List.mem_range, ← contents.complete] at member
    exact ⟨_, List.getElem?_eq_getElem member⟩
  constructor
  · rw [usedSlots, Dol.slots, Contents.sections, ← List.filterMap_eq_map', List.filterMap_filter,
      List.filterMap_map]
    refine List.filterMap_congr fun index member => ?_
    obtain ⟨content, found⟩ := known index member
    rw [found, Option.bind_some]
    exact (stored_file small found).1
  · intro slot member
    obtain ⟨listed, used⟩ := List.mem_filter.mp member
    obtain ⟨index, inside, rfl⟩ := List.mem_map.mp listed
    obtain ⟨content, found⟩ := known index inside
    exact (stored_file small found).2 used

theorem parse_file : parse contents.file = .ok contents.image := by
  obtain ⟨same, fit⟩ := usedSlots_file small
  have large : 0x100 ≤ contents.file.size := by
    rw [size_file]
    omega
  have tail (index : Nat) : contents.header[54 + index]? =
      (contents.bssAddress :: contents.bssSize :: contents.entry ::
        List.replicate 7 0)[index]? := by
    rw [header, show 54 + index = slotCount + (slotCount + (slotCount + index)) by
        simp only [slotCount]; omega, getElem?_column (by simp),
      getElem?_column (by simp [contents.complete]),
      getElem?_column (by simp [contents.complete])]
  rw [parse_of_fits large fit, loaded, same, headerWord_file (tail 0), headerWord_file (tail 1),
    headerWord_file (tail 2)]
  rfl

end

end Contents

/-! ## Exactness -/

/-- The three ways in which reading a file can end. -/
theorem parse_cases (data : Array UInt8) :
    (data.size < 0x100 ∧ parse data = .error (.tooSmall data.size)) ∨
    (0x100 ≤ data.size ∧ (∀ slot ∈ usedSlots data, slot.Fits data) ∧
      parse data = .ok (loaded data)) ∨
    (0x100 ≤ data.size ∧ ∃ slot, FirstBeyond data slot ∧
      parse data = .error (.slotBeyondFile slot.index slot.offset slot.size)) := by
  by_cases large : 0x100 ≤ data.size
  · rcases fit_or_first data (usedSlots data) with fit | ⟨before, slot, after, split, fit, beyond⟩
    · exact Or.inr (Or.inl ⟨large, fit, parse_of_fits large fit⟩)
    · exact Or.inr (Or.inr ⟨large, slot, firstBeyond_of_split large split fit beyond,
        parse_of_beyond large split fit beyond⟩)
  · have small := Nat.not_le.mp large
    exact Or.inl ⟨small, parse_of_small small⟩

/-- A file is read exactly when it has a header and its used slots fit, the image holds what they
say, and otherwise the fault names what is missing or the first slot that does not fit. Contents
that were put together are read back. -/
theorem parse_exact (data : Array UInt8) (contents : Contents) :
    ((∃ image, parse data = .ok image) ↔
      0x100 ≤ data.size ∧ ∀ slot : Slot, slot.Used data → slot.Fits data) ∧
    (∀ image, parse data = .ok image → Loads data image) ∧
    (∀ fault, parse data = .error fault →
      (data.size < 0x100 ∧ fault = .tooSmall data.size) ∨
      (0x100 ≤ data.size ∧ ∃ slot, FirstBeyond data slot ∧
        fault = .slotBeyondFile slot.index slot.offset slot.size)) ∧
    (contents.file.size ≤ 4294967296 → parse contents.file = .ok contents.image) := by
  refine ⟨?_, ?_, ?_, Contents.parse_file⟩
  · rcases parse_cases data with ⟨small, failed⟩ | ⟨large, fit, read⟩ | ⟨_, slot, first, failed⟩
    · simp [failed, Nat.not_le.mpr small]
    · refine iff_of_true ⟨_, read⟩ ⟨large, fun slot used => fit slot ?_⟩
      exact (mem_usedSlots large).mpr used
    · refine iff_of_false (by simp [failed]) fun fits => ?_
      exact first.beyond (fits.2 slot first.used)
  · intro image accepted
    rcases parse_cases data with ⟨_, failed⟩ | ⟨large, fit, read⟩ | ⟨_, _, _, failed⟩
    · cases failed.symm.trans accepted
    · cases read.symm.trans accepted
      exact loads_of_fits large fit
    · cases failed.symm.trans accepted
  · intro fault refused
    rcases parse_cases data with ⟨small, failed⟩ | ⟨_, _, read⟩ | ⟨large, slot, first, failed⟩
    · cases failed.symm.trans refused
      exact Or.inl ⟨small, rfl⟩
    · cases read.symm.trans refused
    · cases failed.symm.trans refused
      exact Or.inr ⟨large, slot, first, rfl⟩

/-- Five bytes of text, and two bytes of data in the last slot. -/
def sampleContents : Contents where
  slots := { address := 0x80003100, bytes := [0x4E, 0x80, 0x00, 0x20, 0xFF] } ::
    List.replicate 16 { address := 0, bytes := [] } ++
    [{ address := 0x80004001, bytes := [0x12, 0x34] }]
  complete := rfl
  bssAddress := 0x80005000
  bssSize := 0x20
  entry := 0x80003100

theorem parse_sampleContents :
    parse sampleContents.file = .ok sampleContents.image ∧
      Loads sampleContents.file sampleContents.image := by
  have read := (parse_exact sampleContents.file sampleContents).2.2.2 (by decide +kernel)
  exact ⟨read, (parse_exact sampleContents.file sampleContents).2.1 _ read⟩

end Dol

end PowerLift
