import Mathlib
import PowerLift.Image.Basic
import PowerLift.Proofs.AddressSet

/-!
What a section stores, seen byte by byte, word by word and through reads. The views agree, except
for a section that ends with the address space: its end is zero, and so no address lies before it.
-/

namespace PowerLift

namespace Section

/-! ## Ranges of addresses -/

theorem toNat_stop {sect : Section}
    (ends : sect.address.toNat + sect.size.toNat < 4294967296) :
    sect.stop.toNat = sect.address.toNat + sect.size.toNat := by
  rw [stop, UInt32.toNat_add]
  exact Nat.mod_eq_of_lt ends

theorem contains_iff {sect : Section}
    (ends : sect.address.toNat + sect.size.toNat < 4294967296) {address : UInt32} :
    sect.contains address ↔ sect.address.toNat ≤ address.toNat ∧
      address.toNat < sect.address.toNat + sect.size.toNat := by
  simp only [contains, Bool.and_eq_true, decide_eq_true_eq, UInt32.le_iff_toNat_le,
    UInt32.lt_iff_toNat_lt, toNat_stop ends]

/-- A section that passes the last address contains none. -/
theorem ends_of_contains {sect : Section} {address : UInt32} (inside : sect.contains address) :
    sect.address.toNat + sect.size.toNat < 4294967296 := by
  simp only [contains, stop, Bool.and_eq_true, decide_eq_true_eq, UInt32.le_iff_toNat_le,
    UInt32.lt_iff_toNat_lt, UInt32.toNat_add] at inside
  have start := sect.address.toNat_lt
  have size := sect.size.toNat_lt
  omega

theorem offset_eq {sect : Section} {address : UInt32} (inside : sect.contains address) :
    sect.offset address = address.toNat - sect.address.toNat :=
  toNat_sub ((contains_iff (ends_of_contains inside)).mp inside).1

/-! ## Stored words -/

theorem wordAt?_isSome {data : Array UInt8} {offset : Nat} :
    (wordAt? data offset).isSome ↔ offset + 3 < data.size := by
  constructor
  · intro found
    by_contra short
    have missing : data[offset + 3]? = none := Array.getElem?_eq_none (by omega)
    unfold wordAt? at found
    rw [missing] at found
    simp at found
  · intro stored
    have first : offset < data.size := by omega
    have second : offset + 1 < data.size := by omega
    have third : offset + 2 < data.size := by omega
    simp [wordAt?, first, second, third, stored]

theorem wordAt?_lt {data : Array UInt8} {offset : Nat} {word : UInt32}
    (found : wordAt? data offset = some word) : offset + 3 < data.size :=
  wordAt?_isSome.mp (by rw [found]; rfl)

theorem mem_words {sect : Section} {address word : UInt32} :
    (address, word) ∈ sect.words ↔ ∃ index, wordAt? sect.data (4 * index) = some word ∧
      sect.address + UInt32.ofNat (4 * index) = address := by
  simp only [words, List.mem_filterMap, List.mem_range, Option.map_eq_some_iff, Prod.mk.injEq]
  constructor
  · rintro ⟨index, _, stored, found, place, rfl⟩
    exact ⟨index, found, place⟩
  · rintro ⟨index, found, place⟩
    have stored := wordAt?_lt found
    exact ⟨index, by omega, word, found, place, rfl⟩

/-! ## Reads -/

theorem read?_eq_some {sect : Section} {address word : UInt32} :
    sect.read? address = some word ↔
      sect.contains address ∧ wordAt? sect.data (sect.offset address) = some word := by
  simp [read?]

theorem bytes?_eq_some {sect : Section} {address : UInt32} {count : Nat} {bytes : Array UInt8} :
    sect.bytes? address count = some bytes ↔ sect.contains address ∧
      sect.offset address + count ≤ sect.data.size ∧
      sect.data.extract (sect.offset address) (sect.offset address + count) = bytes := by
  simp [bytes?, bytesAt?]

/-- Listing the words and reading them one by one give the same words, and bytes are given exactly
for the ranges that lie in the section. -/
structure Agrees (sect : Section) : Prop where
  words : ∀ address word, (address, word) ∈ sect.words ↔
    (address - sect.address).toNat % 4 = 0 ∧ sect.read? address = some word
  bytes : ∀ address count bytes, sect.bytes? address count = some bytes ↔
    (sect.address.toNat ≤ address.toNat ∧
      address.toNat < sect.address.toNat + sect.size.toNat ∧
      address.toNat + count ≤ sect.address.toNat + sect.size.toNat) ∧
    bytes = sect.data.extract (address.toNat - sect.address.toNat)
      (address.toNat - sect.address.toNat + count)

section

variable {sect : Section} (stored : sect.data.size = sect.size.toNat)
include stored

theorem words_agree (ends : sect.address.toNat + sect.size.toNat < 4294967296)
    (address word : UInt32) :
    (address, word) ∈ sect.words ↔
      (address - sect.address).toNat % 4 = 0 ∧ sect.read? address = some word := by
  rw [mem_words, read?_eq_some]
  constructor
  · rintro ⟨index, found, rfl⟩
    have within := wordAt?_lt found
    have place : (sect.address + UInt32.ofNat (4 * index)).toNat =
        sect.address.toNat + 4 * index := by
      rw [UInt32.toNat_add, UInt32.toNat_ofNat']
      omega
    have inside : sect.contains (sect.address + UInt32.ofNat (4 * index)) :=
      (contains_iff ends).mpr (by omega)
    have offset : sect.offset (sect.address + UInt32.ofNat (4 * index)) = 4 * index := by
      rw [offset_eq inside]
      omega
    refine ⟨?_, inside, by rw [offset, found]⟩
    change sect.offset _ % 4 = 0
    omega
  · rintro ⟨multiple, inside, found⟩
    change sect.offset address % 4 = 0 at multiple
    have above := ((contains_iff ends).mp inside).1
    have offset := offset_eq inside
    refine ⟨sect.offset address / 4, ?_, ?_⟩
    · rwa [show 4 * (sect.offset address / 4) = sect.offset address by omega]
    · apply UInt32.toNat_inj.mp
      have limit := address.toNat_lt
      rw [UInt32.toNat_add, UInt32.toNat_ofNat']
      omega

theorem bytes_agree (ends : sect.address.toNat + sect.size.toNat < 4294967296)
    (address : UInt32) (count : Nat) (bytes : Array UInt8) :
    sect.bytes? address count = some bytes ↔
      (sect.address.toNat ≤ address.toNat ∧
        address.toNat < sect.address.toNat + sect.size.toNat ∧
        address.toNat + count ≤ sect.address.toNat + sect.size.toNat) ∧
      bytes = sect.data.extract (address.toNat - sect.address.toNat)
        (address.toNat - sect.address.toNat + count) := by
  rw [bytes?_eq_some]
  constructor
  · rintro ⟨inside, within, rfl⟩
    have bounds := (contains_iff ends).mp inside
    rw [offset_eq inside] at within ⊢
    exact ⟨by omega, rfl⟩
  · rintro ⟨bounds, rfl⟩
    have inside : sect.contains address := (contains_iff ends).mpr (by omega)
    rw [offset_eq inside]
    exact ⟨inside, by omega, rfl⟩

/-- The views of a section agree unless it ends with the address space. Nothing can be read from
one that does, not even its first byte. -/
theorem agrees_iff (fits : sect.address.toNat + sect.size.toNat ≤ 4294967296) :
    (sect.Agrees ↔ sect.address.toNat + sect.size.toNat < 4294967296) ∧
      (sect.address.toNat + sect.size.toNat = 4294967296 → ∀ address,
        sect.read? address = none ∧ ∀ count, sect.bytes? address count = none) := by
  have closed (top : sect.address.toNat + sect.size.toNat = 4294967296) (address : UInt32) :
      sect.contains address = false := by
    by_contra outside
    have inside : sect.contains address := by simpa using outside
    have ends := ends_of_contains inside
    omega
  refine ⟨⟨?_, fun ends => ⟨words_agree stored ends, bytes_agree stored ends⟩⟩, ?_⟩
  · intro agrees
    by_contra full
    have top : sect.address.toNat + sect.size.toNat = 4294967296 := by omega
    have start := sect.address.toNat_lt
    -- The empty range at the first address is missing.
    have first := (agrees.bytes sect.address 0 _).mpr ⟨by omega, rfl⟩
    exact absurd (bytes?_eq_some.mp first).1 (by simp [closed top])
  · intro top address
    simp [read?, bytes?, closed top]

end

/-- A word and three bytes that end just before the last address, and a word that ends with it. -/
theorem agrees_below_top :
    (Section.mk ".data" 0xFFFFFFF8 7 #[0, 0, 0, 1, 2, 3, 4] false).Agrees ∧
      ¬ (Section.mk ".data" 0xFFFFFFFC 4 #[0, 0, 0, 1] false).Agrees :=
  ⟨((agrees_iff rfl (by decide)).1).mpr (by decide),
    fun agrees => absurd (((agrees_iff rfl (by decide)).1).mp agrees) (by decide)⟩

end Section

/-- The only section that contains an address is the one that is found. -/
theorem Image.sectionAt?_eq_of_only {image : Image} {sect : Section}
    (member : sect ∈ image.sections) {address : UInt32} (inside : sect.contains address)
    (only : ∀ other ∈ image.sections, other.contains address → other = sect) :
    image.sectionAt? address = some sect := by
  cases found : image.sectionAt? address with
  | none => exact absurd inside (List.find?_eq_none.mp found sect member)
  | some other =>
      rw [only other (List.mem_of_find?_eq_some found) (by simpa using List.find?_some found)]

end PowerLift
