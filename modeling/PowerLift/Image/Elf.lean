import PowerLift.Image.Basic
import PowerLift.Image.Fault
import PowerLift.Text.Utf8

/-!
ELF files: the header, the section headers, and the tables of strings and symbols. Sections that
are loaded and have contents become sections of the image; functions of the last symbol table
become its symbols. Numbers of 64 bits are cut to 32.
-/

namespace PowerLift.Elf

/-- The byte order and word size of a file. -/
structure Layout where
  bigEndian : Bool
  wide : Bool
deriving DecidableEq

/-- The number that bytes store. -/
def numberOf (layout : Layout) (bytes : List UInt8) : Nat :=
  let ordered := if layout.bigEndian then bytes else bytes.reverse
  ordered.foldl (fun value byte => value * 256 + byte.toNat) 0

/-- The fields of a record that begins at an offset, with the widths given in bytes. -/
def fields? (layout : Layout) (data : Array UInt8) : Nat → List Nat → Option (List Nat)
  | _, [] => some []
  | offset, width :: widths => do
    let bytes ← bytesAt? data offset width
    let values ← fields? layout data (offset + width) widths
    return numberOf layout bytes.toList :: values

/-- The width of addresses, offsets and sizes. -/
def Layout.word (layout : Layout) : Nat :=
  if layout.wide then 8 else 4

/-! ## Headers -/

structure Header where
  layout : Layout
  entry : Nat
  sectionOffset : Nat
  sectionCount : Nat
  nameTable : Nat
deriving DecidableEq

/-- The two values of a byte that chooses between two layouts. -/
def choice? : Option UInt8 → Option Bool
  | some 1 => some false
  | some 2 => some true
  | _ => none

def layout? (data : Array UInt8) : Option Layout := do
  let ident ← bytesAt? data 0 16
  let wide ← choice? (ident[4]?)
  let bigEndian ← choice? (ident[5]?)
  return { bigEndian, wide }

def header? (data : Array UInt8) : Option Header := do
  let layout ← layout? data
  let word := layout.word
  let fields ← fields? layout data 16 [2, 2, 4, word, word, word, 4, 2, 2, 2, 2, 2, 2]
  match fields with
  | [_, _, _, entry, _, sectionOffset, _, _, _, _, _, sectionCount, nameTable] =>
    some { layout, entry, sectionOffset, sectionCount, nameTable }
  | _ => none

structure SectionHeader where
  name : Nat
  kind : Nat
  flags : Nat
  address : Nat
  offset : Nat
  size : Nat
  link : Nat
  entrySize : Nat
deriving DecidableEq

namespace SectionHeader

/-- Loaded into memory. -/
def isLoaded (header : SectionHeader) : Bool :=
  header.flags / 2 % 2 == 1

def isCode (header : SectionHeader) : Bool :=
  header.flags / 4 % 2 == 1

def isSymbolTable (header : SectionHeader) : Bool :=
  header.kind == 2

def isRelocation (header : SectionHeader) : Bool :=
  header.kind == 4 || header.kind == 9

/-- Zeroed memory, without contents in the file. -/
def isZeroed (header : SectionHeader) : Bool :=
  header.kind == 8

/-- The kinds of the sections with versions of symbols: definitions, needs, and the table itself. -/
def versionKinds : List Nat := [0x6FFFFFFD, 0x6FFFFFFE, 0x6FFFFFFF]

/-- Whether the contents lie in a file of `length` bytes and the addresses in 64 bits. -/
def fits (header : SectionHeader) (length : Nat) : Bool :=
  header.isZeroed || header.size == 0 ||
    (header.offset + header.size ≤ length && header.address + header.size < UInt64.size)

end SectionHeader

def sectionHeaderSize (layout : Layout) : Nat :=
  if layout.wide then 64 else 40

def sectionHeader? (layout : Layout) (data : Array UInt8) (offset : Nat) :
    Option SectionHeader := do
  let word := layout.word
  let fields ← fields? layout data offset [4, 4, word, word, word, word, 4, 4, word, word]
  match fields with
  | [name, kind, flags, address, offset, size, link, _, _, entrySize] =>
    some { name, kind, flags, address, offset, size, link, entrySize }
  | _ => none

/-- The section headers. A count of zero stands for the size that the first of them gives. -/
def sectionHeaders? (header : Header) (data : Array UInt8) : Option (List SectionHeader) :=
  if header.sectionOffset == 0 then some []
  else do
    let first ← sectionHeader? header.layout data header.sectionOffset
    let count := if header.sectionCount == 0 then first.size else header.sectionCount
    let step := sectionHeaderSize header.layout
    if data.size / step < count then none
    else
      let others ← (List.range (count - 1)).mapM fun index =>
        sectionHeader? header.layout data (header.sectionOffset + step * (index + 1))
      return first :: others

/-- Whether bytes can be taken from an offset on. Even if there are none to take, the offset must
lie in the file. -/
def isReadable (data : Array UInt8) (offset size : Nat) : Bool :=
  offset < data.size && offset + size ≤ data.size

/-! ## Strings -/

/-- The strings of a table, each with the offset where it begins: they end at zero bytes, and all
must be valid text. -/
def strings? : Nat → Nat → List UInt8 → Option (List (Nat × List UInt8))
  | 0, _, _ => some []
  | _, _, [] => some []
  | fuel + 1, offset, bytes => do
    let string := bytes.takeWhile (· != 0)
    let _ ← Text.ofUtf8? string
    let rest ← strings? fuel (offset + string.length + 1) (bytes.drop (string.length + 1))
    return (offset, string) :: rest

abbrev Strings := List (Nat × List UInt8)

/-- The rest of the string in which an offset lies. An offset outside of all strings, or inside a
character, names nothing. -/
def nameAt (strings : Strings) (offset : Nat) : String :=
  match (strings.takeWhile (·.1 ≤ offset)).getLast? with
  | some (start, string) =>
    if offset - start ≤ string.length then
      (Text.ofUtf8? (string.drop (offset - start))).getD ""
    else ""
  | none => ""

/-- The section number that stands for the link of the first section header. -/
def extendedIndex : Nat := 0xFFFF

/-- The string table in a section. A section that does not exist has no strings. -/
def stringTable? (data : Array UInt8) (headers : List SectionHeader) (index : Nat) :
    Option Strings :=
  let index :=
    if index == extendedIndex then (headers.head?.map (·.link)).getD headers.length else index
  match headers[index]? with
  | none => some []
  | some header => do
    if header.fits data.size then
      let bytes ← bytesAt? data header.offset header.size
      strings? (bytes.size + 1) 0 bytes.toList
    else none

/-! ## Symbols -/

structure SymbolEntry where
  name : Nat
  info : Nat
  value : Nat
  size : Nat
deriving DecidableEq

namespace SymbolEntry

def isFunction (entry : SymbolEntry) : Bool :=
  entry.info % 16 == 2 && entry.value != 0

end SymbolEntry

def symbolSize (layout : Layout) : Nat :=
  if layout.wide then 24 else 16

def symbolEntry? (layout : Layout) (data : Array UInt8) (offset : Nat) : Option SymbolEntry :=
  if layout.wide then do
    match ← fields? layout data offset [4, 1, 1, 2, 8, 8] with
    | [name, info, _, _, value, size] => some { name, info, value, size }
    | _ => none
  else do
    match ← fields? layout data offset [4, 4, 4, 1, 1, 2] with
    | [name, value, size, info, _, _] => some { name, info, value, size }
    | _ => none

/-- The symbols of the last symbol table, with the strings for their names. -/
def symbolTable? (layout : Layout) (data : Array UInt8) (headers : List SectionHeader) :
    Option (List SymbolEntry × Strings) :=
  match (headers.filter SectionHeader.isSymbolTable).getLast? with
  | none => some ([], [])
  | some header => do
    let count := header.size / header.entrySize
    if isReadable data header.offset (count * symbolSize layout) then
      let entries ← (List.range count).mapM fun index =>
        symbolEntry? layout data (header.offset + index * symbolSize layout)
      let strings ← stringTable? data headers header.link
      return (entries, strings)
    else none

/-! ## Images -/

/-- The section of the image that a header describes. -/
def loadSection (data : Array UInt8) (names : Strings) (header : SectionHeader) :
    Except ContainerFault Section :=
  match bytesAt? data header.offset header.size with
  | some bytes =>
    .ok { name := nameAt names header.name, address := UInt32.ofNat header.address,
          size := UInt32.ofNat header.size, data := bytes, executable := header.isCode }
  | none => .error (.elfSectionBeyondFile header.address header.offset header.size)

/-- Drops every symbol with the address of the one before it. -/
def dropRepeated : List Symbol → List Symbol
  | [] => []
  | symbol :: rest =>
    match dropRepeated rest with
    | [] => [symbol]
    | next :: others => if next.address == symbol.address then symbol :: others else
      symbol :: next :: others

/-- The functions by address, the first of each address. -/
def functions (entries : List SymbolEntry) (names : Strings) : List Symbol :=
  let symbols := (entries.filter SymbolEntry.isFunction).map fun entry =>
    { name := nameAt names entry.name, address := UInt32.ofNat entry.value,
      size := UInt32.ofNat entry.size : Symbol }
  dropRepeated (symbols.mergeSort fun a b => a.address ≤ b.address)

structure Tables where
  header : Header
  sections : List SectionHeader
  sectionNames : Strings
  symbols : List SymbolEntry
  symbolNames : Strings

/-- Whether the first section of every kind of version can be read. -/
def versionsReadable (data : Array UInt8) (headers : List SectionHeader) : Bool :=
  SectionHeader.versionKinds.all fun kind =>
    match headers.find? (·.kind == kind) with
    | some header => isReadable data header.offset header.size
    | none => true

def tables? (data : Array UInt8) : Option Tables := do
  let header ← header? data
  let sections ← sectionHeaders? header data
  let sectionNames ← stringTable? data sections header.nameTable
  let (symbols, symbolNames) ← symbolTable? header.layout data sections
  if (sections.filter SectionHeader.isRelocation).all (·.fits data.size) &&
      versionsReadable data sections then
    return { header, sections, sectionNames, symbols, symbolNames }
  else none

def parse (data : Array UInt8) : Except ContainerFault Image :=
  match tables? data with
  | none => .error .malformedElf
  | some tables => do
    let loaded := tables.sections.filter fun header =>
      header.isLoaded && !header.isZeroed && header.size != 0
    let sections ← loaded.mapM (loadSection data tables.sectionNames)
    return {
      container := .elf
      entry := UInt32.ofNat tables.header.entry
      sections
      symbols := functions tables.symbols tables.symbolNames }

end PowerLift.Elf
