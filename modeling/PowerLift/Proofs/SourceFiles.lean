import Mathlib
import PowerLift.Project.Source

/-!
The source files of a project. The functions stand in them in order, each in one file, and a file
ends only where the next function does not fit.
-/

namespace PowerLift

namespace Source

variable {functions rest own : List SourceFunction} {function : SourceFunction}
variable {files further : List (List SourceFunction)} {used : Nat}

/-! ## Texts and sizes -/

/-- The code of functions, each followed by a line break. -/
def contents (functions : List SourceFunction) : String :=
  String.join (functions.map fun function => function.code ++ "\n")

/-- The bytes that functions take in a file. -/
def weight (functions : List SourceFunction) : Nat :=
  (functions.map fun function => function.size + 1).sum

@[simp] theorem weight_nil : weight [] = 0 := rfl

@[simp] theorem weight_cons : weight (function :: rest) = function.size + 1 + weight rest := rfl

theorem contents_append (first second : List SourceFunction) :
    contents (first ++ second) = contents first ++ contents second := by
  simp [contents]

theorem contents_flatten (files : List (List SourceFunction)) :
    contents files.flatten = String.join (files.map contents) := by
  induction files with
  | nil => rfl
  | cons file further ih => rw [List.flatten_cons, contents_append, ih, List.map_cons,
      String.join_cons]

theorem fileText_eq (functions : List SourceFunction) :
    fileText functions = header ++ contents functions := by
  have grow : ∀ text : String,
      functions.foldl (fun text function => text ++ function.code ++ "\n") text =
        text ++ contents functions := by
    induction functions with
    | nil => simp [contents]
    | cons function rest ih =>
        intro text
        rw [List.foldl_cons, ih]
        simp [contents, String.append_assoc]
  exact grow header

theorem utf8ByteSize_contents (functions : List SourceFunction) :
    (contents functions).utf8ByteSize = weight functions := by
  induction functions with
  | nil => rfl
  | cons function rest ih =>
      have first : contents (function :: rest) = function.code ++ "\n" ++ contents rest :=
        String.join_cons
      rw [first, String.utf8ByteSize_append, String.utf8ByteSize_append, ih]
      rfl

/-! ## Greedy packings -/

/-- Functions in files that hold as much as they can. -/
structure Packed (functions : List SourceFunction) (files : List (List SourceFunction)) :
    Prop where
  filled : ∀ file ∈ files, file ≠ []
  flatten : files.flatten = functions
  /-- A single function may be larger. -/
  bounded : ∀ file ∈ files, 2 ≤ file.length →
    (header ++ contents file).utf8ByteSize ≤ limit + 1
  /-- The first function of a file does not fit into the file before. -/
  greedy : files.IsChain fun file next => ∀ function ∈ next.head?,
    limit < (header ++ contents file).utf8ByteSize + function.size

/-- Functions after a file that already has a size: those that still go into it, and the files with
the others. -/
structure Continues (used : Nat) (functions own : List SourceFunction)
    (further : List (List SourceFunction)) : Prop where
  split : own ++ further.flatten = functions
  fits : own ≠ [] → used + weight own ≤ limit + 1
  closed : ∀ function ∈ further.flatten.head?, limit < used + weight own + function.size
  packed : Packed further.flatten further

theorem head?_flatten_of_filled (filled : ∀ file ∈ files, file ≠ []) :
    files.flatten.head? = files.head?.bind List.head? := by
  cases files with
  | nil => rfl
  | cons file further =>
      obtain ⟨first, rest, rfl⟩ := List.exists_cons_of_ne_nil (filled file List.mem_cons_self)
      rfl

theorem packed_nil : Packed [] files ↔ files = [] := by
  constructor
  · intro packed
    refine List.eq_nil_iff_forall_not_mem.mpr fun file member => packed.filled file member ?_
    exact List.flatten_eq_nil_iff.mp packed.flatten file member
  · rintro rfl
    exact ⟨by simp, rfl, by simp, .nil⟩

/-- The first function opens a file. -/
theorem packed_cons :
    Packed (function :: rest) files ↔
      ∃ own further, files = (function :: own) :: further ∧
        Continues (header.utf8ByteSize + function.size + 1) rest own further := by
  have size : ∀ own, (header ++ contents (function :: own)).utf8ByteSize =
      header.utf8ByteSize + function.size + 1 + weight own := by
    intro own
    rw [String.utf8ByteSize_append, utf8ByteSize_contents, weight_cons]
    omega
  constructor
  · intro packed
    obtain ⟨file, further, rfl⟩ : ∃ file further, files = file :: further := by
      refine List.exists_cons_of_ne_nil ?_
      rintro rfl
      cases packed.flatten
    obtain ⟨first, own, rfl⟩ :=
      List.exists_cons_of_ne_nil (packed.filled file List.mem_cons_self)
    obtain ⟨rfl, split⟩ := List.cons.inj packed.flatten
    have filled := (List.forall_mem_cons.mp packed.filled).2
    have bounded := List.forall_mem_cons.mp packed.bounded
    have greedy := List.isChain_cons.mp packed.greedy
    refine ⟨own, further, rfl, split, ?_, ?_, filled, rfl, bounded.2, greedy.2⟩
    · intro nonempty
      have two : 2 ≤ (first :: own).length :=
        Nat.succ_le_succ (List.length_pos_of_ne_nil nonempty)
      exact size own ▸ bounded.1 two
    · intro next head
      rw [head?_flatten_of_filled filled] at head
      obtain ⟨file, following, first⟩ := Option.bind_eq_some_iff.mp head
      exact size own ▸ greedy.1 file following next first
  · rintro ⟨own, further, rfl, continues⟩
    have filled := continues.packed.filled
    refine ⟨List.forall_mem_cons.mpr ⟨List.cons_ne_nil _ _, filled⟩,
      congrArg (function :: ·) continues.split,
      List.forall_mem_cons.mpr ⟨?_, continues.packed.bounded⟩,
      List.isChain_cons.mpr ⟨?_, continues.packed.greedy⟩⟩
    · intro two
      rw [size]
      refine continues.fits ?_
      rintro rfl
      simp at two
    · intro file following next first
      rw [size]
      refine continues.closed next ?_
      rw [head?_flatten_of_filled filled]
      exact Option.bind_eq_some_iff.mpr ⟨file, following, first⟩

theorem continues_nil : Continues used [] own further ↔ own = [] ∧ further = [] := by
  constructor
  · intro continues
    obtain ⟨none, nothing⟩ := List.append_eq_nil_iff.mp continues.split
    exact ⟨none, packed_nil.mp (nothing ▸ continues.packed)⟩
  · rintro ⟨rfl, rfl⟩
    exact ⟨rfl, by simp, by simp, packed_nil.mpr rfl⟩

/-- A function that does not fit closes the file. -/
theorem continues_cons_of_large (large : limit < used + function.size) :
    Continues used (function :: rest) own further ↔
      own = [] ∧ Packed (function :: rest) further := by
  constructor
  · intro continues
    cases own with
    | nil => exact ⟨rfl, continues.split ▸ continues.packed⟩
    | cons first own =>
        -- The function would have to fit with its line break.
        obtain ⟨rfl, _⟩ := List.cons.inj continues.split
        have fits := continues.fits (List.cons_ne_nil _ _)
        rw [weight_cons] at fits
        omega
  · rintro ⟨rfl, packed⟩
    refine ⟨packed.flatten, fun nonempty => absurd rfl nonempty, ?_, ?_⟩
    · intro next head
      rw [packed.flatten] at head
      obtain rfl := Option.some.inj head
      exact large
    · rw [packed.flatten]
      exact packed

theorem continues_cons_of_fits (fits : used + function.size ≤ limit) :
    Continues used (function :: rest) own further ↔
      ∃ others, own = function :: others ∧
        Continues (used + function.size + 1) rest others further := by
  have regroup : ∀ others, used + weight (function :: others) =
      used + function.size + 1 + weight others := by
    intro others
    rw [weight_cons]
    omega
  constructor
  · intro continues
    cases own with
    | nil =>
        -- Only a function that does not fit opens a further file.
        have split : further.flatten = function :: rest := continues.split
        have closed := continues.closed function (by rw [split]; rfl)
        rw [weight_nil] at closed
        omega
    | cons first others =>
        obtain ⟨rfl, split⟩ := List.cons.inj continues.split
        refine ⟨others, rfl, split, ?_, ?_, continues.packed⟩
        · exact fun _ => regroup others ▸ continues.fits (List.cons_ne_nil _ _)
        · exact regroup others ▸ continues.closed
  · rintro ⟨others, rfl, continues⟩
    refine ⟨congrArg (function :: ·) continues.split, ?_, ?_, continues.packed⟩
    · intro _
      rw [regroup]
      by_cases none : others = []
      · rw [none, weight_nil]
        omega
      · exact continues.fits none
    · rw [regroup]
      exact continues.closed

/-! ## Files of functions -/

theorem splitAfter_eq_iff :
    splitAfter used functions = (own, further) ↔ Continues used functions own further := by
  induction functions generalizing used own further with
  | nil => simp [splitAfter, continues_nil, eq_comm]
  | cons function rest ih =>
      rw [splitAfter]
      split
      next large =>
        rw [continues_cons_of_large large, packed_cons]
        simp only [← ih, Prod.mk.injEq]
        grind
      next small =>
        rw [continues_cons_of_fits (Nat.not_lt.mp small)]
        simp only [← ih, Prod.mk.injEq]
        grind

/-- There is just one packing, and the files are it. -/
theorem groups_eq_iff : groups functions = files ↔ Packed functions files := by
  cases functions with
  | nil => rw [packed_nil, groups, eq_comm]
  | cons function rest =>
      rw [groups, packed_cons]
      simp only [← splitAfter_eq_iff]
      grind

/-- Files hold the functions in order behind their headers, and there is just one way to pack them
that leaves no room that the next function would fill. -/
theorem split_packs (functions : List SourceFunction) :
    (∃ files, Packed functions files ∧
      split functions = files.map fun file => header ++ contents file) ∧
    (∀ files, Packed functions files →
      split functions = files.map fun file => header ++ contents file) ∧
    (∃ bodies, split functions = bodies.map (header ++ ·) ∧
      String.join bodies = contents functions) ∧
    (split functions = [] ↔ functions = []) := by
  have packed : Packed functions (groups functions) := groups_eq_iff.mp rfl
  have texts : split functions = (groups functions).map fun file => header ++ contents file :=
    List.map_congr_left fun file _ => fileText_eq file
  refine ⟨⟨groups functions, packed, texts⟩, ?_, ?_, ?_⟩
  · intro files other
    rw [← groups_eq_iff.mpr other]
    exact texts
  · refine ⟨(groups functions).map contents, ?_, ?_⟩
    · rw [texts, List.map_map]
      rfl
    · rw [← contents_flatten, packed.flatten]
  · rw [split, List.map_eq_nil_iff, groups_eq_iff]
    constructor
    · exact fun empty => empty.flatten.symm
    · rintro rfl
      exact packed_nil.mpr rfl

/-- A function with code of the given size. -/
def padded (size : Nat) : SourceFunction :=
  { address := 0, name := "padded", code := String.ofList (List.replicate size 'x') }

@[simp] theorem size_padded (size : Nat) : (padded size).size = size := by
  have length : ∀ count, String.utf8Len (List.replicate count 'x') = count := by
    intro count
    induction count with
    | zero => rfl
    | succ count ih => rw [List.replicate_succ, String.utf8Len_cons, ih]; rfl
  rw [SourceFunction.size, padded, String.utf8ByteSize_ofList, length]

theorem packed_of_full {first second third : SourceFunction}
    (full : header.utf8ByteSize + first.size + 1 + second.size = limit) :
    Packed [first, second, third] [[first, second], [third]] := by
  rw [← groups_eq_iff]
  simp only [groups, splitAfter]
  rw [if_neg (by omega), if_pos (by omega)]

/-- The last line break of a file may stand past its limit. No function fits behind it, not even
one without code. -/
theorem split_full :
    Packed [padded 131000, padded 130996, padded 0] [[padded 131000, padded 130996], [padded 0]] ∧
      split [padded 131000, padded 130996, padded 0] =
        [header ++ contents [padded 131000, padded 130996], header ++ contents [padded 0]] := by
  have start : header.utf8ByteSize = 147 := by decide +kernel
  have packed : Packed [padded 131000, padded 130996, padded 0]
      [[padded 131000, padded 130996], [padded 0]] :=
    packed_of_full (by rw [start, size_padded, size_padded, limit])
  exact ⟨packed, (split_packs _).2.1 _ packed⟩

end Source

end PowerLift
