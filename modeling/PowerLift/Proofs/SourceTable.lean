import Mathlib
import PowerLift.Project.Source
import PowerLift.Proofs.GraphChanges
import PowerLift.Proofs.Naming
import PowerLift.Proofs.Search

/-!
The table that finds functions by address. It has one entry for each function, by address, in
whatever order the functions come, so a search by halves finds just the functions that there are.
-/

namespace PowerLift

namespace Source

variable {table : List (UInt32 × String)} {functions : List SourceFunction}

/-! ## Searches -/

/-- Halves the entries that are left, `size` of them from `base` on, until there is one: the last
that is not above the address. -/
def narrow (table : List (UInt32 × String)) (address : UInt32) (base size : Nat) : Nat :=
  if size ≤ 1 then base
  else if table[base + size / 2]?.any fun entry => address < entry.1 then
    narrow table address base (size - size / 2)
  else narrow table address (base + size / 2) (size - size / 2)
termination_by size

/-- What the look-up of the emitted code answers. -/
def lookup (table : List (UInt32 × String)) (address : UInt32) : Option String :=
  (table[narrow table address 0 table.length]?.filter fun entry => entry.1 == address).map (·.2)

/-- By address, and no address twice. -/
def Ascends (table : List (UInt32 × String)) : Prop :=
  table.Pairwise fun first second => first.1 < second.1

/-- The search asks for entries above the address where a search by key asks for those up to it, so
both go the same way. -/
theorem narrow_eq_search (address : UInt32) {base size : Nat}
    (inside : base + size ≤ table.length) :
    narrow table address base size =
      Search.narrow (fun entry => entry.1 ≤ address) table base size := by
  fun_induction narrow table address base size with
  | case1 base size single => rw [Search.narrow, if_pos single]
  | case2 base size many above ih =>
      have middle := List.getElem?_eq_getElem (show base + size / 2 < table.length by omega)
      rw [middle, Option.any_some, decide_eq_true_iff] at above
      rw [Search.narrow, if_neg many, if_neg, ih (by omega)]
      rw [middle, Option.any_some, decide_eq_true_iff]
      exact UInt32.not_le.mpr above
  | case3 base size many upTo ih =>
      have middle := List.getElem?_eq_getElem (show base + size / 2 < table.length by omega)
      rw [middle, Option.any_some, decide_eq_true_iff] at upTo
      rw [Search.narrow, if_neg many, if_pos, ih (by omega)]
      rw [middle, Option.any_some, decide_eq_true_iff]
      exact UInt32.not_lt.mp upTo

/-- The search finds an entry iff there is one. -/
theorem lookup_eq_some_iff (ascends : Ascends table) {address : UInt32} {name : String} :
    lookup table address = some name ↔ (address, name) ∈ table := by
  simp only [lookup, Option.map_eq_some_iff, Option.filter_eq_some_iff, beq_iff_eq]
  constructor
  · rintro ⟨entry, ⟨found, rfl⟩, rfl⟩
    exact List.mem_of_getElem? found
  · intro member
    obtain ⟨index, inside, here⟩ := List.getElem_of_mem member
    have found : table[index]? = some (address, name) :=
      List.getElem?_eq_some_iff.mpr ⟨inside, here⟩
    have same : narrow table address 0 table.length = index := by
      rw [narrow_eq_search address (Nat.zero_add _).le]
      exact Search.narrow_eq (show Search.Ascends Prod.fst table from ascends) found
    exact ⟨(address, name), ⟨same ▸ found, rfl⟩, rfl⟩

/-! ## Entries -/

/-- A function as it is listed. -/
def entryOf (function : SourceFunction) : UInt32 × String :=
  (function.address, function.name)

/-- The text of the file with a table. -/
def tableText (table : List (UInt32 × String)) : String :=
  header ++ "pub static PPC_FUNCTION_MAPPINGS: &[(u32, PpcFunction)] = &[\n" ++
    String.join (table.map entryLine) ++ "];\n\n" ++ lookupText

theorem mapping_eq (functions : List SourceFunction) :
    mapping functions = tableText (entries functions) :=
  rfl

theorem entries_perm (functions : List SourceFunction) :
    (entries functions).Perm (functions.map entryOf) :=
  List.mergeSort_perm _ _

theorem entries_sorted (functions : List SourceFunction) :
    (entries functions).Pairwise fun first second => first.1 ≤ second.1 := by
  refine (List.pairwise_mergeSort ?_ ?_ _).imp of_decide_eq_true
  · intro first second third low high
    exact decide_eq_true (UInt32.le_trans (of_decide_eq_true low) (of_decide_eq_true high))
  · intro first second
    simpa using UInt32.le_total first.1 second.1

theorem ascends_of_sorted (distinct : (functions.map (·.address)).Nodup)
    (listed : table.Perm (functions.map entryOf))
    (sorted : table.Pairwise fun first second => first.1 ≤ second.1) : Ascends table := by
  have addresses : (table.map Prod.fst).Nodup := by
    refine (listed.map Prod.fst).nodup_iff.mpr ?_
    rw [List.map_map]
    exact distinct
  refine (sorted.and (List.pairwise_map.mp addresses)).imp ?_
  rintro first second ⟨le, apart⟩
  exact UInt32.lt_of_le_of_ne le apart

/-- Where addresses are distinct, all ways to sort the entries lead to the same table. -/
theorem eq_entries (distinct : (functions.map (·.address)).Nodup)
    (listed : table.Perm (functions.map entryOf))
    (sorted : table.Pairwise fun first second => first.1 ≤ second.1) :
    table = entries functions := by
  refine (listed.trans (entries_perm functions).symm).eq_of_pairwise ?_
    (ascends_of_sorted distinct listed sorted)
    (ascends_of_sorted distinct (entries_perm functions) (entries_sorted functions))
  intro first second _ _ less greater
  exact absurd greater (UInt32.lt_asymm less)

theorem entries_of_perm {others : List SourceFunction}
    (distinct : (functions.map (·.address)).Nodup) (perm : others.Perm functions) :
    entries others = entries functions :=
  eq_entries distinct ((entries_perm others).trans (perm.map entryOf)) (entries_sorted others)

/-- A table that lists functions and can be searched by halves. -/
structure Lists (functions : List SourceFunction) (table : List (UInt32 × String)) : Prop where
  once : table.Perm (functions.map entryOf)
  ascends : Ascends table
  /-- No other order would do. -/
  only : ∀ other : List (UInt32 × String), other.Perm (functions.map entryOf) →
    (other.Pairwise fun first second => first.1 ≤ second.1) → other = table
  found : ∀ address name, lookup table address = some name ↔
    ∃ function ∈ functions, function.address = address ∧ function.name = name

theorem entries_lists (distinct : (functions.map (·.address)).Nodup) :
    Lists functions (entries functions) := by
  have ascends := ascends_of_sorted distinct (entries_perm functions) (entries_sorted functions)
  refine ⟨entries_perm functions, ascends, fun _ => eq_entries distinct, ?_⟩
  intro address name
  rw [lookup_eq_some_iff ascends, (entries_perm functions).mem_iff]
  simp only [List.mem_map, entryOf, Prod.mk.injEq]

end Source

/-! ## Emitted functions -/

theorem Graph.Ordered.sources_distinct {graph : Graph} (ordered : graph.Ordered)
    (program : Program) :
    (((program.emitAll graph).map EmittedFunction.toSource).map (·.address)).Nodup := by
  rw [List.map_map]
  exact (ordered.emitted_addresses program).nodup

namespace Source

def lateFunction : SourceFunction :=
  { address := 0x82000100, name := "sub_82000100", code := "" }

def earlyFunction : SourceFunction :=
  { address := 0x82000000, name := "start", code := "" }

end Source

end PowerLift
