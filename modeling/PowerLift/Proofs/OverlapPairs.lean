import Mathlib
import PowerLift.Proofs.GraphChanges

/-!
Which functions of a graph overlap. Going through the functions once, with those that are still
open, gives the same pairs in the same order as comparing each function with every other one.
-/

namespace PowerLift

namespace Graph

/-- The functions that begin before another one and end after it begins, each with that one. -/
def overlapsWith (nodes : List FunctionNode) (second : FunctionNode) : List (UInt32 × UInt32) :=
  (nodes.filter fun first => first.address < second.address ∧ second.address < first.stop).map
    fun first => (first.address, second.address)

/-- Every function that is no chunk compared with every other. -/
def overlapPairs (graph : Graph) : List (UInt32 × UInt32) :=
  let whole := graph.nodes.filter (!·.isChunk)
  whole.flatMap (overlapsWith whole)

/-! ## One pass -/

/-- Of the functions gone through, those that reach into one still to come are all pending. -/
def Awaits (pending before rest : List FunctionNode) : Prop :=
  ∀ node ∈ rest, (pending.filter fun earlier => earlier.stop > node.address) =
    before.filter fun earlier => earlier.stop > node.address

/-- A function that is dropped ends before the current one begins, so it overlaps no later one. -/
theorem Awaits.step {pending before rest : List FunctionNode} {node : FunctionNode}
    (awaits : Awaits pending before (node :: rest))
    (above : ∀ later ∈ rest, node.address < later.address) :
    Awaits ((pending.filter fun earlier => earlier.stop > node.address) ++ [node])
      (before ++ [node]) rest := by
  intro later member
  have dropped : ((pending.filter fun earlier => earlier.stop > node.address).filter
      fun earlier => earlier.stop > later.address) =
        pending.filter fun earlier => earlier.stop > later.address := by
    rw [List.filter_filter]
    apply List.filter_congr
    intro earlier _
    have past : earlier.stop > later.address → earlier.stop > node.address :=
      UInt32.lt_trans (above later member)
    simpa using past
  rw [List.filter_append, dropped, awaits later (List.mem_cons_of_mem _ member),
    List.filter_append]

/-- Of functions by address, those before one are the ones that can reach into it. -/
theorem overlapsWith_append {before rest : List FunctionNode} {node : FunctionNode}
    (below : ∀ earlier ∈ before, earlier.address < node.address)
    (above : ∀ later ∈ rest, node.address < later.address) :
    overlapsWith (before ++ node :: rest) node =
      (before.filter fun earlier => earlier.stop > node.address).map
        fun earlier => (earlier.address, node.address) := by
  have first : (before.filter fun earlier => earlier.address < node.address ∧
      node.address < earlier.stop) = before.filter fun earlier => earlier.stop > node.address := by
    apply List.filter_congr
    intro earlier member
    simp [below earlier member]
  have none : ((node :: rest).filter fun later => later.address < node.address ∧
      node.address < later.stop) = [] := by
    apply List.filter_eq_nil_iff.mpr
    intro later member
    rcases List.mem_cons.mp member with rfl | after
    · simp
    · simp [UInt32.lt_asymm (above later after)]
  rw [overlapsWith, List.filter_append, first, none, List.append_nil]

theorem overlapsFrom_eq {pending before rest : List FunctionNode}
    (ordered : (before ++ rest).Pairwise fun first second => first.address < second.address)
    (awaits : Awaits pending before rest) :
    overlapsFrom pending rest = rest.flatMap (overlapsWith (before ++ rest)) := by
  induction rest generalizing pending before with
  | nil => rfl
  | cons node rest ih =>
      obtain ⟨_, restOrdered, between⟩ := List.pairwise_append.mp ordered
      obtain ⟨above, _⟩ := List.pairwise_cons.mp restOrdered
      have below : ∀ earlier ∈ before, earlier.address < node.address := fun earlier member =>
        between earlier member node List.mem_cons_self
      have onward : before ++ node :: rest = before ++ [node] ++ rest := by simp
      have later := ih (onward ▸ ordered) (awaits.step above)
      rw [overlapsFrom, later, awaits node List.mem_cons_self, List.flatMap_cons,
        overlapsWith_append below above, onward]

/-! ## All pairs -/

section

variable {graph : Graph}

theorem Ordered.whole (ordered : graph.Ordered) :
    (graph.nodes.filter (!·.isChunk)).Pairwise
      fun first second => first.address < second.address :=
  (List.pairwise_map.mp ordered).filter _

theorem Ordered.overlaps_eq (ordered : graph.Ordered) : graph.overlaps = graph.overlapPairs :=
  overlapsFrom_eq ordered.whole fun _ _ => rfl

theorem mem_overlapsWith {nodes : List FunctionNode} {other : FunctionNode}
    {pair : UInt32 × UInt32} :
    pair ∈ overlapsWith nodes other ↔
      pair.2 = other.address ∧ ∃ one ∈ nodes, one.address = pair.1 ∧
        one.address < other.address ∧ other.address < one.stop := by
  simp only [overlapsWith, List.mem_map, List.mem_filter, decide_eq_true_eq, Prod.ext_iff]
  constructor
  · rintro ⟨one, ⟨member, before, reaches⟩, first, second⟩
    exact ⟨second.symm, one, member, first, before, reaches⟩
  · rintro ⟨second, one, member, first, before, reaches⟩
    exact ⟨one, ⟨member, before, reaches⟩, first, second.symm⟩

theorem mem_overlapPairs {pair : UInt32 × UInt32} :
    pair ∈ graph.overlapPairs ↔
      ∃ one ∈ graph.nodes, ∃ other ∈ graph.nodes, one.isChunk = false ∧ other.isChunk = false ∧
        pair = (one.address, other.address) ∧ one.address < other.address ∧
          other.address < one.stop := by
  simp only [overlapPairs, List.mem_flatMap, mem_overlapsWith, List.mem_filter,
    Bool.not_eq_true', Prod.ext_iff]
  constructor
  · rintro ⟨other, ⟨otherMember, otherWhole⟩, second, one, ⟨member, whole⟩, first, overlap⟩
    exact ⟨one, member, other, otherMember, whole, otherWhole, ⟨first.symm, second⟩, overlap⟩
  · rintro ⟨one, member, other, otherMember, whole, otherWhole, ⟨first, second⟩, overlap⟩
    exact ⟨other, ⟨otherMember, otherWhole⟩, second, one, ⟨member, whole⟩, first.symm, overlap⟩

/-- By the second function, and by the first for each second one. -/
theorem Ordered.overlapPairs_sorted (ordered : graph.Ordered) :
    graph.overlapPairs.Pairwise fun one other =>
      one.2 < other.2 ∨ one.2 = other.2 ∧ one.1 < other.1 := by
  refine List.pairwise_flatMap.mpr ⟨?_, ?_⟩
  · intro second _
    refine List.pairwise_map.mpr ((ordered.whole.filter _).imp ?_)
    intro one other before
    exact Or.inr ⟨rfl, before⟩
  · refine ordered.whole.imp ?_
    intro second later before one among other laterAmong
    rw [(mem_overlapsWith.mp among).1, (mem_overlapsWith.mp laterAmong).1]
    exact Or.inl before

end

end Graph

namespace Change

/-- After any changes, the reported pairs are those that comparing all functions gives: a function
with one that begins after it and before its end, chunks left out. They come by the second address
and then by the first, each once. -/
theorem performAll_overlaps (changes : List Change) :
    let graph := performAll .empty changes
    graph.overlaps = graph.overlapPairs ∧
      (∀ first second, (first, second) ∈ graph.overlaps ↔
        ∃ one other, graph.function? first = some one ∧ graph.function? second = some other ∧
          one.isChunk = false ∧ other.isChunk = false ∧ first < second ∧ second < one.stop) ∧
      graph.overlaps.Pairwise fun one other =>
        one.2 < other.2 ∨ one.2 = other.2 ∧ one.1 < other.1 := by
  intro graph
  have ordered : graph.Ordered := (performAll_empty_wellFormed changes).ordered
  rw [ordered.overlaps_eq]
  refine ⟨rfl, ?_, ordered.overlapPairs_sorted⟩
  intro first second
  rw [Graph.mem_overlapPairs]
  constructor
  · rintro ⟨one, member, other, otherMember, whole, otherWhole, same, overlap⟩
    obtain ⟨rfl, rfl⟩ := Prod.ext_iff.mp same
    exact ⟨one, other, ordered.function?_of_mem member, ordered.function?_of_mem otherMember,
      whole, otherWhole, overlap⟩
  · rintro ⟨one, other, found, otherFound, whole, otherWhole, overlap⟩
    obtain ⟨member, rfl⟩ := Graph.of_function? found
    obtain ⟨otherMember, rfl⟩ := Graph.of_function? otherFound
    exact ⟨one, member, other, otherMember, whole, otherWhole, rfl, overlap⟩

end Change

end PowerLift
