import Mathlib
import PowerLift.Discovery.TableIdiom

/-!
The register that a recognised table dispatches on. Up to the scaling the idiom makes sure that the
register holds the index which was checked; what comes after the scaling may overwrite it.
-/

namespace PowerLift.TableIdiom

/-! ## Searching backwards -/

/-- The search for the last writer of a register goes past the instruction. -/
def Passes (register : Nat) (insn : Instruction) : Prop :=
  register ∉ insn.effects.writesGpr ∧ (insn.isBranch → insn.isConditional)

theorem writer?_eq_some_iff {register : Nat} {body before : List Instruction}
    {insn : Instruction} :
    writer? register body = some (insn, before) ↔
      register ∈ insn.effects.writesGpr ∧
        ∃ passed, body = passed ++ insn :: before ∧ ∀ other ∈ passed, Passes register other := by
  constructor
  · intro found
    induction body with
    | nil => cases found
    | cons head rest ih =>
        rw [writer?] at found
        split at found
        next writes =>
          cases found
          exact ⟨List.contains_iff_mem.mp writes, [], rfl, List.forall_mem_nil _⟩
        next spares =>
          split at found
          · cases found
          next goesOn =>
            obtain ⟨writes, passed, same, passes⟩ := ih found
            refine ⟨writes, head :: passed, by rw [same, List.cons_append], ?_⟩
            refine List.forall_mem_cons.mpr ⟨⟨?_, ?_⟩, passes⟩
            · simpa using spares
            · simpa using goesOn
  · intro ⟨writes, passed, same, passes⟩
    subst same
    induction passed with
    | nil => rw [List.nil_append, writer?, if_pos (List.contains_iff_mem.mpr writes)]
    | cons head rest ih =>
        obtain ⟨⟨spares, goesOn⟩, passes⟩ := List.forall_mem_cons.mp passes
        rw [List.cons_append, writer?, if_neg (by simpa using spares),
          if_neg (by simpa using goesOn)]
        exact ih passes

theorem ctr_mem_writes {insn : Instruction} (move : insn.opcode = .mtctr) :
    .ctr ∈ insn.effects.writes := by
  simp [Instruction.effects, Instruction.ownEffects, move, Effects.registers, List.mem_eraseDups]

theorem counterWriter?_eq_some_iff {body before : List Instruction} {insn : Instruction} :
    counterWriter? body = some (insn, before) ↔
      insn.opcode = .mtctr ∧
        ∃ passed, body = passed ++ insn :: before ∧
          ∀ other ∈ passed, .ctr ∉ other.effects.writes ∧ other.isBranch = false := by
  constructor
  · intro found
    induction body with
    | nil => cases found
    | cons head rest ih =>
        rw [counterWriter?] at found
        split at found
        · split at found
          next move =>
            cases found
            exact ⟨move, [], rfl, List.forall_mem_nil _⟩
          next => cases found
        next spares =>
          obtain ⟨move, passed, same, passes⟩ := ih found
          refine ⟨move, head :: passed, by rw [same, List.cons_append], ?_⟩
          refine List.forall_mem_cons.mpr ⟨?_, passes⟩
          simpa using spares
  · intro ⟨move, passed, same, passes⟩
    subst same
    induction passed with
    | nil =>
        rw [List.nil_append, counterWriter?,
          if_pos (by simpa using Or.inl (ctr_mem_writes move)), if_pos move]
    | cons head rest ih =>
        obtain ⟨spares, passes⟩ := List.forall_mem_cons.mp passes
        rw [List.cons_append, counterWriter?, if_neg (by simpa using spares)]
        exact ih passes

theorem scaledIndex?_eq_some {operand index : Nat} {body before : List Instruction}
    (found : scaledIndex? operand body = some (index, before)) :
    ∃ passed scale, body = passed ++ scale :: before ∧ isWordScale scale ∧ scale.rs = index := by
  simp only [scaledIndex?, Option.bind_eq_bind, Option.bind_eq_some_iff] at found
  obtain ⟨⟨scale, rest⟩, written, scaled⟩ := found
  obtain ⟨_, passed, same, _⟩ := writer?_eq_some_iff.mp written
  split at scaled
  next multiplies =>
    cases scaled
    exact ⟨passed, scale, same, multiplies, rfl⟩
  next => cases scaled

/-! ## The index -/

/-- A bound check of the register, after which nothing writes it. -/
def KeepsIndex (window : List Instruction) (register : Nat) : Prop :=
  ∃ before check after, window = before ++ check :: after ∧ isBoundCheck register check ∧
    ∀ insn ∈ after, register ∉ insn.effects.writesGpr

theorem keepsIndex_append {first second : List Instruction} {register : Nat} :
    KeepsIndex (first ++ second) register ↔
      (KeepsIndex first register ∧ ∀ insn ∈ second, register ∉ insn.effects.writesGpr) ∨
        KeepsIndex second register := by
  constructor
  · rintro ⟨before, check, after, same, checks, kept⟩
    rcases List.append_eq_append_iff.mp same with ⟨gap, _, later⟩ | ⟨gap, earlier, later⟩
    · exact Or.inr ⟨gap, check, after, later, checks, kept⟩
    · -- The check is the first of what is left of `first`, if anything is left.
      cases gap with
      | nil => exact Or.inr ⟨[], check, after, later.symm, checks, kept⟩
      | cons head tail =>
          obtain ⟨rfl, rfl⟩ := List.cons_eq_cons.mp later
          refine Or.inl ⟨⟨before, check, tail, earlier, checks, ?_⟩, ?_⟩
          · intro insn member
            exact kept insn (List.mem_append_left _ member)
          · intro insn member
            exact kept insn (List.mem_append_right _ member)
  · rintro (⟨⟨before, check, after, rfl, checks, kept⟩, untouched⟩ |
      ⟨before, check, after, rfl, checks, kept⟩)
    · refine ⟨before, check, after ++ second, by simp, checks, ?_⟩
      intro insn member
      exact (List.mem_append.mp member).elim (kept insn) (untouched insn)
    · exact ⟨first ++ before, check, after, by simp, checks, kept⟩

theorem keepsIndex_cons {insn : Instruction} {rest : List Instruction} {register : Nat}
    (other : isBoundCheck register insn = false) :
    KeepsIndex (insn :: rest) register ↔ KeepsIndex rest register := by
  constructor
  · rintro ⟨before, check, after, same, checks, kept⟩
    cases before with
    | nil =>
        obtain ⟨rfl, _⟩ := List.cons_eq_cons.mp same
        rw [other] at checks
        cases checks
    | cons head tail =>
        exact ⟨tail, check, after, (List.cons_eq_cons.mp same).2, checks, kept⟩
  · rintro ⟨before, check, after, rfl, checks, kept⟩
    exact ⟨insn :: before, check, after, rfl, checks, kept⟩

/-- The nearest bound check of the index counts the cases, if nothing after it writes the index. -/
theorem caseCount?_eq_some_iff {index count : Nat} {body : List Instruction} :
    caseCount? index body = some count ↔
      ∃ later check earlier, body = later ++ check :: earlier ∧ isBoundCheck index check ∧
        (∀ insn ∈ later, isBoundCheck index insn = false ∧ index ∉ insn.effects.writesGpr) ∧
        count = if later.any (branchesIfNotLess check.crfd) then check.uimm
          else check.uimm + 1 := by
  have taken {later earlier : List Instruction} {check : Instruction}
      (checks : isBoundCheck index check)
      (others : ∀ insn ∈ later, isBoundCheck index insn = false) :
      (later ++ check :: earlier).takeWhile (fun insn => !isBoundCheck index insn) = later := by
    rw [List.takeWhile_append_of_pos (by simpa using others),
      List.takeWhile_cons_of_neg (by simp [checks]), List.append_nil]
  simp only [caseCount?, Option.bind_eq_bind, Option.bind_eq_some_iff,
    List.find?_eq_some_iff_append]
  constructor
  · intro ⟨check, ⟨checks, later, earlier, same, others⟩, counted⟩
    subst same
    have others : ∀ insn ∈ later, isBoundCheck index insn = false := by simpa using others
    rw [taken checks others] at counted
    split at counted
    next => cases counted
    next untouched =>
      refine ⟨later, check, earlier, rfl, checks, ?_, ?_⟩
      · intro insn member
        refine ⟨others insn member, ?_⟩
        simp only [List.any_eq_true, List.contains_iff_mem, not_exists, not_and] at untouched
        exact untouched insn member
      · split at counted <;> simp_all
  · intro ⟨later, check, earlier, same, checks, others, counted⟩
    subst same
    have uncheckedLater := fun insn member => (others insn member).1
    refine ⟨check, ⟨checks, later, earlier, rfl, by simpa using uncheckedLater⟩, ?_⟩
    rw [taken checks uncheckedLater, if_neg]
    · rw [counted]
      split <;> rfl
    · simp only [List.any_eq_true, List.contains_iff_mem, not_exists, not_and]
      exact fun insn member => (others insn member).2

theorem caseCount?_keepsIndex {index count : Nat} {body : List Instruction}
    (counted : caseCount? index body = some count) : KeepsIndex body.reverse index := by
  obtain ⟨later, check, earlier, same, checks, others, _⟩ := caseCount?_eq_some_iff.mp counted
  refine ⟨earlier.reverse, check, later.reverse, by simp [same], checks, ?_⟩
  intro insn member
  exact (others insn (List.mem_reverse.mp member)).2

/-! ## The table -/

theorem dispatch?_eq_some {body : List Instruction} {base : UInt32} {index count : Nat}
    (found : dispatch? body = some (base, index, count)) :
    ∃ rest scale before, body = rest ++ scale :: before ∧ isWordScale scale ∧
      scale.rs = index ∧ KeepsIndex before.reverse index := by
  simp only [dispatch?, Option.bind_eq_bind, Option.bind_eq_some_iff] at found
  obtain ⟨⟨move, beforeMove⟩, moved, ⟨load, beforeLoad⟩, loaded, found⟩ := found
  obtain ⟨_, afterMove, moveSplit, _⟩ := counterWriter?_eq_some_iff.mp moved
  have loaded : writer? move.rd beforeMove = some (load, beforeLoad) := loaded
  obtain ⟨_, afterLoad, loadSplit, _⟩ := writer?_eq_some_iff.mp loaded
  split at found
  next =>
    -- Either operand of the load may be the scaled one.
    obtain ⟨operand, before, scaled, counted⟩ : ∃ operand before,
        scaledIndex? operand beforeLoad = some (index, before) ∧
          caseCount? index before = some count := by
      split at found
      next register before scaled =>
        simp only [Option.bind_some, Option.bind_eq_some_iff] at found
        obtain ⟨_, _, _, counted, same⟩ := found
        cases same
        exact ⟨_, before, scaled, counted⟩
      next =>
        simp only [Option.bind_eq_some_iff, Option.map_eq_some_iff] at found
        obtain ⟨_, ⟨⟨register, before⟩, scaled, rfl⟩, _, _, _, counted, same⟩ := found
        cases same
        exact ⟨_, before, scaled, counted⟩
    obtain ⟨passed, scale, scaleSplit, multiplies, source⟩ := scaledIndex?_eq_some scaled
    refine ⟨afterMove ++ move :: (afterLoad ++ load :: passed), scale, before, ?_, multiplies,
      source, caseCount?_keepsIndex counted⟩
    rw [moveSplit, loadSplit, scaleSplit]
    simp
  next => cases found

theorem isBoundCheck_of_isWordScale {insn : Instruction} (scales : isWordScale insn)
    (register : Nat) : isBoundCheck register insn = false := by
  simp only [isWordScale, Bool.and_eq_true, beq_iff_eq] at scales
  simp [isBoundCheck, scales.1.1.1]

theorem recognize?_dispatch {image : Image} {window : List Instruction} {table : JumpTable}
    (found : recognize? image window = some table) :
    ∃ branch body base count, window.reverse = branch :: body ∧
      dispatch? body = some (base, table.register, count) ∧ table.address = branch.address ∧
      table.source = .recognized := by
  unfold recognize? at found
  cases order : window.reverse with
  | nil => simp [order] at found
  | cons branch body =>
      simp only [order] at found
      split at found
      next =>
        simp only [Option.bind_eq_bind, Option.bind_eq_some_iff] at found
        obtain ⟨⟨base, register, count⟩, dispatched, found⟩ := found
        split at found
        next => cases found
        next =>
          simp only [Option.bind_eq_some_iff] at found
          obtain ⟨targets, _, found⟩ := found
          split at found
          next =>
            cases found
            exact ⟨branch, body, base, count, rfl, dispatched, rfl, rfl⟩
          next => cases found
      next => cases found

/-- A recognised table finds its index in place just if nothing writes the register from the scaling
on, or if the register is checked anew after that. -/
theorem recognize?_keepsIndex_iff {image : Image} {window : List Instruction} {table : JumpTable}
    (found : recognize? image window = some table) :
    ∃ setup scale rest, window = setup ++ scale :: rest ∧ isWordScale scale ∧
      scale.rs = table.register ∧ KeepsIndex setup table.register ∧
      (KeepsIndex window table.register ↔
        (∀ insn ∈ scale :: rest, table.register ∉ insn.effects.writesGpr) ∨
          KeepsIndex rest table.register) := by
  obtain ⟨branch, body, base, count, order, dispatched, _⟩ := recognize?_dispatch found
  obtain ⟨after, scale, before, bodySplit, scales, source, kept⟩ := dispatch?_eq_some dispatched
  have split : window = before.reverse ++ scale :: (after.reverse ++ [branch]) := by
    rw [← List.reverse_reverse window, order, bodySplit]
    simp
  refine ⟨before.reverse, scale, after.reverse ++ [branch], split, scales, source, kept, ?_⟩
  rw [split, keepsIndex_append, keepsIndex_cons (isBoundCheck_of_isWordScale scales _)]
  simp only [kept, true_and]

/-! A window that scales the index in place, before a table of two cases. -/

def scaledInPlaceImage : Image :=
  Image.ofCode 0x10000 #[0x28, 0x03, 0x00, 0x01, 0x3C, 0x80, 0x00, 0x01, 0x38, 0x84, 0x00, 0x1C,
    0x54, 0x63, 0x10, 0x3A, 0x7C, 0x04, 0x18, 0x2E, 0x7C, 0x09, 0x03, 0xA6, 0x4E, 0x80, 0x04, 0x20,
    0x00, 0x01, 0x00, 0x00, 0x00, 0x01, 0x00, 0x00]

def scaledInPlace : List Instruction :=
  [.decode 0x10000 0x28030001, .decode 0x10004 0x3C800001, .decode 0x10008 0x3884001C,
    .decode 0x1000C 0x5463103A, .decode 0x10010 0x7C04182E, .decode 0x10014 0x7C0903A6,
    .decode 0x10018 0x4E800420]

/-- The table is recognised, and dispatches on a register that no longer holds the index. -/
theorem recognize?_scaledInPlace :
    recognize? scaledInPlaceImage scaledInPlace =
        some { address := 0x10018, base := some 0x1001C, register := 3,
               targets := [0x10000, 0x10000], source := .recognized } ∧
      ¬ KeepsIndex scaledInPlace 3 := by
  have found : recognize? scaledInPlaceImage scaledInPlace =
      some { address := 0x10018, base := some 0x1001C, register := 3,
             targets := [0x10000, 0x10000], source := .recognized } := by decide +kernel
  refine ⟨found, ?_⟩
  obtain ⟨setup, scale, rest, split, scales, _, _, kept⟩ := recognize?_keepsIndex_iff found
  have overwrites : ∀ insn ∈ scaledInPlace, isWordScale insn → 3 ∈ insn.effects.writesGpr := by
    decide +kernel
  have unchecked : ∀ insn ∈ scaledInPlace.tail, isBoundCheck 3 insn = false := by decide +kernel
  have after : rest ⊆ scaledInPlace.tail := by
    rw [split]
    cases setup with
    | nil => exact fun _ member => member
    | cons => exact fun _ member => List.mem_append_right _ (List.mem_cons_of_mem _ member)
  intro keeps
  rcases kept.mp keeps with untouched | ⟨before, check, later, rfl, checks, _⟩
  · refine untouched scale List.mem_cons_self (overwrites scale ?_ scales)
    rw [split]
    exact List.mem_append_right _ List.mem_cons_self
  · rw [unchecked check (after (List.mem_append_right _ List.mem_cons_self))] at checks
    cases checks

end PowerLift.TableIdiom
