import Mathlib
import PowerLift.Proofs.RegisterRange
import PowerLift.Proofs.SavedContext

/-!
The locals of emitted functions. Code asks for registers in any order and as often as it needs them.
Each one that may live in a local is declared once, ahead of the loop, and no other.
-/

namespace PowerLift

/-! ## Names of registers -/

namespace Register

/-- The place of a register in the declarations: that of its class, and its number there. -/
def rank : Register → Nat × Nat
  | .gpr number => (0, number)
  | .fpr number => (1, number)
  | .vr number => (2, number)
  | .cr field => (3, field)
  | .ctr => (4, 0)
  | .xer => (5, 0)
  | .reserved => (6, 0)
  | _ => (7, 0)

/-- By class, and within a class by number. -/
def Before (first second : Register) : Prop :=
  first.rank.1 < second.rank.1 ∨
    first.rank.1 = second.rank.1 ∧ first.rank.2 < second.rank.2

instance Before.decidable (first second : Register) : Decidable (first.Before second) :=
  inferInstanceAs (Decidable (_ ∨ _))

theorem not_before (register : Register) : ¬ register.Before register := by
  simp [Before]

theorem Before.trans {first second third : Register} (one : first.Before second)
    (other : second.Before third) : first.Before third := by
  unfold Before at *
  omega

/-- Each promotable register stands before the next one, and so before all later ones. -/
theorem promotable_sorted : promotable.Pairwise Before := by
  have transitive : IsTrans Register Before := ⟨fun _ _ _ => Before.trans⟩
  rw [← List.isChain_iff_pairwise]
  decide +kernel

theorem mem_promotable {register : Register} :
    register ∈ promotable ↔ register.InRange ∧ register.class?.isSome := by
  cases register <;> simp [promotable, InRange, class?]

/-- The name of a local is read back as its register, and has no dot. -/
theorem localName_readable : ∀ register ∈ promotable,
    parseRegister register.localName = some register ∧ '.' ∉ register.localName.toList := by
  decide +kernel

theorem localName_inj {first second : Register} (one : first ∈ promotable)
    (other : second ∈ promotable) (same : first.localName = second.localName) :
    first = second := by
  have read := (localName_readable first one).1
  rw [same, (localName_readable second other).1] at read
  exact (Option.some.inj read).symm

theorem dot_mem_contextName (register : Register) : '.' ∈ register.contextName.toList := by
  cases register with
  | gpr | fpr | vr | cr =>
      simp only [contextName, String.toList_append, List.mem_append]
      exact Or.inl (Or.inl (by decide))
  | _ => decide

theorem localName_ne_contextName (register : Register) :
    register.localName ≠ register.contextName := by
  intro same
  have start := congrArg (fun name => name.toList.take 3) same
  cases register with
  | gpr | fpr | vr | cr => simp [localName, contextName, toString] at start
  | _ => exact absurd start (by decide)

/-- The machine has eight condition fields. -/
def FieldExists (register : Register) : Prop :=
  ∀ field, register = .cr field → field < 8

end Register

/-- The name of a local, and not of a slot in the context. -/
def IsLocalName (name : String) : Prop :=
  ∃ register ∈ Register.promotable, name = register.localName

theorem Register.not_isLocalName_contextName (register : Register) :
    ¬ IsLocalName register.contextName := by
  rintro ⟨other, member, same⟩
  exact (localName_readable other member).2 (same ▸ dot_mem_contextName register)

namespace LocalPolicy

variable {policy : LocalPolicy} {register : Register}

/-- Of all numbers only those of condition fields are not checked when a register is made a
local. -/
theorem promotable_of_isLocal (exist : register.FieldExists)
    (kept : policy.isLocal register) : register ∈ Register.promotable := by
  rw [Register.mem_promotable]
  unfold Register.FieldExists at exist
  cases register <;>
    simp [isLocal, Register.InRange, Register.class?] at kept exist ⊢ <;> grind

theorem isLocalName_place (exist : register.FieldExists) :
    IsLocalName (policy.place register) ↔ policy.isLocal register := by
  rw [place]
  split
  next kept => exact iff_of_true ⟨register, promotable_of_isLocal exist kept, rfl⟩ kept
  next kept => exact iff_of_false register.not_isLocalName_contextName kept

theorem place_eq_localName :
    policy.place register = register.localName ↔ policy.isLocal register := by
  rw [place]
  split
  next kept => exact iff_of_true rfl kept
  next kept => exact iff_of_false register.localName_ne_contextName.symm kept

end LocalPolicy

/-! ## Requests -/

namespace Allocation

/-- The names that requests are answered with, one after the other. -/
def answers (allocation : Allocation) : List Register → List String
  | [] => []
  | register :: rest => allocation.place register :: (allocation.request register).answers rest

@[simp] theorem policy_request (allocation : Allocation) (register : Register) :
    (allocation.request register).policy = allocation.policy := by
  unfold request
  split <;> rfl

theorem mem_locals_request {allocation : Allocation} {register other : Register} :
    other ∈ (allocation.request register).locals ↔
      other ∈ allocation.locals ∨ other = register ∧ allocation.policy.isLocal register := by
  unfold request
  split <;> grind

theorem answers_eq (allocation : Allocation) (requests : List Register) :
    allocation.answers requests = requests.map allocation.policy.place := by
  induction requests generalizing allocation with
  | nil => rfl
  | cons register rest ih => simp [answers, ih, place]

theorem mem_locals_requestAll {allocation : Allocation} {requests : List Register}
    {register : Register} :
    register ∈ (allocation.requestAll requests).locals ↔
      register ∈ allocation.locals ∨
        register ∈ requests ∧ allocation.policy.isLocal register := by
  induction requests generalizing allocation with
  | nil => simp [requestAll]
  | cons first rest ih =>
      have step : allocation.requestAll (first :: rest) =
          (allocation.request first).requestAll rest := rfl
      rw [step, ih, mem_locals_request, policy_request]
      grind

variable {policy : LocalPolicy} {requests : List Register}

theorem mem_locals {register : Register} :
    register ∈ (({ policy } : Allocation).requestAll requests).locals ↔
      register ∈ requests ∧ policy.isLocal register := by
  simp [mem_locals_requestAll]

theorem mem_declared {register : Register} :
    register ∈ (({ policy } : Allocation).requestAll requests).declared ↔
      register ∈ Register.promotable ∧ register ∈ requests ∧ policy.isLocal register := by
  simp [declared, mem_locals]

/-- What an allocation has to show for requests that were answered with names. -/
structure Accounts (allocation : Allocation) (requests : List Register) (names : List String) :
    Prop where
  answered : names.length = requests.length
  /-- Each answer is the slot in the context or the local. -/
  either : ∀ answer ∈ requests.zip names,
    answer.2 = answer.1.contextName ∨ answer.2 = answer.1.localName
  constant : ∀ first ∈ requests.zip names, ∀ second ∈ requests.zip names,
    first.1 = second.1 → first.2 = second.2
  /-- Locals are loaded from their slots. -/
  loaded : allocation.declarations = allocation.declared.map fun register =>
    s!"let mut {register.localName}: {register.typeName} = {register.contextName};"
  sorted : allocation.declared.Pairwise Register.Before
  once : (allocation.declared.map Register.localName).Nodup
  complete : ∀ name, name ∈ allocation.declared.map Register.localName ↔
    name ∈ names ∧ IsLocalName name
  classes : ∀ kind, allocation.usesLocals kind ↔
    ∃ answer ∈ requests.zip names, answer.1.class? = some kind ∧ answer.2 = answer.1.localName

theorem mem_zip_place {answer : Register × String} :
    answer ∈ requests.zip (requests.map policy.place) ↔
      answer.1 ∈ requests ∧ answer.2 = policy.place answer.1 := by
  rw [← List.map_prod_left_eq_zip, List.mem_map]
  grind

theorem requestAll_accounts (exist : ∀ register ∈ requests, register.FieldExists) :
    (({ policy } : Allocation).requestAll requests).Accounts requests
      (({ policy } : Allocation).answers requests) := by
  have sorted : (({ policy } : Allocation).requestAll requests).declared.Pairwise
      Register.Before :=
    Register.promotable_sorted.sublist List.filter_sublist
  rw [answers_eq]
  constructor
  case answered => exact List.length_map _
  case either =>
    intro answer member
    rw [(mem_zip_place.mp member).2, LocalPolicy.place]
    split
    · exact Or.inr rfl
    · exact Or.inl rfl
  case constant =>
    intro first one second other same
    rw [(mem_zip_place.mp one).2, (mem_zip_place.mp other).2, same]
  case loaded => rfl
  case sorted => exact sorted
  case once =>
    -- Registers are distinct by their order, and names because each is read back as its register.
    have distinct : (({ policy } : Allocation).requestAll requests).declared.Nodup := by
      refine sorted.imp ?_
      rintro register _ before rfl
      exact Register.not_before register before
    refine distinct.map_on ?_
    intro first one second other same
    exact Register.localName_inj (mem_declared.mp one).1 (mem_declared.mp other).1 same
  case complete =>
    intro name
    simp only [List.mem_map, mem_declared]
    constructor
    · rintro ⟨register, ⟨member, asked, kept⟩, rfl⟩
      exact ⟨⟨register, asked, if_pos kept⟩, register, member, rfl⟩
    · rintro ⟨⟨register, asked, rfl⟩, isLocal⟩
      have kept := (LocalPolicy.isLocalName_place (exist register asked)).mp isLocal
      exact ⟨register, ⟨LocalPolicy.promotable_of_isLocal (exist register asked) kept, asked, kept⟩,
        (if_pos kept).symm⟩
  case classes =>
    intro kind
    simp only [usesLocals, List.any_eq_true, beq_iff_eq, mem_locals]
    constructor
    · rintro ⟨register, ⟨asked, kept⟩, same⟩
      exact ⟨(register, policy.place register), mem_zip_place.mpr ⟨asked, rfl⟩, same,
        if_pos kept⟩
    · rintro ⟨answer, member, same, bare⟩
      obtain ⟨asked, named⟩ := mem_zip_place.mp member
      exact ⟨answer.1, ⟨asked, LocalPolicy.place_eq_localName.mp (named.symm.trans bare)⟩, same⟩

theorem not_isLocalName_answers_contextOnly {name : String}
    (answered : name ∈ ({ policy := .contextOnly } : Allocation).answers requests) :
    ¬ IsLocalName name := by
  rw [answers_eq] at answered
  obtain ⟨register, _, rfl⟩ := List.mem_map.mp answered
  simpa [LocalPolicy.place] using register.not_isLocalName_contextName

end Allocation

/-! ## Text -/

theorem Expr.text_congr {policy other : LocalPolicy} {expr : Expr}
    (same : ∀ register ∈ expr.registers, policy.place register = other.place register) :
    expr.text policy = expr.text other := by
  induction expr with
  | reg register => exact same register (List.mem_singleton_self register)
  | var | lit | nothing => rfl
  | paren _ ih | cast _ _ ih | unary _ _ ih | member _ _ ih =>
      simp only [text, ih same]
  | binary _ _ _ left right | method _ _ _ left right | comma _ _ left right =>
      simp only [registers, List.forall_mem_append] at same
      simp only [text, left same.1, right same.2]
  | call _ _ ih => simp only [text, ih same]
  | choice _ _ _ condition yes no =>
      simp only [registers, List.forall_mem_append] at same
      simp only [text, condition same.1.1, yes same.1.2, no same.2]

theorem Action.line_congr {policy other : LocalPolicy} {action : Action}
    (same : ∀ register ∈ action.registers, policy.place register = other.place register) :
    action.line policy = action.line other := by
  cases action with
  | declare | perform => simp only [line, Expr.text_congr same]
  | assign =>
      simp only [registers, List.forall_mem_append] at same
      simp only [line, Expr.text_congr same.1, Expr.text_congr same.2]

theorem Exit.lines_congr {policy other : LocalPolicy} {exit : Exit}
    (same : ∀ register ∈ exit.registers, policy.place register = other.place register) :
    exit.lines policy = exit.lines other := by
  cases exit with
  | goto | ret => rfl
  | redirect | leave => simp only [lines, Expr.text_congr same]

theorem Exit.inlined_congr {policy other : LocalPolicy} {exit : Exit}
    (same : ∀ register ∈ exit.registers, policy.place register = other.place register) :
    exit.inlined policy = exit.inlined other := by
  rw [inlined, inlined, lines_congr same]

theorem HookCall.lines_congr {policy other : LocalPolicy} {hook : HookCall}
    (same : ∀ register ∈ hook.registers, policy.place register = other.place register) :
    hook.lines policy = hook.lines other := by
  simp only [registers, List.forall_mem_append, List.forall_mem_map] at same
  have call : hook.call.text policy = hook.call.text other :=
    Expr.text_congr (by simp [HookCall.call, Expr.invoke, Expr.registers])
  have exits : hook.exits.flatMap (exitLines policy) = hook.exits.flatMap (exitLines other) := by
    refine List.flatMap_congr fun exit member => ?_
    have lines : exit.2.lines policy = exit.2.lines other :=
      Exit.lines_congr fun register own =>
        same.2 register (List.mem_flatMap.mpr ⟨exit, member, own⟩)
    obtain ⟨result, exit⟩ := exit
    rcases result with _ | _ | _ <;> simp only [exitLines, Exit.inlined, lines]
  have loads : hook.captures.map (fun capture =>
        s!"let mut {copyName capture.1} = {policy.place capture.2};") =
      hook.captures.map fun capture =>
        s!"let mut {copyName capture.1} = {other.place capture.2};" :=
    List.map_congr_left fun capture member => by rw [same.1 capture member]
  have stores : hook.captures.map (fun capture =>
        s!"{policy.place capture.2} = {copyName capture.1};") =
      hook.captures.map fun capture => s!"{other.place capture.2} = {copyName capture.1};" :=
    List.map_congr_left fun capture member => by rw [same.1 capture member]
  simp only [HookCall.lines, call, exits, loads, stores]

theorem Stmt.lines_congr {policy other : LocalPolicy} {stmt : Stmt}
    (same : ∀ register ∈ stmt.registers, policy.place register = other.place register) :
    stmt.lines policy = stmt.lines other := by
  cases stmt with
  | comment => rfl
  | act => exact congrArg (fun line => [line]) (Action.line_congr same)
  | transfer => exact Exit.lines_congr same
  | guard condition actions exit =>
      simp only [registers, List.forall_mem_append] at same
      obtain ⟨⟨tested, done⟩, left⟩ := same
      have lines : actions.map (Action.line policy) = actions.map (Action.line other) :=
        List.map_congr_left fun action member => Action.line_congr fun register own =>
          done register (List.mem_flatMap.mpr ⟨action, member, own⟩)
      have exits : exit.toList.flatMap (Exit.lines policy) =
          exit.toList.flatMap (Exit.lines other) :=
        List.flatMap_congr fun way member => Exit.lines_congr fun register own =>
          left register (List.mem_flatMap.mpr ⟨way, member, own⟩)
      simp only [Stmt.lines, Expr.text_congr tested, lines, exits]
  | switch condition index cases otherwise =>
      simp only [registers, List.forall_mem_append] at same
      obtain ⟨⟨⟨tested, indexed⟩, chosen⟩, rest⟩ := same
      have arms : ∀ choice ∈ cases.zipIdx, choice.1.inlined policy = choice.1.inlined other :=
        fun choice member => Exit.inlined_congr fun register own =>
          chosen register (List.mem_flatMap.mpr
            ⟨choice.1, List.fst_mem_of_mem_zipIdx member, own⟩)
      have body : switchLines policy index cases otherwise =
          switchLines other index cases otherwise := by
        simp only [switchLines, Expr.text_congr indexed, Exit.inlined_congr rest]
        congr 2
        exact List.map_congr_left fun choice member => by rw [arms choice member]
      cases condition with
      | none => exact body
      | some condition =>
          have test : condition.text policy = condition.text other :=
            Expr.text_congr fun register own => tested register (by simpa using own)
          simp only [Stmt.lines, test, body]
  | hook => exact congrArg (braced "") (HookCall.lines_congr same)

/-! ## Emitted functions -/

/-- What holds of the locals of a function. -/
structure EmittedFunction.DeclaresLocals (function : EmittedFunction) : Prop where
  accounts : function.allocation.Accounts function.requests
    (({ policy := function.policy } : Allocation).answers function.requests)
  /-- The declarations stand ahead of the loop with the arms. -/
  ahead : ∃ heading start, function.lines = Stmt.braced heading
    (function.allocation.declarations ++ start :: Stmt.braced "loop " (Stmt.braced "match pc "
      (function.arms.flatMap (armLines function.policy) ++ fallbackLines)))
  declared : ∀ arm ∈ function.arms, ∀ stmt ∈ arm.body, ∀ register ∈ stmt.registers,
    function.policy.place register = register.contextName ∨
      function.policy.place register = register.localName ∧
        register ∈ function.allocation.declared
  /-- Lines depend on where registers live only through the registers of the statement. -/
  named : ∀ arm ∈ function.arms, ∀ stmt ∈ arm.body, ∀ policy : LocalPolicy,
    (∀ register ∈ stmt.registers, policy.place register = function.policy.place register) →
      stmt.lines policy = stmt.lines function.policy

theorem Flow.Askable.fieldExists {flow : Flow} {register : Register}
    (askable : flow.Askable register) : register.FieldExists := by
  rintro field rfl
  rcases askable with inRange | ⟨_, _, _, index⟩
  · exact inRange
  · -- The index of a table is no condition field.
    cases index

namespace Program

theorem emit_fieldExists {program : Program} {graph : Graph} {node : FunctionNode}
    {instructions : List Instruction} {register : Register}
    (asked : register ∈ (program.emit graph node instructions).requests) :
    register.FieldExists := by
  obtain ⟨_, member, own⟩ := List.mem_flatMap.mp asked
  obtain ⟨block, _, rfl⟩ := List.mem_map.mp member
  exact ((Flow.emitBlock_asks _ _ block).known register own).fieldExists

theorem mem_emit_requests {program : Program} {graph : Graph} {node : FunctionNode}
    {instructions : List Instruction} {arm : Arm}
    (among : arm ∈ (program.emit graph node instructions).arms) {stmt : Stmt}
    (inside : stmt ∈ arm.body) {register : Register} (own : register ∈ stmt.registers) :
    register ∈ (program.emit graph node instructions).requests := by
  obtain ⟨_, member, rfl⟩ := List.mem_map.mp among
  refine List.mem_flatMap.mpr ⟨_, member, ?_⟩
  obtain ⟨block, _, rfl⟩ := List.mem_map.mp member
  exact (Flow.emitBlock_asks _ _ block).named stmt inside register own

theorem emit_declaresLocals (program : Program) (graph : Graph) (node : FunctionNode)
    (instructions : List Instruction) :
    (program.emit graph node instructions).DeclaresLocals where
  accounts := Allocation.requestAll_accounts fun _ => emit_fieldExists
  ahead := ⟨_, _, by rw [EmittedFunction.lines, List.append_assoc]; rfl⟩
  declared arm among stmt inside register own := by
    have asked := mem_emit_requests among inside own
    rw [LocalPolicy.place]
    split
    next kept =>
      have member := LocalPolicy.promotable_of_isLocal (emit_fieldExists asked) kept
      exact Or.inr ⟨rfl, Allocation.mem_declared.mpr ⟨member, asked, kept⟩⟩
    next => exact Or.inl rfl
  named _ _ _ _ _ same := Stmt.lines_congr same

/-- Every local that is handed out is declared, once and with the value of its slot, and no other
is. In an emitted function that covers all registers that its code names. -/
theorem locals_declared_once :
    (∀ (policy : LocalPolicy) (requests : List Register),
      (∀ register ∈ requests, register.FieldExists) →
        (({ policy } : Allocation).requestAll requests).Accounts requests
          (({ policy } : Allocation).answers requests)) ∧
    (∀ requests, ∀ name ∈ ({ policy := .contextOnly } : Allocation).answers requests,
      ¬ IsLocalName name) ∧
    ∀ (program : Program) (graph : Graph) (node : FunctionNode) (function : EmittedFunction),
      program.emitFunction graph node = .ok function → function.DeclaresLocals := by
  refine ⟨fun policy requests => Allocation.requestAll_accounts,
    fun requests name => Allocation.not_isLocalName_answers_contextOnly, ?_⟩
  intro program graph node function emitted
  unfold emitFunction at emitted
  cases decodes : program.instructionsOf node with
  | error =>
      rw [decodes] at emitted
      cases emitted
  | ok instructions =>
      rw [decodes] at emitted
      cases emitted
      exact program.emit_declaresLocals graph node instructions

/-! A count in a register that callees restore, and a return. -/

def countProgram : Program where
  image := Image.ofCode 0x1000 #[0x39, 0xCE, 0x00, 0x01, 0x4E, 0x80, 0x00, 0x20]
  config := { locals := { nonVolatile := true } }

def countNode : FunctionNode :=
  { address := 0x1000, size := 8, authority := .discovered }

def countCode : List Instruction :=
  [Instruction.decode 0x1000 0x39CE0001, Instruction.decode 0x1004 0x4E800020]

theorem countProgram_declarations :
    (countProgram.emit {} countNode countCode).allocation.declarations =
      ["let mut r14: u64 = ctx.r[14];"] := by
  have plain : Graph.withChunks {} countNode = countNode := by
    change { countNode with blocks := Span.mergeOverlapping [] } = _
    rw [Span.mergeOverlapping, List.mergeSort_nil]
    rfl
  simp only [emit, flowOf, plain]
  decide +kernel

/-- Locals asked for out of order and twice, next to registers that stay in the context. -/
theorem locals_declared_in_order :
    (({ policy := { nonVolatile := true, cr := true } } : Allocation).requestAll
        [.cr 7, .gpr 31, .lr, .gpr 14, .gpr 3, .gpr 31]).Accounts
      [.cr 7, .gpr 31, .lr, .gpr 14, .gpr 3, .gpr 31]
      ["cr7", "r31", "ctx.lr", "r14", "ctx.r[3]", "r31"] ∧
    (∃ function, countProgram.emitFunction {} countNode = .ok function ∧
      function.DeclaresLocals ∧
      function.allocation.declarations = ["let mut r14: u64 = ctx.r[14];"]) := by
  have exist : ∀ register ∈ [Register.cr 7, .gpr 31, .lr, .gpr 14, .gpr 3, .gpr 31],
      register.FieldExists := by
    simp [Register.FieldExists]
  have emitted : countProgram.emitFunction {} countNode =
      .ok (countProgram.emit {} countNode countCode) := rfl
  exact ⟨locals_declared_once.1 _ _ exist, _, emitted,
    locals_declared_once.2.2 _ _ _ _ emitted, countProgram_declarations⟩

end Program

end PowerLift
