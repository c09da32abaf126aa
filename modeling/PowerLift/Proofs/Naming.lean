import Mathlib
import PowerLift.Proofs.AddressText
import PowerLift.Proofs.AnyOrder
import PowerLift.Proofs.Callees

/-!
Names of emitted functions. The configuration names a function, or else a symbol of the image, and
a function without a name is called after its address. Names of the last kind are distinct, but
nothing keeps names that are given apart: two functions with one name are both emitted under it.
-/

namespace PowerLift

/-! ## Identifiers -/

theorem mem_toDigits_isAlphanum (value : Nat) :
    ∀ digit ∈ (Nat.toDigits 16 value).map Char.toUpper, digit.isAlphanum := by
  have small : ∀ digit < 16, digit.digitChar.toUpper.isAlphanum := by decide
  induction value using Nat.strongRecOn with
  | ind value ih =>
      by_cases single : value < 16
      · rw [Nat.toDigits_of_lt_base single, List.map_singleton, List.forall_mem_singleton]
        exact small value single
      · rw [Nat.toDigits_of_base_le (by decide) (by omega), List.map_append, List.map_singleton]
        refine List.forall_mem_append.mpr ⟨ih (value / 16) (by omega), ?_⟩
        rw [List.forall_mem_singleton]
        exact small _ (Nat.mod_lt _ (by decide))

/-- A name made from an address is an identifier. -/
theorem functionSymbol_defaultName (address : UInt32) :
    functionSymbol (defaultName address) = defaultName address := by
  have digits : ∀ digit ∈ (paddedHex 8 address.toNat).toList, digit.isAlphanum := by
    simp only [paddedHex, hex, String.toList_append, String.toList_ofList]
    refine List.forall_mem_append.mpr ⟨?_, mem_toDigits_isAlphanum _⟩
    intro digit member
    rw [List.eq_of_mem_replicate member]
    rfl
  have kept : (paddedHex 8 address.toNat).toList.map
      (fun c => if c.isAlphanum || c == '_' then c else '_') =
        (paddedHex 8 address.toNat).toList := by
    refine (List.map_congr_left ?_).trans (List.map_id _)
    intro digit member
    simp [digits digit member]
  have chars : (defaultName address).toList =
      's' :: 'u' :: 'b' :: '_' :: (paddedHex 8 address.toNat).toList := by
    rw [defaultName, String.toList_append]
    rfl
  apply String.toList_inj.mp
  simp only [functionSymbol, chars, List.map_cons, kept]
  simp [Char.isDigit, Char.isAlphanum, Char.isAlpha, Char.isLower, Char.isUpper]

theorem defaultName_injective {first second : UInt32}
    (same : defaultName first = defaultName second) : first = second := by
  have digits : ∀ address, readHex ((defaultName address).toList.drop 4) = address.toNat := by
    intro address
    rw [defaultName, String.toList_append]
    exact readHex_paddedHex 8 address.toNat
  apply UInt32.toNat_inj.mp
  rw [← digits first, ← digits second, same]

theorem FunctionNode.absorb_name (scan : Scan) (node : FunctionNode) :
    (absorb scan node).name = node.name :=
  (absorb_frame (·.name) (fun _ _ => rfl) (fun _ _ => rfl) (fun _ _ => rfl) scan node).trans
    (foldl_field (·.name) addBlock (fun _ _ => rfl) scan.blocks node)

namespace Discovery

/-! ## Given names -/

/-- The name that the configuration gives at an address. Of several, the last one counts. -/
def configuredName? (functions : List FunctionOverride) (address : UInt32) : Option String :=
  ((functions.filter (·.address == address)).filterMap (·.name)).getLast?

/-- The name of the first symbol at an address that has one. -/
def symbolName? (symbols : List Symbol) (address : UInt32) : Option String :=
  (symbols.find? fun symbol => symbol.address == address && !symbol.name.isEmpty).map (·.name)

/-- The name that is given to a function. Symbols inside of a configured function give none. -/
def givenName? (program : Program) (address : UInt32) : Option String :=
  (configuredName? program.config.functions address).or
    (if admits program address then symbolName? program.image.symbols address else none)

theorem lookup_setName (state : Discovery) (address : UInt32) (name : String) (other : UInt32) :
    (state.setName address name).names.lookup other =
      if other = address then some name else state.names.lookup other := by
  have dropped : ∀ names : List (UInt32 × String), other ≠ address →
      (names.filter (·.1 != address)).lookup other = names.lookup other := by
    intro names apart
    induction names with
    | nil => rfl
    | cons named rest ih =>
        obtain ⟨key, value⟩ := named
        rw [List.filter_cons]
        split
        next => simp only [List.lookup_cons, ih]
        next removed =>
          have here : key = address := by simpa using removed
          have missed : (other == key) = false := by simpa [here] using apart
          simp only [List.lookup_cons, missed, ih]
  simp only [setName, List.lookup_cons]
  by_cases here : other = address
  · simp [here]
  · have missed : (other == address) = false := by simpa using here
    rw [missed, if_neg here]
    exact dropped state.names here

theorem addConfigured_lookup {program : Program} {address : UInt32}
    (executable : program.image.isExecutable address) (state : Discovery)
    (entry : FunctionOverride) :
    (addConfigured program state entry).names.lookup address =
      if entry.address = address then entry.name.or (state.names.lookup address)
      else state.names.lookup address := by
  unfold addConfigured
  split
  next =>
    cases entry.name with
    | none => simp
    | some name =>
        simp only [lookup_setName, Option.some_or]
        by_cases here : address = entry.address
        · rw [if_pos here, if_pos here.symm]
        · rw [if_neg here, if_neg (Ne.symm here)]
  next data =>
    rw [if_neg]
    intro here
    exact data (here ▸ executable)

theorem foldl_addConfigured_lookup {program : Program} {address : UInt32}
    (executable : program.image.isExecutable address) (functions : List FunctionOverride)
    (state : Discovery) :
    (functions.foldl (addConfigured program) state).names.lookup address =
      (configuredName? functions address).or (state.names.lookup address) := by
  induction functions generalizing state with
  | nil => rfl
  | cons entry rest ih =>
      rw [List.foldl_cons, ih, addConfigured_lookup executable]
      by_cases here : entry.address = address
      · rw [if_pos here, ← Option.or_assoc]
        congr 1
        simp only [configuredName?, List.filter_cons, here, beq_self_eq_true, if_true,
          List.filterMap_cons]
        cases entry.name with
        | none => simp
        | some name => rw [List.getLast?_cons]; simp [Option.or_some]
      · simp [configuredName?, here]

theorem addSymbol_lookup (program : Program) (state : Discovery) (symbol : Symbol)
    (address : UInt32) :
    (addSymbol program state symbol).names.lookup address =
      (state.names.lookup address).or
        (if admits program address then symbolName? [symbol] address else none) := by
  have single : symbolName? [symbol] address =
      if symbol.address = address ∧ symbol.name.isEmpty = false then some symbol.name
      else none := by
    simp only [symbolName?, List.find?_singleton, Bool.and_eq_true, beq_iff_eq,
      Bool.not_eq_true']
    split <;> rfl
  rw [single]
  unfold addSymbol
  by_cases here : symbol.address = address
  · rw [here]
    split
    next =>
      simp only [addEntry_names]
      cases known : state.names.lookup address with
      | some name => simp [known]
      | none => cases empty : symbol.name.isEmpty <;> simp [lookup_setName, known]
    next => simp
  · have nothing : (if symbol.address = address ∧ symbol.name.isEmpty = false
        then some symbol.name else none) = none := if_neg fun both => here both.1
    rw [nothing, ite_self, Option.or_none]
    split
    next =>
      simp only
      split
      · rw [addEntry_names]
      · rw [lookup_setName, if_neg (Ne.symm here), addEntry_names]
    next => rfl

theorem foldl_addSymbol_lookup (program : Program) (symbols : List Symbol) (state : Discovery)
    (address : UInt32) :
    (symbols.foldl (addSymbol program) state).names.lookup address =
      (state.names.lookup address).or
        (if admits program address then symbolName? symbols address else none) := by
  induction symbols generalizing state with
  | nil => simp [symbolName?]
  | cons symbol rest ih =>
      rw [List.foldl_cons, ih, addSymbol_lookup, Option.or_assoc]
      congr 1
      split
      next =>
        simp only [symbolName?, List.find?_cons]
        cases symbol.address == address && !symbol.name.isEmpty <;> rfl
      next => rfl

/-- The names that discovery begins with are those given. -/
theorem seed_lookup {program : Program} {address : UInt32}
    (executable : program.image.isExecutable address) :
    (seed program).names.lookup address = givenName? program address := by
  simp only [seed, addEntries_names, foldl_addSymbol_lookup, addEntry_names,
    foldl_addConfigured_lookup executable, List.lookup_nil, Option.or_none, givenName?]

/-! ## Names in the graph -/

theorem attach_name (graph : Graph) (entry : FunctionOverride) (address : UInt32) :
    ((attach graph entry).function? address).map (·.name) =
      (graph.function? address).map (·.name) := by
  unfold attach
  split
  next parent _ =>
    split
    next =>
      have stays : Graph.Stays fun node : FunctionNode => { node with parent := some parent } :=
        fun _ => rfl
      rw [Graph.function?_adjust_eq graph entry.address stays]
      split
      next here =>
        rw [here, Option.map_map]
        rfl
      next => rfl
    next => rfl
  next => rfl

theorem foldl_rename_name {names : List (UInt32 × String)} (once : (names.map (·.1)).Nodup)
    (graph : Graph) (address : UInt32) :
    ((names.foldl rename graph).function? address).map (·.name) =
      (graph.function? address).map fun node => (names.lookup address).or node.name := by
  induction names generalizing graph with
  | nil => simp
  | cons named rest ih =>
      obtain ⟨key, name⟩ := named
      obtain ⟨fresh, restOnce⟩ := List.nodup_cons.mp once
      have stays : Graph.Stays fun node : FunctionNode => { node with name := some name } :=
        fun _ => rfl
      rw [List.foldl_cons, ih restOnce, rename, Graph.function?_adjust_eq graph key stays,
        List.lookup_cons]
      by_cases here : address = key
      · -- No later name is for the same address.
        have later : rest.lookup key = none := by
          rw [List.lookup_eq_none_iff]
          intro other member
          have apart : key ≠ other.1 := fun same =>
            fresh (List.mem_map.mpr ⟨other, member, same.symm⟩)
          simpa using apart
        rw [if_pos here, here, later, Option.map_map]
        simp only [beq_self_eq_true, Option.some_or, Option.none_or]
        rfl
      · have missed : (address == key) = false := by simpa using here
        rw [if_neg here, missed]

theorem toGraph_name {program : Program} {state : Discovery} (final : state.Final program)
    (once : state.NamedOnce) {node : FunctionNode}
    (member : node ∈ (state.toGraph program).nodes) :
    node.address ∈ state.entries ∧ node.name = state.names.lookup node.address := by
  have whole : state.toGraph program = state.names.foldl rename
      (program.config.functions.foldl attach (scannedGraph program state)) := toGraph_eq final
  have found := (toGraph_dresses_scanned final).ordered.function?_of_mem member
  have attached : ∀ (functions : List FunctionOverride) (graph : Graph),
      ((functions.foldl attach graph).function? node.address).map (·.name) =
        (graph.function? node.address).map (·.name) := by
    intro functions
    induction functions with
    | nil => exact fun _ => rfl
    | cons entry rest ih => exact fun graph => (ih _).trans (attach_name graph entry _)
  have named := foldl_rename_name once
    (program.config.functions.foldl attach (scannedGraph program state)) node.address
  rw [← whole, found, Option.map_some] at named
  obtain ⟨former, formerFound, same⟩ := Option.map_eq_some_iff.mp named.symm
  have unnamed := attached program.config.functions (scannedGraph program state)
  rw [formerFound, Option.map_some] at unnamed
  obtain ⟨scanned, scannedFound, sameName⟩ := Option.map_eq_some_iff.mp unnamed.symm
  obtain ⟨among, blank, isBlank, content⟩ := (scannedGraph_absorbs final).2 _ _ scannedFound
  have nothing : scanned.name = none := by
    rw [content, FunctionNode.absorb_name]
    exact isBlank.name
  rw [← sameName, nothing, Option.or_none] at same
  exact ⟨among, same.symm⟩

section

variable {program : Program} {hints : List UInt32} {tables : List VTable}

/-- Functions of the graph have the names that are given. -/
theorem run_name {node : FunctionNode}
    (member : node ∈ ((((seed program).addEntries program hints).addVTables program tables).run
      program).nodes) : node.name = givenName? program node.address := by
  have final := final_rounds program hints tables
  have coherent : Coherent
      (((seed program).addEntries program hints).addVTables program tables) program :=
    ((seed_coherent program).addEntries hints).addEntries _
  have names : ((((seed program).addEntries program hints).addVTables program tables).rounds
      program (roundFuel program)).names = (seed program).names := by
    rw [(coherent.rounds_rounds (roundFuel program) (by omega)).names, addVTables,
      addEntries_names, addEntries_names]
  have once : NamedOnce ((((seed program).addEntries program hints).addVTables program
      tables).rounds program (roundFuel program)) := by
    rw [NamedOnce, names]
    exact seed_namedOnce program
  obtain ⟨among, same⟩ := toGraph_name final once member
  rw [same, names, seed_lookup (final.settled.executable _ among)]

/-- The name by which a function is emitted. -/
def emittedName (program : Program) (address : UInt32) : String :=
  functionSymbol ((givenName? program address).getD (defaultName address))

theorem run_emittedName {function : EmittedFunction}
    (emitted : function ∈ program.emitAll
      ((((seed program).addEntries program hints).addVTables program tables).run program)) :
    function.name = emittedName program function.address := by
  obtain ⟨node, member, _, instructions, _, rfl⟩ := Program.mem_emitAll.mp emitted
  change functionSymbol node.displayName = emittedName program node.address
  rw [FunctionNode.displayName, run_name member, emittedName]

end

theorem emittedName_of_unnamed {program : Program} {address : UInt32}
    (unnamed : givenName? program address = none) :
    emittedName program address = defaultName address := by
  rw [emittedName, unnamed, Option.getD_none, functionSymbol_defaultName]

end Discovery

namespace Program

theorem emitFunction_address {program : Program} {graph : Graph} {node : FunctionNode}
    {function : EmittedFunction}
    (emitted : (program.emitFunction graph node).toOption = some function) :
    function.address = node.address := by
  unfold emitFunction at emitted
  cases decoded : program.instructionsOf node with
  | error => simp [decoded, bind, Except.bind, Except.toOption] at emitted
  | ok instructions =>
      simp only [decoded, bind, Except.bind, pure, Except.pure, Except.toOption,
        Option.some.injEq] at emitted
      rw [← emitted]
      rfl

theorem emitted_sublist (program : Program) (graph : Graph) (nodes : List FunctionNode) :
    ((nodes.filterMap fun node => (program.emitFunction graph node).toOption).map
      (·.address)).Sublist (nodes.map (·.address)) := by
  induction nodes with
  | nil => exact List.Sublist.refl _
  | cons node rest ih =>
      rw [List.filterMap_cons]
      cases emitted : (program.emitFunction graph node).toOption with
      | none => exact ih.cons _
      | some function =>
          rw [List.map_cons, emitFunction_address emitted]
          exact ih.cons_cons _

end Program

/-- Functions are emitted by address, one at each. -/
theorem Graph.Ordered.emitted_addresses {graph : Graph} (ordered : graph.Ordered)
    (program : Program) : AddressSet.Sorted ((program.emitAll graph).map (·.address)) := by
  have part := program.emitted_sublist graph (graph.nodes.filter graph.standsAlone)
  exact List.Pairwise.sublist (part.trans (List.filter_sublist.map _)) ordered

namespace Discovery

/-- Every function has the name given to it, or one made from its address. No two functions share an
address, and none without a given name share a name. So names are distinct iff no name that is
given is another function's name, both taken as identifiers. -/
theorem run_names_distinct_iff (program : Program) (hints : List UInt32) (tables : List VTable) :
    let functions := program.emitAll
      ((((seed program).addEntries program hints).addVTables program tables).run program)
    (∀ function ∈ functions, function.name = emittedName program function.address) ∧
      (functions.map (·.address)).Nodup ∧
      ((functions.map (·.name)).Nodup ↔
        ∀ first ∈ functions, ∀ second ∈ functions, first.address ≠ second.address →
          ∀ name ∈ givenName? program first.address,
            functionSymbol name ≠ emittedName program second.address) := by
  intro functions
  have named : ∀ function ∈ functions, function.name = emittedName program function.address :=
    fun function emitted => run_emittedName emitted
  have addresses : (functions.map (·.address)).Nodup :=
    ((run_ordered program hints tables).emitted_addresses program).nodup
  refine ⟨named, addresses, ?_⟩
  constructor
  · intro distinct first firstMember second secondMember apart name given same
    have equal : first.name = second.name := by
      rw [named first firstMember, named second secondMember, ← same, emittedName, given,
        Option.getD_some]
    exact apart (congrArg _ (List.inj_on_of_nodup_map distinct firstMember secondMember equal))
  · intro separate
    apply List.Nodup.map_on _ addresses.of_map
    intro first firstMember second secondMember equal
    rw [named first firstMember, named second secondMember] at equal
    by_contra different
    have apart : first.address ≠ second.address := fun same =>
      different (List.inj_on_of_nodup_map addresses firstMember secondMember same)
    cases given : givenName? program first.address with
    | some name =>
        refine separate first firstMember second secondMember apart name given ?_
        rw [← equal, emittedName, given, Option.getD_some]
    | none =>
        cases other : givenName? program second.address with
        | some name =>
            refine separate second secondMember first firstMember apart.symm name other ?_
            rw [equal, emittedName, other, Option.getD_some]
        | none =>
            rw [emittedName_of_unnamed given, emittedName_of_unnamed other] at equal
            exact apart (defaultName_injective equal)

/-! Three functions, the first with a configured name and the second with a symbol. -/

def namedProgram : Program where
  image :=
    { Image.ofCode 0x1000 #[0x4E, 0x80, 0x00, 0x20, 0x4E, 0x80, 0x00, 0x20,
        0x4E, 0x80, 0x00, 0x20] with
      symbols := [{ name := "main", address := 0x1000, size := 4 },
        { name := "lib.start", address := 0x1004, size := 4 }] }
  config := { functions :=
    [{ address := 0x1000, key := "0x1000", name := some "init" },
     { address := 0x1008, key := "0x1008" }] }

def namedNodes : List FunctionNode :=
  [{ address := 0x1000, size := 4, authority := .discovered
     blocks := [{ start := 0x1000, stop := 0x1004 }], name := some "init" },
   { address := 0x1004, size := 4, authority := .discovered
     blocks := [{ start := 0x1004, stop := 0x1008 }], name := some "lib.start" },
   { address := 0x1008, size := 4, authority := .discovered
     blocks := [{ start := 0x1008, stop := 0x100C }] }]

theorem namedProgram_run :
    (seed namedProgram).run namedProgram = { nodes := namedNodes } := by
  have first : namedProgram.scan 0x1000 0x1004 =
      { limit := 0x1004, blocks := [{ start := 0x1000, stop := 0x1004 }] } :=
    scan_of_explored (by decide) (by decide +kernel) (List.pairwise_singleton _ _)
  have second : namedProgram.scan 0x1004 0x1008 =
      { limit := 0x1008, blocks := [{ start := 0x1004, stop := 0x1008 }] } :=
    scan_of_explored (by decide) (by decide +kernel) (List.pairwise_singleton _ _)
  have third : namedProgram.scan 0x1008 0x100C =
      { limit := 0x100C, blocks := [{ start := 0x1008, stop := 0x100C }] } :=
    scan_of_explored (by decide) (by decide +kernel) (List.pairwise_singleton _ _)
  have seeded : seed namedProgram =
      { entries := [0x1000, 0x1004, 0x1008], boundaries := [0x1000, 0x1004, 0x1008]
        names := [(0x1004, "lib.start"), (0x1000, "init")] } := rfl
  have scanned : ([0x1000, 0x1004, 0x1008].map fun entry => (entry, namedProgram.scan entry
      (limitOf namedProgram
        { entries := [0x1000, 0x1004, 0x1008], boundaries := [0x1000, 0x1004, 0x1008]
          names := [(0x1004, "lib.start"), (0x1000, "init")] } entry))) =
      [(0x1000, { limit := 0x1004, blocks := [{ start := 0x1000, stop := 0x1004 }] }),
        (0x1004, { limit := 0x1008, blocks := [{ start := 0x1004, stop := 0x1008 }] }),
        (0x1008, { limit := 0x100C, blocks := [{ start := 0x1008, stop := 0x100C }] })] := by
    change [(_, namedProgram.scan 0x1000 0x1004), (_, namedProgram.scan 0x1004 0x1008),
      (_, namedProgram.scan 0x1008 0x100C)] = _
    rw [first, second, third]
  rw [run_of_known seeded scanned]
  · decide
  · exact List.forall_mem_nil _
  · rfl

theorem namedProgram_names :
    ((namedProgram.emitAll ((seed namedProgram).run namedProgram)).map (·.name)).Nodup ∧
      ∀ function ∈ namedProgram.emitAll ((seed namedProgram).run namedProgram),
        function.name = emittedName namedProgram function.address := by
  have graph : run namedProgram (((seed namedProgram).addEntries namedProgram []).addVTables
      namedProgram []) = { nodes := namedNodes } := namedProgram_run
  have names := run_names_distinct_iff namedProgram [] []
  rw [graph] at names
  rw [namedProgram_run]
  obtain ⟨named, _, distinct⟩ := names
  refine ⟨distinct.mpr ?_, named⟩
  decide +kernel

/-! Two functions that the configuration gives one name. -/

def clashingProgram : Program where
  image := Image.ofCode 0x1000 #[0x4E, 0x80, 0x00, 0x20, 0x4E, 0x80, 0x00, 0x20]
  config := { functions :=
    [{ address := 0x1000, key := "0x1000", name := some "init" },
     { address := 0x1004, key := "0x1004", name := some "init" }] }

def clashingNodes : List FunctionNode :=
  [{ address := 0x1000, size := 4, authority := .discovered
     blocks := [{ start := 0x1000, stop := 0x1004 }], name := some "init" },
   { address := 0x1004, size := 4, authority := .discovered
     blocks := [{ start := 0x1004, stop := 0x1008 }], name := some "init" }]

theorem clashingProgram_discover :
    clashingProgram.discover [] = { nodes := clashingNodes } := by
  change (seed clashingProgram).run clashingProgram = _
  have first : clashingProgram.scan 0x1000 0x1004 =
      { limit := 0x1004, blocks := [{ start := 0x1000, stop := 0x1004 }] } :=
    scan_of_explored (by decide) (by decide +kernel) (List.pairwise_singleton _ _)
  have second : clashingProgram.scan 0x1004 0x1008 =
      { limit := 0x1008, blocks := [{ start := 0x1004, stop := 0x1008 }] } :=
    scan_of_explored (by decide) (by decide +kernel) (List.pairwise_singleton _ _)
  have seeded : seed clashingProgram =
      { entries := [0x1000, 0x1004], boundaries := [0x1000, 0x1004]
        names := [(0x1004, "init"), (0x1000, "init")] } := rfl
  have scanned : ([0x1000, 0x1004].map fun entry => (entry, clashingProgram.scan entry
      (limitOf clashingProgram
        { entries := [0x1000, 0x1004], boundaries := [0x1000, 0x1004]
          names := [(0x1004, "init"), (0x1000, "init")] } entry))) =
      [(0x1000, { limit := 0x1004, blocks := [{ start := 0x1000, stop := 0x1004 }] }),
        (0x1004, { limit := 0x1008, blocks := [{ start := 0x1004, stop := 0x1008 }] })] := by
    change [(_, clashingProgram.scan 0x1000 0x1004), (_, clashingProgram.scan 0x1004 0x1008)] = _
    rw [first, second]
  rw [run_of_known seeded scanned]
  · decide
  · exact List.forall_mem_nil _
  · rfl

theorem clashingProgram_valid : clashingProgram.config.validate.valid := by
  have ranges := Config.ranges_of_sorted (show (Config.firstPerAddress
    clashingProgram.config.functions).Pairwise _ by decide)
  rw [Config.validate, Report.valid, Config.errors, ranges]
  decide

/-- The configuration is valid, and both functions are emitted under the one name. -/
theorem clashingProgram_shares_name :
    clashingProgram.config.validate.valid ∧
      ¬ ((clashingProgram.emitAll (clashingProgram.discover [])).map (·.name)).Nodup := by
  refine ⟨clashingProgram_valid, ?_⟩
  rw [clashingProgram_discover]
  decide +kernel

end Discovery

end PowerLift
