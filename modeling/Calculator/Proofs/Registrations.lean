import Calculator.Proofs.Definitions
import Calculator.Proofs.Steps
import Calculator.Proofs.Views

/-!
# Calculator.Proofs.Registrations

Registrations step by step: each is checked and converted first, and writes last. So what the tables
hold is what the checks let through, and a refused registration has written nothing.

* `validateName_self`, `validateSymbol_self`: what was accepted is accepted again as it is.
* `Registration.carryOut_eq`: the steps of a registration come to what it is defined to do.
* `Registration.carryOut_atomic`: where they end in a refusal, they have changed nothing.
* `Family.Reachable`: the families that calls lead to, also those that are refused on their way.
* `Family.reachable_registered`: what their environments show, and what further calls do to them.
-/

namespace Calculator

/-! ## Names that have been accepted -/

/-- A name without problems is accepted as it is. -/
theorem validateName_self {role : Role} {key : String} (h : nameProblem? role key.toList = none) :
    validateName role (some key) = .ok key := by
  obtain ⟨_, _, _, _, _, symbols⟩ := nameProblem?_eq_none h
  have filled : ∀ c ∈ key.toList, isBlank c = false := by
    intro c hc
    obtain symbol | ⟨-, rfl | rfl⟩ := symbols c hc
    · exact isBlank_of_isValueSymbol (isNameSymbol_value symbol).1
    · decide
    · decide
  rw [validateName]
  simp only [trim_of_edged (edged_of_filled filled), h, String.ofList_toList]

/-- A symbol without problems is accepted as it is. -/
theorem validateSymbol_self {key : String} (ne : key.toList ≠ [])
    (h : key.toList.findSome? symbolProblemOf? = none) : validateSymbol (some key) = .ok key := by
  have filled : ∀ c ∈ key.toList, isBlank c = false := fun c hc =>
    (symbolProblemOf?_eq_none.mp (List.findSome?_eq_none_iff.mp h c hc)).1
  have some : key.toList.isEmpty = false := List.isEmpty_eq_false_iff.mpr ne
  rw [validateSymbol]
  simp only [trim_of_edged (edged_of_filled filled), some, h, Bool.false_eq_true, if_false,
    String.ofList_toList]

/-! ## Registrations step by step -/

/-- What an environment can be asked to register, or to take as its decimal context. -/
inductive Registration where
  | setVariable (name : Option String) (value : Assignment)
  | setFunction (name : Option String) (f : Offer Function)
  | setOperation (symbol : Option String) (op : Offer Operation) (precedence : Offer Int)
  | setContext (ctx : Offer Context)

/-- Steps that change a family, and keep what they have changed if a later one is refused. -/
abbrev Registering := EStateM Refusal Family

/-- A check that is refused, or has a result. -/
def check {α : Type} : Except Refusal α → Registering α
  | .ok a => pure a
  | .error refusal => throw refusal

/-- A step that has changed nothing where it is refused. -/
def Atomic {α : Type} (step : Registering α) : Prop :=
  ∀ (family : Family) (refusal : Refusal) (after : Family),
    step family = .error refusal after → after = family

section

variable {α β : Type}

@[simp] theorem check_ok (a : α) (family : Family) : check (.ok a) family = .ok a family := rfl

theorem atomic_throw (refusal : Refusal) : Atomic (throw refusal : Registering α) := by
  rintro family _ _ ⟨⟩
  rfl

theorem atomic_modify (change : Family → Family) : Atomic (modify change) := nofun

/-- Checks may come before a step that changes something, not after it. -/
theorem atomic_check_bind (outcome : Except Refusal α) {next : α → Registering β}
    (h : ∀ a, Atomic (next a)) : Atomic (check outcome >>= next) := by
  intro family refusal after run
  cases outcome with
  | ok a => exact h a family refusal after run
  | error e =>
    cases run
    rfl

end

namespace Registration

/-- What a registration is defined to do. -/
def outcome (family : Family) (id : EnvId) : Registration → Except Refusal Family
  | setVariable name value => family.setVariable id name value
  | setFunction name f => family.setFunction id name f
  | setOperation symbol op precedence => family.setOperation id symbol op precedence
  | setContext ctx => family.assignContext id ctx

/-- A registration, step by step. -/
def carryOut (id : EnvId) : Registration → Registering Unit
  | setVariable name value => do
    let key ← check (validateName .variableName name)
    let v ← check value.toVariable
    modify (·.register id .vars key v)
  | setFunction name f => do
    let key ← check (validateName .functionName name)
    match f with
    | .nothing => modify (·.register id .functions key none)
    | .given f => modify (·.register id .functions key (some f))
    | .unfit kind => throw (.noFunction key kind)
  | setOperation symbol op precedence => do
    let key ← check (validateSymbol symbol)
    match op with
    | .nothing => modify (·.register id .operators key none)
    | .unfit kind => throw (.noOperation key kind)
    | .given op =>
      let n ← check (Family.precedenceFor key op precedence)
      modify (·.register id .operators key (some ⟨key, op, n⟩))
  | setContext ctx =>
    match ctx with
    | .nothing => throw .absentContext
    | .unfit kind => throw (.noContext kind)
    | .given ctx => modify (·.modifyOptions id fun options => { options with context := ctx })

/-- The steps of a registration come to what it is defined to do. -/
theorem carryOut_eq (registration : Registration) (id : EnvId) (family : Family) :
    registration.carryOut id family =
      match registration.outcome family id with
      | .ok after => .ok () after
      | .error refusal => .error refusal family := by
  cases registration with
  | setVariable name value =>
    simp only [carryOut, outcome, Family.setVariable, bind_apply]
    cases validateName .variableName name with
    | error refusal => rfl
    | ok key => cases value.toVariable <;> rfl
  | setFunction name f =>
    simp only [carryOut, outcome, Family.setFunction, bind_apply]
    cases validateName .functionName name with
    | error refusal => rfl
    | ok key => cases f <;> rfl
  | setOperation symbol op precedence =>
    simp only [carryOut, outcome, Family.setOperation, bind_apply]
    cases validateSymbol symbol with
    | error refusal => rfl
    | ok key =>
      cases op with
      | nothing => rfl
      | unfit kind => rfl
      | given op =>
        simp only [check_ok, bind_apply]
        cases Family.precedenceFor key op precedence <;> rfl
  | setContext ctx => cases ctx <;> rfl

/-- A refused registration has changed nothing. -/
theorem carryOut_atomic (registration : Registration) (id : EnvId) :
    Atomic (registration.carryOut id) := by
  cases registration with
  | setVariable name value =>
    exact atomic_check_bind _ fun key => atomic_check_bind _ fun v => atomic_modify _
  | setFunction name f =>
    refine atomic_check_bind _ fun key => ?_
    cases f with
    | nothing => exact atomic_modify _
    | given f => exact atomic_modify _
    | unfit kind => exact atomic_throw _
  | setOperation symbol op precedence =>
    refine atomic_check_bind _ fun key => ?_
    cases op with
    | nothing => exact atomic_modify _
    | unfit kind => exact atomic_throw _
    | given op => exact atomic_check_bind _ fun n => atomic_modify _
  | setContext ctx =>
    cases ctx with
    | nothing => exact atomic_throw _
    | unfit kind => exact atomic_throw _
    | given ctx => exact atomic_modify _

/-- Registrations one after another, up to the first that is refused. -/
def carryOutAll (id : EnvId) : List Registration → Registering Unit
  | [] => pure ()
  | registration :: rest => do
    registration.carryOut id
    carryOutAll id rest

end Registration

/-! ## Libraries -/

/-- The registrations of a library. -/
def Library.items (library : Library) : List Registration :=
  (library.operators.map fun binding => .setOperation (some binding.symbol)
    (.given binding.operation) (.given binding.precedence)) ++
  (library.functions.map fun (name, f) => .setFunction (some name) (.given f)) ++
  (library.vars.map fun (name, v) => .setVariable (some name) (.variable v)) ++
  library.context.toList.map fun ctx => .setContext (.given ctx)

theorem Library.registrations_eq (library : Library) (id : EnvId) :
    library.registrations id = library.items.map fun item family => item.outcome family id := by
  simp only [registrations, items, List.map_append, List.map_map]
  cases library.context <;> rfl

theorem Registration.carryOutAll_eq (id : EnvId) : ∀ (items : List Registration) (family : Family),
    carryOutAll id items family =
      match family.applyAll (items.map fun item family => item.outcome family id) with
      | (after, none) => .ok () after
      | (after, some refusal) => .error refusal after := by
  intro items
  induction items with
  | nil => exact fun _ => rfl
  | cons item rest ih =>
    intro family
    rw [carryOutAll, bind_apply, item.carryOut_eq, List.map_cons, Family.applyAll]
    cases item.outcome family id with
    | error refusal => rfl
    | ok after => exact ih after

/-- Installing a library is carrying out its registrations. -/
theorem Family.carryOutAll_items (family : Family) (id : EnvId) (library : Library) :
    Registration.carryOutAll id library.items family =
      match family.install id library with
      | (after, none) => .ok () after
      | (after, some refusal) => .error refusal after := by
  rw [Registration.carryOutAll_eq, install, library.registrations_eq]

/-! ## What can be offered -/

/-- The variables there are: a fixed one has been made of a number or of a text. -/
inductive Variable.Made : Variable → Prop
  | number {value : Decimal} {v : Variable} : Variable.ofDecimal value = .ok v → Made v
  | text {shown : String} {v : Variable} : Variable.ofText shown = .ok v → Made v
  | constant (value : Decimal) : Made (.constant value)
  | clock : Made .clock
  | answer (register : Nat) : Made (.answer register)

theorem Variable.Made.finite {number : Decimal} (h : Made (.fixed number)) :
    number.isFinite = true := by
  have finite {value : Decimal} (made : ofDecimal value = .ok (.fixed number)) :
      number.isFinite = true := by
    obtain ⟨finite, same⟩ := ofDecimal_eq_ok made
    cases same
    exact finite
  cases h with
  | number made => exact finite made
  | @text shown _ made =>
    rw [ofText] at made
    split at made
    · cases made
    · exact finite made

/-- The variable that an offer makes is a made one. -/
theorem Assignment.toVariable_made {value : Assignment} {v : Option Variable}
    (offered : ∀ w, value = .variable w → w.Made) (h : value.toVariable = .ok v) :
    ∀ w ∈ v, w.Made := by
  cases value with
  | nothing =>
    cases h
    exact nofun
  | «variable» w =>
    cases h
    rintro _ ⟨⟩
    exact offered w rfl
  | number number =>
    rw [toVariable] at h
    cases made : Variable.ofDecimal number with
    | error refusal =>
      rw [made] at h
      cases h
    | ok w =>
      rw [made] at h
      cases h
      rintro _ ⟨⟩
      exact .number made
  | text shown =>
    rw [toVariable] at h
    cases made : Variable.ofText shown with
    | error refusal =>
      rw [made] at h
      cases h
    | ok w =>
      rw [made] at h
      cases h
      rintro _ ⟨⟩
      exact .text made

/-- What the caller of a registration answers for: a user function is bound to one of the first
`size` environments, and variables have been made. -/
structure Registration.Offered (size : Nat) (registration : Registration) : Prop where
  bound : ∀ name u scope, registration = .setFunction name (.given (.user u)) →
    u.scope = some scope → scope < size
  made : ∀ name v, registration = .setVariable name (.variable v) → v.Made

theorem Registration.offered_setVariable {size : Nat} (name : Option String) {value : Assignment}
    (made : ∀ v, value = .variable v → v.Made) : Offered size (.setVariable name value) := by
  refine ⟨nofun, ?_⟩
  rintro _ v ⟨⟩
  exact made v rfl

theorem Registration.offered_setFunction {size : Nat} (name : Option String) {f : Offer Function}
    (bound : ∀ u scope, f = .given (.user u) → u.scope = some scope → scope < size) :
    Offered size (.setFunction name f) := by
  refine ⟨?_, nofun⟩
  rintro _ u scope ⟨⟩
  exact bound u scope rfl

namespace Family

/-! ## Reachable families -/

/-- The family that steps leave, whether they are refused or not. -/
def remaining {α : Type} : EStateM.Result Refusal Family α → Family
  | .ok _ family => family
  | .error _ family => family

/-- The families that calls lead to. Registrations, such as those of a library, are carried out one
after another up to the first refused one, and the calls go on with what that leaves. -/
inductive Reachable : Family → Prop
  | empty : Reachable .empty
  | addRoot {family : Family} : Reachable family → Reachable family.addRoot.1
  | overlay {family : Family} {id : EnvId} :
      Reachable family → id < family.members.size → Reachable (family.overlay id).1
  | snapshot {family : Family} {id : EnvId} :
      Reachable family → id < family.members.size → Reachable (family.snapshot id).1
  | registered {family : Family} (id : EnvId) (items : List Registration) :
      Reachable family → (∀ item ∈ items, item.Offered family.members.size) →
      Reachable (remaining (Registration.carryOutAll id items family))
  | setOptions {family : Family} {id : EnvId} (bracketMultiply variableMultiply : Bool)
      (maxDepth : Int) : Reachable family →
      Reachable (family.modifyOptions id fun options =>
        ⟨options.context, bracketMultiply, variableMultiply, maxDepth⟩)
  | addAnswer {family : Family} : Reachable family → Reachable family.addAnswer.1
  | setAnswer {family : Family} (register : Nat) (value : Decimal) :
      Reachable family → Reachable (family.setAnswer register value)

/-- What stands in the tables of reachable families: variables that have been made. -/
def Provided : (kind : Kind) → String → kind.Value → Prop
  | .operators, _, _ => True
  | .functions, _, _ => True
  | .vars, _, v => v.Made

/-- What holds of reachable families. -/
structure Orderly (family : Family) : Prop where
  built : family.Built
  provided : family.Entries Provided

section

variable {family after : Family} {id : EnvId}

/-- A registration that is not refused changes one table, or the options. -/
theorem outcome_eq_ok {item : Registration} (run : item.outcome family id = .ok after) :
    (∃ kind key value, after = family.register id kind key value ∧
      (item.Offered family.members.size → ∀ v ∈ value, Provided kind key v)) ∨
    ∃ change, after = family.modifyOptions id change := by
  cases item with
  | setVariable name value =>
    obtain ⟨key, v, -, converted, rfl⟩ := setVariable_eq_ok run
    refine .inl ⟨.vars, key, v, rfl, fun offered => ?_⟩
    exact Assignment.toVariable_made (fun w same => offered.made name w (by rw [same])) converted
  | setFunction name f =>
    obtain ⟨key, g, -, -, rfl⟩ := setFunction_eq_ok run
    exact .inl ⟨.functions, key, g, rfl, fun _ _ _ => trivial⟩
  | setOperation symbol op precedence =>
    obtain ⟨key, binding, -, -, rfl⟩ := setOperation_eq_ok run
    exact .inl ⟨.operators, key, binding, rfl, fun _ _ _ => trivial⟩
  | setContext ctx =>
    cases ctx with
    | nothing => cases run
    | unfit kind => cases run
    | given ctx =>
      cases run
      exact .inr ⟨_, rfl⟩

theorem outcome_size {item : Registration} (run : item.outcome family id = .ok after) :
    after.members.size = family.members.size := by
  obtain ⟨kind, key, value, rfl, -⟩ | ⟨change, rfl⟩ := outcome_eq_ok run
  · exact register_size family id kind key value
  · exact modifyEnvironment_size _ _ _

theorem outcome_built {item : Registration} (built : family.Built)
    (offered : item.Offered family.members.size) (run : item.outcome family id = .ok after) :
    after.Built := by
  cases item with
  | setVariable name value => exact .setVariable built run
  | setFunction name f =>
    exact .setFunction built run fun u scope given => offered.bound name u scope (by rw [given])
  | setOperation symbol op precedence => exact .setOperation built run
  | setContext ctx => exact built_assignContext built run

theorem Orderly.outcome {item : Registration} (h : family.Orderly)
    (offered : item.Offered family.members.size) (run : item.outcome family id = .ok after) :
    after.Orderly := by
  refine ⟨outcome_built h.built offered run, ?_⟩
  obtain ⟨kind, key, value, rfl, provided⟩ | ⟨change, rfl⟩ := outcome_eq_ok run
  · exact entries_register (provided offered) h.provided
  · exact everywhere_modifyOptions h.provided change

/-- Registrations keep a family orderly, and those before a refused one do. -/
theorem Orderly.carryOutAll {items : List Registration} : ∀ {family : Family}, family.Orderly →
    (∀ item ∈ items, item.Offered family.members.size) →
    (remaining (Registration.carryOutAll id items family)).Orderly := by
  induction items with
  | nil => exact fun h _ => h
  | cons item rest ih =>
    intro family h offered
    obtain ⟨first, later⟩ := List.forall_mem_cons.mp offered
    rw [Registration.carryOutAll, bind_apply, item.carryOut_eq]
    cases run : item.outcome family id with
    | error refusal => exact h
    | ok after =>
      apply ih (h.outcome first run)
      rw [outcome_size run]
      exact later

end

theorem Orderly.add {family : Family} {env : Environment} (h : family.Orderly)
    (built : Built (family.add env).1)
    (provided : ∀ kind key value, (key, .value value) ∈ env.table kind →
      Provided kind key value) : Orderly (family.add env).1 :=
  ⟨built, everywhere_add h.provided provided⟩

theorem reachable_orderly {family : Family} (h : Reachable family) : family.Orderly := by
  induction h with
  | empty => exact ⟨.empty, fun _ kind => by cases kind <;> exact nofun⟩
  | addRoot _ ih => exact ih.add (.addRoot ih.built) fun kind => by cases kind <;> exact nofun
  | overlay _ lt ih =>
    exact ih.add (.overlay ih.built lt) fun kind => by cases kind <;> exact nofun
  | @snapshot family id _ lt ih =>
    refine ih.add (.snapshot ih.built lt) fun kind key value mem => ?_
    have shown : (key, .value value) ∈ family.flatTable id kind := by cases kind <;> exact mem
    exact ih.provided.lookup (flatTable_mem shown)
  | registered id items _ offered ih => exact ih.carryOutAll offered
  | setOptions bracketMultiply variableMultiply maxDepth _ ih =>
    exact ⟨.setOptions ih.built, everywhere_modifyOptions ih.provided _⟩
  | addAnswer _ ih => exact ⟨.addAnswer ih.built, ih.provided⟩
  | setAnswer register value _ ih => exact ⟨.setAnswer ih.built, ih.provided⟩

/-! ## What is registered -/

/-- What an environment can show under a name of a kind: the name is accepted as it is, operators
stand under their own symbols, and fixed variables are finite. The precedence of an operator is a
natural number by its type. -/
def Registered : (kind : Kind) → String → kind.Value → Prop
  | .operators, key, binding => validateSymbol (some key) = .ok key ∧ binding.symbol = key
  | .functions, key, _ => validateName .functionName (some key) = .ok key
  | .vars, key, v => validateName .variableName (some key) = .ok key ∧
      ∀ value, v = .fixed value → value.isFinite = true

theorem Orderly.registered {family : Family} {id : EnvId} {kind : Kind} {key : String}
    {value : kind.Value} (h : family.Orderly) (found : family.lookup id kind key = some value) :
    Registered kind key value := by
  have accepted := lookup_admissible (built_wellFormed h.built) found
  have provided := h.provided.lookup found
  cases kind with
  | operators => exact ⟨validateSymbol_self accepted.1 accepted.2, (built_labelled h.built).lookup found⟩
  | functions => exact validateName_self accepted.1
  | vars =>
    refine ⟨validateName_self accepted, ?_⟩
    rintro value rfl
    exact Variable.Made.finite provided

theorem precedenceFor_eq_ok {symbol : String} {op : Operation} {precedence : Offer Int} {n : Nat}
    (h : precedenceFor symbol op precedence = .ok n) :
    precedence = .given (n : Int) ∨ precedence = .nothing ∧ op.precedence = (n : Int) := by
  have own : ∀ m : Int, precedenceFor symbol op (.given m) = .ok n → m = (n : Int) := by
    intro m given
    cases m with
    | ofNat m => cases given; rfl
    | negSucc m => cases given
  cases precedence with
  | nothing => exact .inr ⟨rfl, own op.precedence h⟩
  | given m => exact .inl (congrArg Offer.given (own m h))
  | unfit kind => cases h

/-- An operator that is not refused stands under its symbol, with the precedence that was given, or
with its own if none was; which is not negative. -/
theorem carryOut_operator {family after : Family} {id : EnvId} {symbol : Option String}
    {op : Operation} {precedence : Offer Int} (built : family.Built)
    (lt : id < family.members.size)
    (run : (Registration.setOperation symbol (.given op) precedence).carryOut id family =
      .ok () after) :
    ∃ (key : String) (n : Nat), validateSymbol symbol = .ok key ∧
      (precedence = .given (n : Int) ∨ precedence = .nothing ∧ op.precedence = (n : Int)) ∧
      after.lookup id .operators key = some ⟨key, op, n⟩ := by
  simp only [Registration.carryOut, bind_apply] at run
  cases accepted : validateSymbol symbol with
  | error refusal =>
    rw [accepted] at run
    cases run
  | ok key =>
    rw [accepted, check_ok] at run
    simp only at run
    cases chosen : precedenceFor key op precedence with
    | error refusal =>
      rw [chosen] at run
      cases run
    | ok n =>
      rw [chosen] at run
      cases run
      refine ⟨key, n, rfl, precedenceFor_eq_ok chosen, ?_⟩
      rw [lookup_register (built_wellFormed built) lt, if_pos rfl]

/-- What registrations let through. In every environment that calls lead to, every visible name
is accepted as it is, operators stand under their own symbols, and fixed variables are finite. A
registration that is refused has changed nothing in any environment, and an operator that is not
refused has the precedence that was asked for, which is not negative. -/
theorem reachable_registered {family : Family} (reachable : Reachable family) :
    (∀ id kind key, key ∈ family.names id kind →
      ∃ value, family.lookup id kind key = some value ∧ Registered kind key value) ∧
    (∀ id kind key value, family.lookup id kind key = some value → Registered kind key value) ∧
    (∀ (registration : Registration) id refusal after,
      registration.carryOut id family = .error refusal after → after = family) ∧
    ∀ id symbol op precedence after, id < family.members.size →
      (Registration.setOperation symbol (.given op) precedence).carryOut id family =
          .ok () after →
        ∃ (key : String) (n : Nat), validateSymbol symbol = .ok key ∧
          (precedence = .given (n : Int) ∨ precedence = .nothing ∧ op.precedence = (n : Int)) ∧
          after.lookup id .operators key = some ⟨key, op, n⟩ := by
  have orderly := reachable_orderly reachable
  refine ⟨?_, ?_, ?_, ?_⟩
  · intro id kind key visible
    rw [mem_names (built_distinct orderly.built)] at visible
    obtain ⟨value, found⟩ := Option.isSome_iff_exists.mp visible
    exact ⟨value, found, orderly.registered found⟩
  · intro id kind key value found
    exact orderly.registered found
  · intro registration id refusal after refused
    exact registration.carryOut_atomic id family refusal after refused
  · intro id symbol op precedence after lt run
    exact carryOut_operator orderly.built lt run

/-! ## The standard library -/

theorem reachable_install {family : Family} (id : EnvId) {library : Library}
    (reachable : Reachable family)
    (offered : ∀ item ∈ library.items, item.Offered family.members.size) :
    Reachable (family.install id library).1 := by
  have installed := Reachable.registered id library.items reachable offered
  rw [carryOutAll_items] at installed
  cases done : family.install id library with
  | mk after refused =>
    rw [done] at installed
    cases refused <;> exact installed

theorem standard_offered (size register : Nat) :
    ∀ item ∈ (Library.standard (.answer register)).items, item.Offered size := by
  intro item mem
  simp only [Library.items, Library.standard, List.mem_append, List.mem_map] at mem
  obtain ((⟨binding, -, rfl⟩ | ⟨p, ⟨f, -, rfl⟩, rfl⟩) | ⟨p, listed, rfl⟩) | ⟨ctx, -, rfl⟩ := mem
  · exact ⟨nofun, nofun⟩
  · exact Registration.offered_setFunction _ nofun
  · refine Registration.offered_setVariable _ ?_
    rintro v ⟨⟩
    simp only [List.mem_cons, List.not_mem_nil, or_false] at listed
    obtain rfl | rfl | rfl := listed
    · exact .constant Library.pi
    · exact .clock
    · exact .answer register
  · exact ⟨nofun, nofun⟩

theorem reachable_installStandard {family : Family} (id : EnvId) (reachable : Reachable family) :
    Reachable (family.installStandard id) :=
  reachable_install id (.addAnswer reachable) (standard_offered _ _)

/-- An overlay of the standard environment that hides `pi`, after a registration that was refused
and one that was not carried out any more. -/
def interrupted : Family :=
  remaining (Registration.carryOutAll 1
    [.setVariable (some " pi ") .nothing, .setVariable (some "2x") (.text "1"),
      .setVariable (some "y") (.text "1")]
    (empty.addStandard.1.overlay 0).1)

theorem interrupted_reachable : Reachable interrupted := by
  have standard : Reachable empty.addStandard.1 := reachable_installStandard 0 (.addRoot .empty)
  have exist : 0 < empty.addStandard.1.members.size := by
    rw [standard_size]
    exact Nat.zero_lt_one
  refine .registered 1 _ (.overlay standard exist) fun item mem => ?_
  simp only [List.mem_cons, List.not_mem_nil, or_false] at mem
  obtain rfl | rfl | rfl := mem
  · exact Registration.offered_setVariable _ nofun
  · exact Registration.offered_setVariable _ nofun
  · exact Registration.offered_setVariable _ nofun

theorem reachable_registered_interrupted : Reachable interrupted ∧
    interrupted.names 1 .vars = ["now", "ans"] ∧
    (∀ key ∈ interrupted.names 1 .operators,
      ∃ binding, interrupted.lookup 1 .operators key = some binding ∧ binding.symbol = key) ∧
    ∃ refusal, (Registration.setVariable (some "y") (.text "NaN")).carryOut 1 interrupted =
      .error refusal interrupted := by
  obtain ⟨visible, -, refused, -⟩ := reachable_registered interrupted_reachable
  refine ⟨interrupted_reachable, by decide +kernel, ?_, ?_⟩
  · intro key mem
    obtain ⟨binding, found, -, named⟩ := visible 1 .operators key mem
    exact ⟨binding, found, named⟩
  · cases run : (Registration.setVariable (some "y") (.text "NaN")).carryOut 1 interrupted with
    | ok _ after => cases run
    | error refusal after => exact ⟨refusal, by rw [refused _ _ _ _ run]⟩

end Family
end Calculator
