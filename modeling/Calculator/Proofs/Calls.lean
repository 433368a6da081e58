import Calculator.Proofs.Definitions
import Calculator.Proofs.Likeness

/-!
# Calculator.Proofs.Calls

What the parameters of a user function stand for while it is called.

Mathematical meaning: the condition, the expression for it and the body are evaluated in the scope
of the environment that the function is bound to, or of the calling one, extended by the parameters
one after another. A parameter that is named twice stands for the argument at its last place, and
the argument at the other place is lost.

* `withVars_last`, `withVars_other`: what names stand for in an extended scope.
* `withVars_faithful_iff`: every parameter stands for its own argument exactly if parameters of one
  name have one argument.
* `callUser_scope`: the scope of a call of a function that a definition defines.
-/

namespace Calculator

namespace Scope

variable {scope : Scope} {names : List String} {values : List Decimal}

/-! ## Extended scopes -/

/-- The scope in which names stand for values, later ones instead of earlier ones. -/
def withVars (scope : Scope) : List String → List Decimal → Scope
  | name :: names, value :: values => (scope.withVar name value).withVars names values
  | _, _ => scope

theorem withVars_options (names : List String) (values : List Decimal) (scope : Scope) :
    (scope.withVars names values).operators = scope.operators ∧
      (scope.withVars names values).functions = scope.functions ∧
      (scope.withVars names values).options = scope.options := by
  fun_induction withVars scope names values with
  | case1 scope name names value values ih => exact ih
  | case2 scope names values => exact ⟨rfl, rfl, rfl⟩

theorem withVars_other {key : String} (h : key ∉ names) :
    (scope.withVars names values).vars key = scope.vars key := by
  fun_induction withVars scope names values with
  | case1 scope name names value values ih =>
    rw [List.mem_cons, not_or] at h
    exact (ih h.2).trans (if_neg h.1)
  | case2 scope names values => rfl

/-- A name stands for the value at the last of its places. -/
theorem withVars_last {key : String} {value : Decimal} : ∀ {names : List String}
    {values : List Decimal} {scope : Scope} {i : Nat}, names[i]? = some key →
    values[i]? = some value → key ∉ names.drop (i + 1) →
    (scope.withVars names values).vars key = some value := by
  intro names
  induction names with
  | nil => exact fun named => nomatch named
  | cons name names ih =>
    intro values scope i named valued last
    cases values with
    | nil => cases valued
    | cons first values =>
      cases i with
      | zero =>
        cases named
        cases valued
        exact (withVars_other last).trans (if_pos rfl)
      | succ i => exact ih named valued last

theorem last_place {key : String} : ∀ {names : List String} {i : Nat}, names[i]? = some key →
    ∃ j, names[j]? = some key ∧ key ∉ names.drop (j + 1) := by
  intro names
  induction names with
  | nil => exact fun named => nomatch named
  | cons name names ih =>
    intro i named
    by_cases later : key ∈ names
    · obtain ⟨j, place⟩ := List.mem_iff_getElem?.mp later
      obtain ⟨j, place, last⟩ := ih place
      exact ⟨j + 1, place, last⟩
    · cases i with
      | zero => exact ⟨0, named, later⟩
      | succ i => exact absurd (List.mem_of_getElem? (i := i) named) later

/-- Every name stands for the value at its own place, wherever it stands, exactly if the values at
places of one name are the same. -/
theorem withVars_faithful_iff (count : values.length = names.length) :
    (∀ (i : Nat) key value, names[i]? = some key → values[i]? = some value →
      (scope.withVars names values).vars key = some value) ↔
    ∀ i j : Nat, names[i]? = names[j]? → values[i]? = values[j]? := by
  have valued {i : Nat} (h : i < names.length) : ∃ value, values[i]? = some value :=
    ⟨values[i], List.getElem?_eq_getElem (count ▸ h)⟩
  constructor
  · intro faithful i j same
    by_cases place : i < names.length
    · have named := List.getElem?_eq_getElem place
      have named' := same.symm.trans named
      obtain ⟨place', -⟩ := List.getElem?_eq_some_iff.mp named'
      obtain ⟨value, first⟩ := valued place
      obtain ⟨value', second⟩ := valued place'
      have alike := (faithful i _ value named first).symm.trans (faithful j _ value' named' second)
      rw [first, second, alike]
    · have none := List.getElem?_eq_none (Nat.not_lt.mp place)
      have none' := List.getElem?_eq_none_iff.mp (same.symm.trans none)
      rw [List.getElem?_eq_none (by omega), List.getElem?_eq_none (by omega)]
  · intro same i key value named value_i
    obtain ⟨j, named', last⟩ := last_place named
    have value_j := (same i j (named.trans named'.symm)).symm.trans value_i
    exact withVars_last named' value_j last

/-- What is known of a scope that extends another by values for names. -/
structure Binds (below : Scope) (names : List String) (values : List Decimal) (scope : Scope) :
    Prop where
  last : ∀ (i : Nat) key value, names[i]? = some key → values[i]? = some value →
    key ∉ names.drop (i + 1) → scope.vars key = some value
  faithful_iff : (∀ (i : Nat) key value, names[i]? = some key → values[i]? = some value →
    scope.vars key = some value) ↔ ∀ i j : Nat, names[i]? = names[j]? → values[i]? = values[j]?
  other : ∀ key ∉ names, scope.vars key = below.vars key
  operators : scope.operators = below.operators
  functions : scope.functions = below.functions
  options : scope.options = below.options

theorem withVars_binds (count : values.length = names.length) :
    scope.Binds names values (scope.withVars names values) where
  last _ _ _ := withVars_last
  faithful_iff := withVars_faithful_iff count
  other _ := withVars_other
  operators := (withVars_options names values scope).1
  functions := (withVars_options names values scope).2.1
  options := (withVars_options names values scope).2.2

/-- Finite arguments can be bound to all names of variables. -/
theorem bindParameters_labels (count : values.length = names.length)
    (labels : ∀ name ∈ names, Label .variableName name.toList)
    (finite : ∀ value ∈ values, value.isFinite = true) :
    scope.bindParameters names values = .ok (scope.withVars names values) := by
  fun_induction withVars scope names values with
  | case1 scope name names value values ih =>
    obtain ⟨label, labels⟩ := List.forall_mem_cons.mp labels
    obtain ⟨first, finite⟩ := List.forall_mem_cons.mp finite
    simp only [bindParameters, validateName_label label, first, if_true]
    exact ih (Nat.succ.inj count) labels finite
  | case2 scope names values unpaired =>
    unfold bindParameters
    split
    · exact (unpaired _ _ _ _ rfl rfl).elim
    · rfl

end Scope

namespace Evaluation

variable {family : Family} {id : EnvId} {arguments : List Decimal}

/-! ## Calls -/

/-- What a call evaluates once the parameters are bound: the body, or the other expression when the
condition gives one. -/
def evaluateBody (inner : Inner) (family : Family) (id : EnvId) (f : UserFunction) :
    Evaluation Decimal :=
  match f.guard with
  | none => inner family id f.body.toList
  | some guard => do
    let condition ← inner family id guard.condition.toList
    if condition.sameValue .one then inner family id guard.result.toList
    else inner family id f.body.toList

theorem callUser_bound (inner : Inner) {f : UserFunction} {called : Family}
    (count : arguments.length = f.parameters.length)
    (bound : bindParameters (family.overlay (f.scope.getD id)).1
      (family.overlay (f.scope.getD id)).2 f.parameters arguments = .ok called) :
    callUser inner family id f arguments =
      evaluateBody inner called (family.overlay (f.scope.getD id)).2 f := by
  simp only [callUser, count, ne_eq, not_true_eq_false, if_false, bound]
  rfl

/-- A call of a function that a definition defines, with as many finite arguments as it has
parameters: its texts are evaluated in an environment in which the parameters are bound, and what
was there before the call stays as it is. -/
theorem callUser_scope {text : String} {d : Definition} {parameters : List String}
    {bound : Option EnvId} (built : family.Built) (exist : id < family.members.size)
    (owned : ∀ owner, bound = some owner → owner < family.members.size)
    (read : Definition.parse text = .ok d) (declared : d.parameters = some parameters)
    (count : arguments.length = parameters.length)
    (finite : ∀ value ∈ arguments, value.isFinite = true) :
    ∃ called inside,
      (∀ inner, callUser inner family id (d.function parameters bound) arguments =
        evaluateBody inner called inside (d.function parameters bound)) ∧
      (∀ now, (family.scope now (bound.getD id)).Binds parameters arguments
        (called.scope now inside)) ∧
      (∀ i < family.members.size, called.environment i = family.environment i) ∧
      called.answers = family.answers := by
  have wf := Family.built_wellFormed built
  have below : bound.getD id < family.members.size := by
    cases bound with
    | none => exact exist
    | some owner => exact owned owner rfl
  have labels : ∀ name ∈ parameters, Label .variableName name.toList := fun name mem =>
    have label := (parse_stated bound read declared).parameters name mem
    ⟨label.valid, label.symbols⟩
  have added : (family.overlay (bound.getD id)).2 <
      (family.overlay (bound.getD id)).1.members.size := by
    simp [Family.overlay, Family.add]
  have made (now : Int) :=
    Family.bindParameters_scope now parameters arguments _ (.overlay built below) added
  simp only [Family.overlay_scope wf below, Scope.bindParameters_labels count labels finite] at made
  obtain ⟨called, run, -, -, -, answers, others⟩ := made 0
  refine ⟨called, (family.overlay (bound.getD id)).2, fun inner => callUser_bound inner count run,
    fun now => ?_, fun i old => ?_, answers⟩
  · obtain ⟨called', run', -, same, -⟩ := made now
    cases run.symm.trans run'
    rw [same]
    exact Scope.withVars_binds count
  · have grown := Family.grown_overlay family (bound.getD id)
    rw [others i (Nat.ne_of_lt old), grown.kept i old]

/-- A definition whose parameters have the names of a constant and of the last answer. -/
def shadowing : Definition := ⟨"f", some ["pi", "ans"], some ⟨"pi > ans", "ans"⟩, "pi + now"⟩

theorem callUser_scope_shadowing :
    Definition.parse "f(pi, ans) = [pi > ans] [ans] pi + now" = .ok shadowing ∧
    ∃ called inside,
      (∀ inner, callUser inner Family.empty.addStandard.1 0 (shadowing.function ["pi", "ans"] none)
          [.ofInt 2, .ofInt 1] =
        evaluateBody inner called inside (shadowing.function ["pi", "ans"] none)) ∧
      (called.scope 0 inside).vars "pi" = some (.ofInt 2) ∧
      (called.scope 0 inside).vars "ans" = some (.ofInt 1) ∧
      (called.scope 0 inside).vars "now" =
        (Family.empty.addStandard.1.scope 0 0).vars "now" ∧
      called.environment 0 = Family.empty.addStandard.1.environment 0 := by
  have read : Definition.parse "f(pi, ans) = [pi > ans] [ans] pi + now" = .ok shadowing := rfl
  have exist : 0 < Family.empty.addStandard.1.members.size :=
    Family.standard_size.symm ▸ Nat.one_pos
  have unbound : ∀ owner, (none : Option EnvId) = some owner →
      owner < Family.empty.addStandard.1.members.size := nofun
  have finite : ∀ value ∈ [Decimal.ofInt 2, .ofInt 1], value.isFinite = true := by decide
  obtain ⟨called, inside, run, binds, kept, -⟩ :=
    callUser_scope (Family.built_addStandard .empty) exist unbound read rfl rfl finite
  refine ⟨read, called, inside, run, ?_, ?_, (binds 0).other "now" (by decide), kept 0 exist⟩
  · exact (binds 0).last 0 "pi" (.ofInt 2) rfl rfl (by decide)
  · exact (binds 0).last 1 "ans" (.ofInt 1) rfl rfl (by decide)

/-- The first of two parameters of one name does not stand for the first argument. -/
theorem callUser_repeated :
    Definition.parse "f(a,a) = a" = .ok ⟨"f", some ["a", "a"], none, "a"⟩ ∧
    result (callUser (evaluateAt ⟨0, false⟩ stackRoom 0) Family.empty.addStandard.1 0
      ⟨"f", ["a", "a"], "a", none, none⟩ [.ofInt 1, .ofInt 2] (.start 0)) = .ok (.ofInt 2) :=
  ⟨rfl, by decide +kernel⟩

end Evaluation
end Calculator
