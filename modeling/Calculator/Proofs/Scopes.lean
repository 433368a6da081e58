import Calculator.Evaluation
import Calculator.Proofs.Views

/-!
# Calculator.Proofs.Scopes

What an environment is to an expression: maps from names to what they stand for, and options.

* `overlay_scope`: an overlay shows what lies below it.
* `bindParameters_scope`: binding parameters extends the map of variables, and changes nothing else.
* `Shows`: what an environment of a family that has grown is to an expression.
* `grown_scope`: environments that were there before show the same in a family that has grown.
-/

namespace Calculator

structure Scope where
  operators : String → Option Binding
  functions : String → Option Function
  vars : String → Option Decimal
  options : Options

namespace Scope

/-- The scope in which a name stands for a value. -/
def withVar (scope : Scope) (key : String) (value : Decimal) : Scope :=
  { scope with vars := fun name => if name = key then some value else scope.vars name }

/-- The scope in which parameters stand for arguments, which have to be finite. -/
def bind (scope : Scope) : List String → List Decimal → Option Scope
  | name :: names, value :: values =>
    match validateName .variableName (some name) with
    | .error _ => none
    | .ok key => if value.isFinite then (scope.withVar key value).bind names values else none
  | _, _ => some scope

/-- The same, with the reason when parameters cannot be bound. -/
def bindParameters (scope : Scope) : List String → List Decimal → Except Refusal Scope
  | name :: names, value :: values =>
    match validateName .variableName (some name) with
    | .error refusal => .error refusal
    | .ok key =>
      if value.isFinite then (scope.withVar key value).bindParameters names values
      else .error (.value value.text)
  | _, _ => .ok scope

theorem bind_eq (names : List String) : ∀ (values : List Decimal) (scope : Scope),
    scope.bind names values = (scope.bindParameters names values).toOption := by
  induction names with
  | nil => exact fun _ _ => rfl
  | cons name names ih =>
    intro values scope
    cases values with
    | nil => rfl
    | cons value values =>
      unfold bind bindParameters
      split
      · rfl
      · split
        · exact ih values _
        · rfl

end Scope

namespace Family

/-- What an environment is to an expression that is evaluated at a time. -/
def scope (family : Family) (now : Int) (id : EnvId) : Scope where
  operators := family.lookup id .operators
  functions := family.lookup id .functions
  vars name := (family.lookup id .vars name).map (family.valueOf now)
  options := family.options id

theorem valueOf_congr {family other : Family} (h : other.answers = family.answers) (now : Int) :
    other.valueOf now = family.valueOf now := by
  funext v
  cases v <;> simp [valueOf, h]

/-- Environments that show the same are the same to an expression. -/
theorem view_scope {family other : Family} {id twin : EnvId} (now : Int)
    (h : SameView family id other twin) (ha : family.answers = other.answers) :
    family.scope now id = other.scope now twin := by
  have lookups (kind : Kind) : family.lookup id kind = other.lookup twin kind :=
    funext fun key => h.lookup kind key
  simp only [scope, lookups, valueOf_congr ha, h.options]

/-! ## Growing families -/

/-- A family has grown: what was there is unchanged. -/
structure Grown (base family : Family) : Prop where
  size : base.members.size ≤ family.members.size
  kept : ∀ i, i < base.members.size → family.environment i = base.environment i
  answers : family.answers = base.answers

theorem Grown.refl (family : Family) : Grown family family :=
  ⟨Nat.le_refl _, fun _ _ => rfl, rfl⟩

theorem Grown.trans {a b c : Family} (hab : Grown a b) (hbc : Grown b c) : Grown a c where
  size := Nat.le_trans hab.size hbc.size
  kept i lt := by rw [hbc.kept i (Nat.lt_of_lt_of_le lt hab.size), hab.kept i lt]
  answers := hbc.answers.trans hab.answers

theorem grown_view {base family : Family} {id : EnvId} (wf : base.WellFormed)
    (grown : Grown base family) (lt : id < base.members.size) : SameView family id base id :=
  view_kept fun i mem => grown.kept i (layers_lt wf lt i mem)

theorem grown_scope {base family : Family} {id : EnvId} (wf : base.WellFormed)
    (grown : Grown base family) (lt : id < base.members.size) (now : Int) :
    family.scope now id = base.scope now id :=
  view_scope now (grown_view wf grown lt) grown.answers

theorem grown_add (family : Family) (env : Environment) : Grown family (family.add env).1 where
  size := by simp
  kept i lt := add_environment_old lt
  answers := rfl

theorem grown_overlay (family : Family) (id : EnvId) : Grown family (family.overlay id).1 :=
  grown_add family _

theorem grown_snapshot (family : Family) (id : EnvId) : Grown family (family.snapshot id).1 :=
  grown_add family _

/-- An overlay is to an expression what the environment below it is. -/
theorem overlay_scope {family : Family} {id : EnvId} (wf : family.WellFormed)
    (lt : id < family.members.size) (now : Int) :
    (family.overlay id).1.scope now (family.overlay id).2 = family.scope now id :=
  view_scope now (overlay_view wf lt) rfl

/-! ## Parameters -/

/-- A variable that is stored shadows what was there, and nothing else changes. -/
theorem store_scope {family : Family} {id : EnvId} (wf : family.WellFormed)
    (lt : id < family.members.size) (now : Int) (key : String) (value : Decimal) :
    (family.register id .vars key (some (.fixed value))).scope now id =
      (family.scope now id).withVar key value := by
  have others (kind : Kind) (ne : kind ≠ .vars) :
      (family.register id .vars key (some (.fixed value))).lookup id kind =
        family.lookup id kind :=
    funext fun name => lookup_register_other wf lt key _ ne name
  have values : (family.register id .vars key (some (.fixed value))).valueOf now =
      family.valueOf now := valueOf_congr rfl now
  have vars : (fun name => ((family.register id .vars key (some (.fixed value))).lookup id .vars
      name).map (family.valueOf now)) = ((family.scope now id).withVar key value).vars := by
    funext name
    rw [lookup_register wf lt .vars]
    by_cases same : name = key <;> simp [Scope.withVar, same, valueOf, scope]
  simp only [scope, others .operators (by decide), others .functions (by decide),
    options_register lt, values, vars]
  rfl

/-- A number is registered as a variable with a fixed value, provided that it is finite. -/
theorem setVariable_number (family : Family) (id : EnvId) (name : String) (value : Decimal) :
    family.setVariable id (some name) (.number value) =
      match validateName .variableName (some name) with
      | .error refusal => .error refusal
      | .ok key =>
        if value.isFinite then .ok (family.register id .vars key (some (.fixed value)))
        else .error (.value value.text) := by
  rw [setVariable, Assignment.toVariable, Variable.ofDecimal]
  cases validateName .variableName (some name) with
  | error refusal => rfl
  | ok key => cases value.isFinite <;> rfl

/-- Parameters are bound as in the scope: the environment changes as the scope does, and all others
stay as they are. -/
theorem bindParameters_scope {id : EnvId} (now : Int) (names : List String) :
    ∀ (values : List Decimal) (family : Family), family.Built → id < family.members.size →
      match (family.scope now id).bindParameters names values with
      | .error refusal => Evaluation.bindParameters family id names values = .error refusal
      | .ok scope => ∃ bound, Evaluation.bindParameters family id names values = .ok bound ∧
          bound.Built ∧ bound.scope now id = scope ∧ bound.members.size = family.members.size ∧
          bound.answers = family.answers ∧
          ∀ i, i ≠ id → bound.environment i = family.environment i := by
  induction names with
  | nil =>
    intro values family built lt
    exact ⟨family, rfl, built, rfl, rfl, rfl, fun _ _ => rfl⟩
  | cons name names ih =>
    intro values family built lt
    cases values with
    | nil => exact ⟨family, rfl, built, rfl, rfl, rfl, fun _ _ => rfl⟩
    | cons value values =>
      have set := setVariable_number family id name value
      simp only [Scope.bindParameters, Evaluation.bindParameters]
      cases named : validateName .variableName (some name) with
      | error refusal =>
        rw [named] at set
        rw [set]
      | ok key =>
        rw [named] at set
        cases finite : value.isFinite with
        | false =>
          rw [finite] at set
          rw [set]
          rfl
        | true =>
          rw [finite] at set
          have size := register_size family id .vars key (some (.fixed value))
          have next := ih values _ (.setVariable built set) (by rw [size]; exact lt)
          rw [store_scope (built_wellFormed built) lt] at next
          simp only [set, if_true]
          cases later : ((family.scope now id).withVar key value).bindParameters names values with
          | error refusal => rw [later] at next; exact next
          | ok scope =>
            rw [later] at next
            obtain ⟨bound, run, hb, same, hsize, hanswers, others⟩ := next
            exact ⟨bound, run, hb, same, hsize.trans size, hanswers, fun i ne =>
              (others i ne).trans (register_environment_other .vars key _ ne)⟩

/-! ## Environments seen as scopes -/

/-- An environment of a family that has grown from `base` is to an expression a certain scope. The
functions of that scope are bound to environments of `base` only. -/
structure Shows (base : Family) (now : Int) (family : Family) (id : EnvId) (scope : Scope) :
    Prop where
  built : family.Built
  grown : base.Grown family
  exist : id < family.members.size
  same : family.scope now id = scope
  owners : ∀ name f, scope.functions name = some (.user f) →
    ∀ owner, f.scope = some owner → owner < base.members.size

section

variable {base family : Family} {now : Int} {id : EnvId} {scope : Scope}

theorem Shows.start (built : base.Built) (lt : id < base.members.size) (now : Int) :
    base.Shows now base id (base.scope now id) where
  built := built
  grown := .refl base
  exist := lt
  same := rfl
  owners _ f found owner := (lookup_admissible (built_wellFormed built) found).2 f owner rfl

/-- The environment that a function is evaluated over: the one it is bound to, or the calling
one. -/
theorem Shows.owner (built : base.Built) (shows : base.Shows now family id scope)
    {f : UserFunction} (owned : ∀ owner, f.scope = some owner → owner < base.members.size) :
    base.Shows now family (f.scope.getD id) (f.scope.elim scope (base.scope now)) := by
  cases bound : f.scope with
  | none => exact shows
  | some owner =>
    have lt := owned owner bound
    exact {
      built := shows.built
      grown := shows.grown
      exist := Nat.lt_of_lt_of_le lt shows.grown.size
      same := grown_scope (built_wellFormed built) shows.grown lt now
      owners := (Shows.start built lt now).owners }

theorem bindParameters_functions {names : List String} : ∀ {values : List Decimal}
    {scope more : Scope}, scope.bindParameters names values = .ok more →
    more.functions = scope.functions := by
  induction names with
  | nil =>
    intro values scope more h
    cases h
    rfl
  | cons name names ih =>
    intro values scope more h
    cases values with
    | nil => cases h; rfl
    | cons value values =>
      unfold Scope.bindParameters at h
      split at h
      · cases h
      · split at h
        · exact (ih h).trans rfl
        · cases h

/-- Parameters are bound in an overlay of an environment as in the scope that it is. -/
theorem Shows.bindParameters (shows : base.Shows now family id scope) (names : List String)
    (values : List Decimal) :
    match scope.bindParameters names values with
    | .error refusal =>
      Evaluation.bindParameters (family.overlay id).1 (family.overlay id).2 names values =
        .error refusal
    | .ok more => ∃ bound,
        Evaluation.bindParameters (family.overlay id).1 (family.overlay id).2 names values =
          .ok bound ∧ base.Shows now bound (family.overlay id).2 more := by
  have wf := built_wellFormed shows.built
  have built : (family.overlay id).1.Built := .overlay shows.built shows.exist
  have lt : (family.overlay id).2 < (family.overlay id).1.members.size := by
    simp [overlay, add]
  have h := bindParameters_scope now names values _ built lt
  rw [overlay_scope wf shows.exist, shows.same] at h
  cases bindings : scope.bindParameters names values with
  | error refusal => rw [bindings] at h; exact h
  | ok more =>
    rw [bindings] at h
    obtain ⟨bound, run, hbuilt, same, size, answers, others⟩ := h
    have grown := grown_overlay family id
    refine ⟨bound, run, {
      built := hbuilt
      grown := shows.grown.trans ⟨by rw [size]; exact grown.size, ?_, answers.trans grown.answers⟩
      exist := by rw [size]; exact lt
      same := same
      owners := by rw [bindParameters_functions bindings]; exact shows.owners }⟩
    intro i old
    rw [others i (Nat.ne_of_lt old)]
    exact grown.kept i old

end

end Family
end Calculator
