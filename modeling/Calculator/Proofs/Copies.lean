import Calculator.Proofs.Likeness

/-!
# Calculator.Proofs.Copies

The two ways of copying an environment. An overlay says what differs from the original and shows
the rest through; a snapshot says everything itself. Nobody who uses them can tell them apart, as
long as the original and what it lies over stay as they are.

* `Change.decided`: a change is refused or carried out without a look at the environment.
* `Copies`: the families that come about while both copies undergo the same changes, and anything
  may happen elsewhere.
* `copies_paired`: along all of them the copies show the same.
* `copies_agree`: so they agree on names, options and refusals, and evaluate every text alike.
-/

namespace Calculator

/-! ## Changes -/

/-- A change of one environment. -/
inductive Change where
  | setVariable (name : Option String) (value : Assignment)
  | setFunction (name : Option String) (f : Offer Function)
  | setOperation (symbol : Option String) (op : Offer Operation) (precedence : Offer Int)
  | setContext (ctx : Offer Context)
  | setBracketMultiply (on : Bool)
  | setVariableMultiply (on : Bool)
  | setMaxDepth (most : Int)

/-- What a change that is not refused does to an environment. -/
inductive Effect where
  | register (kind : Kind) (key : String) (value : Option kind.Value)
  | adjust (change : Options → Options)

namespace Change

def run (family : Family) (id : EnvId) : Change → Except Refusal Family
  | setVariable name value => family.setVariable id name value
  | setFunction name f => family.setFunction id name f
  | setOperation symbol op precedence => family.setOperation id symbol op precedence
  | setContext ctx => family.assignContext id ctx
  | setBracketMultiply on =>
    .ok (family.modifyOptions id fun options => { options with bracketMultiply := on })
  | setVariableMultiply on =>
    .ok (family.modifyOptions id fun options => { options with variableMultiply := on })
  | setMaxDepth most => .ok (family.modifyOptions id fun options => { options with maxDepth := most })

/-- A user function that the change brings is bound to one of the first `size` environments. -/
def Bound (size : Nat) (change : Change) : Prop :=
  ∀ name u scope, change = .setFunction name (.given (.user u)) → u.scope = some scope → scope < size

end Change

namespace Effect

def apply (family : Family) (id : EnvId) : Effect → Family
  | register kind key value => family.register id kind key value
  | adjust change => family.modifyOptions id change

variable {family other : Family} {id twin : EnvId}

theorem apply_other (effect : Effect) {i : EnvId} (ne : i ≠ id) :
    (effect.apply family id).environment i = family.environment i := by
  cases effect with
  | register kind key value => exact Family.register_environment_other kind key value ne
  | adjust change => exact Family.modifyEnvironment_other _ ne

theorem apply_size (effect : Effect) :
    (effect.apply family id).members.size = family.members.size := by
  cases effect with
  | register kind key value => exact Family.register_size family id kind key value
  | adjust change => exact Family.modifyEnvironment_size _ _ _

/-- No change moves an environment: it goes on lying over what it lay over. -/
theorem apply_layers (effect : Effect) (lt : id < family.members.size) (i : EnvId) :
    (effect.apply family id).layers i = family.layers i := by
  by_cases same : i = id
  · subst same
    rw [Family.layers, Family.layers]
    refine congrArg (i :: ·) ?_
    cases effect with
    | register kind key value =>
      obtain ⟨change, eq⟩ := Family.register_eq family i kind key value
      rw [apply, eq, Family.modifyTable, Family.modifyEnvironment_same _ lt,
        Family.setTable_lineage]
    | adjust change => rw [apply, Family.modifyOptions, Family.modifyEnvironment_same _ lt]
  · rw [Family.layers, Family.layers, effect.apply_other same]

/-- Nothing changes for an environment that does not lie over the changed one. -/
theorem apply_view_other (effect : Effect) {i : EnvId} (apart : id ∉ family.layers i) :
    (effect.apply family id).SameView i family i :=
  Family.view_kept fun _ mem => effect.apply_other fun same => apart (same ▸ mem)

theorem apply_view (effect : Effect) (view : family.SameView id other twin)
    (wf : family.WellFormed) (wf' : other.WellFormed) (lt : id < family.members.size)
    (lt' : twin < other.members.size) :
    (effect.apply family id).SameView id (effect.apply other twin) twin := by
  cases effect with
  | register kind key value => exact view.register wf wf' lt lt' kind key value
  | adjust change => exact view.modifyOptions wf wf' lt lt' change

end Effect

namespace Change

/-- Whether a change is refused, and what it does otherwise, is decided without a look at the
environment. -/
theorem decided (change : Change) :
    (∃ refusal, ∀ family id, change.run family id = .error refusal) ∨
    ∃ effect : Effect, ∀ family id, change.run family id = .ok (effect.apply family id) := by
  cases change with
  | setVariable name value =>
    simp only [run, Family.setVariable]
    cases validateName .variableName name with
    | error refusal => exact .inl ⟨refusal, fun _ _ => rfl⟩
    | ok key =>
      cases value.toVariable with
      | error refusal => exact .inl ⟨refusal, fun _ _ => rfl⟩
      | ok v => exact .inr ⟨.register .vars key v, fun _ _ => rfl⟩
  | setFunction name f =>
    simp only [run, Family.setFunction]
    cases validateName .functionName name with
    | error refusal => exact .inl ⟨refusal, fun _ _ => rfl⟩
    | ok key =>
      cases f with
      | nothing => exact .inr ⟨.register .functions key none, fun _ _ => rfl⟩
      | given f => exact .inr ⟨.register .functions key (some f), fun _ _ => rfl⟩
      | unfit kind => exact .inl ⟨_, fun _ _ => rfl⟩
  | setOperation symbol op precedence =>
    simp only [run, Family.setOperation]
    cases validateSymbol symbol with
    | error refusal => exact .inl ⟨refusal, fun _ _ => rfl⟩
    | ok key =>
      cases op with
      | nothing => exact .inr ⟨.register .operators key none, fun _ _ => rfl⟩
      | unfit kind => exact .inl ⟨_, fun _ _ => rfl⟩
      | given op =>
        cases h : Family.precedenceFor key op precedence with
        | error refusal => exact .inl ⟨refusal, fun _ _ => by simp only [h]⟩
        | ok n =>
          exact .inr ⟨.register .operators key (some ⟨key, op, n⟩), fun _ _ => by
            simp only [h]; rfl⟩
  | setContext ctx =>
    cases ctx with
    | nothing => exact .inl ⟨.absentContext, fun _ _ => rfl⟩
    | given ctx =>
      exact .inr ⟨.adjust fun options => { options with context := ctx }, fun _ _ => rfl⟩
    | unfit kind => exact .inl ⟨.noContext kind, fun _ _ => rfl⟩
  | setBracketMultiply on =>
    exact .inr ⟨.adjust fun options => { options with bracketMultiply := on }, fun _ _ => rfl⟩
  | setVariableMultiply on =>
    exact .inr ⟨.adjust fun options => { options with variableMultiply := on }, fun _ _ => rfl⟩
  | setMaxDepth most =>
    exact .inr ⟨.adjust fun options => { options with maxDepth := most }, fun _ _ => rfl⟩

theorem run_built {change : Change} {family changed : Family} {id : EnvId} (built : family.Built)
    (bound : change.Bound family.members.size) (run : change.run family id = .ok changed) :
    changed.Built := by
  cases change with
  | setVariable name value => exact .setVariable built run
  | setFunction name f =>
    exact .setFunction built run fun u scope given => bound name u scope (by rw [given])
  | setOperation symbol op precedence => exact .setOperation built run
  | setContext ctx => exact Family.built_assignContext built run
  | setBracketMultiply on => cases run; exact .setOptions built
  | setVariableMultiply on => cases run; exact .setOptions built
  | setMaxDepth most => cases run; exact .setOptions built

end Change

/-! ## Both copies -/

namespace Family

/-- The families that come about after an environment has been copied both ways: each change is
carried out in both copies, and elsewhere anything may happen, as long as the original and what it
lies over stay as they are. -/
inductive Copies (base : Family) (original shallow deep : EnvId) : Family → Prop
  | made {first family : Family} :
      base.overlay original = (first, shallow) → first.snapshot original = (family, deep) →
      Copies base original shallow deep family
  | changed {family middle after : Family} {change : Change} :
      Copies base original shallow deep family → change.Bound family.members.size →
      change.run family shallow = .ok middle → change.run middle deep = .ok after →
      Copies base original shallow deep after
  | elsewhere {family other : Family} :
      Copies base original shallow deep family → other.Built →
      family.members.size ≤ other.members.size →
      (∀ i ∈ shallow :: deep :: base.layers original,
        other.environment i = family.environment i) →
      Copies base original shallow deep other

theorem copies_made (base : Family) (original : EnvId) :
    Copies base original base.members.size (base.members.size + 1)
      ((base.overlay original).1.snapshot original).1 :=
  .made rfl (Prod.ext rfl (overlay_size base original))

/-- What stays true of both copies. -/
structure Paired (base : Family) (original shallow deep : EnvId) (family : Family) : Prop where
  built : family.Built
  shallow_lt : shallow < family.members.size
  deep_lt : deep < family.members.size
  apart : shallow ≠ deep
  fresh : deep ∉ base.layers original
  shallow_layers : family.layers shallow = shallow :: base.layers original
  deep_layers : family.layers deep = [deep]
  view : family.SameView shallow family deep

variable {base family : Family} {original shallow deep : EnvId}

theorem paired_made (built : base.Built) (exist : original < base.members.size) :
    Paired base original (base.overlay original).2 ((base.overlay original).1.snapshot original).2
      ((base.overlay original).1.snapshot original).1 := by
  have wf := built_wellFormed built
  have size := overlay_size base original
  have size' := snapshot_size (base.overlay original).1 original
  have exist' : original < (base.overlay original).1.members.size :=
    size ▸ Nat.lt_succ_of_lt exist
  have shallow_lt : (base.overlay original).2 < (base.overlay original).1.members.size :=
    size ▸ Nat.lt_succ_self _
  have built' : (base.overlay original).1.Built := .overlay built exist
  have later := grown_snapshot (base.overlay original).1 original
  have onShallow := (grown_view (built_wellFormed built') later shallow_lt).trans
    (overlay_view wf exist)
  have onDeep := (snapshot_view (built_distinct built') original).trans
    (grown_view wf (grown_overlay base original) exist)
  exact {
    built := .snapshot built' exist'
    shallow_lt := size' ▸ Nat.lt_succ_of_lt shallow_lt
    deep_lt := size' ▸ Nat.lt_succ_self _
    apart := Nat.ne_of_lt shallow_lt
    fresh := fun mem => Nat.lt_asymm (layers_lt wf exist _ mem) shallow_lt
    shallow_layers := by
      rw [← overlay_layers, layers, layers, later.kept _ shallow_lt]
    deep_layers := snapshot_layers _ original
    view := onShallow.trans onDeep.symm }

theorem Paired.shallow_apart (h : Paired base original shallow deep family) :
    shallow ∉ family.layers deep := by
  rw [h.deep_layers, List.mem_singleton]
  exact h.apart

/-- A change that both copies undergo keeps them paired: the second one shows what it did until it
is changed too, and the first one shows the change from then on. -/
theorem Paired.changed {middle after : Family} {change : Change}
    (h : Paired base original shallow deep family) (bound : change.Bound family.members.size)
    (first : change.run family shallow = .ok middle) (second : change.run middle deep = .ok after) :
    Paired base original shallow deep after := by
  have built : middle.Built := Change.run_built h.built bound first
  rcases change.decided with ⟨refusal, refused⟩ | ⟨effect, done⟩
  · rw [refused] at first
    cases first
  · have size : middle.members.size = family.members.size := by
      rw [done] at first
      cases first
      exact effect.apply_size
    have built' : after.Built := Change.run_built built (by rw [size]; exact bound) second
    have deep_lt : deep < middle.members.size := by
      rw [size]
      exact h.deep_lt
    rw [done] at first second
    cases first
    cases second
    have layers : (effect.apply family shallow).layers shallow = shallow :: base.layers original :=
      (effect.apply_layers h.shallow_lt shallow).trans h.shallow_layers
    have deep_apart : deep ∉ (effect.apply family shallow).layers shallow := by
      rw [layers, List.mem_cons, not_or]
      exact ⟨h.apart.symm, h.fresh⟩
    have waiting := effect.apply_view_other h.shallow_apart
    have finished := effect.apply_view_other deep_apart
    have both := effect.apply_view (h.view.trans waiting.symm) (built_wellFormed h.built)
      (built_wellFormed built) h.shallow_lt deep_lt
    exact {
      built := built'
      shallow_lt := by
        rw [effect.apply_size, size]
        exact h.shallow_lt
      deep_lt := by
        rw [effect.apply_size]
        exact deep_lt
      apart := h.apart
      fresh := h.fresh
      shallow_layers := (effect.apply_layers deep_lt shallow).trans layers
      deep_layers := (effect.apply_layers deep_lt deep).trans
        ((effect.apply_layers h.shallow_lt deep).trans h.deep_layers)
      view := finished.trans both }

/-- Nothing that happens elsewhere parts them. -/
theorem Paired.elsewhere {other : Family} (h : Paired base original shallow deep family)
    (built : other.Built) (le : family.members.size ≤ other.members.size)
    (kept : ∀ i ∈ shallow :: deep :: base.layers original,
      other.environment i = family.environment i) :
    Paired base original shallow deep other := by
  have onShallow : ∀ i ∈ family.layers shallow, other.environment i = family.environment i := by
    intro i mem
    rw [h.shallow_layers] at mem
    refine kept i ?_
    rcases List.mem_cons.mp mem with rfl | below
    · exact List.mem_cons_self
    · exact List.mem_cons_of_mem _ (List.mem_cons_of_mem _ below)
  have deep_kept : other.environment deep = family.environment deep :=
    kept deep (List.mem_cons_of_mem _ List.mem_cons_self)
  have onDeep : ∀ i ∈ family.layers deep, other.environment i = family.environment i := by
    intro i mem
    rw [h.deep_layers, List.mem_singleton] at mem
    rw [mem, deep_kept]
  exact {
    built := built
    shallow_lt := Nat.lt_of_lt_of_le h.shallow_lt le
    deep_lt := Nat.lt_of_lt_of_le h.deep_lt le
    apart := h.apart
    fresh := h.fresh
    shallow_layers := by
      rw [← h.shallow_layers, layers, layers, onShallow _ List.mem_cons_self]
    deep_layers := by rw [← h.deep_layers, layers, layers, deep_kept]
    view := (view_kept onShallow).trans (h.view.trans (view_kept onDeep).symm) }

theorem copies_paired (built : base.Built) (exist : original < base.members.size)
    (copies : Copies base original shallow deep family) :
    Paired base original shallow deep family := by
  induction copies with
  | made overlaid taken =>
    cases overlaid
    cases taken
    exact paired_made built exist
  | changed _ bound first second ih => exact ih.changed bound first second
  | elsewhere _ later le kept ih => exact ih.elsewhere later le kept

/-- Whatever both copies undergo, they agree: on what every name stands for, on the names, on the
options, and on whether a further change is refused and why. Every text has the same value or the
same failure in both, with the same report and random numbers; and if it reads no clock and draws
no random number, then at different times and with different random numbers as well. -/
theorem copies_agree (built : base.Built) (exist : original < base.members.size)
    (copies : Copies base original shallow deep family) :
    (∀ kind key, family.lookup shallow kind key = family.lookup deep kind key) ∧
    (∀ kind, (family.names shallow kind).Perm (family.names deep kind)) ∧
    family.options shallow = family.options deep ∧
    (∀ change : Change,
      (∃ refusal, change.run family shallow = .error refusal ∧
        change.run family deep = .error refusal) ∨
      ∃ middle after, change.run family shallow = .ok middle ∧
        change.run middle deep = .ok after) ∧
    (∀ setting text s, Evaluation.evaluate setting family shallow text s =
      Evaluation.evaluate setting family deep text s) ∧
    ∀ text, ¬ family.Uses shallow text.toList → ∀ tracing now now' s t,
      result (Evaluation.evaluate ⟨now, tracing⟩ family shallow text s) =
        result (Evaluation.evaluate ⟨now', tracing⟩ family deep text t) := by
  have paired := copies_paired built exist copies
  have distinct := built_distinct paired.built
  refine ⟨paired.view.lookup, paired.view.names distinct distinct, paired.view.options, ?_, ?_, ?_⟩
  · intro change
    rcases change.decided with ⟨refusal, refused⟩ | ⟨effect, done⟩
    · exact .inl ⟨refusal, refused family shallow, refused family deep⟩
    · exact .inr ⟨_, _, done family shallow, done _ deep⟩
  · exact fun setting text s => Evaluation.evaluate_view paired.built paired.shallow_lt
      paired.deep_lt paired.view setting text s
  · intro text free tracing now now' s t
    exact Evaluation.evaluate_unused paired.built paired.shallow_lt paired.deep_lt paired.view free
      tracing now now' s t

/-! ## A name that was hidden and is set anew -/

/-- The standard environment under an overlay. -/
def covered : Family := (empty.addStandard.1.overlay 0).1

theorem covered_built : covered.Built :=
  .overlay (built_addStandard .empty) (by rw [standard_size]; exact Nat.zero_lt_one)

/-- The standard environment under an overlay that hides `pi`. -/
def hidden : Family := (empty.addStandard.1.overlay 0).1.register 1 .vars "pi" none

theorem hidden_size : hidden.members.size = 2 := by
  rw [hidden, register_size, overlay_size, standard_size]

theorem hidden_built : hidden.Built := by
  have set : covered.setVariable 1 (some "pi") .nothing = .ok hidden := rfl
  exact .setVariable covered_built set

/-- Both copies of the overlay, after `pi` has been set in them. -/
def renewed : Family :=
  (((hidden.overlay 1).1.snapshot 1).1.register 2 .vars "pi" (some (.fixed (.ofInt 3)))).register 3
    .vars "pi" (some (.fixed (.ofInt 3)))

theorem renewed_copies : Copies hidden 1 2 3 renewed := by
  have made := copies_made hidden 1
  rw [hidden_size] at made
  exact @Copies.changed _ _ _ _ _ _ _ (.setVariable (some "pi") (.number (.ofInt 3))) made nofun
    rfl rfl

theorem renewed_unused : ¬ renewed.Uses 2 "2 * pi".toList := by
  have operands : operandsOf "2 * pi".toList = [.numeral ['2'], .word ['p', 'i']] := by decide
  refine not_uses fun operand mem => ?_
  rw [operands] at mem
  rcases List.mem_cons.mp mem with rfl | mem
  · exact .inl ⟨['2'], rfl⟩
  · rw [List.mem_singleton] at mem
    exact .inr ⟨['p', 'i'], mem, by decide +kernel⟩

theorem copies_agree_renewed :
    Copies hidden 1 2 3 renewed ∧
    renewed.lookup 2 .vars "pi" = renewed.lookup 3 .vars "pi" ∧
    (renewed.names 2 .vars).Perm (renewed.names 3 .vars) ∧
    ∀ now now' s t, result (Evaluation.evaluate ⟨now, false⟩ renewed 2 "2 * pi" s) =
      result (Evaluation.evaluate ⟨now', false⟩ renewed 3 "2 * pi" t) := by
  have exist : 1 < hidden.members.size := by
    rw [hidden_size]
    exact Nat.one_lt_two
  obtain ⟨lookups, names, -, -, -, unused⟩ := copies_agree hidden_built exist renewed_copies
  exact ⟨renewed_copies, lookups .vars "pi", names .vars, unused "2 * pi" renewed_unused false⟩

end Family
end Calculator
