import Calculator.Proofs.Parsing
import Calculator.Proofs.ReductionValue
import Calculator.Proofs.Scopes
import Calculator.Proofs.Trees

/-!
# Calculator.Proofs.Interpreter

An interpreter of trees, and that evaluating a rendered tree is interpreting it.

The interpreter knows no text and no family of environments: it takes scopes, which are maps of
names, and the trees that the texts of user functions render. Operands are resolved from left to
right, a chain is the tree of its operators, and a user function is interpreted in the scope it is
bound to, or else in the calling one, with its parameters added. As many expressions may be open at
once as the options in force allow and as there is room for.

* `Agrees`: a computation succeeds exactly if an interpretation does, with the same result.
* `evaluateAt_agrees`: evaluating a rendered tree agrees with interpreting it.
* `evaluate_render_iff`: in an environment that can be built, a rendered tree has a value exactly if
  the interpreter gives that value.
-/

namespace Calculator

/-! ## The interpreter -/

/-- What may have no result, and may draw random numbers. -/
abbrev Interpretation := StateT Nat Option

namespace Interpretation

def ofOption {α : Type} (a : Option α) : Interpretation α := fun seed => a.map fun a => (a, seed)

def nativeResult (ctx : Context) (f : NativeFunction) (arguments : List Decimal) :
    Interpretation Decimal := fun seed =>
  if f.accepts arguments.length then
    match f.body with
    | .plain run => (run ctx arguments).toOption.map fun v => (v, seed)
    | .drawing run =>
      let seed := Evaluation.nextSeed seed
      (run ctx (Evaluation.fractionOf seed) arguments).toOption.map fun v => (v, seed)
  else none

section

variable (inner : Scope → Tree → Interpretation Decimal) (source : String → Tree)
  (bound : EnvId → Scope)

def userResult (scope : Scope) (f : UserFunction) (arguments : List Decimal) :
    Interpretation Decimal :=
  if arguments.length = f.parameters.length then
    match (f.scope.elim scope bound).bind f.parameters arguments with
    | none => ofOption none
    | some scope =>
      match f.guard with
      | none => inner scope (source f.body)
      | some guard => do
        let condition ← inner scope (source guard.condition)
        if condition.sameValue .one then inner scope (source guard.result)
        else inner scope (source f.body)
  else ofOption none

def callResult (scope : Scope) (arguments : List Decimal) : Function → Interpretation Decimal
  | .native f => nativeResult scope.options.context f arguments
  | .user f => userResult inner source bound scope f arguments

def argumentValues (scope : Scope) : Arguments → Interpretation (List Decimal)
  | .nil => return []
  | .cons first rest => do
    let value ← inner scope first
    return value :: (← argumentValues scope rest)

def atomValue (scope : Scope) : Atom → Interpretation Decimal
  | .numeral n => return .ofNumeral false n.text
  | .word name => ofOption (scope.vars (String.ofList name.text))
  | .bracket tree => inner scope tree
  | .call name arguments => do
    let f ← ofOption (scope.functions (String.ofList name.text))
    let values ← argumentValues inner scope arguments
    callResult inner source bound scope values f

/-- The value of an operand: that of its atom, with the opposite sign after a minus. -/
def signedValue (scope : Scope) (minus : Bool) (a : Atom) : Interpretation Decimal := do
  let value ← atomValue inner source bound scope a
  return if minus then value.negate else value

def clauses (scope : Scope) : Operations → Interpretation (List Clause)
  | .nil => return []
  | .cons symbol minus operand rest => do
    let operator ← ofOption (scope.operators (String.ofList symbol.text))
    let value ← signedValue inner source bound scope minus operand
    return ⟨operator, value⟩ :: (← clauses scope rest)

/-- The value of a chain: that of the tree of its operators. -/
def treeValue (scope : Scope) : Tree → Interpretation Decimal
  | .chain minus first rest => do
    let value ← signedValue inner source bound scope minus first
    let cs ← clauses inner source bound scope rest
    ofOption (chainValue scope.options.context value cs)

end

end Interpretation

/-- The value of a tree in a scope, while `depth` others are open and there is room for `room`
more. -/
def interpret (source : String → Tree) (bound : EnvId → Scope) :
    Nat → Nat → Scope → Tree → Interpretation Decimal
  | room, depth, scope, tree =>
    if scope.options.maxDepth < depth + 1 then .ofOption none
    else
      match room with
      | 0 => .ofOption none
      | room + 1 =>
        Interpretation.treeValue (interpret source bound room (depth + 1)) source bound scope tree

/-! ## Agreement -/

/-- A computation and an interpretation succeed together, with the same result. -/
def Agrees {α : Type} (x : Evaluation α) (y : Interpretation α) : Prop :=
  ∀ s : Session, match y s.seed with
    | none => ∃ failure s', x s = .error failure s'
    | some (a, seed) => ∃ events, x s = .ok a ⟨events, seed⟩

section

variable {α β : Type}

theorem agrees_pure (a : α) : Agrees (pure a) (pure a) := fun s => ⟨s.events, rfl⟩

theorem agrees_throw (failure : Failure) :
    Agrees (throw failure : Evaluation α) (.ofOption none) := fun s => ⟨failure, s, rfl⟩

theorem agrees_ofOption {x : Evaluation α} {a : Option α}
    (h : match a with
      | none => ∃ failure, x = throw failure
      | some a => x = pure a) : Agrees x (.ofOption a) := by
  cases a with
  | none =>
    obtain ⟨failure, rfl⟩ := h
    exact agrees_throw failure
  | some a =>
    obtain rfl := h
    exact agrees_pure a

theorem agrees_bind {x : Evaluation α} {y : Interpretation α} {f : α → Evaluation β}
    {g : α → Interpretation β} (h : Agrees x y) (hf : ∀ a, Agrees (f a) (g a)) :
    Agrees (x >>= f) (y >>= g) := by
  intro s
  have hx := h s
  change match (y s.seed).bind fun p => g p.1 p.2 with
    | none => _
    | some (b, seed) => _
  rw [bind_apply]
  cases hy : y s.seed with
  | none =>
    rw [hy] at hx
    obtain ⟨failure, s', run⟩ := hx
    exact ⟨failure, s', by rw [run]⟩
  | some p =>
    obtain ⟨a, seed⟩ := p
    rw [hy] at hx
    obtain ⟨events, run⟩ := hx
    rw [run]
    exact hf a ⟨events, seed⟩

theorem agrees_report {setting : Setting} {event : Unit → Event} {x : Evaluation α}
    {y : Interpretation α} (h : Agrees x y) :
    Agrees (do Evaluation.reportEvent setting event; x) y := by
  intro s
  rw [bind_apply, Evaluation.reportEvent, modify_apply]
  cases setting.tracing with
  | true => exact h { s with events := event () :: s.events }
  | false => exact h s

/-- What a computation gives, the interpretation gives. -/
theorem agrees_ok {x : Evaluation α} {y : Interpretation α} (h : Agrees x y) {a : α}
    {s s' : Session} (run : x s = .ok a s') : y s.seed = some (a, s'.seed) := by
  have hx := h s
  cases hy : y s.seed with
  | none =>
    rw [hy] at hx
    obtain ⟨failure, s'', failed⟩ := hx
    rw [run] at failed
    cases failed
  | some p =>
    rw [hy] at hx
    obtain ⟨events, given⟩ := hx
    rw [run] at given
    cases given
    rfl

theorem agrees_within {x : Evaluation α} {y : Interpretation α} (name : String)
    (h : Agrees x y) : Agrees (Evaluation.within name x) y := by
  intro s
  have hx := h s
  cases hy : y s.seed with
  | none =>
    rw [hy] at hx
    obtain ⟨failure, s', run⟩ := hx
    exact ⟨failure.within name, s', by rw [Evaluation.within, run]⟩
  | some p =>
    rw [hy] at hx
    obtain ⟨events, run⟩ := hx
    exact ⟨events, by rw [Evaluation.within, run]⟩

end

/-! ## Chains -/

theorem complete_ofSequence (ctx : Context) (tracing : Bool) (first : Decimal) (cs : List Clause) :
    match chainValue ctx first cs with
    | none => ∃ failure r,
        Reduction.complete ctx tracing (.start (.ofSequence first cs)) = .error failure r
    | some v => ∃ r, Reduction.complete ctx tracing (.start (.ofSequence first cs)) = .ok (some v) r := by
  have drop (c : Clause) (rest : List Clause) :
      match chainValue ctx first (c :: rest) with
      | none => ∃ failure r,
          Reduction.complete ctx tracing (.start (.ofClauses first (c :: rest))) = .error failure r
      | some v => ∃ r,
          Reduction.complete ctx tracing (.start (.ofClauses first (c :: rest))) = .ok (some v) r := by
    have h := Reduction.complete_value ctx tracing first c rest
    cases hv : chainValue ctx first (c :: rest) with
    | none => rw [hv] at h; exact h
    | some v =>
      rw [hv] at h
      obtain ⟨r, run, -⟩ := h
      exact ⟨r, run⟩
  cases cs with
  | cons c rest => exact drop c rest
  | nil =>
    have h := drop ⟨⟨Operation.handBack.symbol, .handBack, 0⟩, first⟩ []
    rw [chainValue_single] at h
    rw [chainValue_nil]
    exact h

/-- Reducing a chain gives the value of the tree of its operators. -/
theorem reduce_agrees (setting : Setting) (ctx : Context) (first : Decimal) (cs : List Clause) :
    Agrees (Evaluation.reduce setting ctx (.ofSequence first cs))
      (.ofOption (chainValue ctx first cs)) := by
  intro s
  have h := complete_ofSequence ctx setting.tracing first cs
  cases hv : chainValue ctx first cs with
  | none =>
    rw [hv] at h
    obtain ⟨failure, r, run⟩ := h
    exact ⟨failure, _, by rw [Evaluation.reduce, run]⟩
  | some v =>
    rw [hv] at h
    obtain ⟨r, run⟩ := h
    exact ⟨r.events ++ s.events, by rw [Evaluation.reduce, run]; rfl⟩

/-! ## Functions and operands -/

section

open Evaluation Interpretation

theorem callNative_agrees (ctx : Context) (f : NativeFunction) (arguments : List Decimal) :
    Agrees (callNative ctx f arguments) (nativeResult ctx f arguments) := by
  intro s
  cases accepted : f.accepts arguments.length with
  | false =>
    simp only [nativeResult, accepted, Bool.false_eq_true, if_false]
    exact ⟨.ofCause (.arity f.arity arguments.length), s, by simp [callNative, accepted]⟩
  | true =>
    cases hb : f.body with
    | plain run =>
      simp only [nativeResult, accepted, if_true, hb]
      cases hr : run ctx arguments with
      | error failure => exact ⟨failure, s, by simp [callNative, accepted, hb, hr, Evaluation.ofExcept]⟩
      | ok v => exact ⟨s.events, by simp [callNative, accepted, hb, hr, Evaluation.ofExcept]⟩
    | drawing run =>
      simp only [nativeResult, accepted, if_true, hb]
      cases hr : run ctx (fractionOf (nextSeed s.seed)) arguments with
      | error failure =>
        exact ⟨failure, { s with seed := nextSeed s.seed },
          by simp [callNative, accepted, hb, hr, draw, Evaluation.ofExcept]⟩
      | ok v => exact ⟨s.events, by simp [callNative, accepted, hb, hr, draw, Evaluation.ofExcept]⟩

/-- The text of a tree in which no name with brackets is called. -/
def Renders (source : String → Tree) (text : String) : Prop :=
  (source text).Plain ∧ (source text).render = text.toList

/-- The texts of a user function are those of trees. -/
structure UserFunction.RenderedBy (source : String → Tree) (f : UserFunction) : Prop where
  body : Renders source f.body
  guard : ∀ g, f.guard = some g → Renders source g.condition ∧ Renders source g.result

/-- An environment of a family that has grown from `base`, seen as a scope. Its user functions are
bound to certain environments of `base` only. -/
structure Situation (base : Family) (now : Int) (source : String → Tree) (bounds : EnvId → Prop)
    (family : Family) (id : EnvId) (scope : Scope) : Prop where
  built : family.Built
  grown : base.Grown family
  exist : id < family.members.size
  same : family.scope now id = scope
  functions : ∀ name f, scope.functions name = some (.user f) →
    f.RenderedBy source ∧ ∀ owner, f.scope = some owner → bounds owner

/-- The inner expressions of a tree agree. -/
def InnerAgrees (base : Family) (now : Int) (source : String → Tree) (bounds : EnvId → Prop)
    (inner : Inner) (eval : Scope → Tree → Interpretation Decimal) : Prop :=
  ∀ family id scope tree, Situation base now source bounds family id scope → tree.Plain →
    Agrees (inner family id tree.render) (eval scope tree)

variable {setting : Setting} {base family : Family} {source : String → Tree}
  {bounds : EnvId → Prop} {id : EnvId} {scope : Scope} {inner : Inner} {eval : Scope → Tree → Interpretation Decimal}

theorem Situation.bound {f : UserFunction}
    (hbase : ∀ i, bounds i →
      Situation base setting.now source bounds base i (base.scope setting.now i))
    (sit : Situation base setting.now source bounds family id scope)
    (hf : ∀ owner, f.scope = some owner → bounds owner) :
    Situation base setting.now source bounds family (f.scope.getD id)
      (f.scope.elim scope (base.scope setting.now)) := by
  cases hs : f.scope with
  | none => exact sit
  | some owner =>
    have there := hbase owner (hf owner hs)
    have wf := Family.built_wellFormed there.built
    exact ⟨sit.built, sit.grown, Nat.lt_of_lt_of_le there.exist sit.grown.size,
      Family.grown_scope wf sit.grown there.exist setting.now, there.functions⟩

theorem Situation.bindParameters (sit : Situation base setting.now source bounds family id scope)
    (names : List String) (values : List Decimal) :
    match scope.bind names values with
    | none => ∃ refusal,
        Evaluation.bindParameters (family.overlay id).1 (family.overlay id).2 names values =
          .error refusal
    | some more => ∃ bound,
        Evaluation.bindParameters (family.overlay id).1 (family.overlay id).2 names values =
          .ok bound ∧
        Situation base setting.now source bounds bound (family.overlay id).2 more := by
  have shown : family.Shows setting.now family id scope := by
    rw [← sit.same]
    exact .start sit.built sit.exist setting.now
  have h := shown.bindParameters names values
  rw [Scope.bind_eq]
  cases hb : scope.bindParameters names values with
  | error refusal => rw [hb] at h; exact ⟨refusal, h⟩
  | ok more =>
    rw [hb] at h
    obtain ⟨bound, run, shows⟩ := h
    refine ⟨bound, run, shows.built, sit.grown.trans shows.grown, shows.exist, shows.same, ?_⟩
    rw [Family.bindParameters_functions hb]
    exact sit.functions

theorem callUser_agrees {f : UserFunction}
    (hbase : ∀ i, bounds i →
      Situation base setting.now source bounds base i (base.scope setting.now i))
    (hinner : InnerAgrees base setting.now source bounds inner eval)
    (sit : Situation base setting.now source bounds family id scope) (rendered : f.RenderedBy source)
    (hf : ∀ owner, f.scope = some owner → bounds owner) (arguments : List Decimal) :
    Agrees (callUser inner family id f arguments)
      (userResult eval source (base.scope setting.now) scope f arguments) := by
  by_cases arity : arguments.length = f.parameters.length
  · have h := (sit.bound hbase hf).bindParameters f.parameters arguments
    rw [userResult, if_pos arity]
    simp only [callUser, arity, ne_eq, not_true_eq_false, if_false]
    cases hb : (f.scope.elim scope (base.scope setting.now)).bind f.parameters arguments with
    | none =>
      rw [hb] at h
      obtain ⟨refusal, run⟩ := h
      rw [run]
      exact agrees_throw _
    | some more =>
      rw [hb] at h
      obtain ⟨bound, run, there⟩ := h
      have agrees : ∀ text, Renders source text → Agrees
          (inner bound (family.overlay (f.scope.getD id)).2 text.toList)
          (eval more (source text)) := by
        intro text renders
        have h := hinner _ _ _ _ there renders.1
        rwa [renders.2] at h
      rw [run]
      cases hg : f.guard with
      | none => exact agrees f.body rendered.body
      | some g =>
        obtain ⟨condition, result⟩ := rendered.guard g hg
        refine agrees_bind (agrees g.condition condition) fun value => ?_
        cases value.sameValue .one with
        | true => exact agrees g.result result
        | false => exact agrees f.body rendered.body
  · rw [userResult, if_neg arity]
    intro s
    exact ⟨.ofCause (.arity (.exactly f.parameters.length) arguments.length), s,
      by simp [callUser, arity]⟩

theorem arguments_agree (hinner : InnerAgrees base setting.now source bounds inner eval)
    (sit : Situation base setting.now source bounds family id scope) (a : Arguments)
    (h : a.Plain) : Agrees (evaluateAll inner family id a.texts) (argumentValues eval scope a) := by
  cases a with
  | nil => exact agrees_pure []
  | cons first rest =>
    refine agrees_bind (hinner _ _ _ _ sit h.1) fun value => ?_
    exact agrees_bind (arguments_agree hinner sit rest h.2) fun values =>
      agrees_pure (value :: values)

theorem word_agrees (sit : Situation base setting.now source bounds family id scope)
    (name : Name .variableName) :
    Agrees (wordValue setting family id name.text)
      (ofOption (scope.vars (String.ofList name.text))) := by
  rw [wordValue_name, ← sit.same]
  refine agrees_ofOption ?_
  simp only [Family.scope, variableValue]
  cases family.lookup id .vars (String.ofList name.text) with
  | none => exact ⟨_, rfl⟩
  | some v => rfl

theorem call_agrees {name : Name .functionName} {arguments : Arguments}
    (hbase : ∀ i, bounds i →
      Situation base setting.now source bounds base i (base.scope setting.now i))
    (hinner : InnerAgrees base setting.now source bounds inner eval)
    (sit : Situation base setting.now source bounds family id scope)
    (h : (Atom.call name arguments).Plain) :
    Agrees (callValue setting inner family id name.text (commaSeparated arguments.texts))
      (atomValue eval source (base.scope setting.now) scope (.call name arguments)) := by
  have found : scope.functions = family.lookup id .functions := by rw [← sit.same]; rfl
  have options : (family.options id).context = scope.options.context := by rw [← sit.same]; rfl
  simp only [callValue_name, atomValue, found]
  cases hf : family.lookup id .functions (String.ofList name.text) with
  | none =>
    intro s
    exact ⟨_, s, rfl⟩
  | some f =>
    rw [splitArguments_render h.2]
    change Agrees
      (do
        let values ← evaluateAll inner family id arguments.texts
        reportEvent setting fun _ => .call (String.ofList name.text) values
        within (String.ofList name.text) (callFunction inner family id values f))
      (do
        let values ← argumentValues eval scope arguments
        callResult eval source (base.scope setting.now) scope values f)
    refine agrees_bind (arguments_agree hinner sit arguments h.2) fun values => ?_
    refine agrees_report (agrees_within _ ?_)
    cases f with
    | native f =>
      rw [callFunction, callResult, options]
      exact callNative_agrees _ f values
    | user f =>
      obtain ⟨rendered, exist⟩ := sit.functions _ f (by rw [found]; exact hf)
      exact callUser_agrees hbase hinner sit rendered exist values

theorem signed_agrees {a : Atom}
    (hbase : ∀ i, bounds i →
      Situation base setting.now source bounds base i (base.scope setting.now i))
    (hinner : InnerAgrees base setting.now source bounds inner eval)
    (sit : Situation base setting.now source bounds family id scope) (minus : Bool) (h : a.Plain) :
    Agrees (tokenValue setting inner family id (signed minus a.render))
      (signedValue eval source (base.scope setting.now) scope minus a) := by
  have atom : Agrees (operandValue setting inner family id a.operand)
      (atomValue eval source (base.scope setting.now) scope a) := by
    cases a with
    | numeral n =>
      simp only [Atom.operand, operandValue, parseLiteral_numeral]
      exact agrees_pure _
    | word name => exact word_agrees sit name
    | bracket tree => exact hinner _ _ _ _ sit h
    | call name arguments => exact call_agrees hbase hinner sit h
  rw [tokenValue, ofToken_signed minus h, signedValue]
  cases minus with
  | true => exact agrees_bind atom fun value => agrees_pure value.negate
  | false =>
    have resolved := (bind_pure (operandValue setting inner family id a.operand)).symm
    simp only [Bool.false_eq_true, if_false]
    rw [resolved]
    exact agrees_bind atom agrees_pure

theorem clauses_agree
    (hbase : ∀ i, bounds i →
      Situation base setting.now source bounds base i (base.scope setting.now i))
    (hinner : InnerAgrees base setting.now source bounds inner eval)
    (sit : Situation base setting.now source bounds family id scope) (o : Operations)
    (h : o.Plain) :
    Agrees (readClauses setting inner family id o.tokens)
      (clauses eval source (base.scope setting.now) scope o) := by
  cases o with
  | nil => exact agrees_pure []
  | cons symbol minus operand rest =>
    have operator : Agrees (operatorOf family id symbol.text)
        (ofOption (scope.operators (String.ofList symbol.text))) := by
      rw [← sit.same]
      refine agrees_ofOption ?_
      simp only [Family.scope, operatorOf]
      cases family.lookup id .operators (String.ofList symbol.text) with
      | none => exact ⟨_, rfl⟩
      | some binding => rfl
    refine agrees_bind operator fun binding => ?_
    refine agrees_bind (signed_agrees hbase hinner sit minus h.1) fun value => ?_
    exact agrees_bind (clauses_agree hbase hinner sit rest h.2) fun cs =>
      agrees_pure (⟨binding, value⟩ :: cs)

theorem evaluateOpen_agrees {t : Tree}
    (hbase : ∀ i, bounds i →
      Situation base setting.now source bounds base i (base.scope setting.now i))
    (hinner : InnerAgrees base setting.now source bounds inner eval)
    (sit : Situation base setting.now source bounds family id scope) (h : t.Plain) :
    Agrees (evaluateOpen setting inner family id t.render)
      (treeValue eval source (base.scope setting.now) scope t) := by
  cases t with
  | chain minus first rest =>
    have options : (family.options id).context = scope.options.context := by rw [← sit.same]; rfl
    rw [evaluateOpen, parse_of_tokens (Tree.read_render h), options]
    simp only [bind_assoc, pure_bind]
    refine agrees_report ?_
    refine agrees_bind (signed_agrees hbase hinner sit minus h.1) fun value => ?_
    refine agrees_bind (clauses_agree hbase hinner sit rest h.2) fun cs => ?_
    exact agrees_report (reduce_agrees setting _ value cs)

/-- Evaluating a rendered tree agrees with interpreting it. The induction is on the room that is
left; all expressions inside of the tree have less. -/
theorem evaluateAt_agrees
    (hbase : ∀ i, bounds i →
      Situation base setting.now source bounds base i (base.scope setting.now i)) (room : Nat) :
    ∀ depth, InnerAgrees base setting.now source bounds (evaluateAt setting room depth)
      (interpret source (base.scope setting.now) room depth) := by
  induction room with
  | zero =>
    intro depth family id scope tree sit _
    have options : family.options id = scope.options := by rw [← sit.same]; rfl
    rw [evaluateAt, interpret, options]
    by_cases deep : scope.options.maxDepth < depth + 1
    · simp only [deep, if_true]
      exact agrees_throw _
    · simp only [deep, if_false]
      exact agrees_throw _
  | succ room ih =>
    intro depth family id scope tree sit plain
    have options : family.options id = scope.options := by rw [← sit.same]; rfl
    rw [evaluateAt, interpret, options]
    by_cases deep : scope.options.maxDepth < depth + 1
    · simp only [deep, if_true]
      exact agrees_throw _
    · simp only [deep, if_false]
      exact evaluateOpen_agrees hbase (ih (depth + 1)) sit plain

end

/-! ## Evaluating rendered trees -/

/-- The environments that the user functions of an environment are bound to, directly or through
others. -/
inductive Family.Reached (family : Family) (id : EnvId) : EnvId → Prop
  | self : Reached family id id
  | bound {i owner : EnvId} {name : String} {f : UserFunction} : Reached family id i →
      family.lookup i .functions name = some (.user f) → f.scope = some owner →
      Reached family id owner

/-- The texts of all user functions that an environment leads to are those of trees. -/
def Family.RenderedBy (family : Family) (source : String → Tree) (id : EnvId) : Prop :=
  ∀ i, family.Reached id i → ∀ name f, family.lookup i .functions name = some (.user f) →
    f.RenderedBy source

theorem reached_exist {family : Family} {id i : EnvId} (built : family.Built)
    (exist : id < family.members.size) (h : family.Reached id i) : i < family.members.size := by
  induction h with
  | self => exact exist
  | bound _ found hs _ =>
    exact (Family.lookup_admissible (Family.built_wellFormed built) found).2 _ _ rfl hs

theorem Situation.start {family : Family} {source : String → Tree} {id i : EnvId} (now : Int)
    (built : family.Built) (exist : id < family.members.size)
    (rendered : family.RenderedBy source id) (h : family.Reached id i) :
    Situation family now source (family.Reached id) family i (family.scope now i) where
  built := built
  grown := .refl family
  exist := reached_exist built exist h
  same := rfl
  functions name f found := ⟨rendered i h name f found, fun _ hs => .bound h found hs⟩

/-- In an environment that can be built, and whose user functions have the texts of trees, a
rendered tree has a value exactly if the interpreter gives that value, and both leave the same
state of the random numbers. This holds for any room, and so of `evaluate`. -/
theorem Evaluation.evaluate_render_iff (setting : Setting) (room : Nat) {family : Family}
    (built : family.Built) {id : EnvId} (exist : id < family.members.size)
    {source : String → Tree} (rendered : family.RenderedBy source id) {tree : Tree}
    (plain : tree.Plain) (s : Session) (v : Decimal) (seed : Nat) :
    (∃ s', evaluateAt setting room 0 family id tree.render s = .ok v s' ∧ s'.seed = seed) ↔
      interpret source (family.scope setting.now) room 0 (family.scope setting.now id) tree
        s.seed = some (v, seed) := by
  have start (i : EnvId) (h : family.Reached id i) :=
    Situation.start setting.now built exist rendered h
  have agrees := evaluateAt_agrees start room 0 family id _ tree (start id .self) plain s
  cases hi : interpret source (family.scope setting.now) room 0
      (family.scope setting.now id) tree s.seed with
  | none =>
    rw [hi] at agrees
    obtain ⟨failure, s', run⟩ := agrees
    rw [run]
    constructor
    · rintro ⟨_, h, _⟩
      cases h
    · intro h
      cases h
  | some p =>
    obtain ⟨w, left⟩ := p
    rw [hi] at agrees
    obtain ⟨events, run⟩ := agrees
    rw [run]
    constructor
    · rintro ⟨s', ⟨⟩, rfl⟩
      rfl
    · rintro ⟨⟩
      exact ⟨⟨events, seed⟩, rfl, rfl⟩

/-! ## Names with brackets -/

/-- A root whose only name is that of a function that gives its argument back. -/
def identityFamily (name : String) : Family :=
  Family.empty.addRoot.1.register 0 .functions name (some (.user ⟨name, ["x"], "x", none, none⟩))

/-- The tree of the one text in it. -/
def identitySource : String → Tree := fun _ => .chain false (.word ⟨['x'], by decide⟩) .nil

theorem identitySource_renders : Renders identitySource "x" :=
  ⟨⟨trivial, trivial⟩, by decide +kernel⟩

theorem identityFamily_built {name : String}
    (h : validateName .functionName (some name) = .ok name) : (identityFamily name).Built := by
  have set : Family.empty.addRoot.1.setFunction 0 (some name)
      (.given (.user ⟨name, ["x"], "x", none, none⟩)) = .ok (identityFamily name) := by
    simp [Family.setFunction, h, identityFamily]
  exact .setFunction (.addRoot .empty) set fun u scope same bound => by cases same; cases bound

theorem identityFamily_rendered (name : String) :
    (identityFamily name).RenderedBy identitySource 0 := by
  intro i _ key f found
  obtain ⟨place, env, member, mem⟩ := Family.lookupIn_mem found
  cases place with
  | succ place => cases member
  | zero =>
    cases member
    obtain same : (key, Entry.value (Function.user f)) =
        (name, Entry.value (.user ⟨name, ["x"], "x", none, none⟩)) := List.mem_singleton.mp mem
    cases same
    exact ⟨identitySource_renders, nofun⟩

/-- The call of a function with the argument one. -/
def callOne (name : Name .functionName) : Tree :=
  .chain false (.call name (.cons (.chain false (.numeral ⟨['1'], by decide⟩) .nil) .nil)) .nil

/-- The call of `f` with the argument one. -/
theorem evaluate_rendered_call :
    (identityFamily "f").Built ∧ 0 < (identityFamily "f").members.size ∧
      (identityFamily "f").RenderedBy identitySource 0 ∧
      (callOne ⟨['f'], by decide +kernel⟩).Plain ∧
      ∃ s', Evaluation.evaluate ⟨0, false⟩ (identityFamily "f") 0
        (String.ofList (callOne ⟨['f'], by decide +kernel⟩).render) (.start 0) = .ok .one s' ∧
          s'.seed = 0 := by
  have built : (identityFamily "f").Built := identityFamily_built rfl
  have exist : 0 < (identityFamily "f").members.size := by decide
  have rendered := identityFamily_rendered "f"
  have plain : (callOne ⟨['f'], by decide +kernel⟩).Plain := by
    refine ⟨⟨?_, ⟨trivial, trivial⟩, trivial⟩, trivial⟩
    intro c mem
    obtain rfl := List.mem_singleton.mp mem
    exact ⟨by decide, by decide⟩
  refine ⟨built, exist, rendered, plain, ?_⟩
  rw [Evaluation.evaluate, String.toList_ofList]
  exact (Evaluation.evaluate_render_iff ⟨0, false⟩ stackRoom built exist rendered plain (.start 0)
    .one 0).mpr (by decide +kernel)

/-- A function whose name holds brackets can be registered, and has a value for the interpreter,
but the text of its call is read as that of another function. -/
theorem bracketed_name_not_called :
    (identityFamily "f()").Built ∧ (identityFamily "f()").RenderedBy identitySource 0 ∧
      (callOne ⟨['f', '(', ')'], by decide +kernel⟩).render = "f()(1)".toList ∧
      interpret identitySource ((identityFamily "f()").scope 0) stackRoom 0
        ((identityFamily "f()").scope 0 0) (callOne ⟨['f', '(', ')'], by decide +kernel⟩) 0 =
          some (.one, 0) ∧
      ∀ v s', Evaluation.evaluate ⟨0, false⟩ (identityFamily "f()") 0 "f()(1)" (.start 0) ≠
        .ok v s' := by
  refine ⟨identityFamily_built rfl, identityFamily_rendered _, by decide +kernel,
    by decide +kernel, ?_⟩
  intro v s' h
  have failed : ∃ failure s', Evaluation.evaluate ⟨0, false⟩ (identityFamily "f()") 0 "f()(1)"
      (.start 0) = .error failure s' := ⟨_, _, rfl⟩
  obtain ⟨failure, s', run⟩ := failed
  rw [run] at h
  cases h

end Calculator
