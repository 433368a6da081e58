import Calculator.Library.Standard
import Calculator.Proofs.FailingPoints
import Calculator.Proofs.Faults
import Calculator.Proofs.Grammar
import Calculator.Proofs.Interpreter

/-!
# Calculator.Proofs.FailureReports

Evaluation fails at the failing point of its expression, with what is reported of that point.

* `Located`: a step that fails exactly at certain points, of which there is at most one.
* `located_bind`, `located_inside`, `located_within`: how the points of a step follow from those of
  its parts.
* `evaluateAt_located`: by induction on the room, evaluation is located at the points of
  `TextFailsAt`.
* `evaluate_reported`: what is raised at the failing point is reported after the names of the
  functions whose run is going on there.
-/

namespace Calculator
namespace Evaluation

/-! ## Steps that fail at certain points -/

section

variable {α β : Type} {points other : Session → Point → Prop} {x : Evaluation α}

/-- A step that fails exactly at certain points, of which there is at most one. -/
structure Located (x : Evaluation α) (points : Session → Point → Prop) : Prop where
  fails_iff : ∀ {s failure}, failure? (x s) = some failure ↔ ∃ p, points s p ∧ p.reported = failure
  unique : ∀ {s p q}, points s p → points s q → p = q

theorem Located.congr (h : Located x points) (same : ∀ s p, points s p ↔ other s p) :
    Located x other := by
  obtain rfl : points = other := funext fun s => funext fun p => propext (same s p)
  exact h

/-- A step that succeeds has no failing point. -/
theorem Located.fine (h : Located x points) {s s' : Session} {a : α} (run : x s = .ok a s')
    {p : Point} : ¬ points s p := by
  intro fails
  have failed := h.fails_iff.mpr ⟨p, fails, rfl⟩
  rw [run] at failed
  cases failed

theorem located_pure (a : α) : Located (pure a : Evaluation α) fun _ _ => False where
  fails_iff := ⟨nofun, fun ⟨_, never, _⟩ => never.elim⟩
  unique := nofun

/-- A step with nothing inside of it. -/
theorem located_leaf (x : Evaluation α) :
    Located x fun s p => ∃ failure, failure? (x s) = some failure ∧ p = .here failure where
  fails_iff := by
    intro s failure
    constructor
    · intro failed
      exact ⟨_, ⟨failure, failed, rfl⟩, Point.reported_here failure⟩
    · rintro ⟨_, ⟨failure, failed, rfl⟩, rfl⟩
      rw [Point.reported_here]
      exact failed
  unique := by
    rintro s _ _ ⟨failure, failed, rfl⟩ ⟨failure', failed', rfl⟩
    rw [failed] at failed'
    rw [Option.some.inj failed']

theorem located_throw (failure : Failure) :
    Located (throw failure : Evaluation α) fun _ p => p = .here failure :=
  (located_leaf _).congr fun s p => ⟨by rintro ⟨_, ⟨⟩, rfl⟩; rfl, fun same => ⟨failure, rfl, same⟩⟩

theorem located_ofExcept (result : Except Failure α) :
    Located (ofExcept result) fun _ p => ∃ failure, result = .error failure ∧ p = .here failure := by
  cases result with
  | ok a => exact (located_pure a).congr fun s p => by simp
  | error failure => exact (located_throw failure).congr fun s p => by simp

theorem located_bind {f : α → Evaluation β} {later : α → Session → Point → Prop}
    (hx : Located x points) (hf : ∀ a, Located (f a) (later a)) :
    Located (x >>= f) fun s p => points s p ∨ ∃ a s', x s = .ok a s' ∧ later a s' p := by
  constructor
  · intro s failure
    rw [bind_apply]
    cases run : x s with
    | error other s' =>
      -- there is no second step, so its points do not count
      have first := @Located.fails_iff _ _ _ hx s failure
      rw [run] at first
      simpa [failure?] using first
    | ok a s' =>
      have none : ∀ p, ¬ points s p := fun p => hx.fine run
      have second := @Located.fails_iff _ _ _ (hf a) s' failure
      simpa [none] using second
  · rintro s p q (left | ⟨a, s', run, left⟩) (right | ⟨a', s'', run', right⟩)
    · exact hx.unique left right
    · exact absurd left (hx.fine run')
    · exact absurd right (hx.fine run)
    · rw [run] at run'
      cases run'
      exact (hf a).unique left right

theorem located_map (h : Located x points) (f : α → β) : Located (do return f (← x)) points :=
  (located_bind h fun a => located_pure (f a)).congr fun s p => by simp

theorem Located.of_map {f : α → β} (h : Located (do return f (← x)) points) : Located x points where
  fails_iff := by
    intro s failure
    rw [← h.fails_iff, bind_apply]
    cases x s with
    | ok a s' => rfl
    | error other s' => rfl
  unique := h.unique

theorem located_inside (frame : Frame) (passive : frame.running? = none) (h : Located x points) :
    Located x fun s p => ∃ q, points s q ∧ p = q.inside frame where
  fails_iff := by
    intro s failure
    rw [h.fails_iff]
    constructor
    · rintro ⟨p, fails, rfl⟩
      exact ⟨_, ⟨p, fails, rfl⟩, Point.reported_inside passive p⟩
    · rintro ⟨_, ⟨p, fails, rfl⟩, rfl⟩
      exact ⟨p, fails, (Point.reported_inside passive p).symm⟩
  unique := by
    rintro s _ _ ⟨p, left, rfl⟩ ⟨q, right, rfl⟩
    rw [h.unique left right]

theorem located_within (name : String) (h : Located x points) :
    Located (within name x) fun s p => ∃ q, points s q ∧ p = q.inside (.run name) where
  fails_iff := by
    intro s failure
    have first := @Located.fails_iff _ _ _ h s
    unfold within
    cases run : x s with
    | ok a s' =>
      have none : ∀ p, ¬ points s p := fun p => h.fine run
      simp [failure?, none]
    | error other s' =>
      rw [run] at first
      constructor
      · rintro ⟨⟩
        obtain ⟨p, fails, rfl⟩ := first.mp rfl
        exact ⟨_, ⟨p, fails, rfl⟩, Point.reported_run name p⟩
      · rintro ⟨_, ⟨p, fails, rfl⟩, rfl⟩
        obtain rfl := Option.some.inj (first.mpr ⟨p, fails, rfl⟩)
        rw [Point.reported_run]
        rfl
  unique := by
    rintro s _ _ ⟨p, left, rfl⟩ ⟨q, right, rfl⟩
    rw [h.unique left right]

end

section

variable {setting : Setting} {family : Family} {id : EnvId}

/-! ## Steps with no expression inside -/

/-- A step that may be noted before it is taken. -/
theorem located_noted {α : Type} {event : Unit → Event} {x : Evaluation α}
    {at_ : Session → Point → Prop} (h : Located x at_) :
    Located (do reportEvent setting event; x) fun s p => at_ (noted setting (event ()) s) p where
  fails_iff := h.fails_iff
  unique := h.unique

theorem located_draw : Located draw fun _ _ => False where
  fails_iff := ⟨nofun, fun ⟨_, never, _⟩ => never.elim⟩
  unique := nofun

theorem located_callNative (ctx : Context) (f : NativeFunction) (values : List Decimal) :
    Located (callNative ctx f values) (NativeFails ctx f values) := by
  unfold callNative
  cases accepted : f.accepts values.length with
  | false =>
    refine (located_throw _).congr fun s p => ⟨?_, ?_⟩
    · rintro rfl
      exact .arity accepted
    · intro fails
      cases fails with
      | arity => rfl
      | plain other => rw [accepted] at other; cases other
      | drawing other => rw [accepted] at other; cases other
  | true =>
    simp only [Bool.not_true, Bool.false_eq_true, if_false]
    cases body : f.body with
    | plain run =>
      refine (located_ofExcept (run ctx values)).congr fun s p => ⟨?_, ?_⟩
      · rintro ⟨failure, failed, rfl⟩
        exact .plain accepted body failed
      · intro fails
        cases fails with
        | arity other => rw [accepted] at other; cases other
        | plain _ same failed =>
          rw [body] at same
          cases same
          exact ⟨_, failed, rfl⟩
        | drawing _ other => rw [body] at other; cases other
    | drawing run =>
      have drawn (s : Session) :
          draw s = .ok (fractionOf (nextSeed s.seed)) { s with seed := nextSeed s.seed } := rfl
      refine (located_bind located_draw fun fraction =>
        located_ofExcept (run ctx fraction values)).congr fun s p => ⟨?_, ?_⟩
      · rintro (never | ⟨fraction, s', same, failure, failed, rfl⟩)
        · exact never.elim
        · rw [drawn] at same
          cases same
          exact .drawing accepted body failed
      · intro fails
        cases fails with
        | arity other => rw [accepted] at other; cases other
        | plain _ other => rw [body] at other; cases other
        | drawing _ same failed =>
          rw [body] at same
          cases same
          exact .inr ⟨_, _, drawn s, _, failed, rfl⟩

theorem located_implicitProduct (ctx : Context) (factor value : Decimal) :
    Located (implicitProduct ctx factor value)
      fun _ p => ∃ f, factor.multiply ctx value = .error f ∧ p = .here (.fault f) := by
  rw [implicitProduct]
  cases factor.multiply ctx value with
  | error f => exact (located_throw _).congr fun s p => by simp
  | ok product => exact (located_pure product).congr fun s p => by simp

theorem located_variableValue (name : String) :
    Located (variableValue setting family id name)
      fun _ p => family.lookup id .vars name = none ∧ p = .here (.undefined .vars name) := by
  rw [variableValue]
  cases family.lookup id .vars name with
  | none => exact (located_throw _).congr fun s p => by simp
  | some v => exact (located_pure _).congr fun s p => by simp

theorem located_wordValue (token : List Char) :
    Located (wordValue setting family id token)
      fun _ p => WordFails setting family id token p := by
  unfold wordValue
  by_cases begins : BeginsWithFactor family id token
  · have test := begins
    rw [BeginsWithFactor] at test
    simp only [test, if_true]
    cases read : parseLiteral (token.takeWhile isFactorSymbol) with
    | error failure =>
      refine (located_throw failure).congr fun s p => ⟨?_, ?_⟩
      · rintro rfl
        exact .factor begins read
      · intro fails
        cases fails with
        | factor _ same =>
          rw [read] at same
          cases same
          rfl
        | multiplied _ other => rw [read] at other; cases other
        | product _ other => rw [read] at other; cases other
        | undefined other => exact absurd begins other
    | ok factor =>
      cases found : family.lookup id .vars (String.ofList (token.dropWhile isFactorSymbol)) with
      | none =>
        simp only [variableValue, found]
        refine (located_throw _).congr fun s p => ⟨?_, ?_⟩
        · rintro rfl
          exact .multiplied begins read found
        · intro fails
          cases fails with
          | factor _ other => rw [read] at other; cases other
          | multiplied => rfl
          | product _ _ other => rw [found] at other; cases other
          | undefined other => exact absurd begins other
      | some v =>
        simp only [variableValue, found]
        refine (located_implicitProduct (family.options id).context factor
          (family.valueOf setting.now v)).congr fun s p => ⟨?_, ?_⟩
        · rintro ⟨f, raised, rfl⟩
          exact .product begins read found raised
        · intro fails
          cases fails with
          | factor _ other => rw [read] at other; cases other
          | multiplied _ _ other => rw [found] at other; cases other
          | product _ same same' raised =>
            rw [read] at same
            rw [found] at same'
            cases same
            cases same'
            exact ⟨_, raised, rfl⟩
          | undefined other => exact absurd begins other
  · have test := begins
    rw [BeginsWithFactor, Bool.not_eq_true] at test
    simp only [test, Bool.false_eq_true, if_false]
    refine (located_variableValue (String.ofList token)).congr fun s p => ⟨?_, ?_⟩
    · rintro ⟨unknown, rfl⟩
      exact .undefined begins unknown
    · intro fails
      cases fails with
      | factor other => exact absurd other begins
      | multiplied other => exact absurd other begins
      | product other => exact absurd other begins
      | undefined _ unknown => exact ⟨unknown, rfl⟩

theorem located_operatorOf (symbol : List Char) :
    Located (operatorOf family id symbol) fun _ p =>
      family.lookup id .operators (String.ofList symbol) = none ∧
        p = .here (.undefined .operators (String.ofList symbol)) := by
  unfold operatorOf
  dsimp only
  cases family.lookup id .operators (String.ofList symbol) with
  | none => exact (located_throw _).congr fun s p => by simp
  | some operator => exact (located_pure operator).congr fun s p => by simp

/-- Reducing a chain fails where the first of its operators fails. -/
theorem located_reduce (ctx : Context) (first : Decimal) (cs : List Clause) :
    Located (reduce setting ctx (.ofSequence first cs)) fun _ p =>
      ∃ operator raised, OperatorFails ctx first cs operator raised ∧
        p = .atOperator operator.symbol raised where
  fails_iff := by
    intro s failure
    -- what leaves an operator is what is reported of its point
    have points : (∃ p : Point, (∃ operator raised, OperatorFails ctx first cs operator raised ∧
        p = .atOperator operator.symbol raised) ∧ p.reported = failure) ↔
          ∃ operator raised, OperatorFails ctx first cs operator raised ∧
            raised.atOperator operator.symbol = failure := by
      constructor
      · rintro ⟨_, ⟨operator, raised, fails, rfl⟩, rfl⟩
        exact ⟨operator, raised, fails, (Point.reported_atOperator _ _).symm⟩
      · rintro ⟨operator, raised, fails, rfl⟩
        exact ⟨_, ⟨operator, raised, fails, rfl⟩, Point.reported_atOperator _ _⟩
    rw [points, reduce]
    cases cs with
    | nil =>
      have finished := complete_ofSequence ctx setting.tracing first []
      rw [chainValue_nil] at finished
      obtain ⟨r, run⟩ := finished
      have none : ∀ c ∈ ([] : List Clause), c.precedence ≤ 0 := List.forall_mem_nil _
      rw [run, ← passDown_fails_iff none, passDown_nil]
      constructor
      · rintro ⟨⟩
      · rintro ⟨⟩
    | cons c rest =>
      obtain ⟨level, le, outcome⟩ := Reduction.complete_spec ctx setting.tracing first c rest
      rw [← passDown_fails_iff le, StepChain.ofSequence]
      generalize passDown ctx level first (c :: rest) = passed at outcome ⊢
      cases passed with
      | error other =>
        obtain ⟨r, run⟩ := outcome
        simp [run, failure?]
      | ok result =>
        obtain ⟨r, run, -⟩ := outcome
        simp [run, failure?]
  unique := by
    rintro s _ _ ⟨operator, raised, left, rfl⟩ ⟨operator', raised', right, rfl⟩
    obtain ⟨rfl, rfl⟩ := operatorFails_unique left right
    rfl

/-! ## Steps with expressions inside -/

variable {inner : Inner} {points : InnerPoints}
  (inners : ∀ family id text, Located (inner family id text) (points family id text))

include inners

theorem located_evaluateAll (texts : List (List Char)) :
    Located (evaluateAll inner family id texts) (ArgumentFails inner points family id texts) := by
  induction texts with
  | nil => exact (located_pure []).congr fun s p => ⟨False.elim, nofun⟩
  | cons text rest ih =>
    refine (located_bind (inners family id text) fun value => located_map ih (value :: ·)).congr
      fun s p => ⟨?_, ?_⟩
    · rintro (here | ⟨value, s', run, later⟩)
      · exact .here here
      · exact .later run later
    · intro fails
      cases fails with
      | here fails => exact .inl fails
      | later run fails => exact .inr ⟨_, _, run, fails⟩

theorem located_body (bound : Family) (scope : EnvId) (f : UserFunction) :
    Located (match f.guard with
      | none => inner bound scope f.body.toList
      | some guard => do
        let condition ← inner bound scope guard.condition.toList
        if condition.sameValue .one then inner bound scope guard.result.toList
        else inner bound scope f.body.toList) (BodyFails inner points bound scope f) := by
  cases guarded : f.guard with
  | none =>
    refine (inners bound scope f.body.toList).congr fun s p => ⟨.body guarded, ?_⟩
    intro fails
    cases fails with
    | body _ fails => exact fails
    | condition other => rw [guarded] at other; cases other
    | result other => rw [guarded] at other; cases other
    | otherwise other => rw [guarded] at other; cases other
  | some guard =>
    have chosen (value : Decimal) : Located
        (if value.sameValue .one then inner bound scope guard.result.toList
          else inner bound scope f.body.toList)
        fun s p => (value.sameValue .one = true ∧ points bound scope guard.result.toList s p) ∨
          (value.sameValue .one = false ∧ points bound scope f.body.toList s p) := by
      cases held : value.sameValue .one with
      | true => exact (inners bound scope guard.result.toList).congr fun s p => by simp
      | false => exact (inners bound scope f.body.toList).congr fun s p => by simp
    refine (located_bind (inners bound scope guard.condition.toList) chosen).congr
      fun s p => ⟨?_, ?_⟩
    · rintro (fails | ⟨value, s', run, ⟨held, fails⟩ | ⟨missed, fails⟩⟩)
      · exact .condition guarded fails
      · exact .result guarded run held fails
      · exact .otherwise guarded run missed fails
    · intro fails
      cases fails with
      | body none => rw [guarded] at none; cases none
      | condition same fails =>
        rw [guarded] at same
        cases same
        exact .inl fails
      | result same run held fails =>
        rw [guarded] at same
        cases same
        exact .inr ⟨_, _, run, .inl ⟨held, fails⟩⟩
      | otherwise same run missed fails =>
        rw [guarded] at same
        cases same
        exact .inr ⟨_, _, run, .inr ⟨missed, fails⟩⟩

theorem located_callUser (f : UserFunction) (values : List Decimal) :
    Located (callUser inner family id f values) (UserFails inner points family id f values) := by
  unfold callUser
  by_cases arity : values.length = f.parameters.length
  · simp only [arity, ne_eq, not_true_eq_false, if_false]
    cases bind : bindParameters (family.overlay (f.scope.getD id)).1
        (family.overlay (f.scope.getD id)).2 f.parameters values with
    | error refusal =>
      have given : entered family id f values = .error refusal := by simp only [entered, bind]
      refine (located_throw _).congr fun s p => ⟨?_, ?_⟩
      · rintro rfl
        exact .refused arity given
      · intro fails
        cases fails with
        | arity other => exact absurd arity other
        | refused _ same =>
          rw [given] at same
          cases same
          rfl
        | body _ other =>
          rw [given] at other
          cases other
    | ok bound =>
      have given : entered family id f values =
          .ok (bound, (family.overlay (f.scope.getD id)).2) := by simp only [entered, bind]
      refine (located_body inners bound (family.overlay (f.scope.getD id)).2 f).congr
        fun s p => ⟨.body arity given, ?_⟩
      intro fails
      cases fails with
      | arity other => exact absurd arity other
      | refused _ other =>
        rw [given] at other
        cases other
      | body _ same fails =>
        rw [given] at same
        cases same
        exact fails
  · simp only [arity, ne_eq, not_false_eq_true, if_true]
    refine (located_throw _).congr fun s p => ⟨?_, ?_⟩
    · rintro rfl
      exact .arity arity
    · intro fails
      cases fails with
      | arity => rfl
      | refused same => exact absurd same arity
      | body same => exact absurd same arity

theorem located_callFunction (f : Function) (values : List Decimal) :
    Located (callFunction inner family id values f)
      fun s p => RunFails inner points family id values s p f := by
  cases f with
  | native f =>
    refine (located_callNative _ f values).congr fun s p => ⟨.native, ?_⟩
    rintro ⟨⟩
    assumption
  | user f =>
    refine (located_callUser inners f values).congr fun s p => ⟨.user, ?_⟩
    rintro ⟨⟩
    assumption

theorem located_product (token arguments : List Char) :
    Located (do
      let factor ← ofExcept (parseLiteral token)
      implicitProduct (family.options id).context factor (← inner family id arguments))
      (ProductFails inner points family id token arguments) := by
  cases read : parseLiteral token with
  | error failure =>
    refine (located_throw failure).congr fun s p => ⟨?_, ?_⟩
    · rintro rfl
      exact .factor read
    · intro fails
      cases fails with
      | factor same =>
        rw [read] at same
        cases same
        rfl
      | bracket other => rw [read] at other; cases other
      | product other => rw [read] at other; cases other
  | ok factor =>
    refine (located_bind (located_inside .bracket rfl (inners family id arguments))
      (located_implicitProduct _ factor)).congr fun s p => ⟨?_, ?_⟩
    · rintro (⟨q, fails, rfl⟩ | ⟨value, s', run, f, raised, rfl⟩)
      · exact .bracket read fails
      · exact .product read run raised
    · intro fails
      cases fails with
      | factor other => rw [read] at other; cases other
      | bracket _ fails => exact .inl ⟨_, fails, rfl⟩
      | product same run raised =>
        rw [read] at same
        cases same
        exact .inr ⟨_, _, run, _, raised, rfl⟩

theorem located_function (name : String) (arguments : List Char) :
    Located (match family.lookup id .functions name with
      | none => throw (.undefined .functions name)
      | some f =>
        match splitArguments arguments with
        | .error form => throw (.malformed form)
        | .ok texts => do
          let values ← evaluateAll inner family id texts
          reportEvent setting fun _ => .call name values
          within name (callFunction inner family id values f))
      (FunctionFails setting inner points family id name arguments) := by
  cases found : family.lookup id .functions name with
  | none =>
    refine (located_throw _).congr fun s p => ⟨?_, ?_⟩
    · rintro rfl
      exact .undefined found
    · intro fails
      cases fails with
      | undefined => rfl
      | malformed other => rw [found] at other; cases other
      | argument other => rw [found] at other; cases other
      | run other => rw [found] at other; cases other
  | some f =>
    dsimp only
    cases split : splitArguments arguments with
    | error form =>
      refine (located_throw _).congr fun s p => ⟨?_, ?_⟩
      · rintro rfl
        exact .malformed found split
      · intro fails
        cases fails with
        | undefined other => rw [found] at other; cases other
        | malformed _ same =>
          rw [split] at same
          cases same
          rfl
        | argument _ other => rw [split] at other; cases other
        | run _ other => rw [split] at other; cases other
    | ok texts =>
      refine (located_bind
        (located_inside (.argument name) rfl (located_evaluateAll inners texts))
        fun values => located_noted (located_within name (located_callFunction inners f values))).congr
        fun s p => ⟨?_, ?_⟩
      · rintro (⟨q, fails, rfl⟩ | ⟨values, s', run, q, fails, rfl⟩)
        · exact .argument found split fails
        · exact .run found split run fails
      · intro fails
        cases fails with
        | undefined other => rw [found] at other; cases other
        | malformed _ other => rw [split] at other; cases other
        | argument same same' fails =>
          rw [split] at same'
          cases same'
          exact .inl ⟨_, fails, rfl⟩
        | run same same' run fails =>
          rw [found] at same
          rw [split] at same'
          cases same
          cases same'
          exact .inr ⟨_, _, run, _, fails, rfl⟩

theorem located_callValue (token arguments : List Char) :
    Located (callValue setting inner family id token arguments)
      (CallFails setting inner points family id token arguments) := by
  unfold callValue
  by_cases factor : IsFactor family id token
  · rw [IsFactor] at factor
    simp only [factor, if_true]
    refine (located_product inners token arguments).congr fun s p => ⟨.product factor, ?_⟩
    rintro (⟨_, fails⟩ | ⟨other, _⟩)
    · exact fails
    · exact absurd factor other
  · have other := factor
    rw [IsFactor, Bool.not_eq_true] at factor
    simp only [factor, Bool.false_eq_true, if_false]
    refine (located_function inners (String.ofList token) arguments).congr
      fun s p => ⟨.function other, ?_⟩
    rintro (⟨same, _⟩ | ⟨_, fails⟩)
    · exact absurd same other
    · exact fails

theorem located_operandValue (operand : Operand) :
    Located (operandValue setting inner family id operand)
      (OperandFails setting inner points family id operand) := by
  induction operand with
  | missing =>
    refine (located_throw _).congr fun s p => ⟨?_, ?_⟩
    · rintro rfl
      exact .missing
    · rintro ⟨⟩
      rfl
  | negative operand ih =>
    refine (located_map ih Decimal.negate).congr fun s p => ⟨.negative, ?_⟩
    rintro ⟨⟩
    assumption
  | bracket text =>
    refine (located_inside .bracket rfl (inners family id text)).congr
      fun s p => ⟨?_, ?_⟩
    · rintro ⟨q, fails, rfl⟩
      exact .bracket fails
    · rintro ⟨⟩
      exact ⟨_, by assumption, rfl⟩
  | call name arguments =>
    refine (located_callValue inners name arguments).congr fun s p => ⟨.call, ?_⟩
    rintro ⟨⟩
    assumption
  | numeral token =>
    refine (located_ofExcept (parseLiteral token)).congr fun s p => ⟨?_, ?_⟩
    · rintro ⟨failure, failed, rfl⟩
      exact .numeral failed
    · intro fails
      cases fails with
      | numeral failed => exact ⟨_, failed, rfl⟩
  | word token =>
    refine (located_wordValue token).congr fun s p => ⟨.word, ?_⟩
    rintro ⟨⟩
    assumption

theorem located_parseRest (next : Continuation) : ∀ (chain : StepChain) (left : Decimal),
    Located (parseRest setting inner family id chain left next)
      (RestFails setting inner points family id next) := by
  induction next with
  | done => exact fun chain left => (located_pure _).congr fun s p => ⟨False.elim, nofun⟩
  | broken form =>
    intro chain left
    refine (located_throw _).congr fun s p => ⟨?_, ?_⟩
    · rintro rfl
      exact .broken
    · rintro ⟨⟩
      rfl
  | brokenValue symbol form =>
    intro chain left
    refine (located_bind (located_operatorOf symbol) fun _ =>
      located_throw (.malformed form)).congr fun s p => ⟨?_, ?_⟩
    · rintro (⟨unknown, rfl⟩ | ⟨operator, s', run, rfl⟩)
      · exact .lastSymbol unknown
      · exact .brokenValue (operatorOf_eq_ok.mp run).1
    · intro fails
      cases fails with
      | lastSymbol unknown => exact .inl ⟨unknown, rfl⟩
      | brokenValue known => exact .inr ⟨_, s, operatorOf_eq_ok.mpr ⟨known, rfl⟩, rfl⟩
  | clause symbol token next ih =>
    intro chain left
    refine (located_bind (located_operatorOf symbol) fun operator =>
      located_bind (located_operandValue inners (.ofToken token)) fun value =>
        ih _ value).congr fun s p => ⟨?_, ?_⟩
    · rintro (⟨unknown, rfl⟩ | ⟨operator, s', run, fails⟩)
      · exact .symbol unknown
      · obtain ⟨known, rfl⟩ := operatorOf_eq_ok.mp run
        obtain fails | ⟨value, s'', run', fails⟩ := fails
        · exact .value known fails
        · exact .later known run' fails
    · intro fails
      cases fails with
      | symbol unknown => exact .inl ⟨unknown, rfl⟩
      | value known fails => exact .inr ⟨_, s, operatorOf_eq_ok.mpr ⟨known, rfl⟩, .inl fails⟩
      | later known run fails =>
        exact .inr ⟨_, s, operatorOf_eq_ok.mpr ⟨known, rfl⟩, .inr ⟨_, _, run, fails⟩⟩

/-- What follows the first value is resolved, and then the chain is reduced. -/
theorem located_resolved (next : Continuation) (first : Decimal) :
    Located (do
      let chain ← parseRest setting inner family id .empty first next
      reportEvent setting fun _ => .evaluating
      reduce setting (family.options id).context chain)
      fun s p => RestFails setting inner points family id next s p ∨
        ∃ tokens cs s' operator raised, next = .ofTokens tokens ∧
          readClauses setting inner family id tokens s = .ok cs s' ∧
          OperatorFails (family.options id).context first cs operator raised ∧
          p = .atOperator operator.symbol raised := by
  have rest : Located (parseRest setting inner family id .empty first next) _ :=
    located_parseRest inners next .empty first
  by_cases read : ∃ tokens, next = .ofTokens tokens
  · obtain ⟨tokens, rfl⟩ := read
    rw [parseRest_empty] at rest ⊢
    simp only [bind_assoc, pure_bind]
    refine (located_bind rest.of_map fun cs =>
      located_noted (located_reduce (family.options id).context first cs)).congr
        fun s p => or_congr_right ⟨?_, ?_⟩
    · rintro ⟨cs, s', run, operator, raised, fails, rfl⟩
      exact ⟨tokens, cs, s', operator, raised, rfl, run, fails, rfl⟩
    · rintro ⟨tokens', cs, s', operator, raised, same, run, fails, rfl⟩
      obtain rfl := Continuation.ofTokens_inj same
      exact ⟨cs, s', run, operator, raised, fails, rfl⟩
  · -- the text breaks off, so resolving fails and nothing is reduced
    refine (located_bind rest fun chain => located_leaf _).congr
      fun s p => or_congr_right ⟨?_, ?_⟩
    · rintro ⟨chain, s', run, -⟩
      exact absurd (parseRest_ok run) read
    · rintro ⟨tokens, cs, s', operator, raised, same, -⟩
      exact absurd ⟨tokens, same⟩ read

theorem located_evaluateOpen (text : List Char) :
    Located (evaluateOpen setting inner family id text) fun s p =>
      TextFails setting inner points family id text
        (noted setting (.parsing (String.ofList text)) s) p := by
  refine located_noted ?_
  cases read : Phrase.read text with
  | error form =>
    have refused : parse setting inner family id text = throw (.malformed form) := by
      simp only [parse, read]
    rw [refused]
    -- what would come after is a leaf, since it is never reached
    refine (located_bind (located_throw _) fun chain => located_leaf _).congr fun s p => ⟨?_, ?_⟩
    · rintro (rfl | ⟨chain, s', ⟨⟩, -⟩)
      exact .unreadable read
    · intro fails
      cases fails with
      | unreadable same =>
        rw [read] at same
        cases same
        exact .inl rfl
      | first other => rw [read] at other; cases other
      | rest other => rw [read] at other; cases other
      | operator other => rw [read] at other; cases other
  | ok phrase =>
    have resolved : parse setting inner family id text = (do
        let first ← operandValue setting inner family id (.ofToken phrase.first)
        parseRest setting inner family id .empty first phrase.rest) := by
      simp only [parse, read]
    rw [resolved, bind_assoc]
    refine (located_bind (located_operandValue inners (.ofToken phrase.first)) fun first =>
      located_resolved inners phrase.rest first).congr fun s p => ⟨?_, ?_⟩
    · rintro (fails | ⟨first, s', run, fails |
        ⟨tokens, cs, s'', operator, raised, same, run', fails, rfl⟩⟩)
      · exact .first read fails
      · exact .rest read run fails
      · obtain ⟨token, rest⟩ := phrase
        cases same
        exact .operator read run run' fails
    · intro fails
      cases fails with
      | unreadable other => rw [read] at other; cases other
      | first same fails =>
        rw [read] at same
        cases same
        exact .inl fails
      | rest same run fails =>
        rw [read] at same
        cases same
        exact .inr ⟨_, _, run, .inl fails⟩
      | operator same run run' fails =>
        rw [read] at same
        cases same
        exact .inr ⟨_, _, run, .inr ⟨_, _, _, _, _, rfl, run', fails, rfl⟩⟩

end

theorem evaluateAt_located (setting : Setting) (room : Nat) : ∀ depth family id text,
    Located (evaluateAt setting room depth family id text)
      (TextFailsAt setting room depth family id text) := by
  induction room with
  | zero =>
    intro depth family id text
    by_cases deep : (family.options id).maxDepth < depth + 1
    · simp only [evaluateAt, deep, if_true]
      exact (located_throw _).congr fun s p => by simp only [TextFailsAt, deep, if_true]
    · simp only [evaluateAt, deep, if_false]
      exact (located_throw _).congr fun s p => by simp only [TextFailsAt, deep, if_false]
  | succ room ih =>
    intro depth family id text
    by_cases deep : (family.options id).maxDepth < depth + 1
    · simp only [evaluateAt, deep, if_true]
      exact (located_throw _).congr fun s p => by simp only [TextFailsAt, deep, if_true]
    · -- what is inside stands one deeper, where there is room for one less
      simp only [evaluateAt, deep, if_false]
      exact (located_evaluateOpen (ih (depth + 1)) text).congr fun s p => by
        simp only [TextFailsAt, deep, if_false]

/-- A calculation fails exactly if its text has a failing point, and there is only one, the first in
the order of evaluation. A problem is reported with the kind and the details of what is raised there,
and its message stands after the names of the functions whose run is going on there, outermost first;
after nothing if nesting is too deep. This holds for any room, and so of `evaluate`. -/
theorem evaluate_reported {setting : Setting} (room : Nat) {family : Family} {id : EnvId}
    {text : List Char} {s : Session} :
    ((∃ failure s', evaluateAt setting room 0 family id text s = .error failure s') ↔
      ∃ p, TextFailsAt setting room 0 family id text s p) ∧
    ∀ p, TextFailsAt setting room 0 family id text s p →
      (∀ q, TextFailsAt setting room 0 family id text s q → q = p) ∧
      ∀ e s', evaluateAt setting room 0 family id text s = .error (.problem e) s' →
        e.cause = p.cause ∧ e.message = p.message := by
  have located := evaluateAt_located setting room 0 family id text
  refine ⟨⟨?_, ?_⟩, fun p fails => ⟨fun q other => located.unique other fails, ?_⟩⟩
  · rintro ⟨failure, s', failed⟩
    obtain ⟨p, fails, -⟩ := located.fails_iff.mp (failure?_eq_some.mpr ⟨s', failed⟩)
    exact ⟨p, fails⟩
  · rintro ⟨p, fails⟩
    exact ⟨p.reported, failure?_eq_some.mp (located.fails_iff.mpr ⟨p, fails, rfl⟩)⟩
  · intro e s' failed
    obtain ⟨q, other, reported⟩ := located.fails_iff.mp (failure?_eq_some.mpr ⟨s', failed⟩)
    obtain rfl := located.unique other fails
    exact Point.reported_problem reported

/-- The standard environment with a function that calls another one in its body. -/
def callingFamily : Family :=
  (Family.empty.addStandard.1.register 0 .functions "h"
      (some (.user ⟨"h", ["x"], "max(1, 6 / x)", none, some 0⟩))).register 0 .functions "g"
    (some (.user ⟨"g", ["x"], "h(x - 3)", some ⟨"x > 5", "x"⟩, some 0⟩))

/-- The division that fails is in an argument, in the body of `h`, which `g` calls, in an argument
again. The functions that take these arguments are not named, and the unknown variable at the end is
not looked up. -/
theorem evaluate_reported_nested : ∃ p,
    TextFailsAt ⟨0, false⟩ stackRoom 0 callingFamily 0 "2 + min(g(1 + 2), 9) * y".toList (.start 0) p ∧
      p.cause = .evaluation (some "/") .divisionByZero ∧ p.message = "g: h: /: DivisionByZero" := by
  obtain ⟨s', run⟩ := failure?_eq_some.mp (show
    failure? (evaluate ⟨0, false⟩ callingFamily 0 "2 + min(g(1 + 2), 9) * y" (.start 0)) =
      some (.problem ⟨["g", "h"], .evaluation (some "/") .divisionByZero⟩) by decide +kernel)
  have reports := @evaluate_reported ⟨0, false⟩ stackRoom callingFamily 0
    "2 + min(g(1 + 2), 9) * y".toList (.start 0)
  have message : Problem.message ⟨["g", "h"], .evaluation (some "/") .divisionByZero⟩ =
      "g: h: /: DivisionByZero" := by decide +kernel
  generalize TextFailsAt ⟨0, false⟩ stackRoom 0 callingFamily 0 "2 + min(g(1 + 2), 9) * y".toList
    (.start 0) = points at reports ⊢
  obtain ⟨p, fails⟩ := reports.1.mp ⟨_, _, run⟩
  have same := (reports.2 p fails).2 _ _ run
  exact ⟨p, fails, same.1.symm, same.2.symm.trans message⟩

end Evaluation
end Calculator
