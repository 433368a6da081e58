import Calculator.Proofs.Matching
import Calculator.Proofs.Nesting
import Calculator.Proofs.Parsing

/-!
# Calculator.Proofs.Depths

Evaluation inside of other expressions. An expression that is evaluated while others are open ends
as it does by itself, or fails because too many expressions are open. How it ends depends on the
session only by the state of the random number generator.

* `InnerMatches`: expressions inside an expression are compared, in one environment.
* `evaluateAt_matches`: of two evaluations of a text, the one that goes deeper or has less room ends
  as the other does, or fails because of that.
* `tokenValue_ending`, `callFunction_ending`: the state of the generator decides how they end.
* `evaluateAll_inside`: arguments of a call have the values that they have by themselves.
-/

namespace Calculator

/-! ## Comparing endings -/

/-- How a computation has ended: its outcome, and the state of the random number generator. -/
def ending {α : Type} : EStateM.Result Failure Session α → Except Failure α × Nat
  | .ok a s => (.ok a, s.seed)
  | .error failure s => (.error failure, s.seed)

namespace Comparison

/-- Runs of which only the endings are compared. -/
def endings (pardoned : Failure → Prop)
    (within : ∀ {failure} name, pardoned failure → pardoned (failure.within name)) : Comparison where
  proper _ := True
  pardoned := pardoned
  finite _ := trivial
  negate _ := trivial
  multiply _ _ _ := trivial
  within := within

/-- Runs that end alike in every case. -/
def alike : Comparison := endings (fun _ => False) fun _ => id

/-- Runs of which the first may fail because too many expressions are open. -/
def deeper : Comparison :=
  endings (fun failure => failure.isDeep = true) fun _ deep => by rw [isDeep_within deep, deep]

theorem alike_lenient : alike.Lenient := fun _ => trivial

theorem deeper_lenient : deeper.Lenient := fun _ => trivial

section

variable {α : Type} {values : α → Prop} {x y : Evaluation α} {s t : Session}

/-- Runs that end alike in every case have the same ending from the same state of the generator
on. -/
theorem ending_eq (h : Matches alike.pardoned alike.Sessions values x y) (seed : t.seed = s.seed) :
    ending (x s) = ending (y t) := by
  have run := h s t (alike_lenient.sessions seed)
  generalize x s = p at run ⊢
  generalize y t = q at run ⊢
  cases run with
  | ok ended proper => exact congrArg (Prod.mk _) ended.seed.symm
  | error ended => exact congrArg (Prod.mk _) ended.seed.symm
  | pardoned never => cases never

/-- Where the second run succeeds, the first does so too, unless too many expressions are open. -/
theorem ending_of_ok (h : Matches deeper.pardoned deeper.Sessions values x y)
    (seed : t.seed = s.seed) (fine : ¬ Deep (result (x s))) {a : α} {t' : Session}
    (run : y t = .ok a t') : ∃ s', x s = .ok a s' ∧ s'.seed = t'.seed := by
  have ends := h s t (deeper_lenient.sessions seed)
  rw [run] at ends
  generalize x s = p at ends fine ⊢
  cases ends with
  | ok ended proper => exact ⟨_, rfl, ended.seed.symm⟩
  | pardoned deep => exact absurd ⟨_, rfl, deep⟩ fine

end

end Comparison

/-! ## Expressions inside of an expression -/

namespace Evaluation

/-- Expressions inside an expression match those of another run, in every environment. -/
def InnerMatches (C : Comparison) (inner inner' : Inner) : Prop :=
  ∀ (family : Family) (id : EnvId) (text : List Char),
    Matches C.pardoned C.Sessions C.proper (inner family id text) (inner' family id text)

section

variable {C : Comparison} {setting : Setting} {inner inner' : Inner}

theorem matches_within (name : String) {α : Type} {values : α → Prop} {x y : Evaluation α}
    (h : Matches C.pardoned C.Sessions values x y) :
    Matches C.pardoned C.Sessions values (within name x) (within name y) := by
  intro s t related
  have run := h s t related
  unfold within
  generalize x s = p at run ⊢
  generalize y t = q at run ⊢
  cases run with
  | ok ended proper => exact .ok ended proper
  | error ended => exact .error ended
  | pardoned forgiven => exact .pardoned (C.within name forgiven)

theorem matches_evaluateAll (inners : InnerMatches C inner inner') (family : Family) (id : EnvId)
    (texts : List (List Char)) :
    Matches C.pardoned C.Sessions (fun values => ∀ a ∈ values, C.proper a)
      (evaluateAll inner family id texts) (evaluateAll inner' family id texts) := by
  induction texts with
  | nil => exact matches_pure (by rintro _ ⟨⟩)
  | cons text rest ih =>
    refine matches_bind (inners family id text) fun value proper => ?_
    exact matches_bind ih fun values later =>
      matches_pure (List.forall_mem_cons.mpr ⟨proper, later⟩)

theorem matches_callUser (inners : InnerMatches C inner inner') (family : Family) (id : EnvId)
    (f : UserFunction) (arguments : List Decimal) :
    Matches C.pardoned C.Sessions C.proper (callUser inner family id f arguments)
      (callUser inner' family id f arguments) := by
  unfold callUser
  by_cases arity : arguments.length = f.parameters.length
  · simp only [arity, ne_eq, not_true_eq_false, if_false]
    cases bindParameters (family.overlay (f.scope.getD id)).1 (family.overlay (f.scope.getD id)).2
        f.parameters arguments with
    | error refusal => exact matches_throw _
    | ok bound =>
      cases f.guard with
      | none => exact inners _ _ _
      | some guard =>
        refine matches_bind (inners _ _ _) fun condition _ => ?_
        split
        · exact inners _ _ _
        · exact inners _ _ _
  · simp only [arity, ne_eq, not_false_eq_true, if_true]
    exact matches_throw _

theorem matches_operatorOf (family : Family) (id : EnvId) (symbol : List Char) :
    Matches C.pardoned C.Sessions (fun _ => True) (operatorOf family id symbol)
      (operatorOf family id symbol) := by
  unfold operatorOf
  dsimp only
  split
  · exact matches_throw _
  · exact matches_pure trivial

variable (lenient : C.Lenient)

include lenient

theorem matches_callFunction (inners : InnerMatches C inner inner') (family : Family) (id : EnvId)
    (arguments : List Decimal) (f : Function) :
    Matches C.pardoned C.Sessions C.proper (callFunction inner family id arguments f)
      (callFunction inner' family id arguments f) := by
  cases f with
  | native f => exact matches_callNative _ (lenient.keepsNative f) fun a _ => lenient a
  | user f => exact matches_callUser inners family id f arguments

theorem matches_variableValue (family : Family) (id : EnvId) (name : String) :
    Matches C.pardoned C.Sessions C.proper (variableValue setting family id name)
      (variableValue setting family id name) := by
  unfold variableValue
  split
  · exact matches_throw _
  · exact matches_pure (lenient _)

theorem matches_wordValue (family : Family) (id : EnvId) (token : List Char) :
    Matches C.pardoned C.Sessions C.proper (wordValue setting family id token)
      (wordValue setting family id token) := by
  unfold wordValue
  dsimp only
  split
  · refine matches_bind (matches_literal _) fun factor left => ?_
    refine matches_bind (matches_variableValue lenient family id _) fun value right => ?_
    exact matches_implicitProduct _ left right
  · exact matches_variableValue lenient family id _

theorem matches_callValue (inners : InnerMatches C inner inner') (family : Family) (id : EnvId)
    (token arguments : List Char) :
    Matches C.pardoned C.Sessions C.proper (callValue setting inner family id token arguments)
      (callValue setting inner' family id token arguments) := by
  unfold callValue
  dsimp only
  split
  · refine matches_bind (matches_literal _) fun factor left => ?_
    refine matches_bind (inners family id _) fun value right => ?_
    exact matches_implicitProduct _ left right
  · cases family.lookup id .functions (String.ofList token) with
    | none => exact matches_throw _
    | some f =>
      cases splitArguments arguments with
      | error form => exact matches_throw _
      | ok texts =>
        refine matches_bind (matches_evaluateAll inners family id texts) fun values _ => ?_
        refine matches_bind (matches_report (lenient.event _)) fun _ _ => ?_
        exact matches_within _ (matches_callFunction lenient inners family id values f)

theorem matches_operandValue (inners : InnerMatches C inner inner') (family : Family) (id : EnvId)
    (operand : Operand) :
    Matches C.pardoned C.Sessions C.proper (operandValue setting inner family id operand)
      (operandValue setting inner' family id operand) := by
  induction operand with
  | missing => exact matches_throw _
  | negative operand ih =>
    exact matches_bind ih fun value proper => matches_pure (C.negate proper)
  | bracket text => exact inners family id text
  | call name arguments => exact matches_callValue lenient inners family id name arguments
  | numeral token => exact matches_literal token
  | word token => exact matches_wordValue lenient family id token

theorem matches_parseRest (inners : InnerMatches C inner inner') (family : Family) (id : EnvId)
    (rest : Continuation) : ∀ (chain : StepChain) (left : Decimal),
      Matches C.pardoned C.Sessions C.FitsAll (parseRest setting inner family id chain left rest)
        (parseRest setting inner' family id chain left rest) := by
  induction rest with
  | done => exact fun _ _ => matches_pure (lenient.fitsAll _)
  | broken form => exact fun _ _ => matches_throw _
  | brokenValue symbol form =>
    exact fun _ _ => matches_bind (matches_operatorOf family id symbol) fun _ _ =>
      matches_throw _
  | clause symbol token next ih =>
    intro chain left
    refine matches_bind (matches_operatorOf family id symbol) fun binding _ => ?_
    refine matches_bind (matches_operandValue lenient inners family id _) fun right _ => ?_
    exact ih _ right

theorem matches_evaluateOpen (inners : InnerMatches C inner inner') (family : Family) (id : EnvId)
    (text : List Char) :
    Matches C.pardoned C.Sessions C.proper (evaluateOpen setting inner family id text)
      (evaluateOpen setting inner' family id text) := by
  have parsed : Matches C.pardoned C.Sessions C.FitsAll (parse setting inner family id text)
      (parse setting inner' family id text) := by
    unfold parse
    cases Phrase.read text with
    | error form => exact matches_throw _
    | ok phrase =>
      refine matches_bind (matches_operandValue lenient inners family id _) fun first _ => ?_
      exact matches_parseRest lenient inners family id phrase.rest .empty first
  unfold evaluateOpen
  refine matches_bind (matches_report (lenient.event _)) fun _ _ => ?_
  refine matches_bind parsed fun chain fits => ?_
  refine matches_bind (matches_report (lenient.event _)) fun _ _ => ?_
  exact matches_reduce _ fits

/-- Evaluations of a text match if they go equally deep with the same room, and also if the first
goes deeper or has less room, provided that it is pardoned when too many expressions are open. The
induction is on the room of the first; all expressions inside of the text have less. -/
theorem evaluateAt_matches (room : Nat) : ∀ room' depth depth', room ≤ room' → depth' ≤ depth →
    (room = room' ∧ depth = depth' ∨ ∀ failure, failure.isDeep = true → C.pardoned failure) →
      InnerMatches C (evaluateAt setting room depth) (evaluateAt setting room' depth') := by
  induction room with
  | zero =>
    intro room' depth depth' _ _ compared family id text
    rcases compared with ⟨rfl, rfl⟩ | forgiven
    · rw [evaluateAt]
      split
      · exact matches_throw _
      · exact matches_throw _
    · rw [evaluateAt]
      split
      · exact matches_pardoned (forgiven _ rfl) _
      · exact matches_pardoned (forgiven _ rfl) _
  | succ room ih =>
    intro room' depth depth' more shallower compared family id text
    obtain ⟨room', rfl⟩ : ∃ less, room' = less + 1 := ⟨room' - 1, by omega⟩
    rw [evaluateAt, evaluateAt]
    by_cases full : (family.options id).maxDepth < depth + 1
    · rw [if_pos full]
      rcases compared with ⟨-, rfl⟩ | forgiven
      · rw [if_pos full]
        exact matches_throw _
      · exact matches_pardoned (forgiven _ rfl) _
    · have fits : ¬ (family.options id).maxDepth < depth' + 1 := by omega
      rw [if_neg full, if_neg fits]
      refine matches_evaluateOpen lenient (ih room' _ _ (by omega) (by omega) ?_) family id text
      exact compared.imp_left fun same => ⟨Nat.succ.inj same.1, congrArg _ same.2⟩

end

/-! ## Endings -/

section

variable {setting : Setting} {family : Family} {id : EnvId} {room depth : Nat} {s t : Session}

theorem evaluateAt_alike (setting : Setting) (room depth : Nat) :
    InnerMatches .alike (evaluateAt setting room depth) (evaluateAt setting room depth) :=
  evaluateAt_matches Comparison.alike_lenient room room depth depth (Nat.le_refl _) (Nat.le_refl _)
    (.inl ⟨rfl, rfl⟩)

/-- How a token is resolved is decided by the state of the generator. -/
theorem tokenValue_ending (token : List Char) (seed : t.seed = s.seed) :
    ending (tokenValue setting (evaluateAt setting room depth) family id token s) =
      ending (tokenValue setting (evaluateAt setting room depth) family id token t) :=
  Comparison.ending_eq (matches_operandValue Comparison.alike_lenient
    (evaluateAt_alike setting room depth) family id _) seed

/-- How a call ends is decided by the state of the generator. -/
theorem callFunction_ending (name : String) (values : List Decimal) (f : Function)
    (seed : t.seed = s.seed) :
    ending (within name (callFunction (evaluateAt setting room depth) family id values f) s) =
      ending (within name (callFunction (evaluateAt setting room depth) family id values f) t) :=
  Comparison.ending_eq (matches_within name (matches_callFunction Comparison.alike_lenient
    (evaluateAt_alike setting room depth) family id values f)) seed

theorem evaluateAll_eq_mapM (inner : Inner) (family : Family) (id : EnvId)
    (texts : List (List Char)) :
    evaluateAll inner family id texts = texts.mapM (inner family id) := by
  induction texts with
  | nil => rfl
  | cons text rest ih => rw [evaluateAll, ih, List.mapM_cons]

/-- Texts that have values by themselves have the same values inside of another expression, unless
too many expressions are open there. -/
theorem evaluateAll_inside (room depth : Nat) {texts : List (List Char)} {values : List Decimal}
    {t' : Session} (seed : t.seed = s.seed)
    (fine : ¬ Deep (result
      (evaluateAll (evaluateAt setting room (depth + 1)) family id texts s)))
    (run : evaluateAll (evaluateAt setting (room + 1) depth) family id texts t = .ok values t') :
    ∃ s', evaluateAll (evaluateAt setting room (depth + 1)) family id texts s = .ok values s' ∧
      s'.seed = t'.seed :=
  Comparison.ending_of_ok (matches_evaluateAll (evaluateAt_matches Comparison.deeper_lenient room
    (room + 1) (depth + 1) depth (Nat.le_succ _) (Nat.le_succ _) (.inr fun _ deep => deep)) family
    id texts) seed fine run

end

end Evaluation
end Calculator
