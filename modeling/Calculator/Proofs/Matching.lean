import Calculator.Proofs.Likeness
import Calculator.Proofs.ReductionValue
import Calculator.Proofs.Trees

/-!
# Calculator.Proofs.Matching

Two runs of an evaluation side by side. The second may take place in scopes that know more names
than those of the first, and may report when the first does not.

* `Comparison`: what all values are to satisfy, and the failures of the first run after which
  nothing is said about the second.
* `Matches`: of two computations, the second ends as the first does, or the first fails and is
  pardoned.
* `complete_matches`: a report makes no difference to a reduction, and shows proper values only.
* `Comparison.Lenient`: nothing is asked of values, so that only the failures are compared.
* `Comparison.Offers`: a scope has all that another has, and more only where the other fails.
* `evaluate_matches`: evaluations in scopes that offer enough match.
-/

namespace Calculator

/-- How two runs are compared: what all values are to satisfy, and the failures of the first run
after which nothing is said about the second. -/
structure Comparison where
  proper : Decimal → Prop
  pardoned : Failure → Prop
  finite : ∀ {a}, a.isFinite = true → proper a
  negate : ∀ {a}, proper a → proper a.negate
  multiply : ∀ {ctx a b v}, proper a → proper b → Decimal.multiply ctx a b = .ok v → proper v
  within : ∀ {failure} name, pardoned failure → pardoned (failure.within name)

/-- All the values that an event shows as operands satisfy the predicate. -/
def Event.Proper (proper : Decimal → Prop) : Event → Prop
  | step s => proper s.left ∧ proper s.right
  | call _ arguments => ∀ a ∈ arguments, proper a
  | _ => True

/-! ## Two computations -/

section

variable {σ τ α β : Type} {pardoned : Failure → Prop} {states : σ → τ → Prop}
  {values : α → Prop} {later : β → Prop}

/-- How two runs end: alike, with related states, or the first fails and is pardoned. -/
inductive Matched (pardoned : Failure → Prop) (states : σ → τ → Prop) (values : α → Prop) :
    EStateM.Result Failure σ α → EStateM.Result Failure τ α → Prop
  | ok {a : α} {s : σ} {t : τ} :
      states s t → values a → Matched pardoned states values (.ok a s) (.ok a t)
  | error {failure : Failure} {s : σ} {t : τ} :
      states s t → Matched pardoned states values (.error failure s) (.error failure t)
  | pardoned {failure : Failure} {s : σ} {ends : EStateM.Result Failure τ α} :
      pardoned failure → Matched pardoned states values (.error failure s) ends

/-- From related states on, two computations end alike, or the first fails and is pardoned. -/
def Matches (pardoned : Failure → Prop) (states : σ → τ → Prop) (values : α → Prop)
    (x : EStateM Failure σ α) (y : EStateM Failure τ α) : Prop :=
  ∀ s t, states s t → Matched pardoned states values (x s) (y t)

theorem matches_pure {a : α} (proper : values a) :
    Matches pardoned states values (pure a) (pure a) := by
  intro s t related
  exact .ok related proper

theorem matches_throw (failure : Failure) :
    Matches pardoned states values (throw failure) (throw failure) := by
  intro s t related
  exact .error related

/-- A computation that fails and is pardoned matches every other. -/
theorem matches_pardoned {failure : Failure} (forgiven : pardoned failure)
    (y : EStateM Failure τ α) : Matches pardoned states values (throw failure) y := by
  intro s t related
  exact .pardoned forgiven

theorem matches_bind {x : EStateM Failure σ α} {y : EStateM Failure τ α}
    {f : α → EStateM Failure σ β} {g : α → EStateM Failure τ β}
    (first : Matches pardoned states values x y)
    (rest : ∀ a, values a → Matches pardoned states later (f a) (g a)) :
    Matches pardoned states later (x >>= f) (y >>= g) := by
  intro s t related
  have run := first s t related
  rw [bind_apply, bind_apply]
  generalize x s = p at run ⊢
  generalize y t = q at run ⊢
  cases run with
  | ok related' proper => exact rest _ proper _ _ related'
  | error related' => exact .error related'
  | pardoned forgiven => exact .pardoned forgiven

/-- Computations that go by their states. -/
theorem matches_get {f : σ → EStateM Failure σ α} {g : τ → EStateM Failure τ α}
    (rest : ∀ s t, states s t → Matches pardoned states values (f s) (g t)) :
    Matches pardoned states values (get >>= f) (get >>= g) := by
  intro s t related
  exact rest s t related s t related

theorem matches_modify {f : σ → σ} {g : τ → τ} (change : ∀ s t, states s t → states (f s) (g t)) :
    Matches pardoned states (fun _ => True) (modify f) (modify g) := by
  intro s t related
  exact .ok (change s t related) trivial

end

namespace Comparison

variable (C : Comparison)

/-! ## Reductions -/

/-- The operation gives proper values for proper operands. -/
def Keeps (op : Operation) : Prop :=
  ∀ {ctx a b v}, C.proper a → C.proper b → op.apply ctx a b = .ok v → C.proper v

/-- A step between proper values whose operation keeps them so. -/
structure Fits (s : Step) : Prop where
  left : C.proper s.left
  right : C.proper s.right
  keeps : C.Keeps s.operation

def FitsAll (chain : StepChain) : Prop := ∀ (i : Nat) (s : Step), chain.steps[i]? = some s → C.Fits s

/-- Two reductions of one chain; the second one reports proper values only. -/
structure Reduces (r t : Reduction) : Prop where
  chain : t.chain = r.chain
  value : t.value = r.value
  fits : C.FitsAll r.chain
  proper : ∀ v ∈ r.value, C.proper v
  events : ∀ e ∈ t.events, e.Proper C.proper

variable {C}

theorem keeps_handBack : C.Keeps .handBack := by
  intro ctx a b v _ right run
  cases run
  exact right

theorem fits_modify {steps : Array Step} {f : Step → Step} {place : Nat}
    (h : ∀ (i : Nat) (s : Step), steps[i]? = some s → C.Fits s) (kept : ∀ s, C.Fits s → C.Fits (f s))
    (i : Nat) (s : Step) (found : (steps.modify place f)[i]? = some s) : C.Fits s := by
  rw [Array.getElem?_modify] at found
  split at found
  · obtain ⟨old, there, rfl⟩ := Option.map_eq_some_iff.mp found
    exact kept old (h i old there)
  · exact h i s found

/-- Resolving a step hands its value to the steps at its sides. -/
theorem fitsAll_splice {chain : StepChain} (h : C.FitsAll chain) (index : Nat) {v : Decimal}
    (proper : C.proper v) : C.FitsAll (chain.splice index v) := by
  have left (s : Step) (fits : C.Fits s) (previous : Option Nat) :
      C.Fits { s with left := v, previous := previous } := ⟨proper, fits.right, fits.keeps⟩
  have right (s : Step) (fits : C.Fits s) (next : Option Nat) :
      C.Fits { s with right := v, next := next } := ⟨fits.left, proper, fits.keeps⟩
  unfold StepChain.splice
  cases found : chain.steps[index]? with
  | none => exact h
  | some step =>
    dsimp only
    split
    · exact fits_modify h fun s fits => ⟨fits.left, proper, fits.keeps⟩
    · refine fits_modify ?_ fun s fits => ⟨fits.left, fits.right, fits.keeps⟩
      have behind : ∀ (i : Nat) (s : Step),
          (StepChain.handBackwards chain.steps step v)[i]? = some s → C.Fits s := by
        unfold StepChain.handBackwards
        split
        · exact h
        · exact fits_modify h fun s fits => right s fits step.next
      unfold StepChain.handForwards
      split
      · exact behind
      · exact fits_modify behind fun s fits => left s fits step.previous

theorem fitsAll_append {chain : StepChain} (h : C.FitsAll chain) {step : Step} (fits : C.Fits step) :
    C.FitsAll (chain.append step) := by
  intro i s found
  unfold StepChain.append at found
  dsimp only at found
  split at found
  · rw [List.getElem?_toArray, List.getElem?_singleton] at found
    split at found
    · cases found
      exact fits
    · cases found
  · rw [Array.getElem?_push] at found
    split at found
    · cases found
      exact ⟨fits.left, fits.right, fits.keeps⟩
    · refine fits_modify h ?_ i s found
      exact fun s fits => ⟨fits.left, fits.right, fits.keeps⟩

theorem fitsAll_ofValue {v : Decimal} (proper : C.proper v) : C.FitsAll (.ofValue v) :=
  fitsAll_append (fun _ _ found => by cases found) ⟨proper, proper, keeps_handBack⟩

end Comparison

namespace Reduction

variable {C : Comparison} {ctx : Context} {tracing tracing' : Bool}

/-- What resolving a step does: it reports the step, and the chain that is left if it succeeds. -/
theorem resolve_run (ctx : Context) (tracing : Bool) (index : Nat) (step : Step) (r : Reduction) :
    ∃ events, (∀ e ∈ events, e = .step step ∨ ∃ chain, e = .remaining chain) ∧
      resolve ctx tracing index step r =
        match step.operation.apply ctx step.left step.right with
        | .error failure =>
          .error (failure.atOperator step.symbol) { r with events := events ++ r.events }
        | .ok v => .ok () ⟨r.chain.splice index v, some v, events ++ r.events⟩ := by
  cases applied : step.operation.apply ctx step.left step.right with
  | error failure =>
    cases tracing with
    | false => exact ⟨[], by simp, by simp [resolve, report_apply, applied]⟩
    | true => exact ⟨[.step step], by simp, by simp [resolve, report_apply, applied]⟩
  | ok v =>
    cases tracing with
    | false => exact ⟨[], by simp, by simp [resolve, report_apply, applied]⟩
    | true =>
      simp only [resolve, report_apply, bind_apply, modify_apply, get_apply, applied, if_true]
      cases (r.chain.splice index v).steps[index]? with
      | none => exact ⟨[.step step], by simp, rfl⟩
      | some left =>
        cases shown : left.active with
        | true => exact ⟨[.step step], by simp, by simp [shown]⟩
        | false =>
          exact ⟨[.remaining (r.chain.splice index v), .step step], by simp,
            by simp [shown, report_apply]⟩

theorem resolve_matches (index : Nat) {step : Step} (fits : C.Fits step) :
    Matches C.pardoned C.Reduces (fun _ => True) (resolve ctx tracing index step)
      (resolve ctx tracing' index step) := by
  intro r t related
  obtain ⟨events, -, run⟩ := resolve_run ctx tracing index step r
  obtain ⟨events', shown, run'⟩ := resolve_run ctx tracing' index step t
  have clean : ∀ e ∈ events' ++ t.events, e.Proper C.proper := by
    intro e mem
    rcases List.mem_append.mp mem with new | old
    · rcases shown e new with rfl | ⟨chain, rfl⟩
      · exact ⟨fits.left, fits.right⟩
      · trivial
    · exact related.events e old
  rw [run, run', related.chain]
  cases applied : step.operation.apply ctx step.left step.right with
  | error failure =>
    exact .error ⟨rfl, related.value, related.fits, related.proper, clean⟩
  | ok v =>
    have proper := fits.keeps fits.left fits.right applied
    refine .ok ⟨rfl, rfl, Comparison.fitsAll_splice related.fits index proper, ?_, clean⟩ trivial
    rintro _ ⟨⟩
    exact proper

theorem resolveLevel_matches (level fuel : Nat) : ∀ place : Option Nat,
    Matches C.pardoned C.Reduces (fun _ => True) (resolveLevel ctx tracing level fuel place)
      (resolveLevel ctx tracing' level fuel place) := by
  induction fuel with
  | zero => exact fun place => matches_pure trivial
  | succ fuel ih =>
    intro place
    cases place with
    | none => exact matches_pure trivial
    | some index =>
      unfold resolveLevel
      refine matches_get fun r t related => ?_
      rw [related.chain]
      cases found : r.chain.steps[index]? with
      | none => exact matches_pure trivial
      | some step =>
        have resolved := @resolve_matches C ctx tracing tracing' index step
          (related.fits index step found)
        dsimp only
        split
        · exact matches_bind resolved fun _ _ => ih step.next
        · exact ih step.next

theorem resolveAll_matches (level : Nat) :
    Matches C.pardoned C.Reduces (fun _ => True) (resolveAll ctx tracing level)
      (resolveAll ctx tracing' level) := by
  unfold resolveAll
  refine matches_get fun r t related => ?_
  rw [related.chain]
  exact resolveLevel_matches level _ _

theorem resolveDown_matches (level : Nat) :
    Matches C.pardoned C.Reduces (fun _ => True) (resolveDown ctx tracing level)
      (resolveDown ctx tracing' level) := by
  induction level with
  | zero => exact resolveAll_matches 0
  | succ level ih => exact matches_bind (resolveAll_matches _) fun _ _ => ih

/-- A report makes no difference to a reduction, and shows proper values only. -/
theorem complete_matches :
    Matches C.pardoned C.Reduces (fun value => ∀ v ∈ value, C.proper v) (complete ctx tracing)
      (complete ctx tracing') := by
  unfold complete
  refine matches_get fun r t related => ?_
  rw [related.chain]
  refine matches_bind (resolveDown_matches _) fun _ _ => matches_get fun r t related => ?_
  rw [related.value]
  exact matches_pure related.proper

end Reduction

/-! ## Sessions and counts -/

namespace Comparison

variable (C : Comparison)

/-- Two sessions with one state of the generator; the second one reports proper values only. -/
structure Sessions (s t : Session) : Prop where
  seed : t.seed = s.seed
  events : ∀ e ∈ t.events, e.Proper C.proper

/-- Two counts of as many expressions, with such sessions. -/
structure Counts (c d : Count) : Prop where
  level : d.level = c.level
  peak : d.peak = c.peak
  sessions : C.Sessions c.session d.session

/-- The function gives proper values for proper arguments and every random fraction. -/
def KeepsNative (f : NativeFunction) : Prop :=
  match f.body with
  | .plain run => ∀ ctx arguments v, (∀ a ∈ arguments, C.proper a) →
      run ctx arguments = .ok v → C.proper v
  | .drawing run => ∀ ctx fraction arguments v, fraction.isFinite = true →
      (∀ a ∈ arguments, C.proper a) → run ctx fraction arguments = .ok v → C.proper v

end Comparison

section

variable {C : Comparison} {α : Type} {values : α → Prop}

theorem matches_lift {x y : Evaluation α} (h : Matches C.pardoned C.Sessions values x y) :
    Matches C.pardoned C.Counts values (Counting.lift x) (Counting.lift y) := by
  intro c d related
  have run := h c.session d.session related.sessions
  unfold Counting.lift
  generalize x c.session = p at run ⊢
  generalize y d.session = q at run ⊢
  cases run with
  | ok sessions proper => exact .ok ⟨related.level, related.peak, sessions⟩ proper
  | error sessions => exact .error ⟨related.level, related.peak, sessions⟩
  | pardoned forgiven => exact .pardoned forgiven

theorem matches_opened {x y : Counting α} (h : Matches C.pardoned C.Counts values x y) :
    Matches C.pardoned C.Counts values (Counting.opened x) (Counting.opened y) := by
  intro c d related
  have run := h { c with level := c.level + 1, peak := max c.peak (c.level + 1) }
    { d with level := d.level + 1, peak := max d.peak (d.level + 1) }
    ⟨by rw [related.level], by rw [related.level, related.peak], related.sessions⟩
  unfold Counting.opened
  generalize x { c with level := c.level + 1, peak := max c.peak (c.level + 1) } = p at run ⊢
  generalize y { d with level := d.level + 1, peak := max d.peak (d.level + 1) } = q at run ⊢
  cases run with
  | ok ended proper => exact .ok ⟨related.level, ended.peak, ended.sessions⟩ proper
  | error ended => exact .error ⟨related.level, ended.peak, ended.sessions⟩
  | pardoned forgiven => exact .pardoned forgiven

theorem matches_within (name : String) {x y : Counting α}
    (h : Matches C.pardoned C.Counts values x y) :
    Matches C.pardoned C.Counts values (Counting.within name x) (Counting.within name y) := by
  intro c d related
  have run := h c d related
  unfold Counting.within
  generalize x c = p at run ⊢
  generalize y d = q at run ⊢
  cases run with
  | ok ended proper => exact .ok ended proper
  | error ended => exact .error ended
  | pardoned forgiven => exact .pardoned (C.within name forgiven)

namespace Evaluation

variable {setting setting' : Setting}

theorem matches_ofExcept {x : Except Failure α} (proper : ∀ a, x = .ok a → values a) :
    Matches C.pardoned C.Sessions values (ofExcept x) (ofExcept x) := by
  cases x with
  | ok a => exact matches_pure (proper a rfl)
  | error failure => exact matches_throw failure

theorem matches_literal (token : List Char) :
    Matches C.pardoned C.Sessions C.proper (ofExcept (parseLiteral token))
      (ofExcept (parseLiteral token)) := by
  refine matches_ofExcept fun a read => ?_
  unfold parseLiteral at read
  extract_lets negative body at read
  split at read
  · cases read
    exact C.finite rfl
  · cases read

theorem matches_report {event : Unit → Event} (shows : (event ()).Proper C.proper) :
    Matches C.pardoned C.Sessions (fun _ => True) (reportEvent setting event)
      (reportEvent setting' event) := by
  refine matches_modify fun s t related => ⟨?_, ?_⟩
  · cases setting.tracing <;> cases setting'.tracing <;> exact related.seed
  · cases setting'.tracing with
    | false => exact related.events
    | true => exact List.forall_mem_cons.mpr ⟨shows, related.events⟩

theorem matches_draw :
    Matches C.pardoned C.Sessions (fun fraction => fraction.isFinite = true) draw draw := by
  unfold draw
  refine matches_get fun s t related => ?_
  rw [related.seed]
  refine matches_bind (matches_modify fun s t related => ⟨rfl, related.events⟩) fun _ _ => ?_
  exact matches_pure rfl

theorem matches_callNative (ctx : Context) {f : NativeFunction} (keeps : C.KeepsNative f)
    {arguments : List Decimal} (proper : ∀ a ∈ arguments, C.proper a) :
    Matches C.pardoned C.Sessions C.proper (callNative ctx f arguments)
      (callNative ctx f arguments) := by
  unfold callNative
  unfold Comparison.KeepsNative at keeps
  by_cases fits : f.accepts arguments.length = true
  · simp only [fits, Bool.not_true, Bool.false_eq_true, if_false]
    cases body : f.body with
    | plain run =>
      rw [body] at keeps
      exact matches_ofExcept fun v ran => keeps _ _ v proper ran
    | drawing run =>
      rw [body] at keeps
      refine matches_bind matches_draw fun fraction drawn => ?_
      exact matches_ofExcept fun v ran => keeps _ _ _ v drawn proper ran
  · simp only [fits, Bool.not_false, if_true]
    exact matches_throw _

theorem matches_implicitProduct (ctx : Context) {factor value : Decimal} (left : C.proper factor)
    (right : C.proper value) :
    Matches C.pardoned C.Sessions C.proper (implicitProduct ctx factor value)
      (implicitProduct ctx factor value) := by
  unfold implicitProduct
  split
  · exact matches_throw _
  · rename_i product multiplied
    exact matches_pure (C.multiply left right multiplied)

theorem matches_reduce (ctx : Context) {chain : StepChain} (fits : C.FitsAll chain) :
    Matches C.pardoned C.Sessions C.proper (reduce setting ctx chain) (reduce setting' ctx chain) := by
  intro s t related
  have started : C.Reduces (.start chain) (.start chain) :=
    ⟨rfl, rfl, fits, by rintro _ ⟨⟩, by rintro _ ⟨⟩⟩
  have run := @Reduction.complete_matches C ctx setting.tracing setting'.tracing _ _ started
  unfold reduce
  generalize Reduction.complete ctx setting.tracing (.start chain) = p at run ⊢
  generalize Reduction.complete ctx setting'.tracing (.start chain) = q at run ⊢
  have clean {r : Reduction} (reported : ∀ e ∈ r.events, e.Proper C.proper) :
      ∀ e ∈ r.events ++ t.events, e.Proper C.proper := by
    intro e mem
    exact (List.mem_append.mp mem).elim (reported e) (related.events e)
  cases run with
  | @ok value _ _ reduced proper =>
    refine .ok ⟨related.seed, clean reduced.events⟩ ?_
    cases value with
    | none => exact C.finite rfl
    | some v => exact proper v rfl
  | error reduced => exact .error ⟨related.seed, clean reduced.events⟩
  | pardoned forgiven => exact .pardoned forgiven

end Evaluation

end

/-! ## Two scopes -/

namespace Comparison

variable (C : Comparison)

/-- All that the scope holds is proper, or keeps values so. -/
structure Sound (x : Scope) : Prop where
  operators : ∀ name binding, x.operators name = some binding → C.Keeps binding.operation
  natives : ∀ name f, x.functions name = some (.native f) → C.KeepsNative f
  vars : ∀ name v, x.vars name = some v → C.proper v

/-- A name stands for nothing, and a run that needs it is pardoned. -/
def Lacks {β : Type} (kind : Kind) (names : String → Option β) (name : String) : Prop :=
  names name = none ∧ C.pardoned (.undefined kind name)

/-- The second scope has what the first has, and more only where the first lacks it: further names,
or implicit products in place of names. -/
structure Offers (x y : Scope) : Prop where
  sound : C.Sound x
  operators : ∀ name, y.operators name = x.operators name ∨ C.Lacks .operators x.operators name
  functions : ∀ name, y.functions name = x.functions name ∨ C.Lacks .functions x.functions name
  vars : ∀ name, y.vars name = x.vars name ∨ C.Lacks .vars x.vars name
  context : y.options.context = x.options.context
  maxDepth : y.options.maxDepth = x.options.maxDepth
  bracketMultiply : y.options.bracketMultiply = x.options.bracketMultiply ∨
    x.options.bracketMultiply = false ∧ ∀ token : List Char,
      token.all Evaluation.isFactorSymbol = true →
        C.Lacks .functions x.functions (String.ofList token)
  variableMultiply : y.options.variableMultiply = x.options.variableMultiply ∨
    x.options.variableMultiply = false ∧ ∀ token : List Char,
      (token.head?.map Evaluation.isFactorSymbol).getD false = true →
        C.Lacks .vars x.vars (String.ofList token)

variable {C}

section

variable {x y : Scope}

theorem Sound.offers (sound : C.Sound x) : C.Offers x x :=
  ⟨sound, fun _ => .inl rfl, fun _ => .inl rfl, fun _ => .inl rfl, rfl, rfl, .inl rfl, .inl rfl⟩

theorem Offers.withVar (offers : C.Offers x y) {name : Option String} {key : String}
    {value : Decimal} (named : validateName .variableName name = .ok key)
    (finite : value.isFinite = true) : C.Offers (x.withVar key value) (y.withVar key value) where
  sound := by
    refine ⟨offers.sound.operators, offers.sound.natives, fun other v found => ?_⟩
    unfold Scope.withVar at found
    dsimp only at found
    split at found
    · cases found
      exact C.finite finite
    · exact offers.sound.vars other v found
  operators := offers.operators
  functions := offers.functions
  vars other := by
    unfold Lacks Scope.withVar
    dsimp only
    split
    · exact .inl rfl
    · exact offers.vars other
  context := offers.context
  maxDepth := offers.maxDepth
  bracketMultiply := offers.bracketMultiply
  variableMultiply := by
    refine offers.variableMultiply.imp_right fun ⟨off, lacks⟩ => ⟨off, fun token factor => ?_⟩
    obtain ⟨first, rest, spelt, notFactor⟩ := head_not_factor (Family.validateName_problem named)
    have apart : String.ofList token ≠ key := by
      rintro rfl
      rw [String.toList_ofList] at spelt
      subst spelt
      simp [notFactor] at factor
    obtain ⟨missing, forgiven⟩ := lacks token factor
    exact ⟨(if_neg apart).trans missing, forgiven⟩

theorem Offers.bindParameters (names : List String) : ∀ (values : List Decimal) {x y : Scope},
    C.Offers x y →
    match x.bindParameters names values with
    | .error refusal => y.bindParameters names values = .error refusal
    | .ok x' => ∃ y', y.bindParameters names values = .ok y' ∧ C.Offers x' y' := by
  induction names with
  | nil =>
    intro values x y offers
    exact ⟨y, rfl, offers⟩
  | cons name names ih =>
    intro values x y offers
    cases values with
    | nil => exact ⟨y, rfl, offers⟩
    | cons value values =>
      simp only [Scope.bindParameters]
      cases named : validateName .variableName (some name) with
      | error refusal => rfl
      | ok key =>
        cases finite : value.isFinite with
        | true => exact ih values (offers.withVar named finite)
        | false => rfl

end

/-! ## Nothing asked of values -/

/-- Nothing is asked of values. -/
def Lenient (C : Comparison) : Prop := ∀ a, C.proper a

theorem Lenient.fitsAll (lenient : C.Lenient) (chain : StepChain) : C.FitsAll chain :=
  fun _ s _ => ⟨lenient s.left, lenient s.right, fun _ _ _ => lenient _⟩

theorem Lenient.keepsNative (lenient : C.Lenient) (f : NativeFunction) : C.KeepsNative f := by
  unfold KeepsNative
  split
  · exact fun _ _ _ _ _ => lenient _
  · exact fun _ _ _ _ _ _ _ => lenient _

theorem Lenient.sound (lenient : C.Lenient) (x : Scope) : C.Sound x where
  operators _ _ _ := fun _ _ _ => lenient _
  natives _ f _ := lenient.keepsNative f
  vars _ v _ := lenient v

theorem Lenient.event (lenient : C.Lenient) (e : Event) : e.Proper C.proper := by
  cases e with
  | step s => exact ⟨lenient _, lenient _⟩
  | call name arguments => exact fun a _ => lenient a
  | _ => trivial

theorem Lenient.sessions (lenient : C.Lenient) {s t : Session} (seed : t.seed = s.seed) :
    C.Sessions s t := ⟨seed, fun e _ => lenient.event e⟩

end Comparison

/-! ## Two evaluations -/

section

variable {C : Comparison} {x y : Scope}

theorem matches_operatorOf (offers : C.Offers x y) (symbol : List Char) :
    Matches C.pardoned C.Sessions (fun binding => C.Keeps binding.operation)
      (x.operatorOf symbol) (y.operatorOf symbol) := by
  unfold Scope.operatorOf
  rcases offers.operators (String.ofList symbol) with same | ⟨missing, forgiven⟩
  · rw [same]
    cases found : x.operators (String.ofList symbol) with
    | none => exact matches_throw _
    | some binding => exact matches_pure (offers.sound.operators _ _ found)
  · rw [missing]
    exact matches_pardoned forgiven _

theorem matches_variableValue (offers : C.Offers x y) (name : String) :
    Matches C.pardoned C.Sessions C.proper (x.variableValue name) (y.variableValue name) := by
  unfold Scope.variableValue
  rcases offers.vars name with same | ⟨missing, forgiven⟩
  · rw [same]
    cases found : x.vars name with
    | none => exact matches_throw _
    | some value => exact matches_pure (offers.sound.vars _ _ found)
  · rw [missing]
    exact matches_pardoned forgiven _

/-- A word that is a product in the second scope stands for nothing in the first. -/
theorem matches_wordValue (offers : C.Offers x y) (token : List Char) :
    Matches C.pardoned C.Sessions C.proper (x.wordValue token) (y.wordValue token) := by
  unfold Scope.wordValue
  by_cases product : (y.options.variableMultiply &&
      (token.head?.map Evaluation.isFactorSymbol).getD false) = true
  · rcases offers.variableMultiply with same | ⟨off, lacks⟩
    · rw [← same, ← offers.context, if_pos product, if_pos product]
      refine matches_bind (Evaluation.matches_literal _) fun factor left => ?_
      refine matches_bind (matches_variableValue offers _) fun value right => ?_
      exact Evaluation.matches_implicitProduct _ left right
    · obtain ⟨missing, forgiven⟩ := lacks token (Bool.and_eq_true_iff.mp product).2
      rw [off, Bool.false_and, if_neg Bool.false_ne_true, Scope.variableValue, missing]
      exact matches_pardoned forgiven _
  · have plain : ¬ (x.options.variableMultiply &&
        (token.head?.map Evaluation.isFactorSymbol).getD false) = true := by
      rcases offers.variableMultiply with same | ⟨off, -⟩
      · rwa [← same]
      · rw [off, Bool.false_and]
        exact Bool.false_ne_true
    rw [if_neg plain, if_neg product]
    exact matches_variableValue offers _

namespace Counting

/-- Expressions inside an expression match those of another run. -/
def InnerMatches (C : Comparison) (inner inner' : Inner) : Prop :=
  ∀ {x y : Scope} (text : List Char), C.Offers x y →
    Matches C.pardoned C.Counts C.proper (inner x text) (inner' y text)

variable {setting setting' : Setting} {inner inner' : Inner} {bound bound' : EnvId → Scope}

theorem matches_evaluateAll (inners : InnerMatches C inner inner') (offers : C.Offers x y)
    (texts : List (List Char)) :
    Matches C.pardoned C.Counts (fun values => ∀ a ∈ values, C.proper a)
      (evaluateAll inner x texts) (evaluateAll inner' y texts) := by
  induction texts with
  | nil => exact matches_pure (by rintro _ ⟨⟩)
  | cons text rest ih =>
    refine matches_bind (inners text offers) fun value proper => ?_
    exact matches_bind ih fun values later =>
      matches_pure (List.forall_mem_cons.mpr ⟨proper, later⟩)

theorem matches_callUser (inners : InnerMatches C inner inner')
    (bounds : ∀ i, C.Offers (bound i) (bound' i)) (offers : C.Offers x y) (f : UserFunction)
    (arguments : List Decimal) :
    Matches C.pardoned C.Counts C.proper (callUser inner bound x f arguments)
      (callUser inner' bound' y f arguments) := by
  have owners : C.Offers (f.scope.elim x bound) (f.scope.elim y bound') := by
    cases f.scope with
    | none => exact offers
    | some owner => exact bounds owner
  have binding := owners.bindParameters f.parameters arguments
  unfold callUser
  by_cases arity : arguments.length = f.parameters.length
  · simp only [arity, ne_eq, not_true_eq_false, if_false]
    cases bindings : (f.scope.elim x bound).bindParameters f.parameters arguments with
    | error refusal =>
      rw [bindings] at binding
      rw [binding]
      exact matches_throw _
    | ok x' =>
      rw [bindings] at binding
      obtain ⟨y', run, there⟩ := binding
      rw [run]
      cases f.guard with
      | none => exact inners _ there
      | some guard =>
        refine matches_bind (inners _ there) fun condition _ => ?_
        split
        · exact inners _ there
        · exact inners _ there
  · simp only [arity, ne_eq, not_false_eq_true, if_true]
    exact matches_throw _

theorem matches_callFunction (inners : InnerMatches C inner inner')
    (bounds : ∀ i, C.Offers (bound i) (bound' i)) (offers : C.Offers x y) {name : String}
    {f : Function} (found : x.functions name = some f) {values : List Decimal}
    (proper : ∀ a ∈ values, C.proper a) :
    Matches C.pardoned C.Counts C.proper (callFunction inner bound x values f)
      (callFunction inner' bound' y values f) := by
  cases f with
  | native f =>
    unfold callFunction
    rw [offers.context]
    exact matches_lift
      (Evaluation.matches_callNative _ (offers.sound.natives name f found) proper)
  | user f => exact matches_callUser inners bounds offers f values

/-- A call that is a product in the second scope is one of no function in the first. -/
theorem matches_callValue (inners : InnerMatches C inner inner')
    (bounds : ∀ i, C.Offers (bound i) (bound' i)) (offers : C.Offers x y)
    (token arguments : List Char) :
    Matches C.pardoned C.Counts C.proper (callValue setting inner bound x token arguments)
      (callValue setting' inner' bound' y token arguments) := by
  unfold callValue
  by_cases product : (y.options.bracketMultiply && token.all Evaluation.isFactorSymbol) = true
  · rcases offers.bracketMultiply with same | ⟨off, lacks⟩
    · rw [← same, ← offers.context, if_pos product, if_pos product]
      refine matches_bind (matches_lift (Evaluation.matches_literal _)) fun factor left => ?_
      refine matches_bind (inners _ offers) fun value right => ?_
      exact matches_lift (Evaluation.matches_implicitProduct _ left right)
    · obtain ⟨missing, forgiven⟩ := lacks token (Bool.and_eq_true_iff.mp product).2
      rw [off, Bool.false_and, if_neg Bool.false_ne_true, missing]
      exact matches_pardoned forgiven _
  · have plain : ¬ (x.options.bracketMultiply && token.all Evaluation.isFactorSymbol) = true := by
      rcases offers.bracketMultiply with same | ⟨off, -⟩
      · rwa [← same]
      · rw [off, Bool.false_and]
        exact Bool.false_ne_true
    rw [if_neg plain, if_neg product]
    rcases offers.functions (String.ofList token) with same | ⟨missing, forgiven⟩
    · rw [same]
      cases found : x.functions (String.ofList token) with
      | none => exact matches_throw _
      | some f =>
        cases splitArguments arguments with
        | error form => exact matches_throw _
        | ok texts =>
          refine matches_bind (matches_evaluateAll inners offers texts) fun values proper => ?_
          refine matches_bind (matches_lift (Evaluation.matches_report proper)) fun _ _ => ?_
          exact matches_within _ (matches_callFunction inners bounds offers found proper)
    · rw [missing]
      exact matches_pardoned forgiven _

theorem matches_operandValue (inners : InnerMatches C inner inner')
    (bounds : ∀ i, C.Offers (bound i) (bound' i)) (offers : C.Offers x y) (operand : Operand) :
    Matches C.pardoned C.Counts C.proper (operandValue setting inner bound x operand)
      (operandValue setting' inner' bound' y operand) := by
  induction operand with
  | missing => exact matches_throw _
  | negative operand ih =>
    exact matches_bind ih fun value proper => matches_pure (C.negate proper)
  | bracket text => exact inners text offers
  | call name arguments => exact matches_callValue inners bounds offers name arguments
  | numeral token => exact matches_lift (Evaluation.matches_literal token)
  | word token => exact matches_lift (matches_wordValue offers token)

theorem matches_parseRest (inners : InnerMatches C inner inner')
    (bounds : ∀ i, C.Offers (bound i) (bound' i)) (offers : C.Offers x y) (rest : Continuation) :
    ∀ (chain : StepChain) (left : Decimal), C.FitsAll chain → C.proper left →
      Matches C.pardoned C.Counts C.FitsAll (parseRest setting inner bound x chain left rest)
        (parseRest setting' inner' bound' y chain left rest) := by
  induction rest with
  | done =>
    intro chain left fits proper
    refine matches_pure ?_
    split
    · exact Comparison.fitsAll_ofValue proper
    · exact fits
  | broken form => exact fun _ _ _ _ => matches_throw _
  | brokenValue symbol form =>
    intro chain left fits proper
    exact matches_bind (matches_lift (matches_operatorOf offers symbol)) fun _ _ => matches_throw _
  | clause symbol token next ih =>
    intro chain left fits proper
    refine matches_bind (matches_lift (matches_operatorOf offers symbol)) fun binding keeps => ?_
    refine matches_bind (matches_operandValue inners bounds offers _) fun right proper' => ?_
    exact ih _ right (Comparison.fitsAll_append fits ⟨proper, proper', keeps⟩) proper'

theorem matches_evaluateOpen (inners : InnerMatches C inner inner')
    (bounds : ∀ i, C.Offers (bound i) (bound' i)) (offers : C.Offers x y) (text : List Char) :
    Matches C.pardoned C.Counts C.proper (evaluateOpen setting inner bound x text)
      (evaluateOpen setting' inner' bound' y text) := by
  have parsed : Matches C.pardoned C.Counts C.FitsAll (parse setting inner bound x text)
      (parse setting' inner' bound' y text) := by
    unfold parse
    cases Phrase.read text with
    | error form => exact matches_throw _
    | ok phrase =>
      refine matches_bind (matches_operandValue inners bounds offers _) fun first proper => ?_
      exact matches_parseRest inners bounds offers phrase.rest .empty first
        (by rintro _ _ ⟨⟩) proper
  unfold evaluateOpen
  rw [offers.context]
  refine matches_bind (matches_lift (Evaluation.matches_report trivial)) fun _ _ => ?_
  refine matches_bind parsed fun chain fits => ?_
  refine matches_bind (matches_lift (Evaluation.matches_report trivial)) fun _ _ => ?_
  exact matches_lift (Evaluation.matches_reduce _ fits)

/-- Evaluations with the same room match. The induction is on the room that is left; all
expressions inside of the text have less. -/
theorem evaluateAt_matches (bounds : ∀ i, C.Offers (bound i) (bound' i)) (room : Nat) :
    InnerMatches C (evaluateAt setting bound room) (evaluateAt setting' bound' room) := by
  induction room with
  | zero =>
    intro x y text offers
    rw [evaluateAt, evaluateAt, offers.maxDepth]
    refine matches_get fun c d related => ?_
    rw [related.level]
    split
    · exact matches_throw _
    · exact matches_throw _
  | succ room ih =>
    intro x y text offers
    rw [evaluateAt, evaluateAt, offers.maxDepth]
    refine matches_get fun c d related => ?_
    rw [related.level]
    split
    · exact matches_throw _
    · exact matches_opened (matches_evaluateOpen ih bounds offers text)

end Counting

namespace Evaluation

/-- Evaluations match in environments of two families whose environments offer enough, whether they
report or not. -/
theorem evaluate_matches {C : Comparison} {family other : Family} (built : family.Built)
    (built' : other.Built) {id twin : EnvId} (lt : id < family.members.size)
    (lt' : twin < other.members.size) {setting setting' : Setting}
    (bounds : ∀ i, C.Offers (family.scope setting.now i) (other.scope setting'.now i))
    (offers : C.Offers (family.scope setting.now id) (other.scope setting'.now twin))
    (text : String) :
    Matches C.pardoned C.Sessions C.proper (evaluate setting family id text)
      (evaluate setting' other twin text) := by
  intro s t related
  have left : Kept (.start s) (evaluate setting family id text s) _ :=
    evaluateAt_counts setting built stackRoom 0 text.toList
      (Family.Shows.start built lt setting.now) (.start s) rfl
  have right : Kept (.start t) (evaluate setting' other twin text t) _ :=
    evaluateAt_counts setting' built' stackRoom 0 text.toList
      (Family.Shows.start built' lt' setting'.now) (.start t) rfl
  have run := @Counting.evaluateAt_matches C setting setting' _ _ bounds stackRoom _ _
    text.toList offers (.start s) (.start t) ⟨rfl, rfl, related⟩
  generalize evaluate setting family id text s = p at left ⊢
  generalize evaluate setting' other twin text t = q at right ⊢
  generalize Counting.evaluateAt setting (family.scope setting.now) stackRoom
    (family.scope setting.now id) text.toList _ = p' at left run
  generalize Counting.evaluateAt setting' (other.scope setting'.now) stackRoom
    (other.scope setting'.now twin) text.toList _ = q' at right run
  cases run with
  | ok ended proper =>
    cases left
    cases right
    exact .ok ended.sessions proper
  | error ended =>
    cases left
    cases right
    exact .error ended.sessions
  | pardoned forgiven =>
    cases left
    exact .pardoned forgiven

end Evaluation

end

end Calculator
