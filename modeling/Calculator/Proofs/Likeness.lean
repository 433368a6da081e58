import Calculator.Proofs.Counting

/-!
# Calculator.Proofs.Likeness

What an expression comes to depends on what its environment shows, and not on how the environment
came to show it. It depends on the time and on the random number generator only where the
expression reads a clock or calls a function that draws.

* `Family.Uses`: the texts that may do so, themselves or through the user functions they call.
* `Touches`: the texts that may depend on what two runs differ in.
* `Follows`: of two counted computations, the first ends as the second does, or finds at some point
  that it may open no more expressions.
* `evaluateAt_follows`: evaluations in scopes that differ only in what a text does not touch end
  alike.
* `evaluate_view`, `evaluate_unused`: so do evaluations in environments that show the same.
-/

namespace Calculator

/-! ## Texts that read a clock or draw -/

/-- The operand that is left without its minuses. -/
def Operand.core : Operand → Operand
  | negative inner => inner.core
  | operand => operand

def Continuation.tokens : Continuation → List (List Char)
  | clause _ token next => token :: next.tokens
  | _ => []

/-- The operands of an expression, as far as it can be read. -/
def operandsOf (text : List Char) : List Operand :=
  match Phrase.read text with
  | .error _ => []
  | .ok phrase => (phrase.first :: phrase.rest.tokens).map fun token => (Operand.ofToken token).core

/-- The name of the variable that a word gives, possibly after a factor. -/
def wordName (options : Options) (token : List Char) : String :=
  if options.variableMultiply && (token.head?.map Evaluation.isFactorSymbol).getD false then
    String.ofList (token.dropWhile Evaluation.isFactorSymbol)
  else String.ofList token

def NativeFunction.draws (f : NativeFunction) : Bool :=
  match f.body with
  | .plain _ => false
  | .drawing _ => true

/-- The expressions of a user function. -/
def UserFunction.sources (f : UserFunction) : List String :=
  f.body :: match f.guard with
    | none => []
    | some guard => [guard.condition, guard.result]

/-- The texts that may read a clock or draw a random number when they are evaluated in an
environment: a word of theirs stands for a clock, or a function they call draws, or that is so of a
text inside of them or of an expression of a user function that they call. -/
inductive Family.Uses (family : Family) : EnvId → List Char → Prop
  | clock {id : EnvId} {text token : List Char} :
      .word token ∈ operandsOf text →
      family.lookup id .vars (wordName (family.options id) token) = some .clock → Uses family id text
  | draw {id : EnvId} {text name arguments : List Char} {f : NativeFunction} :
      .call name arguments ∈ operandsOf text →
      family.lookup id .functions (String.ofList name) = some (.native f) → f.draws = true →
      Uses family id text
  | callee {id : EnvId} {text name arguments : List Char} {f : UserFunction} {source : String} :
      .call name arguments ∈ operandsOf text →
      family.lookup id .functions (String.ofList name) = some (.user f) → source ∈ f.sources →
      Uses family (f.scope.getD id) source.toList → Uses family id text
  | bracket {id : EnvId} {text inner : List Char} :
      .bracket inner ∈ operandsOf text → Uses family id inner → Uses family id text
  | product {id : EnvId} {text name arguments : List Char} :
      .call name arguments ∈ operandsOf text → Uses family id arguments → Uses family id text
  | argument {id : EnvId} {text name arguments part : List Char} {parts : List (List Char)} :
      .call name arguments ∈ operandsOf text → splitArguments arguments = .ok parts →
      part ∈ parts → Uses family id part → Uses family id text

/-- An operand of an environment is no clock and no call of a function that draws, and leads to
certain texts of environments only. -/
def Family.harmless (family : Family) (texts : List (EnvId × List Char)) (id : EnvId) :
    Operand → Bool
  | .word token => family.lookup id .vars (wordName (family.options id) token) != some .clock
  | .bracket inner => texts.contains (id, inner)
  | .call name arguments =>
    texts.contains (id, arguments) &&
      (match splitArguments arguments with
        | .error _ => true
        | .ok parts => parts.all fun part => texts.contains (id, part)) &&
      match family.lookup id .functions (String.ofList name) with
      | none => true
      | some (.native f) => !f.draws
      | some (.user f) => f.sources.all fun source => texts.contains (f.scope.getD id, source.toList)
  | _ => true

/-- Texts that lead to each other only use nothing, if none of their operands does. -/
theorem Family.not_uses_of_harmless {family : Family} {texts : List (EnvId × List Char)}
    (closed : ∀ text ∈ texts, ∀ operand ∈ operandsOf text.2,
      family.harmless texts text.1 operand = true) {id : EnvId} {text : List Char}
    (mem : (id, text) ∈ texts) : ¬ family.Uses id text := by
  intro uses
  induction uses with
  | clock part found =>
    have harmless := closed _ mem _ part
    simp [Family.harmless, found] at harmless
  | draw part found draws =>
    have harmless := closed _ mem _ part
    simp [Family.harmless, found, draws] at harmless
  | callee part found listed _ ih =>
    have harmless := closed _ mem _ part
    simp only [Family.harmless, found, Bool.and_eq_true, List.all_eq_true,
      List.contains_iff_mem] at harmless
    exact ih (harmless.2 _ listed)
  | bracket part _ ih =>
    have harmless := closed _ mem _ part
    simp only [Family.harmless, List.contains_iff_mem] at harmless
    exact ih harmless
  | product part _ ih =>
    have harmless := closed _ mem _ part
    simp only [Family.harmless, Bool.and_eq_true, List.contains_iff_mem] at harmless
    exact ih harmless.1.1
  | argument part split listed _ ih =>
    have harmless := closed _ mem _ part
    simp only [Family.harmless, split, Bool.and_eq_true, List.all_eq_true,
      List.contains_iff_mem] at harmless
    exact ih (harmless.1.2 _ listed)

/-- A text of numerals and words uses nothing if no word of it stands for a clock. -/
theorem Family.not_uses {family : Family} {id : EnvId} {text : List Char}
    (plain : ∀ operand ∈ operandsOf text, (∃ token, operand = .numeral token) ∨
      ∃ token, operand = .word token ∧
        family.lookup id .vars (wordName (family.options id) token) ≠ some .clock) :
    ¬ family.Uses id text := by
  refine not_uses_of_harmless (fun other mem operand part => ?_)
    (List.mem_singleton_self (id, text))
  obtain rfl := List.mem_singleton.mp mem
  rcases plain operand part with ⟨token, rfl⟩ | ⟨token, rfl, still⟩
  · rfl
  · exact bne_iff_ne.mpr still

/-! ## What two runs differ in -/

/-- What may differ between two runs: the values of some names of each environment, what some native
functions give, and everything about some environments. -/
structure Moving where
  names : EnvId → String → Prop
  natives : NativeFunction → Prop
  environments : EnvId → Prop

/-- The texts that may depend on what two runs differ in, when they are evaluated in the scope of an
environment: a word of theirs or a function they call is among it, or the environment is; or that is
so of a text inside of them or of an expression of a user function that they call. -/
inductive Touches (bound : EnvId → Scope) (moving : Moving) : EnvId → List Char → Prop
  | environment {id : EnvId} {text : List Char} :
      moving.environments id → Touches bound moving id text
  | name {id : EnvId} {text token : List Char} :
      .word token ∈ operandsOf text → moving.names id (wordName (bound id).options token) →
      Touches bound moving id text
  | native {id : EnvId} {text name arguments : List Char} {f : NativeFunction} :
      .call name arguments ∈ operandsOf text →
      (bound id).functions (String.ofList name) = some (.native f) → moving.natives f →
      Touches bound moving id text
  | callee {id : EnvId} {text name arguments : List Char} {f : UserFunction} {source : String} :
      .call name arguments ∈ operandsOf text →
      (bound id).functions (String.ofList name) = some (.user f) → source ∈ f.sources →
      Touches bound moving (f.scope.getD id) source.toList → Touches bound moving id text
  | bracket {id : EnvId} {text inner : List Char} :
      .bracket inner ∈ operandsOf text → Touches bound moving id inner →
      Touches bound moving id text
  | product {id : EnvId} {text name arguments : List Char} :
      .call name arguments ∈ operandsOf text → Touches bound moving id arguments →
      Touches bound moving id text
  | argument {id : EnvId} {text name arguments part : List Char} {parts : List (List Char)} :
      .call name arguments ∈ operandsOf text → splitArguments arguments = .ok parts →
      part ∈ parts → Touches bound moving id part → Touches bound moving id text

/-- What differs at different times and with different random numbers, some environments apart. -/
def Family.otherTimes (family : Family) (environments : EnvId → Prop) : Moving where
  names id name := family.lookup id .vars name = some .clock
  natives f := f.draws = true
  environments := environments

/-- From an environment that stays apart from the others, a text touches nothing else but what it
uses. -/
theorem Family.uses_of_touches {family : Family} {environments : EnvId → Prop}
    (apart : ∀ i name f, ¬ environments i → family.lookup i .functions name = some (.user f) →
      ¬ environments (f.scope.getD i))
    {bound : EnvId → Scope}
    (functions : ∀ i, ¬ environments i → (bound i).functions = family.lookup i .functions)
    (multiply : ∀ i, ¬ environments i →
      (bound i).options.variableMultiply = (family.options i).variableMultiply)
    {id : EnvId} {text : List Char} (h : Touches bound (family.otherTimes environments) id text)
    (start : ¬ environments id) : family.Uses id text := by
  induction h with
  | environment moves => exact absurd moves start
  | name part clock =>
    rw [wordName, multiply _ start] at clock
    exact .clock part clock
  | native part found draws =>
    rw [functions _ start] at found
    exact .draw part found draws
  | callee part found listed _ ih =>
    rw [functions _ start] at found
    exact .callee part found listed (ih (apart _ _ _ start found))
  | bracket part _ ih => exact .bracket part (ih start)
  | product part _ ih => exact .product part (ih start)
  | argument part split mem _ ih => exact .argument part split mem (ih start)

/-! ## Two scopes -/

/-- Two scopes to which the same parameters were added. They differ only in the values of names that
are `moving`, and in how many expressions may be open. -/
structure Near (depths : Int → Int → Prop) (moving : String → Prop) (ground x y : Scope) :
    Prop where
  operators : x.operators = y.operators
  functions : x.functions = y.functions
  vars : ∀ name, ¬ moving name → x.vars name = y.vars name
  context : x.options.context = y.options.context
  bracketMultiply : x.options.bracketMultiply = y.options.bracketMultiply
  variableMultiply : x.options.variableMultiply = y.options.variableMultiply
  depths : depths x.options.maxDepth y.options.maxDepth
  callable : y.functions = ground.functions
  factors : y.options.variableMultiply = ground.options.variableMultiply

section

variable {depths : Int → Int → Prop} {moving : String → Prop} {ground x y : Scope}

theorem Near.refl (near : Near depths moving ground x y) : Near Eq moving ground y y where
  operators := rfl
  functions := rfl
  vars _ _ := rfl
  context := rfl
  bracketMultiply := rfl
  variableMultiply := rfl
  depths := rfl
  callable := near.callable
  factors := near.factors

theorem Near.withVar (near : Near depths moving ground x y) (key : String) (value : Decimal) :
    Near depths moving ground (x.withVar key value) (y.withVar key value) where
  operators := near.operators
  functions := near.functions
  vars name steady := by
    unfold Scope.withVar
    dsimp only
    split
    · rfl
    · exact near.vars name steady
  context := near.context
  bracketMultiply := near.bracketMultiply
  variableMultiply := near.variableMultiply
  depths := near.depths
  callable := near.callable
  factors := near.factors

theorem Near.bindParameters (names : List String) : ∀ (values : List Decimal) {x y : Scope},
    Near depths moving ground x y →
    match x.bindParameters names values with
    | .error refusal => y.bindParameters names values = .error refusal
    | .ok x' => ∃ y', y.bindParameters names values = .ok y' ∧ Near depths moving ground x' y' := by
  induction names with
  | nil =>
    intro values x y near
    exact ⟨y, rfl, near⟩
  | cons name names ih =>
    intro values x y near
    cases values with
    | nil => exact ⟨y, rfl, near⟩
    | cons value values =>
      simp only [Scope.bindParameters]
      cases validateName .variableName (some name) with
      | error refusal => rfl
      | ok key =>
        cases value.isFinite with
        | true => exact ih values (near.withVar key value)
        | false => rfl

end

/-! ## Two counted computations -/

section

variable {α β : Type}

/-- What a computation has ended with, its session apart. -/
def result : EStateM.Result Failure Session α → Except Failure α
  | .ok a _ => .ok a
  | .error failure _ => .error failure

theorem result_eq_ok {x : EStateM.Result Failure Session α} {a : α} (h : result x = .ok a) :
    ∃ s, x = .ok a s := by
  cases x with
  | ok b s => cases h; exact ⟨s, rfl⟩
  | error failure s => cases h

/-- What a computation ends with does not depend on the session. -/
def Steady (x : Evaluation α) : Prop := ∀ s t, result (x s) = result (x t)

/-- Whether a failure says that too many expressions were open. -/
def Failure.isDeep : Failure → Bool
  | .problem ⟨_, .depth _⟩ => true
  | _ => false

/-- How many expressions may be open at once, and what is wrong with one more. -/
structure Allowance where
  count : Nat
  problem : DepthProblem

/-- What a counted computation has ended with. -/
def outcomeOf : EStateM.Result Failure Count α → Except Failure α
  | .ok a _ => .ok a
  | .error failure _ => .error failure

/-- Where it has got then. -/
def countOf : EStateM.Result Failure Count α → Count
  | .ok _ c => c
  | .error _ c => c

/-- Two runs that have opened as many expressions, and the first of them no more than it may. -/
structure Abreast (limit : Option Allowance) (level : Nat) (c c' : Count) : Prop where
  left : c.level = level
  right : c'.level = level
  peak : c.peak = c'.peak
  allowed : ∀ most ∈ limit, c.peak ≤ most.count

/-- A run has opened more expressions than are allowed, or has failed because it may not open that
many either. -/
def Beyond (most : Allowance) : EStateM.Result Failure Count α → Prop
  | .ok _ c => most.count < c.peak
  | .error failure c => most.count < c.peak ∨ failure.isDeep = true

theorem beyond_of_lt {most : Allowance} {end' : EStateM.Result Failure Count α}
    (more : most.count < (countOf end').peak) : Beyond most end' := by
  cases end' with
  | ok a c => exact more
  | error failure c => exact .inl more

/-- How two runs end: alike, or the first because it may open no more, and then the second has gone
beyond what the first may. -/
inductive Ended (limit : Option Allowance) (level : Nat) : EStateM.Result Failure Count α →
    EStateM.Result Failure Count α → Prop
  | ok {a : α} {c c' : Count} : Abreast limit level c c' → Ended limit level (.ok a c) (.ok a c')
  | error {failure : Failure} {c c' : Count} :
      Abreast limit level c c' → Ended limit level (.error failure c) (.error failure c')
  | deep {most : Allowance} {c : Count} {end' : EStateM.Result Failure Count α} :
      most ∈ limit → Beyond most end' → Ended limit level (.error (.tooDeep most.problem) c) end'

/-- The counter has been put back, and its peak has not. -/
structure Restored (c c' : Count) : Prop where
  level : c'.level = c.level
  peak : c.peak ≤ c'.peak

/-- While `level` expressions are open in two runs, a computation of the first follows one of the
second. -/
structure Follows (limit : Option Allowance) (level : Nat) (x y : Counting α) : Prop where
  ended : ∀ {c c' : Count}, Abreast limit level c c' → Ended limit level (x c) (y c')
  restored : ∀ c, c.level = level → Restored c (countOf (y c))

variable {limit : Option Allowance} {level : Nat}

theorem follows_pure (a : α) : Follows limit level (pure a) (pure a) where
  ended abreast := .ok abreast
  restored _ _ := ⟨rfl, Nat.le_refl _⟩

theorem follows_throw (failure : Failure) :
    Follows limit level (throw failure : Counting α) (throw failure) where
  ended abreast := .error abreast
  restored _ _ := ⟨rfl, Nat.le_refl _⟩

theorem follows_lift {x : Evaluation α} (steady : Steady x) :
    Follows limit level (Counting.lift x) (Counting.lift x) where
  ended {c c'} abreast := by
    have same := steady c.session c'.session
    unfold Counting.lift
    generalize x c.session = p at same ⊢
    generalize x c'.session = q at same ⊢
    cases p with
    | ok a s =>
      cases q with
      | ok b t =>
        cases same
        exact .ok ⟨abreast.left, abreast.right, abreast.peak, abreast.allowed⟩
      | error failure t => cases same
    | error failure s =>
      cases q with
      | ok b t => cases same
      | error failure t =>
        cases same
        exact .error ⟨abreast.left, abreast.right, abreast.peak, abreast.allowed⟩
  restored c _ := by
    unfold Counting.lift
    cases x c.session with
    | ok a s => exact ⟨rfl, Nat.le_refl _⟩
    | error failure s => exact ⟨rfl, Nat.le_refl _⟩

theorem follows_bind {x y : Counting α} {f g : α → Counting β} (hx : Follows limit level x y)
    (hf : ∀ a, Follows limit level (f a) (g a)) : Follows limit level (x >>= f) (y >>= g) where
  ended {c c'} abreast := by
    have first := hx.ended abreast
    have between := hx.restored c' abreast.right
    rw [bind_apply, bind_apply]
    generalize x c = p at first ⊢
    generalize y c' = q at first between ⊢
    cases first with
    | ok abreast' => exact (hf _).ended abreast'
    | error abreast' => exact .error abreast'
    | deep mem beyond =>
      refine .deep mem ?_
      cases q with
      | ok a d =>
        have later := (hf a).restored d (between.level.trans abreast.right)
        exact beyond_of_lt (Nat.lt_of_lt_of_le beyond later.peak)
      | error failure d => exact beyond
  restored c at_level := by
    have first := hx.restored c at_level
    rw [bind_apply]
    generalize y c = q at first ⊢
    cases q with
    | ok a d =>
      have second := (hf a).restored d (first.level.trans at_level)
      exact ⟨second.level.trans first.level, Nat.le_trans first.peak second.peak⟩
    | error failure d => exact first

/-- Computations that go by how many expressions are open. -/
theorem follows_get {f g : Count → Counting α}
    (h : ∀ c c' : Count, c.level = level → c'.level = level → Follows limit level (f c) (g c')) :
    Follows limit level (get >>= f) (get >>= g) where
  ended {c c'} abreast := (h c c' abreast.left abreast.right).ended abreast
  restored c at_level := (h c c at_level at_level).restored c at_level

/-- Computations that are the same at a level follow each other there alike. -/
theorem Follows.congr {x x' y y' : Counting α} (h : Follows limit level x y)
    (left : ∀ c : Count, c.level = level → x' c = x c)
    (right : ∀ c : Count, c.level = level → y' c = y c) : Follows limit level x' y' where
  ended abreast := by
    rw [left _ abreast.left, right _ abreast.right]
    exact h.ended abreast
  restored c at_level := by
    rw [right c at_level]
    exact h.restored c at_level

theorem isDeep_within {name : String} {failure : Failure} (h : failure.isDeep = true) :
    failure.within name = failure := by
  cases failure with
  | fault f => cases h
  | problem p =>
    obtain ⟨callers, cause⟩ := p
    cases cause with
    | depth problem => rfl
    | _ => cases h

theorem follows_within (name : String) {x y : Counting α} (h : Follows limit level x y) :
    Follows limit level (Counting.within name x) (Counting.within name y) where
  ended {c c'} abreast := by
    have run := h.ended abreast
    unfold Counting.within
    generalize x c = p at run ⊢
    generalize y c' = q at run ⊢
    cases run with
    | ok ended => exact .ok ended
    | error ended => exact .error ended
    | deep mem beyond =>
      refine .deep mem ?_
      cases q with
      | ok a d => exact beyond
      | error failure d =>
        refine beyond.imp_right fun deep => ?_
        rw [isDeep_within deep]
        exact deep
  restored c at_level := by
    have run := h.restored c at_level
    unfold Counting.within
    generalize y c = q at run ⊢
    cases q with
    | ok a d => exact run
    | error failure d => exact run

/-- Opening an expression raises the peak to the new level, at least. -/
theorem restored_opened {y : Counting α}
    (h : ∀ c, c.level = level + 1 → Restored c (countOf (y c))) {c : Count}
    (at_level : c.level = level) :
    Restored c (countOf (Counting.opened y c)) ∧ level + 1 ≤ (countOf (Counting.opened y c)).peak := by
  subst at_level
  have inside := (h { c with level := c.level + 1, peak := max c.peak (c.level + 1) } rfl).peak
  obtain ⟨peak, raised⟩ := Nat.max_le.mp inside
  unfold Counting.opened
  generalize y { c with level := c.level + 1, peak := max c.peak (c.level + 1) } = q at peak raised ⊢
  cases q with
  | ok a d => exact ⟨⟨rfl, peak⟩, raised⟩
  | error failure d => exact ⟨⟨rfl, peak⟩, raised⟩

/-- Opening an expression that the first run may open. -/
theorem follows_opened {x y : Counting α} (h : Follows limit (level + 1) x y)
    (allowed : ∀ most ∈ limit, level + 1 ≤ most.count) :
    Follows limit level (Counting.opened x) (Counting.opened y) where
  ended {c c'} abreast := by
    obtain ⟨left, right, peak, within⟩ := abreast
    have start : Abreast limit (level + 1)
        { c with level := c.level + 1, peak := max c.peak (c.level + 1) }
        { c' with level := c'.level + 1, peak := max c'.peak (c'.level + 1) } := by
      refine ⟨by rw [left], by rw [right], by rw [left, right, peak], fun most mem => ?_⟩
      rw [left]
      exact Nat.max_le.mpr ⟨within most mem, allowed most mem⟩
    have run := h.ended start
    unfold Counting.opened
    generalize x { c with level := c.level + 1, peak := max c.peak (c.level + 1) } = p at run ⊢
    generalize y { c' with level := c'.level + 1, peak := max c'.peak (c'.level + 1) } = q at run ⊢
    cases run with
    | ok ended => exact .ok ⟨left, right, ended.peak, ended.allowed⟩
    | error ended => exact .error ⟨left, right, ended.peak, ended.allowed⟩
    | deep mem beyond =>
      refine .deep mem ?_
      cases q with
      | ok a d => exact beyond
      | error failure d => exact beyond
  restored c at_level := (restored_opened h.restored at_level).1

theorem steady_pure (a : α) : Steady (pure a) := fun _ _ => rfl

theorem steady_throw (failure : Failure) : Steady (throw failure : Evaluation α) := fun _ _ => rfl

theorem steady_ofExcept (a : Except Failure α) : Steady (Evaluation.ofExcept a) := by
  intro s t
  cases a with
  | ok a => rfl
  | error failure => rfl

theorem steady_bind {x : Evaluation α} {f : α → Evaluation β} (hx : Steady x)
    (hf : ∀ a, Steady (f a)) : Steady (x >>= f) := by
  intro s t
  have first := hx s t
  rw [bind_apply, bind_apply]
  generalize x s = p at first ⊢
  generalize x t = q at first ⊢
  cases p with
  | ok a s =>
    cases q with
    | ok b t =>
      cases first
      exact hf a s t
    | error failure t => cases first
  | error failure s =>
    cases q with
    | ok b t => cases first
    | error failure t =>
      cases first
      rfl

end

/-! ## Two evaluations -/

namespace Counting

/-- Two runs can be compared: the scopes that user functions are bound to are near, those of moving
environments apart, and functions that draw are among what moves. -/
structure Comparable (depths : Int → Int → Prop) (moving : Moving) (setting setting' : Setting)
    (bound bound' : EnvId → Scope) : Prop where
  tracing : setting.tracing = setting'.tracing
  draws : ∀ f : NativeFunction, f.draws = true → moving.natives f
  bounds : ∀ i, ¬ moving.environments i → Near depths (moving.names i) (bound' i) (bound i) (bound' i)

/-- Expressions inside an expression follow those of another run, where they touch nothing that
moves. -/
def InnerFollows (depths : Int → Int → Prop) (moving : Moving) (bound' : EnvId → Scope)
    (limit : Option Allowance) (level : Nat) (inner inner' : Inner) : Prop :=
  ∀ {ground : EnvId} {x y : Scope} {text : List Char},
    Near depths (moving.names ground) (bound' ground) x y → ¬ Touches bound' moving ground text →
      Follows limit level (inner x text) (inner' y text)

section

variable {depths : Int → Int → Prop} {moving : Moving} {setting setting' : Setting}
  {bound bound' : EnvId → Scope} {limit : Option Allowance} {level : Nat} {inner inner' : Inner}
  {ground : EnvId} {x y : Scope} {text : List Char}

theorem follows_report (compared : Comparable depths moving setting setting' bound bound')
    (event : Unit → Event) :
    Follows limit level (lift (Evaluation.reportEvent setting event))
      (lift (Evaluation.reportEvent setting' event)) := by
  have same : Evaluation.reportEvent setting event = Evaluation.reportEvent setting' event := by
    rw [Evaluation.reportEvent, Evaluation.reportEvent, compared.tracing]
  rw [same]
  exact follows_lift fun _ _ => rfl

theorem follows_reduce (compared : Comparable depths moving setting setting' bound bound')
    (ctx : Context) (chain : StepChain) :
    Follows limit level (lift (Evaluation.reduce setting ctx chain))
      (lift (Evaluation.reduce setting' ctx chain)) := by
  have same : Evaluation.reduce setting ctx chain = Evaluation.reduce setting' ctx chain := by
    funext s
    rw [Evaluation.reduce, Evaluation.reduce, compared.tracing]
  rw [same]
  refine follows_lift fun s t => ?_
  rw [Evaluation.reduce, Evaluation.reduce]
  cases (Reduction.complete ctx setting'.tracing) (.start chain) with
  | ok value r => rfl
  | error failure r => rfl

theorem steady_implicitProduct (ctx : Context) (factor value : Decimal) :
    Steady (Evaluation.implicitProduct ctx factor value) := by
  unfold Evaluation.implicitProduct
  split
  · exact steady_throw _
  · exact steady_pure _

theorem follows_operatorOf (near : Near depths (moving.names ground) (bound' ground) x y)
    (symbol : List Char) :
    Follows limit level (lift (x.operatorOf symbol)) (lift (y.operatorOf symbol)) := by
  unfold Scope.operatorOf
  rw [near.operators]
  split
  · exact follows_lift (steady_throw _)
  · exact follows_lift (steady_pure _)

theorem steady_variableValue (y : Scope) (name : String) : Steady (y.variableValue name) := by
  unfold Scope.variableValue
  split
  · exact steady_throw _
  · exact steady_pure _

theorem variableValue_congr {name : String} (same : x.vars name = y.vars name) :
    x.variableValue name = y.variableValue name := by
  rw [Scope.variableValue, Scope.variableValue, same]

theorem follows_wordValue (near : Near depths (moving.names ground) (bound' ground) x y)
    (free : ¬ Touches bound' moving ground text) {token : List Char}
    (part : .word token ∈ operandsOf text) :
    Follows limit level (lift (x.wordValue token)) (lift (y.wordValue token)) := by
  have still : ¬ moving.names ground (wordName y.options token) := by
    intro moves
    rw [wordName, near.factors] at moves
    exact free (.name part moves)
  unfold wordName at still
  unfold Scope.wordValue
  rw [near.variableMultiply, near.context]
  split at still
  · rename_i factored
    simp only [if_pos factored, variableValue_congr (near.vars _ still)]
    refine follows_lift (steady_bind (steady_ofExcept _) fun factor => ?_)
    exact steady_bind (steady_variableValue y _) fun value => steady_implicitProduct _ factor value
  · rename_i plain
    simp only [if_neg plain, variableValue_congr (near.vars _ still)]
    exact follows_lift (steady_variableValue y _)

theorem follows_callNative (compared : Comparable depths moving setting setting' bound bound')
    (ctx : Context) {f : NativeFunction} (still : ¬ moving.natives f) (arguments : List Decimal) :
    Follows limit level (lift (Evaluation.callNative ctx f arguments))
      (lift (Evaluation.callNative ctx f arguments)) := by
  have plain : f.draws = false := Bool.eq_false_iff.mpr fun draws => still (compared.draws f draws)
  refine follows_lift fun s t => ?_
  unfold Evaluation.callNative
  unfold NativeFunction.draws at plain
  cases body : f.body with
  | drawing run => rw [body] at plain; cases plain
  | plain run =>
    by_cases fits : f.accepts arguments.length = true
    · simp only [fits]
      exact steady_ofExcept (run ctx arguments) s t
    · simp only [fits]
      rfl

theorem follows_callUser (compared : Comparable depths moving setting setting' bound bound')
    (inners : InnerFollows depths moving bound' limit level inner inner')
    (near : Near depths (moving.names ground) (bound' ground) x y) {f : UserFunction}
    (free : ∀ source ∈ f.sources, ¬ Touches bound' moving (f.scope.getD ground) source.toList)
    (arguments : List Decimal) :
    Follows limit level (callUser inner bound x f arguments)
      (callUser inner' bound' y f arguments) := by
  have owners : Near depths (moving.names (f.scope.getD ground)) (bound' (f.scope.getD ground))
      (f.scope.elim x bound) (f.scope.elim y bound') := by
    have body := free f.body List.mem_cons_self
    cases owned : f.scope with
    | none => exact near
    | some owner =>
      rw [owned] at body
      exact compared.bounds owner fun moves => body (.environment moves)
  have binding := owners.bindParameters f.parameters arguments
  unfold callUser
  by_cases arity : arguments.length = f.parameters.length
  · simp only [arity, ne_eq, not_true_eq_false, if_false]
    cases bindings : (f.scope.elim x bound).bindParameters f.parameters arguments with
    | error refusal =>
      rw [bindings] at binding
      rw [binding]
      exact follows_throw _
    | ok x' =>
      rw [bindings] at binding
      obtain ⟨y', run, there⟩ := binding
      have source (text : String) (listed : text ∈ f.sources) :
          Follows limit level (inner x' text.toList) (inner' y' text.toList) :=
        inners there (free text listed)
      have body := source f.body List.mem_cons_self
      rw [run]
      cases guarded : f.guard with
      | none => exact body
      | some guard =>
        have listed : f.sources = [f.body, guard.condition, guard.result] := by
          rw [UserFunction.sources, guarded]
        refine follows_bind (source guard.condition (by simp [listed])) fun condition => ?_
        split
        · exact source guard.result (by simp [listed])
        · exact body
  · simp only [arity, ne_eq, not_false_eq_true, if_true]
    exact follows_throw _

theorem follows_evaluateAll (inners : InnerFollows depths moving bound' limit level inner inner')
    (near : Near depths (moving.names ground) (bound' ground) x y) {texts : List (List Char)}
    (free : ∀ text ∈ texts, ¬ Touches bound' moving ground text) :
    Follows limit level (evaluateAll inner x texts) (evaluateAll inner' y texts) := by
  induction texts with
  | nil => exact follows_pure []
  | cons text rest ih =>
    obtain ⟨here, later⟩ := List.forall_mem_cons.mp free
    refine follows_bind (inners near here) fun value => ?_
    exact follows_bind (ih later) fun values => follows_pure (value :: values)

theorem follows_callFunction (compared : Comparable depths moving setting setting' bound bound')
    (inners : InnerFollows depths moving bound' limit level inner inner')
    (near : Near depths (moving.names ground) (bound' ground) x y)
    (free : ¬ Touches bound' moving ground text) {name arguments : List Char}
    (part : .call name arguments ∈ operandsOf text) {f : Function}
    (found : y.functions (String.ofList name) = some f) (values : List Decimal) :
    Follows limit level (callFunction inner bound x values f)
      (callFunction inner' bound' y values f) := by
  rw [near.callable] at found
  cases f with
  | native f =>
    unfold callFunction
    rw [near.context]
    exact follows_callNative compared _ (fun moves => free (.native part found moves)) values
  | user f =>
    refine follows_callUser compared inners near (fun source listed touches => ?_) values
    exact free (.callee part found listed touches)

theorem follows_callValue (compared : Comparable depths moving setting setting' bound bound')
    (inners : InnerFollows depths moving bound' limit level inner inner')
    (near : Near depths (moving.names ground) (bound' ground) x y)
    (free : ¬ Touches bound' moving ground text) {name arguments : List Char}
    (part : .call name arguments ∈ operandsOf text) :
    Follows limit level (callValue setting inner bound x name arguments)
      (callValue setting' inner' bound' y name arguments) := by
  unfold callValue
  rw [near.bracketMultiply, near.context, near.functions]
  split
  · refine follows_bind (follows_lift (steady_ofExcept _)) fun factor => ?_
    refine follows_bind (inners near fun touches => free (.product part touches)) fun value => ?_
    exact follows_lift (steady_implicitProduct _ factor value)
  · cases found : y.functions (String.ofList name) with
    | none => exact follows_throw _
    | some f =>
      cases split : splitArguments arguments with
      | error form => exact follows_throw _
      | ok texts =>
        have parts : ∀ text ∈ texts, ¬ Touches bound' moving ground text :=
          fun _ mem touches => free (.argument part split mem touches)
        refine follows_bind (follows_evaluateAll inners near parts) fun values => ?_
        refine follows_bind (follows_report compared _) fun _ => follows_within _ ?_
        exact follows_callFunction compared inners near free part found values

theorem follows_operandValue (compared : Comparable depths moving setting setting' bound bound')
    (inners : InnerFollows depths moving bound' limit level inner inner')
    (near : Near depths (moving.names ground) (bound' ground) x y)
    (free : ¬ Touches bound' moving ground text) {operand : Operand}
    (part : operand.core ∈ operandsOf text) :
    Follows limit level (operandValue setting inner bound x operand)
      (operandValue setting' inner' bound' y operand) := by
  induction operand with
  | missing => exact follows_throw _
  | negative operand ih => exact follows_bind (ih part) fun value => follows_pure value.negate
  | bracket inner => exact inners near fun touches => free (.bracket part touches)
  | call name arguments => exact follows_callValue compared inners near free part
  | numeral token => exact follows_lift (steady_ofExcept _)
  | word token => exact follows_wordValue near free part

theorem follows_parseRest (compared : Comparable depths moving setting setting' bound bound')
    (inners : InnerFollows depths moving bound' limit level inner inner')
    (near : Near depths (moving.names ground) (bound' ground) x y)
    (free : ¬ Touches bound' moving ground text) {rest : Continuation}
    (parts : ∀ token ∈ rest.tokens, (Operand.ofToken token).core ∈ operandsOf text) :
    ∀ (chain : StepChain) (left : Decimal),
      Follows limit level (parseRest setting inner bound x chain left rest)
        (parseRest setting' inner' bound' y chain left rest) := by
  induction rest with
  | done => exact fun _ _ => follows_pure _
  | broken form => exact fun _ _ => follows_throw _
  | brokenValue symbol form =>
    exact fun _ _ => follows_bind (follows_operatorOf near symbol) fun _ => follows_throw _
  | clause symbol token next ih =>
    intro chain left
    obtain ⟨here, later⟩ := List.forall_mem_cons.mp parts
    refine follows_bind (follows_operatorOf near symbol) fun binding => ?_
    refine follows_bind (follows_operandValue compared inners near free here) fun right => ?_
    exact ih later _ right

theorem follows_evaluateOpen (compared : Comparable depths moving setting setting' bound bound')
    (inners : InnerFollows depths moving bound' limit level inner inner')
    (near : Near depths (moving.names ground) (bound' ground) x y)
    (free : ¬ Touches bound' moving ground text) :
    Follows limit level (evaluateOpen setting inner bound x text)
      (evaluateOpen setting' inner' bound' y text) := by
  have parsed : Follows limit level (parse setting inner bound x text)
      (parse setting' inner' bound' y text) := by
    unfold parse
    cases read : Phrase.read text with
    | error form => exact follows_throw _
    | ok phrase =>
      have parts : ∀ token ∈ phrase.first :: phrase.rest.tokens,
          (Operand.ofToken token).core ∈ operandsOf text := by
        intro token mem
        rw [operandsOf, read]
        exact List.mem_map_of_mem mem
      obtain ⟨here, later⟩ := List.forall_mem_cons.mp parts
      refine follows_bind (follows_operandValue compared inners near free here) fun first => ?_
      exact follows_parseRest compared inners near free later .empty first
  unfold evaluateOpen
  rw [near.context]
  refine follows_bind (follows_report compared _) fun _ => follows_bind parsed fun chain => ?_
  exact follows_bind (follows_report compared _) fun _ => follows_reduce compared _ chain

/-- Evaluations under the same limits end alike, with as many expressions open at once, if there is
the same room for both or else room enough. The induction is on the room that is left; all
expressions inside of the text have less. -/
theorem evaluateAt_follows (compared : Comparable depths moving setting setting' bound bound')
    (equal : ∀ most most', depths most most' → most = most') (room : Nat) :
    ∀ room' level, (room = room' ∨ ∀ most most', depths most most' →
        most ≤ (level + room : Nat) ∧ most ≤ (level + room' : Nat)) →
      InnerFollows depths moving bound' none level (evaluateAt setting bound room)
        (evaluateAt setting' bound' room') := by
  induction room with
  | zero =>
    intro room' level rooms ground x y text near free
    rw [evaluateAt, evaluateAt.eq_def setting' bound' room', equal _ _ near.depths]
    refine follows_get fun c c' at_level at_level' => ?_
    rw [at_level, at_level']
    by_cases full : y.options.maxDepth < (level : Int) + 1
    · rw [if_pos full, if_pos full]
      exact follows_throw _
    · rw [if_neg full, if_neg full]
      rcases rooms with rfl | enough
      · exact follows_throw _
      · have most := (enough _ _ near.depths).1
        rw [equal _ _ near.depths] at most
        omega
  | succ room ih =>
    intro room' level rooms ground x y text near free
    rw [evaluateAt, evaluateAt.eq_def setting' bound' room', equal _ _ near.depths]
    refine follows_get fun c c' at_level at_level' => ?_
    rw [at_level, at_level']
    by_cases full : y.options.maxDepth < (level : Int) + 1
    · rw [if_pos full, if_pos full]
      exact follows_throw _
    · rw [if_neg full, if_neg full]
      cases room' with
      | zero =>
        have most := ((rooms.resolve_left (Nat.succ_ne_zero room)) _ _ near.depths).2
        rw [equal _ _ near.depths] at most
        omega
      | succ room' =>
        have rooms' : room = room' ∨ ∀ most most', depths most most' →
            most ≤ (level + 1 + room : Nat) ∧ most ≤ (level + 1 + room' : Nat) := by
          refine rooms.imp Nat.succ.inj fun enough most most' allowed => ?_
          have fits := enough most most' allowed
          omega
        exact follows_opened
          (follows_evaluateOpen compared (ih room' (level + 1) rooms') near free)
          fun _ never => absurd never (Option.not_mem_none _)

end

end Counting

/-! ## Evaluation in environments -/

section

variable {α : Type} {c : Count} {level : Nat} {p p' : EStateM.Result Failure Session α}
  {q q' : EStateM.Result Failure Count α}

theorem Kept.unique (h : Kept c p q) (h' : Kept c p' q) : p = p' := by
  cases h with
  | ok _ => cases h'; rfl
  | error _ => cases h'; rfl

theorem Kept.outcome (h : Kept c p q) : outcomeOf q = result p := by
  cases h with
  | ok _ => rfl
  | error _ => rfl

theorem Ended.outcome (ended : Ended none level q q') : outcomeOf q = outcomeOf q' := by
  cases ended with
  | ok _ => rfl
  | error _ => rfl
  | deep never => cases never

end

namespace Family

variable {family other : Family} {id : EnvId}

/-- Scopes of one environment in two families are near if it shows the same in both. -/
theorem scopes_near {depths : Int → Int → Prop} {moving : String → Prop} {now now' : Int}
    (lookups : ∀ kind, family.lookup id kind = other.lookup id kind)
    (values : ∀ name v, ¬ moving name → other.lookup id .vars name = some v →
      family.valueOf now v = other.valueOf now' v)
    (options : family.options id =
      { other.options id with maxDepth := (family.options id).maxDepth })
    (allowed : depths (family.options id).maxDepth (other.options id).maxDepth) :
    Near depths moving (other.scope now' id) (family.scope now id) (other.scope now' id) where
  operators := lookups .operators
  functions := lookups .functions
  vars name still := by
    simp only [scope, lookups]
    exact Option.map_congr fun v found => values name v still (Option.mem_def.mp found)
  context := by rw [scope, options]; rfl
  bracketMultiply := by rw [scope, options]; rfl
  variableMultiply := by rw [scope, options]; rfl
  depths := allowed
  callable := rfl
  factors := rfl

/-- Only the value of a clock depends on the time. -/
theorem valueOf_still {v : Variable} (still : v ≠ .clock) (answers : family.answers = other.answers)
    (now now' : Int) : family.valueOf now v = other.valueOf now' v := by
  cases v with
  | clock => exact absurd rfl still
  | fixed value => rfl
  | constant value => rfl
  | answer register => rw [valueOf, valueOf, answers]

/-- At another time only clocks show something else. -/
theorem times_near (family : Family) (now now' : Int) (id : EnvId) :
    Near Eq ((family.otherTimes fun _ => False).names id) (family.scope now' id) (family.scope now id)
      (family.scope now' id) := by
  refine scopes_near (fun _ => rfl) (fun name v still found => ?_) rfl rfl
  refine valueOf_still ?_ rfl now now'
  rintro rfl
  exact still found

end Family

namespace Evaluation

section

variable {family : Family} {id twin : EnvId}

/-- Environments that show the same evaluate every text alike, at the same time and with the same
state of the random number generator: to the same value or failure, with the same report. -/
theorem evaluate_view (built : family.Built) (lt : id < family.members.size)
    (lt' : twin < family.members.size) (view : family.SameView id family twin) (setting : Setting)
    (text : String) (s : Session) :
    evaluate setting family id text s = evaluate setting family twin text s := by
  have counts {i : EnvId} (lt : i < family.members.size) :=
    evaluateAt_counts setting built stackRoom 0 text.toList
      (Family.Shows.start built lt setting.now) (.start s) rfl
  have left := counts lt
  have right := counts lt'
  rw [Family.view_scope setting.now view rfl] at left
  exact left.unique right

/-- They do so at different times and with different states of the generator too, where the text
uses neither. -/
theorem evaluate_unused (built : family.Built) (lt : id < family.members.size)
    (lt' : twin < family.members.size) (view : family.SameView id family twin) {text : String}
    (free : ¬ family.Uses id text.toList) (tracing : Bool) (now now' : Int) (s t : Session) :
    result (evaluate ⟨now, tracing⟩ family id text s) =
      result (evaluate ⟨now', tracing⟩ family twin text t) := by
  have compared : Counting.Comparable Eq (family.otherTimes fun _ => False) ⟨now, tracing⟩ ⟨now', tracing⟩
      (family.scope now) (family.scope now') :=
    ⟨rfl, fun _ draws => draws, fun i _ => family.times_near now now' i⟩
  have still : ¬ Touches (family.scope now') (family.otherTimes fun _ => False) id text.toList :=
    fun touches => free (Family.uses_of_touches (fun _ _ _ _ _ => not_false) (fun _ _ => rfl)
      (fun _ _ => rfl) touches not_false)
  have follows := Counting.evaluateAt_follows compared (fun _ _ same => same) stackRoom stackRoom 0
    (.inl rfl) (family.times_near now now' id) still
  have start : Abreast none 0 (.start s) (.start t) := ⟨rfl, rfl, rfl, nofun⟩
  have left := evaluateAt_counts ⟨now, tracing⟩ built stackRoom 0 text.toList
    (Family.Shows.start built lt now) (.start s) rfl
  have right := evaluateAt_counts ⟨now', tracing⟩ built stackRoom 0 text.toList
    (Family.Shows.start built lt' now') (.start t) rfl
  rw [← Family.view_scope now' view rfl] at right
  exact left.outcome.symm.trans ((follows.ended start).outcome.trans right.outcome)

end

end Evaluation
end Calculator
