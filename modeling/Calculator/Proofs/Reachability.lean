import Calculator.Proofs.Depths
import Calculator.Proofs.Extensions
import Calculator.Proofs.Interpreter

/-!
# Calculator.Proofs.Reachability

Every name that is registered can be reached. Names are accepted by one test and read by several
others, for a minus, a bracket, a call, a numeral and a factor; an accepted name passes all of them,
whatever implicit products are turned on.

* `evaluate_token`: an expression of one value ends as that value does.
* `tokenValue_word`, `tokenValue_call`: what the name of a variable and a call of a function by its
  name come to.
* `names_reachable`: so the text of a variable has its value, and a call runs its function on the
  values of its arguments, if there is room for one expression inside of which any others stand.
-/

namespace Calculator

/-- Every comma of a text stands inside of brackets. -/
def CommasInside (text : List Char) : Prop :=
  ∀ before after, text = before ++ ',' :: after → depthAfter 0 before ≠ some 0

/-- Texts whose commas all stand inside of brackets that match are the texts of arguments. -/
theorem isArgument_iff {text : List Char} :
    isArgument 0 text = true ↔ depthAfter 0 text = some 0 ∧ CommasInside text := by
  constructor
  · intro argument
    refine ⟨spanned_depthAfter argument, ?_⟩
    rintro before after rfl outside
    have allowed := spanned_outside argument outside (by decide) (by decide)
    cases allowed
  · rintro ⟨balanced, inside⟩
    refine spanned_of_outside balanced fun before c after same outside => .inl ?_
    rw [bne_iff_ne]
    rintro rfl
    exact inside before after same outside

namespace Evaluation

section

variable {setting : Setting} {inner : Inner} {family : Family} {id : EnvId} {s s' : Session}

/-! ## Expressions of one value -/

theorem parse_token {lead token trail : List Char} (before : Blank lead)
    (valid : isToken token = true) (after : Blank trail) :
    parse setting inner family id (lead ++ (token ++ trail)) = (do
      let v ← tokenValue setting inner family id token
      return .ofSequence v []) := by
  have lexical : Decomposition.Lexical ⟨lead, token, [], trail⟩ := ⟨before, valid, nofun, after⟩
  exact parse_of_tokens (read_lexical lexical)

theorem reportEvent_run (event : Unit → Event) (s : Session) :
    ∃ t : Session, t.seed = s.seed ∧ reportEvent setting event s = .ok () t := by
  refine ⟨_, ?_, rfl⟩
  cases setting.tracing <;> rfl

/-- The only value of an expression is what it comes to. -/
theorem evaluateOpen_token {lead token trail : List Char} (before : Blank lead)
    (valid : isToken token = true) (after : Blank trail) (s : Session) :
    ∃ s₁ : Session, s₁.seed = s.seed ∧
      ending (evaluateOpen setting inner family id (lead ++ (token ++ trail)) s) =
        ending (tokenValue setting inner family id token s₁) := by
  obtain ⟨s₁, seed, reported⟩ := @reportEvent_run setting
    (fun _ => .parsing (String.ofList (lead ++ (token ++ trail)))) s
  refine ⟨s₁, seed, ?_⟩
  rw [evaluateOpen, parse_token before valid after]
  simp only [bind_assoc, pure_bind, bind_apply, reported]
  cases tokenValue setting inner family id token s₁ with
  | error failure t => rfl
  | ok v t =>
    obtain ⟨t₁, seed, reported⟩ := @reportEvent_run setting (fun _ => .evaluating) t
    have reduced := reduce_agrees setting (family.options id).context v [] t₁
    rw [chainValue_nil] at reduced
    obtain ⟨events, run⟩ := reduced
    simp only [reported, run, ending, seed]

/-- An expression of one value, between white space, ends as that value does. -/
theorem evaluate_token (setting : Setting) (room : Nat)
    (limit : 1 ≤ (family.options id).maxDepth) {lead token trail : List Char} (before : Blank lead)
    (valid : isToken token = true) (after : Blank trail) (s : Session) :
    ending (evaluateAt setting (room + 1) 0 family id (lead ++ (token ++ trail)) s) =
      ending (tokenValue setting (evaluateAt setting room 1) family id token s) := by
  have fits : ¬ (family.options id).maxDepth < ((0 : Nat) : Int) + 1 := by omega
  obtain ⟨s₁, seed, same⟩ := @evaluateOpen_token setting (evaluateAt setting room 1)
    family id lead token trail before valid after s
  rw [evaluateAt, if_neg fits]
  exact same.trans (tokenValue_ending token seed.symm)

/-! ## Names as values -/

/-- The name of a variable comes to its value, and the name after a minus to the value with the
other sign. -/
theorem tokenValue_word (name : Name .variableName) {v : Variable}
    (found : family.lookup id .vars (String.ofList name.text) = some v) (minus : Bool) :
    tokenValue setting inner family id (signed minus name.text) s =
      .ok (if minus then (family.valueOf setting.now v).negate else family.valueOf setting.now v)
        s := by
  have word : wordValue setting family id name.text s =
      .ok (family.valueOf setting.now v) s := by
    rw [wordValue_name, variableValue, found]
    rfl
  rw [tokenValue, ofToken_run minus (names_run name.symbols) name.text_ne, ofPositive_word]
  cases minus with
  | true => simp only [if_true, operandValue, bind_apply, word, pure_apply]
  | false => exact word

/-- A call of a function by its name runs that function on the values of the arguments. -/
theorem tokenValue_call (setting : Setting) {name : Name .functionName} (plain : ∀ c ∈ name.text, c ≠ '(' ∧ c ≠ ')')
    {f : Function} (found : family.lookup id .functions (String.ofList name.text) = some f)
    {texts : List (List Char)} (split : splitArguments (commaSeparated texts) = .ok texts)
    (balanced : depthAfter 0 (commaSeparated texts) = some 0) {values : List Decimal}
    (run : evaluateAll inner family id texts s = .ok values s') :
    ∃ t : Session, t.seed = s'.seed ∧
      tokenValue setting inner family id (name.text ++ '(' :: (commaSeparated texts ++ [')'])) s =
        within (String.ofList name.text) (callFunction inner family id values f) t := by
  obtain ⟨t, seed, reported⟩ := @reportEvent_run setting
    (fun _ => .call (String.ofList name.text) values) s'
  refine ⟨t, seed, ?_⟩
  have operand := ofToken_run false (call_run plain balanced) (by simp)
  simp only [signed, Bool.false_eq_true, if_false, ofPositive_call plain] at operand
  rw [tokenValue, operand, operandValue, callValue_name, found]
  simp only [split, bind_apply, run, reported]

/-! ## Arguments that have values -/

theorem evaluateAll_ok_mem {texts : List (List Char)} {values : List Decimal}
    (run : evaluateAll inner family id texts s = .ok values s') :
    ∀ text ∈ texts, ∃ t v t', inner family id text t = .ok v t' := by
  induction texts generalizing values s s' with
  | nil => nofun
  | cons text rest ih =>
    obtain ⟨v, s₁, first, more⟩ := bind_eq_ok.mp run
    obtain ⟨_, s₂, later, -⟩ := bind_eq_ok.mp more
    exact List.forall_mem_cons.mpr ⟨⟨s, v, s₁, first⟩, ih later⟩

/-- White space has no value. -/
theorem evaluateAt_filled {room depth : Nat} {text : List Char} {v : Decimal}
    (run : evaluateAt setting room depth family id text s = .ok v s') : ¬ Blank text := by
  intro blank
  have read : Lexer.readValue text = .ok ⟨[], []⟩ := by
    have skipped := Lexer.scanValue_blank [] [] blank
    rw [List.append_nil] at skipped
    exact skipped
  obtain ⟨less, -, opened⟩ := evaluateAt_ok run
  obtain ⟨_, s₁, -, rest⟩ := bind_eq_ok.mp opened
  obtain ⟨_, s₂, parsed, -⟩ := bind_eq_ok.mp rest
  simp only [parse, Phrase.read, read] at parsed
  obtain ⟨_, s₃, missing, -⟩ := bind_eq_ok.mp parsed
  cases missing

/-- Texts that have values, and no comma outside of brackets, are what their list is split into. -/
theorem splitArguments_of_values {room depth : Nat} {texts : List (List Char)}
    {values : List Decimal} (some_text : texts ≠ [])
    (inside : ∀ text ∈ texts, CommasInside text)
    (run : evaluateAll (evaluateAt setting room depth) family id texts s = .ok values s') :
    splitArguments (commaSeparated texts) = .ok texts ∧
      depthAfter 0 (commaSeparated texts) = some 0 := by
  have ran := evaluateAll_ok_mem run
  have arguments : ∀ text ∈ texts, isArgument 0 text = true := by
    intro text mem
    obtain ⟨_, _, _, value⟩ := ran text mem
    exact isArgument_iff.mpr ⟨evaluateAt_depthAfter value, inside text mem⟩
  obtain ⟨_, _, _, value⟩ := ran _ (List.getLast_mem some_text)
  exact ⟨splitArguments_commaSeparated arguments (List.getLast?_eq_some_getLast some_text)
    (evaluateAt_filled value), commaSeparated_depthAfter arguments⟩

/-! ## Names as expressions -/

/-- A variable's name is a token of letters, digits, dots and underscores, however it is signed. -/
theorem evaluate_word (room : Nat) (limit : 1 ≤ (family.options id).maxDepth)
    (name : Name .variableName)
    {v : Variable} (found : family.lookup id .vars (String.ofList name.text) = some v)
    {lead trail : List Char} (before : Blank lead) (after : Blank trail) (minus : Bool)
    (s : Session) :
    ending (evaluateAt setting (room + 1) 0 family id
        (lead ++ (signed minus name.text ++ trail)) s) =
      (.ok (if minus then (family.valueOf setting.now v).negate else family.valueOf setting.now v),
        s.seed) := by
  have valid := run_token minus (names_run name.symbols) name.text_ne
  rw [evaluate_token setting room limit before valid after, tokenValue_word name found]
  rfl

theorem evaluate_call (room : Nat) (limit : 1 ≤ (family.options id).maxDepth)
    {name : Name .functionName}
    (plain : ∀ c ∈ name.text, c ≠ '(' ∧ c ≠ ')') {f : Function}
    (found : family.lookup id .functions (String.ofList name.text) = some f)
    {texts : List (List Char)} (some_text : texts ≠ [])
    (inside : ∀ text ∈ texts, CommasInside text) {values : List Decimal}
    (run : evaluateAll (evaluateAt setting (room + 1) 0) family id texts s = .ok values s')
    (fine : ¬ Deep (result (evaluateAll (evaluateAt setting room 1) family id texts s))) :
    ending (evaluateAt setting (room + 1) 0 family id
        (name.text ++ '(' :: (commaSeparated texts ++ [')'])) s) =
      ending (within (String.ofList name.text)
        (callFunction (evaluateAt setting room 1) family id values f) s') := by
  obtain ⟨split, balanced⟩ := splitArguments_of_values some_text inside run
  -- What is reported before the call changes no ending, so that only the depth could.
  obtain ⟨s₁, within_call, seed⟩ := evaluateAll_inside room 0 rfl fine run
  obtain ⟨t, seed', resolved⟩ := tokenValue_call setting plain found split balanced within_call
  have valid := run_token false (call_run plain balanced) (by simp)
  have written := evaluate_token setting room limit blank_nil valid blank_nil s
  simp only [signed, Bool.false_eq_true, if_false, List.nil_append, List.append_nil] at written
  rw [written, resolved]
  exact callFunction_ending _ values f (seed.symm.trans seed'.symm)

end

/-! ## Every name -/

/-- Where an expression may be opened at all, whatever implicit products are turned on, a name under
which a variable is found has the value of that variable, between any white space, and after a minus
its value with the other sign. A call of a function by a name without brackets runs that function on
the values of the arguments, in their order. The arguments are texts with values, without commas
outside of brackets, for which not too many expressions are open in the call either. This holds for
any room but none, and so of `evaluate`. -/
theorem names_reachable (setting : Setting) (room : Nat) {family : Family} {id : EnvId}
    (limit : 1 ≤ (family.options id).maxDepth) (s : Session) :
    (∀ (given : Option String) (key : String) (v : Variable) (lead trail : List Char),
      validateName .variableName given = .ok key → family.lookup id .vars key = some v →
      Blank lead → Blank trail →
      ending (evaluateAt setting (room + 1) 0 family id (lead ++ key.toList ++ trail) s) =
        (.ok (family.valueOf setting.now v), s.seed) ∧
      ending (evaluateAt setting (room + 1) 0 family id (lead ++ '-' :: key.toList ++ trail) s) =
        (.ok (family.valueOf setting.now v).negate, s.seed)) ∧
    (∀ (given : Option String) (key : String) (f : Function) (texts : List (List Char))
      (values : List Decimal) (s' : Session),
      validateName .functionName given = .ok key → (∀ c ∈ key.toList, c ≠ '(' ∧ c ≠ ')') →
      family.lookup id .functions key = some f →
      texts ≠ [] → (∀ text ∈ texts, CommasInside text) →
      texts.mapM (evaluateAt setting (room + 1) 0 family id) s = .ok values s' →
      ¬ Deep (result (evaluateAll (evaluateAt setting room 1) family id texts s)) →
      ending (evaluateAt setting (room + 1) 0 family id
          (key.toList ++ '(' :: ([','].intercalate texts ++ [')'])) s) =
        ending (within key (callFunction (evaluateAt setting room 1) family id values f) s')) := by
  constructor
  · intro given key v lead trail accepted found before after
    have reached := @evaluate_word setting family id room limit
      ⟨key.toList, Family.validateName_problem accepted⟩ v (by rwa [String.ofList_toList]) lead trail
      before after
    constructor
    · have plain := reached false s
      simpa [signed] using plain
    · have negative := reached true s
      simpa [signed] using negative
  · intro given key f texts values s' accepted plain found some_text inside run fine
    have alone : evaluateAll (evaluateAt setting (room + 1) 0) family id texts s =
        .ok values s' := by
      rw [evaluateAll_eq_mapM]
      exact run
    have reached := @evaluate_call setting family id s s' room limit
      ⟨key.toList, Family.validateName_problem accepted⟩ plain f (by rwa [String.ofList_toList])
      texts some_text inside values alone fine
    rw [intercalate_comma, reached, String.ofList_toList]

/-- A variable between white space and after a minus, and a call with two arguments, in the standard
environment with both kinds of implicit products. -/
theorem names_reachable_multiplying :
    ending (evaluate ⟨0, false⟩ Family.multiplying 0 "\t k" (.start 0)) = (.ok (.ofInt 3), 0) ∧
    ending (evaluate ⟨0, false⟩ Family.multiplying 0 "\t -k" (.start 0)) = (.ok (.ofInt (-3)), 0) ∧
    ∃ f s', Family.multiplying.lookup 0 .functions "min" = some f ∧
      ending (evaluate ⟨0, false⟩ Family.multiplying 0 "min(k,max(1,4))" (.start 0)) =
        ending (within "min" (callFunction (evaluateAt ⟨0, false⟩ (stackRoom - 1) 1)
          Family.multiplying 0 [.ofInt 3, .ofInt 4] f) s') := by
  have limit : 1 ≤ (Family.multiplying.options 0).maxDepth := by decide +kernel
  obtain ⟨words, calls⟩ := names_reachable ⟨0, false⟩ (stackRoom - 1) limit (.start 0)
  have accepted : validateName .variableName (some " k ") = .ok "k" := by decide +kernel
  have found : Family.multiplying.lookup 0 .vars "k" = some (.fixed (.ofInt 3)) := by
    decide +kernel
  obtain ⟨plain, negative⟩ := words _ _ _ ['\t', ' '] [] accepted found (by decide +kernel) blank_nil
  have named : validateName .functionName (some "min") = .ok "min" := by decide +kernel
  have brackets : ∀ c ∈ "min".toList, c ≠ '(' ∧ c ≠ ')' := by simp
  obtain ⟨f, there⟩ := Option.isSome_iff_exists.mp
    (by decide +kernel : (Family.multiplying.lookup 0 .functions "min").isSome = true)
  have alone : result (["k".toList, "max(1,4)".toList].mapM
      (evaluateAt ⟨0, false⟩ stackRoom 0 Family.multiplying 0) (.start 0)) =
        .ok [.ofInt 3, .ofInt 4] := by decide +kernel
  have nested : result (evaluateAll (evaluateAt ⟨0, false⟩ (stackRoom - 1) 1) Family.multiplying 0
      ["k".toList, "max(1,4)".toList] (.start 0)) = .ok [.ofInt 3, .ofInt 4] := by
    decide +kernel
  have arguments : ∀ text ∈ ["k".toList, "max(1,4)".toList], isArgument 0 text = true := by
    decide +kernel
  obtain ⟨s', values⟩ := result_eq_ok alone
  have called := calls _ _ f ["k".toList, "max(1,4)".toList] _ s' named brackets there (by decide)
    (fun text mem => (isArgument_iff.mp (arguments text mem)).2) values
    (by rw [nested]; rintro ⟨_, ⟨⟩, _⟩)
  exact ⟨plain, negative, f, s', there, called⟩

end Evaluation
end Calculator
