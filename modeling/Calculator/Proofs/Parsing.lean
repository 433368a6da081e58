import Calculator.Evaluation
import Calculator.Proofs.Families
import Calculator.Proofs.Grammar
import Calculator.Proofs.Links
import Calculator.Proofs.Steps

/-!
# Calculator.Proofs.Parsing

Which texts are parsed, and into which chains.

* `parse_of_tokens`: when the tokens of a text can be read, parsing it resolves them from left to
  right.
* `tokenValue_sound`: a token into which more than one run was read has no value.
* `parse_iff_grammatical`: a text is parsed exactly if the grammar writes it with registered
  operators and values that can be resolved; it does so in one way, and the chain has the steps
  that the text shows.
-/

namespace Calculator

/-! ## Chains of expressions -/

/-- The chain of an expression with a first value and the clauses after it. -/
def StepChain.ofSequence (first : Decimal) : List Clause → StepChain
  | [] => .ofValue first
  | c :: rest => .ofClauses first (c :: rest)

/-- The steps that an expression shows: one for each operator, or one that hands its only value
back. -/
def shownSteps (first : Decimal) : List Clause → List (Decimal × Binding × Decimal)
  | [] => [(first, ⟨Operation.handBack.symbol, .handBack, 0⟩, first)]
  | c :: rest => alternating first (c :: rest)

theorem ofSequence_view (first : Decimal) (cs : List Clause) :
    (StepChain.ofSequence first cs).view = shownSteps first cs := by
  cases cs with
  | nil => rfl
  | cons c rest => exact ofClauses_view first (c :: rest)

theorem alternating_length (first : Decimal) (cs : List Clause) :
    (alternating first cs).length = cs.length := by
  induction cs generalizing first with
  | nil => rfl
  | cons c rest ih => simp [alternating, ih]

theorem ofSequence_size (first : Decimal) (cs : List Clause) :
    (StepChain.ofSequence first cs).steps.size = (shownSteps first cs).length := by
  cases cs with
  | nil => rfl
  | cons c rest =>
    rw [StepChain.ofSequence, shownSteps, ofClauses_size, alternating_length]

namespace Evaluation

/-! ## Resolving tokens -/

def tokenValue (setting : Setting) (inner : Inner) (family : Family) (id : EnvId)
    (token : List Char) : Evaluation Decimal :=
  operandValue setting inner family id (.ofToken token)

/-- Resolves symbols and tokens into clauses. -/
def readClauses (setting : Setting) (inner : Inner) (family : Family) (id : EnvId) :
    List (List Char × List Char) → Evaluation (List Clause)
  | [] => return []
  | (symbol, token) :: rest => do
    let operator ← operatorOf family id symbol
    let value ← tokenValue setting inner family id token
    return ⟨operator, value⟩ :: (← readClauses setting inner family id rest)

section

variable {setting : Setting} {inner : Inner} {family : Family} {id : EnvId}

/-- Tokens that are resolved extend a chain that has been begun. -/
theorem parseRest_extend {chain : StepChain} {left : Decimal}
    {tokens : List (List Char × List Char)} (h : chain.steps.isEmpty = false) :
    parseRest setting inner family id chain left (.ofTokens tokens) = (do
      let cs ← readClauses setting inner family id tokens
      return chain.extend left cs) := by
  induction tokens generalizing chain left with
  | nil => simp [Continuation.ofTokens, parseRest, readClauses, StepChain.extend, h]
  | cons p tokens ih =>
    obtain ⟨symbol, token⟩ := p
    have more (step : Step) : (chain.append step).steps.isEmpty = false := by
      simp [Array.isEmpty_eq_false_iff, ne_eq, ← Array.size_eq_zero_iff]
    simp only [Continuation.ofTokens, parseRest, readClauses, ih (more _), bind_assoc, pure_bind]
    rfl

theorem parseRest_empty {left : Decimal} {tokens : List (List Char × List Char)} :
    parseRest setting inner family id .empty left (.ofTokens tokens) = (do
      let cs ← readClauses setting inner family id tokens
      return StepChain.ofSequence left cs) := by
  cases tokens with
  | nil => rfl
  | cons p tokens =>
    obtain ⟨symbol, token⟩ := p
    have begun (step : Step) : (StepChain.empty.append step).steps.isEmpty = false := rfl
    simp only [Continuation.ofTokens, parseRest, readClauses, parseRest_extend (begun _),
      bind_assoc, pure_bind]
    rfl

/-- A text whose tokens can be read is parsed by resolving them. -/
theorem parse_of_tokens {text first : List Char} {tokens : List (List Char × List Char)}
    (h : Phrase.read text = .ok ⟨first, .ofTokens tokens⟩) :
    parse setting inner family id text = (do
      let left ← tokenValue setting inner family id first
      let cs ← readClauses setting inner family id tokens
      return StepChain.ofSequence left cs) := by
  simp only [parse, h, parseRest_empty]
  rfl

theorem parseRest_ok {next : Continuation} {chain chain' : StepChain} {left : Decimal}
    {s s' : Session} (h : parseRest setting inner family id chain left next s = .ok chain' s') :
    ∃ tokens, next = .ofTokens tokens := by
  induction next generalizing chain left s with
  | done => exact ⟨[], rfl⟩
  | broken form => cases h
  | brokenValue symbol form =>
    rw [parseRest] at h
    obtain ⟨_, _, -, h⟩ := bind_eq_ok.mp h
    cases h
  | clause symbol token next ih =>
    rw [parseRest] at h
    obtain ⟨_, _, -, h⟩ := bind_eq_ok.mp h
    obtain ⟨_, _, -, h⟩ := bind_eq_ok.mp h
    obtain ⟨tokens, rfl⟩ := ih h
    exact ⟨(symbol, token) :: tokens, rfl⟩

theorem parse_ok_tokens {text : List Char} {chain : StepChain} {s s' : Session}
    (h : parse setting inner family id text s = .ok chain s') :
    ∃ first tokens, Phrase.read text = .ok ⟨first, .ofTokens tokens⟩ := by
  cases read : Phrase.read text with
  | error form => simp only [parse, read] at h; cases h
  | ok phrase =>
    simp only [parse, read] at h
    obtain ⟨left, s₁, -, h⟩ := bind_eq_ok.mp h
    obtain ⟨tokens, rest⟩ := parseRest_ok h
    exact ⟨phrase.first, tokens, by rw [← rest]⟩

theorem operatorOf_eq_ok {symbol : List Char} {operator : Binding} {s s' : Session} :
    operatorOf family id symbol s = .ok operator s' ↔
      family.lookup id .operators (String.ofList symbol) = some operator ∧ s' = s := by
  cases found : family.lookup id .operators (String.ofList symbol) with
  | none => simp [operatorOf, found]
  | some binding => simp [operatorOf, found, eq_comm]

/-- Clauses are resolved exactly if their operators are found and their values can be resolved one
after another. -/
theorem readClauses_eq_ok {tokens : List (List Char × List Char)} {cs : List Clause}
    {s s' : Session} :
    readClauses setting inner family id tokens s = .ok cs s' ↔
      tokens.map (fun p => family.lookup id .operators (String.ofList p.1)) =
          cs.map (some ·.operator) ∧
        (tokens.map (·.2)).mapM (tokenValue setting inner family id) s =
          .ok (cs.map (·.value)) s' := by
  induction tokens generalizing cs s with
  | nil =>
    cases cs with
    | nil => simp [readClauses]
    | cons c cs => simp [readClauses]
  | cons p tokens ih =>
    obtain ⟨symbol, token⟩ := p
    simp only [readClauses, List.map_cons, List.mapM_cons, bind_eq_ok, pure_apply,
      operatorOf_eq_ok]
    constructor
    · rintro ⟨operator, _, ⟨found, rfl⟩, value, s₁, hv, rest, s₂, hr, ⟨⟩⟩
      obtain ⟨ho, hm⟩ := ih.mp hr
      exact ⟨by simp [found, ho], value, s₁, hv, rest.map (·.value), s', hm, rfl⟩
    · rintro ⟨operators, value, s₁, hv, values, s₂, hm, same⟩
      cases cs with
      | nil => cases operators
      | cons c cs =>
        simp only [List.map_cons, List.cons.injEq] at operators
        simp only [EStateM.Result.ok.injEq, List.map_cons, List.cons.injEq] at same
        obtain ⟨⟨rfl, rfl⟩, rfl⟩ := same
        exact ⟨c.operator, s, ⟨operators.1, rfl⟩, c.value, s₁, hv, cs, s₂,
          ih.mpr ⟨operators.2, hm⟩, rfl⟩

end

/-! ## Tokens without a value -/

section

variable {setting : Setting} {room depth : Nat} {family : Family} {id : EnvId}

theorem evaluateAt_ok {text : List Char} {v : Decimal} {s s' : Session}
    (h : evaluateAt setting room depth family id text s = .ok v s') :
    ∃ less, room = less + 1 ∧
      evaluateOpen setting (evaluateAt setting less (depth + 1)) family id text s = .ok v s' := by
  cases room with
  | zero =>
    simp only [evaluateAt] at h
    split at h <;> cases h
  | succ less =>
    simp only [evaluateAt] at h
    split at h
    · cases h
    · exact ⟨less, rfl, h⟩

/-- The brackets match in what has a value. -/
theorem evaluateAt_depthAfter {text : List Char} {v : Decimal} {s s' : Session}
    (h : evaluateAt setting room depth family id text s = .ok v s') :
    depthAfter 0 text = some 0 := by
  obtain ⟨less, -, h⟩ := evaluateAt_ok h
  obtain ⟨_, s₁, -, h⟩ := bind_eq_ok.mp h
  obtain ⟨chain, s₂, parsed, -⟩ := bind_eq_ok.mp h
  obtain ⟨first, tokens, read⟩ := parse_ok_tokens parsed
  exact phrase_depthAfter read

/-- A word that begins with a bracket is no variable. -/
theorem wordValue_bracket {rest : List Char} {v : Decimal} {s s' : Session}
    (wf : family.WellFormed) :
    wordValue setting family id ('(' :: rest) s ≠ .ok v s' := by
  intro h
  have plain : ((('(' :: rest).head?.map isFactorSymbol).getD false) = false := rfl
  simp only [wordValue, plain, Bool.and_false, Bool.false_eq_true, if_false, variableValue] at h
  cases found : family.lookup id .vars (String.ofList ('(' :: rest)) with
  | none => simp only [found] at h; cases h
  | some v => exact absurd rfl (Family.lookup_vars_plain wf found '(' (by simp)).1

/-- A token into which more than one run was read has no value: within brackets its brackets do
not match, and as a name it is none that can be given. -/
theorem glued_no_value {token : List Char} {v : Decimal} {s s' : Session}
    (wf : family.WellFormed) (glued : Lexer.Glued token) :
    tokenValue setting (evaluateAt setting room depth) family id token s ≠ .ok v s' := by
  intro h
  obtain ⟨inner, after, rfl, balanced, remains⟩ := glued
  obtain ⟨before, last, rfl⟩ : ∃ before last, after = before ++ [last] :=
    ⟨after.dropLast, after.getLast remains, (List.dropLast_concat_getLast remains).symm⟩
  have regroup : inner ++ ')' :: (before ++ [last]) = (inner ++ ')' :: before) ++ [last] := by simp
  have ends : ('(' :: (inner ++ ')' :: (before ++ [last]))).getLast? = some last := by
    rw [regroup, ← List.cons_append, List.getLast?_concat]
  have notNumeric : isNumeric ('(' :: (inner ++ ')' :: (before ++ [last]))) = false := rfl
  have cut : ((('(' :: (inner ++ ')' :: (before ++ [last]))).dropWhile (· != '(')).drop 1).dropLast =
      inner ++ ')' :: before := by
    change (inner ++ ')' :: (before ++ [last])).dropLast = _
    rw [regroup, List.dropLast_concat]
  have token : Operand.ofToken ('(' :: (inner ++ ')' :: (before ++ [last]))) =
      Operand.ofPositive ('(' :: (inner ++ ')' :: (before ++ [last]))) := by
    simp [Operand.ofToken]
  cases closed : last == ')' with
  | true =>
    have form : Operand.ofToken ('(' :: (inner ++ ')' :: (before ++ [last]))) =
        .bracket (inner ++ ')' :: before) := by
      rw [token]
      simp only [Operand.ofPositive, ends, cut, Option.some_beq_some, closed, List.head?_cons,
        BEq.rfl, Bool.and_true, if_true]
    rw [tokenValue, form, operandValue] at h
    have inside := evaluateAt_depthAfter h
    rw [depthAfter_append, balanced] at inside
    cases inside
  | false =>
    have form : Operand.ofToken ('(' :: (inner ++ ')' :: (before ++ [last]))) =
        .word ('(' :: (inner ++ ')' :: (before ++ [last]))) := by
      rw [token]
      simp only [Operand.ofPositive, ends, Option.some_beq_some, closed, Bool.false_and,
        Bool.false_eq_true, if_false, notNumeric]
    rw [tokenValue, form, operandValue] at h
    exact wordValue_bracket wf h

/-- Only sound tokens have values. -/
theorem tokenValue_sound {token : List Char} {v : Decimal} {s s' : Session}
    (wf : family.WellFormed)
    (h : tokenValue setting (evaluateAt setting room depth) family id token s = .ok v s') :
    Sound token := by
  refine ⟨?_, ?_, fun glued => glued_no_value wf glued h⟩
  · rintro rfl; cases h
  · rintro rfl; cases h

theorem mapM_ok_sound {tokens : List (List Char)} {values : List Decimal} {s s' : Session}
    (wf : family.WellFormed)
    (h : tokens.mapM (tokenValue setting (evaluateAt setting room depth) family id) s =
      .ok values s') : ∀ token ∈ tokens, Sound token := by
  induction tokens generalizing values s s' with
  | nil => nofun
  | cons token tokens ih =>
    rw [List.mapM_cons] at h
    obtain ⟨v, s₁, first, h⟩ := bind_eq_ok.mp h
    obtain ⟨rest, s₂, later, -⟩ := bind_eq_ok.mp h
    exact List.forall_mem_cons.mpr ⟨tokenValue_sound wf first, ih later⟩

/-! ## The grammar -/

/-- The symbols of a decomposition are operators. -/
def Registered (family : Family) (id : EnvId) (d : Decomposition) : Prop :=
  ∀ g ∈ d.segments, (family.lookup id .operators (String.ofList g.symbol)).isSome = true

/-- What the grammar writes is parsed exactly into its clauses. -/
theorem parse_lexical {d : Decomposition} {inner : Inner} {chain : StepChain} {s s' : Session}
    (h : d.Lexical) :
    parse setting inner family id d.text s = .ok chain s' ↔
      ∃ first cs, chain = .ofSequence first cs ∧
        d.values.mapM (tokenValue setting inner family id) s =
          .ok (first :: cs.map (·.value)) s' ∧
        d.segments.map (fun g => family.lookup id .operators (String.ofList g.symbol)) =
          cs.map (some ·.operator) := by
  have symbols : (d.segments.map (·.tokens)).map
      (fun p => family.lookup id .operators (String.ofList p.1)) =
      d.segments.map fun g => family.lookup id .operators (String.ofList g.symbol) := by
    rw [List.map_map]; rfl
  have tokens : (d.segments.map (·.tokens)).map (·.2) = d.segments.map (·.token) := by
    rw [List.map_map]; rfl
  rw [parse_of_tokens (read_lexical h)]
  simp only [Decomposition.values, List.mapM_cons, bind_eq_ok, readClauses_eq_ok, symbols, tokens,
    pure_apply]
  constructor
  · rintro ⟨first, s₁, hf, cs, s₂, ⟨found, resolved⟩, ⟨⟩⟩
    exact ⟨first, cs, rfl, ⟨first, s₁, hf, _, s', resolved, rfl⟩, found⟩
  · rintro ⟨first, cs, rfl, ⟨_, s₁, hf, _, s₂, resolved, same⟩, found⟩
    cases same
    exact ⟨first, s₁, hf, cs, s', ⟨found, resolved⟩, rfl⟩

theorem lexical_of_parse {text : List Char} {chain : StepChain} {s s' : Session}
    (wf : family.WellFormed)
    (h : parse setting (evaluateAt setting room depth) family id text s = .ok chain s') :
    ∃ d : Decomposition, d.Lexical ∧ d.text = text := by
  obtain ⟨first, tokens, read⟩ := parse_ok_tokens h
  rw [parse_of_tokens read] at h
  obtain ⟨left, s₁, value, h⟩ := bind_eq_ok.mp h
  obtain ⟨cs, s₂, clauses, -⟩ := bind_eq_ok.mp h
  have later := mapM_ok_sound wf (readClauses_eq_ok.mp clauses).2
  obtain ⟨d, lexical, same, -, -⟩ := lexical_of_read read (tokenValue_sound wf value)
    fun p mem => later p.2 (List.mem_map_of_mem mem)
  exact ⟨d, lexical, same⟩

theorem registered_of_map {d : Decomposition} {cs : List Clause}
    (h : d.segments.map (fun g => family.lookup id .operators (String.ofList g.symbol)) =
      cs.map (some ·.operator)) : Registered family id d := by
  intro g mem
  have found : family.lookup id .operators (String.ofList g.symbol) ∈ cs.map (some ·.operator) :=
    h ▸ List.mem_map_of_mem mem
  obtain ⟨c, -, same⟩ := List.mem_map.mp found
  rw [← same]
  rfl

/-- The operators of registered symbols, with as many values. -/
theorem clauses_of_registered {d : Decomposition} {values : List Decimal}
    (h : Registered family id d) (length : d.segments.length = values.length) :
    ∃ cs : List Clause, cs.map (·.value) = values ∧
      d.segments.map (fun g => family.lookup id .operators (String.ofList g.symbol)) =
        cs.map (some ·.operator) := by
  rw [Registered] at h
  generalize d.segments = segments at h length
  induction segments generalizing values with
  | nil =>
    obtain rfl := List.length_eq_zero_iff.mp length.symm
    exact ⟨[], rfl, rfl⟩
  | cons g segments ih =>
    cases values with
    | nil => cases length
    | cons v values =>
      obtain ⟨here, later⟩ := List.forall_mem_cons.mp h
      obtain ⟨operator, found⟩ := Option.isSome_iff_exists.mp here
      obtain ⟨cs, rfl, same⟩ := ih later (Nat.succ.inj length)
      exact ⟨⟨operator, v⟩ :: cs, rfl, by simp [found, same]⟩

theorem mapM_ok_length {α : Type} {f : α → Evaluation Decimal} {items : List α}
    {values : List Decimal} {s s' : Session} (h : items.mapM f s = .ok values s') :
    items.length = values.length := by
  induction items generalizing values s s' with
  | nil => cases h; rfl
  | cons a items ih =>
    rw [List.mapM_cons] at h
    obtain ⟨v, s₁, -, h⟩ := bind_eq_ok.mp h
    obtain ⟨rest, s₂, later, ⟨⟩⟩ := bind_eq_ok.mp h
    simp [ih later]

end

/-- A text is parsed exactly if the grammar writes it, with operators that are registered and
values that can be resolved one after another. It is written in one way only, and the chain then
has the steps that it shows, in their order, and no others. -/
theorem parse_iff_grammatical (setting : Setting) (room depth : Nat) {family : Family}
    (built : family.Built) (id : EnvId) (text : List Char) (s : Session) :
    ((∃ chain s', parse setting (evaluateAt setting room depth) family id text s = .ok chain s') ↔
      ∃ d : Decomposition, d.text = text ∧ d.Lexical ∧ Registered family id d ∧
        ∃ values s', d.values.mapM
          (tokenValue setting (evaluateAt setting room depth) family id) s = .ok values s') ∧
    (∀ d d' : Decomposition, d.text = text → d'.text = text → d.Lexical → d'.Lexical → d = d') ∧
    (∀ d : Decomposition, d.text = text → d.Lexical → ∀ chain s',
      parse setting (evaluateAt setting room depth) family id text s = .ok chain s' →
      ∃ first cs,
        d.values.mapM (tokenValue setting (evaluateAt setting room depth) family id) s =
          .ok (first :: cs.map (·.value)) s' ∧
        d.segments.map (fun g => family.lookup id .operators (String.ofList g.symbol)) =
          cs.map (some ·.operator) ∧
        chain.view = shownSteps first cs ∧ chain.steps.size = (shownSteps first cs).length) := by
  have wf := Family.built_wellFormed built
  refine ⟨⟨?_, ?_⟩, ?_, ?_⟩
  · rintro ⟨chain, s', parsed⟩
    obtain ⟨d, lexical, rfl⟩ := lexical_of_parse wf parsed
    obtain ⟨first, cs, -, resolved, found⟩ := (parse_lexical lexical).mp parsed
    exact ⟨d, rfl, lexical, registered_of_map found, _, s', resolved⟩
  · rintro ⟨d, rfl, lexical, registered, values, s', resolved⟩
    have length := mapM_ok_length resolved
    cases values with
    | nil => cases length
    | cons first values =>
      obtain ⟨cs, rfl, found⟩ := clauses_of_registered registered
        (by simpa [Decomposition.values] using length)
      exact ⟨_, s', (parse_lexical lexical).mpr ⟨first, cs, rfl, resolved, found⟩⟩
  · rintro d d' rfl same lexical lexical'
    exact Decomposition.unique lexical lexical' same.symm
  · rintro d rfl lexical chain s' parsed
    obtain ⟨first, cs, rfl, resolved, found⟩ := (parse_lexical lexical).mp parsed
    exact ⟨first, cs, resolved, found, ofSequence_view first cs, ofSequence_size first cs⟩

set_option maxRecDepth 4000 in
/-- A minus after white space belongs to the value: `2 - -(3)` in the standard library. -/
theorem parse_minus_after_space :
    (Family.addStandard .empty).1.Built ∧ ∃ chain s',
      parse ⟨0, false⟩ (evaluateAt ⟨0, false⟩ stackRoom 0) (Family.addStandard .empty).1 0
        " 2 - -(3)".toList (.start 0) = .ok chain s' := by
  have built := Family.built_addStandard .empty
  refine ⟨built, (parse_iff_grammatical ⟨0, false⟩ stackRoom 0 built 0 " 2 - -(3)".toList
    (.start 0)).1.mpr ⟨⟨[' '], ['2'], [⟨[' '], ['-'], [' '], "-(3)".toList⟩], []⟩, rfl, ?_, ?_,
    _, _, rfl⟩⟩
  · refine ⟨by decide, by decide +kernel, ?_, by decide⟩
    intro g mem
    obtain rfl := List.mem_singleton.mp mem
    exact ⟨by decide, by decide +kernel, by decide, by decide, by decide +kernel, by decide⟩
  · intro g mem
    obtain rfl := List.mem_singleton.mp mem
    decide +kernel

end Evaluation
end Calculator
