import Calculator.Proofs.Interpreter
import Calculator.Proofs.Views

/-!
# Calculator.Proofs.Symbols

Which of the operators that can be registered can be used. A symbol is accepted character by
character, and read up to the first character of a value; both go by the same characters but for the
round brackets, which are accepted in symbols and read as values.

* `parseChain_symbol`: a symbol without brackets between two numerals makes one step.
* `symbol_of_parse`: no symbol with a bracket is ever read.
* `symbol_usable`: so an operator can be used exactly if its symbol holds no bracket.
-/

namespace Calculator

namespace Evaluation

variable {setting : Setting} {family : Family} {id : EnvId}

/-- A numeral, or a minus and one, is all that can be read as a literal. -/
theorem numeral_of_literal {text : List Char} {x : Decimal} (read : parseLiteral text = .ok x)
    (unsigned : text.head? ≠ some '-') : ∃ n : Numeral, n.text = text ∧ x = .ofNumeral false text := by
  have plain : (text.head? == some '-') = false := beq_eq_false_iff_ne.mpr unsigned
  simp only [parseLiteral, plain, Bool.false_eq_true, if_false] at read
  split at read
  · rename_i valid
    cases read
    exact ⟨⟨text, valid⟩, rfl, rfl⟩
  · cases read

theorem tokenValue_numeral (inner : Inner) (n : Numeral) (s : Session) :
    tokenValue setting inner family id n.text s = .ok (.ofNumeral false n.text) s := by
  have token := ofToken_run false n.run n.text_ne
  simp only [signed, Bool.false_eq_true, if_false, ofPositive_numeral] at token
  rw [tokenValue, token, operandValue, parseLiteral_numeral]
  rfl

/-- A symbol without brackets is read between two numerals, and makes one step of them. -/
theorem parseChain_symbol {symbol : String} {binding : Binding}
    (valid : symbol.toList ≠ [] ∧ symbol.toList.findSome? symbolProblemOf? = none)
    (plain : ∀ c ∈ symbol.toList, c ≠ '(' ∧ c ≠ ')')
    (found : family.lookup id .operators symbol = some binding) (a b : Numeral) (s : Session) :
    parseChain setting family id
        (String.ofList a.text ++ " " ++ symbol ++ " " ++ String.ofList b.text) s =
      .ok (.ofSequence (.ofNumeral false a.text) [⟨binding, .ofNumeral false b.text⟩]) s := by
  have space : Blank [' '] := by decide
  obtain ⟨first, rest, same, notMinus⟩ := run_head b.run b.text_ne
  have segment : Segment.Lexical ⟨[' '], symbol.toList, [' '], b.text⟩ := {
    gap := space
    symbol := isSymbol_of_valid valid.2 plain
    symbol_ne := valid.1
    space := space
    token := run_token false b.run b.text_ne
    minus := fun _ => List.cons_ne_nil _ _ }
  have lexical : Decomposition.Lexical ⟨[], a.text, [⟨[' '], symbol.toList, [' '], b.text⟩], []⟩ := {
    lead := blank_nil
    first := run_token false a.run a.text_ne
    segments := List.forall_mem_singleton.mpr segment
    trail := blank_nil }
  have written : (String.ofList a.text ++ " " ++ symbol ++ " " ++ String.ofList b.text).toList =
      Decomposition.text ⟨[], a.text, [⟨[' '], symbol.toList, [' '], b.text⟩], []⟩ := by
    simp [Decomposition.text, Decomposition.textOf, Segment.before]
  rw [parseChain, written]
  refine (parse_lexical lexical).mpr ⟨_, _, rfl, ?_, ?_⟩
  · simp only [Decomposition.values, List.map_cons, List.map_nil, List.mapM_cons, List.mapM_nil,
      bind_apply, tokenValue_numeral, pure_apply]
  · simp only [List.map_cons, List.map_nil, String.ofList_toList, found]

theorem mem_alternating {first : Decimal} {cs : List Clause} {entry : Decimal × Binding × Decimal}
    (mem : entry ∈ alternating first cs) : ∃ c ∈ cs, entry.2.1 = c.operator := by
  induction cs generalizing first with
  | nil => cases mem
  | cons c rest ih =>
    rcases List.mem_cons.mp mem with rfl | later
    · exact ⟨c, List.mem_cons_self, rfl⟩
    · obtain ⟨other, listed, same⟩ := ih later
      exact ⟨other, List.mem_cons_of_mem _ listed, same⟩

/-- The operators of a text that can be parsed have symbols without brackets. -/
theorem symbol_of_parse (built : family.Built) {text : String} {chain : StepChain} {s s' : Session}
    (parsed : parseChain setting family id text s = .ok chain s') :
    ∀ entry ∈ chain.view, ∀ c ∈ entry.2.1.symbol.toList, c ≠ '(' ∧ c ≠ ')' := by
  obtain ⟨d, lexical, same⟩ := lexical_of_parse (Family.built_wellFormed built) parsed
  rw [parseChain, ← same] at parsed
  obtain ⟨first, cs, rfl, -, found⟩ := (parse_lexical lexical).mp parsed
  rw [ofSequence_view]
  intro entry mem
  cases cs with
  | nil =>
    rw [shownSteps, List.mem_singleton] at mem
    subst mem
    have plain : ∀ c ∈ "=".toList, c ≠ '(' ∧ c ≠ ')' := by simp
    exact plain
  | cons c rest =>
    obtain ⟨clause, listed, same⟩ := mem_alternating mem
    have registered := found ▸ List.mem_map_of_mem listed
    obtain ⟨g, shown, stands⟩ := List.mem_map.mp registered
    have symbol : clause.operator.symbol = _ := (Family.built_labelled built).lookup stands
    rw [same, symbol, String.toList_ofList]
    intro c mem
    have notValue := ((lexical.segments g shown).symbol c mem).2
    constructor
    · rintro rfl
      cases notValue
    · rintro rfl
      cases notValue

/-- An operator whose symbol holds no round bracket can be used: between two numerals, it makes one
step of them. An operator whose symbol holds one is registered in vain: no text that can be parsed
uses it. -/
theorem symbol_usable (built : family.Built) {given : Option String} {symbol : String}
    {binding : Binding} (accepted : validateSymbol given = .ok symbol)
    (found : family.lookup id .operators symbol = some binding) :
    ((∀ c ∈ symbol.toList, c ≠ '(' ∧ c ≠ ')') →
      ∀ (a b : String) (x y : Decimal), a.toList.head? ≠ some '-' → b.toList.head? ≠ some '-' →
        parseLiteral a.toList = .ok x → parseLiteral b.toList = .ok y →
        ∀ setting s, ∃ chain,
          parseChain setting family id (a ++ " " ++ symbol ++ " " ++ b) s = .ok chain s ∧
          chain.head = some 0 ∧
          chain.steps = #[{ left := x, operation := binding.operation, right := y,
                            precedence := binding.precedence, symbol := symbol }]) ∧
    ((∃ c ∈ symbol.toList, c = '(' ∨ c = ')') →
      ∀ setting text s chain s', parseChain setting family id text s = .ok chain s' →
        ∀ entry ∈ chain.view, entry.2.1.symbol ≠ symbol) := by
  have labelled : binding.symbol = symbol := (Family.built_labelled built).lookup found
  constructor
  · intro plain a b x y unsigned unsigned' left right setting s
    obtain ⟨m, read, rfl⟩ := numeral_of_literal left unsigned
    obtain ⟨n, read', rfl⟩ := numeral_of_literal right unsigned'
    have parsed := @parseChain_symbol setting family id symbol binding
      (Family.validateSymbol_problem accepted) plain found m n s
    rw [read, read', String.ofList_toList, String.ofList_toList] at parsed
    refine ⟨_, parsed, rfl, ?_⟩
    rw [← labelled]
    rfl
  · rintro ⟨c, mem, bracket⟩ setting text s chain s' parsed entry shown same
    have plain := symbol_of_parse built parsed entry shown c (same ▸ mem)
    rcases bracket with isOpen | isClose
    · exact plain.1 isOpen
    · exact plain.2 isClose

def sum : Operation := (Operators.standard "+" 1 "add" fun ctx a b => a.add ctx b).operation

/-- A root with the operator of sums under a symbol of its own. -/
def renamed (symbol : String) : Family :=
  Family.empty.addRoot.1.register 0 .operators symbol (some ⟨symbol, sum, 1⟩)

theorem symbol_usable_dollar :
    (renamed "$").Built ∧ ∃ chain s',
      parseChain ⟨0, false⟩ (renamed "$") 0 "1 $ 2" (.start 0) = .ok chain s' ∧
      chain.steps.size = 1 := by
  have set : Family.empty.addRoot.1.setOperation 0 (some " $ ") (.given sum) .nothing =
      .ok (renamed "$") := rfl
  have built : (renamed "$").Built := .setOperation (.addRoot .empty) set
  have accepted : validateSymbol (some " $ ") = .ok "$" := rfl
  have found : (renamed "$").lookup 0 .operators "$" = some ⟨"$", sum, 1⟩ := rfl
  obtain ⟨chain, parsed, -, steps⟩ := (symbol_usable built accepted found).1 (by simp) "1" "2" _ _
    (by decide) (by decide) rfl rfl ⟨0, false⟩ (.start 0)
  exact ⟨built, chain, _, parsed, by rw [steps]; rfl⟩

/-- A round bracket is accepted as the symbol of an operator, and read as a value in its place. -/
theorem bracket_symbol_unread :
    (renamed "(").Built ∧ validateSymbol (some "(") = .ok "(" ∧
    ((renamed "(").lookup 0 .operators "(").isSome = true ∧
    parseLiteral "1".toList = .ok (.ofInt 1) ∧ parseLiteral "2".toList = .ok (.ofInt 2) ∧
    parseChain ⟨0, false⟩ (renamed "(") 0 "1 ( 2" (.start 0) =
      .error (.malformed .missingOperator) (.start 0) := by
  have set : Family.empty.addRoot.1.setOperation 0 (some "(") (.given sum) .nothing =
      .ok (renamed "(") := rfl
  exact ⟨.setOperation (.addRoot .empty) set, rfl, rfl, rfl, rfl, rfl⟩

end Evaluation
end Calculator
