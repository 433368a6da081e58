import Calculator.Environment.Name
import Calculator.Evaluation
import Calculator.Proofs.Grammar
import Calculator.Proofs.Trimming

/-!
# Calculator.Proofs.Trees

Expressions as trees, and the texts they are rendered to: one space on each side of every operator,
and arguments between commas.

* `renderTree_argument`: the brackets of a rendered tree match, and its commas stand inside them.
* `Tree.decomposition`: a rendered tree is written by the grammar, and its tokens are its operands.
* `splitArguments_render`: rendered arguments are split into the rendered trees.
-/

namespace Calculator

/-! ## Trees -/

/-- Digits with at most one dot. -/
structure Numeral where
  text : List Char
  valid : (text.all isNumeralSymbol && text.any isAsciiDigit && text.count '.' ≤ 1) = true

/-- A name that can be given to a variable or function. -/
structure Name (role : Role) where
  text : List Char
  valid : nameProblem? role text = none

/-- A symbol that can be given to an operator, without brackets and commas. -/
structure OperatorSymbol where
  text : List Char
  nonempty : text ≠ []
  valid : text.findSome? symbolProblemOf? = none
  plain : ∀ c ∈ text, c ≠ '(' ∧ c ≠ ')' ∧ c ≠ ','

mutual

/-- A chain of operators: its first operand, with or without a minus, and the rest. -/
inductive Tree where
  | chain (minus : Bool) (first : Atom) (rest : Operations)

inductive Atom where
  | numeral (n : Numeral)
  | word (name : Name .variableName)
  | bracket (inner : Tree)
  | call (name : Name .functionName) (arguments : Arguments)

inductive Operations where
  | nil
  | cons (symbol : OperatorSymbol) (minus : Bool) (operand : Atom) (rest : Operations)

inductive Arguments where
  | nil
  | cons (first : Tree) (rest : Arguments)

end

/-! ## Rendering -/

def signed (minus : Bool) (text : List Char) : List Char := if minus then '-' :: text else text

def commaSeparated : List (List Char) → List Char
  | [] => []
  | [text] => text
  | text :: rest => text ++ ',' :: commaSeparated rest

mutual

def Tree.render : Tree → List Char
  | .chain minus first rest => signed minus first.render ++ rest.render

def Atom.render : Atom → List Char
  | .numeral n => n.text
  | .word name => name.text
  | .bracket inner => '(' :: (inner.render ++ [')'])
  | .call name arguments => name.text ++ '(' :: (commaSeparated arguments.texts ++ [')'])

def Operations.render : Operations → List Char
  | .nil => []
  | .cons symbol minus operand rest =>
    ' ' :: (symbol.text ++ ' ' :: (signed minus operand.render ++ rest.render))

def Arguments.texts : Arguments → List (List Char)
  | .nil => []
  | .cons first rest => first.render :: rest.texts

end

mutual

/-- No function is called whose name holds brackets. -/
def Tree.Plain : Tree → Prop
  | .chain _ first rest => first.Plain ∧ rest.Plain

def Atom.Plain : Atom → Prop
  | .numeral _ => True
  | .word _ => True
  | .bracket inner => inner.Plain
  | .call name arguments => (∀ c ∈ name.text, c ≠ '(' ∧ c ≠ ')') ∧ arguments.Plain

def Operations.Plain : Operations → Prop
  | .nil => True
  | .cons _ _ operand rest => operand.Plain ∧ rest.Plain

def Arguments.Plain : Arguments → Prop
  | .nil => True
  | .cons first rest => first.Plain ∧ rest.Plain

end

/-! ## The characters of names, numerals and symbols -/

theorem Numeral.symbols (n : Numeral) : ∀ c ∈ n.text, isNumeralSymbol c = true := by
  have h := n.valid
  simp only [Bool.and_eq_true, List.all_eq_true] at h
  exact h.1.1

theorem Numeral.text_ne (n : Numeral) : n.text ≠ [] := by
  intro h
  have hv := n.valid
  simp [h] at hv

theorem isNumeralSymbol_value {c : Char} (h : isNumeralSymbol c = true) :
    isValueSymbol c = true ∧ c ≠ '(' ∧ c ≠ ')' ∧ c ≠ ',' ∧ c ≠ '-' := by
  refine ⟨?_, ?_⟩
  · simp only [isNumeralSymbol, Bool.or_eq_true] at h
    rcases h with digit | dot
    · simp [isValueSymbol, digit]
    · simp [isValueSymbol, dot]
  · refine ⟨?_, ?_, ?_, ?_⟩ <;> rintro rfl <;> cases h

theorem isNameSymbol_value {c : Char} (h : isNameSymbol c = true) :
    isValueSymbol c = true ∧ c ≠ '(' ∧ c ≠ ')' ∧ c ≠ ',' := by
  refine ⟨?_, ?_⟩
  · simp only [isNameSymbol, Bool.or_eq_true] at h
    rcases h with ((digit | dot) | under) | letter
    · simp [isValueSymbol, digit]
    · simp [isValueSymbol, dot]
    · simp [isValueSymbol, under]
    · simp [isValueSymbol, letter]
  · refine ⟨?_, ?_, ?_⟩ <;> rintro rfl <;> cases h

/-- What a valid name looks like. -/
theorem nameProblem?_eq_none {role : Role} {text : List Char}
    (h : nameProblem? role text = none) :
    ∃ first rest, text = first :: rest ∧ isAsciiDigit first = false ∧ first ≠ '.' ∧
      ∀ c ∈ text, isNameSymbol c = true ∨
        role.allowsBrackets = true ∧ (c = '(' ∨ c = ')') := by
  cases text with
  | nil => cases h
  | cons first rest =>
    simp only [nameProblem?] at h
    split at h
    · cases h
    · rename_i start
      split at h
      · cases h
      · split at h
        · rename_i all
          simp only [Bool.or_eq_true, beq_iff_eq, not_or, Bool.not_eq_true] at start
          refine ⟨first, rest, rfl, start.1, start.2, ?_⟩
          intro c mem
          have := List.all_eq_true.mp all c mem
          simpa only [Bool.or_eq_true, Bool.and_eq_true, beq_iff_eq] using this
        · cases h

/-- No valid name begins like a factor. -/
theorem head_not_factor {role : Role} {text : List Char} (valid : nameProblem? role text = none) :
    ∃ first rest, text = first :: rest ∧ Evaluation.isFactorSymbol first = false := by
  obtain ⟨first, rest, same, digit, dot, symbols⟩ := nameProblem?_eq_none valid
  have notMinus : first ≠ '-' := by
    rintro rfl
    rcases symbols '-' (by simp [same]) with symbol | ⟨-, isOpen | isClose⟩
    · cases symbol
    · cases isOpen
    · cases isClose
  exact ⟨first, rest, same, by simp [Evaluation.isFactorSymbol, digit, dot, notMinus]⟩

theorem Name.symbols (name : Name .variableName) : ∀ c ∈ name.text, isNameSymbol c = true := by
  intro c mem
  obtain ⟨_, _, _, _, _, symbols⟩ := nameProblem?_eq_none name.valid
  rcases symbols c mem with symbol | ⟨brackets, _⟩
  · exact symbol
  · cases brackets

theorem Name.symbols_of_plain {role : Role} (name : Name role)
    (plain : ∀ c ∈ name.text, c ≠ '(' ∧ c ≠ ')') : ∀ c ∈ name.text, isNameSymbol c = true := by
  intro c mem
  obtain ⟨_, _, _, _, _, symbols⟩ := nameProblem?_eq_none name.valid
  rcases symbols c mem with symbol | ⟨_, isOpen | isClose⟩
  · exact symbol
  · exact absurd isOpen (plain c mem).1
  · exact absurd isClose (plain c mem).2

theorem Name.text_ne {role : Role} (name : Name role) : name.text ≠ [] := by
  obtain ⟨first, rest, same, _⟩ := nameProblem?_eq_none name.valid
  simp [same]

/-- Of the characters that an operator symbol can hold, the brackets belong to values, and no
others. -/
theorem symbolProblemOf?_eq_none {c : Char} :
    symbolProblemOf? c = none ↔
      isBlank c = false ∧ (isValueSymbol c = true → c = '(' ∨ c = ')') := by
  constructor
  · intro fine
    simp only [symbolProblemOf?] at fine
    split at fine
    · cases fine
    · rename_i numeric
      split at fine
      · cases fine
      · rename_i under
        split at fine
        · cases fine
        · rename_i letter
          split at fine
          · cases fine
          · rename_i blank
            simp only [Bool.or_eq_true, beq_iff_eq, not_or, Bool.not_eq_true] at numeric
            simp only [beq_iff_eq] at under
            refine ⟨by simpa using blank, ?_⟩
            simp [isValueSymbol, numeric.1, numeric.2, under, letter]
  · rintro ⟨blank, brackets⟩
    by_cases value : isValueSymbol c = true
    · rcases brackets value with rfl | rfl
      · rfl
      · rfl
    · simp only [isValueSymbol, Bool.or_eq_true, not_or, Bool.not_eq_true] at value
      obtain ⟨⟨⟨⟨⟨digit, dot⟩, under⟩, -⟩, -⟩, letter⟩ := value
      simp [symbolProblemOf?, digit, dot, under, letter, blank]

theorem isSymbol_of_valid {text : List Char} (valid : text.findSome? symbolProblemOf? = none)
    (plain : ∀ c ∈ text, c ≠ '(' ∧ c ≠ ')') : IsSymbol text := by
  intro c mem
  obtain ⟨blank, brackets⟩ :=
    symbolProblemOf?_eq_none.mp (List.findSome?_eq_none_iff.mp valid c mem)
  refine ⟨blank, Bool.eq_false_iff.mpr fun value => ?_⟩
  rcases brackets value with isOpen | isClose
  · exact (plain c mem).1 isOpen
  · exact (plain c mem).2 isClose

theorem OperatorSymbol.isSymbol (symbol : OperatorSymbol) : IsSymbol symbol.text :=
  isSymbol_of_valid symbol.valid fun c mem => ⟨(symbol.plain c mem).1, (symbol.plain c mem).2.1⟩

/-! ## Brackets and commas -/

/-- The texts of arguments: all their commas stand inside of brackets. -/
abbrev isArgument (depth : Nat) (text : List Char) : Bool := spanned (· != ',') depth text

theorem commaSeparated_cons (text next : List Char) (rest : List (List Char)) :
    commaSeparated (text :: next :: rest) = text ++ ',' :: commaSeparated (next :: rest) := rfl

theorem intercalate_comma (texts : List (List Char)) :
    [','].intercalate texts = commaSeparated texts := by
  induction texts with
  | nil => rfl
  | cons text rest ih =>
    cases rest with
    | nil => exact List.append_nil text
    | cons next rest =>
      rw [commaSeparated_cons, ← ih]
      simp [List.intercalate]

theorem commaSeparated_depthAfter {texts : List (List Char)}
    (h : ∀ text ∈ texts, isArgument 0 text = true) :
    depthAfter 0 (commaSeparated texts) = some 0 := by
  induction texts with
  | nil => rfl
  | cons text rest ih =>
    obtain ⟨first, later⟩ := List.forall_mem_cons.mp h
    have hfirst := spanned_depthAfter first
    cases rest with
    | nil => exact hfirst
    | cons next rest =>
      rw [commaSeparated_cons, depthAfter_append, hfirst, Option.bind_some,
        depthAfter_other 0 _ (by decide) (by decide)]
      exact ih later

theorem signed_argument {minus : Bool} {text : List Char} (h : isArgument 0 text = true) :
    isArgument 0 (signed minus text) = true := by
  cases minus with
  | false => exact h
  | true => exact h

theorem symbol_argument (symbol : OperatorSymbol) : isArgument 0 symbol.text = true := by
  refine spanned_plain fun c mem => ?_
  have plain := symbol.plain c mem
  exact ⟨by simpa using plain.2.2, plain.1, plain.2.1⟩

theorem names_argument {text : List Char} (h : ∀ c ∈ text, isNameSymbol c = true) :
    isArgument 0 text = true := by
  refine spanned_plain fun c mem => ?_
  obtain ⟨-, notOpen, notClose, notComma⟩ := isNameSymbol_value (h c mem)
  exact ⟨by simpa using notComma, notOpen, notClose⟩

mutual

theorem renderTree_argument : ∀ t : Tree, t.Plain → isArgument 0 t.render = true
  | .chain minus first rest, h => by
    rw [Tree.render, isArgument, spanned_append _ (signed_argument (renderAtom_argument first h.1))]
    exact renderOperations_argument rest h.2

theorem renderAtom_argument : ∀ a : Atom, a.Plain → isArgument 0 a.render = true
  | .numeral n, _ => by
    refine spanned_plain fun c mem => ?_
    obtain ⟨-, notOpen, notClose, notComma, -⟩ := isNumeralSymbol_value (n.symbols c mem)
    exact ⟨by simpa using notComma, notOpen, notClose⟩
  | .word name, _ => names_argument name.symbols
  | .bracket inner, h => by
    rw [Atom.render, isArgument, spanned_bracket [] (spanned_depthAfter (renderTree_argument inner h))]
    rfl
  | .call name arguments, h => by
    have balanced := commaSeparated_depthAfter (textsArguments_argument arguments h.2)
    rw [Atom.render, isArgument, spanned_append _ (names_argument (name.symbols_of_plain h.1)),
      spanned_bracket [] balanced]
    rfl

theorem renderOperations_argument : ∀ o : Operations, o.Plain → isArgument 0 o.render = true
  | .nil, _ => rfl
  | .cons symbol minus operand rest, h => by
    have space (text : List Char) : isArgument 0 (' ' :: text) = isArgument 0 text := rfl
    rw [Operations.render, space, isArgument, spanned_append _ (symbol_argument symbol)]
    rw [← isArgument, space, isArgument,
      spanned_append _ (signed_argument (renderAtom_argument operand h.1))]
    exact renderOperations_argument rest h.2

theorem textsArguments_argument :
    ∀ a : Arguments, a.Plain → ∀ text ∈ a.texts, isArgument 0 text = true
  | .nil, _ => nofun
  | .cons first rest, h =>
    List.forall_mem_cons.mpr ⟨renderTree_argument first h.1, textsArguments_argument rest h.2⟩

end

/-! ## Operands as tokens -/

theorem names_run {text : List Char} (h : ∀ c ∈ text, isNameSymbol c = true) :
    isRun 0 text = true := by
  refine spanned_plain fun c mem => ?_
  obtain ⟨value, notOpen, notClose, -⟩ := isNameSymbol_value (h c mem)
  exact ⟨value, notOpen, notClose⟩

theorem Numeral.run (n : Numeral) : isRun 0 n.text = true := by
  refine spanned_plain fun c mem => ?_
  obtain ⟨value, notOpen, notClose, -⟩ := isNumeralSymbol_value (n.symbols c mem)
  exact ⟨value, notOpen, notClose⟩

theorem bracket_run {text : List Char} (h : depthAfter 0 text = some 0) :
    isRun 0 ('(' :: (text ++ [')'])) = true := by
  rw [isRun, spanned_bracket [] h]
  rfl

theorem call_run {name : Name .functionName} (plain : ∀ c ∈ name.text, c ≠ '(' ∧ c ≠ ')')
    {arguments : List Char} (balanced : depthAfter 0 arguments = some 0) :
    isRun 0 (name.text ++ '(' :: (arguments ++ [')'])) = true := by
  rw [isRun, spanned_append _ (names_run (name.symbols_of_plain plain)), spanned_bracket [] balanced]
  rfl

theorem Atom.render_run {a : Atom} (h : a.Plain) : isRun 0 a.render = true := by
  cases a with
  | numeral n => exact n.run
  | word name => exact names_run name.symbols
  | bracket inner => exact bracket_run (spanned_depthAfter (renderTree_argument inner h))
  | call name arguments =>
    exact call_run h.1 (commaSeparated_depthAfter (textsArguments_argument arguments h.2))

theorem Atom.render_ne (a : Atom) : a.render ≠ [] := by
  cases a with
  | numeral n => exact n.text_ne
  | word name => exact name.text_ne
  | bracket inner => simp [Atom.render]
  | call name arguments => simp [Atom.render]

theorem run_head {text : List Char} (run : isRun 0 text = true) (ne : text ≠ []) :
    ∃ c rest, text = c :: rest ∧ c ≠ '-' := by
  obtain ⟨c, rest, rfl⟩ := List.exists_cons_of_ne_nil ne
  refine ⟨c, rest, rfl, ?_⟩
  rintro rfl
  cases isRun_head run

theorem run_token {text : List Char} (minus : Bool) (run : isRun 0 text = true) (ne : text ≠ []) :
    isToken (signed minus text) = true := by
  obtain ⟨c, rest, rfl, notMinus⟩ := run_head run ne
  cases minus with
  | true =>
    rw [signed, if_pos rfl, isToken_minus, run]
    rfl
  | false =>
    rw [signed, if_neg (by decide), isToken_plain rest notMinus]
    exact run

theorem signed_token {a : Atom} (minus : Bool) (h : a.Plain) :
    isToken (signed minus a.render) = true :=
  run_token minus (Atom.render_run h) a.render_ne

/-! ## Trees as the grammar writes them -/

def Operations.segments : Operations → List Segment
  | .nil => []
  | .cons symbol minus operand rest =>
    ⟨[' '], symbol.text, [' '], signed minus operand.render⟩ :: rest.segments

def Tree.decomposition : Tree → Decomposition
  | .chain minus first rest => ⟨[], signed minus first.render, rest.segments, []⟩

theorem Operations.textOf_segments :
    ∀ o : Operations, Decomposition.textOf o.segments [] = o.render
  | .nil => rfl
  | .cons symbol minus operand rest => by
    rw [Operations.render, ← rest.textOf_segments]
    simp [Operations.segments, Decomposition.textOf, Segment.before]

theorem Tree.decomposition_text (t : Tree) : t.decomposition.text = t.render := by
  cases t with
  | chain minus first rest =>
    simp [Tree.decomposition, Decomposition.text, Tree.render, rest.textOf_segments]

theorem Operations.segments_lexical :
    ∀ o : Operations, o.Plain → ∀ g ∈ o.segments, g.Lexical
  | .nil, _ => nofun
  | .cons symbol minus operand rest, h => by
    refine List.forall_mem_cons.mpr ⟨?_, rest.segments_lexical h.2⟩
    have space : Blank [' '] := by decide
    exact ⟨space, symbol.isSymbol, symbol.nonempty, space, signed_token minus h.1,
      fun _ => List.cons_ne_nil ' ' []⟩

theorem Tree.decomposition_lexical (t : Tree) (h : t.Plain) : t.decomposition.Lexical := by
  cases t with
  | chain minus first rest =>
    exact ⟨blank_nil, signed_token minus h.1, rest.segments_lexical h.2, blank_nil⟩

/-- The symbols of operations with the texts of their operands. -/
def Operations.tokens : Operations → List (List Char × List Char)
  | .nil => []
  | .cons symbol minus operand rest =>
    (symbol.text, signed minus operand.render) :: rest.tokens

theorem Operations.segments_tokens :
    ∀ o : Operations, o.segments.map (·.tokens) = o.tokens
  | .nil => rfl
  | .cons symbol minus operand rest => by
    rw [Operations.segments, List.map_cons, rest.segments_tokens]
    rfl

/-- A rendered tree is read as its operands. -/
theorem Tree.read_render {minus : Bool} {first : Atom} {rest : Operations}
    (h : (Tree.chain minus first rest).Plain) :
    Phrase.read (Tree.chain minus first rest).render =
      .ok ⟨signed minus first.render, .ofTokens rest.tokens⟩ := by
  rw [← Tree.decomposition_text, read_lexical (Tree.decomposition_lexical _ h),
    ← rest.segments_tokens]
  rfl

/-! ## The forms of operands -/

def Atom.operand : Atom → Operand
  | .numeral n => .numeral n.text
  | .word name => .word name.text
  | .bracket inner => .bracket inner.render
  | .call name arguments => .call name.text (commaSeparated arguments.texts)

theorem not_closed {text : List Char} (h : ')' ∉ text) :
    (text.getLast? == some ')') = false := by
  rw [beq_eq_false_iff_ne]
  intro last
  exact h (List.mem_of_getLast? last)

theorem Numeral.isNumeric (n : Numeral) : isNumeric n.text = true := by
  have ne := n.text_ne
  simp only [Calculator.isNumeric, Bool.and_eq_true, Bool.not_eq_true', List.isEmpty_eq_false_iff]
  exact ⟨ne, List.all_eq_true.mpr n.symbols⟩

theorem name_not_numeric {role : Role} (name : Name role) : isNumeric name.text = false := by
  obtain ⟨first, rest, same, digit, dot, -⟩ := nameProblem?_eq_none name.valid
  simp [isNumeric, isNumeralSymbol, same, digit, dot]

theorem ofPositive_numeral (n : Numeral) : Operand.ofPositive n.text = .numeral n.text := by
  have noClose : ')' ∉ n.text := fun mem => (isNumeralSymbol_value (n.symbols _ mem)).2.2.1 rfl
  simp only [Operand.ofPositive, not_closed noClose, Bool.false_and, Bool.false_eq_true, if_false,
    n.isNumeric, if_true]

theorem ofPositive_bracket (text : List Char) :
    Operand.ofPositive ('(' :: (text ++ [')'])) = .bracket text := by
  have closed : ('(' :: (text ++ [')'])).getLast? = some ')' := by
    rw [← List.cons_append, List.getLast?_concat]
  have cut : ((('(' :: (text ++ [')'])).dropWhile (· != '(')).drop 1).dropLast = text := by
    change (text ++ [')']).dropLast = _
    rw [List.dropLast_concat]
  simp only [Operand.ofPositive, closed, cut, BEq.rfl, List.head?_cons, Bool.and_self, if_true]

theorem ofPositive_word (name : Name .variableName) :
    Operand.ofPositive name.text = .word name.text := by
  have noClose : ')' ∉ name.text := fun mem => (isNameSymbol_value (name.symbols _ mem)).2.2.1 rfl
  simp only [Operand.ofPositive, not_closed noClose, Bool.false_and, Bool.false_eq_true, if_false,
    name_not_numeric name]

theorem ofPositive_call {name : Name .functionName} (plain : ∀ c ∈ name.text, c ≠ '(' ∧ c ≠ ')')
    (arguments : List Char) :
    Operand.ofPositive (name.text ++ '(' :: (arguments ++ [')'])) = .call name.text arguments := by
  have before : ∀ c ∈ name.text, (c != '(') = true := by
    intro c mem
    simpa using (plain c mem).1
  have closed : (name.text ++ '(' :: (arguments ++ [')'])).getLast? = some ')' := by
    rw [← List.cons_append, ← List.append_assoc, List.getLast?_concat]
  have head : ((name.text ++ '(' :: (arguments ++ [')'])).head? == some '(') = false := by
    obtain ⟨c, rest, same⟩ := List.exists_cons_of_ne_nil name.text_ne
    have notOpen := (plain c (by simp [same])).1
    simp [same, notOpen]
  have taken : (name.text ++ '(' :: (arguments ++ [')'])).takeWhile (· != '(') = name.text := by
    rw [List.takeWhile_append_of_pos before]
    simp
  have dropped : (((name.text ++ '(' :: (arguments ++ [')'])).dropWhile (· != '(')).drop 1).dropLast =
      arguments := by
    rw [List.dropWhile_append_of_pos before]
    change (arguments ++ [')']).dropLast = _
    rw [List.dropLast_concat]
  have shorter : name.text.length < (name.text ++ '(' :: (arguments ++ [')'])).length := by
    simp only [List.length_append, List.length_cons]
    omega
  simp only [Operand.ofPositive, closed, head, taken, dropped, BEq.rfl, Bool.and_false,
    Bool.false_eq_true, if_false, Bool.true_and, decide_eq_true_eq, shorter, if_true]

theorem Atom.ofPositive_render {a : Atom} (h : a.Plain) :
    Operand.ofPositive a.render = a.operand := by
  cases a with
  | numeral n => exact ofPositive_numeral n
  | word name => exact ofPositive_word name
  | bracket inner => exact ofPositive_bracket inner.render
  | call name arguments => exact ofPositive_call h.1 _

theorem ofToken_run {text : List Char} (minus : Bool) (run : isRun 0 text = true) (ne : text ≠ []) :
    Operand.ofToken (signed minus text) =
      if minus then .negative (Operand.ofPositive text) else Operand.ofPositive text := by
  obtain ⟨c, rest, rfl, notMinus⟩ := run_head run ne
  have plain : Operand.ofToken (c :: rest) = Operand.ofPositive (c :: rest) := by
    simp [Operand.ofToken]
  cases minus with
  | true => simp [signed, Operand.ofToken, plain]
  | false => simpa [signed] using plain

/-- The form of an operand is that of its atom, after its minus. -/
theorem ofToken_signed {a : Atom} (minus : Bool) (h : a.Plain) :
    Operand.ofToken (signed minus a.render) =
      if minus then .negative a.operand else a.operand := by
  rw [ofToken_run minus (Atom.render_run h) a.render_ne, Atom.ofPositive_render h]

theorem parseLiteral_numeral (n : Numeral) :
    parseLiteral n.text = .ok (.ofNumeral false n.text) := by
  obtain ⟨c, rest, same⟩ := List.exists_cons_of_ne_nil n.text_ne
  have notMinus := (isNumeralSymbol_value (n.symbols c (by simp [same]))).2.2.2.2
  have unsigned : (n.text.head? == some '-') = false := by simp [same, notMinus]
  simp only [parseLiteral, unsigned, Bool.false_eq_true, if_false, n.valid, if_true]

/-! ## Arguments -/

theorem splitArgumentsFrom_argument {depth : Nat} {text : List Char} (piece rest : List Char)
    (h : isArgument depth text = true) :
    splitArgumentsFrom piece depth (text ++ rest) =
      splitArgumentsFrom (text.reverse ++ piece) 0 rest := by
  induction text generalizing depth piece with
  | nil =>
    simp only [isArgument, spanned, beq_iff_eq] at h
    rw [h]; rfl
  | cons c text ih =>
    simp only [isArgument, spanned] at h
    simp only [List.cons_append, splitArgumentsFrom, List.reverse_cons, List.append_assoc]
    split at h
    · rename_i isOpen
      rw [if_pos isOpen]
      exact ih (c :: piece) h
    · rename_i notOpen
      rw [if_neg notOpen]
      split at h
      · rename_i isClose
        simp only [Bool.and_eq_true, bne_iff_ne, ne_eq] at h
        have less : (depth : Int) - 1 = ((depth - 1 : Nat) : Int) := by omega
        rw [if_pos isClose, less]
        exact ih (c :: piece) h.2
      · rename_i notClose
        simp only [Bool.and_eq_true, Bool.or_eq_true, bne_iff_ne, ne_eq] at h
        have noCut : (c == ',' && (depth : Int) == 0) = false := by
          rw [Bool.and_eq_false_iff]
          rcases h.1 with inside | notComma
          · right; simpa using inside
          · left; simpa using notComma
        rw [if_neg notClose, noCut]
        exact ih (c :: piece) h.2

theorem splitArgumentsFrom_commaSeparated {text : List Char} {rest : List (List Char)}
    (h : ∀ t ∈ text :: rest, isArgument 0 t = true) :
    splitArgumentsFrom [] 0 (commaSeparated (text :: rest)) = text :: rest := by
  induction rest generalizing text with
  | nil =>
    have read := splitArgumentsFrom_argument [] [] (h text (by simp))
    simpa [commaSeparated, splitArgumentsFrom] using read
  | cons next rest ih =>
    obtain ⟨first, later⟩ := List.forall_mem_cons.mp h
    have read := splitArgumentsFrom_argument [] (',' :: commaSeparated (next :: rest)) first
    have cut (piece : List Char) : splitArgumentsFrom piece 0 (',' :: commaSeparated (next :: rest)) =
        piece.reverse :: splitArgumentsFrom [] 0 (commaSeparated (next :: rest)) := rfl
    rw [commaSeparated_cons]
    refine Eq.trans read ?_
    rw [cut, ih later]
    simp

/-- Texts whose last character belongs to a value. -/
def EndsInValue (text : List Char) : Prop :=
  ∃ before c, text = before ++ [c] ∧ isValueSymbol c = true

theorem EndsInValue.append {text : List Char} (before : List Char) (h : EndsInValue text) :
    EndsInValue (before ++ text) := by
  obtain ⟨start, c, rfl, value⟩ := h
  exact ⟨before ++ start, c, by simp, value⟩

theorem signed_ends {a : Atom} (minus : Bool) (h : a.Plain) :
    EndsInValue (signed minus a.render) := by
  have ends : EndsInValue a.render := by
    have run := Atom.render_run h
    obtain ⟨before, c, same⟩ : ∃ before c, a.render = before ++ [c] :=
      ⟨_, _, (List.dropLast_concat_getLast a.render_ne).symm⟩
    rw [same] at run
    refine ⟨before, c, same, ?_⟩
    rcases spanned_last run with rfl | value
    · rfl
    · exact value
  cases minus with
  | true => exact ends.append ['-']
  | false => exact ends

theorem Operations.render_ends : ∀ o : Operations, o.Plain → ∀ text : List Char,
    EndsInValue text → EndsInValue (text ++ o.render)
  | .nil, _, text, ends => by
    rw [Operations.render, List.append_nil]
    exact ends
  | .cons symbol minus operand rest, h, text, _ => by
    have regroup : text ++ (Operations.cons symbol minus operand rest).render =
        (text ++ ' ' :: (symbol.text ++ ' ' :: signed minus operand.render)) ++ rest.render := by
      simp [Operations.render]
    rw [regroup]
    refine rest.render_ends h.2 _ ?_
    have cut : text ++ ' ' :: (symbol.text ++ ' ' :: signed minus operand.render) =
        (text ++ ' ' :: (symbol.text ++ [' '])) ++ signed minus operand.render := by simp
    rw [cut]
    exact (signed_ends minus h.1).append _

theorem Tree.render_ends {t : Tree} (h : t.Plain) : EndsInValue t.render := by
  cases t with
  | chain minus first rest => exact rest.render_ends h.2 _ (signed_ends minus h.1)

theorem EndsInValue.filled {text : List Char} (h : EndsInValue text) : ¬ Blank text := by
  obtain ⟨before, c, rfl, value⟩ := h
  intro blank
  have notBlank := isBlank_of_isValueSymbol value
  rw [blank c (by simp)] at notBlank
  cases notBlank

theorem Arguments.texts_ends : ∀ a : Arguments, a.Plain → ∀ text ∈ a.texts, EndsInValue text
  | .nil, _ => nofun
  | .cons _ rest, h => List.forall_mem_cons.mpr ⟨Tree.render_ends h.1, rest.texts_ends h.2⟩

theorem commaSeparated_last {texts : List (List Char)} {last : List Char}
    (h : texts.getLast? = some last) : ∃ before, commaSeparated texts = before ++ last := by
  induction texts with
  | nil => cases h
  | cons text rest ih =>
    cases rest with
    | nil => cases h; exact ⟨[], rfl⟩
    | cons next rest =>
      obtain ⟨before, same⟩ := ih (by simpa using h)
      exact ⟨text ++ ',' :: before, by rw [commaSeparated_cons, same]; simp⟩

/-- No comma stands after everything else in an argument. -/
theorem argument_trailing {text : List Char} (h : isArgument 0 text = true) :
    (trimRight text).getLast? ≠ some ',' := by
  intro trailing
  obtain ⟨before, same⟩ := List.getLast?_eq_some_iff.mp trailing
  obtain ⟨gap, blank, cut⟩ := trimRight_split text
  rw [same, List.append_assoc, List.singleton_append] at cut
  subst cut
  have kept (depth : Nat) : depthAfter depth (',' :: gap) = some depth := by
    refine depthAfter_plain depth fun c mem => ?_
    rcases List.mem_cons.mp mem with rfl | later
    · exact ⟨by decide, by decide⟩
    · have white := blank c later
      constructor
      · rintro rfl; cases white
      · rintro rfl; cases white
  have balanced : depthAfter 0 before = some 0 := by
    have whole := spanned_depthAfter h
    rw [depthAfter_append] at whole
    obtain ⟨depth, start, rest⟩ := Option.bind_eq_some_iff.mp whole
    rw [kept] at rest
    rw [start, rest]
  have outside := spanned_outside h balanced (by decide) (by decide)
  cases outside

/-- Arguments of which the last is not blank are split where they were put together. -/
theorem splitArguments_commaSeparated {texts : List (List Char)} {last : List Char}
    (arguments : ∀ text ∈ texts, isArgument 0 text = true) (ends : texts.getLast? = some last)
    (filled : ¬ Blank last) : splitArguments (commaSeparated texts) = .ok texts := by
  obtain ⟨before, written⟩ := commaSeparated_last ends
  obtain ⟨trimmed, remains⟩ := trimRight_append before filled
  have written_filled : (commaSeparated texts).all isBlank = false := by
    rw [← Bool.not_eq_true, all_isBlank, written, blank_append]
    exact fun blank => filled blank.2
  have trailing : ((trimRight (commaSeparated texts)).getLast? == some ',') = false := by
    rw [written, trimmed, List.getLast?_append,
      Option.or_of_isSome (List.getLast?_isSome.mpr remains), beq_eq_false_iff_ne]
    exact argument_trailing (arguments last (List.mem_of_getLast? ends))
  cases texts with
  | nil => cases ends
  | cons text rest =>
    rw [splitArguments, written_filled, trailing, splitArgumentsFrom_commaSeparated arguments]
    rfl

/-- Rendered arguments are split where they were put together. -/
theorem splitArguments_render {a : Arguments} (h : a.Plain) :
    splitArguments (commaSeparated a.texts) = .ok a.texts := by
  cases ends : a.texts.getLast? with
  | none => rw [List.getLast?_eq_none_iff.mp ends]; rfl
  | some last =>
    have filled := (a.texts_ends h last (List.mem_of_getLast? ends)).filled
    exact splitArguments_commaSeparated (textsArguments_argument a h) ends filled

/-! ## Names as operands -/

section

variable {setting : Setting} {family : Family} {id : EnvId}

/-- The name of a variable is no product. -/
theorem wordValue_name (name : Name .variableName) :
    Evaluation.wordValue setting family id name.text =
      Evaluation.variableValue setting family id (String.ofList name.text) := by
  obtain ⟨c, rest, same, notFactor⟩ := head_not_factor name.valid
  have plain : ((name.text.head?.map Evaluation.isFactorSymbol).getD false) = false := by
    simp [same, notFactor]
  simp only [Evaluation.wordValue, plain, Bool.and_false, Bool.false_eq_true, if_false]

/-- Nor is a call of a function by its name. -/
theorem callValue_name (inner : Evaluation.Inner) (name : Name .functionName)
    (arguments : List Char) :
    Evaluation.callValue setting inner family id name.text arguments =
      match family.lookup id .functions (String.ofList name.text) with
      | none => throw (.undefined .functions (String.ofList name.text))
      | some f =>
        match splitArguments arguments with
        | .error form => throw (.malformed form)
        | .ok texts => (do
          let values ← Evaluation.evaluateAll inner family id texts
          Evaluation.reportEvent setting fun _ => .call (String.ofList name.text) values
          Evaluation.within (String.ofList name.text)
            (Evaluation.callFunction inner family id values f)) := by
  obtain ⟨c, rest, same, notFactor⟩ := head_not_factor name.valid
  have plain : name.text.all Evaluation.isFactorSymbol = false := by simp [same, notFactor]
  unfold Evaluation.callValue
  exact if_neg (by rw [plain, Bool.and_false]; exact Bool.false_ne_true)

end

end Calculator
