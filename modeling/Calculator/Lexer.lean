import Calculator.Decimal.Text
import Calculator.Error
import Calculator.Text.Letter

/-!
# Calculator.Lexer

The tokens of an expression: values and operator symbols in turn. A value is a run of letters,
digits, dots, underscores and bracketed spans, after an optional minus; a bracketed span is taken
whole, whatever it holds. An operator symbol is a run of other characters. White space may stand
before a token and after an operator symbol.
-/

namespace Calculator

/-- Whether a character belongs to values rather than operator symbols. -/
def isValueSymbol (c : Char) : Bool :=
  isAsciiDigit c || c == '.' || c == '_' || c == '(' || c == ')' || isLetter c

def isNumeralSymbol (c : Char) : Bool := isAsciiDigit c || c == '.'

/-- Whether a token consists of the characters of numerals alone. -/
def isNumeric (token : List Char) : Bool := !token.isEmpty && token.all isNumeralSymbol

namespace Lexer

/-- A token, and the text after it. -/
structure Scan where
  token : List Char
  rest : List Char
  deriving DecidableEq, Repr

/-- Reads the rest of a value. `acc` holds what was read, in reverse, and `depth` counts the open
brackets; white space is skipped until a character outside of brackets has been read. -/
def scanValue (acc : List Char) (skipping : Bool) (depth : Nat) :
    List Char → Except Malformation Scan
  | [] => if depth = 0 then .ok ⟨acc.reverse, []⟩ else .error .unmatchedOpen
  | c :: rest =>
    if c == '(' then scanValue (c :: acc) skipping (depth + 1) rest
    else if c == ')' then
      if depth = 0 then .error .unmatchedClose else scanValue (c :: acc) skipping (depth - 1) rest
    else if depth ≠ 0 then scanValue (c :: acc) skipping depth rest
    else if skipping && isBlank c then scanValue acc skipping depth rest
    else if (c == '-' && acc.isEmpty) || isValueSymbol c then scanValue (c :: acc) false depth rest
    else .ok ⟨acc.reverse, c :: rest⟩

def readValue (text : List Char) : Except Malformation Scan := scanValue [] true 0 text

/-- Reads the rest of an operator symbol. `acc` holds what was read, in reverse; `skipping` says
that nothing was, and `trailing` that white space was met after it. After white space only a value
may follow, or the minus of one. -/
def scanOperator (acc : List Char) (skipping trailing : Bool) :
    List Char → Except Malformation Scan
  | [] => .ok ⟨acc.reverse, []⟩
  | c :: rest =>
    if skipping && isBlank c then scanOperator acc skipping trailing rest
    else if isValueSymbol c then .ok ⟨acc.reverse, c :: rest⟩
    else if isBlank c then scanOperator acc false true rest
    else if trailing then
      if c == '-' then .ok ⟨acc.reverse, c :: rest⟩ else .error .brokenOperator
    else scanOperator (c :: acc) false trailing rest

def readOperator (text : List Char) : Except Malformation Scan := scanOperator [] true false text

/-- Reads a token at a place of a text, and gives it with the place just after it. -/
def readAt (read : List Char → Except Malformation Scan) (text : List Char) (start : Nat) :
    Except Malformation (List Char × Nat) :=
  let rest := text.drop start
  match read rest with
  | .error form => .error form
  | .ok scan => .ok (scan.token, start + (rest.length - scan.rest.length))

end Lexer

/-! ## Phrases -/

/-- What follows the first value of an expression: nothing; an operator symbol and a value, and
what follows those; or a place where no such thing can be read. When no value can be read after a
symbol, the symbol is kept, since it is looked up first. -/
inductive Continuation where
  | done
  | broken (form : Malformation)
  | brokenValue (symbol : List Char) (form : Malformation)
  | clause (symbol : List Char) (token : List Char) (next : Continuation)
  deriving DecidableEq, Repr

namespace Continuation

/-- Reads what follows a value. Each clause takes at least one character, so that as much `fuel`
as there are characters is enough. -/
def read : Nat → List Char → Continuation
  | 0, _ => done
  | fuel + 1, text =>
    if text.all isBlank then done
    else
      match Lexer.readOperator text with
      | .error form => broken form
      | .ok ⟨symbol, rest⟩ =>
        if rest.isEmpty then broken .missingRight
        else if symbol.isEmpty then broken .missingOperator
        else
          match Lexer.readValue rest with
          | .error form => brokenValue symbol form
          | .ok ⟨token, rest⟩ => clause symbol token (read fuel rest)

end Continuation

/-- An expression as its tokens. -/
structure Phrase where
  first : List Char
  rest : Continuation
  deriving DecidableEq, Repr

/-- Reads the tokens of an expression. -/
def Phrase.read (text : List Char) : Except Malformation Phrase :=
  match Lexer.readValue text with
  | .error form => .error form
  | .ok ⟨token, rest⟩ => .ok ⟨token, .read rest.length rest⟩

/-! ## Values -/

/-- The form of a value. -/
inductive Operand where
  | missing
  | negative (inner : Operand)
  | bracket (text : List Char)
  | call (name : List Char) (arguments : List Char)
  | numeral (token : List Char)
  | word (token : List Char)
  deriving DecidableEq, Repr

namespace Operand

/-- The form of a value that does not begin with a minus. -/
def ofPositive (token : List Char) : Operand :=
  let closed := token.getLast? == some ')'
  let name := token.takeWhile (· != '(')
  let inner := ((token.dropWhile (· != '(')).drop 1).dropLast
  if closed && token.head? == some '(' then bracket inner
  else if closed && name.length < token.length then call name inner
  else if isNumeric token then numeral token
  else word token

/-- The form of a value token. -/
def ofToken : List Char → Operand
  | [] => missing
  | '-' :: rest => negative (ofToken rest)
  | c :: rest => ofPositive (c :: rest)

end Operand

/-- The decimal of a numeral: digits with at most one dot, after an optional minus. -/
def parseLiteral (token : List Char) : Except Failure Decimal :=
  let negative := token.head? == some '-'
  let body := if negative then token.drop 1 else token
  if body.all isNumeralSymbol && body.any isAsciiDigit && body.count '.' ≤ 1 then
    .ok (.ofNumeral negative body)
  else .error (.ofCause (.literal (String.ofList token)))

/-! ## Arguments -/

/-- The pieces of a text between the commas that stand outside of brackets. `piece` holds what was
read of the current one, in reverse. -/
def splitArgumentsFrom (piece : List Char) (depth : Int) : List Char → List (List Char)
  | [] => [piece.reverse]
  | c :: rest =>
    if c == '(' then splitArgumentsFrom (c :: piece) (depth + 1) rest
    else if c == ')' then splitArgumentsFrom (c :: piece) (depth - 1) rest
    else if c == ',' && depth == 0 then piece.reverse :: splitArgumentsFrom [] depth rest
    else splitArgumentsFrom (c :: piece) depth rest

/-- The arguments of a call. -/
def splitArguments (text : List Char) : Except Malformation (List (List Char)) :=
  if text.all isBlank then .ok []
  else if (trimRight text).getLast? == some ',' then .error .trailingComma
  else .ok (splitArgumentsFrom [] 0 text)

end Calculator
