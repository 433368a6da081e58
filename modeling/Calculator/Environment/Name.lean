import Calculator.Error
import Calculator.Text.Blank
import Calculator.Text.Digit
import Calculator.Text.Letter

/-!
# Calculator.Environment.Name

Which names may be given to variables, functions and parameters, and which symbols to operators.
White space around a name is not part of it.
-/

namespace Calculator

/-- Whether a character may stand in a name. -/
def isNameSymbol (c : Char) : Bool := isAsciiDigit c || c == '.' || c == '_' || isLetter c

/-- Whether names of a role may hold round brackets. -/
def Role.allowsBrackets : Role → Bool
  | functionName => true
  | _ => false

/-- What is wrong with a trimmed name, if anything is. -/
def nameProblem? (role : Role) (name : List Char) : Option NameProblem :=
  match name with
  | [] => some .empty
  | first :: _ =>
    let isBracket (c : Char) : Bool := c == '(' || c == ')'
    if isAsciiDigit first || first == '.' then some .numericStart
    else if !role.allowsBrackets && name.any isBracket then some .bracket
    else if name.all fun c => isNameSymbol c || (role.allowsBrackets && isBracket c) then none
    else some .character

/-- The name that is given to a variable, function or parameter. -/
def validateName (role : Role) : Option String → Except Refusal String
  | none => .error (.name role .absent)
  | some given =>
    let name := trim given.toList
    match nameProblem? role name with
    | some problem => .error (.name role problem)
    | none => .ok (String.ofList name)

/-- What is wrong with one character of an operator symbol, if anything is. -/
def symbolProblemOf? (c : Char) : Option SymbolProblem :=
  if isAsciiDigit c || c == '.' then some .numeric
  else if c == '_' then some .underscore
  else if isLetter c then some .letter
  else if isBlank c then some .blank
  else none

/-- The symbol that is given to an operator. -/
def validateSymbol : Option String → Except Refusal String
  | none => .error (.symbol .absent)
  | some given =>
    let symbol := trim given.toList
    if symbol.isEmpty then .error (.symbol .empty)
    else
      match symbol.findSome? symbolProblemOf? with
      | some problem => .error (.symbol problem)
      | none => .ok (String.ofList symbol)

end Calculator
