import Calculator.Environment.Name
import Calculator.Function
import Calculator.Text.Lines

/-!
# Calculator.Definition

Definitions as users write them: `name = expression` for a variable, `name(a,b) = expression` for a
function, and `name(a,b) = [condition][result] expression` for a function whose condition selects
another expression.
-/

namespace Calculator

inductive DefinitionProblem where
  | missingEquals
  | missingClose
  | unexpectedOpen
  | unexpectedClose
  | unexpected (c : Char)
  | missingName
  | missingParameter
  | missingBody
  | missingGuardClose
  | unexpectedGuardOpen
  | missingResult
  | refused (refusal : Refusal)
  /-- The value of a variable cannot be computed; the message says why. -/
  | unevaluated (message : String)
  | nativeFunction
  | nativeVariable
  deriving DecidableEq, Repr

namespace DefinitionProblem

/-- What is wrong, without saying that it concerns a definition. -/
def text : DefinitionProblem → String
  | missingEquals => "missing \"=\" in definition."
  | missingClose => "missing \")\" in function definition."
  | unexpectedOpen => "unexpected \"(\" in function definition."
  | unexpectedClose => "unexpected \")\" in function definition."
  | unexpected c => "unexpected \"" ++ String.ofList [c] ++ "\" in definition."
  | missingName => "missing variable/function name."
  | missingParameter => "no parameter name specified."
  | missingBody => "missing variable/function value."
  | missingGuardClose => "missing \"]\" in function condition."
  | unexpectedGuardOpen => "unexpected \"[\" in function condition."
  | missingResult => "missing return expression with condition."
  | refused refusal => refusal.message
  | unevaluated message => "unable to evaluate variable value. (" ++ message ++ ")"
  | nativeFunction => "unable to overwrite native function."
  | nativeVariable => "unable to overwrite native variable."

def message (problem : DefinitionProblem) : String := "define: " ++ problem.text

end DefinitionProblem

/-- The guard of a condition and the expression for it; a condition has to have one. -/
def Guard.create? (condition result : Option String) : Except DefinitionProblem (Option Guard) :=
  match condition, result with
  | none, _ => .ok none
  | some _, none => .error .missingResult
  | some condition, some result => .ok (some ⟨condition, result⟩)

structure Definition where
  name : String
  /-- The names of the parameters, which only functions have. -/
  parameters : Option (List String)
  guard : Option Guard
  body : String
  deriving DecidableEq, Repr

namespace Definition

def isFunction (d : Definition) : Bool := d.parameters.isSome

/-- The text before the first occurrence of a character and the text after it. -/
def cutAt (mark : Char) : List Char → Option (List Char × List Char)
  | [] => none
  | c :: rest =>
    if c == mark then some ([], rest)
    else (cutAt mark rest).map fun (before, after) => (c :: before, after)

/-- The part in square brackets at the beginning of a text, and the text after it, if the text
begins with such a part. -/
def readGuardPart : List Char → Except DefinitionProblem (Option (List Char × List Char))
  | '[' :: rest =>
    match cutAt ']' rest with
    | none => .error .missingGuardClose
    | some (inner, after) =>
      if inner.contains '[' then .error .unexpectedGuardOpen
      else .ok (some (trim inner, trimLeft after))
  | _ => .ok none

/-- The guard at the beginning of the body of a function, and the rest of the body. -/
def readGuard (body : List Char) : Except DefinitionProblem (Option Guard × List Char) :=
  match readGuardPart body with
  | .error problem => .error problem
  | .ok none => .ok (none, body)
  | .ok (some (condition, rest)) =>
    match readGuardPart rest with
    | .error problem => .error problem
    | .ok none => .error .missingResult
    | .ok (some (result, rest)) =>
      .ok (some ⟨String.ofList condition, String.ofList result⟩, rest)

/-- The name and the parameters before the equals sign, from which white space has been removed. -/
def readHead (head : List Char) :
    Except DefinitionProblem (List Char × Option (List (List Char))) :=
  match cutAt ')' head with
  | none =>
    if head.contains '(' then .error .missingClose
    else if head.contains ',' then .error (.unexpected ',')
    else .ok (head, none)
  | some (before, after) =>
    match cutAt '(' before with
    | none => .error .unexpectedClose
    | some (name, inner) =>
      if inner.contains '(' || after.contains '(' then .error .unexpectedOpen
      else
        match after with
        | c :: _ => .error (.unexpected c)
        | [] =>
          let parameters := if inner.isEmpty then [] else splitOnChar ',' inner
          if parameters.any (·.isEmpty) then .error .missingParameter
          else .ok (name, some parameters)

/-- Checks names of a role one after another. -/
def checkNames (role : Role) : List (List Char) → Except DefinitionProblem (List String)
  | [] => .ok []
  | name :: rest =>
    match validateName role (some (String.ofList name)) with
    | .error refusal => .error (.refused refusal)
    | .ok name =>
      match checkNames role rest with
      | .error problem => .error problem
      | .ok names => .ok (name :: names)

def parse (text : String) : Except DefinitionProblem Definition := do
  match cutAt '=' text.toList with
  | none => .error .missingEquals
  | some (head, body) =>
    let (name, parameters) ← readHead (head.filter fun c => !isBlank c)
    if name.isEmpty then .error .missingName
    let body := trim body
    let (guard, body) ← if parameters.isSome then readGuard body else .ok (none, body)
    if body.isEmpty then .error .missingBody
    let role := if parameters.isSome then Role.functionName else .variableName
    let _ ← checkNames role [name]
    let names ← checkNames .parameterName (parameters.getD [])
    return { name := String.ofList name
             parameters := if parameters.isSome then some names else none
             guard := guard
             body := String.ofList body }

/-- The function that a definition of a function defines. -/
def function (d : Definition) (parameters : List String) (scope : Option EnvId) : UserFunction :=
  ⟨d.name, parameters, d.body, d.guard, scope⟩

end Definition
end Calculator
