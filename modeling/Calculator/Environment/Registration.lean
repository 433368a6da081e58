import Calculator.Environment.Family
import Calculator.Environment.Name

/-!
# Calculator.Environment.Registration

Registering variables, functions and operators in an environment. What is offered is checked first,
and a refusal leaves the family as it was.
-/

namespace Calculator

/-- What is offered for registration: nothing, which removes what is there; something of the right
kind; or something of another kind, whose name is known. -/
inductive Offer (α : Type) where
  | nothing
  | given (a : α)
  | unfit (kind : String)
  deriving DecidableEq, Repr

/-- What is offered as the value of a variable. -/
inductive Assignment where
  | nothing
  | variable (v : Variable)
  | number (value : Decimal)
  | text (shown : String)
  deriving DecidableEq, Repr

/-- The variable that is offered, unless nothing is. -/
def Assignment.toVariable : Assignment → Except Refusal (Option Variable)
  | nothing => .ok none
  | .variable v => .ok (some v)
  | number value => (Variable.ofDecimal value).map some
  | text shown => (Variable.ofText shown).map some

namespace Family

/-- Stores a value under a checked name, or removes what is there. -/
def register (family : Family) (id : EnvId) (kind : Kind) (key : String) :
    Option kind.Value → Family
  | none => family.discard id kind key
  | some value => family.store id kind key value

def setVariable (family : Family) (id : EnvId) (given : Option String) (value : Assignment) :
    Except Refusal Family :=
  match validateName .variableName given with
  | .error refusal => .error refusal
  | .ok key =>
    match value.toVariable with
    | .error refusal => .error refusal
    | .ok v => .ok (family.register id .vars key v)

def setFunction (family : Family) (id : EnvId) (given : Option String) (f : Offer Function) :
    Except Refusal Family :=
  match validateName .functionName given with
  | .error refusal => .error refusal
  | .ok key =>
    match f with
    | .nothing => .ok (family.register id .functions key none)
    | .given f => .ok (family.register id .functions key (some f))
    | .unfit kind => .error (.noFunction key kind)

/-- The precedence that an operator is registered with. -/
def precedenceFor (symbol : String) (op : Operation) (precedence : Offer Int) :
    Except Refusal Nat :=
  let chosen := match precedence with
    | .nothing => some op.precedence
    | .given n => some n
    | .unfit _ => none
  match chosen with
  | some (.ofNat n) => .ok n
  | _ => .error (.precedence symbol)

/-- Sets or removes an operator. Its precedence, when none is given, is that of the operation. -/
def setOperation (family : Family) (id : EnvId) (given : Option String) (op : Offer Operation)
    (precedence : Offer Int) : Except Refusal Family :=
  match validateSymbol given with
  | .error refusal => .error refusal
  | .ok symbol =>
    match op with
    | .nothing => .ok (family.register id .operators symbol none)
    | .unfit kind => .error (.noOperation symbol kind)
    | .given op =>
      match precedenceFor symbol op precedence with
      | .error refusal => .error refusal
      | .ok n => .ok (family.register id .operators symbol (some ⟨symbol, op, n⟩))

/-- Sets the decimal context, which has to be there. -/
def setContext (family : Family) (id : EnvId) : Option Context → Except Refusal Family
  | none => .error .absentContext
  | some ctx => .ok (family.modifyOptions id fun options => { options with context := ctx })

/-- Assigns what is offered as the decimal context. -/
def assignContext (family : Family) (id : EnvId) : Offer Context → Except Refusal Family
  | .nothing => family.setContext id none
  | .given ctx => family.setContext id (some ctx)
  | .unfit kind => .error (.noContext kind)

/-- Carries out changes one after another, up to the first that is refused. -/
def applyAll (family : Family) : List (Family → Except Refusal Family) → Family × Option Refusal
  | [] => (family, none)
  | change :: rest =>
    match change family with
    | .error refusal => (family, some refusal)
    | .ok family => family.applyAll rest

end Family
end Calculator
