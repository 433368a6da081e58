import Calculator.Proofs.ExactPowers
import Calculator.Proofs.Interpreter
import Calculator.Proofs.Likeness
import Calculator.Proofs.RunnerTables
import Calculator.Proofs.Stored
import Mathlib.Data.List.Induction

/-!
# Calculator.Proofs.RationalValue

Arithmetic expressions: numerals, brackets, a minus before an operand, sums, differences, products,
quotients, remainders, and powers whose exponent is a numeral of a whole number. They denote
rational numbers, and in a context that traps inexact results their evaluation gives these and no
others.

Mathematical meaning: powers bind tighter than products, quotients and remainders, and these tighter
than sums and differences; operators of equal strength associate to the left. The remainder of `x`
and `y` is `x - y * trunc (x / y)`, and neither it nor a quotient exists when `y` is zero.

* `Arithmetic.value`: the rational number of an expression, if no divisor in it is zero.
* `decomposition_lexical`: the grammar writes the text of an expression.
* `chain_exact`: a chain of operators whose operands are resolved exactly is reduced exactly.
* `evaluate_unlimited`: evaluation in the unlimited context is exact.
-/

namespace Calculator

/-- The number that a numeral writes: its whole part and its fraction. -/
def Numeral.rational (n : Numeral) : ℚ :=
  let whole := n.text.takeWhile (· != '.')
  let fraction := (n.text.dropWhile (· != '.')).drop 1
  Decimal.digitsValue whole + Decimal.digitsValue fraction / 10 ^ fraction.length

/-- White space. -/
structure Blanks where
  text : List Char
  blank : Blank text

namespace Arithmetic

/-! ## Expressions -/

inductive Operator where
  | add
  | subtract
  | multiply
  | divide
  | remainder
  deriving DecidableEq, Repr

namespace Operator

def symbol : Operator → Char
  | add => '+'
  | subtract => '-'
  | multiply => '*'
  | divide => '/'
  | remainder => '%'

/-- How tight the operator binds. -/
def level : Operator → Nat
  | add | subtract => 1
  | multiply | divide | remainder => 2

def apply : Operator → Context → Decimal → Decimal → Except Fault Decimal
  | add, ctx, a, b => a.add ctx b
  | subtract, ctx, a, b => a.subtract ctx b
  | multiply, ctx, a, b => a.multiply ctx b
  | divide, ctx, a, b => a.divide ctx b
  | remainder, ctx, a, b => a.remainder ctx b

/-- What the operator gives for rational numbers. -/
def rational : Operator → ℚ → ℚ → Option ℚ
  | add, x, y => some (x + y)
  | subtract, x, y => some (x - y)
  | multiply, x, y => some (x * y)
  | divide, x, y => if y = 0 then none else some (x / y)
  | remainder, x, y => if y = 0 then none else some (x - y * Decimal.truncate (x / y))

end Operator

mutual

/-- Operands with operators between them, all of which bind at least as tight as the level. The
index `minus` says whether the first operand has a minus: after an operator, white space has to
stand before it. -/
inductive Chain : (level : Nat) → (minus : Bool) → Type where
  | operand (minus : Bool) (factor : Factor) : Chain 3 minus
  | power {minus : Bool} (base : Chain 3 minus) (gap space : Blanks) (literal : Numeral)
      (exponent : Nat) (whole : literal.rational = exponent) : Chain 3 minus
  | operation {level : Nat} {minus minus' : Bool} (left : Chain level minus) (gap : Blanks)
      (operator : Operator) (fits : operator.level = level) (space : Blanks)
      (right : Chain (level + 1) minus') (spaced : minus' = true → space.text ≠ []) :
      Chain level minus
  | tighter {level : Nat} {minus : Bool} (chain : Chain (level + 1) minus) : Chain level minus

inductive Factor : Type where
  | numeral (n : Numeral)
  | bracket {minus : Bool} (lead : Blanks) (inner : Chain 1 minus) (trail : Blanks)

end

mutual

def Chain.text {level : Nat} {minus : Bool} : Chain level minus → List Char
  | .operand minus factor => signed minus factor.text
  | .power base gap space literal _ _ =>
    base.text ++ (gap.text ++ '^' :: (space.text ++ literal.text))
  | .operation left gap operator _ space right _ =>
    left.text ++ (gap.text ++ operator.symbol :: (space.text ++ right.text))
  | .tighter chain => chain.text

def Factor.text : Factor → List Char
  | .numeral n => n.text
  | .bracket lead inner trail => '(' :: (lead.text ++ (inner.text ++ trail.text) ++ [')'])

end

mutual

/-- The rational number of a chain, if no divisor in it is zero. -/
def Chain.value {level : Nat} {minus : Bool} : Chain level minus → Option ℚ
  | .operand minus factor => factor.value.map fun q => if minus then -q else q
  | .power base _ _ _ exponent _ => base.value.map (· ^ exponent)
  | .operation left _ operator _ _ right _ =>
    match left.value, right.value with
    | some x, some y => operator.rational x y
    | _, _ => none
  | .tighter chain => chain.value

def Factor.value : Factor → Option ℚ
  | .numeral n => some n.rational
  | .bracket _ inner _ => inner.value

end

end Arithmetic

/-- An arithmetic expression, with white space around it. -/
structure Arithmetic where
  lead : Blanks
  minus : Bool
  chain : Arithmetic.Chain 1 minus
  trail : Blanks

namespace Arithmetic

def text (e : Arithmetic) : List Char := e.lead.text ++ (e.chain.text ++ e.trail.text)

/-- The rational number of an expression, if no divisor in it is zero. -/
def value (e : Arithmetic) : Option ℚ := e.chain.value

/-! ## Expressions as tokens -/

namespace Chain

/-- The first operand of a chain. -/
def first {level : Nat} {minus : Bool} : Chain level minus → List Char
  | .operand minus factor => signed minus factor.text
  | .power base _ _ _ _ _ => base.first
  | .operation left _ _ _ _ _ _ => left.first
  | .tighter chain => chain.first

/-- The operators of a chain with the operands at their right. -/
def segments {level : Nat} {minus : Bool} : Chain level minus → List Segment
  | .operand _ _ => []
  | .power base gap space literal _ _ =>
    base.segments ++ [⟨gap.text, ['^'], space.text, literal.text⟩]
  | .operation left gap operator _ space right _ =>
    left.segments ++ ⟨gap.text, [operator.symbol], space.text, right.first⟩ :: right.segments
  | .tighter chain => chain.segments

theorem textOf_segments {level : Nat} {minus : Bool} : ∀ (chain : Chain level minus)
    (more : List Segment) (trail : List Char),
    chain.first ++ Decomposition.textOf (chain.segments ++ more) trail =
      chain.text ++ Decomposition.textOf more trail
  | .operand minus factor, more, trail => by
    rw [first, segments, Chain.text]
    rfl
  | .power base gap space literal exponent whole, more, trail => by
    rw [first, segments, List.append_assoc, textOf_segments base, Chain.text]
    simp [Decomposition.textOf, Segment.before]
  | .operation left gap operator fits space right spaced, more, trail => by
    have after := textOf_segments right more trail
    rw [first, segments, List.append_assoc, textOf_segments left, Chain.text]
    simp only [Decomposition.textOf, List.cons_append, List.foldr_cons, Segment.before] at after ⊢
    rw [after]
    simp
  | .tighter chain, more, trail => by
    rw [first, segments, Chain.text]
    exact textOf_segments chain more trail

end Chain

def decomposition (e : Arithmetic) : Decomposition :=
  ⟨e.lead.text, e.chain.first, e.chain.segments, e.trail.text⟩

theorem decomposition_text (e : Arithmetic) : e.decomposition.text = e.text := by
  have whole := e.chain.textOf_segments [] e.trail.text
  rw [List.append_nil] at whole
  rw [decomposition, Decomposition.text, whole]
  rfl

theorem Operator.isSymbol (operator : Operator) : IsSymbol [operator.symbol] := by
  intro c mem
  rw [List.mem_singleton.mp mem]
  cases operator <;> decide +kernel

/-- The operands of a chain are tokens, and the first has a minus just if the chain says so. -/
structure Chain.Tokens {level : Nat} {minus : Bool} (chain : Chain level minus) : Prop where
  first : isToken chain.first = true
  minus : chain.first.head? = some '-' → minus = true
  segments : ∀ g ∈ chain.segments, g.Lexical

theorem lexical_of_tokens {e : Arithmetic} (h : e.chain.Tokens) : e.decomposition.Lexical :=
  ⟨e.lead.blank, h.first, h.segments, e.trail.blank⟩

theorem numeral_segment {gap space : Blanks} (literal : Numeral) :
    Segment.Lexical ⟨gap.text, ['^'], space.text, literal.text⟩ where
  gap := gap.blank
  symbol := by
    intro c mem
    rw [List.mem_singleton.mp mem]
    decide +kernel
  symbol_ne := List.cons_ne_nil '^' []
  space := space.blank
  token := run_token false literal.run literal.text_ne
  minus := by
    intro begins
    obtain ⟨c, rest, same, notMinus⟩ := run_head literal.run literal.text_ne
    rw [same, List.head?_cons, Option.some.injEq] at begins
    exact absurd begins notMinus

mutual

theorem Chain.tokens {level : Nat} {minus : Bool} : ∀ chain : Chain level minus, chain.Tokens
  | .operand minus factor => by
    obtain ⟨run, ne⟩ := Factor.run factor
    refine ⟨run_token minus run ne, ?_, nofun⟩
    intro begins
    cases minus with
    | true => rfl
    | false =>
      obtain ⟨c, rest, same, notMinus⟩ := run_head run ne
      rw [Chain.first, signed, if_neg (by decide), same, List.head?_cons, Option.some.injEq]
        at begins
      exact absurd begins notMinus
  | .power base gap space literal exponent whole => by
    have h := Chain.tokens base
    refine ⟨h.first, h.minus, ?_⟩
    intro g mem
    rcases List.mem_append.mp mem with before | last
    · exact h.segments g before
    · rw [List.mem_singleton.mp last]
      exact numeral_segment literal
  | .operation left gap operator fits space right spaced => by
    have hl := Chain.tokens left
    have hr := Chain.tokens right
    refine ⟨hl.first, hl.minus, ?_⟩
    intro g mem
    rcases List.mem_append.mp mem with before | after
    · exact hl.segments g before
    · rcases List.mem_cons.mp after with rfl | later
      · exact ⟨gap.blank, operator.isSymbol, List.cons_ne_nil _ _, space.blank, hr.first,
          fun begins => spaced (hr.minus begins)⟩
      · exact hr.segments g later
  | .tighter chain => by
    have h := Chain.tokens chain
    exact ⟨h.first, h.minus, h.segments⟩

theorem Factor.run : ∀ factor : Factor, isRun 0 factor.text = true ∧ factor.text ≠ []
  | .numeral n => ⟨n.run, n.text_ne⟩
  | .bracket lead inner trail => by
    have tokens := Chain.tokens inner
    have read := read_lexical (lexical_of_tokens (e := ⟨lead, _, inner, trail⟩) tokens)
    have balanced := phrase_depthAfter read
    rw [decomposition_text] at balanced
    exact ⟨bracket_run balanced, List.cons_ne_nil _ _⟩

end

theorem decomposition_lexical (e : Arithmetic) : e.decomposition.Lexical :=
  lexical_of_tokens e.chain.tokens

end Arithmetic

/-! ## Operators and numerals -/

theorem Decimal.digitsValue_append (whole fraction : List Char) :
    digitsValue (whole ++ fraction) =
      digitsValue whole * 10 ^ fraction.length + digitsValue fraction := by
  induction fraction using List.reverseRecOn with
  | nil => simp [digitsValue]
  | append_singleton before c ih =>
    rw [← List.append_assoc, digitsValue_append_one, digitsValue_append_one, ih,
      List.length_append, List.length_singleton, Nat.pow_succ]
    ring

theorem Numeral.rational_ofNumeral (n : Numeral) :
    (Decimal.ofNumeral false n.text).rational? = some n.rational := by
  simp only [Decimal.ofNumeral, Decimal.rational?, Numeral.rational, Option.some.injEq]
  generalize n.text.takeWhile (· != '.') = whole
  generalize (n.text.dropWhile (· != '.')).drop 1 = fraction
  have ten : (10 : ℚ) ^ fraction.length ≠ 0 := pow_ne_zero _ (by norm_num)
  rw [Decimal.digitsValue_append, Decimal.scaled, zpow_neg, zpow_natCast]
  simp only [Decimal.signed, Bool.false_eq_true, if_false]
  push_cast
  field_simp

theorem faultToFailure_eq_ok {α : Type} {x : Except Fault α} {a : α}
    (h : faultToFailure x = .ok a) : x = .ok a := by
  cases x with
  | error fault => cases h
  | ok b => cases h; rfl

namespace Arithmetic.Operator

theorem exact {operator : Operator} {ctx : Context} {a b v : Decimal} {p q : ℚ}
    (traps : ctx.trapsInexact = true) (ha : a.rational? = some p) (hb : b.rational? = some q)
    (h : operator.apply ctx a b = .ok v) :
    ∃ r, operator.rational p q = some r ∧ v.rational? = some r := by
  cases operator with
  | add => exact ⟨p + q, rfl, Decimal.add_exact traps ha hb h⟩
  | subtract => exact ⟨p - q, rfl, Decimal.subtract_exact traps ha hb h⟩
  | multiply => exact ⟨p * q, rfl, Decimal.multiply_exact traps ha hb h⟩
  | divide =>
    obtain ⟨nonzero, value⟩ := Decimal.divide_exact traps ha hb h
    exact ⟨p / q, if_neg nonzero, value⟩
  | remainder =>
    obtain ⟨nonzero, value⟩ := Decimal.remainder_exact traps ha hb h
    exact ⟨p - q * Decimal.truncate (p / q), if_neg nonzero, value⟩

theorem standard (operator : Operator) : ∃ name,
    Operators.standard (String.ofList [operator.symbol]) operator.level name operator.apply ∈
      Operators.all := by
  cases operator with
  | add => exact ⟨"add", List.mem_of_getElem? (i := 0) rfl⟩
  | subtract => exact ⟨"sub", List.mem_of_getElem? (i := 1) rfl⟩
  | multiply => exact ⟨"mul", List.mem_of_getElem? (i := 2) rfl⟩
  | divide => exact ⟨"div", List.mem_of_getElem? (i := 3) rfl⟩
  | remainder => exact ⟨"rem", List.mem_of_getElem? (i := 4) rfl⟩

end Arithmetic.Operator

theorem standard_power :
    Operators.standard (String.ofList ['^']) 3 "pow" Operators.power ∈ Operators.all :=
  List.mem_of_getElem? (i := 5) rfl

/-! ## Evaluation -/

namespace Evaluation

open Arithmetic

/-- The operators of the standard library are those of the environment, and its context traps
inexact results. -/
structure Unrounded (family : Family) (id : EnvId) : Prop where
  operators : ∀ binding ∈ Operators.all,
    family.lookup id .operators binding.symbol = some binding
  traps : (family.options id).context.trapsInexact = true

/-- Inner expressions are evaluated exactly. -/
def InnerExact (inner : Inner) (family : Family) (id : EnvId) : Prop :=
  ∀ (e : Arithmetic) {v : Decimal} {s s' : Session}, inner family id e.text s = .ok v s' →
    ∃ q, e.value = some q ∧ v.rational? = some q

section

variable {setting : Setting} {inner : Inner} {family : Family} {id : EnvId}

theorem readClauses_append {a b : List (List Char × List Char)} {cs : List Clause} {s s' : Session}
    (h : readClauses setting inner family id (a ++ b) s = .ok cs s') :
    ∃ before after s₁, cs = before ++ after ∧
      readClauses setting inner family id a s = .ok before s₁ ∧
      readClauses setting inner family id b s₁ = .ok after s' := by
  induction a generalizing cs s with
  | nil => exact ⟨[], cs, s, rfl, rfl, h⟩
  | cons p a ih =>
    obtain ⟨symbol, token⟩ := p
    rw [List.cons_append, readClauses] at h
    obtain ⟨operator, s₁, found, h⟩ := bind_eq_ok.mp h
    obtain ⟨value, s₂, resolved, h⟩ := bind_eq_ok.mp h
    obtain ⟨rest, s₃, later, h⟩ := bind_eq_ok.mp h
    cases h
    obtain ⟨before, after, s₄, rfl, first, second⟩ := ih later
    refine ⟨⟨operator, value⟩ :: before, after, s₄, rfl, ?_, second⟩
    exact bind_eq_ok.mpr ⟨operator, s₁, found, bind_eq_ok.mpr ⟨value, s₂, resolved,
      bind_eq_ok.mpr ⟨before, s₄, first, rfl⟩⟩⟩

theorem operand_exact (hinner : InnerExact inner family id) {minus : Bool} {factor : Factor}
    {v : Decimal} {s s' : Session}
    (h : tokenValue setting inner family id (signed minus factor.text) s = .ok v s') :
    ∃ q, (Chain.operand minus factor).value = some q ∧ v.rational? = some q := by
  obtain ⟨run, ne⟩ := factor.run
  have positive {v : Decimal} {s s' : Session}
      (h : operandValue setting inner family id (.ofPositive factor.text) s = .ok v s') :
      ∃ q, factor.value = some q ∧ v.rational? = some q := by
    cases factor with
    | numeral n =>
      rw [Factor.text, ofPositive_numeral, operandValue, parseLiteral_numeral] at h
      cases h
      exact ⟨n.rational, rfl, n.rational_ofNumeral⟩
    | bracket lead chain trail =>
      rw [Factor.text, ofPositive_bracket, operandValue] at h
      exact hinner ⟨lead, _, chain, trail⟩ h
  rw [tokenValue, ofToken_run minus run ne] at h
  rw [Chain.value]
  cases minus with
  | false =>
    obtain ⟨q, value, same⟩ := positive h
    exact ⟨q, by rw [value]; rfl, same⟩
  | true =>
    rw [if_pos rfl, operandValue] at h
    obtain ⟨w, s₁, inside, h⟩ := bind_eq_ok.mp h
    cases h
    obtain ⟨q, value, same⟩ := positive inside
    exact ⟨-q, by rw [value]; rfl, Decimal.negate_rational same⟩

/-- Clauses that end with a certain operator: those before it, and its own. -/
theorem readClauses_operator {binding : Binding} {symbol token : List Char}
    {a b : List (List Char × List Char)} {cs : List Clause} {s s' : Session}
    (found : family.lookup id .operators (String.ofList symbol) = some binding)
    (h : readClauses setting inner family id (a ++ (symbol, token) :: b) s = .ok cs s') :
    ∃ before value after s₁ s₂, cs = before ++ ⟨binding, value⟩ :: after ∧
      readClauses setting inner family id a s = .ok before s₁ ∧
      tokenValue setting inner family id token s₁ = .ok value s₂ ∧
      readClauses setting inner family id b s₂ = .ok after s' := by
  obtain ⟨before, rest, s₁, rfl, first, h⟩ := readClauses_append h
  rw [readClauses] at h
  obtain ⟨operator, s₂, operated, h⟩ := bind_eq_ok.mp h
  obtain ⟨value, s₃, resolved, h⟩ := bind_eq_ok.mp h
  obtain ⟨after, s₄, later, h⟩ := bind_eq_ok.mp h
  obtain ⟨same, rfl⟩ := operatorOf_eq_ok.mp operated
  rw [found] at same
  cases same
  cases h
  exact ⟨before, value, after, s₂, s₃, rfl, first, resolved, later⟩

/-- The value of a chain comes from the values at the two sides of its root. -/
theorem chainValue_root {ctx : Context} {first v : Decimal} {before after : List Clause}
    {c : Clause} {level : Nat} (h : chainValue ctx first (before ++ c :: after) = some v)
    (root : c.precedence = level) (hb : ∀ d ∈ before, level ≤ d.precedence)
    (ha : ∀ d ∈ after, level < d.precedence) :
    ∃ x y, chainValue ctx first before = some x ∧ chainValue ctx c.value after = some y ∧
      c.operator.operation.apply ctx x y = .ok v := by
  subst root
  rw [chainValue_split hb ha] at h
  split at h
  · rename_i x y left right
    refine ⟨x, y, left, right, ?_⟩
    cases run : c.operator.operation.apply ctx x y with
    | error failure =>
      rw [run] at h
      cases h
    | ok w =>
      rw [run] at h
      cases h
      rfl
  · cases h

/-- Clauses that bind as tight as a level, and that are reduced to a rational number if at all. -/
structure Reduces (ctx : Context) (level : Nat) (value : Option ℚ) (first : Decimal)
    (cs : List Clause) : Prop where
  tight : ∀ c ∈ cs, level ≤ c.precedence
  exact : ∀ v, chainValue ctx first cs = some v → ∃ q, value = some q ∧ v.rational? = some q

theorem Reduces.single {ctx : Context} {level : Nat} {value : Option ℚ} {first : Decimal}
    (h : ∃ q, value = some q ∧ first.rational? = some q) : Reduces ctx level value first [] where
  tight c hc := absurd hc List.not_mem_nil
  exact v single := by
    rw [chainValue_nil] at single
    cases single
    exact h

/-- Clauses with an operator between them that binds as tight as the left ones, and less than the
right ones. -/
theorem Reduces.join {ctx : Context} {level : Nat} {x y z : Option ℚ} {first : Decimal}
    {before after : List Clause} {c : Clause} (left : Reduces ctx level x first before)
    (right : Reduces ctx (level + 1) y c.value after) (root : c.precedence = level)
    (operator : ∀ {a b v : Decimal} {p q : ℚ}, x = some p → y = some q → a.rational? = some p →
      b.rational? = some q → c.operator.operation.apply ctx a b = .ok v →
        ∃ r, z = some r ∧ v.rational? = some r) :
    Reduces ctx level z first (before ++ c :: after) where
  tight d hd := by
    rcases List.mem_append.mp hd with inside | last
    · exact left.tight d inside
    · rcases List.mem_cons.mp last with rfl | inside
      · exact root.ge
      · exact Nat.le_of_succ_le (right.tight d inside)
  exact v total := by
    obtain ⟨a, b, atLeft, atRight, run⟩ := chainValue_root total root left.tight right.tight
    obtain ⟨p, hx, hp⟩ := left.exact a atLeft
    obtain ⟨q, hy, hq⟩ := right.exact b atRight
    exact operator hx hy hp hq run

/-- A chain whose operands are resolved is reduced exactly. The induction is on the chain, whose
last operator is the root of the tree that is reduced. -/
theorem chain_exact (unrounded : Unrounded family id) (hinner : InnerExact inner family id)
    {level : Nat} {minus : Bool} : ∀ (chain : Chain level minus) {first : Decimal}
      {cs : List Clause} {s s₁ s₂ : Session},
      tokenValue setting inner family id chain.first s = .ok first s₁ →
      readClauses setting inner family id (chain.segments.map (·.tokens)) s₁ = .ok cs s₂ →
        Reduces (family.options id).context level chain.value first cs
  | .operand minus factor, first, cs, s, s₁, s₂, operand, clauses => by
    cases clauses
    exact .single (operand_exact hinner operand)
  | .power base gap space literal exponent whole, first, cs, s, s₁, s₂, operand, clauses => by
    rw [Chain.segments, List.map_append] at clauses
    obtain ⟨before, value, after, s₃, s₄, rfl, earlier, resolved, later⟩ :=
      readClauses_operator (unrounded.operators _ standard_power) clauses
    cases later
    have numeral : ∃ q, (Chain.operand false (.numeral literal)).value = some q ∧
        value.rational? = some q := operand_exact hinner resolved
    refine (chain_exact unrounded hinner base operand earlier).join (.single numeral) rfl ?_
    intro a b v p q hbase hliteral ha hb run
    cases hliteral
    rw [Chain.value, hbase]
    refine ⟨p ^ exponent, rfl, ?_⟩
    rw [whole] at hb
    exact Operators.power_exact unrounded.traps ha hb (faultToFailure_eq_ok run)
  | .operation left gap operator fits space right spaced, first, cs, s, s₁, s₂, operand, clauses => by
    obtain ⟨name, mem⟩ := operator.standard
    rw [Chain.segments, List.map_append] at clauses
    obtain ⟨before, value, after, s₃, s₄, rfl, earlier, resolved, later⟩ :=
      readClauses_operator (unrounded.operators _ mem) clauses
    refine (chain_exact unrounded hinner left operand earlier).join
      (chain_exact unrounded hinner right resolved later) fits ?_
    intro a b v p q hleft hright ha hb run
    rw [Chain.value, hleft, hright]
    exact Operator.exact unrounded.traps ha hb (faultToFailure_eq_ok run)
  | .tighter chain, first, cs, s, s₁, s₂, operand, clauses => by
    have reduces := chain_exact unrounded hinner chain operand clauses
    exact ⟨fun c hc => Nat.le_of_succ_le (reduces.tight c hc), reduces.exact⟩

theorem reduce_value {ctx : Context} {first v : Decimal} {cs : List Clause} {s s' : Session}
    (h : reduce setting ctx (.ofSequence first cs) s = .ok v s') :
    chainValue ctx first cs = some v := by
  have given := agrees_ok (reduce_agrees setting ctx first cs) h
  rw [Interpretation.ofOption, Option.map_eq_some_iff] at given
  obtain ⟨w, value, same⟩ := given
  rw [value, (Prod.mk.inj same).1]

/-- An arithmetic expression is evaluated exactly. The induction is on the room that is left, which
is less for the expressions in brackets. -/
theorem evaluateAt_exact (unrounded : Unrounded family id) (room : Nat) :
    ∀ depth, InnerExact (evaluateAt setting room depth) family id := by
  induction room with
  | zero =>
    intro depth e v s s' h
    obtain ⟨less, never, -⟩ := evaluateAt_ok h
    cases never
  | succ room ih =>
    intro depth e v s s' h
    obtain ⟨less, same, h⟩ := evaluateAt_ok h
    cases same
    rw [← e.decomposition_text, evaluateOpen,
      parse_of_tokens (read_lexical e.decomposition_lexical)] at h
    obtain ⟨_, s₁, -, h⟩ := bind_eq_ok.mp h
    obtain ⟨chain, s₂, parsed, h⟩ := bind_eq_ok.mp h
    obtain ⟨_, s₃, -, h⟩ := bind_eq_ok.mp h
    obtain ⟨first, s₄, operand, parsed⟩ := bind_eq_ok.mp parsed
    obtain ⟨cs, s₅, clauses, parsed⟩ := bind_eq_ok.mp parsed
    cases parsed
    exact (chain_exact unrounded (ih (depth + 1)) e.chain operand clauses).exact v (reduce_value h)

end

/-- In an environment with the standard operators and the unlimited context, the value of an
arithmetic expression is exactly the rational number that it denotes; it denotes one, so that no
divisor in it is zero. -/
theorem evaluate_unlimited (setting : Setting) {family : Family} {id : EnvId}
    (operators : ∀ binding ∈ Operators.all,
      family.lookup id .operators binding.symbol = some binding)
    (context : Context.ofName "unlimited" = .ok (family.options id).context) (e : Arithmetic)
    {v : Decimal} {s : Session}
    (h : result (evaluate setting family id (String.ofList e.text) s) = .ok v) :
    ∃ q, e.value = some q ∧ v.rational? = some q := by
  have unlimited : Context.ofName "unlimited" = .ok Context.unlimited := rfl
  have traps : (family.options id).context.trapsInexact = true := by
    rw [unlimited] at context
    rw [← Except.ok.inj context]
    rfl
  obtain ⟨s', run⟩ := result_eq_ok h
  rw [evaluate, String.toList_ofList] at run
  exact evaluateAt_exact ⟨operators, traps⟩ stackRoom 0 e run

end Evaluation

theorem lookup_standard {family : Family} {id : EnvId}
    (same : (family.environment id).operators = standardEnvironment.operators) :
    ∀ binding ∈ Operators.all, family.lookup id .operators binding.symbol = some binding := by
  intro binding mem
  have names : (standardEnvironment.operators.map (·.1)).Nodup := by decide +kernel
  have listed : (binding.symbol, Entry.value binding) ∈ standardEnvironment.operators :=
    List.mem_map_of_mem mem
  have found : ((family.environment id).table .operators).find? binding.symbol =
      some (.value binding) := by
    change (family.environment id).operators.find? binding.symbol = _
    rw [same]
    exact (Table.find?_eq_some names).mpr listed
  rw [Family.lookup_eq, found]
  rfl

/-- The standard environment in the unlimited context. -/
def unlimitedFamily : Family :=
  ⟨#[{ standardEnvironment with options := { Options.bare with context := .unlimited } }], #[.zero]⟩

namespace Arithmetic

def spaced : Blanks := ⟨[' '], by decide⟩

def dense : Blanks := ⟨[], by decide⟩

def numeral (text : List Char) (valid : (text.all isNumeralSymbol && text.any isAsciiDigit &&
    text.count '.' ≤ 1) = true) : Factor :=
  .numeral ⟨text, valid⟩

/-- Seven less the third power of two. -/
def lessThanZero : Chain 1 false :=
  .operation (.tighter (.tighter (.operand false (numeral ['7'] (by decide))))) spaced .subtract rfl
    spaced (.tighter (.power (.operand false (numeral ['2'] (by decide))) dense dense
      ⟨['3'], by decide⟩ 3 (by decide +kernel))) nofun

/-- A product, and the remainder of a number in brackets after its minus. -/
def sample : Arithmetic :=
  ⟨dense, false,
    .operation
      (.tighter (.operation (.tighter (.operand false (numeral ['1', '.', '5'] (by decide)))) dense
        .multiply rfl dense (.operand false (numeral ['.', '2', '5'] (by decide))) nofun))
      spaced .add rfl spaced
      (.operation (.tighter (.operand true (.bracket dense lessThanZero dense))) spaced .remainder
        rfl spaced (.operand false (numeral ['0', '.', '4'] (by decide))) nofun)
      (fun _ => List.cons_ne_nil _ _),
    dense⟩

end Arithmetic

theorem evaluate_unlimited_sample :
    Family.empty.addStandard.1.setContext 0 (some .unlimited) = .ok unlimitedFamily ∧
    Context.ofName "unlimited" = .ok (unlimitedFamily.options 0).context ∧
    Arithmetic.sample.text = "1.5*.25 + -(7 - 2^3) % 0.4".toList ∧
    result (Evaluation.evaluate ⟨0, false⟩ unlimitedFamily 0
      (String.ofList Arithmetic.sample.text) (.start 0)) = .ok (.finite false 575 (-3)) ∧
    ∃ q, Arithmetic.sample.value = some q ∧
      (Decimal.finite false 575 (-3)).rational? = some q := by
  have set : Family.empty.addStandard.1.setContext 0 (some .unlimited) = .ok unlimitedFamily := by
    rw [addStandard_eq]
    rfl
  have standard : ∀ binding ∈ Operators.all,
      unlimitedFamily.lookup 0 .operators binding.symbol = some binding := lookup_standard rfl
  have context : Context.ofName "unlimited" = .ok (unlimitedFamily.options 0).context := rfl
  have run : result (Evaluation.evaluate ⟨0, false⟩ unlimitedFamily 0
      (String.ofList Arithmetic.sample.text) (.start 0)) = .ok (.finite false 575 (-3)) := by
    decide +kernel
  exact ⟨set, context, by decide +kernel, run,
    Evaluation.evaluate_unlimited ⟨0, false⟩ standard context Arithmetic.sample run⟩

end Calculator
