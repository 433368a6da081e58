import Calculator.Proofs.Precedence

/-!
# Calculator.Proofs.OperatorOrder

The order in which the operators of a chain are applied, and which of them fails if one does.

Time and again the foremost operator of what is left is applied: the leftmost of those that bind
tightest. Its value takes the place of its operands. The first that fails ends the reduction, and
the operators after it are not applied.

* `exists_foremost`, `foremost_unique`: every chain that is not empty has one foremost operator.
* `passDown_foremost`: the passes over a chain apply its foremost operator first.
* `passDown_fails_iff`: the passes fail exactly where some operator is the first to fail.
-/

namespace Calculator

/-! ## The foremost operator -/

/-- An operator that binds tighter than those before it, and at least as tight as those after it. -/
structure Foremost (before : List Clause) (c : Clause) (after : List Clause) : Prop where
  before : ∀ d ∈ before, d.precedence < c.precedence
  after : ∀ d ∈ after, d.precedence ≤ c.precedence

theorem exists_foremost {cs : List Clause} (ne : cs ≠ []) :
    ∃ before c after, cs = before ++ c :: after ∧ Foremost before c after := by
  induction cs with
  | nil => exact absurd rfl ne
  | cons c rest ih =>
    by_cases empty : rest = []
    · exact ⟨[], c, rest, rfl, nofun, by simp [empty]⟩
    · obtain ⟨before, d, after, rfl, foremost⟩ := ih empty
      by_cases tighter : c.precedence < d.precedence
      · refine ⟨c :: before, d, after, rfl, ?_, foremost.after⟩
        exact List.forall_mem_cons.mpr ⟨tighter, foremost.before⟩
      · refine ⟨[], c, before ++ d :: after, rfl, nofun, ?_⟩
        intro e mem
        rw [List.mem_append, List.mem_cons] at mem
        obtain inBefore | rfl | inAfter := mem
        · have := foremost.before e inBefore
          omega
        · omega
        · have := foremost.after e inAfter
          omega

/-- Of two foremost operators neither stands before the other. -/
theorem Foremost.not_within {before before' after after' : List Clause} {c c' : Clause}
    (h : Foremost before c after) (h' : Foremost before' c' after') : c' ∈ before → c ∉ after' := by
  intro left right
  have := h.before c' left
  have := h'.after c right
  omega

theorem foremost_unique {before before' after after' : List Clause} {c c' : Clause}
    (h : Foremost before c after) (h' : Foremost before' c' after')
    (same : before ++ c :: after = before' ++ c' :: after') :
    before = before' ∧ c = c' ∧ after = after' := by
  obtain ⟨middle, left, right⟩ | ⟨middle, left, right⟩ := List.append_eq_append_iff.mp same
  · cases middle with
    | nil =>
      obtain ⟨rfl, rfl⟩ := List.cons.inj right
      exact ⟨by simpa using left.symm, rfl, rfl⟩
    | cons d middle =>
      obtain ⟨rfl, rfl⟩ := List.cons.inj right
      exact absurd (by simp) (h'.not_within h (by simp [left]))
  · cases middle with
    | nil =>
      obtain ⟨rfl, rfl⟩ := List.cons.inj right
      exact ⟨by simpa using left, rfl, rfl⟩
    | cons d middle =>
      obtain ⟨rfl, rfl⟩ := List.cons.inj right
      exact absurd (by simp) (h.not_within h' (by simp [left]))

/-! ## Applying it -/

/-- The value before what follows a part of a chain. -/
def valueBefore (first : Decimal) : List Clause → Decimal
  | [] => first
  | c :: rest => valueBefore c.value rest

/-- A part of a chain with another value at its end. -/
def withLast (v first : Decimal) : List Clause → Decimal × List Clause
  | [] => (v, [])
  | c :: rest => (first, c.withValue (withLast v c.value rest).1 :: (withLast v c.value rest).2)

theorem withLast_length (v : Decimal) (cs : List Clause) : ∀ first : Decimal,
    (withLast v first cs).2.length = cs.length := by
  induction cs with
  | nil => exact fun _ => rfl
  | cons c rest ih => exact fun _ => congrArg (· + 1) (ih c.value)

section

variable {ctx : Context}

/-- A pass at a precedence that no operator has. -/
theorem pass_none {level : Nat} (cs : List Clause) (none : ∀ c ∈ cs, c.precedence ≠ level) :
    ∀ first, pass ctx level first cs = .ok (first, cs) := by
  induction cs with
  | nil => exact fun _ => rfl
  | cons c rest ih =>
    intro first
    obtain ⟨here, later⟩ := List.forall_mem_cons.mp none
    simp only [pass, if_neg here, ih later]
    rfl

/-- A pass begins with the first operator of its precedence. -/
theorem pass_foremost {level : Nat} (before after : List Clause) (c : Clause)
    (none : ∀ d ∈ before, d.precedence ≠ level) (here : c.precedence = level) : ∀ first : Decimal,
    pass ctx level first (before ++ c :: after) =
      match c.apply ctx (valueBefore first before) with
      | .error failure => .error failure
      | .ok v => pass ctx level (withLast v first before).1 ((withLast v first before).2 ++ after) := by
  induction before with
  | nil =>
    intro first
    rw [List.nil_append, pass, if_pos here]
    rfl
  | cons d before ih =>
    intro first
    obtain ⟨other, later⟩ := List.forall_mem_cons.mp none
    rw [List.cons_append, pass, if_neg other, ih later, valueBefore]
    cases c.apply ctx (valueBefore d.value before) with
    | error failure => rfl
    | ok v =>
      dsimp only [withLast]
      rw [List.cons_append, pass, Clause.withValue_precedence, if_neg other]
      rfl

theorem withLast_precedence (v : Decimal) {before : List Clause} {P : Nat → Prop}
    (h : ∀ d ∈ before, P d.precedence) : ∀ first : Decimal,
    ∀ d ∈ (withLast v first before).2, P d.precedence := by
  induction before with
  | nil => exact fun _ => nofun
  | cons c rest ih =>
    obtain ⟨here, later⟩ := List.forall_mem_cons.mp h
    exact fun _ => List.forall_mem_cons.mpr ⟨here, ih later c.value⟩

/-- The passes begin with the foremost operator, and go on with its value in place of its operands. -/
theorem passDown_foremost {level : Nat} {before after : List Clause} {c : Clause}
    (foremost : Foremost before c after) (le : c.precedence ≤ level) (first : Decimal) :
    passDown ctx level first (before ++ c :: after) =
      match c.apply ctx (valueBefore first before) with
      | .error failure => .error failure
      | .ok v => passDown ctx level (withLast v first before).1
          ((withLast v first before).2 ++ after) := by
  have lower : ∀ d ∈ before, d.precedence ≠ c.precedence := fun d mem =>
    Nat.ne_of_lt (foremost.before d mem)
  induction level with
  | zero =>
    have here : c.precedence = 0 := Nat.le_zero.mp le
    exact pass_foremost before after c (here ▸ lower) here first
  | succ level ih =>
    by_cases here : c.precedence = level + 1
    · rw [passDown, pass_foremost before after c (here ▸ lower) here]
      cases c.apply ctx (valueBefore first before) with
      | error failure => rfl
      | ok v => rfl
    · -- no operator binds as tight as this pass
      have loose : ∀ d ∈ before ++ c :: after, d.precedence ≠ level + 1 := by
        intro d mem
        rw [List.mem_append, List.mem_cons] at mem
        obtain inBefore | rfl | inAfter := mem
        · have := foremost.before d inBefore
          omega
        · exact here
        · have := foremost.after d inAfter
          omega
      have looseLater (v : Decimal) :
          ∀ d ∈ (withLast v first before).2 ++ after, d.precedence ≠ level + 1 := by
        rw [List.forall_mem_append] at loose ⊢
        exact ⟨@withLast_precedence v before (· ≠ level + 1) loose.1 first,
          fun d mem => loose.2 d (List.mem_cons_of_mem _ mem)⟩
      rw [passDown, pass_none _ loose]
      dsimp only
      rw [ih (by omega)]
      cases c.apply ctx (valueBefore first before) with
      | error failure => rfl
      | ok v =>
        dsimp only
        rw [passDown, pass_none _ (looseLater v)]

/-! ## The operator that fails -/

/-- The first operator of a chain to fail, and its failure: the foremost one, or the first to fail
after the foremost one has been applied. -/
inductive OperatorFails (ctx : Context) : Decimal → List Clause → Binding → Failure → Prop where
  | here {first : Decimal} {before after : List Clause} {c : Clause} {failure : Failure} :
      Foremost before c after →
      c.operator.operation.apply ctx (valueBefore first before) c.value = .error failure →
      OperatorFails ctx first (before ++ c :: after) c.operator failure
  | later {first v : Decimal} {before after : List Clause} {c : Clause} {operator : Binding}
      {failure : Failure} :
      Foremost before c after →
      c.operator.operation.apply ctx (valueBefore first before) c.value = .ok v →
      OperatorFails ctx (withLast v first before).1 ((withLast v first before).2 ++ after) operator
        failure →
      OperatorFails ctx first (before ++ c :: after) operator failure

/-- What fails is the foremost operator, or whatever fails after it has been applied. -/
theorem operatorFails_iff {first : Decimal} {before after : List Clause} {c : Clause}
    {operator : Binding} {failure : Failure} (foremost : Foremost before c after) :
    OperatorFails ctx first (before ++ c :: after) operator failure ↔
      match c.operator.operation.apply ctx (valueBefore first before) c.value with
      | .error raised => operator = c.operator ∧ failure = raised
      | .ok v => OperatorFails ctx (withLast v first before).1
          ((withLast v first before).2 ++ after) operator failure := by
  constructor
  · intro h
    generalize split : before ++ c :: after = cs at h
    cases h with
    | here foremost' raised =>
      obtain ⟨rfl, rfl, rfl⟩ := foremost_unique foremost foremost' split
      rw [raised]
      exact ⟨rfl, rfl⟩
    | later foremost' applied later =>
      obtain ⟨rfl, rfl, rfl⟩ := foremost_unique foremost foremost' split
      rw [applied]
      exact later
  · cases applied : c.operator.operation.apply ctx (valueBefore first before) c.value with
    | error raised =>
      rintro ⟨rfl, rfl⟩
      exact .here foremost applied
    | ok v => exact .later foremost applied

theorem operatorFails_unique {first : Decimal} {cs : List Clause} {operator operator' : Binding}
    {failure failure' : Failure} (h : OperatorFails ctx first cs operator failure)
    (h' : OperatorFails ctx first cs operator' failure') : operator = operator' ∧ failure = failure' := by
  induction h with
  | here foremost raised =>
    rw [operatorFails_iff foremost, raised] at h'
    exact ⟨h'.1.symm, h'.2.symm⟩
  | later foremost applied _ ih =>
    rw [operatorFails_iff foremost, applied] at h'
    exact ih h'

/-- The passes fail exactly where an operator is the first to fail. -/
theorem passDown_fails_iff {level : Nat} {first : Decimal} {cs : List Clause}
    (le : ∀ c ∈ cs, c.precedence ≤ level) {failure : Failure} :
    passDown ctx level first cs = .error failure ↔
      ∃ operator raised, OperatorFails ctx first cs operator raised ∧
        raised.atOperator operator.symbol = failure := by
  generalize size : cs.length = n
  induction n generalizing first cs with
  | zero =>
    obtain rfl := List.length_eq_zero_iff.mp size
    rw [passDown_nil]
    constructor
    · exact nofun
    · rintro ⟨operator, raised, fails, -⟩
      generalize none : ([] : List Clause) = cs at fails
      cases fails <;> simp at none
  | succ n ih =>
    have ne : cs ≠ [] := List.ne_nil_of_length_eq_add_one size
    obtain ⟨before, c, after, rfl, foremost⟩ := exists_foremost ne
    obtain ⟨leBefore, le'⟩ := List.forall_mem_append.mp le
    obtain ⟨leHere, leAfter⟩ := List.forall_mem_cons.mp le'
    rw [passDown_foremost foremost leHere, Clause.apply]
    simp only [operatorFails_iff foremost]
    cases c.operator.operation.apply ctx (valueBefore first before) c.value with
    | error raised =>
      constructor
      · rintro ⟨⟩
        exact ⟨c.operator, raised, ⟨rfl, rfl⟩, rfl⟩
      · rintro ⟨operator, raised', ⟨rfl, rfl⟩, rfl⟩
        rfl
    | ok v =>
      have leLater : ∀ d ∈ (withLast v first before).2 ++ after, d.precedence ≤ level :=
        List.forall_mem_append.mpr ⟨@withLast_precedence v before (· ≤ level) leBefore first, leAfter⟩
      have shorter : ((withLast v first before).2 ++ after).length = n := by
        rw [List.length_append, withLast_length]
        rw [List.length_append, List.length_cons] at size
        omega
      exact ih leLater shorter

end

end Calculator
