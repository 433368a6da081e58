import Calculator.Chain

/-!
# Calculator.Proofs.Precedence

Chains of operators as trees, and the passes that reduce them.

A chain is a first value and a list of clauses, each an operator with the value at its right. It is
read as a tree: the root is the rightmost of the operators that bind loosest, and its operands are
the chains at its two sides. A pass applies the operators of one precedence from left to right.

* `splitLoosest_eq_some`: what the root of the tree is.
* `pass_value`: a pass at the highest precedence leaves the value of the tree as it is.
* `passDown_value`: the passes from the highest precedence down to zero give that value.
-/

namespace Calculator

/-- An operator with the value at its right. -/
structure Clause where
  operator : Binding
  value : Decimal

namespace Clause

def precedence (c : Clause) : Nat := c.operator.precedence

def withValue (c : Clause) (value : Decimal) : Clause := { c with value := value }

@[simp] theorem withValue_value (c : Clause) (v : Decimal) : (c.withValue v).value = v := rfl

@[simp] theorem withValue_operator (c : Clause) (v : Decimal) :
    (c.withValue v).operator = c.operator := rfl

@[simp] theorem withValue_precedence (c : Clause) (v : Decimal) :
    (c.withValue v).precedence = c.precedence := rfl

/-- The operator applied to a value at its left; a failure is reported with its symbol. -/
def apply (ctx : Context) (c : Clause) (left : Decimal) : Except Failure Decimal :=
  match c.operator.operation.apply ctx left c.value with
  | .error failure => .error (failure.atOperator c.operator.symbol)
  | .ok value => .ok value

end Clause

/-! ## Trees -/

inductive OperatorTree where
  | leaf (value : Decimal)
  | node (left : OperatorTree) (operator : Binding) (right : OperatorTree)

/-- The value of a tree, if none of its operators fails. -/
def OperatorTree.value (ctx : Context) : OperatorTree → Option Decimal
  | leaf v => some v
  | node left operator right =>
    match left.value ctx, right.value ctx with
    | some a, some b => (operator.operation.apply ctx a b).toOption
    | _, _ => none

/-- The rightmost clause of the least precedence, between those before and those after it. -/
def splitLoosest : List Clause → Option (List Clause × Clause × List Clause)
  | [] => none
  | c :: rest =>
    match splitLoosest rest with
    | none => some ([], c, rest)
    | some (before, loosest, after) =>
      if c.precedence < loosest.precedence then some ([], c, rest)
      else some (c :: before, loosest, after)

theorem splitLoosest_eq_none {cs : List Clause} : splitLoosest cs = none ↔ cs = [] := by
  cases cs with
  | nil => simp [splitLoosest]
  | cons c rest =>
    simp only [splitLoosest]
    split
    · simp
    · split <;> simp

theorem splitLoosest_spec {cs before after : List Clause} {c : Clause}
    (h : splitLoosest cs = some (before, c, after)) :
    cs = before ++ c :: after ∧ (∀ d ∈ before, c.precedence ≤ d.precedence) ∧
      ∀ d ∈ after, c.precedence < d.precedence := by
  induction cs generalizing before c after with
  | nil => simp [splitLoosest] at h
  | cons d rest ih =>
    simp only [splitLoosest] at h
    split at h
    · rename_i hr
      rw [splitLoosest_eq_none] at hr
      simp only [Option.some.injEq, Prod.mk.injEq] at h
      obtain ⟨rfl, rfl, rfl⟩ := h
      simp [hr]
    · rename_i b m a hr
      obtain ⟨rfl, hb, ha⟩ := ih hr
      split at h
      · rename_i hlt
        simp only [Option.some.injEq, Prod.mk.injEq] at h
        obtain ⟨rfl, rfl, rfl⟩ := h
        refine ⟨rfl, by simp, fun e he => ?_⟩
        simp only [List.mem_append, List.mem_cons] at he
        rcases he with he | rfl | he
        · exact Nat.lt_of_lt_of_le hlt (hb e he)
        · exact hlt
        · exact Nat.lt_trans hlt (ha e he)
      · rename_i hle
        simp only [Option.some.injEq, Prod.mk.injEq] at h
        obtain ⟨rfl, rfl, rfl⟩ := h
        refine ⟨rfl, fun e he => ?_, ha⟩
        simp only [List.mem_cons] at he
        rcases he with rfl | he
        · omega
        · exact hb e he

theorem splitLoosest_append {before after : List Clause} {c : Clause}
    (hb : ∀ d ∈ before, c.precedence ≤ d.precedence)
    (ha : ∀ d ∈ after, c.precedence < d.precedence) :
    splitLoosest (before ++ c :: after) = some (before, c, after) := by
  induction before with
  | nil =>
    simp only [List.nil_append, splitLoosest]
    cases hs : splitLoosest after with
    | none => rfl
    | some p =>
      obtain ⟨b, m, a⟩ := p
      obtain ⟨rfl, -, -⟩ := splitLoosest_spec hs
      simp [ha m (by simp)]
  | cons d before ih =>
    simp only [List.cons_append, splitLoosest, ih fun e he => hb e (by simp [he])]
    simp [hb d (by simp)]

theorem splitLoosest_eq_some {cs before after : List Clause} {c : Clause} :
    splitLoosest cs = some (before, c, after) ↔
      cs = before ++ c :: after ∧ (∀ d ∈ before, c.precedence ≤ d.precedence) ∧
        ∀ d ∈ after, c.precedence < d.precedence :=
  ⟨splitLoosest_spec, fun ⟨hcs, hb, ha⟩ => hcs ▸ splitLoosest_append hb ha⟩

def OperatorTree.ofChain (first : Decimal) (cs : List Clause) : OperatorTree :=
  match _h : splitLoosest cs with
  | none => .leaf first
  | some (before, c, after) => .node (ofChain first before) c.operator (ofChain c.value after)
termination_by cs.length
decreasing_by
  all_goals
    obtain ⟨rfl, -, -⟩ := splitLoosest_spec _h
    simp only [List.length_append, List.length_cons]
    omega

/-- The value of the tree of a chain. -/
def chainValue (ctx : Context) (first : Decimal) (cs : List Clause) : Option Decimal :=
  (OperatorTree.ofChain first cs).value ctx

@[simp] theorem chainValue_nil (ctx : Context) (first : Decimal) :
    chainValue ctx first [] = some first := by
  rw [chainValue, OperatorTree.ofChain]
  split
  · rfl
  · rename_i h
    simp [splitLoosest] at h

theorem chainValue_split {ctx : Context} {first : Decimal} {before after : List Clause} {c : Clause}
    (hb : ∀ d ∈ before, c.precedence ≤ d.precedence)
    (ha : ∀ d ∈ after, c.precedence < d.precedence) :
    chainValue ctx first (before ++ c :: after) =
      match chainValue ctx first before, chainValue ctx c.value after with
      | some a, some b => (c.operator.operation.apply ctx a b).toOption
      | _, _ => none := by
  have hs := splitLoosest_append hb ha
  rw [chainValue, OperatorTree.ofChain]
  split
  · rename_i h
    rw [hs] at h; cases h
  · rename_i b m a h
    rw [hs] at h; cases h
    rfl

theorem chainValue_single (ctx : Context) (first : Decimal) (c : Clause) :
    chainValue ctx first [c] = (c.operator.operation.apply ctx first c.value).toOption := by
  have h := @chainValue_split ctx first [] [] c nofun nofun
  simpa using h

/-! ## Passes -/

/-- Applies the operators of one precedence from left to right; `left` is the value before the
chain. -/
def pass (ctx : Context) (level : Nat) :
    Decimal → List Clause → Except Failure (Decimal × List Clause)
  | left, [] => .ok (left, [])
  | left, c :: rest =>
    if c.precedence = level then
      match c.apply ctx left with
      | .error failure => .error failure
      | .ok value => pass ctx level value rest
    else
      match pass ctx level c.value rest with
      | .error failure => .error failure
      | .ok (value, rest) => .ok (left, c.withValue value :: rest)

/-- The passes of a precedence and of all lower ones. -/
def passDown (ctx : Context) : Nat → Decimal → List Clause → Except Failure (Decimal × List Clause)
  | 0, left, cs => pass ctx 0 left cs
  | level + 1, left, cs =>
    match pass ctx (level + 1) left cs with
    | .error failure => .error failure
    | .ok (left, cs) => passDown ctx level left cs

@[simp] theorem pass_nil (ctx : Context) (level : Nat) (left : Decimal) :
    pass ctx level left [] = .ok (left, []) := rfl

@[simp] theorem passDown_nil (ctx : Context) (level : Nat) (left : Decimal) :
    passDown ctx level left [] = .ok (left, []) := by
  induction level with
  | zero => rfl
  | succ level ih => rw [passDown, pass_nil]; exact ih

/-- What is left by a pass: the operators of other precedences. -/
theorem pass_operators {ctx : Context} {level : Nat} {left value : Decimal} {cs rest : List Clause}
    (h : pass ctx level left cs = .ok (value, rest)) :
    rest.map Clause.operator = (cs.filter (·.precedence ≠ level)).map Clause.operator := by
  induction cs generalizing left value rest with
  | nil => simp only [pass] at h; cases h; rfl
  | cons c cs ih =>
    simp only [pass] at h
    split at h
    · rename_i hl
      split at h
      · cases h
      · rw [ih h]; simp [hl]
    · rename_i hl
      split at h
      · cases h
      · rename_i v more hp
        cases h
        simp [hl, ih hp]

theorem pass_precedence {ctx : Context} {level : Nat} {left value : Decimal} {cs rest : List Clause}
    (h : pass ctx level left cs = .ok (value, rest)) {d : Clause} (hd : d ∈ rest) :
    d.precedence ≠ level ∧ ∃ c ∈ cs, c.operator = d.operator := by
  have hm : d.operator ∈ rest.map Clause.operator := List.mem_map_of_mem hd
  rw [pass_operators h, List.mem_map] at hm
  obtain ⟨c, hc, he⟩ := hm
  rw [List.mem_filter] at hc
  refine ⟨?_, c, hc.1, he⟩
  have hl := hc.2
  simp only [decide_eq_true_eq] at hl
  rwa [Clause.precedence, ← he]

/-- A pass goes through the two sides of an operator of another precedence on its own. -/
theorem pass_append {ctx : Context} {level : Nat} (left : Decimal) (before after : List Clause)
    (c : Clause) (hc : c.precedence ≠ level) :
    pass ctx level left (before ++ c :: after) =
      match pass ctx level left before with
      | .error failure => .error failure
      | .ok (value, before) =>
        match pass ctx level c.value after with
        | .error failure => .error failure
        | .ok (right, after) => .ok (value, before ++ c.withValue right :: after) := by
  induction before generalizing left with
  | nil => simp only [List.nil_append, pass, if_neg hc]
  | cons d before ih =>
    simp only [List.cons_append, pass]
    split
    · split
      · rfl
      · exact ih _
    · rw [ih]
      cases pass ctx level d.value before with
      | error failure => rfl
      | ok p =>
        obtain ⟨v, rest⟩ := p
        cases pass ctx level c.value after <;> rfl

/-- A pass through operators that all have its precedence leaves none of them. -/
theorem pass_all {ctx : Context} {level : Nat} (left : Decimal) (cs more : List Clause)
    (hcs : ∀ c ∈ cs, c.precedence = level) :
    pass ctx level left (cs ++ more) =
      match pass ctx level left cs with
      | .error failure => .error failure
      | .ok (value, _) => pass ctx level value more := by
  induction cs generalizing left with
  | nil => rfl
  | cons c cs ih =>
    have hc : c.precedence = level := hcs c (by simp)
    simp only [List.cons_append, pass, if_pos hc]
    split
    · rfl
    · exact ih _ fun d hd => hcs d (by simp [hd])

theorem pass_all_rest {ctx : Context} {level : Nat} {left value : Decimal} {cs rest : List Clause}
    (hcs : ∀ c ∈ cs, c.precedence = level) (h : pass ctx level left cs = .ok (value, rest)) :
    rest = [] := by
  have hr := pass_operators h
  rw [List.filter_eq_nil_iff.2 (by simpa using hcs)] at hr
  simpa using hr

/-- A pass at the highest precedence leaves the value of the tree as it is; it fails only if the
tree has no value. -/
theorem pass_value {ctx : Context} {level : Nat} (first : Decimal) (cs : List Clause)
    (hle : ∀ c ∈ cs, c.precedence ≤ level) :
    ((pass ctx level first cs).toOption.bind fun p => chainValue ctx p.1 p.2) =
      chainValue ctx first cs := by
  induction first, cs using OperatorTree.ofChain.induct with
  | case1 first cs hs =>
    rw [splitLoosest_eq_none] at hs
    subst hs
    simp [pass, Except.toOption]
  | case2 first cs before c after hs ihb iha =>
    obtain ⟨rfl, hb, ha⟩ := splitLoosest_spec hs
    have ihb := ihb fun d hd => hle d (by simp [hd])
    have iha := iha fun d hd => hle d (by simp [hd])
    rw [chainValue_split hb ha, ← ihb, ← iha]
    by_cases hc : c.precedence = level
    · -- every operator has the precedence of the pass, and the last one is the root
      have hafter : after = [] := by
        refine List.eq_nil_iff_forall_not_mem.2 fun d hd => ?_
        have h1 := ha d hd
        have h2 := hle d (by simp [hd])
        omega
      have hbefore : ∀ d ∈ before, d.precedence = level := fun d hd =>
        Nat.le_antisymm (hle d (by simp [hd])) (hc ▸ hb d hd)
      subst hafter
      rw [pass_all first before [c] hbefore]
      cases hp : pass ctx level first before with
      | error failure => rfl
      | ok p =>
        obtain ⟨v, rest⟩ := p
        cases pass_all_rest hbefore hp
        simp only [pass, if_pos hc, Clause.apply]
        cases hv : c.operator.operation.apply ctx v c.value <;> simp [Except.toOption, hv]
    · rw [pass_append first before after c hc]
      cases hp : pass ctx level first before with
      | error failure => rfl
      | ok p =>
        obtain ⟨v, before'⟩ := p
        cases hq : pass ctx level c.value after with
        | error failure => simp [Except.toOption]
        | ok q =>
          obtain ⟨w, after'⟩ := q
          have hb' : ∀ d ∈ before', c.precedence ≤ d.precedence := fun d hd => by
            obtain ⟨-, e, he, heq⟩ := pass_precedence hp hd
            simpa [Clause.precedence, heq] using hb e he
          have ha' : ∀ d ∈ after', c.precedence < d.precedence := fun d hd => by
            obtain ⟨-, e, he, heq⟩ := pass_precedence hq hd
            simpa [Clause.precedence, heq] using ha e he
          simp only [Except.toOption, Option.bind_some]
          exact chainValue_split (c := c.withValue w) (by simpa using hb') (by simpa using ha')

/-- The passes down from the highest precedence give the value of the tree, and leave no
operator. -/
theorem passDown_value (ctx : Context) {level : Nat} (first : Decimal) (cs : List Clause)
    (hle : ∀ c ∈ cs, c.precedence ≤ level) :
    (passDown ctx level first cs).toOption = (chainValue ctx first cs).map fun v => (v, []) := by
  induction level generalizing first cs with
  | zero =>
    rw [← pass_value first cs hle, passDown]
    cases hp : pass ctx 0 first cs with
    | error failure => rfl
    | ok p =>
      obtain ⟨v, rest⟩ := p
      cases pass_all_rest (fun c hc => Nat.le_zero.1 (hle c hc)) hp
      simp [Except.toOption]
  | succ level ih =>
    rw [← pass_value first cs hle, passDown]
    cases hp : pass ctx (level + 1) first cs with
    | error failure => rfl
    | ok p =>
      obtain ⟨v, rest⟩ := p
      have hrest : ∀ d ∈ rest, d.precedence ≤ level := fun d hd => by
        obtain ⟨hne, c, hc, he⟩ := pass_precedence hp hd
        have := hle c hc
        simp only [Clause.precedence, he] at this hne ⊢
        omega
      simpa [Except.toOption] using ih v rest hrest

end Calculator
