import Calculator.Proofs.CanonicalText
import Calculator.Proofs.Numbers
import Calculator.Proofs.RationalValue
import Mathlib.Order.Compare
import Mathlib.Order.WithBot

/-!
# Calculator.Proofs.Comparisons

The order of numbers, and what the library decides by it.

Mathematical meaning: a number denotes an extended rational, a rational or one of the two infinities
around them. The comparison operators say how the extended rationals of two numbers lie to each
other, and `min` and `max` choose between the two numbers by it. Neither the form in which the
numbers are written nor the context in force matters.

* `order_eq_cmp`: the order of numbers is that of the extended rationals.
* `Relation.test_cmp`: the tests that the operators make of the order.
* `comparisons_exact`: the six operators and the two functions, in every context.
-/

namespace Calculator

/-- The rationals, and an infinity at either side of them. -/
abbrev ExtendedRational := WithBot (WithTop ℚ)

namespace ExtendedRational

def ofRational (q : ℚ) : ExtendedRational := ((q : WithTop ℚ) : WithBot (WithTop ℚ))

theorem ofRational_strictMono : StrictMono ofRational :=
  WithBot.coe_strictMono.comp WithTop.coe_strictMono

theorem bot_lt_ofRational (q : ℚ) : ⊥ < ofRational q := WithBot.bot_lt_coe _

theorem ofRational_lt_top (q : ℚ) : ofRational q < ⊤ :=
  WithBot.coe_lt_coe.mpr (WithTop.coe_lt_top q)

end ExtendedRational

namespace Decimal

open ExtendedRational

/-! ## The order of numbers -/

/-- The extended rational that a number denotes; a NaN denotes none. -/
def extended? : Decimal → Option ExtendedRational
  | .finite n c e => some (ofRational (scaled n c e))
  | .infinity true => some ⊥
  | .infinity false => some ⊤
  | .nan .. => none

theorem extended?_isSome (a : Decimal) : a.extended?.isSome = a.isNumber := by
  cases a with
  | finite n c e => rfl
  | infinity n => cases n <;> rfl
  | nan n s p => rfl

theorem scaled_strictMono (e : Int) : StrictMono fun k : Nat => scaled false k e := by
  intro j k less
  have unit : (0 : ℚ) < 10 ^ e := zpow_pos (by norm_num) _
  simpa [scaled, signed, unit] using less

theorem orderMagnitudes_eq_cmp (c d : Nat) (e f : Int) :
    orderMagnitudes c e d f = cmp (scaled false c e) (scaled false d f) := by
  rw [orderMagnitudes_eq, ← scaled_lowered false c (min_le_left e f),
    ← scaled_lowered false d (min_le_right e f), (scaled_strictMono _).cmp_map_eq, cmp_eq_compare]

theorem scaled_minus (c : Nat) (e : Int) : scaled true c e = -scaled false c e :=
  scaled_negate false c e

/-- A number that is written with a minus and is not a zero is negative. -/
theorem scaled_neg {c : Nat} (e : Int) (nonzero : c ≠ 0) : scaled true c e < 0 := by
  have size := lt_of_le_of_ne (scaled_nonneg c e) (scaled_ne_zero false e nonzero).symm
  rw [scaled_minus]
  exact neg_neg_of_pos size

theorem order_finite (n m : Bool) (c d : Nat) (e f : Int) :
    order (.finite n c e) (.finite m d f) = some (cmp (scaled n c e) (scaled m d f)) := by
  -- Signed zeros are equal, so a sign counts only where the coefficient is not zero.
  rw [← scaled_unsigned n, ← scaled_unsigned m, order]
  cases left : n && c != 0 with
  | false =>
    cases right : m && d != 0 with
    | false => exact congrArg some (orderMagnitudes_eq_cmp c d e f)
    | true =>
      rw [Bool.and_eq_true, bne_iff_ne] at right
      have less := (scaled_neg f right.2).trans_le (scaled_nonneg c e)
      exact congrArg some less.cmp_eq_gt.symm
  | true =>
    rw [Bool.and_eq_true, bne_iff_ne] at left
    cases right : m && d != 0 with
    | false =>
      have less := (scaled_neg e left.2).trans_le (scaled_nonneg d f)
      exact congrArg some less.cmp_eq_lt.symm
    | true =>
      have swaps : StrictAnti fun q : ℚ => -q := fun _ _ => neg_lt_neg
      rw [scaled_minus, scaled_minus, swaps.cmp_map_eq]
      exact congrArg some (orderMagnitudes_eq_cmp d c f e)

theorem order_infinities (n m : Bool) {x y : ExtendedRational}
    (hx : extended? (.infinity n) = some x) (hy : extended? (.infinity m) = some y) :
    order (.infinity n) (.infinity m) = some (cmp x y) := by
  have apart : (⊥ : ExtendedRational) < ⊤ := bot_lt_top
  cases n <;> cases m <;> cases hx <;> cases hy
  · exact congrArg some (cmp_self_eq_eq _).symm
  · exact congrArg some apart.cmp_eq_gt.symm
  · exact congrArg some apart.cmp_eq_lt.symm
  · exact congrArg some (cmp_self_eq_eq _).symm

/-- The order of two numbers is the order of the extended rationals that they denote. -/
theorem order_eq_cmp {a b : Decimal} {x y : ExtendedRational} (ha : a.extended? = some x)
    (hb : b.extended? = some y) : order a b = some (cmp x y) := by
  cases a with
  | nan n s p => cases ha
  | infinity n =>
    cases b with
    | nan m s p => cases hb
    | infinity m => exact order_infinities n m ha hb
    | finite m d f =>
      cases hb
      cases n <;> cases ha
      · exact congrArg some (ofRational_lt_top _).cmp_eq_gt.symm
      · exact congrArg some (bot_lt_ofRational _).cmp_eq_lt.symm
  | finite n c e =>
    cases ha
    cases b with
    | nan m s p => cases hb
    | infinity m =>
      cases m <;> cases hb
      · exact congrArg some (ofRational_lt_top _).cmp_eq_lt.symm
      · exact congrArg some (bot_lt_ofRational _).cmp_eq_gt.symm
    | finite m d f =>
      cases hb
      rw [order_finite, ofRational_strictMono.cmp_map_eq]

end Decimal

/-! ## Relations -/

/-- The relations that the comparison operators test. -/
inductive Relation where
  | less
  | atMost
  | more
  | atLeast
  | equal
  | unequal
  deriving DecidableEq, Repr

namespace Relation

def symbol : Relation → String
  | less => "<"
  | atMost => "<="
  | more => ">"
  | atLeast => ">="
  | equal => "=="
  | unequal => "!="

def Holds : Relation → ExtendedRational → ExtendedRational → Prop
  | less, x, y => x < y
  | atMost, x, y => x ≤ y
  | more, x, y => y < x
  | atLeast, x, y => y ≤ x
  | equal, x, y => x = y
  | unequal, x, y => x ≠ y

/-- The test of an order that tells whether the relation holds. -/
def test : Relation → Ordering → Bool
  | less => (· == .lt)
  | atMost => (· != .gt)
  | more => (· == .gt)
  | atLeast => (· != .lt)
  | equal => (· == .eq)
  | unequal => (· != .eq)

theorem test_cmp (r : Relation) (x y : ExtendedRational) :
    r.test (cmp x y) = true ↔ r.Holds x y := by
  cases r with
  | less => exact beq_iff_eq.trans (cmp_eq_lt_iff x y)
  | atMost => exact bne_iff_ne.trans ((not_congr (cmp_eq_gt_iff x y)).trans not_lt)
  | more => exact beq_iff_eq.trans (cmp_eq_gt_iff x y)
  | atLeast => exact bne_iff_ne.trans ((not_congr (cmp_eq_lt_iff x y)).trans not_lt)
  | equal => exact beq_iff_eq.trans (cmp_eq_eq_iff x y)
  | unequal => exact bne_iff_ne.trans (not_congr (cmp_eq_eq_iff x y))

/-- Of two extended rationals one is less, or they are equal, but never more than one of these. -/
theorem trichotomy (x y : ExtendedRational) :
    ∃! r : Relation, r ∈ [less, equal, more] ∧ r.Holds x y := by
  refine (existsUnique_congr fun r => and_congr_right' (r.test_cmp x y)).mp ?_
  cases cmp x y with
  | lt => exact ⟨less, ⟨by decide, rfl⟩, fun r => by cases r <;> simp [test]⟩
  | eq => exact ⟨equal, ⟨by decide, rfl⟩, fun r => by cases r <;> simp [test]⟩
  | gt => exact ⟨more, ⟨by decide, rfl⟩, fun r => by cases r <;> simp [test]⟩

instance (r : Relation) (x y : ExtendedRational) : Decidable (r.Holds x y) :=
  decidable_of_iff (r.test (cmp x y) = true) (r.test_cmp x y)

/-- What the operator of the relation computes. Those of equality ask for an order of their own
accord, the others fail where there is none. -/
def apply : Relation → Context → Decimal → Decimal → Except Fault Decimal
  | equal => Operators.equality (· == some .eq)
  | unequal => Operators.equality (· != some .eq)
  | r => Operators.comparison r.test

theorem standard (r : Relation) :
    ∃ name, Operators.standard r.symbol 0 name r.apply ∈ Operators.all := by
  cases r with
  | equal => exact ⟨"eq", List.mem_of_getElem? (i := 6) rfl⟩
  | unequal => exact ⟨"neq", List.mem_of_getElem? (i := 7) rfl⟩
  | less => exact ⟨"lt", List.mem_of_getElem? (i := 8) rfl⟩
  | more => exact ⟨"gt", List.mem_of_getElem? (i := 9) rfl⟩
  | atMost => exact ⟨"lte", List.mem_of_getElem? (i := 10) rfl⟩
  | atLeast => exact ⟨"gte", List.mem_of_getElem? (i := 11) rfl⟩

end Relation

/-! ## Operators and functions -/

section

variable {a b : Decimal} {x y : ExtendedRational} {o : Ordering}

theorem Operators.comparison_ordered (test : Ordering → Bool) (ctx : Context)
    (h : Decimal.order a b = some o) : comparison test ctx a b = .ok (truth (test o)) := by
  rw [comparison, h]

theorem Operators.equality_ordered (test : Option Ordering → Bool) (ctx : Context)
    (h : Decimal.order a b = some o) : equality test ctx a b = .ok (truth (test (some o))) := by
  have left : isSignaling a = false := by
    cases a with
    | nan n s p => cases h
    | _ => rfl
  have right : isSignaling b = false := by
    cases b with
    | nan n s p => cases a <;> cases h
    | _ => rfl
  rw [equality, left, right, h]
  rfl

theorem Relation.apply_ordered (r : Relation) (ctx : Context) (h : Decimal.order a b = some o) :
    r.apply ctx a b = .ok (truth (r.test o)) := by
  cases r with
  | equal =>
    rw [apply, Operators.equality_ordered _ ctx h, Option.some_beq_some]
    rfl
  | unequal =>
    rw [apply, Operators.equality_ordered _ ctx h, bne, Option.some_beq_some]
    rfl
  | _ => exact Operators.comparison_ordered _ ctx h

theorem Relation.apply_numbers (r : Relation) (ctx : Context) (ha : a.extended? = some x)
    (hb : b.extended? = some y) :
    r.apply ctx a b = .ok (if r.Holds x y then .one else .zero) := by
  rw [r.apply_ordered ctx (Decimal.order_eq_cmp ha hb), truth]
  exact congrArg Except.ok (if_congr (r.test_cmp x y) rfl rfl)

/-- The standard function of the name hands back one of its two arguments, in every context and
without rounding it, and that argument denotes `best`. -/
def Functions.Chooses (name : String) (a b : Decimal) (best : ExtendedRational) : Prop :=
  ∃ f v, Family.empty.addStandard.1.lookup 0 .functions name = some (.native f) ∧
    (v = a ∨ v = b) ∧ v.extended? = some best ∧
    ∀ ctx s, Evaluation.callNative ctx f [a, b] s = .ok v s

theorem Functions.lookup_min :
    Family.empty.addStandard.1.lookup 0 .functions "min" =
      some (.native (binary "min" (choose Relation.atMost.test))) := by
  rw [addStandard_eq]
  rfl

theorem Functions.lookup_max :
    Family.empty.addStandard.1.lookup 0 .functions "max" =
      some (.native (binary "max" (choose Relation.atLeast.test))) := by
  rw [addStandard_eq]
  rfl

theorem Functions.chooses_of_lookup {name : String} {r : Relation} {best : ExtendedRational}
    (found : Family.empty.addStandard.1.lookup 0 .functions name =
      some (.native (binary name (choose r.test))))
    (ha : a.extended? = some x) (hb : b.extended? = some y)
    (first : r.Holds x y → x = best) (second : ¬ r.Holds x y → y = best) :
    Chooses name a b best := by
  refine ⟨_, if r.Holds x y then a else b, found, ?_, ?_, fun ctx s => ?_⟩
  · split
    · exact .inl rfl
    · exact .inr rfl
  · split
    · rw [ha, first ‹_›]
    · rw [hb, second ‹_›]
  · have chosen : choose r.test ctx a b = .ok (if r.Holds x y then a else b) := by
      rw [choose, Decimal.order_eq_cmp ha hb]
      exact congrArg Except.ok (if_congr (r.test_cmp x y) rfl rfl)
    change Evaluation.ofExcept (faultToFailure (choose r.test ctx a b)) s = _
    rw [chosen]
    rfl

/-- In every context, the comparison operators say how the extended rationals of two numbers lie
to each other, and `min` and `max` choose between the numbers by it. -/
theorem comparisons_exact (left : a.isNumber = true) (right : b.isNumber = true) :
    ∃ x y, a.extended? = some x ∧ b.extended? = some y ∧
      ∃ verdict : Relation → Decimal,
        (∀ r : Relation, ∃ operator,
          Family.empty.addStandard.1.lookup 0 .operators r.symbol = some operator ∧
          ∀ ctx, operator.operation.apply ctx a b = .ok (verdict r)) ∧
        (∀ r : Relation, verdict r = if r.Holds x y then .one else .zero) ∧
        (∃! r : Relation, r ∈ [Relation.less, .equal, .more] ∧ verdict r = .one) ∧
        (verdict .atMost = .one ↔ verdict .less = .one ∨ verdict .equal = .one) ∧
        (verdict .atLeast = .one ↔ verdict .more = .one ∨ verdict .equal = .one) ∧
        Functions.Chooses "min" a b (min x y) ∧ Functions.Chooses "max" a b (max x y) := by
  rw [← Decimal.extended?_isSome] at left right
  obtain ⟨x, ha⟩ := Option.isSome_iff_exists.mp left
  obtain ⟨y, hb⟩ := Option.isSome_iff_exists.mp right
  have one (r : Relation) : (if r.Holds x y then Decimal.one else .zero) = .one ↔ r.Holds x y := by
    split
    · exact iff_of_true rfl ‹_›
    · exact iff_of_false (by decide) ‹_›
  refine ⟨x, y, ha, hb, fun r => if r.Holds x y then .one else .zero, fun r => ?_, fun _ => rfl,
    ?_, ?_, ?_, ?_, ?_⟩
  · obtain ⟨name, mem⟩ := r.standard
    have standard : (Family.empty.addStandard.1.environment 0).operators =
        standardEnvironment.operators := by
      rw [addStandard_eq]
      rfl
    have found := lookup_standard standard _ mem
    refine ⟨_, found, fun ctx => ?_⟩
    change faultToFailure (r.apply ctx a b) = _
    rw [r.apply_numbers ctx ha hb]
    rfl
  · simp only [one]
    exact Relation.trichotomy x y
  · simp only [one]
    exact le_iff_lt_or_eq
  · simp only [one]
    exact le_iff_lt_or_eq.trans (or_congr_right eq_comm)
  · exact Functions.chooses_of_lookup Functions.lookup_min ha hb (fun le => (min_eq_left le).symm)
      fun gt => (min_eq_right (le_of_not_ge gt)).symm
  · exact Functions.chooses_of_lookup Functions.lookup_max ha hb (fun ge => (max_eq_left ge).symm)
      fun lt => (max_eq_right (le_of_not_ge lt)).symm

end

/-- A number next to one: its forty-one digits are more than the standard context keeps. -/
def nextToOne : Decimal := .finite false (tenPow 40 + 1) (-40)

theorem comparisons_exact_nextToOne :
    (∃ operator, Family.empty.addStandard.1.lookup 0 .operators ">" = some operator ∧
      ∀ ctx, operator.operation.apply ctx nextToOne .one = .ok .one) ∧
    Functions.Chooses "max" nextToOne .one (.ofRational (1 + 1 / 10 ^ 40)) := by
  obtain ⟨x, y, ha, hb, verdict, run, holds, -, -, -, -, greatest⟩ :=
    comparisons_exact (a := nextToOne) (b := .one) rfl rfl
  have exact : Decimal.scaled false (tenPow 40 + 1) (-40) = 1 + 1 / 10 ^ 40 := by
    norm_num [Decimal.scaled, Decimal.signed, tenPow]
  have unit : Decimal.scaled false 1 0 = 1 := by norm_num [Decimal.scaled, Decimal.signed]
  obtain rfl : ExtendedRational.ofRational (1 + 1 / 10 ^ 40) = x := by
    rw [← exact]
    exact Option.some.inj ha
  obtain rfl : ExtendedRational.ofRational 1 = y := by
    rw [← unit]
    exact Option.some.inj hb
  have more := ExtendedRational.ofRational_strictMono (show (1 : ℚ) < 1 + 1 / 10 ^ 40 by norm_num)
  constructor
  · obtain ⟨operator, found, gives⟩ := run .more
    rw [holds, if_pos (show Relation.more.Holds _ _ from more)] at gives
    exact ⟨operator, found, gives⟩
  · rwa [max_eq_left more.le] at greatest

end Calculator
