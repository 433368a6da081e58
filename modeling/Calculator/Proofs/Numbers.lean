import Calculator.Library.Functions
import Calculator.Proofs.Matching

/-!
# Calculator.Proofs.Numbers

No arithmetic of numbers ends in a NaN. Infinities are numbers here: where an operation on them has
no value, it fails.

* `nanResult?_eq_none`: two operands force no result exactly if neither is a NaN.
* `add_number`, `multiply_number`, …: in every context, an operation gives numbers for numbers.
* `Operators.all_keep`, `Functions.all_keep`: so do the operators and functions of the library.
* `Comparison.numbers`: evaluations among numbers.
-/

namespace Calculator

namespace Decimal

def isNumber : Decimal → Bool
  | .nan .. => false
  | _ => true

theorem isNumber_of_finite {a : Decimal} (h : a.isFinite = true) : a.isNumber = true := by
  cases a with
  | finite n c e => rfl
  | infinity n => rfl
  | nan n s p => cases h

@[simp] theorem negate_isNumber (a : Decimal) : a.negate.isNumber = a.isNumber := by
  cases a <;> rfl

@[simp] theorem absolute_isNumber (a : Decimal) : a.absolute.isNumber = a.isNumber := by
  cases a <;> rfl

end Decimal

/-- A computation that gives a number whenever it gives anything. -/
def GivesNumber {ε : Type} (x : Except ε Decimal) : Prop := ∀ v, x = .ok v → v.isNumber = true

section

variable {ε α : Type}

theorem givesNumber_ok {v : Decimal} (h : v.isNumber = true) :
    GivesNumber (.ok v : Except ε Decimal) := by
  rintro _ ⟨⟩
  exact h

theorem givesNumber_error (e : ε) : GivesNumber (.error e) := nofun

theorem givesNumber_bind {x : Except ε α} {f : α → Except ε Decimal}
    (rest : ∀ a, x = .ok a → GivesNumber (f a)) : GivesNumber (x >>= f) := by
  cases x with
  | error e => exact givesNumber_error e
  | ok a => exact rest a rfl

theorem givesNumber_faultToFailure {x : Except Fault Decimal} (h : GivesNumber x) :
    GivesNumber (faultToFailure x) := by
  cases x with
  | error f => exact givesNumber_error _
  | ok v => exact givesNumber_ok (h v rfl)

end

/-! ## Rounding -/

namespace Context

theorem fit_isNumber (ctx : Context) (negative : Bool) (c : Nat) (e : Int) (inexact : Bool) :
    (ctx.fit negative c e inexact).value.isNumber = true := by
  unfold fit
  split <;> rfl

theorem round_isNumber (ctx : Context) (negative : Bool) (c : Nat) (e : Int) :
    (ctx.round negative c e).value.isNumber = true := by
  unfold round
  dsimp only
  split
  · rfl
  split
  · rfl
  split
  · rfl
  split
  · rfl
  split
  · exact fit_isNumber ..
  · exact fit_isNumber ..

theorem deliver_number (ctx : Context) {r : Rounded} (h : r.value.isNumber = true) :
    GivesNumber (ctx.deliver r) := by
  unfold deliver
  split
  · exact givesNumber_error _
  · split
    · exact givesNumber_error _
    · exact givesNumber_ok h

theorem finish_number (ctx : Context) (negative : Bool) (c : Nat) (e : Int) :
    GivesNumber (ctx.finish negative c e) := ctx.deliver_number (ctx.round_isNumber negative c e)

end Context

/-! ## Arithmetic -/

namespace Decimal

variable {ctx : Context} {a b : Decimal}

/-- Only a NaN operand forces a result. -/
theorem nanResult?_eq_none :
    nanResult? ctx a b = none ↔ a.isNumber = true ∧ b.isNumber = true := by
  have second (s : Bool) (p : Nat) (m : Bool) : nanResult? ctx a (.nan m s p) ≠ none := by
    cases a with
    | nan n t q => cases t <;> cases s <;> exact Option.some_ne_none _
    | _ => cases s <;> exact Option.some_ne_none _
  cases b with
  | nan m s p => exact ⟨fun h => absurd h (second s p m), fun h => by cases h.2⟩
  | _ =>
    cases a with
    | nan n s p =>
      cases s <;> exact ⟨fun h => absurd h (Option.some_ne_none _), fun h => by cases h.1⟩
    | _ => exact ⟨fun _ => ⟨rfl, rfl⟩, fun _ => rfl⟩

theorem add_number (left : a.isNumber = true) (right : b.isNumber = true) :
    GivesNumber (add ctx a b) := by
  cases a with
  | nan n s p => cases left
  | infinity n =>
    cases b with
    | nan m s p => cases right
    | finite m d f => exact givesNumber_ok rfl
    | infinity m =>
      change GivesNumber (if n = m then _ else _)
      split
      · exact givesNumber_ok rfl
      · exact givesNumber_error _
  | finite n c e =>
    cases b with
    | nan m s p => cases right
    | infinity m => exact givesNumber_ok rfl
    | finite m d f => exact ctx.finish_number _ _ _

theorem subtract_number (left : a.isNumber = true) (right : b.isNumber = true) :
    GivesNumber (subtract ctx a b) := by
  unfold subtract
  rw [nanResult?_eq_none.mpr ⟨left, right⟩]
  exact add_number left (b.negate_isNumber.trans right)

theorem minus_number (h : a.isNumber = true) : GivesNumber (minus ctx a) := by
  cases a with
  | nan n s p => cases h
  | infinity n => exact givesNumber_ok rfl
  | finite n c e => exact ctx.finish_number _ _ _

theorem multiply_number (left : a.isNumber = true) (right : b.isNumber = true) :
    GivesNumber (multiply ctx a b) := by
  have infinite {n : Bool} {d : Nat} : GivesNumber
      (if d = 0 then invalid .operation else .ok (.infinity n)) := by
    split
    · exact givesNumber_error _
    · exact givesNumber_ok rfl
  cases a with
  | nan n s p => cases left
  | infinity n =>
    cases b with
    | nan m s p => cases right
    | infinity m => exact givesNumber_ok rfl
    | finite m d f => exact infinite
  | finite n c e =>
    cases b with
    | nan m s p => cases right
    | infinity m => exact infinite
    | finite m d f => exact ctx.finish_number _ _ _

theorem divideRounded_isNumber (n : Bool) (c : Nat) (e : Int) (m : Bool) (d : Nat) (f : Int) :
    (divideRounded ctx n c e m d f).value.isNumber = true := by
  unfold divideRounded
  split
  · exact ctx.round_isNumber _ _ _
  · exact ctx.round_isNumber _ _ _

theorem divide_number (left : a.isNumber = true) (right : b.isNumber = true) :
    GivesNumber (divide ctx a b) := by
  cases a with
  | nan n s p => cases left
  | infinity n =>
    cases b with
    | nan m s p => cases right
    | infinity m => exact givesNumber_error _
    | finite m d f => exact givesNumber_ok rfl
  | finite n c e =>
    cases b with
    | nan m s p => cases right
    | infinity m => exact givesNumber_ok rfl
    | finite m d f =>
      change GivesNumber (if d = 0 then if c = 0 then _ else _ else _)
      split
      · split
        · exact givesNumber_error _
        · exact givesNumber_error _
      · exact ctx.deliver_number (divideRounded_isNumber ..)

theorem remainder_number (left : a.isNumber = true) (right : b.isNumber = true) :
    GivesNumber (remainder ctx a b) := by
  cases a with
  | nan n s p => cases left
  | infinity n =>
    cases b with
    | nan m s p => cases right
    | infinity m => exact givesNumber_error _
    | finite m d f => exact givesNumber_error _
  | finite n c e =>
    cases b with
    | nan m s p => cases right
    | infinity m => exact ctx.finish_number _ _ _
    | finite m d f =>
      change GivesNumber (if d = 0 then _ else _)
      split
      · exact givesNumber_error _
      dsimp only
      split
      · exact ctx.finish_number _ _ _
      split
      · exact ctx.finish_number _ _ _
      split
      · exact givesNumber_error _
      split
      · exact givesNumber_error _
      · exact ctx.finish_number _ _ _

theorem squareRoot_number (h : a.isNumber = true) : GivesNumber (squareRoot ctx a) := by
  cases a with
  | nan n s p => cases h
  | infinity n =>
    cases n with
    | false => exact givesNumber_ok rfl
    | true => exact givesNumber_error _
  | finite n c e =>
    change GivesNumber (if c = 0 then _ else if n then _ else _)
    split
    · exact ctx.finish_number _ _ _
    split
    · exact givesNumber_error _
    · exact ctx.finish_number _ _ _

theorem toIntegral_number (mode : Rounding) (h : a.isNumber = true) :
    GivesNumber (toIntegral mode a) := by
  cases a with
  | nan n s p => cases h
  | infinity n => exact givesNumber_ok rfl
  | finite n c e =>
    rw [toIntegral]
    split
    · exact givesNumber_ok rfl
    · exact givesNumber_ok rfl

theorem power_number (h : a.isNumber = true) (exponent : Int) :
    GivesNumber (power ctx a exponent) := by
  unfold power
  rw [nanResult?_eq_none.mpr ⟨h, h⟩]
  cases a with
  | nan n s p => cases h
  | infinity n =>
    refine givesNumber_ok ?_
    split <;> rfl
  | finite n c e =>
    dsimp only
    split
    · refine givesNumber_ok ?_
      split <;> rfl
    split
    · exact givesNumber_ok rfl
    split
    · exact ctx.deliver_number rfl
    split
    · exact ctx.finish_number _ _ _
    -- What the squarings leave is rounded if it is finite, and anything else is too large.
    split
    · exact ctx.deliver_number (ctx.round_isNumber _ _ _)
    · exact ctx.deliver_number rfl

end Decimal

/-! ## The library -/

/-- Evaluations among numbers; no failure is pardoned. -/
def Comparison.numbers : Comparison where
  proper v := v.isNumber = true
  pardoned _ := False
  finite := Decimal.isNumber_of_finite
  negate h := (Decimal.negate_isNumber _).trans h
  multiply left right run := Decimal.multiply_number left right _ run
  within _ := id

theorem truth_isNumber (holds : Bool) : (truth holds).isNumber = true := by cases holds <;> rfl

namespace Operators

variable {ctx : Context} {a b : Decimal}

theorem power_number (left : a.isNumber = true) : GivesNumber (power ctx a b) := by
  refine givesNumber_bind fun whole _ => givesNumber_bind fun exponent _ => ?_
  split
  · exact givesNumber_ok rfl
  · exact Decimal.power_number left exponent

theorem equality_number (test : Option Ordering → Bool) : GivesNumber (equality test ctx a b) := by
  unfold equality
  split
  · exact givesNumber_error _
  · exact givesNumber_ok (truth_isNumber _)

theorem comparison_number (test : Ordering → Bool) : GivesNumber (comparison test ctx a b) := by
  unfold comparison
  split
  · exact givesNumber_error _
  · exact givesNumber_ok (truth_isNumber _)

theorem standard_keeps (symbol : String) (precedence : Nat) (name : String)
    {apply : Context → Decimal → Decimal → Except Fault Decimal}
    (gives : ∀ {ctx a b}, a.isNumber = true → b.isNumber = true → GivesNumber (apply ctx a b)) :
    Comparison.numbers.Keeps (standard symbol precedence name apply).operation := by
  intro ctx a b v left right run
  exact givesNumber_faultToFailure (gives left right) v run

theorem all_keep : ∀ binding ∈ all, Comparison.numbers.Keeps binding.operation := by
  simp only [all, List.forall_mem_cons]
  exact ⟨standard_keeps _ _ _ Decimal.add_number, standard_keeps _ _ _ Decimal.subtract_number,
    standard_keeps _ _ _ Decimal.multiply_number, standard_keeps _ _ _ Decimal.divide_number,
    standard_keeps _ _ _ Decimal.remainder_number,
    standard_keeps _ _ _ fun left _ => power_number left,
    standard_keeps _ _ _ fun _ _ => equality_number _,
    standard_keeps _ _ _ fun _ _ => equality_number _,
    standard_keeps _ _ _ fun _ _ => comparison_number _,
    standard_keeps _ _ _ fun _ _ => comparison_number _,
    standard_keeps _ _ _ fun _ _ => comparison_number _,
    standard_keeps _ _ _ fun _ _ => comparison_number _, by rintro _ ⟨⟩⟩

end Operators

namespace Functions

variable {ctx : Context} {a b : Decimal}

theorem choose_number (accept : Ordering → Bool) (left : a.isNumber = true)
    (right : b.isNumber = true) : GivesNumber (choose accept ctx a b) := by
  unfold choose
  split
  · exact givesNumber_error _
  · refine givesNumber_ok ?_
    split
    · exact left
    · exact right

theorem between_number {fraction low high : Decimal} (drawn : fraction.isNumber = true)
    (least : low.isNumber = true) (most : high.isNumber = true) :
    GivesNumber (between ctx fraction low high) := by
  refine givesNumber_bind fun width spans => givesNumber_bind fun part taken => ?_
  have wide := Decimal.subtract_number most least width spans
  exact Decimal.add_number least (Decimal.multiply_number wide drawn part taken)

theorem unary_keeps (name : String) {run : Context → Decimal → Except Fault Decimal}
    (gives : ∀ {ctx a}, a.isNumber = true → GivesNumber (run ctx a)) :
    Comparison.numbers.KeepsNative (unary name run) := by
  intro ctx arguments v proper
  dsimp only
  split
  · exact givesNumber_faultToFailure (gives (proper _ List.mem_cons_self)) v
  · exact givesNumber_error _ v

theorem binary_keeps (name : String) {run : Context → Decimal → Decimal → Except Fault Decimal}
    (gives : ∀ {ctx a b}, a.isNumber = true → b.isNumber = true → GivesNumber (run ctx a b)) :
    Comparison.numbers.KeepsNative (binary name run) := by
  intro ctx arguments v proper
  dsimp only
  split
  · rename_i a b
    have left := proper a List.mem_cons_self
    have right := proper b (List.mem_cons_of_mem _ List.mem_cons_self)
    exact givesNumber_faultToFailure (gives left right) v
  · exact givesNumber_error _ v

theorem random_keeps :
    Comparison.numbers.KeepsNative (standard "random" 0 (some 2) (.drawing random)) := by
  intro ctx fraction arguments v finite proper
  have drawn := Decimal.isNumber_of_finite finite
  unfold random
  split
  · exact givesNumber_ok drawn v
  · exact givesNumber_faultToFailure (between_number drawn rfl (proper _ List.mem_cons_self)) v
  · rename_i low high
    have least := proper low List.mem_cons_self
    have most := proper high (List.mem_cons_of_mem _ List.mem_cons_self)
    exact givesNumber_faultToFailure (between_number drawn least most) v
  · exact givesNumber_error _ v

theorem all_keep : ∀ f ∈ all, Comparison.numbers.KeepsNative f := by
  simp only [all, List.forall_mem_cons]
  exact ⟨unary_keeps _ fun h => givesNumber_ok ((Decimal.absolute_isNumber _).trans h),
    unary_keeps _ (Decimal.toIntegral_number _), unary_keeps _ (Decimal.toIntegral_number _),
    binary_keeps _ (choose_number _), binary_keeps _ (choose_number _),
    unary_keeps _ Decimal.minus_number, random_keeps,
    unary_keeps _ (Decimal.toIntegral_number _), unary_keeps _ Decimal.squareRoot_number,
    by rintro _ ⟨⟩⟩

end Functions
end Calculator
