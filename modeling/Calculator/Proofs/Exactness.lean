import Calculator.Library.Operators
import Calculator.Proofs.PlainText
import Mathlib.Data.Rat.Floor
import Mathlib.Tactic.FieldSimp
import Mathlib.Tactic.Linarith
import Mathlib.Tactic.Ring

/-!
# Calculator.Proofs.Exactness

Decimal arithmetic against the arithmetic of rational numbers: in a context that traps inexact
results, an operation that succeeds gives exactly the rational result.

Mathematical meaning: `finite n c e` denotes the rational `±c · 10 ^ e`. An operation forms a
coefficient and an exponent and rounds them once. Either what it forms denotes the rational result,
or it stands for a result with more digits than the context keeps and does not end in a zero, so
that rounding it is trapped.
-/

namespace Calculator

/-! ## Numbers of digits -/

theorem tenPow_pos (k : Nat) : 0 < tenPow k := Nat.pow_pos (by decide)

theorem tenPow_add (j k : Nat) : tenPow (j + k) = tenPow j * tenPow k := Nat.pow_add ..

theorem tenPow_cast (k : Nat) : ((tenPow k : Nat) : ℚ) = 10 ^ k := by
  rw [tenPow, Nat.pow_eq]
  push_cast
  rfl

theorem lt_digitCount {k n : Nat} (h : tenPow k ≤ n) : k < digitCount n := by
  rw [digitCount_eq_log, Nat.lt_succ_iff]
  exact Nat.le_log_of_pow_le (by decide) h

theorem lt_tenPow_digitCount (n : Nat) : n < tenPow (digitCount n) := by
  rw [digitCount_eq_log]
  exact Nat.lt_pow_succ_log_self (by decide) n

theorem tenPow_le {n : Nat} (h : n ≠ 0) : tenPow (digitCount n - 1) ≤ n := by
  rw [digitCount_eq_log]
  exact Nat.pow_log_le_self 10 h

theorem lt_of_digitCount_lt {m n : Nat} (h : digitCount m < digitCount n) : m < n := by
  by_contra le
  have mono := @Nat.log_mono_right 10 n m (by omega)
  rw [digitCount_eq_log, digitCount_eq_log] at h
  omega

namespace Decimal

/-! ## What a decimal denotes -/

/-- The rational `±c · 10 ^ e`. -/
def scaled (negative : Bool) (c : Nat) (e : Int) : ℚ := signed negative c * 10 ^ e

/-- The rational that a finite number denotes. -/
def rational? : Decimal → Option ℚ
  | .finite n c e => some (scaled n c e)
  | _ => none

theorem rational?_eq_some {a : Decimal} {q : ℚ} (h : a.rational? = some q) :
    ∃ n c e, a = .finite n c e ∧ scaled n c e = q := by
  cases a with
  | finite n c e => exact ⟨n, c, e, rfl, by simpa [rational?] using h⟩
  | infinity n => cases h
  | nan n s p => cases h

@[simp] theorem scaled_zero (n : Bool) (e : Int) : scaled n 0 e = 0 := by
  cases n <;> simp [scaled, signed]

theorem scaled_negate (n : Bool) (c : Nat) (e : Int) : scaled (!n) c e = -scaled n c e := by
  cases n <;> simp [scaled, signed]

theorem scaled_multiply (n m : Bool) (c d : Nat) (e f : Int) :
    scaled (n ^^ m) (c * d) (e + f) = scaled n c e * scaled m d f := by
  have split : (10 : ℚ) ^ (e + f) = 10 ^ e * 10 ^ f := zpow_add₀ (by norm_num) e f
  cases n <;> cases m <;> simp [scaled, signed, split] <;> ring

theorem scaled_tenPow (n : Bool) (c k : Nat) (e : Int) :
    scaled n (c * tenPow k) e = scaled n c (e + k) := by
  have split : (10 : ℚ) ^ (e + k) = 10 ^ e * 10 ^ k := by
    rw [zpow_add₀ (by norm_num), zpow_natCast]
  cases n <;> simp [scaled, signed, split, tenPow_cast] <;> ring

theorem scaled_lowered (n : Bool) (c : Nat) {e f : Int} (h : f ≤ e) :
    scaled n (lowered c e f) f = scaled n c e := by
  by_cases zero : c = 0
  · simp [lowered, zero]
  · have same : f + ((e - f).toNat : Int) = e := by omega
    rw [lowered, if_neg zero, scaled_tenPow, same]

theorem scaled_ne_zero (n : Bool) {c : Nat} (e : Int) (h : c ≠ 0) : scaled n c e ≠ 0 := by
  have power : (10 : ℚ) ^ e ≠ 0 := zpow_ne_zero e (by norm_num)
  cases n <;> simp [scaled, signed, h, power]

theorem negate_rational {a : Decimal} {q : ℚ} (h : a.rational? = some q) :
    a.negate.rational? = some (-q) := by
  obtain ⟨n, c, e, rfl, rfl⟩ := rational?_eq_some h
  exact congrArg some (scaled_negate n c e)

end Decimal

/-! ## Rounding -/

theorem divideHalfEven_exact {n d : Nat} (pos : 0 < d) (h : n % d = 0) :
    divideHalfEven n d = n / d := by
  simp [divideHalfEven, h, pos.ne]

namespace Rounded

/-- Rounding lost nothing. -/
structure Kept (r : Rounded) : Prop where
  fits : r.overflow = false
  exact : r.inexact = false

/-- The number is `q` unless rounding lost something. -/
def Exact (r : Rounded) (q : ℚ) : Prop := r.Kept → r.value.rational? = some q

end Rounded

namespace Context

open Decimal

theorem fit_kept {ctx : Context} {n inexact : Bool} {c : Nat} {e : Int}
    (kept : (ctx.fit n c e inexact).Kept) :
    inexact = false ∧ (ctx.fit n c e inexact).value = .finite n c e := by
  obtain ⟨fits, exact⟩ := kept
  rw [fit] at fits exact ⊢
  split at fits
  · cases fits
  · rename_i small
    rw [if_neg small] at exact ⊢
    exact ⟨exact, rfl⟩

/-- A coefficient without its last `k` digits, which are rounded away: a carry may have given it one
digit too many. -/
def cut (ctx : Context) (n : Bool) (c : Nat) (e : Int) (k : Nat) : Rounded :=
  let q := divideHalfEven c (tenPow k)
  if ctx.precision < digitCount q then ctx.fit n (q / 10) (e + k + 1) (c % tenPow k != 0)
  else ctx.fit n q (e + k) (c % tenPow k != 0)

/-- The ways in which a context rounds a nonzero number. -/
inductive Rounds (ctx : Context) (n : Bool) (c : Nat) (e : Int) : Rounded → Prop
  | large (above : ctx.maxExponent < adjusted c e) : Rounds ctx n c e (tooLarge n)
  | whole (bounded : adjusted c e ≤ ctx.maxExponent) (digits : digitCount c ≤ ctx.precision)
      (least : ctx.tiniest ≤ e) : Rounds ctx n c e (exact (.finite n c e))
  | vanishing (k : Nat) (bounded : adjusted c e ≤ ctx.maxExponent) (far : digitCount c < k)
      (place : e + k = ctx.tiniest) : Rounds ctx n c e ⟨.finite n 0 (e + k), false, true⟩
  | cut (k : Nat) (bounded : adjusted c e ≤ ctx.maxExponent) (inside : k ≤ digitCount c)
      (digits : digitCount c ≤ ctx.precision + k) (least : ctx.tiniest ≤ e + k)
      (tight : digitCount c = ctx.precision + k ∨ e + k = ctx.tiniest) :
      Rounds ctx n c e (ctx.cut n c e k)

theorem round_rounds {ctx : Context} {n : Bool} {c : Nat} {e : Int} (nonzero : c ≠ 0) :
    Rounds ctx n c e (ctx.round n c e) := by
  simp only [round, if_neg nonzero]
  generalize drops : max ((digitCount c : Int) - ctx.precision) (ctx.tiniest - e) = drop
  split
  · rename_i above
    exact .large above
  · rename_i bounded
    rw [Int.not_lt] at bounded
    split
    · exact .whole bounded (by omega) (by omega)
    · obtain ⟨k, rfl⟩ : ∃ k : Nat, drop = k := ⟨drop.toNat, by omega⟩
      split
      · exact .vanishing k bounded (by omega) (by omega)
      · rw [Int.toNat_natCast]
        exact .cut k bounded (by omega) (by omega) (by omega) (by omega)

/-- A rounding that lost nothing has dropped zeros, as many as there are digits too many or below
the smallest exponent. -/
theorem round_kept {ctx : Context} {n : Bool} {c : Nat} {e : Int} (nonzero : c ≠ 0)
    (kept : (ctx.round n c e).Kept) :
    ∃ k : Nat, digitCount c ≤ ctx.precision + k ∧ ctx.tiniest ≤ e + k ∧ c % tenPow k = 0 ∧
      (ctx.round n c e).value = .finite n (c / tenPow k) (e + k) := by
  have rounds := @round_rounds ctx n c e nonzero
  generalize ctx.round n c e = r at rounds kept
  cases rounds with
  | large above => cases kept.fits
  | whole bounded digits least =>
    refine ⟨0, digits, by omega, Nat.mod_one c, ?_⟩
    simp [exact, tenPow]
  | vanishing k bounded far place => cases kept.exact
  | cut k bounded inside digits least tight =>
    rw [cut] at kept ⊢
    have whole : c % tenPow k = 0 := by
      split at kept
      · simpa using (fit_kept kept).1
      · simpa using (fit_kept kept).1
    have product := Nat.div_mul_cancel (Nat.dvd_of_mod_eq_zero whole)
    have rest : c / tenPow k ≠ 0 := by
      intro none
      rw [none, Nat.zero_mul] at product
      exact nonzero product.symm
    -- without the digits that are dropped there are no more than the context keeps
    have scaled := digitCount_scaled rest k
    rw [product] at scaled
    have narrow : ¬ ctx.precision < digitCount (c / tenPow k) := by omega
    rw [divideHalfEven_exact (tenPow_pos k) whole, if_neg narrow] at kept ⊢
    exact ⟨k, digits, least, whole, (fit_kept kept).2⟩

/-- Rounding gives the number itself unless something was lost. -/
theorem round_exact (ctx : Context) (n : Bool) (c : Nat) (e : Int) :
    (ctx.round n c e).Exact (scaled n c e) := by
  intro kept
  by_cases zero : c = 0
  · simp [round, zero, Context.exact, rational?]
  · obtain ⟨k, -, -, whole, value⟩ := round_kept zero kept
    have cut := Nat.div_mul_cancel (Nat.dvd_of_mod_eq_zero whole)
    rw [value, rational?, ← scaled_tenPow, cut]

/-- A number with more digits than the context keeps, or with digits below the smallest exponent,
loses something if its last digit is not a zero. -/
theorem round_lossy {ctx : Context} {n : Bool} {c : Nat} {e : Int} (last : c % 10 ≠ 0)
    (long : ctx.precision < digitCount c ∨ e < ctx.tiniest) : ¬ (ctx.round n c e).Kept := by
  intro kept
  have nonzero : c ≠ 0 := by
    rintro rfl
    exact last rfl
  obtain ⟨k, digits, places, whole, -⟩ := round_kept nonzero kept
  obtain ⟨j, rfl⟩ : ∃ j, k = j + 1 := ⟨k - 1, by omega⟩
  have ten : 10 ∣ tenPow (j + 1) := Nat.dvd_mul_left 10 (tenPow j)
  exact last (Nat.mod_eq_zero_of_dvd (ten.trans (Nat.dvd_of_mod_eq_zero whole)))

section

variable {ctx : Context} {v : Decimal}

theorem deliver_eq_ok {r : Rounded} (traps : ctx.trapsInexact = true)
    (h : ctx.deliver r = .ok v) : r.Kept ∧ r.value = v := by
  simp only [deliver, traps, Bool.and_true] at h
  split at h
  · cases h
  · rename_i fits
    split at h
    · cases h
    · rename_i kept
      cases h
      exact ⟨⟨by simpa using fits, by simpa using kept⟩, rfl⟩

theorem deliver_exact {r : Rounded} {q : ℚ} (traps : ctx.trapsInexact = true) (exact : r.Exact q)
    (h : ctx.deliver r = .ok v) : v.rational? = some q := by
  obtain ⟨kept, rfl⟩ := deliver_eq_ok traps h
  exact exact kept

theorem finish_exact {n : Bool} {c : Nat} {e : Int} (traps : ctx.trapsInexact = true)
    (h : ctx.finish n c e = .ok v) : v.rational? = some (scaled n c e) :=
  deliver_exact traps (round_exact ctx n c e) h

theorem finish_lossy {n : Bool} {c : Nat} {e : Int} (traps : ctx.trapsInexact = true)
    (last : c % 10 ≠ 0) (long : ctx.precision < digitCount c ∨ e < ctx.tiniest) :
    ctx.finish n c e ≠ .ok v :=
  fun h => round_lossy last long (deliver_eq_ok traps h).1

end

end Context

namespace Decimal

/-! ## What operations form -/

theorem natAbs_signed (n : Bool) (c : Nat) : (signed n c).natAbs = c := by
  cases n <;> simp [signed]

theorem signed_negative {n : Bool} {c : Nat} (h : signed n c ≠ 0) :
    n = decide (signed n c < 0) := by
  cases n <;> simp [signed] at h ⊢
  omega

theorem signed_natAbs {n : Bool} {z : Int} (h : z ≠ 0 → n = decide (z < 0)) :
    signed n z.natAbs = z := by
  by_cases zero : z = 0
  · cases n <;> simp [signed, zero]
  · rw [h zero, signed]
    simp only [decide_eq_true_eq]
    split <;> omega

/-- What an operation forms stands for its result: it denotes the result, or it has more digits than
the context keeps and does not end in a zero. -/
def Stands (ctx : Context) (z : Int) (e : Int) (q : ℚ) : Prop :=
  z * 10 ^ e = q ∨ (z.natAbs % 10 ≠ 0 ∧ ctx.precision < digitCount z.natAbs)

section

variable {ctx : Context} {z e : Int} {q : ℚ} {n : Bool} {v : Decimal}

theorem Stands.round (h : Stands ctx z e q) (sign : z ≠ 0 → n = decide (z < 0)) :
    (ctx.round n z.natAbs e).Exact q := by
  rcases h with same | ⟨last, long⟩
  · have exact := ctx.round_exact n z.natAbs e
    rwa [scaled, signed_natAbs sign, same] at exact
  · intro kept
    exact absurd kept (Context.round_lossy last (.inl long))

theorem Stands.finish (h : Stands ctx z e q) (sign : z ≠ 0 → n = decide (z < 0))
    (traps : ctx.trapsInexact = true) (run : ctx.finish n z.natAbs e = .ok v) :
    v.rational? = some q :=
  Context.deliver_exact traps (h.round sign) run

theorem Stands.round_signed {c : Nat} (h : Stands ctx (signed n c) e q) :
    (ctx.round n c e).Exact q := by
  have exact := h.round signed_negative
  rwa [natAbs_signed] at exact

end

/-! ## Sums -/

/-- The digit that stands for an operand far to the right shows in the sum. -/
theorem nudged_lossy {p big : Nat} (n m : Bool) (ten : 10 ∣ big) (long : tenPow (p + 1) ≤ big) :
    (signed n big + signed m 1).natAbs % 10 ≠ 0 ∧ p < digitCount (signed n big + signed m 1).natAbs := by
  have pos := tenPow_pos p
  rw [tenPow_succ] at long
  constructor
  · cases n <;> cases m <;> simp only [signed, Bool.false_eq_true, if_true, if_false] <;> omega
  · apply lt_digitCount
    cases n <;> cases m <;> simp only [signed, Bool.false_eq_true, if_true, if_false] <;> omega

/-- The operand of a sum with the smaller exponent is visible as it is; or one digit stands for it,
far below those of the other operand. -/
theorem visible_cases (ctx : Context) (c : Nat) (e : Int) (small : Nat) (f : Int) :
    visible ctx c e small f = (small, f) ∨
      c ≠ 0 ∧ ∃ k, k ≠ 0 ∧ ctx.precision + 2 ≤ digitCount c + k ∧
        visible ctx c e small f = (if small = 0 then 0 else 1, e - (k : Nat)) := by
  obtain ⟨k, ne, deep, last⟩ : ∃ k : Nat, k ≠ 0 ∧ ctx.precision + 2 ≤ digitCount c + k ∧
      (if ctx.precision < digitCount c then e - 1 else e - 2 + digitCount c - ctx.precision) =
        e - k := by
    split
    · exact ⟨1, by decide, by omega, rfl⟩
    · exact ⟨ctx.precision + 2 - digitCount c, by omega, by omega, by omega⟩
  simp only [visible, last]
  split
  · rename_i far
    exact .inr ⟨far.1, k, ne, deep, rfl⟩
  · exact .inl rfl

theorem visible_stands (ctx : Context) (n m : Bool) (c : Nat) {e f : Int} (small : Nat) (h : f < e) :
    Stands ctx
      (signed n (lowered c e (visible ctx c e small f).2) + signed m (visible ctx c e small f).1)
      (visible ctx c e small f).2 (scaled n c e + scaled m small f) := by
  have sum (d : Nat) {g : Int} (le : g ≤ e) :
      ((signed n (lowered c e g) + signed m d : Int) : ℚ) * 10 ^ g = scaled n c e + scaled m d g := by
    rw [← scaled_lowered n c le, scaled, scaled]
    push_cast
    ring
  rcases visible_cases ctx c e small f with same | ⟨nonzero, k, ne, deep, same⟩
  · rw [same]
    exact .inl (sum small h.le)
  · rw [same]
    have below : e - (k : Int) ≤ e := by omega
    by_cases zero : small = 0
    · refine .inl ((sum _ below).trans ?_)
      simp [zero]
    · have cut : (e - (e - (k : Int))).toNat = k := by omega
      have ten : 10 ∣ c * tenPow k := by
        obtain ⟨j, rfl⟩ := Nat.exists_eq_succ_of_ne_zero ne
        rw [tenPow_succ, ← Nat.mul_assoc]
        exact Nat.dvd_mul_left 10 _
      have long : tenPow (ctx.precision + 1) ≤ c * tenPow k := by
        have pos : c * tenPow k ≠ 0 := Nat.mul_ne_zero nonzero (tenPow_pos k).ne'
        refine Nat.le_trans (Nat.pow_le_pow_right (by decide) ?_) (tenPow_le pos)
        rw [digitCount_scaled nonzero]
        omega
      rw [if_neg zero, lowered, if_neg nonzero, cut]
      exact .inr (nudged_lossy n m ten long)

theorem aligned_stands (ctx : Context) (n m : Bool) (c d : Nat) (e f : Int) :
    Stands ctx (signed n (aligned ctx c e d f).1 + signed m (aligned ctx c e d f).2.1)
      (aligned ctx c e d f).2.2 (scaled n c e + scaled m d f) := by
  rcases lt_trichotomy f e with less | rfl | more
  · simp only [aligned, less.ne', less, if_false, if_true]
    exact visible_stands ctx n m c d less
  · simp only [aligned, if_true]
    refine .inl ?_
    rw [scaled, scaled]
    push_cast
    ring
  · have no : ¬ f < e := by omega
    simp only [aligned, more.ne, no, if_false]
    rw [add_comm (signed n _), add_comm (scaled n c e)]
    exact visible_stands ctx m n d c more

section

variable {ctx : Context} {a b v : Decimal} {p q : ℚ}

theorem add_exact (traps : ctx.trapsInexact = true) (ha : a.rational? = some p)
    (hb : b.rational? = some q) (h : add ctx a b = .ok v) : v.rational? = some (p + q) := by
  obtain ⟨n, c, e, rfl, rfl⟩ := rational?_eq_some ha
  obtain ⟨m, d, f, rfl, rfl⟩ := rational?_eq_some hb
  have stands := aligned_stands ctx n m c d e f
  simp only [add, nanResult?] at h
  generalize aligned ctx c e d f = operands at stands h
  refine stands.finish ?_ traps h
  intro nonzero
  rw [if_neg nonzero]

theorem subtract_exact (traps : ctx.trapsInexact = true) (ha : a.rational? = some p)
    (hb : b.rational? = some q) (h : subtract ctx a b = .ok v) : v.rational? = some (p - q) := by
  have finite : nanResult? ctx a b = none := by
    obtain ⟨n, c, e, rfl, -⟩ := rational?_eq_some ha
    obtain ⟨m, d, f, rfl, -⟩ := rational?_eq_some hb
    rfl
  rw [subtract, finite] at h
  rw [sub_eq_add_neg]
  exact add_exact traps ha (negate_rational hb) h

/-! ## Products -/

theorem multiply_exact (traps : ctx.trapsInexact = true) (ha : a.rational? = some p)
    (hb : b.rational? = some q) (h : multiply ctx a b = .ok v) : v.rational? = some (p * q) := by
  obtain ⟨n, c, e, rfl, rfl⟩ := rational?_eq_some ha
  obtain ⟨m, d, f, rfl, rfl⟩ := rational?_eq_some hb
  rw [← scaled_multiply]
  exact Context.finish_exact traps h

end

/-! ## Quotients -/

theorem stripZeros_spec (fuel c : Nat) (limit : Int) :
    0 ≤ (stripZeros fuel c limit).2 ∧
      c = (stripZeros fuel c limit).1 * tenPow (stripZeros fuel c limit).2.toNat := by
  induction fuel generalizing c limit with
  | zero => simp [stripZeros, tenPow]
  | succ fuel ih =>
    rw [stripZeros]
    split
    · rename_i zeros
      obtain ⟨nonneg, same⟩ := ih (c / 10) (limit - 1)
      generalize stripZeros fuel (c / 10) (limit - 1) = stripped at nonneg same
      obtain ⟨kept, removed⟩ := stripped
      dsimp only at nonneg same ⊢
      have next : (removed + 1).toNat = removed.toNat + 1 := by omega
      refine ⟨by omega, ?_⟩
      rw [next, tenPow_succ, ← Nat.mul_assoc, ← same]
      omega
    · simp [tenPow]

section

variable {ctx : Context} {n m : Bool} {c d : Nat} {e f : Int}

/-- A quotient of coefficients that leaves no remainder, at the exponent that goes with it. -/
theorem scaled_divide {q : Nat} {shift : Int} (nonzero : d ≠ 0)
    (h : q * (d * tenPow (-shift).toNat) = c * tenPow shift.toNat) :
    scaled (n ^^ m) q (e - f - shift) = scaled n c e / scaled m d f := by
  have sign : (n ^^ m ^^ m) = n := by cases n <;> cases m <;> rfl
  have place : e - f - shift + f = e - shift := by omega
  rw [eq_div_iff (scaled_ne_zero m f nonzero), ← scaled_multiply, sign, place]
  by_cases up : 0 ≤ shift
  · have none : (-shift).toNat = 0 := by omega
    have same : e - shift + (shift.toNat : Int) = e := by omega
    rw [none, tenPow, Nat.pow_eq, Nat.pow_zero, Nat.mul_one] at h
    rw [h, scaled_tenPow, same]
  · have none : shift.toNat = 0 := by omega
    have same : e + ((-shift).toNat : Int) = e - shift := by omega
    rw [none, ← Nat.mul_assoc, tenPow, tenPow, Nat.pow_eq, Nat.pow_eq, Nat.pow_zero,
      Nat.mul_one] at h
    rw [← h, ← Nat.pow_eq, ← tenPow, scaled_tenPow, same]

theorem quotient_long (ctx : Context) {shift : Int} (hc : c ≠ 0) (hd : d ≠ 0)
    (h : shift = (digitCount d : Int) - digitCount c + ctx.precision + 1) :
    tenPow ctx.precision ≤ c * tenPow shift.toNat / (d * tenPow (-shift).toNat) := by
  have pos (k : Nat) : tenPow k ≠ 0 := (tenPow_pos k).ne'
  have less := lt_tenPow_digitCount (d * tenPow (-shift).toNat)
  have more := tenPow_le (Nat.mul_ne_zero hc (pos shift.toNat))
  rw [digitCount_scaled hd] at less
  rw [digitCount_scaled hc] at more
  have split : digitCount c + shift.toNat - 1 =
      ctx.precision + (digitCount d + (-shift).toNat) := by omega
  rw [Nat.le_div_iff_mul_le (Nat.pos_of_ne_zero (Nat.mul_ne_zero hd (pos _)))]
  calc tenPow ctx.precision * (d * tenPow (-shift).toNat)
      ≤ tenPow ctx.precision * tenPow (digitCount d + (-shift).toNat) :=
        Nat.mul_le_mul_left _ less.le
    _ = tenPow (digitCount c + shift.toNat - 1) := by rw [split, ← tenPow_add]
    _ ≤ c * tenPow shift.toNat := more

theorem quotient_stands (ctx : Context) (n m : Bool) (e f : Int) (hc : c ≠ 0) (hd : d ≠ 0) :
    Stands ctx (signed (n ^^ m) (quotient ctx c e d f).1) (quotient ctx c e d f).2
      (scaled n c e / scaled m d f) := by
  simp only [quotient]
  generalize hs : (digitCount d : Int) - digitCount c + ctx.precision + 1 = shift
  have long := quotient_long ctx hc hd hs.symm
  generalize hq : c * tenPow shift.toNat / (d * tenPow (-shift).toNat) = q at long ⊢
  split
  · rename_i whole
    have product := Nat.div_mul_cancel (Nat.dvd_of_mod_eq_zero whole)
    rw [hq] at product
    obtain ⟨nonneg, same⟩ := stripZeros_spec (digitCount q) q shift
    have place : e - f - shift + (stripZeros (digitCount q) q shift).2 =
        e - f - shift + ((stripZeros (digitCount q) q shift).2.toNat : Int) := by omega
    refine .inl ?_
    rw [← scaled_divide hd product, place]
    change scaled _ _ _ = _
    rw [← scaled_tenPow, ← same]
  · refine .inr ?_
    split
    · rw [natAbs_signed]
      exact ⟨by omega, lt_digitCount (by omega)⟩
    · rw [natAbs_signed]
      exact ⟨by omega, lt_digitCount long⟩

theorem divideRounded_exact (ctx : Context) (n m : Bool) (c : Nat) (e f : Int) (hd : d ≠ 0) :
    (divideRounded ctx n c e m d f).Exact (scaled n c e / scaled m d f) := by
  rw [divideRounded]
  split
  · rename_i zero
    have exact := ctx.round_exact (n ^^ m) 0 (e - f)
    rw [scaled_zero] at exact
    rwa [zero, scaled_zero, zero_div]
  · rename_i nonzero
    exact (quotient_stands ctx n m e f nonzero hd).round_signed

end

section

variable {ctx : Context} {a b v : Decimal} {p q : ℚ}

theorem divide_exact (traps : ctx.trapsInexact = true) (ha : a.rational? = some p)
    (hb : b.rational? = some q) (h : divide ctx a b = .ok v) :
    q ≠ 0 ∧ v.rational? = some (p / q) := by
  obtain ⟨n, c, e, rfl, rfl⟩ := rational?_eq_some ha
  obtain ⟨m, d, f, rfl, rfl⟩ := rational?_eq_some hb
  simp only [divide, nanResult?] at h
  split at h
  · split at h <;> cases h
  · rename_i nonzero
    exact ⟨scaled_ne_zero m f nonzero,
      Context.deliver_exact traps (divideRounded_exact ctx n m c e f nonzero) h⟩

end

/-! ## Remainders -/

/-- A rational cut to an integer. -/
def truncate (q : ℚ) : ℤ := if 0 ≤ q then ⌊q⌋ else ⌈q⌉

theorem truncate_neg (q : ℚ) : truncate (-q) = -truncate q := by
  rcases lt_trichotomy q 0 with less | rfl | more
  · rw [truncate, truncate, if_pos (by linarith), if_neg (by linarith), Int.floor_neg]
  · simp [truncate]
  · rw [truncate, truncate, if_neg (by linarith), if_pos (by linarith), Int.ceil_neg]

theorem truncate_natCast_div (c d : Nat) : truncate ((c : ℚ) / d) = (c / d : Nat) := by
  have nonneg : (0 : ℚ) ≤ (c : ℚ) / d := by positivity
  rw [truncate, if_pos nonneg]
  exact_mod_cast Rat.floor_natCast_div_natCast c d

theorem truncate_scaled (n m : Bool) (c d : Nat) (g : Int) :
    truncate (scaled n c g / scaled m d g) = signed (n ^^ m) (c / d) := by
  have ten : (10 : ℚ) ^ g ≠ 0 := zpow_ne_zero g (by norm_num)
  have ratio : scaled n c g / scaled m d g = signed (n ^^ m) 1 * ((c : ℚ) / d) := by
    rw [scaled, scaled, mul_div_mul_right _ _ ten]
    cases n <;> cases m <;> simp [signed, neg_div, div_neg]
  rw [ratio]
  cases n <;> cases m <;> simp [signed, truncate_neg, truncate_natCast_div]

theorem scaled_remainder (n m : Bool) (c d : Nat) (g : Int) :
    scaled n c g - scaled m d g * truncate (scaled n c g / scaled m d g) = scaled n (c % d) g := by
  have whole : (c : ℚ) = d * (c / d : Nat) + (c % d : Nat) := by
    exact_mod_cast (Nat.div_add_mod c d).symm
  rw [truncate_scaled]
  generalize c / d = k at whole ⊢
  generalize c % d = r at whole ⊢
  cases n <;> cases m <;> simp [scaled, signed, whole] <;> ring

/-- Numbers are ordered like their coefficients at a common exponent. -/
theorem orderMagnitudes_eq (c d : Nat) (e f : Int) :
    orderMagnitudes c e d f = compare (lowered c e (min e f)) (lowered d f (min e f)) := by
  have pos (k : Nat) : tenPow k ≠ 0 := (tenPow_pos k).ne'
  rw [orderMagnitudes]
  by_cases hc : c = 0
  · by_cases hd : d = 0
    · simp [hc, hd, lowered]
    · have more : 0 < lowered d f (min e f) := by
        rw [lowered, if_neg hd]
        exact Nat.pos_of_ne_zero (Nat.mul_ne_zero hd (pos _))
      rw [if_pos hc, if_neg hd, lowered, if_pos hc]
      exact (Nat.compare_eq_lt.mpr more).symm
  · by_cases hd : d = 0
    · have more : 0 < lowered c e (min e f) := by
        rw [lowered, if_neg hc]
        exact Nat.pos_of_ne_zero (Nat.mul_ne_zero hc (pos _))
      rw [if_neg hc, if_pos hd, hd]
      exact (Nat.compare_eq_gt.mpr more).symm
    · have left : (e - min e f).toNat = (e - f).toNat := by omega
      have right : (f - min e f).toNat = (f - e).toNat := by omega
      rw [if_neg hc, if_neg hd, lowered, if_neg hc, lowered, if_neg hd, left, right]
      have digits := digitCount_scaled hc (e - f).toNat
      have digits' := digitCount_scaled hd (f - e).toNat
      split
      · rename_i less
        simp only [adjusted] at less
        exact (Nat.compare_eq_lt.mpr (lt_of_digitCount_lt (by omega))).symm
      · split
        · rename_i more
          simp only [adjusted] at more
          exact (Nat.compare_eq_gt.mpr (lt_of_digitCount_lt (by omega))).symm
        · rfl

section

variable {ctx : Context} {a b v : Decimal} {p q : ℚ}

theorem remainder_exact (traps : ctx.trapsInexact = true) (ha : a.rational? = some p)
    (hb : b.rational? = some q) (h : remainder ctx a b = .ok v) :
    q ≠ 0 ∧ v.rational? = some (p - q * truncate (p / q)) := by
  obtain ⟨n, c, e, rfl, rfl⟩ := rational?_eq_some ha
  obtain ⟨m, d, f, rfl, rfl⟩ := rational?_eq_some hb
  simp only [remainder, nanResult?] at h
  split at h
  · cases h
  · rename_i nonzero
    refine ⟨scaled_ne_zero m f nonzero, ?_⟩
    rw [← scaled_lowered n c (min_le_left e f), ← scaled_lowered m d (min_le_right e f),
      scaled_remainder]
    split at h
    · rename_i zero
      rw [lowered, if_pos zero, Nat.zero_mod]
      exact Context.finish_exact traps h
    · split at h
      · rename_i less
        rw [beq_iff_eq, orderMagnitudes_eq, Nat.compare_eq_lt] at less
        rw [Nat.mod_eq_of_lt less]
        exact Context.finish_exact traps h
      · split at h
        · cases h
        · split at h
          · cases h
          · exact Context.finish_exact traps h

end

end Decimal
end Calculator
