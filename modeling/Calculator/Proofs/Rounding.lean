import Calculator.Proofs.CanonicalText

/-!
# Calculator.Proofs.Rounding

The numbers of a context: what rounding gives, and what it leaves as it is.

Mathematical meaning: a context of `p` digits has the numbers `±c · 10 ^ e` in which `c` has at most
`p` digits, the last of them is not below the smallest exponent and the first not above the largest.
Rounding gives one of these unless its result is too large, and it loses nothing exactly if the
rational that it is given is one of theirs.

* `round_held`: what rounding gives is a number of the context.
* `round_kept_iff`: when rounding loses nothing.
-/

namespace Calculator

open Decimal

theorem divideHalfEven_le (n d : Nat) : divideHalfEven n d ≤ n / d + 1 := by
  unfold divideHalfEven
  dsimp only
  split <;> omega

theorem digitCount_le {n k : Nat} (pos : 0 < k) (h : n < tenPow k) : digitCount n ≤ k := by
  by_contra more
  have nonzero : n ≠ 0 := by
    rintro rfl
    have one : digitCount 0 = 1 := rfl
    omega
  have least := tenPow_le nonzero
  have grows : tenPow k ≤ tenPow (digitCount n - 1) := Nat.pow_le_pow_right (by decide) (by omega)
  omega

theorem digitCount_tenPow (k : Nat) : digitCount (tenPow k) = k + 1 := by
  have one := digitCount_scaled Nat.one_ne_zero k
  rw [Nat.one_mul] at one
  rw [one, Nat.add_comm]
  rfl

theorem digitCount_pos (n : Nat) : 0 < digitCount n := by
  rw [digitCount_eq_log]
  exact Nat.succ_pos _

/-- What is left of a number without its last `k` digits has no more digits than before, but may be
one followed by zeros. -/
theorem divideHalfEven_le_tenPow {c k : Nat} (h : k ≤ digitCount c) :
    divideHalfEven c (tenPow k) ≤ tenPow (digitCount c - k) := by
  have short : c / tenPow k < tenPow (digitCount c - k) := by
    rw [Nat.div_lt_iff_lt_mul (tenPow_pos k), ← tenPow_add, Nat.sub_add_cancel h]
    exact lt_tenPow_digitCount c
  have near := divideHalfEven_le c (tenPow k)
  omega

theorem tenth_of_wide {q p : Nat} (wide : p + 1 < digitCount q) (most : q ≤ tenPow (p + 1)) :
    q / 10 = tenPow p := by
  have same : q = tenPow (p + 1) := by
    by_contra other
    have narrow := digitCount_le (Nat.succ_pos p) (Nat.lt_of_le_of_ne most other)
    omega
  rw [same, tenPow_succ, Nat.mul_div_cancel _ (by decide)]

namespace Context

/-- A context that keeps some digit, and whose exponents leave room. -/
structure Proper (ctx : Context) : Prop where
  keeps : 1 ≤ ctx.precision
  room : ctx.tiniest ≤ ctx.maxExponent

/-- The numbers of a context. -/
structure Holds (ctx : Context) (c : Nat) (e : Int) : Prop where
  digits : digitCount c ≤ ctx.precision
  least : ctx.tiniest ≤ e
  greatest : adjusted c e ≤ ctx.maxExponent

/-- Whether a rational is a number of the context. -/
def Represents (ctx : Context) (q : ℚ) : Prop := ∃ n c e, ctx.Holds c e ∧ scaled n c e = q

theorem ofDigits_proper {digits : Nat} (h : 1 ≤ digits) : (ofDigits digits).Proper :=
  ⟨h, by simp only [tiniest, ofDigits]; omega⟩

/-- A context of more digits has more numbers. -/
theorem Holds.ofDigits_mono {j k c : Nat} {e : Int} (held : (ofDigits j).Holds c e) (h : j ≤ k) :
    (ofDigits k).Holds c e := by
  obtain ⟨digits, least, greatest⟩ := held
  simp only [tiniest, ofDigits] at digits least greatest
  refine ⟨digits.trans h, ?_, greatest⟩
  simp only [tiniest, ofDigits]
  omega

section

variable {ctx : Context} {n : Bool} {c : Nat} {e : Int}

theorem Proper.zero (proper : ctx.Proper) (least : ctx.tiniest ≤ e) (most : e ≤ ctx.maxExponent) :
    ctx.Holds 0 e := by
  refine ⟨proper.keeps, least, ?_⟩
  have one : digitCount 0 = 1 := rfl
  rw [adjusted, one]
  omega

/-- A rounded number of few enough digits is one of the context, if it is not too large. -/
theorem fit_held {inexact : Bool} (digits : digitCount c ≤ ctx.precision) (least : ctx.tiniest ≤ e)
    (zero : c = 0 → e ≤ ctx.maxExponent) (fits : (ctx.fit n c e inexact).overflow = false) :
    ∃ c' e', (ctx.fit n c e inexact).value = .finite n c' e' ∧ ctx.Holds c' e' := by
  rw [fit] at fits ⊢
  split at fits
  · cases fits
  · rename_i small
    rw [if_neg small]
    refine ⟨c, e, rfl, digits, least, ?_⟩
    by_cases none : c = 0
    · have one : digitCount 0 = 1 := rfl
      rw [none, adjusted, one]
      have bound := zero none
      omega
    · rw [not_and] at small
      exact Int.not_lt.mp (small none)

/-- What is left without some digits is a number of the context, if it is not too large: a carry
into one digit too many leaves a power of ten, of which a zero is dropped. -/
theorem cut_held {k : Nat} (proper : ctx.Proper) (bounded : adjusted c e ≤ ctx.maxExponent)
    (inside : k ≤ digitCount c) (digits : digitCount c ≤ ctx.precision + k)
    (least : ctx.tiniest ≤ e + k) (tight : digitCount c = ctx.precision + k ∨ e + k = ctx.tiniest)
    (fits : (ctx.cut n c e k).overflow = false) :
    ∃ c' e', (ctx.cut n c e k).value = .finite n c' e' ∧ ctx.Holds c' e' := by
  have keeps := proper.keeps
  have room := proper.room
  have most := divideHalfEven_le_tenPow inside
  simp only [cut] at fits ⊢
  rw [adjusted] at bounded
  split at fits
  · rename_i wide
    rw [if_pos wide]
    obtain ⟨p, same⟩ : ∃ p, ctx.precision = p + 1 := ⟨ctx.precision - 1, by omega⟩
    rw [same] at wide
    have fewer : tenPow (digitCount c - k) ≤ tenPow (p + 1) :=
      Nat.pow_le_pow_right (by decide) (by omega)
    rw [tenth_of_wide wide (most.trans fewer)] at fits ⊢
    refine fit_held (by rw [digitCount_tenPow]; omega) (by omega) ?_ fits
    exact fun none => absurd none (tenPow_pos p).ne'
  · rename_i narrow
    rw [if_neg narrow]
    exact fit_held (by omega) least (fun _ => by omega) fits

theorem round_held (proper : ctx.Proper) (fits : (ctx.round n c e).overflow = false) :
    ∃ c' e', (ctx.round n c e).value = .finite n c' e' ∧ ctx.Holds c' e' := by
  have room := proper.room
  by_cases zero : c = 0
  · rw [round, if_pos zero]
    exact ⟨0, _, rfl, proper.zero (by omega) (by omega)⟩
  · have rounds := @round_rounds ctx n c e zero
    generalize ctx.round n c e = r at rounds fits
    cases rounds with
    | large above => cases fits
    | whole bounded digits least => exact ⟨c, e, rfl, digits, least, bounded⟩
    | vanishing k bounded far place => exact ⟨0, e + k, rfl, proper.zero (by omega) (by omega)⟩
    | cut k bounded inside digits least tight =>
      exact cut_held proper bounded inside digits least tight fits

theorem finish_eq_ok {v : Decimal} (h : ctx.finish n c e = .ok v) :
    (ctx.round n c e).overflow = false ∧ (ctx.round n c e).value = v := by
  rw [finish, deliver] at h
  split at h
  · cases h
  · rename_i fits
    split at h
    · cases h
    · exact ⟨Bool.eq_false_of_not_eq_true fits, Except.ok.inj h⟩

theorem finish_held (proper : ctx.Proper) {v : Decimal} (h : ctx.finish n c e = .ok v) :
    ∃ c' e', v = .finite n c' e' ∧ ctx.Holds c' e' := by
  obtain ⟨fits, rfl⟩ := finish_eq_ok h
  exact round_held proper fits

/-- Zeros are dropped without a loss. -/
theorem cut_kept {d k : Nat} (digits : digitCount d ≤ ctx.precision)
    (greatest : adjusted d (e + k) ≤ ctx.maxExponent) : (ctx.cut n (d * tenPow k) e k).Kept := by
  have zeros : d * tenPow k % tenPow k = 0 := Nat.mul_mod_left ..
  have rest : d * tenPow k / tenPow k = d := Nat.mul_div_cancel d (tenPow_pos k)
  rw [cut, divideHalfEven_exact (tenPow_pos k) zeros, zeros, rest,
    if_neg (Nat.not_lt.mpr digits), fit, if_neg]
  · exact ⟨rfl, rfl⟩
  · rintro ⟨-, large⟩
    omega

/-- Two ways to write a rational: one has digits of the other before more zeros, or fewer. -/
theorem scaled_eq {m : Bool} {d : Nat} {f : Int} (nonzero : c ≠ 0) (other : d ≠ 0)
    (same : scaled m d f = scaled n c e) : ∃ core i j : Nat, core ≠ 0 ∧ d = core * tenPow i ∧
      c = core * tenPow j ∧ e + j = f + i := by
  obtain rfl := scaled_sign other same
  obtain ⟨core, j, rfl, last⟩ := exists_scaled nonzero
  rw [scaled_tenPow] at same
  have coarse := scaled_coarsest last same.symm
  obtain ⟨i, place⟩ : ∃ i : Nat, e + j = f + i := ⟨(e + j - f).toNat, by omega⟩
  rw [place, ← scaled_tenPow] at same
  exact ⟨core, i, j, Nat.ne_zero_of_mul_ne_zero_left nonzero, scaled_inj same, rfl, place⟩

/-- A rational of the context has no digits to lose. -/
theorem round_kept_of_represents (h : ctx.Represents (scaled n c e)) : (ctx.round n c e).Kept := by
  by_cases zero : c = 0
  · rw [round, if_pos zero]
    exact ⟨rfl, rfl⟩
  · obtain ⟨m, d, f, ⟨digits, least, greatest⟩, same⟩ := h
    have other : d ≠ 0 := by
      rintro rfl
      rw [scaled_zero] at same
      exact scaled_ne_zero n e zero same.symm
    obtain ⟨core, i, j, nonzero, rfl, rfl, place⟩ := scaled_eq zero other same
    rw [digitCount_scaled nonzero] at digits
    rw [adjusted, digitCount_scaled nonzero] at greatest
    have count := digitCount_scaled nonzero j
    have positive := digitCount_pos core
    have rounds := @round_rounds ctx n (core * tenPow j) e zero
    generalize ctx.round n (core * tenPow j) e = r at rounds
    cases rounds with
    | large above =>
      rw [adjusted] at above
      omega
    | whole bounded digits least => exact ⟨rfl, rfl⟩
    | vanishing k bounded far place => omega
    | cut k bounded inside fewer reached tight =>
      -- no more digits are dropped than there are zeros
      obtain ⟨rest, rfl⟩ := Nat.exists_eq_add_of_le (show k ≤ j by omega)
      have product : core * tenPow (k + rest) = core * tenPow rest * tenPow k := by
        rw [Nat.mul_assoc, ← tenPow_add, Nat.add_comm rest k]
      rw [product]
      refine cut_kept ?_ ?_
      · rw [digitCount_scaled nonzero]
        omega
      · rw [adjusted, digitCount_scaled nonzero]
        omega

theorem finish_of_represents (h : ctx.Represents (scaled n c e)) :
    ∃ v, ctx.finish n c e = .ok v ∧ v.rational? = some (scaled n c e) := by
  have kept := round_kept_of_represents h
  refine ⟨_, ?_, round_exact ctx n c e kept⟩
  rw [finish, deliver, kept.fits, kept.exact]
  rfl

/-- Rounding loses nothing exactly if the rational is one of the context. -/
theorem round_kept_iff (proper : ctx.Proper) :
    (ctx.round n c e).Kept ↔ ctx.Represents (scaled n c e) := by
  refine ⟨fun kept => ?_, round_kept_of_represents⟩
  obtain ⟨c', e', value, held⟩ := round_held proper kept.fits
  have same := round_exact ctx n c e kept
  rw [value] at same
  exact ⟨n, c', e', held, Option.some.inj same⟩

end

end Context
end Calculator
