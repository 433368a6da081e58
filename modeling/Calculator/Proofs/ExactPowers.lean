import Calculator.Proofs.Exactness

/-!
# Calculator.Proofs.ExactPowers

Powers with whole exponents that are not negative: in a context that traps inexact results, a power
that is formed at all is the rational power.

* `powerDown_exact`, `powerUp_exact`: squaring and multiplying along the binary digits of the
  exponent, from either end, loses nothing or says so.
* `Operators.power_exact`: the operator, whose exponent is a decimal.
-/

namespace Calculator
namespace Decimal

/-! ## Products of rounded numbers -/

theorem multiplyRounded_kept {ctx : Context} {a b : Rounded}
    (h : (multiplyRounded ctx a b).Kept) : a.Kept ∧ b.Kept := by
  simp only [multiplyRounded] at h
  split at h
  · obtain ⟨fits, exact⟩ := h
    simp only [Bool.or_eq_false_iff] at fits exact
    exact ⟨⟨fits.1.1, exact.1.1⟩, ⟨fits.1.2, exact.1.2⟩⟩
  all_goals
    obtain ⟨fits, exact⟩ := h
    simp only [Bool.or_eq_false_iff] at fits exact
    exact ⟨⟨fits.1, exact.1⟩, ⟨fits.2, exact.2⟩⟩

theorem multiplyRounded_exact (ctx : Context) {a b : Rounded} {p q : ℚ} (ha : a.Exact p)
    (hb : b.Exact q) : (multiplyRounded ctx a b).Exact (p * q) := by
  intro kept
  obtain ⟨keptLeft, keptRight⟩ := multiplyRounded_kept kept
  obtain ⟨n, c, e, left, rfl⟩ := rational?_eq_some (ha keptLeft)
  obtain ⟨m, d, f, right, rfl⟩ := rational?_eq_some (hb keptRight)
  obtain ⟨fits, exact⟩ := kept
  simp only [multiplyRounded, left, right, Bool.or_eq_false_iff] at fits exact ⊢
  rw [← scaled_multiply]
  exact ctx.round_exact _ _ _ ⟨fits.2, exact.2⟩

/-- A number that further multiplication leaves as it is denotes zero, if it denotes anything. -/
theorem settled_rational {a : Decimal} {q : ℚ} (h : settled a = true) (ha : a.rational? = some q) :
    q = 0 := by
  obtain ⟨n, c, e, rfl, rfl⟩ := rational?_eq_some ha
  rw [settled, beq_iff_eq] at h
  rw [h, scaled_zero]

theorem settled_exact {r : Rounded} {p q : ℚ} (h : settled r.value = true) (exact : r.Exact p)
    (nonzero : p ≠ 0) : r.Exact q :=
  fun kept => absurd (settled_rational h (exact kept)) nonzero

/-! ## Binary digits -/

/-- The number whose binary digits follow those of `n`, the highest first. -/
def fromHighest : Nat → List Bool → Nat
  | n, [] => n
  | n, bit :: rest => fromHighest (2 * n + bit.toNat) rest

/-- The number of the given binary digits, the lowest first. -/
def fromLowest : List Bool → Nat
  | [] => 0
  | bit :: rest => bit.toNat + 2 * fromLowest rest

theorem fromHighest_append (n : Nat) (bits : List Bool) (bit : Bool) :
    fromHighest n (bits ++ [bit]) = 2 * fromHighest n bits + bit.toNat := by
  induction bits generalizing n with
  | nil => rfl
  | cons first rest ih => exact ih _

theorem odd_toNat (n : Nat) : (n % 2 == 1).toNat = n % 2 := by
  rcases Nat.mod_two_eq_zero_or_one n with even | odd
  · rw [even]; rfl
  · rw [odd]; rfl

theorem fromLowest_bits (fuel n : Nat) (h : n < 2 ^ fuel) : fromLowest (bits fuel n) = n := by
  induction fuel generalizing n with
  | zero =>
    have zero : n = 0 := by omega
    rw [zero]
    rfl
  | succ fuel ih =>
    rw [bits]
    split
    · rename_i zero
      rw [zero]
      rfl
    · rw [fromLowest, ih (n / 2) (by omega), odd_toNat]
      omega

/-- The binary digits of a positive number from the highest on, which is a one. -/
theorem reverse_bits (fuel n : Nat) (pos : n ≠ 0) (h : n < 2 ^ fuel) :
    ∃ rest, (bits fuel n).reverse = true :: rest ∧ fromHighest 1 rest = n := by
  induction fuel generalizing n with
  | zero => omega
  | succ fuel ih =>
    rw [bits, if_neg pos, List.reverse_cons]
    by_cases one : n = 1
    · subst one
      refine ⟨[], ?_, rfl⟩
      cases fuel <;> rfl
    · obtain ⟨rest, same, value⟩ := ih (n / 2) (by omega) (by omega)
      refine ⟨rest ++ [n % 2 == 1], by rw [same]; rfl, ?_⟩
      rw [fromHighest_append, value, odd_toNat]
      omega

/-! ## Squaring and multiplying -/

theorem powerDown_exact (ctx : Context) {base : Rounded} {p : ℚ} (hp : p ≠ 0) (hbase : base.Exact p)
    (bits : List Bool) : ∀ {acc : Rounded} {n : Nat}, acc.Exact (p ^ n) →
      (powerDown ctx base acc bits).Exact (p ^ fromHighest n bits) := by
  induction bits with
  | nil =>
    intro acc n hacc
    exact hacc
  | cons bit rest ih =>
    intro acc n hacc
    have square := multiplyRounded_exact ctx hacc hacc
    rw [← pow_add, ← two_mul] at square
    have next : (if bit = true then multiplyRounded ctx (multiplyRounded ctx acc acc) base
        else multiplyRounded ctx acc acc).Exact (p ^ (2 * n + bit.toNat)) := by
      cases bit with
      | false => exact square
      | true =>
        have product := multiplyRounded_exact ctx square hbase
        rwa [← pow_succ] at product
    simp only [powerDown]
    generalize (if bit = true then multiplyRounded ctx (multiplyRounded ctx acc acc) base
      else multiplyRounded ctx acc acc) = more at next ⊢
    split
    · rename_i stays
      exact settled_exact stays next (pow_ne_zero _ hp)
    · exact ih next

theorem powerUp_exact (ctx : Context) (bits : List Bool) : ∀ {acc base : Rounded} {p q : ℚ},
    p ≠ 0 → q ≠ 0 → acc.Exact p → base.Exact q →
      (powerUp ctx acc base bits).Exact (p * q ^ fromLowest bits) := by
  induction bits with
  | nil =>
    intro acc base p q _ _ hacc _
    rwa [powerUp, fromLowest, pow_zero, mul_one]
  | cons bit rest ih =>
    intro acc base p q hp hq hacc hbase
    have square := multiplyRounded_exact ctx hbase hbase
    have next : (if bit = true then multiplyRounded ctx acc base else acc).Exact
        (p * q ^ bit.toNat) := by
      cases bit with
      | false => simpa using hacc
      | true => simpa using multiplyRounded_exact ctx hacc hbase
    have nonzero : p * q ^ bit.toNat ≠ 0 := mul_ne_zero hp (pow_ne_zero _ hq)
    have value : p * q ^ fromLowest (bit :: rest) =
        p * q ^ bit.toNat * (q * q) ^ fromLowest rest := by
      rw [fromLowest, pow_add, pow_mul, pow_two, mul_assoc]
    rw [value]
    simp only [powerUp]
    generalize (if bit = true then multiplyRounded ctx acc base else acc) = more at next ⊢
    split
    · rename_i stays
      rw [Bool.and_eq_true] at stays
      exact settled_exact stays.2 next nonzero
    · exact ih nonzero (mul_ne_zero hq hq) next square

theorem powerNat_exact (ctx : Context) {base : Rounded} {p : ℚ} {n : Nat} (hp : p ≠ 0)
    (pos : n ≠ 0) (hbase : base.Exact p) : (powerNat ctx base n).Exact (p ^ n) := by
  simp only [powerNat]
  split
  · obtain ⟨rest, same, value⟩ := reverse_bits (n.log2 + 1) n pos Nat.lt_log2_self
    rw [same]
    have exact := powerDown_exact ctx hp hbase rest (n := 1) (by rwa [pow_one])
    rwa [value] at exact
  · have one : (Context.exact .one).Exact 1 := by
      intro _
      simp [Context.exact, Decimal.one, ofNat, rational?, scaled, signed]
    have exact := powerUp_exact ctx (bits (n.log2 + 1) n) one_ne_zero hp one hbase
    rwa [fromLowest_bits _ _ Nat.lt_log2_self, one_mul] at exact

/-! ## Powers -/

theorem scaled_abs (n : Bool) (c : Nat) (e : Int) : |scaled n c e| = scaled false c e := by
  have nonneg : (0 : ℚ) ≤ c * (10 : ℚ) ^ e :=
    mul_nonneg (Nat.cast_nonneg c) (zpow_nonneg (by norm_num) e)
  cases n <;> simp [scaled, signed, abs_of_nonneg nonneg]

theorem scaled_nonneg (c : Nat) (e : Int) : 0 ≤ scaled false c e := by
  rw [← scaled_abs false]
  exact abs_nonneg _

/-- An odd power of a negative number is negative, every other power is not. -/
theorem scaled_pow (n : Bool) {c d k : Nat} {e f : Int}
    (size : scaled false d f = scaled false c e ^ k) :
    scaled (n && k % 2 == 1) d f = scaled n c e ^ k := by
  cases n with
  | false => exact size
  | true =>
    have minus : scaled true c e = -scaled false c e := scaled_negate false c e
    rw [minus]
    rcases Nat.mod_two_eq_zero_or_one k with even | odd
    · rw [Even.neg_pow (Nat.even_iff.mpr even), even]
      exact size
    · rw [Odd.neg_pow (Nat.odd_iff.mpr odd), odd, ← size]
      exact scaled_negate false d f

section

variable {ctx : Context} {a b v : Decimal} {p : ℚ} {k : Nat}

theorem power_exact (traps : ctx.trapsInexact = true) (pos : k ≠ 0) (ha : a.rational? = some p)
    (h : a.power ctx k = .ok v) : v.rational? = some (p ^ k) := by
  obtain ⟨n, c, e, rfl, rfl⟩ := rational?_eq_some ha
  have up : ¬ ((k : Int) < 0) := by omega
  simp only [power, nanResult?, Int.natAbs_natCast, up, decide_false, Bool.false_eq_true, if_false,
    Bool.xor_false] at h
  split at h
  · rename_i zero
    cases h
    simp [rational?, zero, pos]
  · rename_i nonzero
    split at h
    · rename_i one
      cases h
      rw [beq_iff_eq, orderMagnitudes_eq, Nat.compare_eq_eq] at one
      have unit : scaled false c e = 1 := by
        rw [← scaled_lowered false c (min_le_left e 0), one,
          scaled_lowered false 1 (min_le_right e 0)]
        simp [scaled, signed]
      refine congrArg some (scaled_pow n ?_)
      rw [unit, one_pow, ← Nat.one_mul (tenPow _), scaled_tenPow]
      simp [scaled, signed]
    · split at h
      · cases (Context.deliver_eq_ok traps h).1.fits
      · split at h
        · exact absurd h (Context.finish_lossy traps (by decide) (.inr (by omega)))
        · split at h
          · rename_i s d f value
            obtain ⟨⟨fits, exact⟩, rfl⟩ := Context.deliver_eq_ok traps h
            simp only [Bool.or_eq_false_iff] at fits exact
            have power := powerNat_exact _ (scaled_ne_zero n e nonzero) pos (fun _ => rfl)
              ⟨fits.1, exact.1⟩
            rw [value] at power
            have same : scaled s d f = scaled n c e ^ k := Option.some.inj power
            have size : scaled false d f = scaled false c e ^ k := by
              rw [← scaled_abs s, same, abs_pow, scaled_abs]
            rw [← scaled_pow n size]
            exact ctx.round_exact _ _ _ ⟨fits.2, exact.2⟩
          · cases (Context.deliver_eq_ok traps h).1.fits

end

/-! ## Whole exponents -/

theorem scaled_inj {n : Bool} {c d : Nat} {e : Int} (h : scaled n c e = scaled n d e) : c = d := by
  have ten : (10 : ℚ) ^ e ≠ 0 := zpow_ne_zero e (by norm_num)
  have same := mul_right_cancel₀ ten h
  cases n <;> simpa [signed] using same

/-- A whole number that is not negative is left as it is when it is brought to an integer. -/
theorem integralCoefficient_whole {c k : Nat} {e : Int} (neg : e < 0)
    (h : scaled false c e = scaled false k 0) : integralCoefficient .floor false c e = k := by
  have place : e + ((-e).toNat : Int) = 0 := by omega
  have same : c = k * tenPow (-e).toNat := by
    apply scaled_inj (n := false) (e := e)
    rw [scaled_tenPow, place, h]
  have stays (rest unit : Nat) : Rounding.away .floor false rest unit = false := rfl
  rw [integralCoefficient]
  simp only [stays, Bool.false_eq_true, and_false, if_false]
  split
  · rename_i short
    by_contra ne
    have long : tenPow (-e).toNat ≤ c := by
      rw [same]
      exact Nat.le_mul_of_pos_left _ (Nat.pos_of_ne_zero (Ne.symm ne))
    have := lt_digitCount long
    omega
  · rw [same, Nat.mul_div_cancel _ (tenPow_pos _)]

theorem wholeNumber_toIntegral {a : Decimal} {k : Nat} (h : a.rational? = some (k : ℚ)) :
    (a.toIntegral .floor >>= Operators.wholeNumber) = .ok (k : Int) := by
  obtain ⟨n, c, e, rfl, value⟩ := rational?_eq_some h
  have whole : scaled n c e = scaled false k 0 := by
    rw [value]
    simp [scaled, signed]
  cases n with
  | false =>
    rw [toIntegral]
    split
    · rename_i nonneg
      have place : (0 : Int) + (e.toNat : Int) = e := by omega
      have same : c * tenPow e.toNat = k := by
        apply scaled_inj (n := false) (e := 0)
        rw [scaled_tenPow, place, whole]
      change Except.ok (1 * ((c * tenPow e.toNat : Nat) : Int)) = _
      rw [same, Int.one_mul]
    · rename_i neg
      rw [integralCoefficient_whole (by omega) whole]
      change Except.ok (1 * ((k * tenPow 0 : Nat) : Int)) = _
      rw [tenPow, Nat.pow_eq, Nat.pow_zero, Nat.mul_one, Int.one_mul]
  | true =>
    -- only zero has a minus and is not negative
    have minus : scaled true c e = -scaled false c e := scaled_negate false c e
    have none : scaled false c e = 0 := by
      rw [minus] at whole
      linarith [scaled_nonneg c e, scaled_nonneg k 0]
    obtain rfl : c = 0 := by
      by_contra nonzero
      exact scaled_ne_zero false e nonzero none
    obtain rfl : k = 0 := by
      rw [scaled_zero] at whole
      by_contra nonzero
      exact scaled_ne_zero false 0 nonzero whole.symm
    rw [toIntegral]
    split
    · simp [bind, Except.bind, Operators.wholeNumber]
    · simp [bind, Except.bind, Operators.wholeNumber, integralCoefficient, Rounding.away]

end Decimal

/-- The operator for powers, with a whole exponent that is not negative. -/
theorem Operators.power_exact {ctx : Context} {a b v : Decimal} {p : ℚ} {k : Nat}
    (traps : ctx.trapsInexact = true) (ha : a.rational? = some p)
    (hb : b.rational? = some (k : ℚ)) (h : power ctx a b = .ok v) :
    v.rational? = some (p ^ k) := by
  have run : ((b.toIntegral .floor >>= wholeNumber) >>= fun exponent =>
      if exponent = 0 then Except.ok Decimal.one else a.power ctx exponent) = .ok v := by
    rw [← h]
    simp only [power, bind_assoc]
  rw [Decimal.wholeNumber_toIntegral hb] at run
  change (if (k : Int) = 0 then Except.ok Decimal.one else a.power ctx k) = .ok v at run
  split at run
  · rename_i zero
    cases run
    have none : k = 0 := by omega
    rw [none, pow_zero]
    simp [Decimal.one, Decimal.ofNat, Decimal.rational?, Decimal.scaled, Decimal.signed]
  · rename_i pos
    exact Decimal.power_exact traps (by omega) ha run

end Calculator
