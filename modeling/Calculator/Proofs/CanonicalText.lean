import Calculator.Proofs.ExactPowers
import Calculator.Proofs.Loading

/-!
# Calculator.Proofs.CanonicalText

The plain form of a finite number is a canonical text for the rational that the number denotes.

Mathematical meaning: a rational other than zero is `±c · 10 ^ e` with a coefficient `c` that does
not end in a zero in at most one way, and the plain form depends on that sign, coefficient and
exponent only.

* `sameValue_iff`: numbers are equal in value if they denote the same rational.
* `scaled_unique`: a coefficient that does not end in a zero is unique, and so is its exponent.
* `toPlain_canonical`: two plain forms are the same text exactly if they are of equal numbers, and
  the plain form of a number, as an expression, has an equal number as its value.
-/

namespace Calculator
namespace Decimal

/-! ## Equal numbers -/

theorem orderMagnitudes_eq_iff (n : Bool) {c d : Nat} {e f : Int} :
    orderMagnitudes c e d f = .eq ↔ scaled n c e = scaled n d f := by
  rw [orderMagnitudes_eq, Nat.compare_eq_eq, ← scaled_lowered n c (min_le_left e f),
    ← scaled_lowered n d (min_le_right e f)]
  constructor
  · intro same
    rw [same]
  · exact scaled_inj

theorem scaled_unsigned (n : Bool) (c : Nat) (e : Int) :
    scaled (n && c != 0) c e = scaled n c e := by
  by_cases zero : c = 0
  · rw [zero, scaled_zero, scaled_zero]
  · rw [bne_iff_ne.mpr zero, Bool.and_true]

/-- The sign of a number other than zero is determined by the rational. -/
theorem scaled_sign {n m : Bool} {c d : Nat} {e f : Int} (nonzero : c ≠ 0)
    (h : scaled n c e = scaled m d f) : n = m := by
  have some := scaled_ne_zero false e nonzero
  have first := scaled_nonneg c e
  have second := scaled_nonneg d f
  have minus : ∀ c e, scaled true c e = -scaled false c e := scaled_negate false
  cases n with
  | false =>
    cases m with
    | false => rfl
    | true =>
      rw [minus] at h
      exact absurd (by linarith) some
  | true =>
    cases m with
    | true => rfl
    | false =>
      rw [minus] at h
      exact absurd (by linarith) some

theorem sameValue_scaled_iff {n m : Bool} {c d : Nat} {e f : Int} :
    sameValue (.finite n c e) (.finite m d f) = true ↔ scaled n c e = scaled m d f := by
  rw [← scaled_unsigned n, ← scaled_unsigned m, sameValue, order]
  cases left : n && c != 0 with
  | false =>
    cases right : m && d != 0 with
    | false =>
      rw [← orderMagnitudes_eq_iff false]
      simp
    | true =>
      have nonzero : d ≠ 0 := by
        rw [Bool.and_eq_true, bne_iff_ne] at right
        exact right.2
      constructor
      · rintro ⟨⟩
      · exact fun same => absurd (scaled_sign nonzero same.symm) (by decide)
  | true =>
    have nonzero : c ≠ 0 := by
      rw [Bool.and_eq_true, bne_iff_ne] at left
      exact left.2
    cases m && d != 0 with
    | false =>
      constructor
      · rintro ⟨⟩
      · exact fun same => absurd (scaled_sign nonzero same) (by decide)
    | true =>
      refine Iff.trans ?_ eq_comm
      rw [← orderMagnitudes_eq_iff true]
      simp

/-- Finite numbers are equal in value exactly if they denote the same rational. -/
theorem sameValue_iff {a b : Decimal} (ha : a.isFinite = true) (hb : b.isFinite = true) :
    a.sameValue b = true ↔ a.rational? = b.rational? := by
  cases a with
  | infinity n => cases ha
  | nan n s p => cases ha
  | finite n c e =>
    cases b with
    | infinity n => cases hb
    | nan n s p => cases hb
    | finite m d f =>
      rw [rational?, rational?, Option.some_inj]
      exact sameValue_scaled_iff

/-! ## Canonical coefficients -/

/-- A number whose coefficient does not end in a zero has no larger exponent. -/
theorem scaled_coarsest {n : Bool} {c d : Nat} {e f : Int} (last : c % 10 ≠ 0)
    (h : scaled n c e = scaled n d f) : f ≤ e := by
  by_contra larger
  obtain ⟨k, rfl⟩ : ∃ k : Nat, f = e + (k + 1 : Nat) := ⟨(f - e).toNat - 1, by omega⟩
  rw [← scaled_tenPow] at h
  have same : c = d * tenPow k * 10 := by
    rw [scaled_inj h, tenPow_succ, Nat.mul_assoc]
  omega

theorem scaled_unique {n m : Bool} {c d : Nat} {e f : Int} (first : c % 10 ≠ 0)
    (second : d % 10 ≠ 0) (h : scaled n c e = scaled m d f) : n = m ∧ c = d ∧ e = f := by
  have nonzero : c ≠ 0 := by
    rintro rfl
    exact first rfl
  obtain rfl := scaled_sign nonzero h
  obtain rfl : e = f := Int.le_antisymm (scaled_coarsest second h.symm) (scaled_coarsest first h)
  exact ⟨rfl, scaled_inj h, rfl⟩

/-- Numbers that denote the same rational have the same plain form. -/
theorem toPlain_of_scaled {n m : Bool} {c d : Nat} {e f : Int} (h : scaled n c e = scaled m d f) :
    toPlain (.finite n c e) = toPlain (.finite m d f) := by
  by_cases zero : c = 0
  · have zero' : d = 0 := by
      by_contra nonzero
      rw [zero, scaled_zero] at h
      exact scaled_ne_zero m f nonzero h.symm
    rw [zero, zero', toPlain_zero, toPlain_zero]
  · have nonzero : d ≠ 0 := by
      rintro rfl
      rw [scaled_zero] at h
      exact scaled_ne_zero n e zero h
    obtain ⟨c, j, rfl, first⟩ := exists_scaled zero
    obtain ⟨d, k, rfl, second⟩ := exists_scaled nonzero
    rw [scaled_tenPow, scaled_tenPow] at h
    obtain ⟨rfl, rfl, place⟩ := scaled_unique first second h
    have shown := toPlain_scaled n (Nat.ne_zero_of_mul_ne_zero_left zero) j (e + j)
    have shown' := toPlain_scaled n (Nat.ne_zero_of_mul_ne_zero_left zero) k (f + k)
    rw [Int.add_sub_cancel] at shown shown'
    rw [shown, shown', place]

theorem parseLiteral_toPlain {a : Decimal} (h : a.isFinite = true) :
    parseLiteral a.toPlain = .ok a.reread := by
  obtain ⟨minus, n, reading⟩ := toPlain_reading h
  rw [reading.reread, reading.literal]

theorem reread_rational {a : Decimal} (h : a.isFinite = true) : a.reread.rational? = a.rational? :=
  (sameValue_iff (reread_finite h) h).mp (reread_sameValue h)

theorem toPlain_eq_iff {a b : Decimal} (ha : a.isFinite = true) (hb : b.isFinite = true) :
    a.toPlain = b.toPlain ↔ a.rational? = b.rational? := by
  constructor
  · intro same
    have read : a.reread = b.reread := by
      rw [← Except.ok.injEq, ← parseLiteral_toPlain ha, ← parseLiteral_toPlain hb, same]
    rw [← reread_rational ha, ← reread_rational hb, read]
  · intro same
    cases a with
    | infinity n => cases ha
    | nan n s p => cases ha
    | finite n c e =>
      cases b with
      | infinity n => cases hb
      | nan n s p => cases hb
      | finite m d f => exact toPlain_of_scaled (Option.some.inj same)

end Decimal

namespace Evaluation

theorem parse_toPlain {setting : Setting} {inner : Inner} {family : Family} {id : EnvId}
    {a : Decimal} (h : a.isFinite = true) :
    parse setting inner family id a.toPlain = pure (.ofValue a.reread) := by
  obtain ⟨minus, n, reading⟩ := Decimal.toPlain_reading h
  rw [reading.text, ← Decimal.signed_eq, parse_numeral, reading.reread]

/-- The plain form is a canonical text for finite numbers. As an expression it is read as one value,
which is equal to the number whatever the environment and its decimal context are; that value is
what the expression evaluates to, provided that one expression may be open. -/
theorem toPlain_canonical {a b : Decimal} (ha : a.isFinite = true) (hb : b.isFinite = true) :
    (a.toPlain = b.toPlain ↔ a.rational? = b.rational?) ∧
    (a.sameValue b = true ↔ a.rational? = b.rational?) ∧
    ∃ v : Decimal, v.rational? = a.rational? ∧
      ∀ (setting : Setting) (family : Family) (id : EnvId),
        (∀ inner, parse setting inner family id a.toPlain = pure (.ofValue v)) ∧
        (1 ≤ (family.options id).maxDepth → ∀ session, ∃ later,
          evaluate setting family id (String.ofList a.toPlain) session = .ok v later) := by
  refine ⟨Decimal.toPlain_eq_iff ha hb, Decimal.sameValue_iff ha hb, a.reread,
    Decimal.reread_rational ha, fun setting family id => ⟨fun inner => parse_toPlain ha, ?_⟩⟩
  intro deep session
  exact evaluate_plain ha deep session

/-- The standard environment, whose context keeps one digit only. -/
def coarseFamily : Family :=
  Family.empty.addStandard.1.modifyOptions 0 fun options =>
    { options with context := { options.context with precision := 1 } }

/-- A number with two zeros too many, and what its plain form is where one digit is kept. -/
theorem toPlain_canonical_coarse :
    (Decimal.finite true 1000500 (-3)).toPlain = (Decimal.finite true 10005 (-1)).toPlain ∧
    ∃ v : Decimal, v.rational? = some (-1000.5) ∧
      ∀ setting session, ∃ later, evaluate setting coarseFamily 0 "-1000.5" session = .ok v later := by
  have denoted : (Decimal.finite true 1000500 (-3)).rational? = some (-1000.5) := by
    norm_num [Decimal.rational?, Decimal.scaled, Decimal.signed]
  have denoted' : (Decimal.finite true 10005 (-1)).rational? = some (-1000.5) := by
    norm_num [Decimal.rational?, Decimal.scaled, Decimal.signed]
  obtain ⟨texts, -, v, value, evaluated⟩ :=
    @toPlain_canonical (.finite true 1000500 (-3)) (.finite true 10005 (-1)) rfl rfl
  have shown : String.ofList (Decimal.finite true 1000500 (-3)).toPlain = "-1000.5" := by
    decide +kernel
  refine ⟨texts.mpr (denoted.trans denoted'.symm), v, value.trans denoted, fun setting session => ?_⟩
  have run := (evaluated setting coarseFamily 0).2 (by decide +kernel) session
  rw [shown] at run
  exact run

end Evaluation
end Calculator
