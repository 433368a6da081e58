import Calculator.Printer
import Calculator.Proofs.Trees
import Mathlib.Data.Nat.Log

/-!
# Calculator.Proofs.PlainText

The plain form of a number is a numeral, after a minus if need be, and reading it gives back an
equal number whose plain form is the same text.

Mathematical meaning: `finite n c e` and `finite n (c * 10 ^ k) (e - k)` denote the same number.
Every finite number other than zero is of the latter form with a coefficient `c` that does not end
in a zero; of those the plain form shows exactly the digits.

* `digitCount_eq_log`: the digits of a number are counted right.
* `sameValue_scaled`, `toPlain_scaled`: trailing zeros of a coefficient change neither the number
  nor its plain form.
* `toPlain_reading`: what the plain form of a finite number is, and what it is read as.
-/

namespace Calculator

/-! ## Digits -/

theorem tenPow_succ (k : Nat) : tenPow (k + 1) = tenPow k * 10 := rfl

theorem digitCountBy_eq_log : ∀ fuel n : Nat, n < tenPow fuel →
    digitCountBy fuel n = Nat.log 10 n + 1 := by
  intro fuel
  induction fuel with
  | zero =>
    intro n h
    have zero : n = 0 := Nat.lt_one_iff.mp h
    rw [digitCountBy, zero, Nat.log_zero_right]
  | succ fuel ih =>
    intro n h
    rw [digitCountBy]
    split
    · rename_i small
      rw [Nat.log_of_lt small]
    · rename_i large
      rw [ih (n / 10) (by rw [tenPow_succ] at h; omega),
        Nat.log_of_one_lt_of_le (by decide) (by omega : 10 ≤ n)]

theorem log_div_tenPow (n k : Nat) : Nat.log 10 (n / tenPow k) = Nat.log 10 n - k := by
  induction k with
  | zero => rw [tenPow, Nat.pow_eq, Nat.pow_zero, Nat.div_one, Nat.sub_zero]
  | succ k ih =>
    have split : n / tenPow (k + 1) = n / tenPow k / 10 := by
      rw [Nat.div_div_eq_div_mul]
      rfl
    rw [split, Nat.log_div_base, ih, Nat.sub_sub]

/-- `2 ^ 10` exceeds `10 ^ 3`. -/
theorem tenPow_le_two_pow (b : Nat) : tenPow (b * 3 / 10) ≤ Nat.pow 2 b := by
  have h : (10 ^ (b * 3 / 10)) ^ 10 ≤ (2 ^ b) ^ 10 := by
    calc (10 ^ (b * 3 / 10)) ^ 10 = 10 ^ (b * 3 / 10 * 10) := (Nat.pow_mul ..).symm
      _ ≤ 10 ^ (3 * b) := Nat.pow_le_pow_right (by decide) (by omega)
      _ = (10 ^ 3) ^ b := Nat.pow_mul ..
      _ ≤ (2 ^ 10) ^ b := Nat.pow_le_pow_left (by decide) b
      _ = (2 ^ b) ^ 10 := by rw [← Nat.pow_mul, ← Nat.pow_mul, Nat.mul_comm]
  exact (Nat.pow_le_pow_iff_left (by decide)).mp h

theorem digitCount_eq_log (n : Nat) : digitCount n = Nat.log 10 n + 1 := by
  have fits : n / tenPow (n.log2 * 3 / 10) < tenPow (n.log2 + 1) :=
    calc n / tenPow (n.log2 * 3 / 10) ≤ n := Nat.div_le_self ..
      _ < 2 ^ (n.log2 + 1) := Nat.lt_log2_self
      _ ≤ 10 ^ (n.log2 + 1) := Nat.pow_le_pow_left (by decide) _
  have sure : n.log2 * 3 / 10 ≤ Nat.log 10 n := by
    by_cases zero : n = 0
    · simp [zero]
    · apply Nat.le_log_of_pow_le (by decide)
      exact Nat.le_trans (tenPow_le_two_pow _) (Nat.log2_self_le zero)
  simp only [digitCount]
  rw [digitCountBy_eq_log _ _ fits, log_div_tenPow]
  omega

theorem digitCount_mul_ten {n : Nat} (h : n ≠ 0) : digitCount (n * 10) = digitCount n + 1 := by
  rw [digitCount_eq_log, digitCount_eq_log, Nat.log_mul_base (by decide) h]

namespace Decimal

theorem digits_step {n : Nat} (h : 10 ≤ n) : digits n = digits (n / 10) ++ [(n % 10).digitChar] :=
  Nat.toDigits_of_base_le (by decide) h

theorem digits_single {n : Nat} (h : n < 10) : digits n = [n.digitChar] :=
  Nat.toDigits_of_lt_base h

theorem digits_last (n : Nat) : ∃ before, digits n = before ++ [(n % 10).digitChar] := by
  by_cases h : n < 10
  · exact ⟨[], by rw [digits_single h, Nat.mod_eq_of_lt h]; rfl⟩
  · exact ⟨digits (n / 10), digits_step (by omega)⟩

theorem digits_mul_ten {n : Nat} (h : n ≠ 0) : digits (n * 10) = digits n ++ ['0'] := by
  rw [digits_step (by omega), Nat.mul_div_cancel n (by decide), Nat.mul_mod_left]
  rfl

theorem digitChar_digit {d : Nat} (h : d < 10) : isAsciiDigit d.digitChar = true := by
  rw [isAsciiDigit_iff, Nat.toNat_digitChar_of_lt_ten h]
  omega

theorem digits_digit : ∀ n : Nat, ∀ c ∈ digits n, isAsciiDigit c = true := by
  intro n
  induction n using Nat.strong_induction_on with
  | _ n ih =>
    intro c hc
    by_cases h : n < 10
    · rw [digits_single h, List.mem_singleton] at hc
      rw [hc]
      exact digitChar_digit h
    · rw [digits_step (by omega), List.mem_append, List.mem_singleton] at hc
      cases hc with
      | inl before => exact ih (n / 10) (by omega) c before
      | inr last =>
        rw [last]
        exact digitChar_digit (Nat.mod_lt _ (by decide))

theorem digitsValue_append_one (ds : List Char) (c : Char) :
    digitsValue (ds ++ [c]) = digitsValue ds * 10 + (c.toNat - 48) := by
  rw [digitsValue, List.foldl_append]
  rfl

theorem digitsValue_digits : ∀ n : Nat, digitsValue (digits n) = n := by
  intro n
  induction n using Nat.strong_induction_on with
  | _ n ih =>
    by_cases h : n < 10
    · rw [digits_single h]
      have one := digitsValue_append_one [] n.digitChar
      rw [List.nil_append, Nat.toNat_digitChar_sub_48_of_lt_ten h] at one
      rw [one]
      exact Nat.zero_add n
    · rw [digits_step (by omega), digitsValue_append_one, ih (n / 10) (by omega),
        Nat.toNat_digitChar_sub_48_of_lt_ten (Nat.mod_lt _ (by decide))]
      omega

theorem digitsValue_zeros (k : Nat) (ds : List Char) : digitsValue (zeros k ++ ds) = digitsValue ds := by
  induction k with
  | zero => rfl
  | succ k ih => exact ih

/-! ## Trailing zeros -/

theorem digitCount_scaled {c : Nat} (h : c ≠ 0) (k : Nat) :
    digitCount (c * tenPow k) = digitCount c + k := by
  induction k with
  | zero => simp [tenPow]
  | succ k ih =>
    have pos : c * tenPow k ≠ 0 := Nat.mul_ne_zero h (Nat.pow_pos (by decide)).ne'
    have next : c * tenPow (k + 1) = c * tenPow k * 10 := by
      rw [Nat.mul_assoc]
      rfl
    rw [next, digitCount_mul_ten pos, ih]
    omega

theorem orderMagnitudes_scaled (c : Nat) (e : Int) (j k : Nat) :
    orderMagnitudes (c * tenPow j) (e - j) (c * tenPow k) (e - k) = .eq := by
  by_cases zero : c = 0
  · simp [orderMagnitudes, zero]
  · have pos (i : Nat) : c * tenPow i ≠ 0 := Nat.mul_ne_zero zero (Nat.pow_pos (by decide)).ne'
    have same : adjusted (c * tenPow j) (e - j) = adjusted (c * tenPow k) (e - k) := by
      rw [adjusted, adjusted, digitCount_scaled zero, digitCount_scaled zero]
      omega
    have left : (e - j - (e - k) : Int).toNat = k - j := by omega
    have right : (e - k - (e - j) : Int).toNat = j - k := by omega
    have sum : j + (k - j) = k + (j - k) := by omega
    rw [orderMagnitudes, if_neg (pos j), if_neg (pos k), same, if_neg (Int.lt_irrefl _),
      if_neg (Int.lt_irrefl _), left, right, Nat.compare_eq_eq, Nat.mul_assoc, Nat.mul_assoc, tenPow,
      tenPow, tenPow, tenPow]
    simp only [Nat.pow_eq]
    rw [← Nat.pow_add, ← Nat.pow_add, sum]

theorem sameValue_scaled (negative : Bool) (c : Nat) (e : Int) (j k : Nat) :
    sameValue (.finite negative (c * tenPow j) (e - j)) (.finite negative (c * tenPow k) (e - k)) =
      true := by
  have left := orderMagnitudes_scaled c e j k
  have right := orderMagnitudes_scaled c e k j
  have sign : (negative && c * tenPow j != 0) = (negative && c * tenPow k != 0) := by
    have pos (i : Nat) : tenPow i ≠ 0 := (Nat.pow_pos (by decide)).ne'
    by_cases zero : c = 0
    · rw [zero, Nat.zero_mul, Nat.zero_mul]
    · rw [bne_iff_ne.mpr (Nat.mul_ne_zero zero (pos j)),
        bne_iff_ne.mpr (Nat.mul_ne_zero zero (pos k))]
  rw [sameValue, order, sign]
  cases (negative && c * tenPow k != 0) with
  | true => rw [right]; rfl
  | false => rw [left]; rfl

theorem dropTrailing_same (c : Char) (cs : List Char) :
    dropTrailing c (cs ++ [c]) = dropTrailing c cs := by
  rw [dropTrailing, dropTrailing, List.reverse_append, List.reverse_singleton,
    List.singleton_append, List.dropWhile_cons_of_pos (by simp)]

theorem dropTrailing_other {c last : Char} (cs : List Char) (h : last ≠ c) :
    dropTrailing c (cs ++ [last]) = cs ++ [last] := by
  rw [dropTrailing, List.reverse_append, List.reverse_singleton, List.singleton_append,
    List.dropWhile_cons_of_neg (by simpa using h), List.reverse_cons, List.reverse_reverse]

theorem dropTrailing_zeros (cs : List Char) (k : Nat) :
    dropTrailing '0' (cs ++ zeros k) = dropTrailing '0' cs := by
  induction k with
  | zero => rw [zeros, List.replicate_zero, List.append_nil]
  | succ k ih =>
    rw [zeros, List.replicate_succ', ← List.append_assoc, dropTrailing_same]
    exact ih

/-- A text without the zeros, and then the point, at its right end, if there is a point in it. -/
def unpadded (cs : List Char) : List Char :=
  if cs.contains '.' then dropTrailing '.' (dropTrailing '0' cs) else cs

theorem toPlain_eq (a : Decimal) : a.toPlain =
    if unpadded a.toPositional == ['-', '0'] || (unpadded a.toPositional).isEmpty then ['0']
    else unpadded a.toPositional := rfl

theorem unpadded_plain {cs : List Char} (h : '.' ∉ cs) : unpadded cs = cs := by
  rw [unpadded, List.contains_eq_mem, decide_eq_false h]
  rfl

theorem unpadded_zero {cs : List Char} (h : '.' ∈ cs) : unpadded (cs ++ ['0']) = unpadded cs := by
  have longer : '.' ∈ cs ++ ['0'] := List.mem_append_left _ h
  rw [unpadded, unpadded, List.contains_eq_mem, List.contains_eq_mem, decide_eq_true h,
    decide_eq_true longer, dropTrailing_same, if_pos rfl, if_pos rfl]

theorem unpadded_last {cs : List Char} {last : Char} (zero : last ≠ '0') (point : last ≠ '.') :
    unpadded (cs ++ [last]) = cs ++ [last] := by
  rw [unpadded, dropTrailing_other cs zero, dropTrailing_other cs point, ite_self]

theorem no_point {ds : List Char} (h : ∀ c ∈ ds, isAsciiDigit c = true) : '.' ∉ ds := by
  intro point
  exact absurd (h '.' point) (by decide)

theorem no_point_signed (negative : Bool) {ds : List Char} (h : '.' ∉ ds) :
    '.' ∉ sign negative ++ ds := by
  rw [List.mem_append, not_or]
  exact ⟨by cases negative <;> decide, h⟩

/-- A zero after the last digit, with the point where it was, is padding. -/
theorem unpadded_pointed (negative : Bool) {before : List Char} {last : Char} (p : Int)
    (h : ∀ c ∈ before ++ [last], isAsciiDigit c = true) :
    unpadded (sign negative ++ pointed (before ++ [last] ++ ['0']) p) =
      unpadded (sign negative ++ pointed (before ++ [last]) p) := by
  have size : (before ++ [last] ++ ['0']).length = before.length + 2 := by simp
  have size' : (before ++ [last]).length = before.length + 1 := by simp
  by_cases low : p ≤ 0
  · rw [pointed, if_pos low, pointed, if_pos low, ← List.append_assoc, ← List.append_assoc,
      unpadded_zero (by simp)]
    simp only [List.append_assoc, List.cons_append]
  · by_cases long : (before.length + 2 : Int) ≤ p
    · have fill : (p - (before.length + 1 : Nat)).toNat = (p - (before.length + 2 : Nat)).toNat + 1 := by
        omega
      rw [pointed, if_neg low, size, if_pos (by omega), pointed, if_neg low, size',
        if_pos (by omega), fill, List.append_assoc]
      rfl
    · by_cases exact_ : p = before.length + 1
      · have whole : p.toNat = (before ++ [last]).length := by omega
        have none : (p - (before ++ [last]).length).toNat = 0 := by omega
        have digit := h last (by simp)
        have point : last ≠ '.' := by
          rintro rfl
          exact absurd digit (by decide)
        rw [pointed, if_neg low, size, if_neg (by omega), pointed, if_neg low, size',
          if_pos (by omega), ← size', none, whole, List.take_left, List.drop_left, zeros,
          List.replicate_zero, List.append_nil, unpadded_plain (no_point_signed _ (no_point h))]
        have same : sign negative ++ (before ++ [last] ++ '.' :: ['0']) =
            sign negative ++ before ++ [last] ++ ['.'] ++ ['0'] := by simp
        rw [same, unpadded_zero (by simp), unpadded, if_pos (by simp),
          dropTrailing_other _ (by decide), dropTrailing_same, dropTrailing_other _ point,
          List.append_assoc]
      · have fits : p.toNat ≤ (before ++ [last]).length := by omega
        rw [pointed, if_neg low, size, if_neg (by omega), pointed, if_neg low, size',
          if_neg (by omega), List.take_append_of_le_length fits, List.drop_append_of_le_length fits,
          ← List.cons_append, ← List.append_assoc, ← List.append_assoc, unpadded_zero (by simp)]
        simp

theorem toPositional_pointed {negative : Bool} {c : Nat} {e : Int} (h : c ≠ 0) :
    toPositional (.finite negative c e) =
      sign negative ++ pointed (digits c) (e + (digits c).length) := by
  simp [toPositional, h]

/-- Trailing zeros of a coefficient do not show. -/
theorem toPlain_scaled (negative : Bool) {c : Nat} (h : c ≠ 0) : ∀ (k : Nat) (e : Int),
    toPlain (.finite negative (c * tenPow k) (e - k)) = toPlain (.finite negative c e) := by
  intro k
  induction k with
  | zero =>
    intro e
    simp [tenPow]
  | succ k ih =>
    intro e
    have pos : c * tenPow k ≠ 0 := Nat.mul_ne_zero h (Nat.pow_pos (by decide)).ne'
    have pos' : c * tenPow k * 10 ≠ 0 := by omega
    have next : c * tenPow (k + 1) = c * tenPow k * 10 := by
      rw [Nat.mul_assoc]
      rfl
    obtain ⟨before, last⟩ := digits_last (c * tenPow k)
    have digit := digits_digit (c * tenPow k)
    have place : (e - (k + 1 : Nat) : Int) + (digits (c * tenPow k * 10)).length =
        e - k + (digits (c * tenPow k)).length := by
      rw [digits_mul_ten pos, List.length_append, List.length_singleton]
      omega
    rw [← ih e, next, toPlain_eq, toPlain_eq, toPositional_pointed pos', toPositional_pointed pos,
      place, digits_mul_ten pos]
    rw [last] at digit ⊢
    rw [unpadded_pointed negative _ digit]

/-- A coefficient without its trailing zeros. -/
theorem exists_scaled {n : Nat} (h : n ≠ 0) : ∃ c k, n = c * tenPow k ∧ c % 10 ≠ 0 := by
  induction n using Nat.strong_induction_on with
  | _ n ih =>
    by_cases last : n % 10 = 0
    · obtain ⟨c, k, same, ne⟩ := ih (n / 10) (by omega) (by omega)
      refine ⟨c, k + 1, ?_, ne⟩
      have next : c * tenPow (k + 1) = c * tenPow k * 10 := by
        rw [Nat.mul_assoc]
        rfl
      rw [next, ← same]
      omega
    · exact ⟨n, 0, by simp [tenPow], last⟩

/-! ## Reading -/

theorem not_point {ds : List Char} (h : '.' ∉ ds) : ∀ c ∈ ds, (c != '.') = true := by
  intro c hc
  rw [bne_iff_ne]
  rintro rfl
  exact h hc

theorem ofNumeral_whole (negative : Bool) {ds : List Char} (h : '.' ∉ ds) :
    ofNumeral negative ds = .finite negative (digitsValue ds) 0 := by
  have whole : ds.takeWhile (· != '.') = ds := by
    simpa using @List.takeWhile_append_of_pos _ _ ds [] (not_point h)
  have rest : ds.dropWhile (· != '.') = [] := by
    simpa using @List.dropWhile_append_of_pos _ _ ds [] (not_point h)
  simp [ofNumeral, whole, rest]

theorem ofNumeral_pointed (negative : Bool) {whole : List Char} (fraction : List Char)
    (h : '.' ∉ whole) :
    ofNumeral negative (whole ++ '.' :: fraction) =
      .finite negative (digitsValue (whole ++ fraction)) (-(fraction.length : Int)) := by
  have before : (whole ++ '.' :: fraction).takeWhile (· != '.') = whole := by
    rw [List.takeWhile_append_of_pos (not_point h), List.takeWhile_cons_of_neg (by decide), List.append_nil]
  have after : (whole ++ '.' :: fraction).dropWhile (· != '.') = '.' :: fraction := by
    rw [List.dropWhile_append_of_pos (not_point h), List.dropWhile_cons_of_neg (by decide)]
  simp [ofNumeral, before, after]

theorem numeral_valid {text : List Char} (symbols : ∀ c ∈ text, isNumeralSymbol c = true)
    (digit : ∃ c ∈ text, isAsciiDigit c = true) (points : text.count '.' ≤ 1) :
    (text.all isNumeralSymbol && text.any isAsciiDigit && decide (text.count '.' ≤ 1)) = true := by
  rw [List.all_eq_true.mpr symbols, List.any_eq_true.mpr digit, decide_eq_true points]
  rfl

theorem signed_eq (minus : Bool) (text : List Char) :
    Calculator.signed minus text = sign minus ++ text := by
  cases minus <;> rfl

/-- A number whose plain form is a numeral, which is read as an equal number of that form. -/
structure PlainReading (a : Decimal) (minus : Bool) (n : Numeral) : Prop where
  text : a.toPlain = sign minus ++ n.text
  again : (ofNumeral minus n.text).toPlain = a.toPlain
  value : (ofNumeral minus n.text).sameValue a = true

theorem toPlain_of_unpadded {a : Decimal} {text : List Char} (h : unpadded a.toPositional = text)
    (zero : text ≠ ['-', '0']) (ne : text ≠ []) : a.toPlain = text := by
  have other : (text == ['-', '0'] || text.isEmpty) = false := by
    rw [Bool.or_eq_false_iff]
    exact ⟨beq_eq_false_iff_ne.mpr zero, List.isEmpty_eq_false_iff.mpr ne⟩
  rw [toPlain_eq, h, other]
  rfl

theorem toPlain_zero (negative : Bool) (e : Int) : toPlain (.finite negative 0 e) = ['0'] := by
  have plain : unpadded (toPositional (.finite negative 0 e)) = sign negative ++ ['0'] := by
    have whole : unpadded (sign negative ++ ['0']) = sign negative ++ ['0'] :=
      unpadded_plain (no_point_signed negative (by decide))
    by_cases high : 0 < e
    · simpa [toPositional, high] using whole
    · have shown : toPositional (.finite negative 0 e) = sign negative ++ pointed ['0'] (e + 1) := by
        rw [toPositional, if_neg (fun h => high h.2)]
        rfl
      by_cases none : e = 0
      · rw [shown, none]
        exact whole
      · have low : e + 1 ≤ 0 := by omega
        have tail : sign negative ++ ('0' :: '.' :: zeros (-(e + 1)).toNat ++ ['0']) =
            sign negative ++ ['0'] ++ ['.'] ++ zeros (-(e + 1)).toNat ++ ['0'] := by simp
        rw [shown, pointed, if_pos low, tail, unpadded_zero (by simp), unpadded, if_pos (by simp),
          dropTrailing_zeros, dropTrailing_other _ (by decide), dropTrailing_same,
          dropTrailing_other _ (by decide)]
  rw [toPlain_eq, plain]
  cases negative <;> rfl

theorem zero_reading (negative : Bool) (e : Int) :
    PlainReading (.finite negative 0 e) false ⟨['0'], by decide⟩ where
  text := toPlain_zero negative e
  again := by
    rw [toPlain_zero]
    exact toPlain_zero false 0
  value := by
    cases negative <;> rfl

theorem digits_ne_nil (n : Nat) : digits n ≠ [] := by
  obtain ⟨before, same⟩ := digits_last n
  simp [same]

theorem signed_digits_ne (negative : Bool) {n : Nat} (h : n ≠ 0) :
    sign negative ++ digits n ≠ ['-', '0'] := by
  intro same
  cases negative with
  | true =>
    have zero : digits n = ['0'] := by simpa [sign] using same
    have value := digitsValue_digits n
    rw [zero] at value
    exact h value.symm
  | false =>
    have first : digits n = ['-', '0'] := by simpa [sign] using same
    exact absurd (digits_digit n '-' (by simp [first])) (by decide)

theorem whole_reading (negative : Bool) {n : Nat} (h : n ≠ 0) :
    ∃ numeral : Numeral, toPlain (.finite negative n 0) = sign negative ++ numeral.text ∧
      ofNumeral negative numeral.text = .finite negative n 0 := by
  have digit := digits_digit n
  have point := no_point digit
  obtain ⟨first, rest, cons⟩ := List.exists_cons_of_ne_nil (digits_ne_nil n)
  have size : ¬ (0 + (digits n).length : Int) ≤ 0 := by
    rw [cons, List.length_cons]
    omega
  have shown : toPositional (.finite negative n 0) = sign negative ++ digits n := by
    rw [toPositional_pointed h, pointed, if_neg size, if_pos (by omega)]
    simp [zeros]
  refine ⟨⟨digits n, numeral_valid (fun c hc => by simp [isNumeralSymbol, digit c hc])
    ⟨first, by simp [cons], digit first (by simp [cons])⟩ (by simp [List.count_eq_zero.mpr point])⟩,
    ?_, ?_⟩
  · apply toPlain_of_unpadded
    · rw [shown]
      exact unpadded_plain (no_point_signed negative point)
    · exact signed_digits_ne negative h
    · simp [digits_ne_nil]
  · rw [ofNumeral_whole negative point, digitsValue_digits]

/-- The digits of a number before and after the point, which stands before the last of them. -/
theorem pointed_split {c : Nat} {e : Int} (h : e < 0) :
    ∃ whole fraction before, pointed (digits c) (e + (digits c).length) = whole ++ '.' :: fraction ∧
      whole ++ '.' :: fraction = before ++ [(c % 10).digitChar] ∧ whole ≠ [] ∧
      (∀ d ∈ whole ++ fraction, isAsciiDigit d = true) ∧ digitsValue (whole ++ fraction) = c ∧
      (fraction.length : Int) = -e := by
  obtain ⟨before, last⟩ := digits_last c
  have digit := digits_digit c
  have value := digitsValue_digits c
  have size : (digits c).length = before.length + 1 := by simp [last]
  by_cases low : e + (digits c).length ≤ 0
  · refine ⟨['0'], zeros (-(e + (digits c).length)).toNat ++ digits c,
      '0' :: '.' :: zeros (-(e + (digits c).length)).toNat ++ before, ?_, ?_, by simp, ?_, ?_, ?_⟩
    · rw [pointed, if_pos low]
      rfl
    · simp only [List.cons_append, List.nil_append, List.append_assoc]
      rw [← last]
    · intro d hd
      simp only [zeros, List.singleton_append, List.mem_cons, List.mem_append,
        List.mem_replicate] at hd
      obtain rfl | ⟨-, rfl⟩ | mem := hd
      · decide
      · decide
      · exact digit d mem
    · rw [← List.append_assoc]
      exact (digitsValue_zeros (_ + 1) _).trans value
    · rw [List.length_append, zeros, List.length_replicate]
      omega
  · have place : (e + (digits c).length).toNat ≤ before.length := by omega
    refine ⟨(digits c).take (e + (digits c).length).toNat,
      (digits c).drop (e + (digits c).length).toNat,
      before.take (e + (digits c).length).toNat ++
        '.' :: before.drop (e + (digits c).length).toNat, ?_, ?_, ?_, ?_, ?_, ?_⟩
    · rw [pointed, if_neg low, if_neg (by omega)]
    · generalize (e + (digits c).length).toNat = p at place
      rw [last, List.take_append_of_le_length place, List.drop_append_of_le_length place]
      simp
    · intro none
      have length := congrArg List.length none
      rw [List.length_take, List.length_nil] at length
      omega
    · rw [List.take_append_drop]
      exact digit
    · rw [List.take_append_drop]
      exact value
    · rw [List.length_drop]
      omega

theorem pointed_reading (negative : Bool) {c : Nat} {e : Int} (h : c % 10 ≠ 0) (he : e < 0) :
    ∃ numeral : Numeral, toPlain (.finite negative c e) = sign negative ++ numeral.text ∧
      ofNumeral negative numeral.text = .finite negative c e := by
  have ne : c ≠ 0 := by
    rintro rfl
    exact h rfl
  obtain ⟨whole, fraction, before, shown, last, first, digit, value, size⟩ := @pointed_split c e he
  have wholeDigit : ∀ d ∈ whole, isAsciiDigit d = true := fun d hd =>
    digit d (List.mem_append_left _ hd)
  have point := no_point wholeDigit
  have point' : '.' ∉ fraction := no_point fun d hd => digit d (List.mem_append_right _ hd)
  obtain ⟨d, rest, cons⟩ := List.exists_cons_of_ne_nil first
  have zero : (c % 10).digitChar ≠ '0' := by simpa using h
  have other : (c % 10).digitChar ≠ '.' := by
    intro same
    have digit := digitChar_digit (Nat.mod_lt c (by decide : 0 < 10))
    rw [same] at digit
    exact absurd digit (by decide)
  have plain : unpadded (toPositional (.finite negative c e)) =
      sign negative ++ (whole ++ '.' :: fraction) := by
    rw [toPositional_pointed ne, shown, last, ← List.append_assoc, unpadded_last zero other]
  refine ⟨⟨whole ++ '.' :: fraction, numeral_valid ?_ ⟨d, by simp [cons], ?_⟩ ?_⟩, ?_, ?_⟩
  · intro d hd
    rw [List.mem_append, List.mem_cons] at hd
    obtain mem | rfl | mem := hd
    · simp [isNumeralSymbol, wholeDigit d mem]
    · decide
    · simp [isNumeralSymbol, digit d (List.mem_append_right _ mem)]
  · exact wholeDigit d (by simp [cons])
  · simp [List.count_append, List.count_eq_zero.mpr point, List.count_eq_zero.mpr point']
  · apply toPlain_of_unpadded plain
    · intro same
      have mem : '.' ∈ sign negative ++ (whole ++ '.' :: fraction) := by simp
      rw [same] at mem
      exact absurd mem (by decide)
    · simp
  · rw [ofNumeral_pointed negative fraction point, value, size, Int.neg_neg]

/-- The plain form of a finite number is read as an equal number, which has the same plain form. -/
theorem toPlain_reading {a : Decimal} (h : a.isFinite = true) :
    ∃ minus n, PlainReading a minus n := by
  cases a with
  | infinity negative => cases h
  | nan negative signaling payload => cases h
  | finite negative c e =>
    by_cases zero : c = 0
    · rw [zero]
      exact ⟨false, _, zero_reading negative e⟩
    · obtain ⟨core, k, rfl, last⟩ := exists_scaled zero
      have ne : core ≠ 0 := by
        rintro rfl
        exact last rfl
      -- The number is `core` at the exponent `e + k`.
      have shown := toPlain_scaled negative ne k (e + k)
      have equal := fun j => sameValue_scaled negative core (e + k) j k
      have place : (e + k - k : Int) = e := by omega
      rw [place] at shown equal
      by_cases low : e + k < 0
      · obtain ⟨numeral, text, reading⟩ := pointed_reading negative last low
        refine ⟨negative, numeral, shown.trans text, ?_, ?_⟩
        · rw [reading, shown]
        · rw [reading]
          simpa [tenPow] using equal 0
      · have grown := toPlain_scaled negative ne (e + k).toNat (e + k)
        have value := equal (e + k).toNat
        have none : e + k - ((e + k).toNat : Int) = 0 := by omega
        rw [none] at grown value
        have pos : core * tenPow (e + k).toNat ≠ 0 :=
          Nat.mul_ne_zero ne (Nat.pow_pos (by decide)).ne'
        obtain ⟨numeral, text, reading⟩ := whole_reading negative pos
        refine ⟨negative, numeral, (shown.trans grown.symm).trans text, ?_, ?_⟩
        · rw [reading, grown, shown]
        · rw [reading]
          exact value

end Decimal
end Calculator
