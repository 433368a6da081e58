import Calculator.Proofs.Likeness
import Calculator.Proofs.PlainText

/-!
# Calculator.Proofs.Grouping

The separated form of a number against its plain form.

Mathematical meaning: in a run of characters a separator follows each character that has a positive
multiple of three characters of the run on its right, and no other. Cutting pieces of three off the
right end, and joining them, puts separators in the same places.

* `intercalate_groups`: the pieces, joined, are the spaced run.
* `without_spaced`: a spaced run without the separators is the run.
* `toSeparated_grouped`: the separated form is the plain form with its whole part spaced, and the
  plain form again without the separators.
-/

namespace Calculator
namespace Decimal

/-! ## Places of separators -/

/-- A run of characters with a separator wherever a positive multiple of three of them follow. -/
def spaced (separator : List Char) : List Char → List Char
  | [] => []
  | c :: rest =>
    c :: (if rest ≠ [] ∧ rest.length % 3 = 0 then separator else []) ++ spaced separator rest

/-- A text without the occurrences of a mark, which are found from the left. -/
def without (mark : List Char) : List Char → List Char
  | [] => []
  | c :: rest =>
    if mark ≠ [] ∧ mark.isPrefixOf (c :: rest) = true then
      without mark ((c :: rest).drop mark.length)
    else c :: without mark rest
termination_by text => text.length
decreasing_by
  · rename_i found
    have positive := List.length_pos_iff.mpr found.1
    rw [List.length_drop, List.length_cons]
    omega
  · exact Nat.lt_succ_self _

section

variable {separator : List Char}

theorem spaced_short : ∀ {run : List Char}, run.length ≤ 3 → spaced separator run = run
  | [], _ => rfl
  | [_], _ => rfl
  | [_, _], _ => rfl
  | [_, _, _], _ => rfl
  | _ :: _ :: _ :: _ :: _, long => by
    simp only [List.length_cons] at long
    omega

/-- Three characters more on the right shift no separator on the left. -/
theorem spaced_append {last : List Char} (three : last.length = 3) : ∀ {run : List Char}, run ≠ [] →
    spaced separator (run ++ last) = spaced separator run ++ separator ++ last := by
  intro run
  induction run with
  | nil => exact fun filled => absurd rfl filled
  | cons c rest ih =>
    intro _
    have some : last ≠ [] := List.ne_nil_of_length_pos (by omega)
    cases rest with
    | nil => simp [spaced, some, three, @spaced_short separator last three.le]
    | cons d rest =>
      have later := ih (List.cons_ne_nil d rest)
      have shifted : (d :: rest ++ last).length % 3 = (d :: rest).length % 3 := by
        rw [List.length_append, three, Nat.add_mod_right]
      rw [List.cons_append, spaced, spaced, later, shifted]
      simp

theorem intercalate_concat {last : List Char} : ∀ {pieces : List (List Char)}, pieces ≠ [] →
    separator.intercalate (pieces ++ [last]) =
      separator.intercalate pieces ++ separator ++ last := by
  intro pieces
  induction pieces with
  | nil => exact fun filled => absurd rfl filled
  | cons piece rest ih =>
    intro _
    cases rest with
    | nil => simp
    | cons next rest =>
      have later := ih (List.cons_ne_nil next rest)
      rw [List.cons_append] at later
      rw [List.cons_append, List.cons_append, List.intercalate_cons_cons, later,
        List.intercalate_cons_cons]
      simp only [List.append_assoc]

theorem groups_ne_nil (fuel : Nat) (run : List Char) : groups fuel run ≠ [] := by
  cases fuel with
  | zero => exact List.cons_ne_nil _ _
  | succ fuel =>
    rw [groups]
    split
    · exact List.cons_ne_nil _ _
    · exact List.append_ne_nil_of_right_ne_nil _ (List.cons_ne_nil _ _)

theorem intercalate_groups : ∀ (fuel : Nat) {run : List Char}, run.length ≤ 3 * fuel + 3 →
    separator.intercalate (groups fuel run) = spaced separator run := by
  intro fuel
  induction fuel with
  | zero =>
    intro run short
    rw [groups, List.intercalate_singleton, spaced_short short]
  | succ fuel ih =>
    intro run bound
    rw [groups]
    split
    · rename_i short
      rw [List.intercalate_singleton, spaced_short short]
    · rename_i long
      have three : (run.drop (run.length - 3)).length = 3 := by
        rw [List.length_drop]
        omega
      have size : (run.take (run.length - 3)).length = run.length - 3 := by
        rw [List.length_take]
        omega
      have filled : run.take (run.length - 3) ≠ [] := List.ne_nil_of_length_pos (by omega)
      rw [intercalate_concat (groups_ne_nil fuel _), ih (by omega), ← spaced_append three filled,
        List.take_append_drop]

/-! ## Separators removed -/

theorem without_mark (rest : List Char) :
    without separator (separator ++ rest) = without separator rest := by
  cases separator with
  | nil => rfl
  | cons c mark =>
    have found : (c :: mark).isPrefixOf (c :: (mark ++ rest)) = true :=
      List.isPrefixOf_iff_prefix.mpr (List.prefix_append (c :: mark) rest)
    rw [List.cons_append, without, if_pos ⟨List.cons_ne_nil _ _, found⟩, ← List.cons_append,
      List.drop_left]

theorem without_other {c : Char} (other : c ∉ separator) (rest : List Char) :
    without separator (c :: rest) = c :: without separator rest := by
  rw [without, if_neg]
  rintro ⟨filled, found⟩
  obtain ⟨first, mark, rfl⟩ := List.exists_cons_of_ne_nil filled
  obtain ⟨rfl, -⟩ := List.cons_prefix_cons.mp (List.isPrefixOf_iff_prefix.mp found)
  exact other List.mem_cons_self

theorem without_spaced {run : List Char} (other : ∀ c ∈ run, c ∉ separator) (rest : List Char) :
    without separator (spaced separator run ++ rest) = run ++ without separator rest := by
  induction run with
  | nil => rfl
  | cons c run ih =>
    obtain ⟨here, later⟩ := List.forall_mem_cons.mp other
    rw [spaced, List.cons_append, List.cons_append, without_other here, List.append_assoc]
    split
    · rw [without_mark, ih later, List.cons_append]
    · rw [List.nil_append, ih later, List.cons_append]

theorem without_foreign {text : List Char} (other : ∀ c ∈ text, c ∉ separator) (rest : List Char) :
    without separator (text ++ rest) = text ++ without separator rest := by
  induction text with
  | nil => rfl
  | cons c text ih =>
    obtain ⟨here, later⟩ := List.forall_mem_cons.mp other
    rw [List.cons_append, without_other here, ih later, List.cons_append]

end

/-! ## Plain forms -/

theorem isAlphanum_digit {c : Char} (h : isAsciiDigit c = true) : c.isAlphanum = true := by
  rw [isAsciiDigit_iff] at h
  have digit : c.isDigit = true := by
    rw [Char.isDigit, Bool.and_eq_true, decide_eq_true_iff, decide_eq_true_iff]
    exact h
  rw [Char.isAlphanum, digit, Bool.or_true]

/-- What the plain form of a NaN is made of. -/
theorem toPlain_nan (n s : Bool) (p : Nat) : toPlain (.nan n s p) =
    sign n ++ ((if s then "sNaN" else "NaN").toList ++ if p = 0 then [] else digits p) := by
  have point : '.' ∉ sign n ++
      ((if s then "sNaN" else "NaN").toList ++ if p = 0 then [] else digits p) := by
    apply no_point_signed
    rw [List.mem_append, not_or]
    refine ⟨by cases s <;> decide, ?_⟩
    split
    · exact List.not_mem_nil
    · exact no_point (digits_digit p)
  apply toPlain_of_unpadded
  · rw [toPositional, specialText, List.append_assoc]
    exact unpadded_plain point
  · cases n <;> cases s <;> rintro ⟨⟩
  · cases n <;> cases s <;> rintro ⟨⟩

/-- A plain form is letters, digits and points after a minus, if there is one. -/
theorem toPlain_symbols (a : Decimal) : ∃ minus text, a.toPlain = sign minus ++ text ∧
    ∀ c ∈ text, c.isAlphanum = true ∨ c = '.' := by
  cases a with
  | finite n c e =>
    obtain ⟨minus, numeral, reading⟩ := @toPlain_reading (.finite n c e) rfl
    refine ⟨minus, numeral.text, reading.text, fun c mem => ?_⟩
    have symbol := numeral.symbols c mem
    rw [isNumeralSymbol, Bool.or_eq_true, beq_iff_eq] at symbol
    exact symbol.imp_left isAlphanum_digit
  | infinity n =>
    have letters : "Infinity".toList.all Char.isAlphanum = true := by decide
    exact ⟨n, "Infinity".toList, by cases n <;> rfl, fun c mem =>
      .inl (List.all_eq_true.mp letters c mem)⟩
  | nan n s p =>
    refine ⟨n, _, toPlain_nan n s p, fun c mem => .inl ?_⟩
    rw [List.mem_append] at mem
    cases mem with
    | inl word =>
      have letters : (if s then "sNaN" else "NaN").toList.all Char.isAlphanum = true := by
        cases s <;> decide
      exact List.all_eq_true.mp letters c word
    | inr payload =>
      split at payload
      · cases payload
      · exact isAlphanum_digit (digits_digit p c payload)

theorem toSeparated_eq {a : Decimal} {minus : Bool} {text : List Char} (separator : List Char)
    (h : a.toPlain = sign minus ++ text) (unsigned : text.head? ≠ some '-') :
    a.toSeparated separator =
      sign minus ++ spaced separator (text.takeWhile (· != '.')) ++ text.dropWhile (· != '.') := by
  have joined := @intercalate_groups separator (text.takeWhile (· != '.')).length
    (text.takeWhile (· != '.')) (by omega)
  cases minus with
  | true =>
    simp only [toSeparated, h, sign, if_true, List.singleton_append]
    rw [joined]
  | false =>
    simp only [toSeparated, h, sign, Bool.false_eq_true, if_false, List.nil_append]
    split
    · exact absurd rfl unsigned
    · rw [joined]
      rfl

/-- The parts of the plain form of a finite number: a sign, the digits before the point, and the
point with the digits after it, if there are any. -/
structure PlainParts (a : Decimal) (minus : Bool) (whole fraction : List Char) : Prop where
  plain : a.toPlain = sign minus ++ (whole ++ fraction)
  whole : ∀ c ∈ whole, isAsciiDigit c = true
  fraction : fraction = [] ∨ ∃ ds, fraction = '.' :: ds ∧ ∀ c ∈ ds, isAsciiDigit c = true

theorem exists_plainParts {a : Decimal} (h : a.isFinite = true) :
    ∃ minus whole fraction, PlainParts a minus whole fraction := by
  obtain ⟨minus, numeral, reading⟩ := toPlain_reading h
  have points : numeral.text.count '.' ≤ 1 := by
    have valid := numeral.valid
    rw [Bool.and_eq_true, decide_eq_true_iff] at valid
    exact valid.2
  have digit : ∀ c ∈ numeral.text, c ≠ '.' → isAsciiDigit c = true := by
    intro c mem other
    have symbol := numeral.symbols c mem
    rw [isNumeralSymbol, Bool.or_eq_true, beq_iff_eq] at symbol
    exact symbol.resolve_right other
  by_cases point : '.' ∈ numeral.text
  · obtain ⟨whole, ds, split⟩ := List.append_of_mem point
    rw [split] at points digit
    rw [List.count_append, List.count_cons_self] at points
    have before : '.' ∉ whole := List.count_eq_zero.mp (by omega)
    have after : '.' ∉ ds := List.count_eq_zero.mp (by omega)
    refine ⟨minus, whole, '.' :: ds, by rw [reading.text, split], ?_, .inr ⟨ds, rfl, ?_⟩⟩
    · exact fun c mem => digit c (List.mem_append_left _ mem) fun same => before (same ▸ mem)
    · exact fun c mem => digit c (by simp [mem]) fun same => after (same ▸ mem)
  · refine ⟨minus, numeral.text, [], by rw [reading.text, List.append_nil], ?_, .inl rfl⟩
    exact fun c mem => digit c mem fun same => point (same ▸ mem)

section

variable {a : Decimal} {minus : Bool} {whole fraction separator : List Char}

theorem PlainParts.unsigned (h : PlainParts a minus whole fraction) :
    (whole ++ fraction).head? ≠ some '-' := by
  intro first
  have mem := List.mem_of_mem_head? first
  rw [List.mem_append] at mem
  obtain inWhole | inFraction := mem
  · exact absurd (h.whole _ inWhole) (by decide)
  · obtain rfl | ⟨ds, rfl, later⟩ := h.fraction
    · cases inFraction
    · obtain same | inside := List.mem_cons.mp inFraction
      · cases same
      · exact absurd (later _ inside) (by decide)

theorem PlainParts.separated (h : PlainParts a minus whole fraction) (separator : List Char) :
    a.toSeparated separator = sign minus ++ (spaced separator whole ++ fraction) := by
  have inside := not_point (no_point h.whole)
  have cut : fraction.takeWhile (· != '.') = [] ∧ fraction.dropWhile (· != '.') = fraction := by
    obtain rfl | ⟨ds, rfl, -⟩ := h.fraction
    · exact ⟨rfl, rfl⟩
    · exact ⟨rfl, rfl⟩
  rw [toSeparated_eq separator h.plain h.unsigned, List.takeWhile_append_of_pos inside,
    List.dropWhile_append_of_pos inside, cut.1, cut.2, List.append_nil, List.append_assoc]

theorem infinity_separated (n : Bool) (separator : List Char) :
    (Decimal.infinity n).toSeparated separator =
      sign n ++ ("In".toList ++ separator ++ "fin".toList ++ separator ++ "ity".toList) := by
  have plain : toPlain (.infinity n) = sign n ++ "Infinity".toList := by cases n <;> rfl
  have letters : "Infinity".toList.takeWhile (· != '.') = "Infinity".toList := by decide
  have none : "Infinity".toList.dropWhile (· != '.') = [] := by decide
  rw [toSeparated_eq separator plain (by decide), letters, none, List.append_nil]
  simp [spaced]

/-- Whether separators cannot be taken for a part of a number. -/
def IsForeign (separator : List Char) : Prop :=
  ∀ c ∈ separator, c.isAlphanum = false ∧ c ≠ '-' ∧ c ≠ '.'

instance (separator : List Char) : Decidable (IsForeign separator) := List.decidableBAll _ separator

theorem without_toSeparated (foreign : IsForeign separator) (a : Decimal) :
    without separator (a.toSeparated separator) = a.toPlain := by
  obtain ⟨minus, text, plain, symbols⟩ := toPlain_symbols a
  have other : ∀ c ∈ text, c ∉ separator := by
    intro c mem inside
    obtain ⟨noLetter, -, noPoint⟩ := foreign c inside
    cases symbols c mem with
    | inl letter => exact absurd letter (by simp [noLetter])
    | inr point => exact noPoint point
  have unsigned : text.head? ≠ some '-' := by
    intro first
    cases symbols '-' (List.mem_of_mem_head? first) with
    | inl letter => cases letter
    | inr point => cases point
  have minusOther : ∀ c ∈ sign minus, c ∉ separator := by
    intro c mem inside
    cases minus with
    | false => cases mem
    | true => exact (foreign c inside).2.1 (List.mem_singleton.mp mem)
  have rest := @without_foreign separator (text.dropWhile (· != '.'))
    (fun c mem => other c (List.dropWhile_subset _ mem)) []
  simp only [List.append_nil, without] at rest
  rw [toSeparated_eq separator plain unsigned, List.append_assoc, without_foreign minusOther,
    without_spaced fun c mem => other c (List.takeWhile_subset _ mem), rest,
    List.takeWhile_append_dropWhile, plain]

end

/-- The separated form, told from the plain form. Without the separators it is the plain form. For a
finite number the separators stand in the whole part, after each digit that has a positive multiple
of three digits of the whole part on its right. The letters of an infinity are cut in threes as if
they were digits. -/
theorem toSeparated_grouped {separator : List Char} (foreign : IsForeign separator) (a : Decimal) :
    without separator (a.toSeparated separator) = a.toPlain ∧
    (a.isFinite = true → ∃ minus whole fraction, PlainParts a minus whole fraction ∧
      a.toSeparated separator = sign minus ++ (spaced separator whole ++ fraction)) ∧
    ∀ n, a = .infinity n → a.toSeparated separator =
      sign n ++ ("In".toList ++ separator ++ "fin".toList ++ separator ++ "ity".toList) := by
  refine ⟨without_toSeparated foreign a, fun finite => ?_, ?_⟩
  · obtain ⟨minus, whole, fraction, parts⟩ := exists_plainParts finite
    exact ⟨minus, whole, fraction, parts, parts.separated separator⟩
  · rintro n rfl
    exact infinity_separated n separator

theorem toSeparated_grouped_commas :
    String.ofList ((Decimal.finite true 1234567891 (-3)).toSeparated [',', ' ']) =
      "-1, 234, 567.891" ∧
    without [',', ' '] ((Decimal.finite true 1234567891 (-3)).toSeparated [',', ' ']) =
      "-1234567.891".toList := by
  have foreign : IsForeign [',', ' '] := by decide
  have removed := (toSeparated_grouped foreign (.finite true 1234567891 (-3))).1
  exact ⟨by decide +kernel, removed.trans (by decide +kernel)⟩

/-- A value that is no digits: it is shown with separators between letters. -/
theorem toSeparated_letters :
    result (Evaluation.evaluate ⟨0, false⟩ Family.empty.addStandard.1 0 "0^(-1)" (.start 0)) =
      .ok (.infinity false) ∧
    String.ofList ((Decimal.infinity false).toSeparated [' ']) = "In fin ity" ∧
    ¬ ∀ before after, (Decimal.infinity false).toSeparated [' '] = before ++ ' ' :: after →
      before.getLast?.any isAsciiDigit = true ∧ after.head?.any isAsciiDigit = true := by
  refine ⟨by decide +kernel, by decide +kernel, fun between => ?_⟩
  have digits := between "In".toList "fin ity".toList (by decide +kernel)
  exact absurd digits (by decide)

end Decimal
end Calculator
