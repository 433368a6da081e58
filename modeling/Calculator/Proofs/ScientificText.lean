import Calculator.Proofs.Likeness
import Calculator.Proofs.Rounding

/-!
# Calculator.Proofs.ScientificText

The engineering form of a number read back, and with it the scientific form, which is the
engineering form of a rounded number.

Mathematical meaning: the digits of `c` with a point among them, or zeros after them, and an
exponent behind denote `c · 10 ^ e` whatever place the point has been given, since the exponent
makes up for it.

* `read?_toEngineering`: the engineering form is read as an equal number.
* `shown_scientific`: the scientific form is that of the number rounded to the ambient context, and
  denotes the number itself exactly if that context represents it.
-/

namespace Calculator
namespace Decimal

/-! ## Digits with a point -/

theorem digitsValue_append_zeros (ds : List Char) (k : Nat) :
    digitsValue (ds ++ zeros k) = digitsValue ds * tenPow k := by
  induction k with
  | zero => simp [zeros, tenPow]
  | succ k ih =>
    have last : zeros (k + 1) = zeros k ++ ['0'] := List.replicate_succ'
    rw [last, ← List.append_assoc, digitsValue_append_one, ih, tenPow_succ, Nat.mul_assoc]
    rfl

/-- Digits before a point, and digits after it if there is one. -/
inductive Pointed : List Char → List Char → List Char → Prop where
  | whole (ds : List Char) : Pointed ds ds []
  | split (whole fraction : List Char) : Pointed (whole ++ '.' :: fraction) whole fraction

/-- A point put after the first `place` digits of a number: as many digits stand behind it as there
are after the first `place`, and as many zeros are added as there are digits missing before it. -/
theorem pointed_parts (c : Nat) (place : Int) : ∃ whole fraction,
    Pointed (pointed (digits c) place) whole fraction ∧ whole ≠ [] ∧
    (∀ d ∈ whole, isAsciiDigit d = true) ∧ (∀ d ∈ fraction, isAsciiDigit d = true) ∧
    digitsValue (whole ++ fraction) = c * tenPow (place - (digits c).length).toNat ∧
    (fraction.length : Int) = (place - (digits c).length).toNat + (digits c).length - place := by
  by_cases inside : place < (digits c).length
  · have low : place - (digits c).length < 0 := by omega
    obtain ⟨whole, fraction, before, shown, -, first, digit, value, size⟩ := @pointed_split c _ low
    have none : (place - (digits c).length).toNat = 0 := by omega
    rw [Int.sub_add_cancel] at shown
    refine ⟨whole, fraction, shown ▸ .split whole fraction, first,
      fun d mem => digit d (List.mem_append_left _ mem),
      fun d mem => digit d (List.mem_append_right _ mem), ?_, ?_⟩
    · rw [value, none, tenPow, Nat.pow_eq, Nat.pow_zero, Nat.mul_one]
    · omega
  · have filled := List.length_pos_iff.mpr (digits_ne_nil c)
    have shown : pointed (digits c) place =
        digits c ++ zeros (place - (digits c).length).toNat := by
      rw [pointed, if_neg (by omega), if_pos (by omega)]
    refine ⟨digits c ++ zeros (place - (digits c).length).toNat, [], shown ▸ .whole _,
      List.append_ne_nil_of_left_ne_nil (digits_ne_nil c) _, ?_, List.forall_mem_nil _, ?_, ?_⟩
    · intro d mem
      rw [List.mem_append] at mem
      cases mem with
      | inl digit => exact digits_digit c d digit
      | inr zero =>
        rw [List.eq_of_mem_replicate zero]
        rfl
    · rw [List.append_nil, digitsValue_append_zeros, digitsValue_digits]
    · rw [List.length_nil]
      omega

/-! ## Reading -/

theorem readExponent?_exponentText (x : Int) : readExponent? (exponentText x) = some x := by
  have some : (digits x.natAbs).isEmpty = false := by
    rw [List.isEmpty_eq_false_iff]
    exact digits_ne_nil _
  have all : (digits x.natAbs).all isAsciiDigit = true :=
    List.all_eq_true.mpr (digits_digit x.natAbs)
  have letter : ('E'.toLower != 'e') = false := by decide
  by_cases low : x < 0
  · simp only [exponentText, readExponent?, letter, low, if_true, some, all, digitsValue_digits,
      Bool.false_eq_true, if_false, Bool.not_true, Bool.or_self]
    exact congrArg Option.some (by omega)
  · simp only [exponentText, readExponent?, letter, low, some, all, digitsValue_digits,
      Bool.false_eq_true, if_false, Bool.not_true, Bool.or_self]
    exact congrArg Option.some (by omega)

/-- What may stand behind the digits of a number. -/
structure IsExponent (text : List Char) (x : Int) : Prop where
  read : readExponent? text = some x
  first : ∀ c ∈ text.head?, c = 'E'

theorem isExponent_nil : IsExponent [] 0 := ⟨rfl, nofun⟩

theorem isExponent_text (x : Int) : IsExponent (exponentText x) x where
  read := readExponent?_exponentText x
  first := by
    rintro c ⟨⟩
    rfl

theorem toLower_digit {c : Char} (digit : isAsciiDigit c = true) : c.toLower = c := by
  have bounds := isAsciiDigit_iff.mp digit
  unfold Char.toLower
  split
  · rename_i upper
    have up := UInt32.le_iff_toNat_le.mp upper.1
    change 65 ≤ c.toNat at up
    omega
  · rfl

/-- A text that begins with a digit is none of the words for special values. -/
theorem lower_no_word {c : Char} (digit : isAsciiDigit c = true) (rest : List Char) :
    ((c :: rest).map Char.toLower == "inf".toList) = false ∧
    ((c :: rest).map Char.toLower == "infinity".toList) = false ∧
    (((c :: rest).map Char.toLower).take 3 == "nan".toList) = false ∧
    (((c :: rest).map Char.toLower).take 4 == "snan".toList) = false := by
  have other (d : Char) (letter : isAsciiDigit d = false) : (c == d) = false := by
    rw [beq_eq_false_iff_ne]
    rintro rfl
    rw [digit] at letter
    cases letter
  have i := other 'i' rfl
  have n := other 'n' rfl
  have s := other 's' rfl
  simp [toLower_digit digit] at i n s ⊢
  simp [i, n, s]

theorem takeWhile_digits {ds rest : List Char} (digit : ∀ d ∈ ds, isAsciiDigit d = true)
    (stop : ∀ c ∈ rest.head?, isAsciiDigit c = false) :
    (ds ++ rest).takeWhile isAsciiDigit = ds ∧ (ds ++ rest).dropWhile isAsciiDigit = rest := by
  rw [List.takeWhile_append_of_pos digit, List.dropWhile_append_of_pos digit]
  cases rest with
  | nil => simp
  | cons c rest =>
    have none := stop c rfl
    simp [none]

/-- The digits after a point that begins a text, and what follows them. -/
def fractionOf : List Char → List Char × List Char
  | '.' :: rest => (rest.takeWhile isAsciiDigit, rest.dropWhile isAsciiDigit)
  | rest => ([], rest)

/-- The number with some digits before and after the point, if its exponent has been read. -/
def readWithExponent (n : Bool) (whole fraction : List Char) : Option Int → Option Decimal
  | none => none
  | some e => inRange? n (digitsValue (whole ++ fraction)) (e - fraction.length)

/-- What follows the digits of an unsigned number is told from the first character that is no
digit. -/
theorem readUnsigned?_digits {ds rest : List Char} (n : Bool) (filled : ds ≠ [])
    (digit : ∀ d ∈ ds, isAsciiDigit d = true) (stop : ∀ c ∈ rest.head?, isAsciiDigit c = false) :
    readUnsigned? n (ds ++ rest) = readWithExponent n ds (fractionOf rest).1
      (readExponent? (fractionOf rest).2) := by
  obtain ⟨before, after⟩ := takeWhile_digits digit stop
  obtain ⟨c, ds, rfl⟩ := List.exists_cons_of_ne_nil filled
  obtain ⟨noInf, noInfinity, noNan, noSignal⟩ :=
    lower_no_word (digit c List.mem_cons_self) (ds ++ rest)
  rw [← List.cons_append] at noInf noInfinity noNan noSignal
  rw [readUnsigned?]
  simp only [noInf, noInfinity, noNan, noSignal, before, after, Bool.or_self, Bool.false_and,
    Bool.false_eq_true, if_false, List.isEmpty_cons]
  rfl

theorem readUnsigned?_pointed {body text whole fraction : List Char} {x : Int} (n : Bool)
    (parts : Pointed body whole fraction) (filled : whole ≠ [])
    (hw : ∀ d ∈ whole, isAsciiDigit d = true) (hf : ∀ d ∈ fraction, isAsciiDigit d = true)
    (exponent : IsExponent text x) :
    readUnsigned? n (body ++ text) =
      inRange? n (digitsValue (whole ++ fraction)) (x - fraction.length) := by
  have letter : ∀ c ∈ text.head?, isAsciiDigit c = false := by
    intro c first
    rw [exponent.first c first]
    rfl
  cases parts with
  | whole =>
    have none : fractionOf text = ([], text) := by
      cases text with
      | nil => rfl
      | cons c rest =>
        obtain rfl := exponent.first c rfl
        rfl
    rw [readUnsigned?_digits n filled hw letter, none, exponent.read]
    rfl
  | split =>
    obtain ⟨before, after⟩ := takeWhile_digits hf letter
    have some : fractionOf ('.' :: (fraction ++ text)) = (fraction, text) := by
      rw [fractionOf, before, after]
    rw [List.append_assoc, List.cons_append,
      readUnsigned?_digits n filled hw (by rintro c ⟨⟩; rfl), some, exponent.read]
    rfl

/-- A text that is read as it stands. -/
def IsBare (text : List Char) : Prop := ∀ c ∈ text, 33 ≤ c.toNat ∧ c.toNat < 128 ∧ c ≠ '_'

instance (text : List Char) : Decidable (IsBare text) := List.decidableBAll _ text

theorem plainDigits?_bare {text : List Char} (h : IsBare text) : plainDigits? text = some text := by
  induction text with
  | nil => rfl
  | cons c rest ih =>
    obtain ⟨⟨-, low, other⟩, later⟩ := List.forall_mem_cons.mp h
    have no : (c == '_') = false := beq_eq_false_iff_ne.mpr other
    rw [plainDigits?, no, if_neg Bool.false_ne_true, if_pos low, ih later]
    rfl

theorem trim_bare {text : List Char} (h : IsBare text) : trim text = text := by
  apply trim_of_edged
  apply edged_of_filled
  intro c mem
  obtain ⟨more, less, -⟩ := h c mem
  cases blank : isBlank c with
  | false => rfl
  | true => have range := isBlank_range blank; omega

theorem isBare_append {a b : List Char} : IsBare (a ++ b) ↔ IsBare a ∧ IsBare b :=
  List.forall_mem_append

theorem isBare_digits {ds : List Char} (h : ∀ d ∈ ds, isAsciiDigit d = true) : IsBare ds := by
  intro c mem
  have digit := h c mem
  have bounds := isAsciiDigit_iff.mp digit
  refine ⟨by omega, by omega, ?_⟩
  rintro rfl
  cases digit

theorem isBare_exponentText (x : Int) : IsBare (exponentText x) := by
  have tail := isBare_digits (digits_digit x.natAbs)
  rw [exponentText]
  split
  · exact isBare_append.mpr ⟨(by decide : IsBare ['E', '-']), tail⟩
  · exact isBare_append.mpr ⟨(by decide : IsBare ['E', '+']), tail⟩

theorem Pointed.isBare {body whole fraction : List Char} (parts : Pointed body whole fraction)
    (hw : ∀ d ∈ whole, isAsciiDigit d = true) (hf : ∀ d ∈ fraction, isAsciiDigit d = true) :
    IsBare body := by
  cases parts with
  | whole => exact isBare_digits hw
  | split =>
    have point : IsBare ['.'] := by decide
    exact isBare_append.mpr ⟨isBare_digits hw, isBare_append.mpr ⟨point, isBare_digits hf⟩⟩

theorem Pointed.head {body whole fraction : List Char} (parts : Pointed body whole fraction)
    (filled : whole ≠ []) (hw : ∀ d ∈ whole, isAsciiDigit d = true) (text : List Char) :
    ∃ d ∈ (body ++ text).head?, isAsciiDigit d = true := by
  obtain ⟨d, rest, rfl⟩ := List.exists_cons_of_ne_nil filled
  refine ⟨d, ?_, hw d List.mem_cons_self⟩
  cases parts with
  | whole => rfl
  | split => rfl

/-- A number is read after its sign. -/
theorem read?_signed {text : List Char} (n : Bool) (bare : IsBare text)
    (digit : ∃ c ∈ text.head?, isAsciiDigit c = true) :
    read? (sign n ++ text) = readUnsigned? n text := by
  have signed : IsBare (sign n ++ text) :=
    isBare_append.mpr ⟨by cases n <;> decide, bare⟩
  rw [read?, trim_bare signed, plainDigits?_bare signed]
  cases n with
  | true => rfl
  | false =>
    obtain ⟨c, first, digit⟩ := digit
    cases text with
    | nil => cases first
    | cons d rest =>
      cases first
      rw [sign, if_neg Bool.false_ne_true, List.nil_append]
      split
      · rename_i same
        cases same
        cases digit
      · rename_i same
        cases same
        cases digit
      · rename_i same
        cases same
        rfl
      · rename_i same
        cases same

/-- The place of the point in the engineering form of a number. -/
def engineeringPlace (c : Nat) (e : Int) : Int :=
  if e ≤ 0 ∧ -6 < e + (digits c).length then e + (digits c).length
  else if c = 0 then (e + (digits c).length + 1) % 3 - 1
  else (e + (digits c).length - 1) % 3 + 1

theorem toEngineering_finite (n : Bool) (c : Nat) (e : Int) : toEngineering (.finite n c e) =
    withExponent n (digits c) (e + (digits c).length) (engineeringPlace c e) := rfl

theorem engineeringPlace_le (c : Nat) (e : Int) : engineeringPlace c e ≤ (digits c).length + 2 := by
  have filled := List.length_pos_iff.mpr (digits_ne_nil c)
  rw [engineeringPlace]
  split
  · omega
  · split <;> omega

theorem adjusted_scaled_le (c k : Nat) (e : Int) :
    adjusted (c * tenPow k) (e - k) ≤ adjusted c e := by
  by_cases zero : c = 0
  · rw [zero, Nat.zero_mul, adjusted, adjusted]
    omega
  · rw [adjusted, adjusted, digitCount_scaled zero]
    omega

/-- The engineering form is read as the number with up to two zeros after its digits. -/
theorem read?_toEngineering (n : Bool) {c : Nat} {e : Int} (least : smallestExponent + 2 ≤ e)
    (most : adjusted c e ≤ largestExponent) :
    ∃ k : Nat, read? (toEngineering (.finite n c e)) = some (.finite n (c * tenPow k) (e - k)) := by
  have bound := engineeringPlace_le c e
  rw [toEngineering_finite, withExponent]
  generalize engineeringPlace c e = place at bound ⊢
  obtain ⟨whole, fraction, parts, filled, hw, hf, value, size⟩ := pointed_parts c place
  generalize count : (place - (digits c).length).toNat = k at value size
  have exponent : IsExponent
      (if e + (digits c).length = place then [] else exponentText (e + (digits c).length - place))
      (e + (digits c).length - place) := by
    split
    · rename_i same
      rw [same, Int.sub_self]
      exact isExponent_nil
    · exact isExponent_text _
  have bare : IsBare
      (if e + (digits c).length = place then []
        else exponentText (e + (digits c).length - place)) := by
    split
    · exact nofun
    · exact isBare_exponentText _
  generalize (if e + (digits c).length = place then [] else
    exponentText (e + (digits c).length - place)) = text at exponent bare ⊢
  have first := parts.head filled hw text
  have position : e + (digits c).length - place - fraction.length = e - (k : Int) := by omega
  have adjust := adjusted_scaled_le c k e
  refine ⟨k, ?_⟩
  rw [List.append_assoc, read?_signed n (isBare_append.mpr ⟨parts.isBare hw hf, bare⟩) first,
    readUnsigned?_pointed n parts filled hw hf exponent, value, position, inRange?,
    if_neg (by omega)]

/-! ## The scientific form -/

/-- Numbers of the ambient context are small enough to be read. -/
theorem ambient_readable {c : Nat} {e : Int} (held : Context.ambient.Holds c e) :
    smallestExponent + 2 ≤ e ∧ adjusted c e ≤ largestExponent := by
  obtain ⟨-, least, greatest⟩ := held
  simp only [Context.tiniest, Context.ambient, Context.ofDigits] at least greatest
  rw [smallestExponent, largestExponent]
  omega

theorem ambient_proper : Context.ambient.Proper := Context.ofDigits_proper (by decide)

/-- A text that is read as a number of a certain value. -/
def Denotes (text : String) (a : Decimal) : Prop :=
  ∃ b, ofString? text = some b ∧ b.sameValue a = true

/-- The engineering form of a number of the ambient context without some of its trailing zeros. -/
theorem denotes_toEngineering {n : Bool} {c k : Nat} {e : Int}
    (held : Context.ambient.Holds (c * tenPow k) (e - k)) (nonzero : c ≠ 0) :
    Denotes (String.ofList (toEngineering (.finite n c e))) (.finite n (c * tenPow k) (e - k)) := by
  obtain ⟨least, most⟩ := ambient_readable held
  have same : adjusted (c * tenPow k) (e - k) = adjusted c e := by
    rw [adjusted, adjusted, digitCount_scaled nonzero]
    omega
  obtain ⟨j, read⟩ := read?_toEngineering n (by omega) (same ▸ most)
  exact ⟨_, by rw [ofString?, String.toList_ofList, read], sameValue_scaled n c e j k⟩

theorem sameValue_zero (n m : Bool) (e f : Int) :
    sameValue (.finite n 0 e) (.finite m 0 f) = true := by
  cases n <;> cases m <;> rfl

theorem reduce_error {ctx : Context} {n : Bool} {c : Nat} {e : Int} {f : Fault}
    (h : ctx.finish n c e = .error f) : reduce ctx (.finite n c e) = .error f := by
  simp only [reduce, nanResult?, h]

/-- A rounded number loses its trailing zeros. -/
theorem reduce_ok {ctx : Context} {n : Bool} {c c' : Nat} {e e' : Int}
    (h : ctx.finish n c e = .ok (.finite n c' e')) :
    (c' = 0 ∧ reduce ctx (.finite n c e) = .ok (.finite n 0 0)) ∨
    ∃ core k, core ≠ 0 ∧ c' = core * tenPow k ∧
      reduce ctx (.finite n c e) = .ok (.finite n core (e' + (k : Nat))) := by
  simp only [reduce, nanResult?, h]
  by_cases none : c' = 0
  · rw [if_pos none]
    exact .inl ⟨none, rfl⟩
  · obtain ⟨nonneg, same⟩ := stripZeros_spec (digitCount c') c' (ctx.maxExponent - e')
    rw [if_neg none]
    generalize stripZeros (digitCount c') c' (ctx.maxExponent - e') = stripped at nonneg same ⊢
    obtain ⟨core, removed⟩ := stripped
    obtain ⟨k, rfl⟩ := Int.eq_ofNat_of_zero_le nonneg
    refine .inr ⟨core, k, ?_, same, rfl⟩
    rintro rfl
    exact none (by rw [same, Nat.zero_mul])

theorem shown_nonzero {n : Bool} {c : Nat} (e : Int) (h : c ≠ 0) :
    shown .scientific (.finite n c e) =
      (reduce .ambient (.finite n c e)).map fun a => String.ofList a.toEngineering := by
  have nonzero : isZero (.finite n c e) = false := beq_eq_false_iff_ne.mpr h
  simp only [shown, nonzero, Bool.false_eq_true, if_false]
  cases reduce .ambient (.finite n c e) with
  | error f => rfl
  | ok a => rfl

/-- What the rounding to the ambient context gives is what the scientific form shows; where it is
too large there is no scientific form. -/
theorem shown_finish (n : Bool) (c : Nat) (e : Int) :
    (∀ f, Context.ambient.finish n c e = .error f →
      shown .scientific (.finite n c e) = .error f) ∧
    ∀ v, Context.ambient.finish n c e = .ok v →
      ∃ text, shown .scientific (.finite n c e) = .ok text ∧ Denotes text v := by
  by_cases zero : c = 0
  · subst zero
    refine ⟨nofun, ?_⟩
    rintro v ⟨⟩
    exact ⟨"0", rfl, .finite false 0 0, by decide +kernel, sameValue_zero _ _ _ _⟩
  · rw [shown_nonzero e zero]
    constructor
    · intro f failed
      rw [reduce_error failed]
      rfl
    · intro v rounded
      obtain ⟨c', e', rfl, held⟩ := Context.finish_held ambient_proper rounded
      obtain ⟨rfl, reduced⟩ | ⟨core, k, nonzero, rfl, reduced⟩ := reduce_ok rounded
      · rw [reduced]
        refine ⟨_, rfl, .finite n 0 0, by cases n <;> decide +kernel, sameValue_zero n n 0 e'⟩
      · rw [reduced]
        have place : e' = e' + k - k := (Int.add_sub_cancel e' k).symm
        rw [place] at held
        have denotes := denotes_toEngineering (n := n) held nonzero
        rw [Int.add_sub_cancel] at denotes
        exact ⟨_, rfl, denotes⟩

/-- What is equal to a finite number is finite. -/
theorem finite_of_sameValue {a b : Decimal} (h : b.isFinite = true) (same : a.sameValue b = true) :
    a.isFinite = true := by
  cases b with
  | infinity n => cases h
  | nan n s p => cases h
  | finite m d f =>
    cases a with
    | finite n c e => rfl
    | infinity n => cases n <;> cases same
    | nan n s p => cases same

theorem denotes_iff {text : String} {a b : Decimal} (ha : a.isFinite = true)
    (hb : b.isFinite = true) (denotes : Denotes text a) : Denotes text b ↔ a.rational? = b.rational? := by
  obtain ⟨v, read, same⟩ := denotes
  have finite := finite_of_sameValue ha same
  rw [sameValue_iff finite ha] at same
  constructor
  · rintro ⟨w, read', same'⟩
    obtain rfl := Option.some.inj (read.symm.trans read')
    rw [sameValue_iff finite hb] at same'
    exact same.symm.trans same'
  · intro equal
    exact ⟨v, read, (sameValue_iff finite hb).mpr (same.trans equal)⟩

/-- The scientific form denotes the number itself exactly if the ambient context represents it. -/
theorem shown_scientific_iff (n : Bool) (c : Nat) (e : Int) :
    (∃ text, shown .scientific (.finite n c e) = .ok text ∧ Denotes text (.finite n c e)) ↔
      Context.ambient.Represents (scaled n c e) := by
  obtain ⟨fails, gives⟩ := shown_finish n c e
  constructor
  · rintro ⟨text, shown, denotes⟩
    cases rounded : Context.ambient.finish n c e with
    | error f =>
      rw [fails f rounded] at shown
      cases shown
    | ok v =>
      obtain ⟨text', shown', denotes'⟩ := gives v rounded
      obtain ⟨c', e', rfl, held⟩ := Context.finish_held ambient_proper rounded
      rw [shown] at shown'
      cases shown'
      have same := (denotes_iff rfl rfl denotes').mp denotes
      exact ⟨n, c', e', held, Option.some.inj same⟩
  · intro represented
    obtain ⟨v, rounded, value⟩ := Context.finish_of_represents represented
    obtain ⟨text, shown, denotes⟩ := gives v rounded
    obtain ⟨c', e', rfl, held⟩ := Context.finish_held ambient_proper rounded
    exact ⟨text, shown, (denotes_iff rfl rfl denotes).mpr value⟩

/-- The scientific form of a finite number. What it denotes is the number rounded to the ambient
context, and where that is too large there is no scientific form. It denotes the number itself
exactly if the ambient context represents it, as it does what an operation gives in a context of
no more digits. -/
theorem shown_scientific (n : Bool) (c : Nat) (e : Int) :
    (∀ f, Context.ambient.finish n c e = .error f →
      shown .scientific (.finite n c e) = .error f) ∧
    (∀ v, Context.ambient.finish n c e = .ok v →
      ∃ text, shown .scientific (.finite n c e) = .ok text ∧ Denotes text v) ∧
    ((∃ text, shown .scientific (.finite n c e) = .ok text ∧ Denotes text (.finite n c e)) ↔
      Context.ambient.Represents (scaled n c e)) ∧
    ∀ digits v, 1 ≤ digits → digits ≤ Context.ambient.precision →
      (Context.ofDigits digits).finish n c e = .ok v →
      ∃ text, v.shown .scientific = .ok text ∧ Denotes text v := by
  obtain ⟨fails, gives⟩ := shown_finish n c e
  refine ⟨fails, gives, shown_scientific_iff n c e, ?_⟩
  intro digits v some few rounded
  obtain ⟨c', e', rfl, held⟩ := Context.finish_held (Context.ofDigits_proper some) rounded
  exact (shown_scientific_iff n c' e').mpr ⟨n, c', e', held.ofDigits_mono few, rfl⟩

/-- A number of more digits than the ambient context keeps, which the default environment gives: it
is shown as another number. -/
theorem shown_scientific_rounds :
    result (Evaluation.evaluate ⟨0, false⟩ Family.empty.addStandard.1 0 "1/3" (.start 0)) =
      .ok (.finite false 3333333333333333333333333333333333 (-34)) ∧
    shown .scientific (.finite false 3333333333333333333333333333333333 (-34)) =
      .ok "0.3333333333333333333333333333" ∧
    ¬ Denotes "0.3333333333333333333333333333"
      (.finite false 3333333333333333333333333333333333 (-34)) := by
  refine ⟨by decide +kernel, by decide +kernel, ?_⟩
  rintro ⟨a, read, same⟩
  have value : ofString? "0.3333333333333333333333333333" =
      some (.finite false 3333333333333333333333333333 (-28)) := by decide +kernel
  rw [value] at read
  cases read
  exact absurd same (by decide +kernel)

end Decimal
end Calculator
