import Calculator.Proofs.Lines
import Mathlib.Data.List.TakeWhile

/-!
# Calculator.Proofs.ContextNames

Which names stand for decimal contexts. A name that consists of digits is a numeral for `Beyond`
all precisions in three cases: not all of its digits have a place in a numeral, it is longer than
the numerals that are read, or its number is too large. These names, and no others, lead to a fault;
every other name gives a context that can be calculated in or is refused.

* `readInteger_numeral`: what reading a text of digits leads to.
* `ofName_resolves`: what each name leads to.
* `handle_context`: what a line with the command for contexts leads to.
-/

namespace Calculator

/-! ## Digits of any kind -/

theorem otherDigits_high : ∀ n < 128, Boundaries.contains otherDigitBoundaries n = false := by
  decide +kernel

theorem highBlanks_no_digit : ∀ n ∈ highBlanks,
    (decimalZeros.find? fun start => start ≤ n && n < start + 10) = none ∧
      Boundaries.contains otherDigitBoundaries n = false := by
  decide +kernel

theorem isAnyDigit_low {c : Char} (low : c.toNat < 128) : isAnyDigit c = isAsciiDigit c := by
  rw [isAnyDigit, otherDigits_high _ low, Bool.or_false, decimalDigit?, if_pos low]
  cases isAsciiDigit c with
  | false => rfl
  | true => rfl

theorem isBlank_of_isAnyDigit {c : Char} (h : isAnyDigit c = true) : isBlank c = false := by
  cases blank : isBlank c with
  | false => rfl
  | true =>
    rcases isBlank_range blank with low | ⟨high, listed⟩
    · rw [isAnyDigit_low (by omega), isAsciiDigit_iff] at h
      omega
    · obtain ⟨noZero, other⟩ := highBlanks_no_digit _ listed
      rw [isAnyDigit, other, decimalDigit?, if_neg (by omega), noZero] at h
      cases h

/-! ## Numerals -/

/-- The number that decimal digits write. -/
def digitsNumber (digits : List Char) : Nat :=
  (digits.filterMap decimalDigit?).foldl (fun n d => n * 10 + d) 0

/-- Whether every character has a place in a numeral. -/
def Placed (text : List Char) : Prop := ∀ c ∈ text, (decimalDigit? c).isSome = true

theorem underscoresFit_free {text : List Char} (free : '_' ∉ text) (fresh : Bool)
    (ne : text ≠ [] ∨ fresh = false) : underscoresFit fresh text = true := by
  induction text generalizing fresh with
  | nil => simpa [underscoresFit] using ne
  | cons c rest ih =>
    rw [List.mem_cons, not_or] at free
    have other : (c == '_') = false := beq_eq_false_iff_ne.mpr (Ne.symm free.1)
    rw [underscoresFit, other]
    exact ih free.2 false (.inr rfl)

theorem length_filterMap_placed {text : List Char} (placed : Placed text) :
    (text.filterMap decimalDigit?).length = text.length := by
  induction text with
  | nil => rfl
  | cons c rest ih =>
    obtain ⟨d, value⟩ := Option.isSome_iff_exists.mp (placed c List.mem_cons_self)
    rw [List.filterMap_cons_some value, List.length_cons, List.length_cons,
      ih fun other mem => placed other (List.mem_cons_of_mem c mem)]

/-- A numeral without sign and underscores is read if all of its characters are decimal digits and
it is not too long. -/
theorem readDigits_placed {text : List Char} (ne : text ≠ []) (free : '_' ∉ text)
    (placed : Placed text) : readDigits text =
      if longestNumeral < text.length then .error (.tooLong text.length)
      else .ok (digitsNumber text) := by
  have part : ∀ c ∈ text, (c == '_' || (decimalDigit? c).isSome) = true := by
    intro c mem
    rw [placed c mem, Bool.or_true]
  have run := List.takeWhile_eq_self_iff.mpr part
  have rest := List.dropWhile_eq_nil_iff.mpr part
  simp only [readDigits, run, rest, underscoresFit_free free true (.inl ne),
    length_filterMap_placed placed, Bool.not_true, Bool.false_eq_true, if_false, List.isEmpty_nil,
    if_true]
  rfl

/-- It is not read if some of its characters are no decimal digits. -/
theorem readDigits_unplaced {text : List Char} (free : '_' ∉ text) (unplaced : ¬ Placed text)
    (n : Nat) : readDigits text ≠ .ok n := by
  have rest : (text.dropWhile fun c => c == '_' || (decimalDigit? c).isSome).isEmpty = false := by
    rw [List.isEmpty_eq_false_iff, Ne, List.dropWhile_eq_nil_iff]
    intro part
    refine unplaced fun c mem => ?_
    have other : (c == '_') = false := beq_eq_false_iff_ne.mpr fun same => free (same ▸ mem)
    have here := part c mem
    rwa [other, Bool.false_or] at here
  simp only [readDigits, rest]
  split
  · exact nofun
  · split
    · exact nofun
    · exact nofun

/-- There is no white space to leave out around a text that holds none. -/
theorem numeral_solid {text : List Char} (filled : ∀ c ∈ text, isNumeralBlank c = false) :
    ((text.dropWhile isNumeralBlank).reverse.dropWhile isNumeralBlank).reverse = text := by
  have left : text.dropWhile isNumeralBlank = text := by
    rw [List.dropWhile_eq_self_iff]
    intro nonempty
    simpa using filled _ (List.getElem_mem nonempty)
  have right : text.reverse.dropWhile isNumeralBlank = text.reverse := by
    rw [List.dropWhile_eq_self_iff]
    intro nonempty
    simpa using filled _ (List.mem_reverse.mp (List.getElem_mem nonempty))
  rw [left, right, List.reverse_reverse]

theorem isNumeralBlank_digit {c : Char} (digit : isAnyDigit c = true) :
    isNumeralBlank c = false := by
  rw [isNumeralBlank, isBlank_of_isAnyDigit digit, Bool.false_and]

/-- Digits have no sign and no white space around them. -/
theorem readInteger_digits {text : List Char} (digits : ∀ c ∈ text, isAnyDigit c = true) :
    readInteger text = (readDigits text).map fun n => (n : Int) := by
  rw [readInteger, numeral_solid fun c mem => isNumeralBlank_digit (digits c mem)]
  split
  · have sign := digits '-' List.mem_cons_self
    cases sign
  · have sign := digits '+' List.mem_cons_self
    cases sign
  · rfl

/-- What reading a text of digits leads to. -/
theorem readInteger_numeral {text : List Char} (ne : text ≠ [])
    (digits : ∀ c ∈ text, isAnyDigit c = true) :
    (Placed text ∧ text.length ≤ longestNumeral ∧ readInteger text = .ok (digitsNumber text)) ∨
      (¬ Placed text ∨ longestNumeral < text.length) ∧
        ∃ problem, readInteger text = .error problem := by
  have free : '_' ∉ text := fun mem => nomatch digits '_' mem
  rw [readInteger_digits digits]
  by_cases placed : Placed text
  · rw [readDigits_placed ne free placed]
    by_cases long : longestNumeral < text.length
    · rw [if_pos long]
      exact .inr ⟨.inr long, _, rfl⟩
    · rw [if_neg long]
      exact .inl ⟨placed, Nat.le_of_not_lt long, rfl⟩
  · refine .inr ⟨.inl placed, ?_⟩
    cases read : readDigits text with
    | ok n => exact absurd read (readDigits_unplaced free placed n)
    | error problem => exact ⟨problem, rfl⟩

namespace Context

/-! ## Names of contexts -/

/-- Contexts to calculate in: a digit is kept, and three conditions are errors. -/
structure Usable (ctx : Context) : Prop where
  precision : 1 ≤ ctx.precision
  traps : ∀ signal ∈ [Signal.divisionByZero, .invalidOperation, .overflow], signal ∈ ctx.traps

theorem usable_of_precision {ctx : Context} (h : 1 ≤ ctx.precision) : ctx.Usable :=
  ⟨h, fun _ mem => List.mem_append_left _ mem⟩

/-- Names that are numerals of no number of digits a context can have: some digit has no place in a
numeral, or the numeral is too long to be read, or its number is larger than every precision. -/
structure Beyond (name : String) : Prop where
  filled : nameKey name ≠ []
  digits : ∀ c ∈ nameKey name, isAnyDigit c = true
  number : ¬ Placed (nameKey name) ∨ longestNumeral < (nameKey name).length ∨
    maxPrecision < digitsNumber (nameKey name)

/-- What a name leads to: a context, a refusal of one of two kinds, or a fault, if it is a numeral
beyond all precisions. -/
def Resolves (name : String) : Except (Refusal ⊕ Fault) Context → Prop
  | .ok ctx => ctx.Usable ∧ ¬ Beyond name
  | .error (.inl refusal) =>
    (refusal = .unknownContext name ∨ refusal = .precision 0) ∧ ¬ Beyond name
  | .error (.inr _) => Beyond name

theorem ofPrecision_cases (n : Int) :
    (n < 1 ∧ ofPrecision n = .error (.inl (.precision n))) ∨
      (1 ≤ n ∧ n ≤ maxPrecision ∧ ofPrecision n = .ok (ofDigits n.toNat)) ∨
      (maxPrecision : Int) < n ∧ ∃ f, ofPrecision n = .error (.inr f) := by
  have word : (maxPrecision : Int) < 9223372036854775807 := by decide
  rw [ofPrecision]
  by_cases small : n < 1
  · rw [if_pos small]
    exact .inl ⟨small, rfl⟩
  · rw [if_neg small]
    refine .inr ?_
    by_cases large : (maxPrecision : Int) < n
    · refine .inr ⟨large, ?_⟩
      split
      · exact ⟨_, rfl⟩
      · exact ⟨_, rfl⟩
    · rw [if_neg (by omega), if_neg large]
      exact .inl ⟨by omega, by omega, rfl⟩

theorem digitsOf_numeral {key : List Char} (ne : key ≠ [])
    (digits : ∀ c ∈ key, isAnyDigit c = true) :
    (Placed key ∧ key.length ≤ longestNumeral ∧ digitsOf key = .ok (digitsNumber key)) ∨
      (¬ Placed key ∨ longestNumeral < key.length) ∧ ∃ f, digitsOf key = .error f := by
  obtain ⟨placed, short, read⟩ | ⟨unread, problem, read⟩ := readInteger_numeral ne digits
  · exact .inl ⟨placed, short, by rw [digitsOf, read]⟩
  · refine .inr ⟨unread, ?_⟩
    rw [digitsOf, read]
    cases problem with
    | malformed => exact ⟨_, rfl⟩
    | tooLong count => exact ⟨_, rfl⟩

/-- The words among the names have characters that are no digits. -/
theorem ofName_numeral {name : String} (ne : nameKey name ≠ [])
    (digits : ∀ c ∈ nameKey name, isAnyDigit c = true) :
    ofName name = match digitsOf (nameKey name) with
      | .error f => .error (.inr f)
      | .ok n => ofPrecision n := by
  have other {word : String} (some : word.toList.all isAnyDigit = false) :
      String.ofList (nameKey name) ≠ word := by
    rintro rfl
    rw [String.toList_ofList, List.all_eq_true.mpr digits] at some
    cases some
  have unlisted : presets.lookup (String.ofList (nameKey name)) = none := by
    rw [List.lookup_eq_none_iff]
    intro preset mem
    have wordy : preset.1.toList.all isAnyDigit = false := by
      revert preset
      decide
    simpa using other wordy
  have numeral : (!(nameKey name).isEmpty && (nameKey name).all isAnyDigit) = true := by
    rw [List.all_eq_true.mpr digits, Bool.and_true]
    simpa using ne
  have unlimited : String.ofList (nameKey name) ≠ "unlimited" := other (by decide)
  have star : String.ofList (nameKey name) ≠ "*" := other (by decide)
  cases read : digitsOf (nameKey name) with
  | error f =>
    simp only [ofName, unlimited, star, unlisted, numeral, read, or_self, if_false, if_true]
  | ok n => simp only [ofName, unlimited, star, unlisted, numeral, read, or_self, if_false, if_true]

theorem ofName_word {name : String}
    (word : ¬ (nameKey name ≠ [] ∧ ∀ c ∈ nameKey name, isAnyDigit c = true)) :
    (∃ ctx, ofName name = .ok ctx ∧ ctx.Usable) ∨
      ofName name = .error (.inl (.unknownContext name)) := by
  have noNumeral : (!(nameKey name).isEmpty && (nameKey name).all isAnyDigit) = false := by
    rw [← Bool.not_eq_true, Bool.and_eq_true, List.all_eq_true]
    simpa using word
  rw [ofName]
  split
  · exact .inl ⟨unlimited, rfl, usable_of_precision (by decide)⟩
  · cases found : presets.lookup (String.ofList (nameKey name)) with
    | some n =>
      have positive : ∀ preset ∈ presets, 1 ≤ preset.2 := by decide
      obtain ⟨before, after, split, -⟩ := List.lookup_eq_some_iff.mp found
      have mem : (String.ofList (nameKey name), n) ∈ presets := by
        rw [split]
        exact List.mem_append_right _ List.mem_cons_self
      exact .inl ⟨ofDigits n, rfl, usable_of_precision (positive _ mem)⟩
    | none =>
      rw [noNumeral]
      exact .inr rfl

theorem ofName_resolves (name : String) : Resolves name (ofName name) := by
  generalize named : ofName name = result
  by_cases numeral : nameKey name ≠ [] ∧ ∀ c ∈ nameKey name, isAnyDigit c = true
  · obtain ⟨ne, digits⟩ := numeral
    rw [ofName_numeral ne digits] at named
    obtain ⟨placed, short, read⟩ | ⟨unread, f, read⟩ := digitsOf_numeral ne digits
    · have within (h : digitsNumber (nameKey name) ≤ maxPrecision) : ¬ Beyond name := by
        rintro ⟨-, -, unplaced | long | large⟩
        · exact unplaced placed
        · omega
        · omega
      rw [read] at named
      dsimp only at named
      obtain ⟨small, refused⟩ | ⟨positive, bounded, ok⟩ | ⟨large, f, fault⟩ :=
        ofPrecision_cases (digitsNumber (nameKey name))
      · have zero : digitsNumber (nameKey name) = 0 := by omega
        rw [← named, refused, zero]
        exact ⟨.inr rfl, within (by omega)⟩
      · rw [← named, ok, Int.toNat_natCast]
        exact ⟨usable_of_precision (Int.ofNat_le.mp positive), within (by omega)⟩
      · rw [← named, fault]
        exact ⟨ne, digits, .inr (.inr (by omega))⟩
    · rw [← named, read]
      exact ⟨ne, digits, unread.imp_right .inl⟩
  · have within : ¬ Beyond name := fun h => numeral ⟨h.filled, h.digits⟩
    obtain ⟨ctx, ok, usable⟩ | unknown := ofName_word numeral
    · rw [← named, ok]
      exact ⟨usable, within⟩
    · rw [← named, unknown]
      exact ⟨.inl rfl, within⟩

theorem ofName_beyond {name : String} (h : Beyond name) : ∃ f, ofName name = .error (.inr f) := by
  have resolves := ofName_resolves name
  generalize ofName name = result at resolves ⊢
  rcases result with (refusal | f) | ctx
  · exact absurd h resolves.2
  · exact ⟨f, rfl⟩
  · exact absurd h resolves.2

end Context

namespace Runner

/-! ## The command for contexts -/

/-- What the command for contexts leads to: without a name it shows the context in force, and with
one it changes the context, or fails and says so, or passes on the fault of a name beyond all
precisions. -/
inductive ContextOutcome (r : Runner) (name : String) : Runner × LineResult → Prop
  | shown (blank : name = "") : ContextOutcome r name (r, ⟨none,
      ["Current context is " ++ r.options.context.name ++ "."], none, r.session.report⟩)
  | changed {ctx : Context} (named : Context.ofName name = .ok ctx) (usable : ctx.Usable) :
      ContextOutcome r name (r.withContext ctx, ⟨none, ["Changed context to " ++ ctx.name ++ "."],
        none, r.session.report⟩)
  | refused {report : List String} (within : ¬ Context.Beyond name) :
      ContextOutcome r name (r, ⟨none, [], some (.command .context), report⟩)
  | fault {f : Fault} {report : List String} (beyond : Context.Beyond name) :
      ContextOutcome r name ({ r with lastFailure := some (.fault f) },
        ⟨none, [], some (.calculation (.fault f)), report⟩)

theorem handle_context (setting : Setting) (name : String) (r : Runner) : ∃ outcome,
    handle setting (some (":context " ++ name)) r = .done outcome ∧
      ContextOutcome r.cleared (trimString name) outcome := by
  have line : handle setting (some (":context " ++ name)) r =
      command setting (trimString name) r.cleared .context :=
    @handle_word "context" .context setting name r rfl (by decide) (by decide)
  rw [line]
  generalize trimString name = name
  generalize r.cleared = r
  refine ⟨_, command_step (c := .context) rfl r, ?_⟩
  rw [printing, bind_apply, bind_apply]
  rw [changeContext_run]
  by_cases blank : name = ""
  · rw [if_pos blank]
    exact .shown blank
  · rw [if_neg blank]
    have resolves := Context.ofName_resolves name
    generalize named : Context.ofName name = result at resolves ⊢
    rcases result with (refusal | f) | ctx
    · exact .refused resolves.2
    · exact .fault resolves
    · exact .changed named resolves.1

end Runner
end Calculator
