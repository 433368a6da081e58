import Calculator.Lexer

/-!
# Calculator.Proofs.Runs

The characters of tokens, and texts whose brackets match.

* `isValueSymbol_of_isBlank`: white space belongs to no value.
* `depthAfter`: how many brackets are open after a text, unless one is closed too often.
* `spanned`: texts of certain characters and of bracketed spans, which hold anything.
* `isRun`, `isToken`: the texts that values are made of, with value symbols outside of brackets.
-/

namespace Calculator

/-! ## Characters -/

theorem isAsciiDigit_iff {c : Char} : isAsciiDigit c = true ↔ 48 ≤ c.toNat ∧ c.toNat ≤ 57 := by
  simp only [isAsciiDigit, Bool.and_eq_true, decide_eq_true_eq, Char.le_def,
    UInt32.le_iff_toNat_le]
  exact Iff.rfl

theorem isAlpha_range {c : Char} (h : c.isAlpha = true) : 65 ≤ c.toNat ∧ c.toNat ≤ 122 := by
  change (decide ('A'.val ≤ c.val ∧ c.val ≤ 'Z'.val) ||
    (decide ('a'.val ≤ c.val) && decide (c.val ≤ 'z'.val))) = true at h
  simp only [Bool.or_eq_true, Bool.and_eq_true, decide_eq_true_eq, UInt32.le_iff_toNat_le] at h
  change (65 ≤ c.toNat ∧ c.toNat ≤ 90) ∨ (97 ≤ c.toNat ∧ c.toNat ≤ 122) at h
  omega

/-- The white space above ASCII. -/
def highBlanks : List Nat := [0x85, 0xA0, 0x1680, 0x2000, 0x2001, 0x2002, 0x2003, 0x2004, 0x2005,
  0x2006, 0x2007, 0x2008, 0x2009, 0x200A, 0x2028, 0x2029, 0x202F, 0x205F, 0x3000]

theorem highBlanks_no_letter : ∀ n ∈ highBlanks, Boundaries.contains letterBoundaries n = false := by
  decide +kernel

theorem isBlank_range {c : Char} (h : isBlank c = true) :
    c.toNat ≤ 32 ∨ 128 ≤ c.toNat ∧ c.toNat ∈ highBlanks := by
  simp only [isBlank, Bool.or_eq_true, Bool.and_eq_true, decide_eq_true_eq, beq_iff_eq] at h
  simp only [highBlanks, List.mem_cons, List.not_mem_nil, or_false]
  omega

theorem isLetter_of_isBlank {c : Char} (h : isBlank c = true) : isLetter c = false := by
  rcases isBlank_range h with low | ⟨high, listed⟩
  · simp only [isLetter, show c.toNat < 128 by omega, if_true]
    cases alpha : c.isAlpha with
    | false => rfl
    | true => have := isAlpha_range alpha; omega
  · simp only [isLetter, show ¬ c.toNat < 128 by omega, if_false]
    exact highBlanks_no_letter _ listed

/-- White space belongs to no value. -/
theorem isValueSymbol_of_isBlank {c : Char} (h : isBlank c = true) : isValueSymbol c = false := by
  have range : c.toNat ≤ 32 ∨ 128 ≤ c.toNat := (isBlank_range h).imp_right And.left
  have other (d : Char) (above : 32 < d.toNat) (below : d.toNat < 128) : (c == d) = false := by
    rw [beq_eq_false_iff_ne]
    rintro rfl
    omega
  have digit : isAsciiDigit c = false := by
    cases digit : isAsciiDigit c with
    | false => rfl
    | true => have := isAsciiDigit_iff.mp digit; omega
  simp only [isValueSymbol, digit, isLetter_of_isBlank h, other '.' (by decide) (by decide),
    other '_' (by decide) (by decide), other '(' (by decide) (by decide),
    other ')' (by decide) (by decide), Bool.or_false]

theorem isBlank_of_isValueSymbol {c : Char} (h : isValueSymbol c = true) : isBlank c = false := by
  cases blank : isBlank c with
  | false => rfl
  | true => rw [isValueSymbol_of_isBlank blank] at h; cases h

/-! ## Brackets -/

/-- How many brackets are open after a text that stands inside of `depth` open ones; nothing when
a bracket is closed that none of them is. -/
def depthAfter : Nat → List Char → Option Nat
  | depth, [] => some depth
  | depth, c :: rest =>
    if c == '(' then depthAfter (depth + 1) rest
    else if c == ')' then if depth = 0 then none else depthAfter (depth - 1) rest
    else depthAfter depth rest

theorem depthAfter_other {c : Char} (depth : Nat) (rest : List Char) (ho : c ≠ '(') (hc : c ≠ ')') :
    depthAfter depth (c :: rest) = depthAfter depth rest := by
  simp [depthAfter, ho, hc]

theorem depthAfter_append (depth : Nat) (before after : List Char) :
    depthAfter depth (before ++ after) =
      (depthAfter depth before).bind fun between => depthAfter between after := by
  induction before generalizing depth with
  | nil => rfl
  | cons c rest ih =>
    simp only [List.cons_append, depthAfter]
    split
    · exact ih (depth + 1)
    · split
      · split
        · rfl
        · exact ih (depth - 1)
      · exact ih depth

theorem depthAfter_plain {text : List Char} (depth : Nat)
    (h : ∀ c ∈ text, c ≠ '(' ∧ c ≠ ')') : depthAfter depth text = some depth := by
  induction text with
  | nil => rfl
  | cons c rest ih =>
    obtain ⟨notOpen, notClose⟩ := h c (by simp)
    rw [depthAfter_other depth rest notOpen notClose]
    exact ih fun d hd => h d (by simp [hd])

/-- A text that closes the outermost of some open brackets can be cut before that close. -/
theorem depthAfter_cut {depth : Nat} {text : List Char} (h : depthAfter (depth + 1) text = some 0) :
    ∃ inner after, text = inner ++ ')' :: after ∧ depthAfter depth inner = some 0 := by
  induction text generalizing depth with
  | nil => cases h
  | cons c rest ih =>
    by_cases isOpen : c = '('
    · subst isOpen
      obtain ⟨inner, after, rfl, hi⟩ := ih h
      exact ⟨'(' :: inner, after, rfl, hi⟩
    · by_cases isClose : c = ')'
      · subst isClose
        cases depth with
        | zero => exact ⟨[], rest, rfl, rfl⟩
        | succ depth =>
          obtain ⟨inner, after, rfl, hi⟩ := ih h
          exact ⟨')' :: inner, after, rfl, hi⟩
      · rw [depthAfter_other _ _ isOpen isClose] at h
        obtain ⟨inner, after, rfl, hi⟩ := ih h
        exact ⟨c :: inner, after, rfl, by rwa [depthAfter_other _ _ isOpen isClose]⟩

/-! ## Runs -/

/-- Whether a text, which stands inside of `depth` open brackets, closes them all and has none but
certain characters outside of brackets. -/
def spanned (outside : Char → Bool) : Nat → List Char → Bool
  | depth, [] => depth == 0
  | depth, c :: rest =>
    if c == '(' then spanned outside (depth + 1) rest
    else if c == ')' then depth != 0 && spanned outside (depth - 1) rest
    else (depth != 0 || outside c) && spanned outside depth rest

section

variable {outside : Char → Bool}

theorem spanned_depthAfter {depth : Nat} {text : List Char}
    (h : spanned outside depth text = true) : depthAfter depth text = some 0 := by
  induction text generalizing depth with
  | nil =>
    simp only [spanned, beq_iff_eq] at h
    rw [h]; rfl
  | cons c rest ih =>
    simp only [spanned] at h
    simp only [depthAfter]
    split at h
    · rename_i isOpen
      rw [if_pos isOpen]
      exact ih h
    · rename_i notOpen
      rw [if_neg notOpen]
      split at h
      · rename_i isClose
        simp only [Bool.and_eq_true, bne_iff_ne, ne_eq] at h
        rw [if_pos isClose, if_neg h.1]
        exact ih h.2
      · rename_i notClose
        simp only [Bool.and_eq_true] at h
        rw [if_neg notClose]
        exact ih h.2

/-- Inside of brackets anything can stand whose own brackets match. -/
theorem spanned_inside {depth more : Nat} {inner : List Char} (rest : List Char)
    (h : depthAfter depth inner = some more) :
    spanned outside (depth + 1) (inner ++ rest) = spanned outside (more + 1) rest := by
  induction inner generalizing depth with
  | nil => cases h; rfl
  | cons c inner ih =>
    by_cases isOpen : c = '('
    · subst isOpen
      exact ih h
    · by_cases isClose : c = ')'
      · subst isClose
        cases depth with
        | zero => cases h
        | succ depth => exact ih h
      · rw [depthAfter_other _ _ isOpen isClose] at h
        simp [spanned, isOpen, isClose, ih h]

theorem spanned_bracket {inner : List Char} (rest : List Char)
    (h : depthAfter 0 inner = some 0) :
    spanned outside 0 ('(' :: (inner ++ ')' :: rest)) = spanned outside 0 rest := by
  change spanned outside 1 (inner ++ ')' :: rest) = _
  rw [spanned_inside _ h]
  rfl

theorem spanned_append {depth : Nat} {before : List Char} (after : List Char)
    (h : spanned outside depth before = true) :
    spanned outside depth (before ++ after) = spanned outside 0 after := by
  induction before generalizing depth with
  | nil =>
    simp only [spanned, beq_iff_eq] at h
    rw [h]; rfl
  | cons c rest ih =>
    simp only [List.cons_append, spanned] at h ⊢
    split at h
    · rename_i isOpen
      rw [if_pos isOpen]
      exact ih h
    · rename_i notOpen
      rw [if_neg notOpen]
      split at h
      · rename_i isClose
        simp only [Bool.and_eq_true] at h
        rw [if_pos isClose, h.1, Bool.true_and]
        exact ih h.2
      · rename_i notClose
        simp only [Bool.and_eq_true] at h
        rw [if_neg notClose, h.1, Bool.true_and]
        exact ih h.2

theorem spanned_plain {text : List Char}
    (h : ∀ c ∈ text, outside c = true ∧ c ≠ '(' ∧ c ≠ ')') : spanned outside 0 text = true := by
  induction text with
  | nil => rfl
  | cons c rest ih =>
    obtain ⟨allowed, notOpen, notClose⟩ := h c (by simp)
    simp [spanned, notOpen, notClose, allowed, ih fun d hd => h d (by simp [hd])]

/-- Outside of brackets there are certain characters only. -/
theorem spanned_outside {depth : Nat} {before after : List Char} {c : Char}
    (h : spanned outside depth (before ++ c :: after) = true)
    (balanced : depthAfter depth before = some 0) (notOpen : c ≠ '(') (notClose : c ≠ ')') :
    outside c = true := by
  induction before generalizing depth with
  | nil =>
    cases balanced
    simp only [List.nil_append, spanned, beq_iff_eq, notOpen, notClose, if_false, bne_self_eq_false,
      Bool.false_or, Bool.and_eq_true] at h
    exact h.1
  | cons d before ih =>
    by_cases isOpen : d = '('
    · subst isOpen
      exact ih h balanced
    · by_cases isClose : d = ')'
      · subst isClose
        cases depth with
        | zero => cases balanced
        | succ depth => exact ih h balanced
      · rw [depthAfter_other _ _ isOpen isClose] at balanced
        simp only [List.cons_append, spanned, beq_iff_eq, isOpen, isClose, if_false,
          Bool.and_eq_true] at h
        exact ih h.2 balanced

/-- A text that closes all brackets, with certain characters only outside of them. -/
theorem spanned_of_outside {depth : Nat} {text : List Char} (balanced : depthAfter depth text = some 0)
    (h : ∀ before c after, text = before ++ c :: after → depthAfter depth before = some 0 →
      outside c = true ∨ c = '(' ∨ c = ')') : spanned outside depth text = true := by
  induction text generalizing depth with
  | nil => cases balanced; rfl
  | cons d text ih =>
    have later (before : List Char) (c : Char) (after : List Char)
        (same : text = before ++ c :: after) := h (d :: before) c after (congrArg (d :: ·) same)
    by_cases isOpen : d = '('
    · subst isOpen
      exact ih balanced later
    · by_cases isClose : d = ')'
      · subst isClose
        cases depth with
        | zero => cases balanced
        | succ depth => exact ih balanced later
      · simp only [depthAfter_other _ _ isOpen isClose] at balanced later
        simp only [spanned, beq_iff_eq, isOpen, isClose, if_false, ih balanced later, Bool.and_true]
        cases depth with
        | zero => simpa [isOpen, isClose] using h [] d text rfl rfl
        | succ depth => rfl
theorem spanned_last {depth : Nat} {before : List Char} {c : Char}
    (h : spanned outside depth (before ++ [c]) = true) : c = ')' ∨ outside c = true := by
  induction before generalizing depth with
  | nil =>
    by_cases isClose : c = ')'
    · exact .inl isClose
    · right
      by_cases isOpen : c = '('
      · subst isOpen; cases h
      · simp only [List.nil_append, spanned, beq_iff_eq, isOpen, isClose, if_false,
          Bool.and_eq_true, Bool.or_eq_true, bne_iff_ne, ne_eq] at h
        exact h.1.resolve_left (absurd h.2)
  | cons d before ih =>
    simp only [List.cons_append, spanned] at h
    split at h
    · exact ih h
    · split at h
      · exact ih (Bool.and_eq_true_iff.mp h).2
      · exact ih (Bool.and_eq_true_iff.mp h).2

end

/-- The texts that values are made of. -/
abbrev isRun (depth : Nat) (text : List Char) : Bool := spanned isValueSymbol depth text

theorem isRun_head {c : Char} {rest : List Char} (h : isRun 0 (c :: rest) = true) :
    isValueSymbol c = true := by
  by_cases isOpen : c = '('
  · subst isOpen; rfl
  · by_cases isClose : c = ')'
    · subst isClose; rfl
    · simp only [isRun, spanned, beq_iff_eq, isOpen, isClose, if_false, bne_self_eq_false,
        Bool.false_or, Bool.and_eq_true] at h
      exact h.1

/-- The texts of values: runs that are not empty, after an optional minus. -/
def isToken : List Char → Bool
  | '-' :: run => !run.isEmpty && isRun 0 run
  | run => !run.isEmpty && isRun 0 run

theorem isToken_minus (run : List Char) :
    isToken ('-' :: run) = (!run.isEmpty && isRun 0 run) := rfl

theorem isToken_plain {c : Char} (rest : List Char) (h : c ≠ '-') :
    isToken (c :: rest) = isRun 0 (c :: rest) := by
  unfold isToken
  split
  · rename_i same; cases same; exact absurd rfl h
  · rfl

theorem isToken_head {token : List Char} (h : isToken token = true) :
    ∃ c rest, token = c :: rest ∧ (c = '-' ∨ isValueSymbol c = true) := by
  cases token with
  | nil => cases h
  | cons c rest =>
    by_cases minus : c = '-'
    · exact ⟨c, rest, rfl, .inl minus⟩
    · rw [isToken_plain rest minus] at h
      exact ⟨c, rest, rfl, .inr (isRun_head h)⟩

end Calculator
