import Calculator.Proofs.Trimming

/-!
# Calculator.Proofs.TokenSlices

The piece of a text that a value token is taken from.

White space before a value is skipped until a character outside of brackets has been read. Where a
value begins with bracketed spans, white space after them is therefore skipped as well, and the
token is not one piece of the text: from `(2) 3` the value `(2)3` is read.

* `solid`: a text without the white space that stands outside of brackets.
* `Interrupted`: the text begins with bracketed spans and white space after them.
* `scanValue_solid`, `scanValue_piece`: what is read, and when it is one piece.
* `readAt_value_slice`: the token, its brackets, and the place where it ends.
-/

namespace Calculator
namespace Lexer

variable {acc text token rest : List Char} {skipping : Bool} {depth : Nat}

/-- A text without the white space that stands outside of brackets. -/
def solid : Nat → List Char → List Char
  | _, [] => []
  | depth, c :: rest =>
    if c == '(' then c :: solid (depth + 1) rest
    else if c == ')' then c :: solid (depth - 1) rest
    else if depth == 0 && isBlank c then solid depth rest
    else c :: solid depth rest

/-- The text begins, after white space, with bracketed spans and white space directly after them. -/
def Interrupted (text : List Char) : Prop :=
  ∃ spans c after, trimLeft text = spans ++ c :: after ∧ spans ≠ [] ∧
    spanned (fun _ => false) 0 spans = true ∧ isBlank c = true

theorem trimLeft_append (before after : List Char) :
    trimLeft (before ++ after) =
      if (trimLeft before).isEmpty then trimLeft after else trimLeft before ++ after :=
  List.dropWhile_append

theorem trimLeft_append_length (before after : List Char) :
    (trimLeft (before ++ after)).length ≤ (trimLeft before ++ after).length := by
  rw [trimLeft_append]
  split
  · have shorter := (List.dropWhile_sublist isBlank (l := after)).length_le
    rw [List.length_append]
    exact Nat.le_add_left_of_le shorter
  · exact Nat.le_refl _

/-! ## Solid texts -/

theorem solid_other {c : Char} (rest : List Char) (notOpen : c ≠ '(') (notClose : c ≠ ')')
    (stays : depth ≠ 0 ∨ isBlank c = false) : solid depth (c :: rest) = c :: solid depth rest := by
  have kept : (depth == 0 && isBlank c) = false := by
    rcases stays with inside | filled
    · rw [beq_eq_false_iff_ne.mpr inside, Bool.false_and]
    · rw [filled, Bool.and_false]
  simp [solid, notOpen, notClose, kept]

theorem solid_blank {c : Char} (rest : List Char) (hc : isBlank c = true) :
    solid 0 (c :: rest) = solid 0 rest := by
  have notOpen : c ≠ '(' := by rintro rfl; cases hc
  have notClose : c ≠ ')' := by rintro rfl; cases hc
  simp [solid, notOpen, notClose, hc]

theorem solid_gap {gap : List Char} (rest : List Char) (h : Blank gap) :
    solid 0 (gap ++ rest) = solid 0 rest := by
  induction gap with
  | nil => rfl
  | cons c gap ih =>
    obtain ⟨hc, hg⟩ := blank_cons.mp h
    rw [List.cons_append, solid_blank _ hc, ih hg]

theorem solid_length (depth : Nat) (text : List Char) :
    (solid depth text).length ≤ text.length := by
  fun_induction solid depth text with
  | case1 => exact Nat.le_refl _
  | case2 depth c rest isOpen ih => exact Nat.succ_le_succ ih
  | case3 depth c rest notOpen isClose ih => exact Nat.succ_le_succ ih
  | case4 depth c rest notOpen notClose skipped ih => exact Nat.le_succ_of_le ih
  | case5 depth c rest notOpen notClose kept ih => exact Nat.succ_le_succ ih

/-- The brackets are as they were. -/
theorem depthAfter_solid (depth : Nat) (text : List Char) :
    depthAfter depth (solid depth text) = depthAfter depth text := by
  fun_induction solid depth text with
  | case1 => rfl
  | case2 depth c rest isOpen ih => simp [depthAfter, isOpen, ih]
  | case3 depth c rest notOpen isClose ih => simp [depthAfter, notOpen, isClose, ih]
  | case4 depth c rest notOpen notClose blank ih => simp [depthAfter, notOpen, notClose, ih]
  | case5 depth c rest notOpen notClose filled ih => simp [depthAfter, notOpen, notClose, ih]

/-- A text in which no bracket is closed too often closes at most as many as it opens. -/
theorem count_of_depthAfter {more : Nat} (h : depthAfter depth text = some more) :
    depth + text.count '(' = more + text.count ')' := by
  induction text generalizing depth with
  | nil => cases h; rfl
  | cons c rest ih =>
    by_cases isOpen : c = '('
    · subst isOpen
      have counted := ih h
      rw [List.count_cons_self, List.count_cons_of_ne (by decide)]
      omega
    · by_cases isClose : c = ')'
      · subst isClose
        cases depth with
        | zero => cases h
        | succ depth =>
          have counted := ih h
          rw [List.count_cons_self, List.count_cons_of_ne (by decide)]
          omega
      · rw [depthAfter_other _ _ isOpen isClose] at h
        simpa [List.count_cons, isOpen, isClose] using ih h

theorem count_take_le (k : Nat) (h : depthAfter 0 text = some 0) :
    (text.take k).count ')' ≤ (text.take k).count '(' := by
  rw [← List.take_append_drop k text, depthAfter_append] at h
  obtain ⟨more, before, -⟩ := Option.bind_eq_some_iff.mp h
  have counted := count_of_depthAfter before
  omega

/-- A text that begins with no bracket is not interrupted. -/
theorem Interrupted.head (h : Interrupted text) : (trimLeft text).head? = some '(' := by
  obtain ⟨spans, d, after, same, some, hs, -⟩ := h
  rw [same]
  cases spans with
  | nil => exact absurd rfl some
  | cons c spans =>
    by_cases isOpen : c = '('
    · exact congrArg Option.some isOpen
    · simp [spanned, isOpen] at hs

/-! ## What is read -/

/-- Where a value ends. -/
def Stops (token rest : List Char) : Prop :=
  ∀ c ∈ rest.head?, isValueSymbol c = false ∧ ¬ (c = '-' ∧ token = [])

/-- What is read is solid, and its brackets match. -/
theorem scanValue_solid (h : scanValue acc skipping depth text = .ok ⟨token, rest⟩) :
    ∃ raw, text = raw ++ rest ∧ token = acc.reverse ++ solid depth raw ∧
      depthAfter depth raw = some 0 ∧ Stops token rest := by
  induction text generalizing acc skipping depth with
  | nil =>
    simp only [scanValue] at h
    split at h
    · rename_i outside
      cases h
      exact ⟨[], rfl, by simp [solid], by rw [outside]; rfl, fun c mem => by cases mem⟩
    · cases h
  | cons c text ih =>
    by_cases isOpen : c = '('
    · subst isOpen
      obtain ⟨raw, rfl, rfl, hd, hs⟩ := ih h
      exact ⟨'(' :: raw, rfl, by simp [solid], hd, hs⟩
    · by_cases isClose : c = ')'
      · subst isClose
        cases depth with
        | zero => cases h
        | succ depth =>
          obtain ⟨raw, rfl, rfl, hd, hs⟩ := ih h
          exact ⟨')' :: raw, rfl, by simp [solid], hd, hs⟩
      · have keep {skipping' : Bool} (stays : depth ≠ 0 ∨ isBlank c = false)
            (h : scanValue (c :: acc) skipping' depth text = .ok ⟨token, rest⟩) :
            ∃ raw, c :: text = raw ++ rest ∧ token = acc.reverse ++ solid depth raw ∧
              depthAfter depth raw = some 0 ∧ Stops token rest := by
          obtain ⟨raw, rfl, rfl, hd, hs⟩ := ih h
          refine ⟨c :: raw, rfl, ?_, by rwa [depthAfter_other _ _ isOpen isClose], hs⟩
          rw [solid_other raw isOpen isClose stays]
          simp
        simp only [scanValue, beq_iff_eq, isOpen, isClose, if_false] at h
        split at h
        · rename_i inside
          exact keep (.inl inside) h
        · rename_i outside
          obtain rfl := Decidable.not_not.mp outside
          split at h
          · rename_i skipped
            have hc := (Bool.and_eq_true_iff.mp skipped).2
            obtain ⟨raw, rfl, rfl, hd, hs⟩ := ih h
            exact ⟨c :: raw, rfl, by rw [solid_blank raw hc],
              by rwa [depthAfter_other _ _ isOpen isClose], hs⟩
          · split at h
            · rename_i first
              refine keep (.inr ?_) h
              rw [Bool.or_eq_true, Bool.and_eq_true, beq_iff_eq] at first
              rcases first with ⟨rfl, -⟩ | value
              · rfl
              · exact isBlank_of_isValueSymbol value
            · rename_i last
              cases h
              refine ⟨[], rfl, by simp [solid], rfl, ?_⟩
              rintro d ⟨⟩
              simpa [and_comm] using last

/-- Bracketed spans are read whole, and white space is skipped after them as it was before. -/
theorem scanValue_spans {spans : List Char} (acc : List Char) (skipping : Bool) (rest : List Char)
    (h : spanned (fun _ => false) depth spans = true) :
    scanValue acc skipping depth (spans ++ rest) =
      scanValue (spans.reverse ++ acc) skipping 0 rest := by
  induction spans generalizing acc depth with
  | nil =>
    rw [beq_iff_eq.mp h]
    rfl
  | cons c spans ih =>
    rw [List.reverse_cons, List.append_assoc]
    by_cases isOpen : c = '('
    · subst isOpen
      exact ih _ h
    · by_cases isClose : c = ')'
      · subst isClose
        cases depth with
        | zero => cases h
        | succ depth => exact ih _ h
      · simp only [spanned, beq_iff_eq, isOpen, isClose, if_false, Bool.or_false, Bool.and_eq_true,
          bne_iff_ne] at h
        simpa [scanValue, isOpen, isClose, h.1] using ih (c :: acc) h.2

/-- What is read after `acc` is one piece of the text, unless only bracketed spans are read before
white space is skipped. -/
theorem scanValue_piece (begun : acc ≠ [])
    (h : scanValue acc skipping depth text = .ok ⟨token, rest⟩) :
    (∃ run, text = run ++ rest ∧ token = acc.reverse ++ run) ∨
      ∃ spans c after, text = spans ++ c :: after ∧
        spanned (fun _ => false) depth spans = true ∧ isBlank c = true := by
  induction text generalizing acc skipping depth with
  | nil =>
    simp only [scanValue] at h
    split at h
    · cases h
      exact .inl ⟨[], rfl, (List.append_nil _).symm⟩
    · cases h
  | cons c text ih =>
    have keep {skipping' : Bool} {depth' : Nat}
        (h : scanValue (c :: acc) skipping' depth' text = .ok ⟨token, rest⟩)
        (hspans : ∀ spans, spanned (fun _ => false) depth' spans = true →
          spanned (fun _ => false) depth (c :: spans) = true) :
        (∃ run, c :: text = run ++ rest ∧ token = acc.reverse ++ run) ∨
          ∃ spans d after, c :: text = spans ++ d :: after ∧
            spanned (fun _ => false) depth spans = true ∧ isBlank d = true := by
      obtain ⟨run, rfl, rfl⟩ | ⟨spans, d, after, rfl, hs, hd⟩ := ih (List.cons_ne_nil c acc) h
      · exact .inl ⟨c :: run, rfl, by simp⟩
      · exact .inr ⟨c :: spans, d, after, rfl, hspans spans hs, hd⟩
    by_cases isOpen : c = '('
    · subst isOpen
      exact keep h fun _ hs => hs
    · by_cases isClose : c = ')'
      · subst isClose
        cases depth with
        | zero => cases h
        | succ depth => exact keep h fun _ hs => hs
      · simp only [scanValue, beq_iff_eq, isOpen, isClose, if_false] at h
        split at h
        · rename_i inside
          exact keep h fun spans hs => by simp [spanned, isOpen, isClose, inside, hs]
        · rename_i outside
          obtain rfl := Decidable.not_not.mp outside
          split at h
          · rename_i skipped
            exact .inr ⟨[], c, text, rfl, rfl, (Bool.and_eq_true_iff.mp skipped).2⟩
          · split at h
            · obtain ⟨run, rfl, rfl, -⟩ := scanValue_plain (List.cons_ne_nil c acc) h
              exact .inl ⟨c :: run, rfl, by simp⟩
            · cases h
              exact .inl ⟨[], rfl, (List.append_nil _).symm⟩

/-- A value is read as one piece of the text, after white space, unless the text is interrupted. -/
theorem readValue_piece (h : readValue text = .ok ⟨token, rest⟩) (whole : ¬ Interrupted text) :
    trimLeft text = token ++ rest := by
  obtain ⟨gap, blank, split⟩ := trimLeft_split text
  rw [readValue, split, scanValue_blank [] _ blank] at h
  have filled := trimLeft_head text
  cases started : trimLeft text with
  | nil =>
    rw [started] at h
    cases h
    rfl
  | cons c more =>
    rw [started] at h filled
    by_cases isOpen : c = '('
    · subst isOpen
      obtain ⟨run, rfl, rfl⟩ | ⟨spans, d, after, rfl, hs, hd⟩ :=
        scanValue_piece (List.cons_ne_nil '(' []) h
      · rfl
      · exact absurd ⟨'(' :: spans, d, after, started, List.cons_ne_nil _ _, hs, hd⟩ whole
    · by_cases isClose : c = ')'
      · subst isClose
        cases h
      · simp only [scanValue, beq_iff_eq, isOpen, isClose, if_false, ne_eq, not_true_eq_false,
          filled c rfl, Bool.and_false, Bool.false_eq_true] at h
        split at h
        · obtain ⟨run, rfl, rfl, -⟩ := scanValue_plain (List.cons_ne_nil c []) h
          rfl
        · cases h
          rfl

/-- From a text that is interrupted more is read than the token. -/
theorem readValue_interrupted (h : readValue text = .ok ⟨token, rest⟩) (cut : Interrupted text) :
    (token ++ rest).length < (trimLeft text).length := by
  obtain ⟨spans, c, after, same, -, hs, hc⟩ := cut
  obtain ⟨gap, blank, split⟩ := trimLeft_split text
  rw [readValue, split, scanValue_blank [] _ blank, same, scanValue_spans [] true _ hs] at h
  have skipped := scanValue_blank (spans.reverse ++ []) after (blank_cons.mpr ⟨hc, blank_nil⟩)
  rw [List.cons_append, List.nil_append] at skipped
  rw [skipped] at h
  obtain ⟨raw, rfl, rfl, -, -⟩ := scanValue_solid h
  have shorter := solid_length 0 raw
  rw [same]
  simp
  omega

/-! ## Slices -/

theorem readAt_eq_ok {read : List Char → Except Malformation Scan} {start stop : Nat}
    (h : readAt read text start = .ok (token, stop)) :
    ∃ rest, read (text.drop start) = .ok ⟨token, rest⟩ ∧
      stop = start + ((text.drop start).length - rest.length) := by
  rw [readAt] at h
  split at h
  · cases h
  · rename_i scan found
    cases h
    exact ⟨scan.rest, found, rfl⟩

/-- A value token has matching brackets and ends where no value goes on. It is the piece of the text
that it was read from, without the white space that stands outside of brackets. That is the piece
without the white space before it, exactly if no white space follows bracketed spans at the
beginning. -/
theorem readAt_value_slice {start stop : Nat} (within : start ≤ text.length)
    (h : readAt readValue text start = .ok (token, stop)) :
    start ≤ stop ∧ stop ≤ text.length ∧
      token = solid 0 ((text.take stop).drop start) ∧
      (token = trimLeft ((text.take stop).drop start) ↔ ¬ Interrupted (text.drop start)) ∧
      (∀ k, (token.take k).count ')' ≤ (token.take k).count '(') ∧
      token.count '(' = token.count ')' ∧
      (stop = text.length ∨
        ∃ c, text[stop]? = some c ∧ isValueSymbol c = false ∧ ¬ (c = '-' ∧ token = [])) := by
  obtain ⟨rest, read, rfl⟩ := readAt_eq_ok h
  obtain ⟨raw, cut, made, balanced, stops⟩ := scanValue_solid read
  have length := congrArg List.length cut
  rw [List.length_drop, List.length_append] at length
  obtain rfl : token = solid 0 raw := made
  have taken : (text.drop start).length - rest.length = raw.length := by
    rw [cut, List.length_append, Nat.add_sub_cancel_right]
  have slice : (text.take (start + raw.length)).drop start = raw := by
    rw [List.drop_take, Nat.add_sub_cancel_left, cut, List.take_left]
  rw [taken, slice]
  have matching : depthAfter 0 (solid 0 raw) = some 0 := by rwa [depthAfter_solid]
  refine ⟨by omega, by omega, rfl, ⟨?_, ?_⟩, fun k => count_take_le k matching, ?_, ?_⟩
  · intro same interrupted
    have longer := readValue_interrupted read interrupted
    rw [cut, same] at longer
    exact absurd longer (Nat.not_lt.mpr (trimLeft_append_length raw rest))
  · intro whole
    have piece := readValue_piece read whole
    rw [cut, trimLeft_append] at piece
    split at piece
    · rename_i empty
      obtain ⟨gap, blank, split⟩ := trimLeft_split raw
      rw [List.isEmpty_iff.mp empty] at split ⊢
      rw [split, solid_gap _ blank]
      rfl
    · exact (List.append_cancel_right piece).symm
  · have counted := count_of_depthAfter matching
    omega
  · cases rest with
    | nil => exact .inl (by simp at length; omega)
    | cons c rest =>
      refine .inr ⟨c, ?_, stops c rfl⟩
      rw [← List.getElem?_drop, cut, List.getElem?_append_right (Nat.le_refl _), Nat.sub_self]
      rfl

theorem readAt_value_slice_call :
    readAt readValue "1 +  -g( 2 )*3".toList 3 = .ok ("-g( 2 )".toList, 12) ∧
      "-g( 2 )".toList = trimLeft (("1 +  -g( 2 )*3".toList.take 12).drop 3) := by
  have read : readAt readValue "1 +  -g( 2 )*3".toList 3 = .ok ("-g( 2 )".toList, 12) := rfl
  have slice := readAt_value_slice (by decide) read
  refine ⟨read, slice.2.2.2.1.mpr fun interrupted => ?_⟩
  exact absurd interrupted.head (by decide)

/-- White space is skipped in the middle of a token. -/
theorem readAt_value_bracket :
    readAt readValue "(2) 3".toList 0 = .ok ("(2)3".toList, 5) ∧
      "(2)3".toList ≠ trimLeft (("(2) 3".toList.take 5).drop 0) :=
  ⟨rfl, by decide⟩

end Lexer
end Calculator
