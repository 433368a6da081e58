import Calculator.Proofs.Reachability
import Calculator.Proofs.TokenSlices

/-!
# Calculator.Proofs.ArgumentLists

Lists of arguments as text. The commas outside of brackets separate arguments, and no other commas
do: arguments that are joined by commas are taken apart again, and the pieces of a text make it up.

* `Balanced`: the brackets of a text match, told by counting them.
* `splitArgumentsFrom_joined`: no character of a text is lost or moved.
* `splitArgumentsFrom_argument_mem`: the pieces of a balanced text are arguments.
* `splitArguments_joined`: joining and splitting undo each other.
-/

namespace Calculator

/-! ## Brackets, counted -/

/-- No beginning of the text closes more round brackets than it opens, and all of it closes as many
as it opens. -/
structure Balanced (text : List Char) : Prop where
  opened : ∀ k, (text.take k).count ')' ≤ (text.take k).count '('
  closed : text.count '(' = text.count ')'

/-- A text in which every beginning closes at most the brackets that are open around and in it
leads to some depth. -/
theorem depthAfter_of_count {depth : Nat} {text : List Char}
    (h : ∀ k, (text.take k).count ')' ≤ depth + (text.take k).count '(') :
    ∃ more, depthAfter depth text = some more := by
  induction text generalizing depth with
  | nil => exact ⟨depth, rfl⟩
  | cons c rest ih =>
    have counted (k : Nat) := h (k + 1)
    simp only [List.take_succ_cons] at counted
    by_cases isOpen : c = '('
    · subst isOpen
      refine @ih (depth + 1) fun k => ?_
      have here := counted k
      rw [List.count_cons_self, List.count_cons_of_ne (by decide)] at here
      omega
    · by_cases isClose : c = ')'
      · subst isClose
        cases depth with
        | zero =>
          have here := counted 0
          simp at here
        | succ depth =>
          refine @ih depth fun k => ?_
          have here := counted k
          rw [List.count_cons_self, List.count_cons_of_ne (by decide)] at here
          omega
      · rw [depthAfter_other _ _ isOpen isClose]
        refine ih fun k => ?_
        have here := counted k
        rwa [List.count_cons_of_ne isOpen, List.count_cons_of_ne isClose] at here

theorem balanced_iff {text : List Char} : Balanced text ↔ depthAfter 0 text = some 0 := by
  constructor
  · rintro ⟨opened, closed⟩
    obtain ⟨more, after⟩ := @depthAfter_of_count 0 text fun k => by
      rw [Nat.zero_add]
      exact opened k
    have counted := Lexer.count_of_depthAfter after
    obtain rfl : more = 0 := by omega
    exact after
  · intro after
    refine ⟨fun k => Lexer.count_take_le k after, ?_⟩
    have counted := Lexer.count_of_depthAfter after
    omega

/-! ## Joining -/

theorem splitArgumentsFrom_ne (piece : List Char) (depth : Int) (text : List Char) :
    splitArgumentsFrom piece depth text ≠ [] := by
  fun_induction splitArgumentsFrom piece depth text with
  | case1 => exact List.cons_ne_nil _ _
  | case2 piece depth c rest isOpen ih => exact ih
  | case3 piece depth c rest notOpen isClose ih => exact ih
  | case4 piece depth c rest notOpen notClose comma ih => exact List.cons_ne_nil _ _
  | case5 piece depth c rest notOpen notClose other ih => exact ih

/-- The pieces, joined by commas, are what was read before and the text. -/
theorem splitArgumentsFrom_joined (piece : List Char) (depth : Int) (text : List Char) :
    [','].intercalate (splitArgumentsFrom piece depth text) = piece.reverse ++ text := by
  fun_induction splitArgumentsFrom piece depth text with
  | case1 => rfl
  | case2 piece depth c rest isOpen ih => rw [ih, List.reverse_cons, List.append_assoc]; rfl
  | case3 piece depth c rest notOpen isClose ih =>
    rw [ih, List.reverse_cons, List.append_assoc]; rfl
  | case4 piece depth c rest notOpen notClose comma ih =>
    obtain ⟨next, later, pieces⟩ := List.exists_cons_of_ne_nil (splitArgumentsFrom_ne [] depth rest)
    obtain ⟨isComma, -⟩ := Bool.and_eq_true_iff.mp comma
    rw [pieces] at ih ⊢
    rw [List.intercalate_cons_cons, ih, eq_of_beq isComma]
    simp
  | case5 piece depth c rest notOpen notClose other ih =>
    rw [ih, List.reverse_cons, List.append_assoc]; rfl

/-! ## Pieces -/

/-- The pieces of a text that closes all brackets are arguments. What was read of the current piece
has to be the beginning of an argument, whatever follows. -/
theorem splitArgumentsFrom_argument_mem {depth : Nat} {piece text : List Char}
    (balanced : depthAfter depth text = some 0)
    (begun : ∀ rest, isArgument 0 (piece.reverse ++ rest) = isArgument depth rest) :
    ∀ part ∈ splitArgumentsFrom piece depth text, isArgument 0 part = true := by
  induction text generalizing depth piece with
  | nil =>
    cases balanced
    have whole := begun []
    rw [List.append_nil] at whole
    exact List.forall_mem_singleton.mpr whole
  | cons c text ih =>
    -- A character that is kept moves on to the piece that has been begun.
    have longer {more : Nat} (step : ∀ rest, isArgument depth (c :: rest) = isArgument more rest)
        (rest : List Char) :
        isArgument 0 ((c :: piece).reverse ++ rest) = isArgument more rest := by
      rw [List.reverse_cons, List.append_assoc, ← step rest]
      exact begun (c :: rest)
    by_cases isOpen : c = '('
    · subst isOpen
      exact ih balanced (longer fun rest => rfl)
    · by_cases isClose : c = ')'
      · subst isClose
        cases depth with
        | zero => cases balanced
        | succ depth =>
          have less : ((depth + 1 : Nat) : Int) - 1 = (depth : Int) := by omega
          simp only [splitArgumentsFrom, less]
          exact ih balanced (longer fun rest => rfl)
      · rw [depthAfter_other _ _ isOpen isClose] at balanced
        by_cases cut : c = ',' ∧ depth = 0
        · obtain ⟨rfl, rfl⟩ := cut
          have whole := begun []
          rw [List.append_nil] at whole
          exact List.forall_mem_cons.mpr ⟨whole, ih balanced fun rest => rfl⟩
        · have inside : (depth != 0 || c != ',') = true := by
            simpa [imp_iff_not_or, or_comm] using fun comma zero => cut ⟨comma, zero⟩
          have kept : (c == ',' && (depth : Int) == 0) = false := by
            simpa using fun comma zero => cut ⟨comma, zero⟩
          simp only [splitArgumentsFrom, beq_iff_eq, isOpen, isClose, if_false, kept,
            Bool.false_eq_true]
          refine ih balanced (longer fun rest => ?_)
          simp only [isArgument, spanned, beq_iff_eq, isOpen, isClose, if_false, inside,
            Bool.true_and]

theorem splitArguments_eq_ok {text : List Char} {parts : List (List Char)}
    (h : splitArguments text = .ok parts) (some : parts ≠ []) :
    parts = splitArgumentsFrom [] 0 text := by
  unfold splitArguments at h
  split at h
  · cases h
    exact absurd rfl some
  · split at h
    · cases h
    · cases h
      rfl

/-- Texts with matching brackets whose commas stand inside of brackets, joined by commas, are taken
apart where they were joined, as long as the last one is not blank. And what any text is taken
apart into gives the text back when it is joined, unless there are no pieces; if the brackets of the
text match, then so do those of each piece, and its commas stand inside of brackets. -/
theorem splitArguments_joined :
    (∀ (texts : List (List Char)) (last : List Char),
      (∀ text ∈ texts, Balanced text ∧ CommasInside text) →
      texts.getLast? = some last → ¬ Blank last →
      splitArguments ([','].intercalate texts) = .ok texts) ∧
    (∀ (text : List Char) (parts : List (List Char)), splitArguments text = .ok parts →
      parts ≠ [] →
      [','].intercalate parts = text ∧
      (Balanced text → ∀ part ∈ parts, Balanced part ∧ CommasInside part)) := by
  constructor
  · intro texts last arguments ends filled
    rw [intercalate_comma]
    refine splitArguments_commaSeparated (fun text mem => ?_) ends filled
    obtain ⟨balanced, inside⟩ := arguments text mem
    exact isArgument_iff.mpr ⟨balanced_iff.mp balanced, inside⟩
  · intro text parts split some
    obtain rfl := splitArguments_eq_ok split some
    refine ⟨splitArgumentsFrom_joined [] 0 text, fun balanced part mem => ?_⟩
    have argument := @splitArgumentsFrom_argument_mem 0 [] text (balanced_iff.mp balanced)
      (fun rest => rfl) part mem
    obtain ⟨matching, inside⟩ := isArgument_iff.mp argument
    exact ⟨balanced_iff.mpr matching, inside⟩

/-- Arguments of which one is empty, and two have commas inside of brackets. -/
def nestedArguments : List (List Char) := ["f(1, 2)", "", " -g((x,y))"].map String.toList

theorem splitArguments_joined_nested :
    splitArguments "f(1, 2),, -g((x,y))".toList = .ok nestedArguments ∧
      [','].intercalate nestedArguments = "f(1, 2),, -g((x,y))".toList ∧
      ∀ part ∈ nestedArguments, Balanced part ∧ CommasInside part := by
  obtain ⟨split, joined⟩ := splitArguments_joined
  have valid : ∀ text ∈ nestedArguments, isArgument 0 text = true := by decide
  have taken : splitArguments "f(1, 2),, -g((x,y))".toList = .ok nestedArguments := by
    refine split nestedArguments " -g((x,y))".toList (fun text mem => ?_) rfl (by decide)
    exact ⟨balanced_iff.mpr (isArgument_iff.mp (valid text mem)).1,
      (isArgument_iff.mp (valid text mem)).2⟩
  obtain ⟨whole, pieces⟩ := joined _ _ taken (by decide)
  exact ⟨taken, whole, pieces (balanced_iff.mpr rfl)⟩

end Calculator
