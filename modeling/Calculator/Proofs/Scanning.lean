import Calculator.Proofs.Runs

/-!
# Calculator.Proofs.Scanning

What the two scanners take from a text. `readValue_token` and `readOperator_symbol` read what is
written; `readValue_spec` and `readOperator_spec` say what a text looks like from which a token was
read. A value that begins with a bracketed span can be read over white space; it is then `Glued`.
-/

namespace Calculator

/-- Texts of white space. -/
def Blank (text : List Char) : Prop := ∀ c ∈ text, isBlank c = true

instance (text : List Char) : Decidable (Blank text) := List.decidableBAll _ text

@[simp] theorem blank_nil : Blank [] := nofun

@[simp] theorem blank_cons {c : Char} {rest : List Char} :
    Blank (c :: rest) ↔ isBlank c = true ∧ Blank rest := List.forall_mem_cons

@[simp] theorem blank_append {a b : List Char} : Blank (a ++ b) ↔ Blank a ∧ Blank b := List.forall_mem_append

theorem all_isBlank {text : List Char} : text.all isBlank = true ↔ Blank text := List.all_eq_true

/-- What can follow a value: no value symbol comes next, even after white space. -/
def EndsValue (text : List Char) : Prop := ∀ c ∈ (trimLeft text).head?, isValueSymbol c = false

theorem trimLeft_blank {gap : List Char} (text : List Char) (h : Blank gap) :
    trimLeft (gap ++ text) = trimLeft text := by
  induction gap with
  | nil => rfl
  | cons c rest ih =>
    obtain ⟨hc, hr⟩ := blank_cons.mp h
    rw [← ih hr]
    simp [trimLeft, hc]

/-- The characters of operator symbols. -/
def IsSymbol (text : List Char) : Prop :=
  ∀ c ∈ text, isBlank c = false ∧ isValueSymbol c = false

instance (text : List Char) : Decidable (IsSymbol text) := List.decidableBAll _ text

namespace Lexer

/-! ## Reading values that are written -/

theorem scanValue_blank {gap : List Char} (acc text : List Char) (h : Blank gap) :
    scanValue acc true 0 (gap ++ text) = scanValue acc true 0 text := by
  induction gap with
  | nil => rfl
  | cons c rest ih =>
    obtain ⟨hc, hr⟩ := blank_cons.mp h
    have value := isValueSymbol_of_isBlank hc
    have notOpen : c ≠ '(' := by rintro rfl; cases hc
    have notClose : c ≠ ')' := by rintro rfl; cases hc
    simp [scanValue, notOpen, notClose, hc, ih hr]

/-- A run is read whole; what is left to say is only whether white space is still skipped. -/
theorem scanValue_run {depth : Nat} {run : List Char} (acc : List Char) (skipping : Bool)
    (rest : List Char) (h : isRun depth run = true) :
    ∃ skipping', scanValue acc skipping depth (run ++ rest) =
      scanValue (run.reverse ++ acc) skipping' 0 rest := by
  induction run generalizing acc skipping depth with
  | nil =>
    simp only [isRun, spanned, beq_iff_eq] at h
    exact ⟨skipping, by rw [h]; rfl⟩
  | cons c run ih =>
    simp only [isRun, spanned] at h
    simp only [List.cons_append, scanValue, List.reverse_cons, List.append_assoc]
    split at h
    · rename_i isOpen
      simp only [isOpen, if_true]
      exact ih _ _ h
    · rename_i notOpen
      simp only [notOpen]
      split at h
      · rename_i isClose
        simp only [Bool.and_eq_true, bne_iff_ne, ne_eq] at h
        simp only [isClose, if_true, h.1, if_false]
        exact ih _ _ h.2
      · rename_i notClose
        simp only [Bool.and_eq_true, Bool.or_eq_true, bne_iff_ne, ne_eq] at h
        simp only [notClose]
        by_cases outside : depth = 0
        · have value : isValueSymbol c = true := h.1.resolve_left (absurd outside)
          simp only [outside, ne_eq, not_true_eq_false, if_false, isBlank_of_isValueSymbol value,
            Bool.and_false, value, Bool.or_true, if_true, Bool.false_eq_true]
          exact ih _ _ (outside ▸ h.2)
        · simp only [ne_eq, outside, not_false_eq_true, if_true]
          exact ih _ _ h.2

/-- A value that has been read ends where no value symbol follows. -/
theorem scanValue_end {acc text : List Char} (skipping : Bool) (ha : acc ≠ [])
    (h : EndsValue text) :
    ∃ gap rest, Blank gap ∧ text = gap ++ rest ∧
      scanValue acc skipping 0 text = .ok ⟨acc.reverse, rest⟩ := by
  induction text with
  | nil => exact ⟨[], [], blank_nil, rfl, rfl⟩
  | cons c text ih =>
    have started : acc.isEmpty = false := by simpa using ha
    cases hc : isBlank c with
    | true =>
      have value := isValueSymbol_of_isBlank hc
      have notOpen : c ≠ '(' := by rintro rfl; cases hc
      have notClose : c ≠ ')' := by rintro rfl; cases hc
      cases skipping with
      | true =>
        have more : EndsValue text := by simpa [EndsValue, trimLeft, List.dropWhile_cons, hc] using h
        obtain ⟨gap, rest, hg, rfl, hs⟩ := ih more
        exact ⟨c :: gap, rest, blank_cons.mpr ⟨hc, hg⟩, rfl,
          by simp [scanValue, notOpen, notClose, hc, hs]⟩
      | false =>
        exact ⟨[], c :: text, blank_nil, rfl,
          by simp [scanValue, notOpen, notClose, value, started]⟩
    | false =>
      have value : isValueSymbol c = false :=
        h c (by simp [trimLeft, hc])
      have notOpen : c ≠ '(' := by rintro rfl; cases value
      have notClose : c ≠ ')' := by rintro rfl; cases value
      exact ⟨[], c :: text, blank_nil, rfl,
        by simp [scanValue, notOpen, notClose, hc, value, started]⟩

/-- A value is read as it is written, with no more than white space after it. -/
theorem readValue_token {lead token text : List Char} (hl : Blank lead) (ht : isToken token = true)
    (h : EndsValue text) :
    ∃ gap rest, Blank gap ∧ text = gap ++ rest ∧
      readValue (lead ++ (token ++ text)) = .ok ⟨token, rest⟩ := by
  rw [readValue, scanValue_blank [] _ hl]
  obtain ⟨c, run, rfl, -⟩ := isToken_head ht
  by_cases minus : c = '-'
  · subst minus
    rw [isToken_minus, Bool.and_eq_true] at ht
    obtain ⟨skipping, hs⟩ := scanValue_run ['-'] false text ht.2
    have begun : run.reverse ++ ['-'] ≠ [] := by simp
    obtain ⟨gap, rest, hg, rfl, he⟩ := scanValue_end skipping begun h
    refine ⟨gap, rest, hg, rfl, ?_⟩
    rw [he] at hs
    simpa [scanValue, show isBlank '-' = false from rfl] using hs
  · rw [isToken_plain run minus] at ht
    obtain ⟨skipping, hs⟩ := scanValue_run [] true text ht
    have begun : (c :: run).reverse ++ [] ≠ [] := by simp
    obtain ⟨gap, rest, hg, rfl, he⟩ := scanValue_end skipping begun h
    refine ⟨gap, rest, hg, rfl, ?_⟩
    rw [hs, he]
    simp

/-! ## What values are read from -/

/-- A token that more was read into than one run: it begins with a bracketed span, which something
else follows. -/
def Glued (token : List Char) : Prop :=
  ∃ inner after, token = '(' :: (inner ++ ')' :: after) ∧ depthAfter 0 inner = some 0 ∧ after ≠ []

/-- The brackets match in what is read as a value. -/
theorem scanValue_depth {acc text token rest : List Char} {skipping : Bool} {depth : Nat}
    (h : scanValue acc skipping depth text = .ok ⟨token, rest⟩) :
    ∃ raw, text = raw ++ rest ∧ depthAfter depth raw = some 0 := by
  induction text generalizing acc skipping depth with
  | nil =>
    simp only [scanValue] at h
    split at h
    · rename_i outside; cases h; exact ⟨[], rfl, by rw [outside]; rfl⟩
    · cases h
  | cons c text ih =>
    by_cases isOpen : c = '('
    · subst isOpen
      obtain ⟨raw, rfl, hd⟩ := ih h
      exact ⟨'(' :: raw, rfl, hd⟩
    · by_cases isClose : c = ')'
      · subst isClose
        cases depth with
        | zero => cases h
        | succ depth =>
          obtain ⟨raw, rfl, hd⟩ := ih h
          exact ⟨')' :: raw, rfl, hd⟩
      · have keep {acc' : List Char} {skipping' : Bool}
            (h : scanValue acc' skipping' depth text = .ok ⟨token, rest⟩) :
            ∃ raw, c :: text = raw ++ rest ∧ depthAfter depth raw = some 0 := by
          obtain ⟨raw, rfl, hd⟩ := ih h
          exact ⟨c :: raw, rfl, by rwa [depthAfter_other _ _ isOpen isClose]⟩
        simp only [scanValue, beq_iff_eq, isOpen, isClose, if_false] at h
        split at h
        · exact keep h
        · rename_i outside
          split at h
          · exact keep h
          · split at h
            · exact keep h
            · cases h
              exact ⟨[], rfl, by rw [Decidable.not_not.mp outside]; rfl⟩

/-- Once a character outside of brackets has been read, no white space is skipped. -/
theorem scanValue_plain {acc text token rest : List Char} {depth : Nat} (ha : acc ≠ [])
    (h : scanValue acc false depth text = .ok ⟨token, rest⟩) :
    ∃ run, text = run ++ rest ∧ token = acc.reverse ++ run ∧ isRun depth run = true := by
  induction text generalizing acc depth with
  | nil =>
    simp only [scanValue] at h
    split at h
    · rename_i outside; cases h; exact ⟨[], rfl, by simp, by rw [outside]; rfl⟩
    · cases h
  | cons c text ih =>
    have started : acc.isEmpty = false := by simpa using ha
    have keep {depth' : Nat} (h : scanValue (c :: acc) false depth' text = .ok ⟨token, rest⟩)
        (hr : ∀ run, isRun depth' run = true → isRun depth (c :: run) = true) :
        ∃ run, c :: text = run ++ rest ∧ token = acc.reverse ++ run ∧ isRun depth run = true := by
      obtain ⟨run, rfl, rfl, hrun⟩ := ih (by simp) h
      exact ⟨c :: run, rfl, by simp, hr run hrun⟩
    simp only [scanValue] at h
    split at h
    · rename_i isOpen
      exact keep h fun run hrun => by simpa [spanned, isOpen] using hrun
    · rename_i notOpen
      split at h
      · rename_i isClose
        split at h
        · cases h
        · rename_i inside
          exact keep h fun run hrun => by simp [spanned, notOpen, isClose, inside, hrun]
      · rename_i notClose
        split at h
        · rename_i inside
          exact keep h fun run hrun => by simp [spanned, notOpen, notClose, inside, hrun]
        · rename_i outside
          simp only [Bool.false_and, Bool.false_eq_true, if_false, started, Bool.and_false,
            Bool.false_or] at h
          split at h
          · rename_i value
            exact keep h fun run hrun => by simp [spanned, notOpen, notClose, value, hrun]
          · cases h
            exact ⟨[], rfl, by simp, by rw [Decidable.not_not.mp outside]; rfl⟩

/-- What has been read after `acc` while white space is skipped: a run, with white space after it, or
spans in brackets, with something after them that is not theirs. -/
def SkippedFrom (depth : Nat) (acc text token rest : List Char) : Prop :=
  (∃ run gap, text = run ++ (gap ++ rest) ∧ token = acc.reverse ++ run ∧ isRun depth run = true ∧
      Blank gap) ∨
    ∃ spans after, token = acc.reverse ++ (spans ++ after) ∧ depthAfter depth spans = some 0 ∧
      after ≠ []

theorem skippedFrom_cons {acc text token rest : List Char} {depth depth' : Nat} {c : Char}
    (h : SkippedFrom depth' (c :: acc) text token rest)
    (hr : ∀ run, isRun depth' run = true → isRun depth (c :: run) = true)
    (hd : ∀ spans, depthAfter depth' spans = some 0 → depthAfter depth (c :: spans) = some 0) :
    SkippedFrom depth acc (c :: text) token rest := by
  obtain ⟨run, gap, rfl, rfl, hrun, hg⟩ | ⟨spans, after, rfl, hspans, hne⟩ := h
  · exact .inl ⟨c :: run, gap, rfl, by simp, hr run hrun, hg⟩
  · exact .inr ⟨c :: spans, after, by simp, hd spans hspans, hne⟩

/-- While only bracketed spans have been read, white space after them is skipped, and what follows it
can be read into the same token. -/
theorem scanValue_skipping {acc text token rest : List Char} {depth : Nat} (ha : acc ≠ [])
    (h : scanValue acc true depth text = .ok ⟨token, rest⟩) :
    SkippedFrom depth acc text token rest := by
  induction text generalizing acc depth with
  | nil =>
    simp only [scanValue] at h
    split at h
    · rename_i outside; cases h
      exact .inl ⟨[], [], rfl, by simp, by rw [outside]; rfl, blank_nil⟩
    · cases h
  | cons c text ih =>
    have started : acc.isEmpty = false := by simpa using ha
    simp only [scanValue] at h
    split at h
    · rename_i isOpen
      exact skippedFrom_cons (ih (by simp) h)
        (fun run hrun => by simpa [spanned, isOpen] using hrun)
        (fun spans hs => by simpa [depthAfter, isOpen] using hs)
    · rename_i notOpen
      split at h
      · rename_i isClose
        split at h
        · cases h
        · rename_i inside
          exact skippedFrom_cons (ih (by simp) h)
            (fun run hrun => by simp [spanned, notOpen, isClose, inside, hrun])
            (fun spans hs => by simp [depthAfter, notOpen, isClose, inside, hs])
      · rename_i notClose
        split at h
        · rename_i inside
          exact skippedFrom_cons (ih (by simp) h)
            (fun run hrun => by simp [spanned, notOpen, notClose, inside, hrun])
            (fun spans hs => by simp [depthAfter, notOpen, notClose, hs])
        · rename_i outside
          have outside := Decidable.not_not.mp outside
          subst outside
          split at h
          · rename_i hc
            simp only [Bool.true_and] at hc
            rcases ih ha h with ⟨run, gap, rfl, rfl, hrun, hg⟩ | glued
            · cases run with
              | nil => exact .inl ⟨[], c :: gap, rfl, by simp, rfl, blank_cons.mpr ⟨hc, hg⟩⟩
              | cons d run => exact .inr ⟨[], d :: run, rfl, rfl, by simp⟩
            · exact .inr glued
          · simp only [started, Bool.and_false, Bool.false_or] at h
            split at h
            · rename_i value
              obtain ⟨run, rfl, rfl, hrun⟩ := scanValue_plain (by simp) h
              exact .inl ⟨c :: run, [], rfl, by simp,
                by simp [spanned, notOpen, notClose, value, hrun], blank_nil⟩
            · cases h
              exact .inl ⟨[], [], rfl, by simp, rfl, blank_nil⟩

/-- What a token is that was read as a value, and what it was read from. -/
theorem readValue_spec {text token rest : List Char} (h : readValue text = .ok ⟨token, rest⟩) :
    token = [] ∨ token = ['-'] ∨ Glued token ∨
      isToken token = true ∧
        ∃ lead gap, Blank lead ∧ Blank gap ∧ text = lead ++ (token ++ (gap ++ rest)) := by
  rw [readValue] at h
  induction text with
  | nil => cases h; exact .inl rfl
  | cons c text ih =>
    by_cases isOpen : c = '('
    · subst isOpen
      have h : scanValue ['('] true 1 text = .ok ⟨token, rest⟩ := h
      rcases scanValue_skipping (by simp) h with
        ⟨run, gap, rfl, rfl, hrun, hg⟩ | ⟨spans, after, rfl, hspans, hne⟩
      · exact .inr (.inr (.inr ⟨hrun, [], gap, blank_nil, hg, rfl⟩))
      · obtain ⟨inner, more, rfl, hi⟩ := depthAfter_cut hspans
        exact .inr (.inr (.inl ⟨inner, more ++ after, by simp, hi, by simp [hne]⟩))
    · by_cases isClose : c = ')'
      · subst isClose; cases h
      · simp only [scanValue, beq_iff_eq, isOpen, isClose, if_false, ne_eq, not_true_eq_false,
          Bool.true_and, List.isEmpty_nil, Bool.and_true] at h
        split at h
        · rename_i hc
          rcases ih h with empty | minus | glued | ⟨ht, lead, gap, hl, hg, rfl⟩
          · exact .inl empty
          · exact .inr (.inl minus)
          · exact .inr (.inr (.inl glued))
          · exact .inr (.inr (.inr ⟨ht, c :: lead, gap, blank_cons.mpr ⟨hc, hl⟩, hg, rfl⟩))
        · split at h
          · rename_i first
            obtain ⟨run, rfl, rfl, hrun⟩ := scanValue_plain (List.cons_ne_nil c []) h
            by_cases minus : c = '-'
            · subst minus
              cases run with
              | nil => exact .inr (.inl rfl)
              | cons d run => exact .inr (.inr (.inr ⟨hrun, [], [], blank_nil, blank_nil, rfl⟩))
            · have value : isValueSymbol c = true := by simpa [minus] using first
              have ht : isToken (c :: run) = true := by
                rw [isToken_plain run minus]
                simp [spanned, isOpen, isClose, value, hrun]
              exact .inr (.inr (.inr ⟨ht, [], [], blank_nil, blank_nil, rfl⟩))
          · cases h; exact .inl rfl

/-! ## Operator symbols -/

theorem scanOperator_blank {gap : List Char} (acc text : List Char) (trailing : Bool)
    (h : Blank gap) :
    scanOperator acc true trailing (gap ++ text) = scanOperator acc true trailing text := by
  induction gap with
  | nil => rfl
  | cons c rest ih =>
    obtain ⟨hc, hr⟩ := blank_cons.mp h
    simp [scanOperator, hc, ih hr]

theorem scanOperator_symbols {symbol : List Char} (acc text : List Char) (skipping : Bool)
    (hs : IsSymbol symbol) (hne : symbol ≠ []) :
    scanOperator acc skipping false (symbol ++ text) =
      scanOperator (symbol.reverse ++ acc) false false text := by
  induction symbol generalizing acc skipping with
  | nil => exact absurd rfl hne
  | cons c rest ih =>
    obtain ⟨⟨hb, hv⟩, hr⟩ := List.forall_mem_cons.mp hs
    have read : scanOperator acc skipping false (c :: (rest ++ text)) =
        scanOperator (c :: acc) false false (rest ++ text) := by
      simp [scanOperator, hb, hv]
    rw [List.cons_append, read]
    cases rest with
    | nil => rfl
    | cons d rest => simpa using ih (c :: acc) false hr (by simp)

theorem scanOperator_space {space : List Char} (acc text : List Char) (trailing : Bool)
    (h : Blank space) :
    scanOperator acc false trailing (space ++ text) =
      scanOperator acc false (trailing || !space.isEmpty) text := by
  induction space generalizing trailing with
  | nil => simp
  | cons c rest ih =>
    obtain ⟨hc, hr⟩ := blank_cons.mp h
    simp [scanOperator, hc, isValueSymbol_of_isBlank hc, ih true hr]

/-- Where an operator symbol ends: a value follows, and white space before its minus. -/
def EndsSymbol (space text : List Char) : Prop :=
  ∃ c rest, text = c :: rest ∧ (isValueSymbol c = true ∨ c = '-' ∧ space ≠ [])

/-- An operator symbol is read as it is written, with the white space around it. -/
theorem readOperator_symbol {gap symbol space text : List Char} (hg : Blank gap)
    (hs : IsSymbol symbol) (hne : symbol ≠ []) (hw : Blank space) (he : EndsSymbol space text) :
    readOperator (gap ++ (symbol ++ (space ++ text))) = .ok ⟨symbol, text⟩ := by
  rw [readOperator, scanOperator_blank [] _ _ hg, scanOperator_symbols [] _ _ hs hne,
    scanOperator_space _ _ _ hw]
  obtain ⟨c, rest, rfl, value | ⟨rfl, spaced⟩⟩ := he
  · simp [scanOperator, value]
  · have : space.isEmpty = false := by simpa using spaced
    simp [scanOperator, this, show isBlank '-' = false from rfl,
      show isValueSymbol '-' = false from rfl]

theorem scanOperator_trailing {acc text token rest : List Char}
    (h : scanOperator acc false true text = .ok ⟨token, rest⟩) :
    ∃ space, Blank space ∧ text = space ++ rest ∧ token = acc.reverse ∧
      (rest = [] ∨ ∃ c more, rest = c :: more ∧ (isValueSymbol c = true ∨ c = '-')) := by
  induction text with
  | nil => cases h; exact ⟨[], blank_nil, rfl, rfl, .inl rfl⟩
  | cons c text ih =>
    simp only [scanOperator, Bool.false_and, Bool.false_eq_true, if_false] at h
    split at h
    · rename_i value; cases h
      exact ⟨[], blank_nil, rfl, rfl, .inr ⟨c, text, rfl, .inl value⟩⟩
    · split at h
      · rename_i hc
        obtain ⟨space, hw, rfl, rfl, he⟩ := ih h
        exact ⟨c :: space, blank_cons.mpr ⟨hc, hw⟩, rfl, rfl, he⟩
      · simp only [if_true] at h
        split at h
        · rename_i minus; cases h
          exact ⟨[], blank_nil, rfl, rfl, .inr ⟨c, text, rfl, .inr (beq_iff_eq.mp minus)⟩⟩
        · cases h

theorem scanOperator_spec {acc text token rest : List Char}
    (h : scanOperator acc false false text = .ok ⟨token, rest⟩) :
    ∃ symbol space, IsSymbol symbol ∧ Blank space ∧ text = symbol ++ (space ++ rest) ∧
      token = acc.reverse ++ symbol ∧ (rest = [] ∨ EndsSymbol space rest) := by
  induction text generalizing acc with
  | nil => cases h; exact ⟨[], [], nofun, blank_nil, rfl, by simp, .inl rfl⟩
  | cons c text ih =>
    simp only [scanOperator, Bool.false_and, Bool.false_eq_true, if_false] at h
    split at h
    · rename_i value; cases h
      exact ⟨[], [], nofun, blank_nil, rfl, by simp, .inr ⟨c, text, rfl, .inl value⟩⟩
    · rename_i hv
      split at h
      · rename_i hc
        obtain ⟨space, hw, rfl, rfl, he⟩ := scanOperator_trailing h
        refine ⟨[], c :: space, nofun, blank_cons.mpr ⟨hc, hw⟩, rfl, by simp, he.imp_right ?_⟩
        rintro ⟨d, more, rfl, hd⟩
        exact ⟨d, more, rfl, hd.imp_right fun minus => ⟨minus, by simp⟩⟩
      · rename_i hb
        obtain ⟨symbol, space, hs, hw, rfl, rfl, he⟩ := ih h
        refine ⟨c :: symbol, space, ?_, hw, rfl, by simp, he⟩
        exact List.forall_mem_cons.mpr ⟨⟨by simpa using hb, by simpa using hv⟩, hs⟩

/-- What an operator symbol is that was read, and what it was read from. -/
theorem readOperator_spec {text token rest : List Char}
    (h : readOperator text = .ok ⟨token, rest⟩) :
    ∃ gap space, Blank gap ∧ IsSymbol token ∧ Blank space ∧
      text = gap ++ (token ++ (space ++ rest)) ∧ (rest = [] ∨ EndsSymbol space rest) := by
  rw [readOperator] at h
  induction text with
  | nil => cases h; exact ⟨[], [], blank_nil, nofun, blank_nil, rfl, .inl rfl⟩
  | cons c text ih =>
    simp only [scanOperator, Bool.true_and] at h
    split at h
    · rename_i hc
      obtain ⟨gap, space, hg, hs, hw, rfl, he⟩ := ih h
      exact ⟨c :: gap, space, blank_cons.mpr ⟨hc, hg⟩, hs, hw, rfl, he⟩
    · rename_i hb
      split at h
      · rename_i value; cases h
        exact ⟨[], [], blank_nil, nofun, blank_nil, rfl, .inr ⟨c, text, rfl, .inl value⟩⟩
      · rename_i hv
        rw [if_neg (by simp)] at h
        obtain ⟨symbol, space, hs, hw, rfl, rfl, he⟩ := scanOperator_spec h
        refine ⟨[], space, blank_nil, ?_, hw, rfl, he⟩
        exact List.forall_mem_cons.mpr ⟨⟨by simpa using hb, by simpa using hv⟩, hs⟩

end Lexer
end Calculator
