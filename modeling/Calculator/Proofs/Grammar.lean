import Calculator.Proofs.Scanning

/-!
# Calculator.Proofs.Grammar

The grammar of expressions: a value, and operator symbols and values in turn, with white space
between them.

* `read_lexical`: what the grammar writes is read back as its tokens.
* `lexical_of_read`: a text from which tokens of values have been read is written by the grammar.
* `Decomposition.unique`: it is written in one way only.
-/

namespace Calculator

/-! ## The grammar -/

/-- An operator symbol and the value after it, with the white space before and after the symbol. -/
structure Segment where
  gap : List Char
  symbol : List Char
  space : List Char
  token : List Char
  deriving DecidableEq, Repr

namespace Segment

def before (g : Segment) (rest : List Char) : List Char :=
  g.gap ++ (g.symbol ++ (g.space ++ (g.token ++ rest)))

def tokens (g : Segment) : List Char × List Char := (g.symbol, g.token)

structure Lexical (g : Segment) : Prop where
  gap : Blank g.gap
  symbol : IsSymbol g.symbol
  symbol_ne : g.symbol ≠ []
  space : Blank g.space
  token : isToken g.token = true
  /-- A minus belongs to the value only when white space separates it from the symbol. -/
  minus : g.token.head? = some '-' → g.space ≠ []

end Segment

/-- An expression as the grammar writes it. -/
structure Decomposition where
  lead : List Char
  first : List Char
  segments : List Segment
  trail : List Char
  deriving DecidableEq, Repr

namespace Decomposition

/-- The text of segments with white space after the last. -/
def textOf (segments : List Segment) (trail : List Char) : List Char :=
  segments.foldr Segment.before trail

def text (d : Decomposition) : List Char := d.lead ++ (d.first ++ textOf d.segments d.trail)

def values (d : Decomposition) : List (List Char) := d.first :: d.segments.map (·.token)

structure Lexical (d : Decomposition) : Prop where
  lead : Blank d.lead
  first : isToken d.first = true
  segments : ∀ g ∈ d.segments, g.Lexical
  trail : Blank d.trail

end Decomposition

/-- The clauses of symbols and tokens, with nothing after them. -/
def Continuation.ofTokens : List (List Char × List Char) → Continuation
  | [] => .done
  | (symbol, token) :: rest => .clause symbol token (ofTokens rest)

theorem Continuation.ofTokens_inj {a b : List (List Char × List Char)}
    (h : ofTokens a = ofTokens b) : a = b := by
  induction a generalizing b with
  | nil =>
    cases b with
    | nil => rfl
    | cons q b => cases h
  | cons p a ih =>
    cases b with
    | nil => cases h
    | cons q b =>
      obtain ⟨symbol, token⟩ := p
      obtain ⟨symbol', token'⟩ := q
      simp only [ofTokens, clause.injEq] at h
      obtain ⟨rfl, rfl, h⟩ := h
      rw [ih h]

/-! ## White space before a character -/

/-- White space before a text that begins otherwise is all there is to drop. -/
theorem blank_split {gap gap' text rest : List Char} {c : Char} (hg : Blank gap)
    (hc : isBlank c = false) (h : gap ++ text = gap' ++ c :: rest) (hg' : Blank gap') :
    ∃ left, Blank left ∧ text = left ++ c :: rest := by
  rcases List.append_eq_append_iff.mp h with ⟨left, rfl, same⟩ | ⟨left, rfl, same⟩
  · exact ⟨left, (blank_append.mp hg').2, same⟩
  · cases left with
    | nil => exact ⟨[], blank_nil, same.symm⟩
    | cons d left =>
      obtain ⟨rfl, -⟩ := List.cons.inj same
      rw [(blank_cons.mp (blank_append.mp hg).2).1] at hc
      cases hc

theorem blank_unique {gap gap' rest rest' : List Char} {c c' : Char} (hg : Blank gap)
    (hg' : Blank gap') (hc : isBlank c = false) (hc' : isBlank c' = false)
    (h : gap ++ c :: rest = gap' ++ c' :: rest') : gap = gap' := by
  rcases List.append_eq_append_iff.mp h with ⟨left, rfl, same⟩ | ⟨left, rfl, same⟩
  · cases left with
    | nil => simp
    | cons d left =>
      obtain ⟨rfl, -⟩ := List.cons.inj same
      rw [(blank_cons.mp (blank_append.mp hg').2).1] at hc
      cases hc
  · cases left with
    | nil => simp
    | cons d left =>
      obtain ⟨rfl, -⟩ := List.cons.inj same
      rw [(blank_cons.mp (blank_append.mp hg).2).1] at hc'
      cases hc'

theorem isToken_first {token : List Char} (h : isToken token = true) :
    ∃ c rest, token = c :: rest ∧ isBlank c = false := by
  obtain ⟨c, rest, rfl, rfl | value⟩ := isToken_head h
  · exact ⟨'-', rest, rfl, rfl⟩
  · exact ⟨c, rest, rfl, isBlank_of_isValueSymbol value⟩

theorem Segment.Lexical.first {g : Segment} (h : g.Lexical) :
    ∃ c rest, g.symbol = c :: rest ∧ isBlank c = false ∧ isValueSymbol c = false := by
  obtain ⟨c, rest, same⟩ := List.exists_cons_of_ne_nil h.symbol_ne
  exact ⟨c, rest, same, h.symbol c (by simp [same])⟩

theorem Segment.Lexical.ends {g : Segment} (h : g.Lexical) (rest : List Char) :
    Lexer.EndsSymbol g.space (g.token ++ rest) := by
  obtain ⟨c, run, same, rfl | value⟩ := isToken_head h.token
  · exact ⟨'-', run ++ rest, by simp [same], .inr ⟨rfl, h.minus (by simp [same])⟩⟩
  · exact ⟨c, run ++ rest, by simp [same], .inl value⟩

/-! ## Reading what the grammar writes -/

theorem endsValue_textOf {segments : List Segment} {trail : List Char}
    (hs : ∀ g ∈ segments, g.Lexical) (ht : Blank trail) :
    EndsValue (Decomposition.textOf segments trail) := by
  cases segments with
  | nil =>
    have : trimLeft trail = [] := by simpa [trimLeft] using trimLeft_blank [] ht
    simp [EndsValue, Decomposition.textOf, this]
  | cons g segments =>
    have hg := hs g (by simp)
    obtain ⟨c, rest, same, notBlank, notValue⟩ := hg.first
    rw [Decomposition.textOf, List.foldr_cons, Segment.before, EndsValue, trimLeft_blank _ hg.gap]
    simp [same, trimLeft, notBlank, notValue]

/-- Segments are read as their tokens, also when some of the white space before them is gone. -/
theorem read_textOf {segments : List Segment} {trail gap text : List Char} {fuel : Nat}
    (hs : ∀ g ∈ segments, g.Lexical) (ht : Blank trail) (hg : Blank gap)
    (same : gap ++ text = Decomposition.textOf segments trail) (le : text.length ≤ fuel) :
    Continuation.read fuel text = .ofTokens (segments.map (·.tokens)) := by
  induction segments generalizing gap text fuel with
  | nil =>
    change gap ++ text = trail at same
    have blank : Blank text := (blank_append.mp (same ▸ ht)).2
    cases fuel with
    | zero => rfl
    | succ fuel => simp [Continuation.read, Continuation.ofTokens, all_isBlank.mpr blank]
  | cons g segments ih =>
    have hl := hs g (by simp)
    have later : ∀ g ∈ segments, g.Lexical := fun g mem => hs g (by simp [mem])
    obtain ⟨c, symbol, hsym, notBlank, -⟩ := hl.first
    obtain ⟨left, hleft, rfl⟩ : ∃ left, Blank left ∧ text = left ++ (g.symbol ++
        (g.space ++ (g.token ++ Decomposition.textOf segments trail))) := by
      rw [hsym]
      refine blank_split hg notBlank (same.trans ?_) hl.gap
      simp [Decomposition.textOf, Segment.before, hsym]
    obtain ⟨more, rest, hmore, cut, read⟩ :=
      Lexer.readValue_token blank_nil hl.token (endsValue_textOf later ht)
    have nonempty : (g.token ++ Decomposition.textOf segments trail).isEmpty = false := by
      obtain ⟨d, run, same, -⟩ := isToken_first hl.token
      simp [same]
    have symbolic : g.symbol.isEmpty = false := by simp [hsym]
    have someLeft : (left ++ (g.symbol ++ (g.space ++
        (g.token ++ Decomposition.textOf segments trail)))).all isBlank = false := by
      simp [hsym, notBlank]
    cases fuel with
    | zero => simp [hsym] at le
    | succ fuel =>
      have shorter : rest.length ≤ fuel := by
        have := congrArg List.length cut
        simp only [hsym, List.length_append, List.length_cons] at le this
        omega
      rw [Continuation.read, someLeft]
      simp only [Bool.false_eq_true, if_false,
        Lexer.readOperator_symbol hleft hl.symbol hl.symbol_ne hl.space (hl.ends _), nonempty,
        symbolic]
      rw [List.nil_append] at read
      simp only [read, ih later hmore cut.symm shorter]
      rfl

/-- What the grammar writes is read as its tokens. -/
theorem read_lexical {d : Decomposition} (h : d.Lexical) :
    Phrase.read d.text = .ok ⟨d.first, .ofTokens (d.segments.map (·.tokens))⟩ := by
  obtain ⟨gap, rest, hg, cut, read⟩ :=
    Lexer.readValue_token h.lead h.first (endsValue_textOf h.segments h.trail)
  rw [Phrase.read, Decomposition.text, read]
  simp only [read_textOf h.segments h.trail hg cut.symm (Nat.le_refl _)]

/-! ## What is read is written by the grammar -/

/-- White space before segments belongs to the first of them, or to the end. -/
theorem textOf_blank {segments : List Segment} {trail gap : List Char}
    (hs : ∀ g ∈ segments, g.Lexical) (ht : Blank trail) (hg : Blank gap) :
    ∃ segments' trail', gap ++ Decomposition.textOf segments trail =
        Decomposition.textOf segments' trail' ∧
      segments'.map (·.tokens) = segments.map (·.tokens) ∧
      (∀ g ∈ segments', g.Lexical) ∧ Blank trail' := by
  cases segments with
  | nil => exact ⟨[], gap ++ trail, rfl, rfl, nofun, blank_append.mpr ⟨hg, ht⟩⟩
  | cons g segments =>
    obtain ⟨hl, later⟩ := List.forall_mem_cons.mp hs
    refine ⟨{ g with gap := gap ++ g.gap } :: segments, trail, ?_, rfl, ?_, ht⟩
    · simp [Decomposition.textOf, Segment.before]
    · exact List.forall_mem_cons.mpr ⟨{ hl with gap := blank_append.mpr ⟨hg, hl.gap⟩ }, later⟩

/-- The tokens that a value can be read from: not nothing, not a minus alone, and one run only. -/
def Sound (token : List Char) : Prop := token ≠ [] ∧ token ≠ ['-'] ∧ ¬ Lexer.Glued token

theorem readValue_sound {text token rest : List Char}
    (h : Lexer.readValue text = .ok ⟨token, rest⟩) (sound : Sound token) :
    isToken token = true ∧
      ∃ lead gap, Blank lead ∧ Blank gap ∧ text = lead ++ (token ++ (gap ++ rest)) := by
  rcases Lexer.readValue_spec h with empty | minus | glued | token
  · exact absurd empty sound.1
  · exact absurd minus sound.2.1
  · exact absurd glued sound.2.2
  · exact token

/-- How a clause has been read. -/
theorem read_eq_clause {fuel : Nat} {text symbol token : List Char} {next : Continuation}
    (h : Continuation.read fuel text = .clause symbol token next) :
    ∃ fuel' between rest, fuel = fuel' + 1 ∧ symbol ≠ [] ∧ between ≠ [] ∧
      Lexer.readOperator text = .ok ⟨symbol, between⟩ ∧
      Lexer.readValue between = .ok ⟨token, rest⟩ ∧ next = .read fuel' rest := by
  cases fuel with
  | zero => cases h
  | succ fuel =>
    rw [Continuation.read] at h
    split at h
    · cases h
    · split at h
      · cases h
      · rename_i found between operator
        split at h
        · cases h
        · rename_i some
          split at h
          · cases h
          · rename_i symbolic
            split at h
            · cases h
            · rename_i value rest read
              cases h
              exact ⟨fuel, between, rest, rfl, by simpa using symbolic, by simpa using some,
                operator, read, rfl⟩

theorem read_eq_done {fuel : Nat} {text : List Char} (le : text.length ≤ fuel)
    (h : Continuation.read fuel text = .done) : Blank text := by
  cases fuel with
  | zero =>
    rw [List.length_eq_zero_iff.mp (Nat.le_zero.mp le)]
    exact blank_nil
  | succ fuel =>
    rw [Continuation.read] at h
    split at h
    · rename_i blank; exact all_isBlank.mp blank
    · split at h
      · cases h
      · split at h
        · cases h
        · split at h
          · cases h
          · split at h <;> cases h

theorem textOf_of_read {fuel : Nat} {text : List Char} {tokens : List (List Char × List Char)}
    (le : text.length ≤ fuel) (h : Continuation.read fuel text = .ofTokens tokens)
    (sound : ∀ p ∈ tokens, Sound p.2) :
    ∃ segments trail, text = Decomposition.textOf segments trail ∧
      segments.map (·.tokens) = tokens ∧ (∀ g ∈ segments, g.Lexical) ∧ Blank trail := by
  induction tokens generalizing fuel text with
  | nil => exact ⟨[], text, rfl, rfl, nofun, read_eq_done le h⟩
  | cons p tokens ih =>
    obtain ⟨symbol, token⟩ := p
    obtain ⟨first, later⟩ := List.forall_mem_cons.mp sound
    obtain ⟨fuel, between, rest, rfl, symbol_ne, remains, operator, value, next⟩ := read_eq_clause h
    obtain ⟨gap, space, hgap, hsym, hspace, rfl, ends⟩ := Lexer.readOperator_spec operator
    obtain ⟨ht, lead, more, hlead, hmore, rfl⟩ := readValue_sound value first
    have shorter : rest.length ≤ fuel := by
      have := List.length_pos_iff.mpr symbol_ne
      simp only [List.length_append] at le
      omega
    obtain ⟨segments, trail, rfl, rfl, hsegs, htrail⟩ := ih shorter next.symm later
    obtain ⟨segments', trail', same, tokens', hsegs', htrail'⟩ := textOf_blank hsegs htrail hmore
    have minus : token.head? = some '-' → space ++ lead ≠ [] := by
      intro begins empty
      obtain ⟨rfl, rfl⟩ := List.append_eq_nil_iff.mp empty
      obtain ⟨c, run, rfl⟩ : ∃ c run, token = c :: run := List.exists_cons_of_ne_nil first.1
      obtain rfl : c = '-' := by simpa using begins
      obtain none | ⟨d, run', same, value | ⟨-, spaced⟩⟩ := ends
      · exact remains none
      · obtain ⟨rfl, -⟩ := List.cons.inj same
        cases value
      · exact spaced rfl
    refine ⟨⟨gap, symbol, space ++ lead, token⟩ :: segments', trail', ?_, ?_, ?_, htrail'⟩
    · simp only [Decomposition.textOf, List.foldr_cons, Segment.before, List.append_assoc] at same ⊢
      rw [← same]
    · rw [List.map_cons, tokens']; rfl
    · exact List.forall_mem_cons.mpr
        ⟨⟨hgap, hsym, symbol_ne, blank_append.mpr ⟨hspace, hlead⟩, ht, minus⟩, hsegs'⟩

/-- A text that is read as sound tokens is written by the grammar with these tokens. -/
theorem lexical_of_read {text first : List Char} {tokens : List (List Char × List Char)}
    (h : Phrase.read text = .ok ⟨first, .ofTokens tokens⟩) (sound : Sound first)
    (later : ∀ p ∈ tokens, Sound p.2) :
    ∃ d : Decomposition, d.Lexical ∧ d.text = text ∧ d.first = first ∧
      d.segments.map (·.tokens) = tokens := by
  simp only [Phrase.read] at h
  split at h
  · cases h
  · rename_i token rest value
    simp only [Except.ok.injEq, Phrase.mk.injEq] at h
    obtain ⟨rfl, read⟩ := h
    obtain ⟨ht, lead, gap, hl, hg, rfl⟩ := readValue_sound value sound
    obtain ⟨segments, trail, rfl, rfl, hs, htrail⟩ := textOf_of_read (Nat.le_refl _) read later
    obtain ⟨segments', trail', same, tokens', hs', htrail'⟩ := textOf_blank hs htrail hg
    exact ⟨⟨lead, token, segments', trail'⟩, ⟨hl, ht, hs', htrail'⟩,
      by rw [Decomposition.text, ← same], rfl, tokens'⟩

/-! ## Uniqueness -/

theorem textOf_unique {segments segments' : List Segment} {trail trail' : List Char}
    (hs : ∀ g ∈ segments, g.Lexical) (hs' : ∀ g ∈ segments', g.Lexical)
    (tokens : segments.map (·.tokens) = segments'.map (·.tokens))
    (same : Decomposition.textOf segments trail = Decomposition.textOf segments' trail') :
    segments = segments' ∧ trail = trail' := by
  induction segments generalizing segments' with
  | nil =>
    cases segments' with
    | nil => exact ⟨rfl, same⟩
    | cons g' segments' => cases tokens
  | cons g segments ih =>
    cases segments' with
    | nil => cases tokens
    | cons g' segments' =>
      obtain ⟨gap, symbol, space, token⟩ := g
      obtain ⟨gap', symbol', space', token'⟩ := g'
      obtain ⟨hl, later⟩ := List.forall_mem_cons.mp hs
      obtain ⟨hl', later'⟩ := List.forall_mem_cons.mp hs'
      simp only [List.map_cons, List.cons.injEq, Segment.tokens, Prod.mk.injEq] at tokens
      obtain ⟨⟨rfl, rfl⟩, tokens⟩ := tokens
      simp only [Decomposition.textOf, List.foldr_cons, Segment.before] at same
      obtain ⟨c, symbol, rfl, notBlank, -⟩ := hl.first
      obtain rfl : gap = gap' := blank_unique hl.gap hl'.gap notBlank notBlank same
      rw [List.append_cancel_left_eq, List.append_cancel_left_eq] at same
      obtain ⟨d, run, rfl, notBlank⟩ := isToken_first hl.token
      obtain rfl : space = space' := blank_unique hl.space hl'.space notBlank notBlank same
      rw [List.append_cancel_left_eq, List.append_cancel_left_eq] at same
      obtain ⟨rfl, rfl⟩ := ih later later' tokens same
      exact ⟨rfl, rfl⟩

/-- A text is written by the grammar in at most one way. -/
theorem Decomposition.unique {d d' : Decomposition} (h : d.Lexical) (h' : d'.Lexical)
    (same : d.text = d'.text) : d = d' := by
  have read := read_lexical h
  rw [same, read_lexical h'] at read
  simp only [Except.ok.injEq, Phrase.mk.injEq] at read
  obtain ⟨firsts, tokens⟩ := read
  obtain ⟨lead, first, segments, trail⟩ := d
  obtain ⟨lead', first', segments', trail'⟩ := d'
  obtain rfl : first' = first := firsts
  obtain ⟨c, run, rfl, notBlank⟩ := isToken_first h.first
  obtain rfl : lead = lead' := blank_unique h.lead h'.lead notBlank notBlank same
  simp only [Decomposition.text, List.append_cancel_left_eq] at same
  obtain ⟨rfl, rfl⟩ :=
    textOf_unique h.segments h'.segments (Continuation.ofTokens_inj tokens).symm same
  rfl

/-! ## Brackets -/

theorem blank_depthAfter {text : List Char} (h : Blank text) : depthAfter 0 text = some 0 := by
  refine depthAfter_plain 0 fun c mem => ⟨?_, ?_⟩
  · rintro rfl; cases h _ mem
  · rintro rfl; cases h _ mem

theorem isSymbol_depthAfter {text : List Char} (h : IsSymbol text) :
    depthAfter 0 text = some 0 := by
  refine depthAfter_plain 0 fun c mem => ⟨?_, ?_⟩
  · rintro rfl; cases (h _ mem).2
  · rintro rfl; cases (h _ mem).2

theorem read_depthAfter {fuel : Nat} {text : List Char} {tokens : List (List Char × List Char)}
    (le : text.length ≤ fuel) (h : Continuation.read fuel text = .ofTokens tokens) :
    depthAfter 0 text = some 0 := by
  induction tokens generalizing fuel text with
  | nil => exact blank_depthAfter (read_eq_done le h)
  | cons p tokens ih =>
    obtain ⟨symbol, token⟩ := p
    obtain ⟨fuel, between, rest, rfl, symbol_ne, -, operator, value, next⟩ := read_eq_clause h
    obtain ⟨gap, space, hgap, hsym, hspace, rfl, -⟩ := Lexer.readOperator_spec operator
    obtain ⟨raw, rfl, hraw⟩ := Lexer.scanValue_depth value
    have shorter : rest.length ≤ fuel := by
      have := List.length_pos_iff.mpr symbol_ne
      simp only [List.length_append] at le
      omega
    simp [depthAfter_append, blank_depthAfter hgap, isSymbol_depthAfter hsym,
      blank_depthAfter hspace, hraw, ih shorter next.symm]

/-- The brackets match in what is read as an expression. -/
theorem phrase_depthAfter {text first : List Char} {tokens : List (List Char × List Char)}
    (h : Phrase.read text = .ok ⟨first, .ofTokens tokens⟩) : depthAfter 0 text = some 0 := by
  simp only [Phrase.read] at h
  split at h
  · cases h
  · rename_i token rest value
    simp only [Except.ok.injEq, Phrase.mk.injEq] at h
    obtain ⟨raw, rfl, hraw⟩ := Lexer.scanValue_depth value
    simp [depthAfter_append, hraw, read_depthAfter (Nat.le_refl _) h.2]

end Calculator
