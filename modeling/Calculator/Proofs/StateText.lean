import Calculator.Files.State
import Calculator.Proofs.Definitions
import Calculator.Proofs.PlainText

/-!
# Calculator.Proofs.StateText

The lines of state files, and the definitions on them.

* `fileLines_unlines`: a text that is put together of lines has these lines.
* `definitions_lines`: the definitions of a state file are those of its lines one by one.
* `definitions_format`: the definitions of a state file that was written are what it was written
  from, first the functions, then the variables.
-/

namespace Calculator

/-! ## Lines -/

theorem isBlank_of_isLineBoundary {c : Char} (h : isLineBoundary c = true) : isBlank c = true := by
  simp only [isLineBoundary, isBlank, Bool.or_eq_true, Bool.and_eq_true, decide_eq_true_eq,
    beq_iff_eq] at h ⊢
  omega

theorem unbroken_of_filled {text : List Char} (h : ∀ c ∈ text, isBlank c = false) : Unbroken text := by
  intro c hc
  cases boundary : isLineBoundary c with
  | false => rfl
  | true =>
    have blank := isBlank_of_isLineBoundary boundary
    rw [h c hc] at blank
    cases blank

/-- The lines of a file as it is read. -/
def fileLines (text : String) : List (List Char) := lines (normalizeNewlines text.toList)

/-- Lines, each with its line feed. -/
def unlines (texts : List (List Char)) : List Char := texts.flatMap fun text => text ++ ['\n']

theorem unlines_cons (text : List Char) (rest : List (List Char)) :
    unlines (text :: rest) = text ++ '\n' :: unlines rest := by simp [unlines]

theorem normalizeNewlines_plain {text : List Char} (h : '\r' ∉ text) : normalizeNewlines text = text := by
  induction text with
  | nil => rfl
  | cons c rest ih =>
    rw [List.mem_cons, not_or] at h
    have other : (c == '\r') = false := beq_eq_false_iff_ne.mpr (Ne.symm h.1)
    rw [normalizeNewlines]
    · rw [other, ih h.2]
      rfl
    · rintro _ rfl
      exact absurd rfl h.1

theorem linesFrom_unbroken {current text : List Char} (rest : List Char) (h : Unbroken text) :
    linesFrom current (text ++ '\n' :: rest) = (current.reverse ++ text) :: linesFrom [] rest := by
  induction text generalizing current with
  | nil =>
    rw [List.nil_append, linesFrom, if_pos (by decide), List.append_nil]
    rintro _ ⟨⟩
  | cons c more ih =>
    obtain ⟨first, later⟩ := List.forall_mem_cons.mp h
    rw [List.cons_append, linesFrom, if_neg (by simp [first]), ih later, List.reverse_cons,
      List.append_assoc, List.singleton_append]
    rintro _ rfl
    exact absurd first (by decide)

theorem lines_unlines {texts : List (List Char)} (h : ∀ text ∈ texts, Unbroken text) :
    lines (unlines texts) = texts := by
  induction texts with
  | nil => rfl
  | cons text rest ih =>
    obtain ⟨first, later⟩ := List.forall_mem_cons.mp h
    rw [unlines_cons, lines, linesFrom_unbroken _ first]
    exact congrArg (text :: ·) (ih later)

theorem linesFrom_pieces {current text : List Char} (h : Unbroken current) :
    ∀ line ∈ linesFrom current text, Unbroken line := by
  have turned {current : List Char} (h : Unbroken current) : Unbroken current.reverse :=
    fun c hc => h c (List.mem_reverse.mp hc)
  fun_induction linesFrom current text with
  | case1 current empty => exact nofun
  | case2 current filled => exact List.forall_mem_singleton.mpr (turned h)
  | case3 current rest ih => exact List.forall_mem_cons.mpr ⟨turned h, ih nofun⟩
  | case4 current c rest other boundary ih =>
    exact List.forall_mem_cons.mpr ⟨turned h, ih nofun⟩
  | case5 current c rest other inside ih =>
    exact ih (List.forall_mem_cons.mpr ⟨by simpa using inside, h⟩)

theorem no_return {texts : List (List Char)} (h : ∀ text ∈ texts, Unbroken text) :
    '\r' ∉ unlines texts := by
  intro mem
  obtain ⟨text, inside, at_⟩ := List.mem_flatMap.mp mem
  rw [List.mem_append, List.mem_singleton] at at_
  cases at_ with
  | inl inText => exact absurd (h text inside '\r' inText) (by decide)
  | inr feed => exact absurd feed (by decide)

theorem fileLines_unlines {text : String} {texts : List (List Char)}
    (h : ∀ line ∈ texts, Unbroken line) (same : text.toList = unlines texts) :
    fileLines text = texts := by
  rw [fileLines, same, normalizeNewlines_plain (no_return h), lines_unlines h]

theorem intercalate_feed {texts : List (List Char)} (ne : texts ≠ []) :
    ['\n'].intercalate texts ++ ['\n'] = unlines texts := by
  induction texts with
  | nil => exact absurd rfl ne
  | cons text rest ih =>
    cases rest with
    | nil => simp [List.intercalate, unlines]
    | cons next rest =>
      rw [unlines_cons, ← ih (List.cons_ne_nil _ _)]
      simp [List.intercalate]

/-! ## Definitions -/

namespace StateFile

/-- The definition on a line, if there is one. -/
def definitionOn? (line : List Char) : Option String :=
  let line := trim line
  if line.isEmpty || line.head? == some '#' then none else some (String.ofList line)

theorem definitionsFrom_lines (texts : List (List Char)) : ∀ number : Nat,
    (definitionsFrom number texts).map (·.2) = texts.filterMap definitionOn? := by
  induction texts with
  | nil =>
    intro number
    rfl
  | cons line rest ih =>
    intro number
    rw [definitionsFrom, List.filterMap_cons, definitionOn?]
    split
    · exact ih (number + 1)
    · rw [List.map_cons, ih (number + 1)]

theorem definitions_lines (text : String) :
    (definitions text).map (·.2) = (fileLines text).filterMap definitionOn? :=
  definitionsFrom_lines _ 1

/-- No definition of a state file has a line boundary in it. -/
theorem definitions_unbroken (text : String) : ∀ entry ∈ definitions text, Unbroken entry.2.toList := by
  intro entry mem
  have listed : entry.2 ∈ (definitions text).map (·.2) := List.mem_map_of_mem mem
  rw [definitions_lines, List.mem_filterMap] at listed
  obtain ⟨line, inside, found⟩ := listed
  have unbroken : Unbroken line := linesFrom_pieces (by decide : Unbroken []) line inside
  rw [definitionOn?] at found
  split at found
  · cases found
  · intro c hc
    rw [← Option.some.inj found, String.toList_ofList] at hc
    exact unbroken c (mem_trim hc)

/-- Texts that are no comments, and without white space around them. -/
structure Worded (line : List Char) : Prop where
  edged : Edged line
  filled : line ≠ []
  uncommented : line.head? ≠ some '#'

/-- Lines that hold definitions, as they are written. -/
structure Written (line : List Char) : Prop extends Worded line where
  unbroken : Unbroken line

theorem Worded.definition {line : List Char} (h : Worded line) :
    definitionOn? line = some (String.ofList line) := by
  have filled := List.isEmpty_eq_false_iff.mpr h.filled
  have uncommented : (line.head? == some '#') = false := beq_eq_false_iff_ne.mpr h.uncommented
  simp only [definitionOn?, trim_of_edged h.edged, filled, uncommented, Bool.or_false,
    Bool.false_eq_true, if_false]

/-- A text that begins with a name and ends in a text without white space at its end. -/
theorem worded_of_name {role : Role} {name last : List Char} (middle : List Char)
    (label : Label role name) (edged : Edged last) (filled : last ≠ []) :
    Worded (name ++ middle ++ last) := by
  obtain ⟨c, rest, rfl⟩ := List.exists_cons_of_ne_nil label.ne
  have first := label.symbols c List.mem_cons_self
  have head : ∀ d ∈ (c :: rest ++ middle).head?, isBlank d = false := by
    rintro d ⟨⟩
    exact label.filled c List.mem_cons_self
  refine ⟨edged_append head edged (List.cons_ne_nil _ _) filled, by simp, ?_⟩
  rintro ⟨⟩
  cases first

theorem unbroken_append {first last : List Char} :
    Unbroken (first ++ last) ↔ Unbroken first ∧ Unbroken last := List.forall_mem_append

theorem unbroken_cons {c : Char} {text : List Char} :
    Unbroken (c :: text) ↔ isLineBoundary c = false ∧ Unbroken text := List.forall_mem_cons

theorem unbroken_commaSeparated {role : Role} {texts : List (List Char)}
    (h : ∀ text ∈ texts, Label role text) : Unbroken (commaSeparated texts) := by
  intro c hc
  obtain rfl | ⟨text, mem, inside⟩ := Definition.mem_commaSeparated hc
  · decide
  · exact unbroken_of_filled (h text mem).filled c inside

theorem worded_function {f : UserFunction} (h : f.Stated) : Worded f.definitionLine.toList := by
  rw [UserFunction.definitionLine_toList]
  have worded := worded_of_name ('(' :: (commaSeparated (f.parameters.map String.toList) ++
      [')', ' ', '='] ++ UserFunction.guardText f.guard ++ [' '])) h.name h.edged h.filled
  simpa using worded

theorem unbroken_guardText {guard : Option Guard} : Unbroken (UserFunction.guardText guard) ↔
    ∀ g ∈ guard, Unbroken g.condition.toList ∧ Unbroken g.result.toList := by
  have space : isLineBoundary ' ' = false := by decide
  have bracket : isLineBoundary '[' = false ∧ isLineBoundary ']' = false := by decide
  have nothing : Unbroken [] := nofun
  cases guard with
  | none => simp [UserFunction.guardText, nothing]
  | some g => simp [UserFunction.guardText, unbroken_cons, unbroken_append, space, bracket, nothing]

/-- A function stands on one line exactly if its line does. -/
theorem unbroken_definitionLine {f : UserFunction} (h : f.Stated) :
    Unbroken f.definitionLine.toList ↔ f.OnOneLine := by
  have labels : ∀ p ∈ f.parameters.map String.toList, Label .parameterName p := by
    intro p hp
    obtain ⟨p', mem, rfl⟩ := List.mem_map.mp hp
    exact h.parameters p' mem
  have names := unbroken_of_filled h.name.filled
  have parameters := unbroken_commaSeparated labels
  have marks : Unbroken [')', ' ', '='] ∧ Unbroken [')'] ∧ Unbroken [' '] := by decide
  have others : isLineBoundary '(' = false ∧ isLineBoundary ' ' = false ∧
      isLineBoundary '=' = false := by decide
  rw [UserFunction.definitionLine_toList]
  simp only [unbroken_append, unbroken_cons, names, parameters, marks, others, true_and,
    unbroken_guardText]
  exact ⟨fun ⟨guard, body⟩ => ⟨body, guard⟩, fun h => ⟨h.unbrokenGuard, h.unbroken⟩⟩

theorem written_function {f : UserFunction} (h : f.Storable) : Written f.definitionLine.toList :=
  ⟨worded_function h.toStated, (unbroken_definitionLine h.toStated).mpr h.toOnOneLine⟩

/-- A variable as a definition. -/
def variableLine (entry : String × Decimal) : String :=
  entry.1 ++ " = " ++ String.ofList entry.2.toPlain

theorem toPlain_filled {a : Decimal} (h : a.isFinite = true) : ∀ c ∈ a.toPlain, isBlank c = false := by
  obtain ⟨minus, n, reading⟩ := Decimal.toPlain_reading h
  intro c hc
  rw [reading.text, List.mem_append] at hc
  cases hc with
  | inl sign =>
    cases minus with
    | true =>
      rw [List.mem_singleton.mp sign]
      decide
    | false => cases sign
  | inr digit => exact isBlank_of_isValueSymbol (isNumeralSymbol_value (n.symbols c digit)).1

theorem toPlain_ne {a : Decimal} (h : a.isFinite = true) : a.toPlain ≠ [] := by
  obtain ⟨minus, n, reading⟩ := Decimal.toPlain_reading h
  rw [reading.text]
  exact List.append_ne_nil_of_right_ne_nil _ n.text_ne

theorem toPlain_edged {a : Decimal} (h : a.isFinite = true) : Edged a.toPlain :=
  ⟨fun c hc => toPlain_filled h c (List.mem_of_mem_head? hc),
    fun c hc => toPlain_filled h c (List.mem_of_getLast? hc)⟩

theorem written_variable {entry : String × Decimal} (label : Label .variableName entry.1.toList)
    (finite : entry.2.isFinite = true) : Written (variableLine entry).toList := by
  have worded := worded_of_name [' ', '=', ' '] label (toPlain_edged finite) (toPlain_ne finite)
  have marks : Unbroken [' ', '=', ' '] := by decide
  have unbroken : Unbroken (entry.1.toList ++ [' ', '=', ' '] ++ entry.2.toPlain) :=
    unbroken_append.mpr ⟨unbroken_append.mpr ⟨unbroken_of_filled label.filled, marks⟩,
      unbroken_of_filled (toPlain_filled finite)⟩
  refine ⟨?_, ?_⟩
  · simpa [variableLine] using worded
  · simpa [variableLine] using unbroken

theorem definitions_written {texts : List String} (h : ∀ text ∈ texts, Written text.toList) :
    (texts.map String.toList).filterMap definitionOn? = texts := by
  induction texts with
  | nil => rfl
  | cons text rest ih =>
    obtain ⟨first, later⟩ := List.forall_mem_cons.mp h
    rw [List.map_cons, List.filterMap_cons, first.definition, ih later, String.ofList_toList]

/-- The lines of a state file, of which some are comments or blank. -/
def stateLines (functions : List UserFunction) (vars : List (String × Decimal)) : List String :=
  ["# Expcalc state file.", "", "# Functions"] ++ functions.map (·.definitionLine) ++
    ["", "# Variables"] ++ vars.map variableLine

theorem format_toList (functions : List UserFunction) (vars : List (String × Decimal)) :
    (format functions vars).toList = unlines ((stateLines functions vars).map String.toList) := by
  have ne : (stateLines functions vars).map String.toList ≠ [] := by simp [stateLines]
  rw [← intercalate_feed ne]
  change (String.intercalate "\n" (stateLines functions vars) ++ "\n").toList = _
  rw [String.toList_append, String.toList_intercalate]
  rfl

section

variable {functions : List UserFunction} {vars : List (String × Decimal)}

theorem fileLines_format (hf : ∀ f ∈ functions, f.Storable)
    (hv : ∀ v ∈ vars, Label .variableName v.1.toList ∧ v.2.isFinite = true) :
    fileLines (format functions vars) = (stateLines functions vars).map String.toList := by
  apply fileLines_unlines _ (format_toList functions vars)
  intro line hline
  obtain ⟨text, mem, rfl⟩ := List.mem_map.mp hline
  have comment : ∀ text ∈ ["# Expcalc state file.", "", "# Functions", "", "# Variables"],
      Unbroken text.toList := by decide
  simp only [stateLines, List.mem_append, List.mem_map] at mem
  obtain ((head | ⟨f, inside, rfl⟩) | head) | ⟨v, inside, rfl⟩ := mem
  · exact comment text (List.mem_append_left ["", "# Variables"] head)
  · exact (written_function (hf f inside)).unbroken
  · exact comment text (List.mem_append_right ["# Expcalc state file.", "", "# Functions"] head)
  · exact (written_variable (hv v inside).1 (hv v inside).2).unbroken

theorem definitions_format (hf : ∀ f ∈ functions, f.Storable)
    (hv : ∀ v ∈ vars, Label .variableName v.1.toList ∧ v.2.isFinite = true) :
    (definitions (format functions vars)).map (·.2) =
      functions.map (·.definitionLine) ++ vars.map variableLine := by
  have first : (["# Expcalc state file.", "", "# Functions"].map String.toList).filterMap
      definitionOn? = [] := by decide
  have second : (["", "# Variables"].map String.toList).filterMap definitionOn? = [] := by decide
  have lineF : ∀ text ∈ functions.map (·.definitionLine), Written text.toList := by
    intro text mem
    obtain ⟨f, inside, rfl⟩ := List.mem_map.mp mem
    exact written_function (hf f inside)
  have lineV : ∀ text ∈ vars.map variableLine, Written text.toList := by
    intro text mem
    obtain ⟨v, inside, rfl⟩ := List.mem_map.mp mem
    exact written_variable (hv v inside).1 (hv v inside).2
  rw [definitions_lines, fileLines_format hf hv, stateLines, List.map_append, List.map_append,
    List.map_append, List.filterMap_append, List.filterMap_append, List.filterMap_append, first,
    second, definitions_written lineF, definitions_written lineV, List.nil_append, List.append_nil]

end

end StateFile
end Calculator
