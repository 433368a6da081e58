import Calculator.Proofs.SaveLoad

/-!
# Calculator.Proofs.Rereading

What is read back of a saved state file, whatever the user has defined. A definition keeps the text
that it was read of, and line boundaries inside that text cut it into several lines.

* `StateFile.definitions_unlines`: the definitions on several lines are those on each of them, where
  no line ends in white space, whatever else is in it.
* `Runner.stateText_definitions`: a state file has the definitions that each function's line has on
  its own, and one for each variable. They are what was written exactly if no function holds a line
  boundary.
* `Runner.stateText_torn`: a function that holds one is cut in two.
-/

namespace Calculator

/-! ## Lines that run on -/

/-- Line endings are told one by one, unless a text is cut inside one. -/
theorem normalizeNewlines_append {text rest : List Char}
    (h : text.getLast? = some '\r' → rest.head? ≠ some '\n') :
    normalizeNewlines (text ++ rest) = normalizeNewlines text ++ normalizeNewlines rest := by
  fun_induction normalizeNewlines text with
  | case1 => rfl
  | case2 tail ih =>
    rw [List.cons_append, List.cons_append, normalizeNewlines, List.cons_append]
    refine congrArg _ (ih fun last => h ?_)
    cases tail with
    | nil => cases last
    | cons d tail => exact last
  | case3 c tail other ih =>
    have apart : ∀ more, c = '\r' → tail ++ rest = '\n' :: more → False := by
      intro more return_ feed
      cases tail with
      | nil =>
        subst return_
        rw [List.nil_append] at feed
        exact h rfl (by rw [feed]; rfl)
      | cons d tail =>
        rw [List.cons_append, List.cons.injEq] at feed
        exact other tail return_ (by rw [feed.1])
    rw [List.cons_append, normalizeNewlines, List.cons_append]
    · refine congrArg _ (ih fun last => h ?_)
      cases tail with
      | nil => cases last
      | cons d tail => exact last
    · exact apart

theorem return_not_mem_normalizeNewlines (text : List Char) : '\r' ∉ normalizeNewlines text := by
  fun_induction normalizeNewlines text with
  | case1 => exact List.not_mem_nil
  | case2 tail ih => simpa using ih
  | case3 c tail other ih =>
    rw [List.mem_cons, not_or]
    refine ⟨?_, ih⟩
    split
    · decide
    · rename_i plain
      exact fun same => plain (beq_iff_eq.mpr same.symm)

theorem linesFrom_plain {current : List Char} {c : Char} (rest : List Char) (h : c ≠ '\r') :
    linesFrom current (c :: rest) =
      if isLineBoundary c then current.reverse :: linesFrom [] rest
      else linesFrom (c :: current) rest := by
  rw [linesFrom]
  exact fun _ same => absurd same h

/-- A line feed after the last character of a text ends its last line. -/
theorem linesFrom_feed {text : List Char} (rest : List Char) : ∀ {current : List Char},
    '\r' ∉ text → (text = [] → current ≠ []) →
    (∀ c ∈ text.getLast?, isLineBoundary c = false) →
    linesFrom current (text ++ '\n' :: rest) = linesFrom current text ++ linesFrom [] rest := by
  induction text with
  | nil =>
    intro current _ begun _
    have filled : current.isEmpty = false := List.isEmpty_eq_false_iff.mpr (begun rfl)
    rw [List.nil_append, linesFrom_plain rest (by decide), if_pos (by decide), linesFrom, filled]
    rfl
  | cons c more ih =>
    intro current plain _ last
    rw [List.mem_cons, not_or] at plain
    have later : ∀ d ∈ more.getLast?, isLineBoundary d = false := by
      intro d hd
      apply last d
      cases more with
      | nil => cases hd
      | cons e more => exact hd
    have other : c ≠ '\r' := Ne.symm plain.1
    rw [List.cons_append, linesFrom_plain _ other, linesFrom_plain _ other]
    split
    · rename_i boundary
      have begun : more = [] → ([] : List Char) ≠ [] := by
        rintro rfl
        rw [last c rfl] at boundary
        cases boundary
      rw [ih plain.2 begun later, List.cons_append]
    · exact ih plain.2 (fun _ => List.cons_ne_nil _ _) later

namespace StateFile

/-- The definitions on a text that stands for itself. -/
def definitionsOn (text : List Char) : List String :=
  (lines (normalizeNewlines text)).filterMap definitionOn?

theorem definitions_text (text : String) : (definitions text).map (·.2) = definitionsOn text.toList :=
  definitions_lines text

theorem normalizeNewlines_feed (rest : List Char) :
    normalizeNewlines ('\n' :: rest) = '\n' :: normalizeNewlines rest := by
  rw [normalizeNewlines]
  · rfl
  · exact fun _ same => absurd same (by decide)

theorem definitionsOn_feed {text : List Char} (rest : List Char)
    (h : ∀ c ∈ text.getLast?, isBlank c = false) :
    definitionsOn (text ++ '\n' :: rest) = definitionsOn text ++ definitionsOn rest := by
  obtain rfl | ⟨before, last, whole⟩ := List.eq_nil_or_concat text
  · rw [List.nil_append, definitionsOn, normalizeNewlines_feed, lines,
      linesFrom_plain _ (by decide), if_pos (by decide), List.filterMap_cons]
    rfl
  · rw [List.concat_eq_append] at whole
    subst whole
    have filled : isBlank last = false := h last List.getLast?_concat
    have inside : isLineBoundary last = false :=
      unbroken_of_filled (List.forall_mem_singleton.mpr filled) last (List.mem_singleton_self last)
    have other (c : Char) (boundary : isLineBoundary c = true) : last ≠ c := by
      rintro rfl
      rw [inside] at boundary
      cases boundary
    have ended : normalizeNewlines (before ++ [last]) = normalizeNewlines before ++ [last] := by
      have noFeed : [last].head? ≠ some '\n' :=
        fun same => other '\n' (by decide) (Option.some.inj same)
      rw [normalizeNewlines_append fun _ => noFeed]
      simp [normalizeNewlines, other '\r' (by decide)]
    have apart : (before ++ [last]).getLast? = some '\r' → ('\n' :: rest).head? ≠ some '\n' := by
      intro same
      rw [List.getLast?_concat] at same
      exact absurd (Option.some.inj same) (other '\r' (by decide))
    have boundless : ∀ c ∈ (normalizeNewlines (before ++ [last])).getLast?,
        isLineBoundary c = false := by
      rw [ended, List.getLast?_concat]
      rintro c ⟨⟩
      exact inside
    have begun : normalizeNewlines (before ++ [last]) = [] → ([] : List Char) ≠ [] := by
      rw [ended]
      exact fun empty => absurd empty (List.append_ne_nil_of_right_ne_nil _ (List.cons_ne_nil _ _))
    rw [definitionsOn, normalizeNewlines_append apart, normalizeNewlines_feed, lines,
      linesFrom_feed _ (return_not_mem_normalizeNewlines _) begun boundless, List.filterMap_append]
    rfl

/-- The definitions on several lines are those on each of them, where none ends in white space. -/
theorem definitionsOn_unlines {texts : List (List Char)}
    (h : ∀ text ∈ texts, ∀ c ∈ text.getLast?, isBlank c = false) :
    definitionsOn (unlines texts) = texts.flatMap definitionsOn := by
  induction texts with
  | nil => rfl
  | cons text rest ih =>
    obtain ⟨first, later⟩ := List.forall_mem_cons.mp h
    rw [unlines_cons, definitionsOn_feed _ first, ih later, List.flatMap_cons]

theorem Written.definitionsOn {line : List Char} (h : Written line) :
    definitionsOn line = [String.ofList line] := by
  have single : ∀ text ∈ [line], Unbroken text := List.forall_mem_singleton.mpr h.unbroken
  have ended : ∀ text ∈ [line], ∀ c ∈ text.getLast?, isBlank c = false :=
    List.forall_mem_singleton.mpr h.edged.2
  have alone := definitionsOn_unlines ended
  rw [StateFile.definitionsOn, normalizeNewlines_plain (no_return single), lines_unlines single,
    List.flatMap_singleton] at alone
  rw [← alone, List.filterMap_cons, h.definition]
  rfl

theorem definitionsOn_written {texts : List String} (h : ∀ text ∈ texts, Written text.toList) :
    texts.flatMap (fun text => definitionsOn text.toList) = texts := by
  induction texts with
  | nil => rfl
  | cons text rest ih =>
    obtain ⟨first, later⟩ := List.forall_mem_cons.mp h
    rw [List.flatMap_cons, first.definitionsOn, ih later, String.ofList_toList]
    rfl

section

variable {functions : List UserFunction} {vars : List (String × Decimal)}

/-- A state file has the definitions that the lines of the functions have on their own, and one for
each variable. -/
theorem definitions_stated (hf : ∀ f ∈ functions, f.Stated)
    (hv : ∀ v ∈ vars, Label .variableName v.1.toList ∧ v.2.isFinite = true) :
    (definitions (format functions vars)).map (·.2) =
      (functions.flatMap fun f => (definitions f.definitionLine).map (·.2)) ++
        vars.map variableLine := by
  have filled : ∀ text ∈ ["# Expcalc state file.", "", "# Functions", "", "# Variables"],
      (text.toList.getLast?.all fun c => !isBlank c) = true := by decide
  have comment {text : String}
      (mem : text ∈ ["# Expcalc state file.", "", "# Functions", "", "# Variables"]) :
      ∀ c ∈ text.toList.getLast?, isBlank c = false := by
    intro c last
    have white := filled text mem
    rw [Option.mem_def.mp last] at white
    simpa using white
  have ended : ∀ line ∈ (stateLines functions vars).map String.toList, ∀ c ∈ line.getLast?,
      isBlank c = false := by
    intro line hline
    obtain ⟨text, mem, rfl⟩ := List.mem_map.mp hline
    simp only [stateLines, List.mem_append, List.mem_map] at mem
    obtain ((head | ⟨f, inside, rfl⟩) | head) | ⟨v, inside, rfl⟩ := mem
    · exact comment (List.mem_append_left ["", "# Variables"] head)
    · exact (worded_function (hf f inside)).edged.2
    · exact comment (List.mem_append_right ["# Expcalc state file.", "", "# Functions"] head)
    · exact (written_variable (hv v inside).1 (hv v inside).2).edged.2
  have first : ["# Expcalc state file.", "", "# Functions"].flatMap
      (fun text => definitionsOn text.toList) = [] := by decide
  have second : ["", "# Variables"].flatMap (fun text => definitionsOn text.toList) = [] := by
    decide
  have lineV : ∀ text ∈ vars.map variableLine, Written text.toList := by
    intro text mem
    obtain ⟨v, inside, rfl⟩ := List.mem_map.mp mem
    exact written_variable (hv v inside).1 (hv v inside).2
  rw [definitions_text, format_toList, definitionsOn_unlines ended, List.flatMap_map, stateLines,
    List.flatMap_append, List.flatMap_append, List.flatMap_append, first, second,
    definitionsOn_written lineV, List.flatMap_map, List.nil_append, List.append_nil]
  simp only [definitions_text]

/-- The definitions of a state file are what was written exactly if each function stands on one
line. -/
theorem definitions_stated_iff (hf : ∀ f ∈ functions, f.Stated)
    (hv : ∀ v ∈ vars, Label .variableName v.1.toList ∧ v.2.isFinite = true) :
    (definitions (format functions vars)).map (·.2) =
      functions.map (·.definitionLine) ++ vars.map variableLine ↔
        ∀ f ∈ functions, f.OnOneLine := by
  constructor
  · intro same f mem
    have listed : f.definitionLine ∈ (definitions (format functions vars)).map (·.2) := by
      rw [same]
      exact List.mem_append_left _ (List.mem_map_of_mem mem)
    obtain ⟨entry, inside, line⟩ := List.mem_map.mp listed
    have unbroken := definitions_unbroken _ entry inside
    rw [line] at unbroken
    exact (unbroken_definitionLine (hf f mem)).mp unbroken
  · intro onOneLine
    exact definitions_format (fun f mem => ⟨hf f mem, onOneLine f mem⟩) hv

end

end StateFile

namespace Runner

open StateFile

/-! ## Runners -/

/-- What the user has defined has the form of definitions. -/
structure Stated (r : Runner) : Prop where
  functions : ∀ e ∈ r.functions, e.2.Stated
  vars : ∀ e ∈ r.vars, Label .variableName e.1.toList ∧ e.2.isFinite = true

theorem edit_stated {allowed : String → Prop} {r r' : Runner} (h : r.Stated)
    (edit : Edit allowed r r') : r'.Stated :=
  ⟨edit_functions h.functions (fun _ read given => parse_stated _ read given) edit,
    edit_variables h.vars edit⟩

theorem edits_stated {allowed : String → Prop} {r r' : Runner} (h : r.Stated)
    (edits : Edits allowed r r') : r'.Stated := by
  induction edits with
  | refl => exact h
  | tail _ edit ih => exact edit_stated ih edit

theorem standard_stated {settings : Settings} {base : Path} {seed : Nat} {r : Runner}
    (h : standard settings base seed = .ok r) : r.Stated := by
  obtain ⟨ctx, printer, rfl⟩ := standard_eq_ok h
  exact ⟨nofun, nofun⟩

/-- What is read back of a saved state file. After any lines, it has the definitions that the line of
each function has on its own, and one for each variable. These are the lines that
were written, one for each function, exactly if no function holds a line boundary. -/
theorem stateText_definitions {settings : Settings} {base : Path} {seed : Nat} {start r : Runner}
    {handlings : List Handling} (created : standard settings base seed = .ok start)
    (course : Course start handlings r) :
    (definitions r.stateText).map (·.2) =
        (r.functions.flatMap fun e => (definitions e.2.definitionLine).map (·.2)) ++
          r.vars.map variableLine ∧
      ((definitions r.stateText).map (·.2) =
          r.functions.map (·.2.definitionLine) ++ r.vars.map variableLine ↔
        ∀ e ∈ r.functions, e.2.OnOneLine) := by
  have stated := edits_stated (standard_stated created) course.edits
  have functions : ∀ f ∈ r.functions.map (·.2), f.Stated := List.forall_mem_map.mpr stated.functions
  have whole := definitions_stated functions stated.vars
  have exactly := definitions_stated_iff functions stated.vars
  rw [List.flatMap_map] at whole
  rw [List.forall_mem_map, List.map_map] at exactly
  exact ⟨whole, exactly⟩

/-- Definitions of two functions and a variable. The second function runs over two lines. -/
def tornLines : List String :=
  [":define f(x) = [x > 1][2 * x] x + 1", ":define g(x) = x +\u2028 1", ":define v = -2.50"]

def tornRunner : Runner :=
  handleLines ⟨0, false⟩ ⟨["home"], [], []⟩ tornLines (usual ["home"] 0)

theorem tornRunner_course : ∃ handlings, Course (usual ["home"] 0) handlings tornRunner :=
  course_handleLines ⟨0, false⟩ tornLines ⟨["home"], [], []⟩ (usual ["home"] 0)

theorem stateText_definitions_torn : ∃ handlings, Course (usual ["home"] 0) handlings tornRunner ∧
    (definitions tornRunner.stateText).map (·.2) =
      ["f(x) = [x > 1][2 * x] x + 1", "g(x) = x +", "1", "v = -2.5"] := by
  obtain ⟨handlings, course⟩ := tornRunner_course
  obtain ⟨whole, -⟩ := stateText_definitions (standard_usual ["home"] 0) course
  exact ⟨handlings, course, whole.trans (by decide +kernel)⟩

/-- A function that runs over two lines can be called, but is not saved as one definition. -/
theorem stateText_torn : ∃ handlings, Course (usual ["home"] 0) handlings tornRunner ∧
    ((handle ⟨0, false⟩ (some "g(2)") tornRunner).run ⟨["home"], [], []⟩).2.2.value =
      some (.finite false 3 0) ∧
    (definitions tornRunner.stateText).map (·.2) ≠
      tornRunner.functions.map (·.2.definitionLine) ++ tornRunner.vars.map variableLine := by
  obtain ⟨handlings, course⟩ := tornRunner_course
  exact ⟨handlings, course, by decide +kernel, by decide +kernel⟩

end Runner
end Calculator
